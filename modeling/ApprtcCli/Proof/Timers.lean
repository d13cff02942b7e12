import ApprtcCli.Proof.Cut

/-!
# Exactly one watchdog

Timers are never removed, only outrun by a generation counter. The invariant is a
count: of the tasks still to run, exactly one carries the current generation of
the timer that is due, the startup timer before the call is established and the
duration timer after. A new generation is above every one in the load, so
scheduling makes the count one, and a timer that finds itself outrun was not the
one that counts.
-/

namespace ApprtcCli.Proof

open Lib Call

variable {env : Env}

/-- The timers of the controller. -/
def isTimer : Task → Bool
  | .startupTimeout _ => true
  | .callDuration _ => true
  | _ => false

theorem isTimer_iff {t : Task} :
    isTimer t = true ↔ ∃ g, t = .startupTimeout g ∨ t = .callDuration g := by
  cases t <;> simp [isTimer]

/-- `Finish` is about to be called. -/
def Phase.finishes : Phase → Bool
  | .finishing _ _ => true
  | _ => false

structure Watched (p : Phase) (w : World) : Prop where
  startups : ∀ g, w.ctl.startupTimeoutGeneration < g →
    (load p w).count (.startupTimeout g) = 0
  durations : ∀ g, w.ctl.callDurationGeneration < g →
    (load p w).count (.callDuration g) = 0
  /-- Before the call is established the startup timer is due. -/
  early : w.ctl.finished = false → p.finishes = false → w.ctl.callEstablished = false →
    (load p w).count (.startupTimeout w.ctl.startupTimeoutGeneration) = 1
  /-- After that the duration timer is. -/
  late : w.ctl.finished = false → p.finishes = false → w.ctl.callEstablished = true →
    (load p w).count (.callDuration w.ctl.callDurationGeneration) = 1

/-- The fields `Watched` speaks of. -/
structure SameWatch (w w' : World) : Prop where
  finished : w'.ctl.finished = w.ctl.finished
  established : w'.ctl.callEstablished = w.ctl.callEstablished
  startup : w'.ctl.startupTimeoutGeneration = w.ctl.startupTimeoutGeneration
  duration : w'.ctl.callDurationGeneration = w.ctl.callDurationGeneration

/-- A move that neither starts nor drops a timer keeps the watch. -/
theorem Watched.frame {p p' : Phase} {w w' : World} (h : Watched p w) (hs : SameWatch w w')
    (hp : w.ctl.finished = false → p'.finishes = false → p.finishes = false)
    (hload : ∀ t, isTimer t = true → (load p' w').count t = (load p w).count t) :
    Watched p' w' := by
  have hstart : ∀ g,
      (load p' w').count (.startupTimeout g) = (load p w).count (.startupTimeout g) :=
    fun g => hload _ rfl
  have hdur : ∀ g, (load p' w').count (.callDuration g) = (load p w).count (.callDuration g) :=
    fun g => hload _ rfl
  constructor
  · intro g hg
    rw [hs.startup] at hg
    rw [hstart]
    exact h.startups g hg
  · intro g hg
    rw [hs.duration] at hg
    rw [hdur]
    exact h.durations g hg
  · rw [hs.finished, hs.established, hs.startup, hstart]
    exact fun hf hr => h.early hf (hp hf hr)
  · rw [hs.finished, hs.established, hs.duration, hdur]
    exact fun hf hr => h.late hf (hp hf hr)

/-- Where the call is over or about to be, the generations have only to stay ahead. -/
theorem Watched.over {p p' : Phase} {w w' : World} (h : Watched p w)
    (hover : w'.ctl.finished = true ∨ p'.finishes = true)
    (hs : w.ctl.startupTimeoutGeneration ≤ w'.ctl.startupTimeoutGeneration)
    (hd : w.ctl.callDurationGeneration ≤ w'.ctl.callDurationGeneration)
    (hload : ∀ t, isTimer t = true → (load p' w').count t ≤ (load p w).count t) :
    Watched p' w' := by
  constructor
  · intro g hg
    have hold := h.startups g (by omega)
    have hle := hload (.startupTimeout g) rfl
    omega
  · intro g hg
    have hold := h.durations g (by omega)
    have hle := hload (.callDuration g) rfl
    omega
  · intro hf hp
    rcases hover with ho | ho
    · rw [ho] at hf; cases hf
    · rw [ho] at hp; cases hp
  · intro hf hp
    rcases hover with ho | ho
    · rw [ho] at hf; cases hf
    · rw [ho] at hp; cases hp

theorem watched_init : Watched .idle initial where
  startups g hg := by
    have hg : 1 < g := hg
    have hload : load .idle initial = [.startupTimeout 1, .joinComplete] := rfl
    rw [hload]
    simp [List.count_cons]
    omega
  durations g hg := by
    have hload : load .idle initial = [.startupTimeout 1, .joinComplete] := rfl
    rw [hload]
    simp
  early _ _ _ := by decide
  late _ _ h := absurd h (by decide)

/-- A timer that finds itself outrun is not the one that is due. -/
theorem ignored_timer {w : World} {t : Task} (h : Ignored w t)
    (hf : w.ctl.finished = false) :
    (w.ctl.callEstablished = false → t ≠ .startupTimeout w.ctl.startupTimeoutGeneration)
      ∧ (w.ctl.callEstablished = true → t ≠ .callDuration w.ctl.callDurationGeneration) := by
  refine ⟨fun he ht => ?_, fun he ht => ?_⟩
  · subst ht
    simp [Ignored, startupTimeoutLive, hf, he] at h
  · subst ht
    simp [Ignored, callDurationLive, hf, he] at h

/-- **Kept by every move.** -/
theorem watched_move {p p' : Phase} {w w' : World} (h : Watched p w)
    (hm : Move env p w p' w') : Watched p' w' := by
  cases hm with
  | @ignore _ t r hi =>
      -- the load loses this task, which is not the timer that is due
      have hcons : ∀ x,
          (load (.run t r) w).count x = w.pending.count x + (if t == x then 1 else 0) :=
        fun x => List.count_cons
      constructor
      · intro g hg
        have hold := h.startups g hg
        rw [hcons] at hold
        exact (Nat.add_eq_zero_iff.mp hold).1
      · intro g hg
        have hold := h.durations g hg
        rw [hcons] at hold
        exact (Nat.add_eq_zero_iff.mp hold).1
      · intro hf _ he
        have hne := (ignored_timer hi hf).1 he
        have hold := h.early hf rfl he
        rwa [hcons, if_neg (by simpa using hne)] at hold
      · intro hf _ he
        have hne := (ignored_timer hi hf).2 he
        have hold := h.late hf rfl he
        rwa [hcons, if_neg (by simpa using hne)] at hold
  | startupTimer | durationTimer =>
      refine h.over (Or.inr rfl) (Nat.le_refl _) (Nat.le_refl _) ?_
      intro t ht
      simp [load, List.count_cons]
  | byeSent hf =>
      refine h.over (Or.inl hf) (Nat.le_refl _) (Nat.le_refl _) ?_
      intro t ht
      simp [load, List.count_cons]
  | byeStarted hf hj =>
      refine h.over (Or.inl rfl) (Nat.le_succ _) (Nat.le_succ _) ?_
      intro t ht
      obtain ⟨g, rfl | rfl⟩ := isTimer_iff.mp ht <;> simp [load]
  | ended hf hr =>
      refine h.over (Or.inl rfl) (Nat.le_succ _) (Nat.le_succ _) ?_
      intro t ht
      simp [load]
  | registered hf =>
      refine h.frame ⟨rfl, rfl, rfl, rfl⟩ (fun _ _ => rfl) ?_
      intro t ht
      have hnone : (if w.ctl.statsRunning = true then [] else [Task.stats]).count t = 0 := by
        refine countP_statsStarted ?_ _
        obtain ⟨g, rfl | rfl⟩ := isTimer_iff.mp ht <;> rfl
      obtain ⟨g, rfl | rfl⟩ := isTimer_iff.mp ht <;> simpa [load] using hnone
  | @established _ t r ht hf he =>
      -- the new duration timer is above every one in the load
      have hnew := h.durations (w.ctl.callDurationGeneration + 1) (Nat.lt_succ_self _)
      have hload : ∀ x, (load (.run t r) (establishedNow w)).count x
          = (load (.run t r) w).count x
            + (if Task.callDuration (w.ctl.callDurationGeneration + 1) == x then 1 else 0) := by
        intro x
        simp only [load, establishedNow_pending, List.count_cons, List.count_append, List.count_nil]
        omega
      -- the startup generation moves on, and the duration timer takes over
      constructor
      · intro g hg
        have hg : w.ctl.startupTimeoutGeneration + 1 < g := hg
        rw [hload]
        simpa using h.startups g (by omega)
      · intro g hg
        have hg : w.ctl.callDurationGeneration + 1 < g := hg
        rw [hload, h.durations g (by omega), if_neg (by simp; omega)]
      · intro _ _ he'
        cases he'
      · intro _ _ _
        have hgen : (establishedNow w).ctl.callDurationGeneration
            = w.ctl.callDurationGeneration + 1 := rfl
        rw [hgen, hload, hnew, if_pos (by simp)]
  | @fail _ t _ _ _ ht _ =>
      refine h.over (Or.inr rfl) (Nat.le_refl _) (Nat.le_refl _) ?_
      intro t ht
      simp [load, List.count_cons]
  | already hf =>
      exact h.over (Or.inl hf) (Nat.le_refl _) (Nat.le_refl _) (fun _ _ => Nat.le_refl _)
  | _ =>
      refine h.frame ⟨rfl, rfl, rfl, rfl⟩ (fun _ _ => rfl) ?_
      intro t ht
      obtain ⟨g, rfl | rfl⟩ := isTimer_iff.mp ht <;>
        simp [load, List.count_cons, World.pending]

theorem watched_enter {p : Phase} {w w' : World} {l : Label} (h : Watched .idle w)
    (he : Enter w l p w') :
    Watched p w' := by
  cases he with
  | post hi =>
      exact h.frame ⟨rfl, rfl, rfl, rfl⟩ (fun _ _ => rfl) (fun t _ => (load_post hi).count_eq t)
  | @event t hr =>
      refine h.frame ⟨rfl, rfl, rfl, rfl⟩ (fun _ _ => rfl) ?_
      intro x hx
      -- the clock is not an event source
      have hne : t ≠ x := by
        rintro rfl
        obtain ⟨g, rfl | rfl⟩ := isTimer_iff.mp hx <;> cases hr
      simp only [load, World.pending, List.count_append, List.count_singleton]
      rw [if_neg (by simpa using hne)]
      omega
  | run hq => exact h.frame ⟨rfl, rfl, rfl, rfl⟩ (fun _ _ => rfl) (fun t _ => by rw [load_run hq])
  | destroy hq hf =>
      refine h.over (Or.inl hf) (Nat.le_refl _) (Nat.le_refl _) ?_
      intro t _
      simp [load, World.pending]

theorem watched_visited {p : Phase} {w : World} (h : Visited env p w) : Watched p w :=
  h.invariant (I := Watched) watched_init (fun _ _ _ _ _ hb he => watched_enter hb he)
    (fun _ _ _ _ _ hb hm => watched_move hb hm)

/-! ## The watchdog -/

/-- A timer whose guard lets it end the call. -/
def canAct (w : World) : Task → Bool
  | .startupTimeout generation => startupTimeoutLive generation w
  | .callDuration generation => callDurationLive generation w
  | _ => false

theorem canAct_early {w : World} (hf : w.ctl.finished = false)
    (he : w.ctl.callEstablished = false) (t : Task) :
    canAct w t = true ↔ t = .startupTimeout w.ctl.startupTimeoutGeneration := by
  cases t <;> simp [canAct, startupTimeoutLive, callDurationLive, hf, he]

theorem canAct_late {w : World} (hf : w.ctl.finished = false)
    (he : w.ctl.callEstablished = true) (t : Task) :
    canAct w t = true ↔ t = .callDuration w.ctl.callDurationGeneration := by
  cases t <;> simp [canAct, startupTimeoutLive, callDurationLive, hf, he]

/-- **One live watchdog**, until the call finishes, in every reachable state. -/
theorem one_live_watchdog {w : World} (h : Reached env w) :
    (w.ctl.finished = false → w.ctl.callEstablished = false →
      w.pending.count (.startupTimeout w.ctl.startupTimeoutGeneration) = 1
        ∧ ∀ g, canAct w (.callDuration g) = false)
    ∧ (w.ctl.finished = false → w.ctl.callEstablished = true →
      w.pending.count (.callDuration w.ctl.callDurationGeneration) = 1
        ∧ ∀ g, canAct w (.startupTimeout g) = false)
    ∧ (w.ctl.finished = true → ∀ t ∈ w.pending, canAct w t = false)
    ∧ (w.ctl.finished = false → w.pending.countP (canAct w) = 1) := by
  have hw := watched_visited (reached_visited h)
  refine ⟨fun hf he => ⟨hw.early hf rfl he, ?_⟩, fun hf he => ⟨hw.late hf rfl he, ?_⟩, ?_, ?_⟩
  · intro g
    simp [canAct, callDurationLive, he]
  · intro g
    simp [canAct, startupTimeoutLive, he]
  · intro hf t _
    cases t <;> simp [canAct, startupTimeoutLive, callDurationLive, hf]
  · intro hf
    -- the timer that can act is the one that was counted
    cases he : w.ctl.callEstablished with
    | false =>
        rw [← hw.early hf rfl he]
        exact List.countP_congr fun t _ => by rw [canAct_early hf he, beq_iff_eq]
    | true =>
        rw [← hw.late hf rfl he]
        exact List.countP_congr fun t _ => by rw [canAct_late hf he, beq_iff_eq]

/-- In an established call the duration timer is the one that is left. -/
theorem one_live_watchdog_established :
    (after (.smooth []) (joinLabels {} ++ establishLabels)).ctl.callEstablished = true
      ∧ (after (.smooth []) (joinLabels {} ++ establishLabels)).pending.countP
        (canAct (after (.smooth []) (joinLabels {} ++ establishLabels))) = 1 :=
  ⟨by decide, (one_live_watchdog (reached_after (.smooth []) rfl)).2.2.2 (by decide)⟩

end ApprtcCli.Proof
