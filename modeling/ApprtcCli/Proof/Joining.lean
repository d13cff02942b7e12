import ApprtcCli.Proof.Timers

/-!
# Before the join

Until the room server has answered, nothing has happened: the only tasks there can
be are the join completion and the startup timer, no message was queued, and the
history holds no more than state changes. `OnJoinComplete` starts from there, and it
starts once.
-/

namespace ApprtcCli.Proof

open Lib Call

variable {env : Env}

/-- The tasks there can be before the join. -/
def isEarly : Task → Bool
  | .joinComplete => true
  | .startupTimeout _ => true
  | _ => false

/-- What can happen before messages are queued. -/
def isSetUp : Action → Bool
  | .state _ => true
  | .created _ => true
  | .deref _ live => live
  | _ => false

/-- Nothing has been negotiated yet. -/
structure Waiting (p : Phase) (w : World) : Prop where
  finished : w.ctl.finished = false
  ready : w.ctl.negotiationReady = false
  pending : w.ctl.pendingSignalingMessages = []
  unestablished : w.ctl.callEstablished = false
  buffer : w.peer.pendingRemoteCandidates = []
  closed : w.webSocketStarted = false
  history : ∀ a ∈ w.trace, isSetUp a = true
  tasks : ∀ t ∈ load p w, isEarly t = true
  settled : p ≠ .pump

/-- The join response is not there yet, or is just being acted on. -/
def Fresh (p : Phase) (w : World) : Prop :=
  (∃ joinResponse, p = .setUp joinResponse)
    ∨ (w.ctl.joinResponse = none ∧ w.ctl.finished = false ∧ p.finishes = false)

structure Joining (p : Phase) (w : World) : Prop where
  /-- A join completes once. -/
  once : (load p w).count .joinComplete + (if w.ctl.joinResponse.isSome then 1 else 0) ≤ 1
  fresh : Fresh p w → Waiting p w

/-- A move after which there is nothing left to wait for. -/
theorem Joining.past {p p' : Phase} {w w' : World} (h : Joining p w)
    (hset : ∀ joinResponse, p' ≠ .setUp joinResponse)
    (hpast : w'.ctl.joinResponse.isSome = true ∨ w'.ctl.finished = true ∨ p'.finishes = true)
    (hj : w'.ctl.joinResponse = w.ctl.joinResponse)
    (hload : (load p' w').count .joinComplete ≤ (load p w).count .joinComplete) :
    Joining p' w' := by
  refine ⟨?_, ?_⟩
  · have hone := h.once
    rw [hj]
    omega
  · rintro (⟨jr, hp⟩ | ⟨hn, hf, hp⟩)
    · exact absurd hp (hset jr)
    · rcases hpast with hc | hc | hc
      · rw [hn] at hc; cases hc
      · rw [hf] at hc; cases hc
      · rw [hp] at hc; cases hc

/-- A task that cannot run before the join. -/
theorem Joining.later {t : Task} {r : Reply} {p' : Phase} {w w' : World}
    (h : Joining (.run t r) w) (ht : isEarly t = false)
    (hset : ∀ joinResponse, p' ≠ .setUp joinResponse)
    (hf : w'.ctl.finished = w.ctl.finished)
    (hj : w'.ctl.joinResponse = w.ctl.joinResponse)
    (hload : (load p' w').count .joinComplete ≤ (load (.run t r) w).count .joinComplete) :
    Joining p' w' := by
  refine ⟨?_, ?_⟩
  · have hone := h.once
    rw [hj]
    omega
  · rintro (⟨jr, hp⟩ | ⟨hn, hf', hp⟩)
    · exact absurd hp (hset jr)
    · have hw := h.fresh (Or.inr ⟨by rw [← hj]; exact hn, by rw [← hf]; exact hf', rfl⟩)
      have hte := hw.tasks t (List.mem_cons_self ..)
      rw [ht] at hte
      cases hte

/-- The assignments of `OnJoinComplete` keep the calm they start in. -/
theorem Joining.calm {joinResponse : JoinResponse} {w w' : World}
    (h : Joining (.setUp joinResponse) w)
    (hctl : w'.ctl = w.ctl) (hweb : w'.webSocketStarted = w.webSocketStarted)
    (hbuf : w'.peer.pendingRemoteCandidates = w.peer.pendingRemoteCandidates
      ∨ w'.peer.pendingRemoteCandidates = [])
    (hpend : w'.pending = w.pending)
    (htrace : ∃ actions, w'.trace = w.trace ++ actions ∧ ∀ a ∈ actions, isSetUp a = true) :
    Joining (.setUp joinResponse) w' := by
  obtain ⟨actions, htrace, hactions⟩ := htrace
  have hload : load (.setUp joinResponse) w' = load (.setUp joinResponse) w := hpend
  have hw := h.fresh (Or.inl ⟨_, rfl⟩)
  refine ⟨by rw [hload, hctl]; exact h.once, fun _ => ?_⟩
  refine
    { finished := by rw [hctl]; exact hw.finished
      ready := by rw [hctl]; exact hw.ready
      pending := by rw [hctl]; exact hw.pending
      unestablished := by rw [hctl]; exact hw.unestablished
      buffer := ?_
      closed := by rw [hweb]; exact hw.closed
      history := ?_
      tasks := by rw [hload]; exact hw.tasks
      settled := by simp }
  · rcases hbuf with hb | hb
    · rw [hb]; exact hw.buffer
    · exact hb
  · intro a ha
    rw [htrace] at ha
    exact (List.mem_append.mp ha).elim (hw.history a) (hactions a)

/-- A join that completes is the first to. -/
theorem Joining.unjoined {r : Reply} {w : World} (h : Joining (.run .joinComplete r) w) :
    w.ctl.joinResponse = none := by
  have hone := h.once
  cases hj : w.ctl.joinResponse with
  | none => rfl
  | some jr => simp [load, hj] at hone

theorem joining_init : Joining .idle initial where
  once := by decide
  fresh _ :=
    { finished := rfl, ready := rfl, pending := rfl, unestablished := rfl, buffer := rfl
      closed := rfl
      history := by decide
      tasks := by decide
      settled := by simp }

theorem observes_later {t : Task} (h : observes t = true) : isEarly t = false := by
  cases t <;> first | rfl | cases h

/-- **Kept by every move.** -/
theorem joining_move {p p' : Phase} {w w' : World} (hb : Base p w) (h : Joining p w)
    (hm : Move env p w p' w') : Joining p' w' := by
  cases hm with
  | @ignore _ t r hi =>
      refine ⟨?_, ?_⟩
      · have hone := h.once
        simp only [load, List.count_cons] at hone ⊢
        omega
      · rintro (⟨jr, hp⟩ | ⟨hn, hf, _⟩)
        · cases hp
        · have hw := h.fresh (Or.inr ⟨hn, hf, rfl⟩)
          exact
            { hw with
              tasks := fun t' ht => hw.tasks t' (List.mem_cons_of_mem _ ht)
              settled := by simp }
  | @joined _ jr hf =>
      -- the task leaves the load as the join response is set
      have hone := h.once
      have hn := h.unjoined
      have hw := h.fresh (Or.inr ⟨hn, hf, rfl⟩)
      refine ⟨?_, fun _ => ?_⟩
      · simpa [load, hn] using hone
      · exact
          { finished := hf, ready := hw.ready, pending := hw.pending
            unestablished := hw.unestablished, buffer := hw.buffer, closed := hw.closed
            history := by simpa using hw.history
            tasks := fun t ht => hw.tasks t (List.mem_cons_of_mem _ (by simpa [load] using ht))
            settled := by simp }
  | factoryCreated | connectionCreated | videoSourceCreated =>
      refine h.calm rfl rfl (by simp) (by simp) ⟨_, rfl, ?_⟩
      simp [isSetUp]
  | setUpDeref hlive =>
      refine h.calm rfl rfl (Or.inl rfl) (by simp) ⟨_, rfl, ?_⟩
      simp [isSetUp]
  | @setUpDone _ jr queued hq hf hc =>
      refine h.past (by simp) (Or.inl (hb.joined hc)) rfl ?_
      simp [load, World.pending]
  | stopped hp =>
      -- nobody pumps before the join
      refine ⟨h.once, ?_⟩
      rintro (⟨jr, hp⟩ | ⟨hn, hf, _⟩)
      · cases hp
      · exact absurd rfl (h.fresh (Or.inr ⟨hn, hf, rfl⟩)).settled
  | drained hp | offerStarted hp | candidateBuffered hp | candidatePassed hp | remoteBegun hp =>
      refine h.past (by simp) (Or.inl hp.2) rfl ?_
      simp [load]
  | fail | setUpFailed | candidateFailed | byePopped | unknownPopped | remoteUnparsed
  | startupTimer | durationTimer | descriptionUnsent | chainFailed | flushFailed =>
      refine h.past (by simp) (Or.inr (Or.inr rfl)) rfl ?_
      simp [load, List.count_cons]
  | byeSent hf =>
      refine h.past (by simp) (Or.inr (Or.inl hf)) rfl ?_
      simp [load]
  | byeStarted hf hj | ended hf hr =>
      refine h.past (by simp) (Or.inr (Or.inl rfl)) rfl ?_
      simp [load]
  | already hf => exact h.past (by simp) (Or.inr (Or.inl hf)) rfl (Nat.le_refl _)
  | observed ht | established ht =>
      refine h.later (observes_later ht) (by simp) rfl rfl ?_
      simp [load, List.count_cons]
  | registered hf =>
      refine h.later rfl (by simp) rfl rfl ?_
      have hnone : (if w.ctl.statsRunning = true then [] else [Task.stats]).count .joinComplete
          = 0 := countP_statsStarted rfl _
      simp [load, hnone]
  | _ =>
      refine h.later rfl (by simp) rfl rfl ?_
      simp [load]

theorem joining_enter {p : Phase} {w w' : World} {l : Label} (hb : Base .idle w)
    (h : Joining .idle w)
    (he : Enter w l p w') : Joining p w' := by
  cases he with
  | post hi =>
      have hperm := load_post hi
      refine ⟨by rw [hperm.count_eq]; exact h.once, ?_⟩
      rintro (⟨jr, hp⟩ | ⟨hn, hf, hp⟩)
      · cases hp
      · have hw := h.fresh (Or.inr ⟨hn, hf, hp⟩)
        exact { hw with tasks := fun t ht => hw.tasks t (hperm.mem_iff.mp ht) }
  | @event t hr =>
      have hne : t ≠ .joinComplete := by rintro rfl; cases hr
      refine ⟨?_, ?_⟩
      · have hone := h.once
        simp only [load, World.pending, List.count_append, List.count_singleton] at hone ⊢
        rw [if_neg (show ¬ (t == Task.joinComplete) = true by simpa using hne)]
        omega
      · rintro (⟨jr, hp⟩ | ⟨hn, hf, hp⟩)
        · cases hp
        · -- no source of events is there yet
          have hw := h.fresh (Or.inr ⟨hn, hf, hp⟩)
          have hcon : w.peer.connection = false := by
            cases hc : w.peer.connection with
            | false => rfl
            | true =>
                have hj := hb.joined hc
                rw [show w.ctl.joinResponse = none from hn] at hj
                cases hj
          have hsink : w.peer.remoteFrameSink = false := by
            cases hs : w.peer.remoteFrameSink with
            | false => rfl
            | true => rw [hb.sink hs] at hcon; cases hcon
          unfold canRaise at hr
          split at hr
          · rw [hw.closed] at hr; cases hr
          · rw [hcon] at hr; cases hr
          · rw [hcon] at hr; cases hr
          · rw [hcon] at hr; cases hr
          · rw [hsink] at hr; cases hr
          · cases hr
  | @run t rest r hq =>
      have hload := load_run (r := r) hq
      refine ⟨by rw [hload]; exact h.once, ?_⟩
      rintro (⟨jr, hp⟩ | ⟨hn, hf, hp⟩)
      · cases hp
      · have hw := h.fresh (Or.inr ⟨hn, hf, rfl⟩)
        exact { hw with tasks := by rw [hload]; exact hw.tasks, settled := by simp }
  | destroy hq hf =>
      refine h.past (by simp) (Or.inr (Or.inl hf)) rfl ?_
      simp [load, World.pending]

theorem joining_visited {p : Phase} {w : World} (h : Visited env p w) : Joining p w :=
  h.invariant (I := Joining) joining_init
    (fun _ _ _ _ hv hi he => joining_enter (base_visited hv) hi he)
    (fun _ _ _ _ hv hi hm => joining_move (base_visited hv) hi hm)

end ApprtcCli.Proof
