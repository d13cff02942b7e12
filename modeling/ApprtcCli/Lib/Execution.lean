import ApprtcCli.Lib.Run
import Mathlib.Data.Nat.Find

/-!
# What happens in the end

A `Run` is what has happened so far. An `Execution` has a state at every time; from each
it takes one step or none, so a system that has come to rest is an execution too, which
stays where it is.

What happens in the end rests on one argument here, that of a task in a queue which is
served from the front and only grows at its end: if a queue that is not empty is served
again, every task in it is. The induction is on how many stand before the task. `stops` is
what ends the service for good.
-/

namespace ApprtcCli.Lib

variable {σ ε τ δ : Type}

structure Execution (step : σ → ε → Option σ) (s₀ : σ) where
  state : ℕ → σ
  /-- The label of the step taken at a time; at some times there is none. -/
  label : ℕ → Option ε
  starts : state 0 = s₀
  goes : ∀ n, match label n with
    | none => state (n + 1) = state n
    | some e => step (state n) e = some (state (n + 1))

namespace Execution

variable {step : σ → ε → Option σ} {s₀ : σ} (x : Execution step s₀)

theorem step_of_label {n : ℕ} {e : ε} (h : x.label n = some e) :
    step (x.state n) e = some (x.state (n + 1)) := by
  have hgo := x.goes n
  rwa [h] at hgo

theorem stay_of_label {n : ℕ} (h : x.label n = none) : x.state (n + 1) = x.state n := by
  have hgo := x.goes n
  rwa [h] at hgo

theorem reachable (n : ℕ) : Reachable step s₀ (x.state n) := by
  induction n with
  | zero => rw [x.starts]; exact Reachable.init
  | succ n ih =>
      cases hl : x.label n with
      | none => rw [x.stay_of_label hl]; exact ih
      | some e => exact ih.next (x.step_of_label hl)

/-- What every step keeps is kept from any time on. -/
theorem stable {P : σ → Prop}
    (hstep : ∀ s e s', Reachable step s₀ s → P s → step s e = some s' → P s')
    {n m : ℕ} (hle : n ≤ m) (h : P (x.state n)) : P (x.state m) := by
  induction hle with
  | refl => exact h
  | @step m _ ih =>
      cases hl : x.label m with
      | none => rw [x.stay_of_label hl]; exact ih
      | some e => exact hstep _ e _ (x.reachable m) ih (x.step_of_label hl)

/-- Whenever the one holds, the other does at that time or later. -/
def LeadsTo (P Q : σ → Prop) : Prop := ∀ n, P (x.state n) → ∃ m, n ≤ m ∧ Q (x.state m)

/-- **What comes nearer again and again happens**: a measure cannot go down for ever. -/
theorem ends_of_descent (stops : σ → Prop) (measure : σ → ℕ)
    (hdown : ∀ n, ¬ stops (x.state n) → ∃ m, n ≤ m ∧ (stops (x.state m)
      ∨ measure (x.state m) < measure (x.state n))) (n : ℕ) : ∃ m, n ≤ m ∧ stops (x.state m) := by
  induction hm : measure (x.state n) using Nat.strongRecOn generalizing n with
  | ind k ih =>
      by_cases hover : stops (x.state n)
      · exact ⟨n, Nat.le_refl n, hover⟩
      · obtain ⟨m, hle, hover | hlt⟩ := hdown n hover
        · exact ⟨m, hle, hover⟩
        · obtain ⟨j, hj, hover⟩ := ih _ (hm ▸ hlt) m rfl
          exact ⟨j, Nat.le_trans hle hj, hover⟩

/--
**What cannot be put off for ever happens**: a measure that no step raises, and that is
brought down again and again until then, comes to its end.
-/
theorem ends_of_measure (stops : σ → Prop) (measure : σ → ℕ)
    (hmono : ∀ n, ¬ stops (x.state n) → measure (x.state (n + 1)) ≤ measure (x.state n))
    (hagain : ∀ n, ¬ stops (x.state n) → ∃ m, n ≤ m ∧ (stops (x.state m)
      ∨ measure (x.state (m + 1)) < measure (x.state m))) (n : ℕ) :
    ∃ m, n ≤ m ∧ stops (x.state m) := by
  refine x.ends_of_descent stops measure (fun n hn => ?_) n
  by_cases hnever : ∀ m, n ≤ m → ¬ stops (x.state m)
  · -- it is not raised on the way to the step that brings it down
    have hfell : ∀ j, n ≤ j → measure (x.state j) ≤ measure (x.state n) := by
      intro j hj
      induction hj with
      | refl => exact Nat.le_refl _
      | @step j hj ihj => exact Nat.le_trans (hmono j (hnever j hj)) ihj
    obtain ⟨m, hle, hover | hdown⟩ := hagain n hn
    · exact absurd hover (hnever m hle)
    · exact ⟨m + 1, by omega, Or.inr (Nat.lt_of_lt_of_le hdown (hfell m hle))⟩
  · push Not at hnever
    obtain ⟨m, hle, hover⟩ := hnever
    exact ⟨m, hle, Or.inl hover⟩

variable {x}

theorem LeadsTo.trans {P Q R : σ → Prop} (h : x.LeadsTo P Q) (h' : x.LeadsTo Q R) :
    x.LeadsTo P R := by
  intro n hp
  obtain ⟨m, hnm, hq⟩ := h n hp
  obtain ⟨k, hmk, hr⟩ := h' m hq
  exact ⟨k, Nat.le_trans hnm hmk, hr⟩

/-- A case analysis of the state one starts from. -/
theorem LeadsTo.cases {P Q R S : σ → Prop} (h : x.LeadsTo Q S) (h' : x.LeadsTo R S)
    (hp : ∀ s, Reachable step s₀ s → P s → Q s ∨ R s) : x.LeadsTo P S := by
  intro n hs
  rcases hp _ (x.reachable n) hs with hq | hr
  · exact h n hq
  · exact h' n hr

/-! ## Parts -/

/-- A part of a system: each step is one of the part, or leaves the part as it is. -/
structure IsPart (step : σ → ε → Option σ) (s₀ : σ) (move : τ → δ → Option τ) (t₀ : τ)
    (view : σ → τ) (label : ε → Option δ) : Prop where
  starts : view s₀ = t₀
  moves : ∀ s e s' d, step s e = some s' → label e = some d → move (view s) d = some (view s')
  rests : ∀ s e s', step s e = some s' → label e = none → view s' = view s

section Part

variable {move : τ → δ → Option τ} {t₀ : τ} {view : σ → τ} {label : ε → Option δ}

/-- A part of a system gets to where it can get to by itself. -/
theorem IsPart.reachable (h : IsPart step s₀ move t₀ view label) {s : σ}
    (hs : Reachable step s₀ s) : Reachable move t₀ (view s) := by
  refine hs.invariant (I := fun s => Reachable move t₀ (view s)) ?_ ?_
  · rw [h.starts]
    exact Reachable.init
  · intro s e s' _ hi hstep
    cases hl : label e with
    | none => rw [h.rests s e s' hstep hl]; exact hi
    | some d => exact hi.next (h.moves s e s' d hstep hl)

end Part

/-! ## Queues -/

/-- A queue of which a step takes so many from the front, and that grows at its end. -/
def Queues (step : σ → ε → Option σ) (s₀ : σ) (queue : σ → List τ) (taken : σ → ε → ℕ) : Prop :=
  ∀ s e s', Reachable step s₀ s → step s e = some s' →
    ∃ more, queue s' = (queue s).drop (taken s e) ++ more

/-- At this time the step takes this task. -/
def ServedAt (x : Execution step s₀) (queue : σ → List τ) (taken : σ → ε → ℕ) (t : τ) (n : ℕ) :
    Prop :=
  ∃ e, x.label n = some e ∧ t ∈ (queue (x.state n)).take (taken (x.state n) e)

variable {queue : σ → List τ} {taken : σ → ε → ℕ}

/-- The queue has only grown since, where nothing was taken. -/
theorem Queues.grows (hq : Queues step s₀ queue taken) {n m : ℕ} (hle : n ≤ m)
    (hno : ∀ k, n ≤ k → k < m → ∀ e, x.label k = some e → taken (x.state k) e = 0) :
    queue (x.state n) <+: queue (x.state m) := by
  induction hle with
  | refl => exact List.prefix_refl _
  | @step m hle ih =>
      have hgrown := ih fun k hk hlt => hno k hk (Nat.lt_succ_of_lt hlt)
      cases hl : x.label m with
      | none => rw [x.stay_of_label hl]; exact hgrown
      | some e =>
          obtain ⟨more, hmore⟩ := hq _ e _ (x.reachable m) (x.step_of_label hl)
          rw [hno m hle (Nat.lt_succ_self m) e hl, List.drop_zero] at hmore
          exact hgrown.trans ⟨more, hmore.symm⟩

/-- Until it is served next, the queue keeps what it has and only gets more. -/
theorem Queues.next (hq : Queues step s₀ queue taken) {stops : σ → Prop} {n : ℕ}
    (hagain : ∃ m, n ≤ m ∧ (stops (x.state m)
      ∨ ∃ e, x.label m = some e ∧ 0 < taken (x.state m) e)) :
    ∃ m, n ≤ m ∧ (stops (x.state m) ∨ ∃ e more, x.label m = some e ∧ 0 < taken (x.state m) e
      ∧ queue (x.state m) = queue (x.state n) ++ more) := by
  classical
  obtain ⟨hle, hcase⟩ := Nat.find_spec hagain
  refine ⟨Nat.find hagain, hle, hcase.imp id ?_⟩
  intro hserved
  obtain ⟨e, hl, hs⟩ := hserved
  have hgrown := hq.grows (x := x) hle fun k hk hlt e' hl' => by
    have hmin := Nat.find_min hagain hlt
    by_contra htaken
    exact hmin ⟨hk, Or.inr ⟨e', hl', Nat.pos_of_ne_zero htaken⟩⟩
  obtain ⟨more, hmore⟩ := hgrown
  exact ⟨e, more, hl, hs, hmore.symm⟩

/--
**Every task of a queue is served in the end**, or the service is over, where a queue that
is not empty is always served again.
-/
theorem Queues.served (hq : Queues step s₀ queue taken) (stops : σ → Prop)
    (hagain : ∀ n, queue (x.state n) ≠ [] →
      ∃ m, n ≤ m ∧ (stops (x.state m) ∨ ∃ e, x.label m = some e ∧ 0 < taken (x.state m) e))
    {n : ℕ} {t : τ} (ht : t ∈ queue (x.state n)) :
    ∃ m, n ≤ m ∧ (stops (x.state m) ∨ x.ServedAt queue taken t m) := by
  obtain ⟨front, back, hsplit⟩ := List.append_of_mem ht
  clear ht
  induction hlen : front.length using Nat.strongRecOn generalizing n front back with
  | ind k ih =>
      obtain ⟨m, hle, hcase⟩ := hq.next (hagain n (by rw [hsplit]; simp))
      rcases hcase with hover | ⟨e, more, hl, hs, hmore⟩
      · exact ⟨m, hle, Or.inl hover⟩
      · rw [hsplit, List.append_assoc] at hmore
        by_cases hfront : front.length < taken (x.state m) e
        · -- what is taken reaches as far as the task
          refine ⟨m, hle, Or.inr ⟨e, hl, ?_⟩⟩
          rw [hmore, List.take_append]
          refine List.mem_append_right _ ?_
          obtain ⟨j, hj⟩ := Nat.exists_eq_add_of_lt (Nat.sub_pos_of_lt hfront)
          rw [hj, Nat.zero_add, List.cons_append, List.take_succ_cons]
          exact List.mem_cons_self ..
        · -- fewer tasks stand before it after that step
          obtain ⟨more', hafter⟩ := hq _ e _ (x.reachable m) (x.step_of_label hl)
          rw [hmore, List.drop_append_of_le_length (by omega)] at hafter
          obtain ⟨j, hj, hserved⟩ := ih _ (by rw [← hlen, List.length_drop]; omega)
            (n := m + 1) (front.drop (taken (x.state m) e)) (back ++ more ++ more')
            (by rw [hafter]; simp) rfl
          exact ⟨j, by omega, hserved⟩

/-! ## Executions of finitely many steps -/

/-- The states a list of labels leads through. -/
def statesOf (step : σ → ε → Option σ) (s₀ : σ) (labels : List ε) (n : ℕ) : σ :=
  (exec step s₀ (labels.take n)).getD s₀

theorem exec_append {labels more : List ε} {s s' : σ}
    (h : exec step s (labels ++ more) = some s') :
    ∃ s₁, exec step s labels = some s₁ ∧ exec step s₁ more = some s' := by
  induction labels generalizing s with
  | nil => exact ⟨s, rfl, h⟩
  | cons e labels ih =>
      obtain ⟨s₁, h1, h2⟩ := Option.bind_eq_some_iff.mp h
      obtain ⟨s₂, h3, h4⟩ := ih h2
      exact ⟨s₂, by rw [exec, h1]; exact h3, h4⟩

theorem exec_take_isSome {labels : List ε} {s : σ} (h : (exec step s labels).isSome = true)
    (n : ℕ) : (exec step s (labels.take n)).isSome = true := by
  induction labels generalizing s n with
  | nil => simpa using h
  | cons e labels ih =>
      cases n with
      | zero => rfl
      | succ n =>
          obtain ⟨s', hs'⟩ := Option.isSome_iff_exists.mp h
          obtain ⟨s₁, h1, h2⟩ := Option.bind_eq_some_iff.mp hs'
          have hrest := ih (s := s₁) (by rw [h2]; rfl) n
          rw [List.take_succ_cons, exec, h1]
          exact hrest

/-- The execution that takes these steps and then stays where they lead. -/
def ofLabels (labels : List ε) (h : (exec step s₀ labels).isSome = true) :
    Execution step s₀ where
  state := statesOf step s₀ labels
  label n := labels[n]?
  starts := rfl
  goes n := by
    cases hl : labels[n]? with
    | none =>
        have hlen : labels.length ≤ n := List.getElem?_eq_none_iff.mp hl
        show statesOf step s₀ labels (n + 1) = statesOf step s₀ labels n
        unfold statesOf
        rw [List.take_of_length_le hlen, List.take_of_length_le (Nat.le_succ_of_le hlen)]
    | some e =>
        show step (statesOf step s₀ labels n) e = some (statesOf step s₀ labels (n + 1))
        obtain ⟨s, hs⟩ := Option.isSome_iff_exists.mp (exec_take_isSome h n)
        obtain ⟨s', hs'⟩ := Option.isSome_iff_exists.mp (exec_take_isSome h (n + 1))
        unfold statesOf
        rw [hs, hs']
        rw [List.take_add_one, hl, Option.toList_some] at hs'
        obtain ⟨s₁, h1, h2⟩ := exec_append hs'
        rw [hs] at h1
        injection h1 with h1
        subst h1
        simpa [exec] using h2

/-- It stays where they lead. -/
theorem ofLabels_end {labels : List ε} (h : (exec step s₀ labels).isSome = true) {n : ℕ}
    (hn : labels.length ≤ n) :
    (ofLabels labels h).state n = (ofLabels labels h).state labels.length := by
  show statesOf step s₀ labels n = statesOf step s₀ labels labels.length
  rw [statesOf, statesOf, List.take_of_length_le hn, List.take_length]

/-- So what holds up to their end holds always. -/
theorem ofLabels_forall {labels : List ε} {P : σ → Prop}
    (h : (exec step s₀ labels).isSome = true)
    (hall : ∀ k < labels.length + 1, P ((ofLabels labels h).state k)) (n : ℕ) :
    P ((ofLabels labels h).state n) := by
  rcases Nat.lt_or_ge n labels.length with hn | hn
  · exact hall n (by omega)
  · rw [ofLabels_end h hn]
    exact hall labels.length (by omega)

end Execution

end ApprtcCli.Lib
