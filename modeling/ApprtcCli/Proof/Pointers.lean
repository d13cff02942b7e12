import ApprtcCli.Proof.Outcome

/-!
# No pointer is used outside its life

`connection_` and `factory_` are dereferenced at some ten sites, most of them in
completions that may run long after they were asked for. None checks the pointer.
Three things stand in for the check: a completion runs only while its flag is live,
the pump and the timers only while the call has not finished, and `Close` resets
the flag before it clears anything. The law is one about the history: a dereference
has the creation before it and no clearing, a callback has no `Close` before it.
-/

namespace ApprtcCli.Proof

open Lib Call

variable {env : Env}

/-- A dereference within the life of its pointer; a callback before `Close` returned. -/
def InLife (pre : List Action) : Action → Prop
  | .deref p live => live = true ∧ .created p ∈ pre ∧ .cleared p ∉ pre
  | .callback => .closed ∉ pre
  | _ => True

/-- Actions that neither use a pointer nor begin or end the life of one. -/
def isNeutral : Action → Bool
  | .deref _ _ => false
  | .callback => false
  | .created _ => false
  | .cleared _ => false
  | .closed => false
  | _ => true

/-- What code that holds a live connection may add. -/
def isUse : Action → Bool
  | .deref .connection live => live
  | .callback => true
  | a => isNeutral a

theorem inLife_of_neutral {pre : List Action} {a : Action} (h : isNeutral a = true) :
    InLife pre a := by
  cases a <;> trivial

structure Guarded (w : World) : Prop where
  law : Trail InLife w.trace
  live : ∀ p, w.peer.live p = true → .created p ∈ w.trace ∧ .cleared p ∉ w.trace
  closed : .closed ∈ w.trace → w.ctl.finished = true ∧ w.peer.connection = false
  cleared : ∀ p, .cleared p ∈ w.trace → w.ctl.finished = true

/-- A connection that is set is within its life, and `Close` has not returned. -/
theorem Guarded.connection {w : World} (h : Guarded w) (hc : w.peer.connection = true) :
    .created .connection ∈ w.trace ∧ .cleared .connection ∉ w.trace ∧ .closed ∉ w.trace := by
  obtain ⟨h1, h2⟩ := h.live .connection hc
  refine ⟨h1, h2, fun hm => ?_⟩
  rw [(h.closed hm).2] at hc
  cases hc

/-- Moves that use no pointer. -/
theorem Guarded.quiet {w w' : World} {l : List Action} (h : Guarded w)
    (hf : w.ctl.finished = true → w'.ctl.finished = true) (hp : ∀ p, w'.peer.live p = w.peer.live p)
    (htrace : w'.trace = w.trace ++ l) (hquiet : l.all isNeutral = true) :
    Guarded w' := by
  have hno : ∀ a ∈ l, isNeutral a = true := List.all_eq_true.mp hquiet
  have hold : ∀ a, isNeutral a = false → a ∈ w'.trace → a ∈ w.trace := by
    intro a ha hm
    rw [htrace] at hm
    refine (List.mem_append.mp hm).resolve_right fun hm => ?_
    rw [hno a hm] at ha
    cases ha
  refine ⟨?_, ?_, ?_, ?_⟩
  · rw [htrace]
    exact h.law.append fun a ha _ => inLife_of_neutral (hno a ha)
  · intro p hlive
    rw [hp] at hlive
    obtain ⟨h1, h2⟩ := h.live p hlive
    exact ⟨by rw [htrace]; exact List.mem_append_left _ h1, fun hm => h2 (hold _ rfl hm)⟩
  · intro hm
    have hcon : w'.peer.connection = w.peer.connection := hp .connection
    obtain ⟨c1, c2⟩ := h.closed (hold _ rfl hm)
    exact ⟨hf c1, by rw [hcon]; exact c2⟩
  · intro p hm
    exact hf (h.cleared p (hold _ rfl hm))

/-- Moves that use the connection, where it is set. -/
theorem Guarded.use {w w' : World} {actions : List Action} (h : Guarded w)
    (hc : w.peer.connection = true) (hf : w.ctl.finished = true → w'.ctl.finished = true)
    (hp : ∀ p, w'.peer.live p = w.peer.live p)
    (htrace : w'.trace = w.trace ++ actions) (huse : actions.all isUse = true) : Guarded w' := by
  have hall : ∀ a ∈ actions, isUse a = true := List.all_eq_true.mp huse
  have hkeep : ∀ a ∈ actions, (∀ p, a ≠ .created p) ∧ (∀ p, a ≠ .cleared p) ∧ a ≠ .closed := by
    intro a ha
    have hu := hall a ha
    refine ⟨?_, ?_, ?_⟩
    · rintro p rfl
      cases hu
    · rintro p rfl
      cases hu
    · rintro rfl
      cases hu
  obtain ⟨h1, h2, h3⟩ := h.connection hc
  -- the connection stays in its life all through, so each use is within it
  have hlaw := h.law.append_under (k := actions)
    (Q := fun l => .created .connection ∈ l ∧ .cleared .connection ∉ l ∧ .closed ∉ l)
    ⟨h1, h2, h3⟩ (by
      rintro a ha pre ⟨q1, q2, q3⟩
      obtain ⟨_, k2, k3⟩ := hkeep a ha
      refine ⟨?_, by simp [q1], by simp [q2, (k2 _).symm], by simp [q3, k3.symm]⟩
      have hu := hall a ha
      cases a with
      | deref p live =>
          cases p with
          | connection => exact ⟨hu, q1, q2⟩
          | factory => cases hu
      | callback => exact q3
      | _ => trivial)
  have hold : ∀ a, (∀ b ∈ actions, b ≠ a) → a ∈ w'.trace → a ∈ w.trace := by
    intro a ha hm
    rw [htrace] at hm
    exact (List.mem_append.mp hm).resolve_right fun hm => ha a hm rfl
  refine ⟨by rw [htrace]; exact hlaw.1, ?_, ?_, ?_⟩
  · intro p hlive
    rw [hp] at hlive
    obtain ⟨l1, l2⟩ := h.live p hlive
    refine ⟨by rw [htrace]; exact List.mem_append_left _ l1, fun hm => l2 ?_⟩
    exact hold _ (fun b hb => (hkeep b hb).2.1 p) hm
  · intro hm
    exact absurd (hold _ (fun b hb => (hkeep b hb).2.2) hm) h3
  · intro p hm
    exact hf (h.cleared p (hold _ (fun b hb => (hkeep b hb).2.1 p) hm))

/-- **`Close`**, run by a controller that has finished. -/
theorem Guarded.close {w w' : World} {l : List Action} (h : Guarded w)
    (hf : w'.ctl.finished = true) (hp : w'.peer = closedPeer w.peer)
    (htrace : w'.trace = w.trace ++ closeActions w.peer.connection ++ l)
    (hquiet : l.all isNeutral = true) : Guarded w' := by
  have hlaw : Trail InLife (w.trace ++ closeActions w.peer.connection) := by
    cases hc : w.peer.connection with
    | false =>
        refine h.law.append fun a ha pre => ?_
        have ha : a = .cleared .factory ∨ a = .closed := by simpa [closeActions] using ha
        rcases ha with rfl | rfl <;> trivial
    | true =>
        obtain ⟨h1, h2, h3⟩ := h.connection hc
        have hsplit : w.trace ++ closeActions true
            = (w.trace ++ [.deref .connection true])
              ++ [.cleared .connection, .cleared .factory, .closed] := by
          simp [closeActions]
        rw [hsplit]
        -- the last use comes before the pointer is cleared
        have huse : Trail InLife (w.trace ++ [.deref .connection true]) :=
          trail_concat.mpr ⟨h.law, rfl, h1, h2⟩
        refine huse.append fun a ha pre => ?_
        simp only [List.mem_cons, List.not_mem_nil, or_false] at ha
        rcases ha with rfl | rfl | rfl <;> trivial
  have hnone : ∀ p, w'.peer.live p = false := by
    intro p
    rw [hp]
    cases p <;> rfl
  refine ⟨?_, ?_, fun _ => ⟨hf, hnone .connection⟩, fun _ _ => hf⟩
  · rw [htrace]
    exact hlaw.append fun a ha _ => inLife_of_neutral (List.all_eq_true.mp hquiet a ha)
  · intro p hlive
    rw [hnone] at hlive
    cases hlive

theorem guarded_completed {w : World} {reason : TerminalReason} {status : Status}
    (h : Guarded w) (hf : w.ctl.finished = true) : Guarded (completed reason status w) := by
  have hbegun : Guarded (grow w w.ctl w.peer [] [.completeFinish reason status]) :=
    h.quiet id (fun _ => rfl) rfl rfl
  refine hbegun.close (l := leaveActions w.ctl.joinResponse
    ++ stateActions w.ctl.state .finished) (by simp [completed, hf]) rfl ?_ ?_
  · simp [completed, closingActions]
  · have hstate : (stateActions w.ctl.state .finished).all isNeutral = true :=
      all_stateActions rfl
    rw [List.all_append, hstate]
    cases w.ctl.joinResponse <;> rfl

theorem guarded_init : Guarded initial where
  law := trail_singleton trivial
  live p h := by cases p <;> cases h
  closed := by decide
  cleared p h := by
    have htrace : initial.trace = [.state .joiningRoom] := rfl
    rw [htrace] at h
    cases List.mem_singleton.mp h

/-- `Initialize` sets a pointer, in a call that has not finished. -/
theorem Guarded.create {w w' : World} {q : Pointer} (h : Guarded w)
    (hf : w.ctl.finished = false) (hp : ∀ p, p ≠ q → w'.peer.live p = w.peer.live p)
    (htrace : w'.trace = w.trace ++ [.created q]) : Guarded w' := by
  -- only a finished call clears
  have hclear : ∀ p, .cleared p ∉ w.trace := by
    intro p hm
    rw [h.cleared p hm] at hf
    cases hf
  have hclosed : .closed ∉ w.trace := by
    intro hm
    rw [(h.closed hm).1] at hf
    cases hf
  refine ⟨?_, ?_, ?_, ?_⟩
  · rw [htrace]
    exact trail_concat.mpr ⟨h.law, trivial⟩
  · intro p hlive
    rw [htrace]
    refine ⟨?_, by simp [hclear]⟩
    by_cases hpq : p = q
    · simp [hpq]
    · rw [hp p hpq] at hlive
      exact List.mem_append_left _ (h.live p hlive).1
  · intro hm
    rw [htrace] at hm
    simp [hclosed] at hm
  · intro p hm
    rw [htrace] at hm
    simp [hclear] at hm

theorem connectionCall_use {w : World} {a : Action} (hc : w.peer.connection = true)
    (ha : isUse a = true) : (connectionCall w a).all isUse = true := by
  simp only [connectionCall, List.all_cons, ha, hc]
  rfl

theorem passActions_use {w : World} {ms : List SignalingMessage}
    (hc : w.peer.connection = true) : (passActions w.peer.connection ms).all isUse = true :=
  all_passActions hc (fun _ => rfl)

/-- **Kept by every move.** -/
theorem guarded_move {p p' : Phase} {w w' : World} (hb : Base p w) (hj : Joining p w)
    (h : Guarded w) (hm : Move env p w p' w') : Guarded w' := by
  have hstate : ∀ {before after : CallState}, (stateActions before after).all isNeutral = true :=
    all_stateActions rfl
  have hstate' : ∀ {before after : CallState}, (stateActions before after).all isUse = true :=
    all_stateActions rfl
  cases hm with
  | ignore | fail | setUpFailed | stopped | drained | already => exact h
  | byeSent hf => exact guarded_completed h hf
  | @ended _ reason status hf hr =>
      have hstop : Guarded (grow w (stoppedCtl w.ctl) w.peer []
          (stopActions reason status w.ctl.state)) := by
        refine h.quiet (fun _ => rfl) (fun _ => rfl) rfl ?_
        rw [stopActions, List.all_cons, hstate]
        rfl
      exact guarded_completed hstop rfl
  | byeStarted hf hj =>
      refine h.quiet (fun _ => rfl) (fun _ => rfl) rfl ?_
      rw [stopActions, List.all_append, List.all_cons, hstate]
      rfl
  | established =>
      refine h.quiet id (fun _ => rfl) rfl ?_
      rw [List.all_cons, hstate]
      rfl
  | stats hacts =>
      rcases hacts with rfl | ⟨hc, rfl⟩
      · exact h.quiet id (fun _ => rfl) rfl rfl
      · exact h.use hc id (fun _ => rfl) rfl rfl
  | webSocketOpen => exact h.quiet id (fun _ => rfl) rfl hstate
  | observed =>
      exact h.quiet (l := []) id (fun p => by cases p <;> rfl) (by simp) rfl
  | chainFailed => exact h.use hb.connection id (fun _ => rfl) rfl rfl
  | localBegun =>
      exact h.use hb.connection id (fun _ => rfl) rfl (connectionCall_use hb.connection rfl)
  | localSet => exact h.use hb.connection id (fun _ => rfl) rfl rfl
  | remoteOfferSet =>
      refine h.use hb.connection id (fun p => by cases p <;> rfl) rfl ?_
      rw [List.all_append, List.all_cons, passActions_use hb.connection,
        connectionCall_use hb.connection rfl]
      rfl
  | remoteAnswerSet | flushFailed =>
      refine h.use hb.connection id (fun p => by cases p <;> rfl) rfl ?_
      rw [List.all_append, List.all_cons, passActions_use hb.connection]
      rfl
  | factoryCreated =>
      refine h.create (q := .factory) (hj.fresh (Or.inl ⟨_, rfl⟩)).finished ?_ rfl
      intro p hp
      cases p with
      | factory => exact absurd rfl hp
      | connection => rfl
  | connectionCreated =>
      refine h.create (q := .connection) (hj.fresh (Or.inl ⟨_, rfl⟩)).finished ?_ rfl
      intro p hp
      cases p with
      | factory => rfl
      | connection => exact absurd rfl hp
  | @setUpDeref _ jr p hlive =>
      -- only here is the factory used
      have hlife := h.live p hlive
      refine ⟨trail_concat.mpr ⟨h.law, rfl, hlife⟩, ?_, ?_, ?_⟩
      · intro q hq
        have hold := h.live q hq
        simpa using hold
      · intro hm
        exact h.closed (by simpa using hm)
      · intro q hm
        exact h.cleared q (by simpa using hm)
  | videoSourceCreated =>
      exact h.quiet (l := []) id (fun p => by cases p <;> rfl) (by simp) rfl
  | setUpDone =>
      refine h.quiet id (fun _ => rfl) rfl ?_
      rw [List.all_cons, hstate]
      rfl
  | offerStarted hp =>
      refine h.use (hb.pumping hp) id (fun _ => rfl) rfl ?_
      rw [List.all_append, hstate', connectionCall_use (hb.pumping hp) rfl]
      rfl
  | candidatePassed hp | candidateFailed hp =>
      refine h.use (hb.pumping hp) id (fun _ => rfl) rfl ?_
      rw [List.all_cons, passActions_use (hb.pumping hp)]
      rfl
  | remoteBegun hp =>
      refine h.use (hb.pumping hp) id (fun _ => rfl) rfl ?_
      rw [List.all_append, List.all_cons, hstate', connectionCall_use (hb.pumping hp) rfl]
      rfl
  | remoteUnparsed hp =>
      refine h.use (hb.pumping hp) id (fun _ => rfl) rfl ?_
      rw [List.all_append, List.all_cons, hstate']
      rfl
  | candidateBuffered =>
      exact h.quiet id (fun p => by cases p <;> rfl) rfl rfl
  | descriptionSent | descriptionUnsent =>
      exact h.quiet id (fun _ => rfl) rfl rfl
  | _ => exact h.quiet id (fun _ => rfl) rfl rfl

theorem guarded_enter {p : Phase} {w w' : World} {l : Label} (h : Guarded w) (he : Enter w l p w') :
    Guarded w' := by
  cases he with
  | destroy hq hf => exact h.close (l := []) hf rfl (by simp) rfl
  | _ => exact ⟨h.law, h.live, h.closed, h.cleared⟩

theorem guarded_visited {p : Phase} {w : World} (h : Visited env p w) : Guarded w :=
  h.invariant (I := fun _ w => Guarded w) guarded_init (fun _ _ _ _ _ hi he => guarded_enter hi he)
    (fun _ _ _ _ hv hi hm => guarded_move (base_visited hv) (joining_visited hv) hi hm)

/-- **Every use is within the life of its pointer**, and no callback runs after `Close`. -/
theorem pointers_used_in_life {w : World} (h : Reached env w) :
    ∀ pre a post, w.trace = pre ++ a :: post →
      (∀ p live, a = .deref p live → live = true ∧ .created p ∈ pre ∧ .cleared p ∉ pre)
        ∧ (a = .callback → .closed ∉ pre) := by
  intro pre a post htrace
  have hlife := (guarded_visited (reached_visited h)).law pre a post htrace
  refine ⟨?_, ?_⟩
  · rintro p live rfl
    exact hlife
  · rintro rfl
    exact hlife

/-- The last use of the connection in a call that ran its time is the one `Close` makes. -/
theorem pointers_used_in_life_close :
    (after (.smooth []) overrunLabels).trace.drop 20
        = [.deref .connection true, .cleared .connection, .cleared .factory, .closed,
            .closeAsync { pcConfigJson := "pc_config" }, .state .finished]
      ∧ .created .connection ∈ (after (.smooth []) overrunLabels).trace.take 20
      ∧ .cleared .connection ∉ (after (.smooth []) overrunLabels).trace.take 20 := by
  have hreached : Reached (.smooth []) (after (.smooth []) overrunLabels) := reached_after _ rfl
  have hlife := (pointers_used_in_life hreached
    ((after (.smooth []) overrunLabels).trace.take 20) (.deref .connection true)
    ((after (.smooth []) overrunLabels).trace.drop 21) (by decide)).1 .connection true rfl
  exact ⟨by decide, hlife.2⟩

end ApprtcCli.Proof
