import ApprtcCli.Proof.Flight

/-!
# The order of the states

`state_` is assigned wherever a handler passes a milestone, whether or not the call has
passed a later one. Where it never goes back it also tells the truth: the flags and the
steps in flight were set together with a state, and a later state is still as good.

It goes back in two ways (`Proof/Setbacks.lean`). A socket that opens again sets
`registering`, and a step of negotiation that begins in an established call sets
`negotiating`; nothing sets `connected` a second time.
-/

namespace ApprtcCli.Proof

open Lib Call PhaseMachine

variable {env : Env}

/-- How far along a call in this state is. -/
def rank : CallState → Nat
  | .starting => 0
  | .joiningRoom => 1
  | .connectingWebSocket => 2
  | .registering => 3
  | .negotiating => 4
  | .connected => 5
  | .stopping => 6
  | .finished => 7

theorem rank_injective : Function.Injective rank := by
  intro a b h
  cases a <;> cases b <;> first | rfl | exact absurd h (by decide)

def stateOf : Action → Option CallState
  | .state state => some state
  | _ => none

/-- The values `state_` has had, oldest first. -/
def statesOf (l : List Action) : List CallState := .starting :: l.filterMap stateOf

/-- The state never went back. -/
def Forward (l : List Action) : Prop := (statesOf l).Pairwise fun a b => rank a ≤ rank b

structure StatesAgree (w : World) : Prop where
  current : (statesOf w.trace).getLast? = some w.ctl.state
  forward : Forward w.trace
  connected : w.ctl.callEstablished = true → w.ctl.finished = false → w.ctl.state = .connected
  stopped : (w.ctl.state = .stopping ∨ w.ctl.state = .finished) ↔ w.ctl.finished = true
  negotiating : 0 < w.stepsInFlight → rank .negotiating ≤ rank w.ctl.state

/-! ## Histories of states -/

/-- Leaves the state alone. -/
def keepsState (a : Action) : Bool := (stateOf a).isNone

theorem statesOf_append (l k : List Action) :
    statesOf (l ++ k) = statesOf l ++ k.filterMap stateOf := by
  simp [statesOf]

theorem states_quiet {k : List Action} (h : k.all keepsState = true) :
    k.filterMap stateOf = [] := by
  refine List.filterMap_eq_nil_iff.mpr fun a ha => ?_
  simpa [keepsState] using List.all_eq_true.mp h a ha

theorem statesOf_quiet {l k : List Action} (h : k.all keepsState = true) :
    statesOf (l ++ k) = statesOf l := by
  rw [statesOf_append, states_quiet h, List.append_nil]

/-- The history of a `SetState` that changes the state, and of one that does not. -/
theorem statesOf_setState (l : List Action) (before after : CallState) :
    statesOf (l ++ stateActions before after)
      = statesOf l ++ if before = after then [] else [after] := by
  rw [statesOf_append]
  unfold stateActions
  split <;> rfl

theorem current_setState {l : List Action} {before after : CallState}
    (h : (statesOf l).getLast? = some before) :
    (statesOf (l ++ stateActions before after)).getLast? = some after := by
  rw [statesOf_setState]
  by_cases hs : before = after
  · rw [if_pos hs, List.append_nil, h, hs]
  · rw [if_neg hs, List.getLast?_concat]

/-- Where the state never went back, the last is the furthest. -/
theorem Forward.le_last {l : List Action} {last : CallState} (h : Forward l)
    (hlast : (statesOf l).getLast? = some last) : ∀ s ∈ statesOf l, rank s ≤ rank last := by
  have hsplit := List.dropLast_append_getLast? last hlast
  unfold Forward at h
  rw [← hsplit] at h ⊢
  intro s hs
  rcases List.mem_append.mp hs with hs | hs
  · exact (List.pairwise_append.mp h).2.2 s hs last (List.mem_singleton_self _)
  · rw [List.mem_singleton.mp hs]

/-- **A `SetState` goes back exactly where it sets an earlier state.** -/
theorem forward_setState {l : List Action} {before after : CallState}
    (h : (statesOf l).getLast? = some before) :
    Forward (l ++ stateActions before after) ↔ Forward l ∧ rank before ≤ rank after := by
  unfold Forward
  rw [statesOf_setState]
  by_cases hs : before = after
  · rw [if_pos hs, List.append_nil, hs]
    exact (and_iff_left (Nat.le_refl _)).symm
  · rw [if_neg hs, List.pairwise_append]
    constructor
    · intro ⟨hl, _, hle⟩
      exact ⟨hl, hle before (List.mem_of_getLast? h) after (List.mem_singleton_self _)⟩
    · intro ⟨hl, hle⟩
      refine ⟨hl, List.pairwise_singleton .., fun s hmem s' hs' => ?_⟩
      rw [List.mem_singleton.mp hs']
      exact Nat.le_trans (Forward.le_last hl h s hmem) hle

theorem forward_quiet {l k : List Action} (h : k.all keepsState = true) :
    Forward (l ++ k) ↔ Forward l := by
  unfold Forward
  rw [statesOf_quiet h]

theorem keepsState_completed {reason : TerminalReason} {status : Status} {connection : Bool}
    {joinResponse : Option JoinResponse} :
    (Action.completeFinish reason status
      :: (closeActions connection ++ leaveActions joinResponse)).all keepsState = true := by
  cases connection <;> cases joinResponse <;> rfl

theorem keepsState_pass {live : Bool} {ms : List SignalingMessage} :
    (passActions live ms).all keepsState = true :=
  all_passActions rfl fun _ => rfl

/-! ## What the state says -/

/--
What the state says of a phase. That the flags agree is said of the histories that never
went back; the rest holds in every run.
-/
structure Reporting (p : Phase) (w : World) : Prop where
  current : (statesOf w.trace).getLast? = some w.ctl.state
  stopped : rank .stopping ≤ rank w.ctl.state ↔ w.ctl.finished = true
  fresh : Fresh p w → w.ctl.state = .joiningRoom
  connected : Forward w.trace → w.ctl.callEstablished = true → rank .connected ≤ rank w.ctl.state
  negotiating : Forward w.trace → 0 < steps p w → rank .negotiating ≤ rank w.ctl.state

/-- A move that leaves the state alone. -/
theorem Reporting.frame {p p' : Phase} {w w' : World} {l : List Action} (h : Reporting p w)
    (htrace : w'.trace = w.trace ++ l) (hl : l.all keepsState = true)
    (hstate : w'.ctl.state = w.ctl.state) (hf : w'.ctl.finished = w.ctl.finished)
    (he : w'.ctl.callEstablished = w.ctl.callEstablished)
    (hfresh : Fresh p' w' → Fresh p w) (hload : steps p' w' ≤ steps p w) : Reporting p' w' where
  current := by
    rw [htrace, statesOf_quiet hl, hstate]
    exact h.current
  stopped := by
    rw [hstate, hf]
    exact h.stopped
  fresh hp := by
    rw [hstate]
    exact h.fresh (hfresh hp)
  connected := by
    rw [htrace, forward_quiet hl, hstate, he]
    exact h.connected
  negotiating := by
    rw [htrace, forward_quiet hl, hstate]
    intro hforward hsteps
    exact h.negotiating hforward (by omega)

/-- A move that sets a state of a call that goes on. -/
theorem Reporting.advance {p p' : Phase} {w w' : World} (h : Reporting p w)
    (pre post : List Action) (state : CallState)
    (htrace : w'.trace = w.trace ++ pre ++ stateActions w.ctl.state state ++ post)
    (hpre : pre.all keepsState = true) (hpost : post.all keepsState = true)
    (hstate : w'.ctl.state = state) (hf : w'.ctl.finished = false)
    (hlt : rank state < rank .stopping) (hfresh : ¬ Fresh p' w')
    (he : w'.ctl.callEstablished = true → state = .connected ∨ w.ctl.callEstablished = true)
    (hload : rank .negotiating ≤ rank state ∨ steps p' w' ≤ steps p w) : Reporting p' w' := by
  have hcurrent : (statesOf (w.trace ++ pre)).getLast? = some w.ctl.state := by
    rw [statesOf_quiet hpre]
    exact h.current
  -- where the longer history never goes back, neither did the shorter, nor does this move
  have hback : Forward w'.trace → Forward w.trace ∧ rank w.ctl.state ≤ rank state := by
    rw [htrace, forward_quiet hpost, forward_setState hcurrent, forward_quiet hpre]
    exact id
  refine
    { current := ?_, stopped := ?_, fresh := fun hp => absurd hp hfresh
      connected := ?_, negotiating := ?_ }
  · rw [htrace, statesOf_quiet hpost, hstate]
    exact current_setState hcurrent
  · rw [hstate, hf]
    constructor
    · intro hle
      omega
    · intro hfin
      cases hfin
  · rw [hstate]
    intro hforward hest
    rcases he hest with rfl | he
    · exact Nat.le_refl _
    · have hle := h.connected (hback hforward).1 he
      have hmono := (hback hforward).2
      omega
  · rw [hstate]
    intro hforward hsteps
    rcases hload with hle | hle
    · exact hle
    · have hneg := h.negotiating (hback hforward).1 (by omega)
      have hmono := (hback hforward).2
      omega

/-- The end of a call sets the last two states. -/
theorem Reporting.over {p' : Phase} {w' : World}
    (hcurrent : (statesOf w'.trace).getLast? = some w'.ctl.state)
    (hstate : rank .stopping ≤ rank w'.ctl.state) (hf : w'.ctl.finished = true)
    (hfresh : ¬ Fresh p' w') : Reporting p' w' where
  current := hcurrent
  stopped := ⟨fun _ => hf, fun _ => hstate⟩
  fresh hp := absurd hp hfresh
  connected _ _ := Nat.le_trans (by decide) hstate
  negotiating _ _ := Nat.le_trans (by decide) hstate

/-- `CompleteFinish` and `Finish` as histories go through `SetState` once. -/
theorem completed_setState (reason : TerminalReason) (status : Status) (w : World) :
    (completed reason status w).trace
      = w.trace ++ (.completeFinish reason status
          :: (closeActions w.peer.connection ++ leaveActions w.ctl.joinResponse))
        ++ stateActions w.ctl.state .finished := by
  simp [completed, closingActions]

theorem stop_setState (reason : TerminalReason) (status : Status) (w : World) :
    w.trace ++ stopActions reason status w.ctl.state
      = w.trace ++ [.finish reason status] ++ stateActions w.ctl.state .stopping := by
  simp [stopActions]

theorem current_completed {reason : TerminalReason} {status : Status} {w : World}
    (h : (statesOf w.trace).getLast? = some w.ctl.state) :
    (statesOf (completed reason status w).trace).getLast? = some .finished := by
  rw [completed_setState]
  refine current_setState ?_
  rw [statesOf_quiet keepsState_completed]
  exact h

theorem current_stopped {reason : TerminalReason} {status : Status} {w : World}
    (h : (statesOf w.trace).getLast? = some w.ctl.state) :
    (statesOf (w.trace ++ stopActions reason status w.ctl.state)).getLast?
      = some .stopping := by
  rw [stop_setState]
  refine current_setState ?_
  rw [statesOf_quiet rfl]
  exact h

theorem not_fresh_of_joined {p : Phase} {w : World} (hset : ∀ jr, p ≠ .setUp jr)
    (hj : w.ctl.joinResponse.isSome = true) : ¬ Fresh p w := by
  intro h
  rcases h with ⟨jr, hp⟩ | ⟨hn, _, _⟩
  · exact hset jr hp
  · rw [hn] at hj
    cases hj

theorem not_fresh_of_over {p : Phase} {w : World} (hset : ∀ jr, p ≠ .setUp jr)
    (hover : w.ctl.finished = true ∨ p.finishes = true) : ¬ Fresh p w := by
  intro h
  rcases h with ⟨jr, hp⟩ | ⟨_, hf, hp⟩
  · exact hset jr hp
  · rw [hf, hp] at hover
    simp at hover

/-- Only the controller's own fields and the phase say whether the join is still to come. -/
theorem Fresh.before {p p' : Phase} {w w' : World} (h : Fresh p' w')
    (hset : ∀ jr, p' ≠ .setUp jr) (hp : p.finishes = false)
    (hj : w'.ctl.joinResponse = w.ctl.joinResponse)
    (hf : w'.ctl.finished = w.ctl.finished) : Fresh p w := by
  rcases h with ⟨jr, hs⟩ | ⟨hn, hfin, _⟩
  · exact absurd hs (hset jr)
  · exact Or.inr ⟨by rw [← hj]; exact hn, by rw [← hf]; exact hfin, hp⟩

theorem reporting_init : Reporting .idle initial where
  current := rfl
  stopped := by decide
  fresh _ := rfl
  connected _ h := absurd h (by decide)
  negotiating _ h := absurd h (by decide)

/-- **Kept by every move.** -/
theorem reporting_move {p p' : Phase} {w w' : World} (hb : Base p w) (hj : Joining p w)
    (h : Reporting p w) (hm : Move env p w p' w') : Reporting p' w' := by
  cases hm with
  -- the moves that set the state
  | webSocketOpen hf hjr =>
      refine h.advance [] [] .registering (by simp) rfl rfl rfl hf
        (by decide) (not_fresh_of_joined (by simp) hjr) (fun he => Or.inr he) (Or.inr ?_)
      simp [steps, load, List.countP_append, Task.isNegotiationStep]
  | established ht hf he =>
      refine h.advance [.established] [] .connected ?_ rfl rfl rfl hf (by decide) ?_
        (fun _ => Or.inl rfl) (Or.inl (by decide))
      · simp [establishedNow]
      · intro hp
        have hw := hj.fresh (hp.before (by simp) rfl rfl rfl)
        have hearly := hw.tasks _ (List.mem_cons_self ..)
        rw [observes_later ht] at hearly
        cases hearly
  | @setUpDone _ jr queued hq hfac hc =>
      have hw := hj.fresh (Or.inl ⟨jr, rfl⟩)
      refine h.advance [.joinQueued jr.messages] [] .connectingWebSocket (by simp) rfl rfl rfl
        hw.finished (by decide)
        (not_fresh_of_joined (by simp) (hb.joined hc)) (fun he => Or.inr he) (Or.inr ?_)
      simp [steps, load, World.pending]
  | offerStarted hp =>
      refine h.advance [] (connectionCall w (.createDescription .offer)) .negotiating (by simp)
        rfl rfl rfl hp.unfinished (by decide)
        (not_fresh_of_joined (by simp) hp.2) (fun he => Or.inr he) (Or.inl (Nat.le_refl _))
  | @remoteBegun _ m _ sdpType _ hp =>
      refine h.advance [.popped m w.stepsInFlight]
        (connectionCall w (.setRemoteDescription sdpType m.sdp)) .negotiating (by simp)
        rfl rfl rfl hp.unfinished (by decide) (not_fresh_of_joined (by simp) hp.2)
        (fun he => Or.inr he) (Or.inl (Nat.le_refl _))
  | @remoteUnparsed _ m _ _ _ _ hp =>
      refine h.advance [.popped m w.stepsInFlight] [.callback] .negotiating (by simp)
        rfl rfl rfl hp.unfinished (by decide)
        (not_fresh_of_joined (by simp) hp.2) (fun he => Or.inr he) (Or.inl (Nat.le_refl _))
  | byeSent hf =>
      exact Reporting.over (current_completed h.current)
        (show rank .stopping ≤ rank .finished by decide) hf
        (not_fresh_of_over (by simp) (Or.inl hf))
  | @byeStarted _ status jr hf hjr =>
      refine Reporting.over ?_ (Nat.le_refl _) rfl (not_fresh_of_over (by simp) (Or.inl rfl))
      rw [byeSent_trace, statesOf_quiet rfl]
      exact current_stopped h.current
  | ended hf hr =>
      refine Reporting.over (current_completed ?_)
        (show rank .stopping ≤ rank .finished by decide) rfl
        (not_fresh_of_over (by simp) (Or.inl rfl))
      exact current_stopped h.current
  | already hf =>
      exact Reporting.over h.current (h.stopped.mpr hf) hf
        (not_fresh_of_over (by simp) (Or.inl hf))
  -- the others leave it alone
  | joined hf =>
      refine h.frame rfl rfl rfl rfl rfl (fun _ => Or.inr ⟨hj.unjoined, hf, rfl⟩) ?_
      simp [steps, load, Task.isNegotiationStep]
  | factoryCreated | connectionCreated | setUpDeref | videoSourceCreated =>
      refine h.frame rfl rfl rfl rfl rfl (fun _ => Or.inl ⟨_, rfl⟩) ?_
      simp [steps, load]
  | ignore | fail | setUpFailed | stopped | drained =>
      refine h.frame (List.append_nil _).symm rfl rfl rfl rfl
        (fun hp => hp.before (by simp) rfl rfl rfl) ?_
      simp [steps, load, List.countP_cons]
  | stats hactions =>
      refine h.frame rfl ?_ rfl rfl rfl (fun hp => hp.before (by simp) rfl rfl rfl) ?_
      · rcases hactions with rfl | ⟨_, rfl⟩ <;> rfl
      · simp [steps, load, List.countP_append, Task.isNegotiationStep]
  | registered hf =>
      refine h.frame rfl rfl rfl rfl rfl (fun hp => hp.before (by simp) rfl rfl rfl) ?_
      have hstats := countP_statsStarted (f := Task.isNegotiationStep) rfl w.ctl.statsRunning
      simp [steps, load, List.countP_append, Task.isNegotiationStep, hstats]
  | remoteOfferSet | remoteAnswerSet | flushFailed | candidatePassed | candidateFailed =>
      refine h.frame rfl ?_ rfl rfl rfl (fun hp => hp.before (by simp) rfl rfl rfl) ?_
      · simp only [List.all_append, List.all_cons, keepsState_pass]
        rfl
      · simp [steps, load, List.countP_append, List.countP_cons, Task.isNegotiationStep]
  | _ =>
      refine h.frame rfl rfl rfl rfl rfl (fun hp => hp.before (by simp) rfl rfl rfl) ?_
      simp [steps, load, List.countP_append, List.countP_cons, Task.isNegotiationStep]

theorem reporting_enter {p : Phase} {w w' : World} {l : Label} (h : Reporting .idle w)
    (he : Enter w l p w') : Reporting p w' := by
  cases he with
  | post hi =>
      refine h.frame (List.append_nil _).symm rfl rfl rfl rfl id ?_
      exact Nat.le_of_eq ((load_post hi).countP_eq _)
  | @event t hr =>
      refine h.frame (List.append_nil _).symm rfl rfl rfl rfl id ?_
      simp [steps, load, World.pending, List.countP_append, canRaise_idle hr]
  | @run t rest r hq =>
      refine h.frame (List.append_nil _).symm rfl rfl rfl rfl
        (fun hp => hp.before (by simp) rfl rfl rfl) ?_
      rw [steps, load_run hq, steps]
  | destroy hq hf =>
      refine Reporting.over ?_ (h.stopped.mpr hf) hf (not_fresh_of_over (by simp) (Or.inl hf))
      show (statesOf (w.trace ++ closeActions w.peer.connection)).getLast? = some w.ctl.state
      rw [statesOf_quiet]
      · exact h.current
      · cases w.peer.connection <;> rfl

theorem reporting_visited {p : Phase} {w : World} (h : Visited env p w) : Reporting p w :=
  h.invariant (I := Reporting) reporting_init (fun _ _ _ _ _ hi he => reporting_enter hi he)
    (fun _ _ _ _ hv hi hm => reporting_move (base_visited hv) (joining_visited hv) hi hm)

theorem Reporting.unstopped {p : Phase} {w : World} (h : Reporting p w)
    (hf : w.ctl.finished = false) : rank w.ctl.state < rank .stopping := by
  by_contra hge
  have hfin := h.stopped.mp (by omega)
  rw [hf] at hfin
  cases hfin

/-- Where the state never went back, it agrees with the flags. -/
theorem Reporting.agree {w : World} (h : Reporting .idle w) (hforward : Forward w.trace) :
    StatesAgree w where
  current := h.current
  forward := hforward
  connected he hf := by
    have hle := h.connected hforward he
    have hlt := h.unstopped hf
    apply rank_injective
    simp only [rank] at hle hlt ⊢
    omega
  stopped := by
    rw [← h.stopped]
    cases w.ctl.state <;> simp [rank]
  negotiating := h.negotiating hforward

end ApprtcCli.Proof
