import ApprtcCli.Proof.States

/-!
# The steps that set the state back

Which steps of a run make `state_` go back, said from the world before the step: what
the running task has done when it calls the pump, and where the messages that wait then
lead. `forward_step` says that these are all, so a run agrees with its flags exactly
where it takes none of them.
-/

namespace ApprtcCli.Proof

open Lib Call PhaseMachine

variable {env : Env}

/-- The initiator has not made its offer. -/
def offerDue (w : World) : Bool :=
  match w.ctl.joinResponse with
  | none => false
  | some joinResponse => joinResponse.isInitiator && !w.ctl.offerStarted

section condition

variable (env : Env)

/-- These messages lead the pump to an offer or an answer, or to the offer that is due. -/
def leadsToStep : List SignalingMessage → World → Bool
  | [], w => offerDue w
  | m :: rest, w =>
      match m.type with
      | .offer => true
      | .answer => true
      | .candidate =>
          -- the candidates on the way have to be taken
          match addRemoteCandidate env m (popMessage m rest w) with
          | (.ok (), w) => leadsToStep rest w
          | (.error _, _) => false
      | .bye => false
      | .unknown => false

/-- The pump, called here, begins a negotiation step. -/
def pumpBegins (w : World) : Bool :=
  mayPump w && w.ctl.joinResponse.isSome && leadsToStep env w.ctl.pendingSignalingMessages w

/-- The world in which a running task calls the pump, where it does. -/
def atPump (w : World) : Task → Reply → Option World
  | .sendComplete .description, .status (.ok ()) =>
      some { w with ctl.signalingActionInFlight := false }
  | .registerComplete, .status (.ok ()) =>
      if w.ctl.finished then none
      else some (startStatsTimer ({ w with ctl.negotiationReady := true }.act .registered))
  | .signaling (.signalingMessage m), .none =>
      if w.ctl.finished then none
      else some ({ w with
        ctl.pendingSignalingMessages := w.ctl.pendingSignalingMessages ++ [m] }.act (.accepted m))
  | .safe flag .setRemoteAnswer, .status (.ok ()) =>
      if flag = w.peer.safety then
        match flushPendingRemoteCandidates env
            ({ w with peer.remoteDescriptionSet := true }.act (.remoteApplied .answer)) with
        | (.ok (), w) => some ({ w with ctl.signalingActionInFlight := false }.act .callback)
        | (.error _, _) => none
      else none
  | _, _ => none

/--
A running task sets the state back: the socket opens in a call that is past registering,
or a negotiation step begins in one that is connected.
-/
def setsBack (w : World) (t : Task) (r : Reply) : Bool :=
  match t with
  | .signaling .webSocketOpen =>
      !w.ctl.finished && w.ctl.joinResponse.isSome && rank .registering < rank w.ctl.state
  | t => w.ctl.state = .connected && (atPump env w t r).any (pumpBegins env)

/-- The step runs a task that sets the state back. -/
def regresses (w : World) : Label → Bool
  | .run r =>
      match w.queue with
      | [] => false
      | t :: rest => setsBack env { w with queue := rest } t r
  | _ => false

end condition

/-- The tasks that neither call the pump nor open a socket. -/
def isCalm : Task → Bool
  | .sendComplete .description => false
  | .registerComplete => false
  | .signaling .webSocketOpen => false
  | .signaling (.signalingMessage _) => false
  | .safe _ .setRemoteAnswer => false
  | _ => true

def Phase.isCalm : Phase → Bool
  | .run t _ => ApprtcCli.Proof.isCalm t
  | .pump => false
  | _ => true

/-- A history that goes through `SetState` once, forward. -/
theorem forward_advance {w : World} {pre post : List Action} {state : CallState}
    (hcurrent : (statesOf w.trace).getLast? = some w.ctl.state)
    (hpre : pre.all keepsState = true) (hpost : post.all keepsState = true) :
    Forward (w.trace ++ pre ++ stateActions w.ctl.state state ++ post)
      ↔ Forward w.trace ∧ rank w.ctl.state ≤ rank state := by
  have hlast : (statesOf (w.trace ++ pre)).getLast? = some w.ctl.state := by
    rw [statesOf_quiet hpre]
    exact hcurrent
  rw [forward_quiet hpost, forward_setState hlast, forward_quiet hpre]

/-- `CompleteFinish` never sets the state back. -/
theorem forward_completed {reason : TerminalReason} {status : Status} {w : World}
    (hcurrent : (statesOf w.trace).getLast? = some w.ctl.state) :
    Forward (completed reason status w).trace ↔ Forward w.trace := by
  rw [completed_setState, ← List.append_nil (_ ++ stateActions ..),
    forward_advance hcurrent keepsState_completed rfl]
  refine and_iff_left ?_
  cases w.ctl.state <;> decide

theorem forward_stopped {reason : TerminalReason} {status : Status} {w : World}
    (hcurrent : (statesOf w.trace).getLast? = some w.ctl.state)
    (hlt : rank w.ctl.state < rank .stopping) :
    Forward (w.trace ++ stopActions reason status w.ctl.state) ↔ Forward w.trace := by
  rw [stop_setState, ← List.append_nil (_ ++ stateActions ..), forward_advance hcurrent rfl rfl]
  exact and_iff_left (Nat.le_of_lt hlt)

theorem forward_ended {reason : TerminalReason} {status : Status} {w : World}
    (hcurrent : (statesOf w.trace).getLast? = some w.ctl.state)
    (hlt : rank w.ctl.state < rank .stopping) :
    Forward (ended reason status w).trace ↔ Forward w.trace := by
  unfold ended
  rw [forward_completed (current_stopped hcurrent)]
  exact forward_stopped hcurrent hlt

theorem forward_byeSent {joinResponse : JoinResponse} {status : Status} {w : World}
    (hcurrent : (statesOf w.trace).getLast? = some w.ctl.state)
    (hlt : rank w.ctl.state < rank .stopping) :
    Forward (byeSent env joinResponse status w).trace ↔ Forward w.trace := by
  rw [byeSent_trace, forward_quiet rfl]
  exact forward_stopped hcurrent hlt

/-- **A calm move never sets the state back**, and stays calm. -/
theorem calm_move {p p' : Phase} {w w' : World} (hj : Joining p w) (h : Reporting p w)
    (hc : p.isCalm = true) (hm : Move env p w p' w') :
    p'.isCalm = true ∧ (Forward w'.trace ↔ Forward w.trace) := by
  cases hm with
  -- the phases that are not calm
  | descriptionSent | descriptionUnsent | webSocketOpen | registered | accepted
  | remoteAnswerSet | stopped | drained | offerStarted | candidateBuffered | candidatePassed
  | candidateFailed | byePopped | unknownPopped | remoteBegun | remoteUnparsed => cases hc
  | established ht hf he =>
      refine ⟨hc, ?_⟩
      have htrace : (establishedNow w).trace
          = w.trace ++ [.established] ++ stateActions w.ctl.state .connected ++ [] := by
        simp [establishedNow]
      rw [htrace, forward_advance h.current rfl rfl]
      have hlt := h.unstopped hf
      refine and_iff_left ?_
      simp only [rank] at hlt ⊢
      omega
  | @setUpDone _ jr queued hq hfac hcon =>
      refine ⟨rfl, ?_⟩
      have htrace : w.trace ++ (.joinQueued jr.messages
            :: stateActions w.ctl.state .connectingWebSocket)
          = w.trace ++ [.joinQueued jr.messages]
            ++ stateActions w.ctl.state .connectingWebSocket ++ [] := by
        simp
      show Forward (w.trace ++ (.joinQueued jr.messages
        :: stateActions w.ctl.state .connectingWebSocket)) ↔ _
      rw [htrace, forward_advance h.current rfl rfl, h.fresh (Or.inl ⟨jr, rfl⟩)]
      exact and_iff_left (by decide)
  | byeSent hf => exact ⟨rfl, forward_completed h.current⟩
  | byeStarted hf hjr => exact ⟨rfl, forward_byeSent h.current (h.unstopped hf)⟩
  | ended hf hr => exact ⟨rfl, forward_ended h.current (h.unstopped hf)⟩
  | ignore | fail | setUpFailed | already => exact ⟨rfl, Iff.rfl⟩
  | stats hactions =>
      refine ⟨rfl, forward_quiet ?_⟩
      rcases hactions with rfl | ⟨_, rfl⟩ <;> rfl
  | remoteOfferSet | flushFailed =>
      refine ⟨rfl, forward_quiet ?_⟩
      simp only [List.all_append, List.all_cons, keepsState_pass]
      rfl
  | observed => exact ⟨hc, forward_quiet rfl⟩
  | _ => exact ⟨rfl, forward_quiet rfl⟩

/-- A task that neither pumps nor opens a socket never sets the state back. -/
theorem forward_calm {t : Task} {r : Reply} {w w' : World} (hv : Visited env (.run t r) w)
    (ht : isCalm t = true) (hm : Moves env (.run t r) w .idle w') :
    Forward w'.trace ↔ Forward w.trace := by
  have hkept := hm.invariant
    (I := fun p v => Visited env p v ∧ p.isCalm = true ∧ (Forward v.trace ↔ Forward w.trace))
    ?_ ⟨hv, ht, Iff.rfl⟩
  · exact hkept.2.2
  · intro p v p' v' ⟨hv, hc, hiff⟩ hmove
    obtain ⟨hc', hiff'⟩ :=
      calm_move (joining_visited hv) (reporting_visited hv) hc hmove
    exact ⟨hv.move hmove, hc', hiff'.trans hiff⟩

/-! ## The pump -/

/-- What the running task has made of a world without touching the state. -/
structure Silent (w v : World) : Prop where
  state : v.ctl.state = w.ctl.state
  finished : v.ctl.finished = w.ctl.finished
  states : statesOf v.trace = statesOf w.trace

theorem Silent.trans {w v u : World} (h : Silent w v) (h' : Silent v u) : Silent w u :=
  ⟨h'.state.trans h.state, h'.finished.trans h.finished, h'.states.trans h.states⟩

theorem Silent.act {w v : World} (h : Silent w v) {a : Action} (ha : keepsState a = true) :
    Silent w (v.act a) := by
  refine ⟨h.state, h.finished, ?_⟩
  show statesOf (v.trace ++ [a]) = _
  rw [statesOf_quiet (by simp [ha]), h.states]

theorem Silent.forward {w v : World} (h : Silent w v) : Forward v.trace ↔ Forward w.trace := by
  unfold Forward
  rw [h.states]

/-- What is known of a world in the middle of a task. -/
structure Reports (w : World) : Prop where
  current : (statesOf w.trace).getLast? = some w.ctl.state
  unstopped : w.ctl.finished = false → rank w.ctl.state < rank .stopping

theorem Silent.reports {w v : World} (h : Silent w v) (hw : Reports w) : Reports v where
  current := by
    rw [h.states, h.state]
    exact hw.current
  unstopped := by
    rw [h.finished, h.state]
    exact hw.unstopped

theorem forward_finish {reason : TerminalReason} {status : Status} {w : World} (h : Reports w) :
    Forward (finish env reason status w).trace ↔ Forward w.trace := by
  cases hf : w.ctl.finished with
  | true => rw [finish_finished hf]
  | false =>
      rcases finish_cases env reason status hf with ⟨jr, _, _, heq⟩ | ⟨_, heq⟩
      · rw [heq]
        exact forward_byeSent h.current (h.unstopped hf)
      · rw [heq]
        exact forward_ended h.current (h.unstopped hf)

theorem silent_popMessage (m : SignalingMessage) (rest : List SignalingMessage) (w : World) :
    Silent w (popMessage m rest w) := by
  refine ⟨rfl, rfl, ?_⟩
  rw [popMessage_eq]
  exact statesOf_quiet rfl

theorem silent_passed (m : SignalingMessage) (w : World) : Silent w (passed m w) := by
  refine ⟨rfl, rfl, ?_⟩
  rw [passed_eq]
  exact statesOf_quiet rfl

/-- Taking a candidate leaves the controller alone. -/
theorem silent_candidate {m : SignalingMessage} {w w' : World} {r : Status}
    (h : addRemoteCandidate env m w = (r, w')) : w'.ctl = w.ctl ∧ Silent w w' := by
  unfold addRemoteCandidate at h
  split at h
  · injection h with _ h
    subst h
    exact ⟨rfl, rfl, rfl, rfl⟩
  · rcases passCandidate_cases h with rfl | ⟨rfl, _⟩
    · exact ⟨rfl, silent_passed m w⟩
    · exact ⟨rfl, rfl, rfl, rfl⟩

/-- In a call that goes on, `negotiating` is behind `connected` only. -/
theorem rank_negotiating {state : CallState} (h : rank state < rank .stopping) :
    rank state ≤ rank .negotiating ↔ state ≠ .connected := by
  cases state <;> first | decide | exact absurd h (by decide)

/-- Beginning a step for a popped message, in a call that goes on. -/
theorem forward_begin (m : SignalingMessage) (rest : List SignalingMessage) {w : World}
    (h : Reports w) (hp : Pumping w) :
    Reports (beginNegotiation (popMessage m rest w))
      ∧ (Forward (beginNegotiation (popMessage m rest w)).trace
        ↔ Forward w.trace ∧ w.ctl.state ≠ .connected) := by
  have hpop := silent_popMessage m rest w
  have htrace : (beginNegotiation (popMessage m rest w)).trace
      = (popMessage m rest w).trace ++ stateActions w.ctl.state .negotiating := by
    rw [beginNegotiation_eq, grow_trace, hpop.state]
  have hcurrent : (statesOf (popMessage m rest w).trace).getLast? = some w.ctl.state := by
    rw [hpop.states]
    exact h.current
  refine ⟨⟨?_, fun _ => ?_⟩, ?_⟩
  · rw [htrace, beginNegotiation_eq]
    exact current_setState hcurrent
  · rw [beginNegotiation_eq]
    show rank .negotiating < rank .stopping
    decide
  · rw [htrace, forward_setState hcurrent, hpop.forward,
      rank_negotiating (h.unstopped hp.unfinished)]

/-- An offer or an answer sets the state back in a connected call, whether or not it parses. -/
theorem forward_remote {m : SignalingMessage} {rest : List SignalingMessage} {w : World}
    (h : Reports w) (hp : Pumping w) (type : SdpType) (task : PeerTask)
    (parsed : Except Text Unit) :
    Forward (match parsed with
      | .error description => onDescription env (.error ⟨.invalidArgument, description⟩)
          (beginNegotiation (popMessage m rest w))
      | .ok () => applyRemoteDescription type m.sdp task
          (beginNegotiation (popMessage m rest w))).trace
      ↔ Forward w.trace ∧ w.ctl.state ≠ .connected := by
  obtain ⟨hreports, hbegin⟩ := forward_begin m rest h hp
  rw [← hbegin]
  cases parsed with
  | error description =>
      have hsilent : Silent (beginNegotiation (popMessage m rest w))
          { (beginNegotiation (popMessage m rest w)).act .callback with
            ctl.signalingActionInFlight := false } :=
        ⟨rfl, rfl, statesOf_quiet rfl⟩
      exact (forward_finish (hsilent.reports hreports)).trans hsilent.forward
  | ok u =>
      dsimp only
      rw [applyRemoteDescription_eq]
      exact forward_quiet rfl

/-- **The pump sets the state back** exactly where it begins a step in a connected call. -/
theorem forward_pumpLoop :
    ∀ (ms : List SignalingMessage) (w : World), Reports w → Pumping w →
      (Forward (pumpLoop env ms w).trace
        ↔ Forward w.trace ∧ ¬ (w.ctl.state = .connected ∧ leadsToStep env ms w = true)) := by
  intro ms
  induction ms with
  | nil =>
      intro w h hp
      obtain ⟨jr, hj⟩ := Option.isSome_iff_exists.mp hp.2
      rw [pumpLoop, if_pos hp.1]
      simp only [leadsToStep, offerDue, startOfferIfDue, hj]
      split
      · rename_i hdue
        rw [createOffer, createDescription_eq, setState_eq]
        have htrace : w.trace ++ stateActions w.ctl.state .negotiating
              ++ connectionCall w (.createDescription .offer)
            = w.trace ++ [] ++ stateActions w.ctl.state .negotiating
              ++ connectionCall w (.createDescription .offer) := by
          simp
        show Forward (w.trace ++ stateActions w.ctl.state .negotiating
          ++ connectionCall w (.createDescription .offer)) ↔ _
        rw [htrace, forward_advance h.current rfl rfl,
          rank_negotiating (h.unstopped hp.unfinished)]
        simp [hdue]
      · rename_i hdue
        simp [hdue]
  | cons m rest ih =>
      intro w h hp
      have hpop := silent_popMessage m rest w
      have hfinish : ∀ {reason : TerminalReason} {status : Status} {v : World}, Silent w v →
          (Forward (finish env reason status v).trace
            ↔ Forward w.trace ∧ ¬ (w.ctl.state = .connected ∧ false = true)) := by
        intro reason status v hv
        rw [forward_finish (hv.reports h), hv.forward]
        simp
      rw [pumpLoop, if_neg (by simp [hp.1])]
      dsimp only
      rw [leadsToStep]
      cases hm : m.type with
      | bye =>
          dsimp only
          unfold onBye
          split <;> exact hfinish hpop
      | unknown => exact hfinish hpop
      | candidate =>
          dsimp only
          generalize hres : addRemoteCandidate env m (popMessage m rest w) = res
          obtain ⟨status, v⟩ := res
          obtain ⟨hctl, hv⟩ := silent_candidate hres
          have hv := hpop.trans hv
          cases status with
          | error e => exact hfinish hv
          | ok u =>
              -- the loop goes round, with the controller it had
              have hpv : Pumping v := by
                unfold Pumping mayPump
                rw [hctl]
                exact hp
              dsimp only
              rw [ih v (hv.reports h) hpv, hv.forward, hv.state]
      | answer =>
          simp only [and_true]
          exact forward_remote h hp .answer .setRemoteAnswer
            (env.createSessionDescription .answer m.sdp)
      | offer =>
          simp only [and_true]
          exact forward_remote h hp .offer .setRemoteOffer
            (env.createSessionDescription .offer m.sdp)

theorem forward_pump {w : World} (h : Reports w) :
    Forward (pumpSignalingMessages env w).trace
      ↔ Forward w.trace ∧ ¬ (w.ctl.state = .connected ∧ pumpBegins env w = true) := by
  unfold pumpSignalingMessages pumpBegins
  by_cases hp : Pumping w
  · obtain ⟨jr, hj⟩ := Option.isSome_iff_exists.mp hp.2
    rw [if_neg (by simp [hp.1, hj]), forward_pumpLoop _ w h hp, hp.1, hp.2]
    simp
  · have hno : (mayPump w && w.ctl.joinResponse.isSome) = false := by
      by_contra hyes
      exact hp (Bool.and_eq_true_iff.mp (by simpa only [Bool.not_eq_false] using hyes))
    rw [hno, if_pos (by cases hm : mayPump w <;> simp_all)]
    simp

/-! ## A step -/

/-- A task that calls the pump has left the state alone so far, and does nothing after. -/
theorem pumps_of_atPump {t : Task} {r : Reply} {w v : World} (h : atPump env w t r = some v) :
    Silent w v ∧ runTask env w t r = some (pumpSignalingMessages env v) := by
  unfold atPump at h
  split at h
  · cases h
    exact ⟨⟨rfl, rfl, rfl⟩, rfl⟩
  · split at h
    · cases h
    · rename_i hf
      cases h
      refine ⟨?_, ?_⟩
      · unfold startStatsTimer
        split <;> exact ⟨rfl, rfl, statesOf_quiet rfl⟩
      · simp [runTask, onRegisterComplete, hf]
  · split at h
    · cases h
    · rename_i m hf
      cases h
      refine ⟨⟨rfl, rfl, statesOf_quiet rfl⟩, ?_⟩
      simp [runTask, onSignalingEvent, onInboundSignalingMessage, hf]
  · split at h
    · rename_i flag hflag
      split at h
      · -- a good flush, and the callback of the answer
        rename_i w₁ hflush
        cases h
        rcases flush_cases hflush with ⟨_, rfl⟩ | ⟨_, _, herr, _⟩
        · refine ⟨⟨?_, ?_, ?_⟩, ?_⟩
          · rw [flushed_eq]
            rfl
          · rw [flushed_eq]
            rfl
          · rw [flushed_eq]
            show statesOf
              (w.trace ++ (.remoteApplied .answer :: passActions _ _) ++ [.callback]) = _
            rw [statesOf_quiet rfl, statesOf_quiet]
            rw [List.all_cons, keepsState_pass]
            rfl
          · have hrun : runTask env w (.safe flag .setRemoteAnswer) (.status (.ok ()))
                = some (onRemoteDescriptionSet env
                  (onAnswerSet env (pumpSignalingMessages env)) .answer (.ok ()) w) := if_pos hflag
            rw [hrun]
            unfold onRemoteDescriptionSet
            dsimp only
            rw [hflush]
            rfl
        · cases herr
      · cases h
    · cases h
  · cases h

/-- An answer that could not be set or flushed finishes the call. -/
theorem answer_unset (pump : World → World) (e : Error) (w : World) :
    onAnswerSet env pump (.error e) w
      = finish env .peerConnectionError (.error e)
        ({ w with ctl.signalingActionInFlight := false }.act .callback) := rfl

theorem Silent.unset {w v : World} (h : Silent w v) :
    Silent w ({ v with ctl.signalingActionInFlight := false }.act .callback) :=
  Silent.act (v := { v with ctl.signalingActionInFlight := false })
    ⟨h.state, h.finished, h.states⟩ rfl

/-- A flush that is cut short leaves the state alone. -/
theorem silent_passedAll (type : SdpType) (front : List SignalingMessage) (w : World) :
    Silent w (passedAll front ({ w with peer.remoteDescriptionSet := true }.act
      (.remoteApplied type))) := by
  rw [applied_eq, passedAll_eq]
  refine ⟨rfl, rfl, ?_⟩
  show statesOf (w.trace ++ [.remoteApplied type] ++ passActions _ front) = _
  rw [statesOf_quiet keepsState_pass, statesOf_quiet rfl]

theorem answer_unpumped {status : Status} {w : World}
    (h : atPump env w (.safe w.peer.safety .setRemoteAnswer) (.status status) = none) :
    ∃ v, Silent w v ∧ ∃ reason status',
      onRemoteDescriptionSet env (onAnswerSet env (pumpSignalingMessages env)) .answer status w
        = finish env reason status' v := by
  have hsame : Silent w w := ⟨rfl, rfl, rfl⟩
  unfold onRemoteDescriptionSet
  cases status with
  | error e =>
      dsimp only
      rw [answer_unset]
      exact ⟨_, hsame.unset, _, _, rfl⟩
  | ok u =>
      dsimp only
      split
      · rename_i e v hflush
        rcases flush_cases hflush with ⟨hok, _⟩ | ⟨_, front, _, _, rfl⟩
        · cases hok
        · rw [answer_unset]
          exact ⟨_, (silent_passedAll .answer front w).unset, _, _, rfl⟩
      · rename_i v hflush
        simp [atPump, hflush] at h

/-- The tasks that could have called the pump and did not leave the state to `Finish`. -/
theorem finishes_of_unpumped {t : Task} {r : Reply} {w w' : World} (ht : isCalm t = false)
    (hopen : t ≠ .signaling .webSocketOpen) (h : atPump env w t r = none)
    (hrun : runTask env w t r = some w') :
    ∃ v, Silent w v ∧ (w' = v ∨ ∃ reason status, w' = finish env reason status v) := by
  have hsame : Silent w w := ⟨rfl, rfl, rfl⟩
  cases t with
  | sendComplete kind =>
      cases kind with
      | description =>
          cases r with
          | status status =>
              cases status with
              | error e =>
                  cases hrun
                  exact ⟨{ w with ctl.signalingActionInFlight := false }, ⟨rfl, rfl, rfl⟩,
                    Or.inr ⟨_, _, rfl⟩⟩
              | ok u => cases h
          | _ => cases hrun
      | _ => cases ht
  | registerComplete =>
      cases r with
      | status status =>
          simp only [runTask, onRegisterComplete, Option.some.injEq] at hrun
          split at hrun
          · exact ⟨w, hsame, Or.inl hrun.symm⟩
          · rename_i hf
            cases status with
            | error e => exact ⟨w, hsame, Or.inr ⟨_, _, hrun.symm⟩⟩
            | ok u => simp [atPump, hf] at h
      | _ => cases hrun
  | signaling event =>
      cases event with
      | webSocketOpen => exact absurd rfl hopen
      | error e => cases ht
      | signalingMessage m =>
          cases r with
          | none =>
              simp only [runTask, onSignalingEvent, onInboundSignalingMessage,
                Option.some.injEq] at hrun
              split at hrun
              · exact ⟨w, hsame, Or.inl hrun.symm⟩
              · rename_i hf
                simp [atPump, hf] at h
          | _ => cases hrun
  | safe flag task =>
      cases task with
      | setRemoteAnswer =>
          replace hrun : (if flag = w.peer.safety then runPeerTask env w .setRemoteAnswer r
              else some w) = some w' := by
            cases r <;> exact hrun
          split at hrun
          · rename_i hflag
            subst hflag
            cases r with
            | status status =>
                injection hrun with hrun
                obtain ⟨v, hv, reason, status', heq⟩ := answer_unpumped h
                exact ⟨v, hv, Or.inr ⟨reason, status', hrun.symm.trans heq⟩⟩
            | _ => cases hrun
          · injection hrun with hrun
            exact ⟨w, hsame, Or.inl hrun.symm⟩
      | _ => cases ht
  | _ => cases ht

theorem setsBack_of_ne {t : Task} {r : Reply} {w : World} (h : t ≠ .signaling .webSocketOpen) :
    setsBack env w t r
      = (w.ctl.state = .connected && (atPump env w t r).any (pumpBegins env)) := by
  cases t with
  | signaling event =>
      cases event with
      | webSocketOpen => exact absurd rfl h
      | _ => rfl
  | _ => rfl

theorem forward_open {w : World} (h : Reports w) :
    Forward (onWebSocketOpen w).trace
      ↔ Forward w.trace ∧ setsBack env w (.signaling .webSocketOpen) .none = false := by
  unfold onWebSocketOpen setsBack
  by_cases hc : (w.ctl.finished || w.ctl.joinResponse.isNone) = true
  · rw [if_pos hc]
    have hno : (!w.ctl.finished && w.ctl.joinResponse.isSome) = false := by
      cases hf : w.ctl.finished <;> cases hj : w.ctl.joinResponse <;> simp [hf, hj] at hc ⊢
    rw [hno]
    simp
  · rw [if_neg hc, setState_eq]
    have hyes : (!w.ctl.finished && w.ctl.joinResponse.isSome) = true := by
      cases hf : w.ctl.finished <;> cases hj : w.ctl.joinResponse <;> simp [hf, hj] at hc ⊢
    show Forward (w.trace ++ stateActions w.ctl.state .registering) ↔ _
    rw [forward_setState h.current, hyes]
    simp

/-- **A task sets the state back** exactly where `setsBack` says so. -/
theorem forward_run {t : Task} {r : Reply} {w w' : World} (hv : Visited env (.run t r) w)
    (h : runTask env w t r = some w') :
    Forward w'.trace ↔ Forward w.trace ∧ setsBack env w t r = false := by
  have hr := reporting_visited hv
  have hreports : Reports w := ⟨hr.current, hr.unstopped⟩
  by_cases hopen : t = .signaling .webSocketOpen
  · subst hopen
    cases r with
    | none =>
        cases h
        exact forward_open hreports
    | _ => cases h
  · rw [setsBack_of_ne hopen]
    cases hat : atPump env w t r with
    | some v =>
        obtain ⟨hs, hrun⟩ := pumps_of_atPump hat
        rw [hrun] at h
        cases h
        rw [forward_pump (hs.reports hreports), hs.forward, hs.state]
        simp
    | none =>
        -- nothing begins, so nothing is set back
        have hkept : Forward w'.trace ↔ Forward w.trace := by
          cases hc : isCalm t with
          | true => exact forward_calm hv hc (task_moves (base_visited hv) h)
          | false =>
              obtain ⟨v, hs, rfl | ⟨reason, status, rfl⟩⟩ :=
                finishes_of_unpumped hc hopen hat h
              · exact hs.forward
              · exact (forward_finish (hs.reports hreports)).trans hs.forward
        rw [hkept]
        simp

theorem regresses_run {w : World} {r : Reply} {t : Task} {rest : List Task}
    (hq : w.queue = t :: rest) :
    regresses env w (.run r) = setsBack env { w with queue := rest } t r := by
  simp only [regresses, hq]

theorem forward_step {w w' : World} {l : Label} (hreached : Reached env w)
    (h : step env w l = some w') :
    Forward w'.trace ↔ Forward w.trace ∧ regresses env w l = false := by
  have hv := reached_visited hreached
  have hb := base_visited hv
  cases l with
  | post i =>
      obtain ⟨t, _, rfl⟩ := post_eq hb h
      simp [regresses]
  | event t =>
      obtain ⟨_, rfl⟩ := event_eq hb h
      simp [regresses]
  | run r =>
      obtain ⟨t, rest, hq, hrun⟩ := run_eq h
      rw [regresses_run hq]
      exact forward_run (hv.enter (Enter.run hq)) hrun
  | destroy =>
      obtain ⟨_, rfl⟩ := destroy_eq hb h
      simp only [regresses, and_true]
      refine forward_quiet ?_
      cases w.peer.connection <;> rfl

/--
**The state agrees with the flags and only moves forward** in exactly the runs none of
whose steps sets it back: no socket opens in a call past registering, and no offer or
answer is begun in a connected one.
-/
theorem states_agree_iff {tr : List (World × Label)} {w : World}
    (h : Run (step env) initial tr w) :
    StatesAgree w ↔ ∀ p ∈ tr, regresses env p.1 p.2 = false := by
  obtain ⟨hreached, hiff⟩ := h.law_iff (P := fun w l => regresses env w l = false)
    (J := Reached env) (I := fun w => Forward w.trace) Reachable.init
    (by unfold Forward; decide)
    (fun w l w' hj hs => hj.next hs) (fun w l w' hj hs => forward_step hj hs)
  rw [← hiff]
  exact ⟨fun hagree => hagree.forward, (reporting_visited (reached_visited hreached)).agree⟩

/-! ## A late offer -/

def offerEnv : Env := .smooth [("offer", .object [("type", .string "offer")])]

/-- The offer that waited in the room is answered, and the call is established. -/
def answeredLabels : List Label :=
  joinLabels { messages := ["offer"] }
    ++ [.post 2, .run (.status okStatus), .post 2, .run (.description (.ok (some "v=0"))),
      .post 2, .run (.status okStatus), .post 2, .run (.status okStatus)]
    ++ establishLabels

/-- In an answered call no step has set the state back. -/
theorem states_agree_iff_answered :
    ∃ tr, Run (step offerEnv) initial tr (after offerEnv answeredLabels)
      ∧ (after offerEnv answeredLabels).ctl.state = .connected
      ∧ ∀ p ∈ tr, regresses offerEnv p.1 p.2 = false := by
  have hreached : Reached offerEnv (after offerEnv answeredLabels) := reached_after _ rfl
  have hagree : StatesAgree (after offerEnv answeredLabels) :=
    (reporting_visited (reached_visited hreached)).agree (by unfold Forward; decide)
  obtain ⟨tr, hr⟩ := hreached
  exact ⟨tr, hr, by decide, (states_agree_iff hr).mp hagree⟩

/-- The other side offers again, in the established call. -/
def lateOfferLabels : List Label :=
  answeredLabels ++ [.event (.signaling (.signalingMessage { type := .offer })), .run .none]

/-- **A late offer sets the state of an established call back to `negotiating`.** -/
theorem late_offer_sets_back :
    ∃ w, Reached offerEnv w ∧ w.ctl.callEstablished = true ∧ w.ctl.finished = false
      ∧ w.ctl.state = .negotiating ∧ ¬ StatesAgree w := by
  refine ⟨after offerEnv lateOfferLabels, reached_after _ rfl, by decide, by decide, by decide,
    fun h => ?_⟩
  have hconnected := h.connected (by decide) (by decide)
  exact absurd hconnected (by decide)

end ApprtcCli.Proof
