import ApprtcCli.Proof.Base

/-!
# The moves miss nothing

Every step of the call is a path of moves, so every reachable world is one the
phase machine visits. This is the one place where the handlers are unfolded; from
here on a proof about the call is a case analysis of `Move`.
-/

namespace ApprtcCli.Proof

open Lib Call PhaseMachine

variable {env : Env}

theorem finish_moves (reason : TerminalReason) (status : Status) (w : World) :
    Moves env (.finishing reason status) w .idle (finish env reason status w) := by
  cases hf : w.ctl.finished with
  | true =>
      rw [finish_finished hf]
      exact Moves.single (Move.already hf)
  | false =>
      rcases finish_cases env reason status hf with
        ⟨jr, rfl, hj, he⟩ | ⟨hr, he⟩
      · rw [he]; exact Moves.single (Move.byeStarted hf hj)
      · rw [he]; exact Moves.single (Move.ended hf hr)

/-- A move that ends in `Finish` is a whole path. -/
theorem moves_finish {p : Phase} {w w₁ : World} {reason : TerminalReason} {status : Status}
    (h : Move env p w (.finishing reason status) w₁) :
    Moves env p w .idle (finish env reason status w₁) :=
  Moves.head h (finish_moves reason status w₁)

/-! ## The pump -/

theorem popMessage_eq (m : SignalingMessage) (rest : List SignalingMessage) (w : World) :
    popMessage m rest w
      = grow w (poppedCtl w.ctl rest) w.peer [] [.popped m w.stepsInFlight] := by
  simp [popMessage, grow, World.act, poppedCtl]

theorem passed_eq (m : SignalingMessage) (w : World) :
    passed m w = grow w w.ctl w.peer [] (passActions w.peer.connection [m]) := by
  simp [passed, grow, World.act, World.deref, passActions, PeerConnectionClient.live]

@[simp] theorem grow_grow (w : World) (ctl ctl' : CallController)
    (peer peer' : PeerConnectionClient) (started started' : List Task)
    (actions actions' : List Action) :
    grow (grow w ctl peer started actions) ctl' peer' started' actions'
      = grow w ctl' peer' (started ++ started') (actions ++ actions') := by
  simp [grow]

theorem beginNegotiation_eq (w : World) :
    beginNegotiation w
      = grow w (negotiatingCtl w.ctl) w.peer [] (stateActions w.ctl.state .negotiating) := by
  unfold beginNegotiation
  rw [setState_eq]
  simp [grow, negotiatingCtl]

theorem applyRemoteDescription_eq (type : SdpType) (sdp : Text) (observer : PeerTask)
    (w : World) :
    applyRemoteDescription type sdp observer w
      = grow w w.ctl w.peer [.safe w.peer.safety observer]
          (connectionCall w (.setRemoteDescription type sdp)) := by
  simp [applyRemoteDescription, grow, World.act, World.deref, World.startSafe, World.start,
    connectionCall, PeerConnectionClient.live]

theorem createDescription_eq (type : SdpType) (w : World) :
    createDescription type w
      = grow w w.ctl w.peer [.safe w.peer.safety (.createDescription type)]
          (connectionCall w (.createDescription type)) := by
  simp [createDescription, grow, World.act, World.deref, World.startSafe, World.start,
    connectionCall, PeerConnectionClient.live]

theorem act_eq_grow (w : World) (a : Action) : w.act a = grow w w.ctl w.peer [] [a] := by
  simp [World.act, grow]

theorem startOffer_moves {w : World} (hp : Pumping w)
    (hq : w.ctl.pendingSignalingMessages = []) :
    Moves env .pump w .idle (startOfferIfDue w) := by
  obtain ⟨jr, hj⟩ := Option.isSome_iff_exists.mp hp.2
  unfold startOfferIfDue
  simp only [hj]
  split
  · rename_i hdue
    simp only [Bool.and_eq_true, Bool.not_eq_true'] at hdue
    refine Moves.single ?_
    have heq : createOffer { setState .negotiating w with
          ctl.offerStarted := true, ctl.signalingActionInFlight := true }
        = grow w { negotiatingCtl w.ctl with offerStarted := true } w.peer
            [.safe w.peer.safety (.createDescription .offer)]
            (stateActions w.ctl.state .negotiating
              ++ connectionCall w (.createDescription .offer)) := by
      rw [createOffer, createDescription_eq, setState_eq]
      simp [grow, negotiatingCtl, connectionCall]
    rw [heq]
    exact Move.offerStarted hp hq hj hdue.1 hdue.2
  · rename_i hdue
    refine Moves.single (Move.drained hp hq hj ?_)
    intro hi
    simpa [hi] using hdue

/-- Messages the client cannot parse a description from come back at once. -/
theorem remoteUnparsed_eq (m : SignalingMessage) (rest : List SignalingMessage) {w : World}
    (hp : Pumping w) :
    { (beginNegotiation (popMessage m rest w)).act .callback with
        ctl.signalingActionInFlight := false }
      = grow w { poppedCtl w.ctl rest with state := .negotiating } w.peer []
          (.popped m w.stepsInFlight :: stateActions w.ctl.state .negotiating ++ [.callback]) := by
  rw [beginNegotiation_eq, popMessage_eq, act_eq_grow]
  have hi := hp.unflighted
  simp [grow, negotiatingCtl, poppedCtl, hi]

theorem remoteBegun_eq {m : SignalingMessage} {rest : List SignalingMessage} {w : World}
    (type : SdpType) (task : PeerTask) :
    applyRemoteDescription type m.sdp task (beginNegotiation (popMessage m rest w))
      = grow w (negotiatingCtl (poppedCtl w.ctl rest)) w.peer [.safe w.peer.safety task]
          (.popped m w.stepsInFlight :: stateActions w.ctl.state .negotiating
            ++ connectionCall w (.setRemoteDescription type m.sdp)) := by
  rw [applyRemoteDescription_eq, beginNegotiation_eq, popMessage_eq]
  simp [poppedCtl, connectionCall]

/-- A popped offer or answer, by what became of parsing its description. -/
theorem remotePopped_moves {m : SignalingMessage} {rest : List SignalingMessage}
    {sdpType : SdpType} {task : PeerTask} {w : World} (hp : Pumping w)
    (hq : w.ctl.pendingSignalingMessages = m :: rest) (hm : RemoteStep m.type sdpType task)
    (parsed : Except Text Unit) :
    Moves env .pump w .idle
      (match parsed with
        | .error description => onDescription env (.error ⟨.invalidArgument, description⟩)
            (beginNegotiation (popMessage m rest w))
        | .ok () => applyRemoteDescription sdpType m.sdp task
            (beginNegotiation (popMessage m rest w))) := by
  cases parsed with
  | error description =>
      have hmove : ∀ e, Move env .pump w (.finishing .peerConnectionError (.error e)) _ :=
        fun _ => Move.remoteUnparsed hp hq hm
      rw [← remoteUnparsed_eq m rest hp] at hmove
      exact moves_finish (hmove _)
  | ok u =>
      rw [remoteBegun_eq]
      exact Moves.single (Move.remoteBegun hp hq hm)

theorem pumpLoop_moves :
    ∀ (ms : List SignalingMessage) (w : World), w.ctl.pendingSignalingMessages = ms →
      w.ctl.joinResponse.isSome = true → Moves env .pump w .idle (pumpLoop env ms w) := by
  -- by the messages still queued, as the loop goes; only a candidate uses the hypothesis
  intro ms
  induction ms with
  | nil =>
      intro w hq hj
      rw [pumpLoop]
      split
      · rename_i hp
        exact startOffer_moves ⟨hp, hj⟩ hq
      · rename_i hp
        exact Moves.single (Move.stopped fun h => hp h.1)
  | cons m rest ih =>
      intro w hq hj
      rw [pumpLoop]
      split
      · rename_i hp
        exact Moves.single (Move.stopped fun h => by rw [h.1] at hp; cases hp)
      · rename_i hp
        have hp : Pumping w := ⟨by simpa using hp, hj⟩
        dsimp only
        cases hm : m.type with
        | bye =>
            have hmove : ∀ e, Move env .pump w (.finishing _ (.error e)) _ :=
              fun _ => Move.byePopped hp hq hm
            simp only [onBye, popMessage_eq, grow_ctl]
            have hce : (poppedCtl w.ctl rest).callEstablished = w.ctl.callEstablished := rfl
            rw [hce]
            split
            · rename_i he
              simp only [he, if_true] at hmove
              exact moves_finish (hmove _)
            · rename_i he
              simp only [he] at hmove
              exact moves_finish (hmove _)
        | candidate =>
            simp only [addRemoteCandidate]
            cases hr : w.peer.remoteDescriptionSet with
            | false =>
                have hmove : Move env .pump w .pump _ := Move.candidateBuffered hp hq hm hr
                have heq : queueRemoteCandidate m (popMessage m rest w)
                    = grow w (poppedCtl w.ctl rest)
                        { w.peer with
                          pendingRemoteCandidates := w.peer.pendingRemoteCandidates ++ [m] } []
                        [.popped m w.stepsInFlight] := by
                  simp [queueRemoteCandidate, popMessage_eq, grow]
                rw [if_pos (by simp [popMessage_eq, hr]), heq]
                exact Moves.head hmove (ih _ rfl hj)
            | true =>
                rw [if_neg (by simp [popMessage_eq, hr])]
                have hpass : passed m (popMessage m rest w)
                    = grow w (poppedCtl w.ctl rest) w.peer []
                        (.popped m w.stepsInFlight :: passActions w.peer.connection [m]) := by
                  rw [popMessage_eq, passed_eq]
                  simp
                split
                · -- refused by the connection, or never made a candidate
                  rename_i e w₁ hres
                  rcases passCandidate_cases hres with rfl | ⟨rfl, _⟩
                  · rw [hpass]
                    exact moves_finish (Move.candidateFailed hp hq hm hr (Or.inr rfl))
                  · rw [popMessage_eq]
                    exact moves_finish (Move.candidateFailed hp hq hm hr (Or.inl rfl))
                · rename_i w₁ hres
                  rcases passCandidate_cases hres with rfl | ⟨_, e, he⟩
                  · rw [hpass]
                    exact Moves.head (Move.candidatePassed hp hq hm hr) (ih _ rfl hj)
                  · cases he
        | answer =>
            have hstep : RemoteStep m.type .answer .setRemoteAnswer := by
              rw [hm]; exact RemoteStep.answer
            -- the error that comes back is handled as that of an offer
            exact remotePopped_moves hp hq hstep (env.createSessionDescription .answer m.sdp)
        | offer =>
            have hstep : RemoteStep m.type .offer .setRemoteOffer := by
              rw [hm]; exact RemoteStep.offer
            exact remotePopped_moves hp hq hstep (env.createSessionDescription .offer m.sdp)
        | unknown =>
            rw [popMessage_eq]
            exact moves_finish (Move.unknownPopped hp hq hm)

theorem pump_moves (w : World) : Moves env .pump w .idle (pumpSignalingMessages env w) := by
  unfold pumpSignalingMessages
  split
  · rename_i hc
    refine Moves.single (Move.stopped ?_)
    rintro ⟨hp, hj⟩
    rw [hp, ← Option.not_isSome, hj] at hc
    cases hc
  · rename_i hc
    refine pumpLoop_moves _ w rfl ?_
    cases hj : w.ctl.joinResponse with
    | none => rw [hj] at hc; exact absurd hc (by simp)
    | some jr => rfl

/-! ## The description exchanges -/

/-- A stage that failed: the callback runs, and the call finishes. -/
theorem chainFailed_moves {task : PeerTask} (ht : task ≠ .remoteFrame) (r : Reply) (e : Error)
    (w : World) :
    Moves env (.run (.safe w.peer.safety task) r) w
      .idle (onDescription env (.error e) w) := by
  have heq : { w.act .callback with ctl.signalingActionInFlight := false }
      = grow w { w.ctl with signalingActionInFlight := false } w.peer [] [.callback] := by
    simp [act_eq_grow, grow]
  simp only [onDescription]
  rw [heq]
  exact moves_finish (Move.chainFailed ht)

theorem onAnswerSet_ok (pump : World → World) (w : World) :
    onAnswerSet env pump okStatus w
      = pump (grow w { w.ctl with signalingActionInFlight := false } w.peer [] [.callback]) := by
  simp [onAnswerSet, okStatus, act_eq_grow, grow]

theorem descriptionCreated_moves (type : SdpType) (text : StatusOr (Option Text)) (r : Reply)
    (w : World) :
    Moves env (.run (.safe w.peer.safety (.createDescription type)) r) w
      .idle (onDescriptionCreated env (onDescription env) type text w) := by
  unfold onDescriptionCreated
  cases text with
  | error e => exact chainFailed_moves (by simp) r e w
  | ok text =>
      dsimp only
      split
      · rename_i e hs
        exact chainFailed_moves (by simp) r e w
      · rename_i json hs
        have heq : applyLocalDescription ⟨type, text⟩ json w
            = grow w w.ctl w.peer [.safe w.peer.safety (.setLocalDescription ⟨type, text⟩ json)]
                (connectionCall w (.setLocalDescription ⟨type, text⟩)) := by
          simp [applyLocalDescription, grow, World.act, World.deref, World.startSafe, World.start,
            connectionCall, PeerConnectionClient.live]
        rw [heq]
        exact Moves.single (Move.localBegun hs)

theorem localDescriptionSet_eq {description : SessionDescription} {json : Text} {w : World}
    {jr : JoinResponse} (hj : w.ctl.joinResponse = some jr) :
    onLocalDescriptionSet (onDescription env) description json (.ok ()) w
      = grow w w.ctl w.peer [.sendComplete .description]
          [.localApplied description.type, .callback,
            .send .description (routeOf env jr) json] := by
  simp only [onLocalDescriptionSet, onDescription, sendLocalDescription, World.act_ctl, hj]
  rw [sendMessage_eq]
  simp [grow, World.act, World.start]

theorem localDescriptionSet_moves {description : SessionDescription} {json : Text}
    {status : Status} {w : World}
    (hb : Base (.run (.safe w.peer.safety (.setLocalDescription description json))
      (.status status)) w) :
    Moves env (.run (.safe w.peer.safety (.setLocalDescription description json))
      (.status status)) w
      .idle (onLocalDescriptionSet (onDescription env) description json status w) := by
  cases status with
  | error e => exact chainFailed_moves (by simp) _ e w
  | ok u =>
      -- the check in `SendLocalDescription` passes: a connection is made from a join response
      obtain ⟨jr, hj⟩ := Option.isSome_iff_exists.mp (hb.joined hb.connection)
      rw [localDescriptionSet_eq hj]
      exact Moves.single (Move.localSet hj)

/-- What the flush starts from: the description is applied. -/
theorem applied_eq (type : SdpType) (w : World) :
    { w with peer.remoteDescriptionSet := true }.act (.remoteApplied type)
      = grow w w.ctl { w.peer with remoteDescriptionSet := true } [] [.remoteApplied type] := by
  simp [act_eq_grow, grow]

theorem flushed_eq (type : SdpType) (w : World) :
    flushed ({ w with peer.remoteDescriptionSet := true }.act (.remoteApplied type))
      = grow w w.ctl
          { w.peer with remoteDescriptionSet := true, pendingRemoteCandidates := [] } []
          (.remoteApplied type
            :: passActions w.peer.connection w.peer.pendingRemoteCandidates) := by
  rw [applied_eq, flushed, passedAll_eq]
  simp [grow]

theorem flushFailed_moves {type : SignalingMessageType} {sdpType : SdpType} {task : PeerTask}
    {front : List SignalingMessage} {w : World} (ht : RemoteStep type sdpType task)
    (hfront : front <+: w.peer.pendingRemoteCandidates) (r : Reply) (e : Error) :
    Moves env (.run (.safe w.peer.safety task) r) w
      .idle (onDescription env (.error e)
        (passedAll front ({ w with peer.remoteDescriptionSet := true }.act
          (.remoteApplied sdpType)))) := by
  have heq : { (passedAll front ({ w with peer.remoteDescriptionSet := true }.act
        (.remoteApplied sdpType))).act .callback with ctl.signalingActionInFlight := false }
      = grow w { w.ctl with signalingActionInFlight := false }
          { w.peer with remoteDescriptionSet := true } []
          (.remoteApplied sdpType :: passActions w.peer.connection front ++ [.callback]) := by
    rw [applied_eq, passedAll_eq]
    simp [act_eq_grow, grow]
  simp only [onDescription]
  rw [heq]
  exact moves_finish (Move.flushFailed ht hfront)

/-- A remote description is reported set: all that differs is what follows a good flush. -/
theorem remoteDescriptionSet_moves {type : SignalingMessageType} {sdpType : SdpType}
    {task : PeerTask} {callback : Status → World → World} {r : Reply} {w : World}
    (ht : RemoteStep type sdpType task)
    (herror : ∀ e v, callback (.error e) v = onDescription env (.error e) v)
    (hok : Moves env (.run (.safe w.peer.safety task) r) w .idle
      (callback okStatus (grow w w.ctl
        { w.peer with remoteDescriptionSet := true, pendingRemoteCandidates := [] } []
        (.remoteApplied sdpType
          :: passActions w.peer.connection w.peer.pendingRemoteCandidates))))
    (status : Status) :
    Moves env (.run (.safe w.peer.safety task) r) w
      .idle (onRemoteDescriptionSet env callback sdpType status w) := by
  have hchain : task ≠ .remoteFrame := by cases ht <;> simp
  unfold onRemoteDescriptionSet
  cases status with
  | error e =>
      dsimp only
      rw [herror]
      exact chainFailed_moves hchain r e w
  | ok u =>
      dsimp only
      split
      · -- the flush stopped at a candidate, after a front of the buffer
        rename_i e w₁ hflush
        rw [herror]
        rcases flush_cases hflush with ⟨hok, _⟩ | ⟨_, front, _, hfront, rfl⟩
        · cases hok
        · exact flushFailed_moves (w := w) ht hfront r e
      · rename_i w₁ hflush
        rcases flush_cases hflush with ⟨_, rfl⟩ | ⟨_, _, herr, _⟩
        · rwa [flushed_eq]
        · cases herr

theorem remoteOfferSet_moves (status : Status) (r : Reply) (w : World) :
    Moves env (.run (.safe w.peer.safety .setRemoteOffer) r) w
      .idle
      (onRemoteDescriptionSet env (onRemoteOfferSet (onDescription env)) .offer status w) := by
  refine remoteDescriptionSet_moves RemoteStep.offer (fun _ _ => rfl) ?_ status
  simp only [onRemoteOfferSet, okStatus, createAnswer]
  rw [createDescription_eq]
  simp only [grow_grow, grow_ctl, grow_peer]
  exact Moves.single Move.remoteOfferSet

theorem remoteAnswerSet_moves (status : Status) (r : Reply) (w : World) :
    Moves env (.run (.safe w.peer.safety .setRemoteAnswer) r) w
      .idle (onRemoteDescriptionSet env
        (onAnswerSet env (pumpSignalingMessages env)) .answer status w) := by
  refine remoteDescriptionSet_moves RemoteStep.answer (fun _ _ => rfl) ?_ status
  rw [onAnswerSet_ok]
  simp only [grow_grow, grow_ctl, grow_peer]
  exact Moves.head Move.remoteAnswerSet (pump_moves _)

/-! ## Observer events -/

/-- What an observed change may lead to, before the task returns. -/
theorem maybeMarkCallEstablished_moves {t : Task} {r : Reply} {w : World}
    (ht : observes t = true) (hf : w.ctl.finished = false) :
    Moves env (.run t r) w (.run t r) (maybeMarkCallEstablished w) := by
  rcases maybeMarkCallEstablished_cases w with h | ⟨he, h⟩
  · rw [h]; exact Moves.refl
  · rw [h]; exact Moves.single (Move.established ht hf he)

/-- An observed change, as an assignment to the fields that keep it. -/
theorem observed_moves (env : Env) {t : Task} (r : Reply) (ht : observes t = true) (w : World)
    (connected seen attached peerConnected remoteMediaSeen : Bool) :
    Moves env (.run t r) w (.run t r)
      { w with
        ctl := { w.ctl with peerConnected := peerConnected, remoteMediaSeen := remoteMediaSeen }
        peer := { w.peer with
          connected := connected, remoteMediaSeen := seen, sinkAttached := attached } } := by
  have hmove : Move env (.run t r) w (.run t r) _ :=
    Move.observed ht connected seen attached peerConnected remoteMediaSeen
  simp only [grow, List.append_nil] at hmove
  exact Moves.single hmove

theorem connectionChange_moves (state : PeerConnectionState) (r : Reply) (w : World) :
    Moves env (.run (.connectionChange state) r) w
      .idle (onConnectionChange onPeerConnectionChanged (onPeerConnectionError (finish env))
        state w) := by
  have ht : observes (.connectionChange state) = true := rfl
  -- the connection callback
  have hchange : ∃ w₁, Moves env (.run (.connectionChange state) r) w
        (.run (.connectionChange state) r) w₁
      ∧ (if w.peer.connected ≠ (state == .connected) then
          onPeerConnectionChanged (state == .connected)
            { w with peer.connected := state == .connected } else w) = w₁ := by
    refine ⟨_, ?_, rfl⟩
    split
    · have hset := observed_moves env r ht w (state == .connected)
        w.peer.remoteMediaSeen w.peer.sinkAttached
      unfold onPeerConnectionChanged
      split
      · exact hset w.ctl.peerConnected w.ctl.remoteMediaSeen
      · rename_i hf
        exact Moves.trans (hset (state == .connected) w.ctl.remoteMediaSeen)
          (maybeMarkCallEstablished_moves ht (by simpa using hf))
    · exact Moves.refl
  obtain ⟨w₁, hmoves, heq⟩ := hchange
  unfold onConnectionChange
  dsimp only
  rw [heq]
  refine Moves.trans hmoves ?_
  split
  · rename_i hfail
    subst hfail
    unfold onPeerConnectionError
    split
    · exact Moves.single (Move.ignore trivial)
    · exact moves_finish (Move.fail rfl (Or.inr rfl))
  · exact Moves.single (Move.ignore trivial)

theorem remoteFrame_moves (flag : Nat) (r : Reply) (w : World) :
    Moves env (.run (.safe flag .remoteFrame) r) w .idle (onRemoteFrame onRemoteMediaSeen w) := by
  have ht : observes (.safe flag .remoteFrame) = true := rfl
  have hend : ∀ v, Moves env (.run (.safe flag .remoteFrame) r) v .idle v :=
    fun v => Moves.single (Move.ignore (Or.inr rfl))
  have hset := observed_moves env r ht w w.peer.connected true
    w.peer.sinkAttached
  unfold onRemoteFrame onRemoteMediaSeen
  split
  · exact hend w
  · split
    · exact Moves.trans (hset w.ctl.peerConnected w.ctl.remoteMediaSeen) (hend _)
    · rename_i hf
      exact Moves.trans (Moves.trans (hset w.ctl.peerConnected true)
        (maybeMarkCallEstablished_moves ht (by simpa using hf))) (hend _)

theorem track_moves (video : Bool) (r : Reply) (w : World) :
    Moves env (.run (.track video) r) w .idle (onTrack video w) := by
  have hend : ∀ v, Moves env (.run (.track video) r) v .idle v :=
    fun v => Moves.single (Move.ignore trivial)
  unfold onTrack
  split
  · exact Moves.trans (observed_moves env _ rfl w w.peer.connected w.peer.remoteMediaSeen true
      w.ctl.peerConnected w.ctl.remoteMediaSeen) (hend _)
  · exact hend w

theorem iceCandidate_moves (n : Nat) (candidate : Option IceCandidate) (r : Reply) (w : World) :
    Moves env (.run (.iceCandidate n candidate) r) w
      .idle (onIceCandidate env (onLocalSignalingMessage env n) candidate w) := by
  have hend : Moves env (.run (.iceCandidate n candidate) r) w .idle w :=
    Moves.single (Move.ignore trivial)
  cases candidate with
  | none => exact hend
  | some candidate =>
      simp only [onIceCandidate]
      split
      · exact hend
      · rename_i payload hp
        unfold onLocalSignalingMessage
        split
        · exact hend
        · rename_i hf
          split
          · exact hend
          · rename_i jr hj
            have heq : sendMessage env (.candidate n) jr payload w
                = grow w w.ctl w.peer [.sendComplete (.candidate n)]
                    [.send (.candidate n) (routeOf env jr) payload] := by
              rw [sendMessage_eq]
              simp [grow, World.act, World.start]
            rw [heq]
            exact Moves.single (Move.candidateSent (by simpa using hf) hj hp)

/-! ## Joining -/

/-- The moves of `OnJoinComplete` that do not end it. -/
theorem setUp_deref {jr : JoinResponse} {w : World} {p : Pointer} (h : w.peer.live p = true) :
    Moves env (.setUp jr) w (.setUp jr) (w.deref p) := by
  have heq : w.deref p = grow w w.ctl w.peer [] [.deref p true] := by
    simp [World.deref, act_eq_grow, h]
  rw [heq]
  exact Moves.single (Move.setUpDeref h)

theorem setUp_factory {jr : JoinResponse} {w : World} :
    Moves env (.setUp jr) w (.setUp jr)
      ({ w with peer.factory := true }.act (.created .factory)) := by
  have heq : { w with peer.factory := true }.act (.created .factory)
      = grow w w.ctl { w.peer with factory := true } [] [.created .factory] := by
    simp [act_eq_grow, grow]
  rw [heq]
  exact Moves.single Move.factoryCreated

theorem setUp_videoSource {jr : JoinResponse} {w : World} :
    Moves env (.setUp jr) w (.setUp jr) { w with peer.videoSource := true } := by
  have hmove : Move env (.setUp jr) w (.setUp jr) _ := Move.videoSourceCreated
  simp only [grow, List.append_nil] at hmove
  exact Moves.single hmove

/-- **`Initialize`** stays within `OnJoinComplete`; where it succeeds, both pointers are set. -/
theorem peerInitialize_moves {jr : JoinResponse} {w w' : World} {status : Status}
    (h : peerInitialize env jr w = some (status, w')) :
    Moves env (.setUp jr) w (.setUp jr) w'
      ∧ (status = okStatus → w'.peer.factory = true ∧ w'.peer.connection = true) := by
  unfold peerInitialize at h
  split at h
  · cases h; exact ⟨Moves.refl, fun h => by cases h⟩
  · split at h
    · cases h; exact ⟨Moves.refl, fun h => by cases h⟩
    · dsimp only at h
      split at h
      · cases h
      · cases h; exact ⟨setUp_factory, fun h => by cases h⟩
      · have hused : Moves env (.setUp jr) w (.setUp jr)
            (({ w with peer.factory := true }.act (.created .factory)).deref .factory) :=
          Moves.trans setUp_factory (setUp_deref rfl)
        split at h
        · cases h; exact ⟨hused, fun h => by cases h⟩
        · cases h
          refine ⟨Moves.trans hused ?_, fun _ => ⟨rfl, rfl⟩⟩
          have hmove : Move env (.setUp jr)
              (({ w with peer.factory := true }.act (.created .factory)).deref .factory)
              (.setUp jr) _ := Move.connectionCreated
          simp only [grow, List.append_nil] at hmove
          exact Moves.single hmove

/-- **`StartMedia`** stays within `OnJoinComplete` too, given the pointers it uses. -/
theorem startMedia_moves (jr : JoinResponse) {w w' : World} {status : Status}
    (hf : w.peer.factory = true) (hc : w.peer.connection = true)
    (h : startMedia env w = (status, w')) :
    Moves env (.setUp jr) w (.setUp jr) w' ∧ w'.peer.factory = true
      ∧ w'.peer.connection = true := by
  unfold startMedia at h
  dsimp only at h
  split at h
  · cases h; exact ⟨setUp_videoSource, hf, hc⟩
  · have hvideo : Moves env (.setUp jr) w (.setUp jr)
        (({ w with peer.videoSource := true }.deref .factory).deref .connection) :=
      Moves.trans setUp_videoSource
        (Moves.trans (setUp_deref (p := .factory) hf) (setUp_deref (p := .connection) hc))
    split at h
    · cases h; exact ⟨hvideo, hf, hc⟩
    · have haudio := Moves.trans hvideo
        (Moves.trans (setUp_deref (p := .factory) hf)
          (Moves.trans (setUp_deref (p := .factory) hf) (setUp_deref (p := .connection) hc)))
      split at h <;> (cases h; exact ⟨haudio, hf, hc⟩)

theorem joinComplete_moves {reply : StatusOr JoinResponse} {w w' : World}
    (h : onJoinComplete env reply w = some w') :
    Moves env (.run .joinComplete (.join reply)) w .idle w' := by
  unfold onJoinComplete at h
  split at h
  · rename_i hf
    cases h
    exact Moves.single (Move.ignore hf)
  · rename_i hf
    have hf : w.ctl.finished = false := by simpa using hf
    cases reply with
    | error e =>
        cases h
        exact moves_finish (Move.fail rfl (Or.inl rfl))
    | ok jr =>
        have hjoin : Moves env (.run .joinComplete (.join (.ok jr))) w (.setUp jr)
            { w with ctl.joinResponse := some jr } := by
          have hmove : Move env (.run .joinComplete (.join (.ok jr))) w (.setUp jr) _ :=
            Move.joined hf
          simp only [grow, List.append_nil] at hmove
          exact Moves.single hmove
        obtain ⟨⟨status, w₁⟩, hinit, h⟩ := Option.bind_eq_some_iff.mp h
        obtain ⟨hm₁, hlive⟩ := peerInitialize_moves hinit
        have hm₁ := Moves.trans hjoin hm₁
        cases status with
        | error e =>
            cases h
            exact Moves.trans hm₁ (moves_finish (Move.setUpFailed (Or.inl rfl)))
        | ok u =>
            obtain ⟨hfac, hcon⟩ := hlive rfl
            dsimp only at h
            generalize hmedia : startMedia env w₁ = result at h
            obtain ⟨status₂, w₂⟩ := result
            obtain ⟨hm₂, hfac₂, hcon₂⟩ := startMedia_moves jr hfac hcon hmedia
            have hm₂ := Moves.trans hm₁ hm₂
            cases status₂ with
            | error e =>
                cases h
                exact Moves.trans hm₂ (moves_finish (Move.setUpFailed (Or.inr rfl)))
            | ok u =>
                -- both pointers are set by now, which `setUpDone` records
                obtain ⟨w₃, hqueue, h⟩ := Option.bind_eq_some_iff.mp h
                obtain ⟨queued, hparse, hqueue⟩ := Option.bind_eq_some_iff.mp hqueue
                cases hqueue
                cases h
                have hmove : Move env (.setUp jr) w₂ .idle _ := Move.setUpDone hparse hfac₂ hcon₂
                refine Moves.trans hm₂ (Moves.single ?_)
                change Move env (.setUp jr) w₂ .idle _
                unfold connectWebSocketAsync
                rw [setState_eq]
                simpa [grow, poppedCtl, World.act] using hmove

/-! ## Registering, receiving, sending -/

theorem registerComplete_moves (status : Status) (r : Reply) (w : World) :
    Moves env (.run .registerComplete r) w .idle (onRegisterComplete env status w) := by
  unfold onRegisterComplete
  split
  · rename_i hf
    exact Moves.single (Move.ignore hf)
  · rename_i hf
    cases status with
    | error e => exact moves_finish (Move.fail rfl (Or.inl rfl))
    | ok u =>
        have heq : startStatsTimer ({ w with ctl.negotiationReady := true }.act .registered)
            = grow w { w.ctl with negotiationReady := true, statsRunning := true } w.peer
                (if w.ctl.statsRunning then [] else [.stats]) [.registered] := by
          cases hs : w.ctl.statsRunning <;>
            simp [startStatsTimer, World.act, World.start, grow, hs]
        dsimp only
        rw [heq]
        exact Moves.head (Move.registered (by simpa using hf)) (pump_moves _)

theorem signaling_moves (event : SignalingEvent) (r : Reply) (w : World) :
    Moves env (.run (.signaling event) r) w .idle (onSignalingEvent env event w) := by
  cases event with
  | webSocketOpen =>
      simp only [onSignalingEvent, onWebSocketOpen]
      split
      · exact Moves.single (Move.ignore trivial)
      · rename_i hc
        have hmove : Move env (.run (.signaling .webSocketOpen) r) w .idle _ :=
          Move.webSocketOpen (by cases h : w.ctl.finished <;> simp [h] at hc ⊢)
            (by cases h : w.ctl.joinResponse <;> simp [h] at hc ⊢)
        rw [setState_eq]
        simp only [World.start]
        simpa [grow] using Moves.single hmove
  | signalingMessage m =>
      simp only [onSignalingEvent, onInboundSignalingMessage]
      split
      · rename_i hf
        exact Moves.single (Move.ignore hf)
      · rename_i hf
        have heq : { w with ctl.pendingSignalingMessages :=
              w.ctl.pendingSignalingMessages ++ [m] }.act (.accepted m)
            = grow w (poppedCtl w.ctl (w.ctl.pendingSignalingMessages ++ [m])) w.peer []
                [.accepted m] := by
          simp [act_eq_grow, grow, poppedCtl]
        rw [heq]
        exact Moves.head (Move.accepted (by simpa using hf)) (pump_moves _)
  | error e =>
      simp only [onSignalingEvent, onSignalingError]
      split
      · exact Moves.single (Move.ignore trivial)
      · exact moves_finish (Move.fail rfl (Or.inl rfl))

theorem sendComplete_moves {kind : SendKind} {r : Reply} {w : World}
    (hb : Base (.run (.sendComplete kind) r) w) (status : Status) :
    Moves env (.run (.sendComplete kind) r) w .idle (onSendComplete env kind status w) := by
  cases kind with
  | description =>
      have heq : { w with ctl.signalingActionInFlight := false }
          = grow w { w.ctl with signalingActionInFlight := false } w.peer [] [] := by
        simp [grow]
      simp only [onSendComplete]
      rw [heq]
      cases status with
      | error e => exact moves_finish Move.descriptionUnsent
      | ok u => exact Moves.head Move.descriptionSent (pump_moves _)
  | candidate n =>
      cases status with
      | error e => exact moves_finish (Move.fail rfl (Or.inl rfl))
      | ok u => exact Moves.single (Move.ignore trivial)
  | bye byeStatus =>
      have hf : w.ctl.finished = true := hb.tasks _ (List.mem_cons_self ..)
      simp only [onSendComplete]
      rw [completeFinish_eq hf]
      exact Moves.single (Move.byeSent hf)

/-! ## Timers -/

theorem startupTimeout_moves (generation : Nat) (r : Reply) (w : World) :
    Moves env (.run (.startupTimeout generation) r) w
      .idle (onStartupTimeout env generation w) := by
  unfold onStartupTimeout
  split
  · rename_i h
    exact Moves.single (Move.ignore (by simpa [Ignored] using h))
  · rename_i h
    rw [act_eq_grow]
    exact moves_finish (Move.startupTimer (by simpa using h))

theorem callDuration_moves (generation : Nat) (r : Reply) (w : World) :
    Moves env (.run (.callDuration generation) r) w .idle (onCallDuration env generation w) := by
  unfold onCallDuration
  split
  · rename_i h
    exact Moves.single (Move.ignore (by simpa [Ignored] using h))
  · rename_i h
    rw [act_eq_grow]
    exact moves_finish (Move.durationTimer (by simpa using h))

theorem stats_moves (r : Reply) (w : World) :
    Moves env (.run .stats r) w .idle (onStats w) := by
  unfold onStats
  split
  · rename_i h
    exact Moves.single (Move.ignore (by simpa [Ignored] using h))
  · have hplain : w.start .stats = grow w w.ctl w.peer [.stats] [] := by
      simp [World.start, grow]
    split
    · unfold logStats
      split
      · rw [hplain]
        exact Moves.single (Move.stats (Or.inl rfl))
      · rename_i hc
        have hc : w.peer.connection = true := by simpa using hc
        have heq : (w.deref .connection).start .stats
            = grow w w.ctl w.peer [.stats] [.deref .connection true] := by
          simp [World.deref, World.act, World.start, grow, PeerConnectionClient.live, hc]
        rw [heq]
        exact Moves.single (Move.stats (Or.inr ⟨hc, rfl⟩))
    · rw [hplain]
      exact Moves.single (Move.stats (Or.inl rfl))

/-! ## A step -/

theorem peerTask_moves {task : PeerTask} {r : Reply} {w w' : World}
    (hb : Base (.run (.safe w.peer.safety task) r) w) (h : runPeerTask env w task r = some w') :
    Moves env (.run (.safe w.peer.safety task) r) w .idle w' := by
  cases task with
  | createDescription type =>
      cases r <;> cases h
      exact descriptionCreated_moves _ _ _ _
  | setLocalDescription description json =>
      cases r <;> cases h
      exact localDescriptionSet_moves hb
  | setRemoteOffer =>
      cases r <;> cases h
      exact remoteOfferSet_moves _ _ _
  | setRemoteAnswer =>
      cases r <;> cases h
      exact remoteAnswerSet_moves _ _ _
  | remoteFrame =>
      cases r <;> cases h
      exact remoteFrame_moves _ _ _

/-- **A task that runs is a path of moves.** -/
theorem task_moves {t : Task} {r : Reply} {w w' : World} (hb : Base (.run t r) w)
    (h : runTask env w t r = some w') : Moves env (.run t r) w .idle w' := by
  cases t with
  | joinComplete =>
      cases r with
      | join reply => exact joinComplete_moves h
      | _ => cases h
  | registerComplete =>
      cases r <;> cases h
      exact registerComplete_moves _ _ _
  | sendComplete kind =>
      cases r <;> cases h
      exact sendComplete_moves hb _
  | startupTimeout generation =>
      cases r <;> cases h
      exact startupTimeout_moves _ _ _
  | callDuration generation =>
      cases r <;> cases h
      exact callDuration_moves _ _ _
  | stats =>
      cases r <;> cases h
      exact stats_moves _ _
  | signaling event =>
      cases r <;> cases h
      exact signaling_moves _ _ _
  | connectionChange state =>
      cases r <;> cases h
      exact connectionChange_moves _ _ _
  | iceCandidate n candidate =>
      cases r <;> cases h
      exact iceCandidate_moves _ _ _ _
  | track video =>
      cases r <;> cases h
      exact track_moves _ _ _
  | safe flag task =>
      replace h :
          (if flag = w.peer.safety then runPeerTask env w task r else some w) = some w' := by
        cases r <;> exact h
      split at h
      · rename_i hflag
        subst hflag
        exact peerTask_moves hb h
      · rename_i hflag
        cases h
        exact Moves.single (Move.ignore (Or.inl hflag))

/-- **How each label enters the machine**, and that the moves lead to where the step does. -/
theorem step_cuts {w w' : World} {l : Label} (hb : Base .idle w) (h : step env w l = some w') :
    (machine env).Cuts w l w' := by
  unfold step at h
  split at h
  · cases h
  · cases l with
    | post i =>
        dsimp only at h
        split at h
        · cases h
        · rename_i t hi
          cases h
          exact ⟨_, _, Enter.post hi, Moves.refl⟩
    | event t =>
        dsimp only at h
        split at h
        · rename_i hr
          cases h
          exact ⟨_, _, Enter.event hr, Moves.refl⟩
        · cases h
    | run r =>
        dsimp only at h
        split at h
        · cases h
        · rename_i t rest hq
          have he := Enter.run (r := r) hq
          exact ⟨_, _, he, task_moves (base_enter hb he) h⟩
    | destroy =>
        dsimp only at h
        split at h
        · rename_i hq
          cases h
          -- `Quit` comes at the end of `CompleteFinish`, so `Close` meets a finished call
          have hf : w.ctl.finished = true := hb.quit hq
          have hend : destroy env w = { grow w w.ctl (closedPeer w.peer) []
              (closeActions w.peer.connection) with destroyed := true } := by
            rw [destroy, close_eq hf]
            simp [grow]
          rw [hend]
          exact ⟨_, _, Enter.destroy hq hf, Moves.refl⟩
        · cases h

/-- Nothing moves at rest. -/
theorem idle_moves {p : Phase} {w w' : World} (h : Moves env .idle w p w') :
    p = .idle ∧ w' = w := by
  refine h.invariant (I := fun q v => q = .idle ∧ v = w) (fun q v q' v' hi hm => ?_) ⟨rfl, rfl⟩
  obtain ⟨rfl, rfl⟩ := hi
  cases hm

/-! ## What each label does -/

theorem post_eq {w w' : World} {i : Nat} (hb : Base .idle w)
    (hs : step env w (.post i) = some w') :
    ∃ t, w.ops[i]? = some t
      ∧ w' = { w with ops := w.ops.eraseIdx i, queue := w.queue ++ [t] } := by
  obtain ⟨p, w₁, he, hm⟩ := step_cuts hb hs
  cases he with
  | post hi => exact ⟨_, hi, (idle_moves hm).2⟩

theorem event_eq {w w' : World} {t : Task} (hb : Base .idle w)
    (hs : step env w (.event t) = some w') :
    canRaise w t = true ∧ w' = { w with queue := w.queue ++ [t] } := by
  obtain ⟨p, w₁, he, hm⟩ := step_cuts hb hs
  cases he with
  | event hr => exact ⟨hr, (idle_moves hm).2⟩

theorem run_eq {w w' : World} {r : Reply} (hs : step env w (.run r) = some w') :
    ∃ t rest, w.queue = t :: rest ∧ runTask env { w with queue := rest } t r = some w' := by
  unfold step at hs
  split at hs
  · cases hs
  · dsimp only at hs
    split at hs
    · cases hs
    · rename_i t rest hq
      exact ⟨t, rest, hq, hs⟩

theorem destroy_eq {w w' : World} (hb : Base .idle w) (hs : step env w .destroy = some w') :
    w.ctl.finished = true
      ∧ w' = { grow w w.ctl (closedPeer w.peer) [] (closeActions w.peer.connection)
        with destroyed := true } := by
  obtain ⟨p, w₁, he, hm⟩ := step_cuts hb hs
  cases he with
  | destroy _ hf => exact ⟨hf, (idle_moves hm).2⟩

/-- **The phase machine refines the call**: a reachable world is one it visits at rest. -/
theorem reached_visited {w : World} (h : Reached env w) : Visited env .idle w :=
  Reachable.visited (M := machine env) (fun _ _ _ hv hs => step_cuts (base_visited hv) hs) h

end ApprtcCli.Proof
