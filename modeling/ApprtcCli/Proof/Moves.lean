import ApprtcCli.Proof.Effects
import ApprtcCli.Lib.Phases

/-!
# One step, move by move

The phase machine of the call. `Move` lists, once, everything a running task can
do between two points where an invariant has to hold, each with the guard the
source has passed by then; the proofs of this development are case analyses of it.
`step_cuts` (in `Proof/Cut.lean`) says that it misses nothing.

`load` is what is still to run, and it counts the running task: a task does not
stop being outstanding until its code has passed the obligation on.
-/

namespace ApprtcCli.Proof

open Lib Call

/-- What the running task still has to do. -/
inductive Phase where
  | idle
  /-- A task was taken off the queue. -/
  | run (task : Task) (reply : Reply)
  /-- `OnJoinComplete`, past the join response. -/
  | setUp (joinResponse : JoinResponse)
  /-- At the head of the loop of `PumpSignalingMessages`. -/
  | pump
  /-- About to call `Finish`. -/
  | finishing (reason : TerminalReason) (status : Status)

/-- Everything that will still run, the running task included. -/
def load : Phase → World → List Task
  | .run t _, w => t :: w.pending
  | _, w => w.pending

/-- A task that returns without having done anything the proofs look at. -/
def Ignored (w : World) : Task → Prop
  | .joinComplete => w.ctl.finished = true
  | .registerComplete => w.ctl.finished = true
  | .sendComplete (.candidate _) => True
  | .sendComplete _ => False
  | .startupTimeout generation => startupTimeoutLive generation w = false
  | .callDuration generation => callDurationLive generation w = false
  | .stats => w.ctl.statsRunning = false
  | .signaling (.signalingMessage _) => w.ctl.finished = true
  | .signaling _ => True
  | .connectionChange _ => True
  | .iceCandidate _ _ => True
  | .track _ => True
  | .safe flag task => flag ≠ w.peer.safety ∨ task = .remoteFrame

/-- The tasks that end the call when they are told of an error. -/
def mayFail : Task → Bool
  | .joinComplete => true
  | .registerComplete => true
  | .sendComplete (.candidate _) => true
  | .signaling (.error _) => true
  | .connectionChange .failed => true
  | _ => false

/-- The tasks that report what WebRTC observed. -/
def observes : Task → Bool
  | .connectionChange _ => true
  | .track _ => true
  | .safe _ .remoteFrame => true
  | _ => false

/-- A description message, the type the client gives it, and the observer it sets it with. -/
inductive RemoteStep : SignalingMessageType → SdpType → PeerTask → Prop where
  | offer : RemoteStep .offer .offer .setRemoteOffer
  | answer : RemoteStep .answer .answer .setRemoteAnswer

/-- The condition of the pump's loop, with the guard before it. -/
def Pumping (w : World) : Prop := mayPump w = true ∧ w.ctl.joinResponse.isSome = true

/-- The controller after the pump took a message. -/
def poppedCtl (c : CallController) (rest : List SignalingMessage) : CallController :=
  { c with pendingSignalingMessages := rest }

/-- The controller after the pump began a negotiation step. -/
def negotiatingCtl (c : CallController) : CallController :=
  { c with state := .negotiating, signalingActionInFlight := true }

/-- What starting an asynchronous call on the connection leaves in the history. -/
def connectionCall (w : World) (a : Action) : List Action :=
  [.deref .connection w.peer.connection, a]

variable (env : Env)

inductive Move : Phase → World → Phase → World → Prop where
  -- The task of the phase.
  | ignore {w : World} {t : Task} {r : Reply} (h : Ignored w t) : Move (.run t r) w .idle w
  | fail {w : World} {t : Task} {r : Reply} {reason : TerminalReason} {e : Error}
      (h : mayFail t = true)
      (hr : reason = .signalingError ∨ reason = .peerConnectionError) :
      Move (.run t r) w (.finishing reason (.error e)) w
  | descriptionSent {w : World} {r : Reply} :
      Move (.run (.sendComplete .description) r) w
        .pump (grow w { w.ctl with signalingActionInFlight := false } w.peer [] [])
  | descriptionUnsent {w : World} {r : Reply} {e : Error} :
      Move (.run (.sendComplete .description) r) w
        (.finishing .signalingError (.error e))
        (grow w { w.ctl with signalingActionInFlight := false } w.peer [] [])
  | byeSent {w : World} {status : Status} {r : Reply} (hf : w.ctl.finished = true) :
      Move (.run (.sendComplete (.bye status)) r) w
        .idle (completed .localDurationReached status w)
  | startupTimer {w : World} {generation : Nat} {r : Reply} {e : Error}
      (h : startupTimeoutLive generation w = true) :
      Move (.run (.startupTimeout generation) r) w
        (.finishing .startupTimeout (.error e)) (grow w w.ctl w.peer [] [.startupTimerFired])
  | durationTimer {w : World} {generation : Nat} {r : Reply}
      (h : callDurationLive generation w = true) :
      Move (.run (.callDuration generation) r) w
        (.finishing .localDurationReached okStatus)
        (grow w w.ctl w.peer [] [.durationTimerFired])
  | stats {w : World} {r : Reply} {actions : List Action}
      (h : actions = [] ∨ (w.peer.connection = true ∧ actions = [.deref .connection true])) :
      Move (.run .stats r) w .idle (grow w w.ctl w.peer [.stats] actions)
  | webSocketOpen {w : World} {r : Reply} (hf : w.ctl.finished = false)
      (hj : w.ctl.joinResponse.isSome = true) :
      Move (.run (.signaling .webSocketOpen) r) w
        .idle (grow w { w.ctl with state := .registering } w.peer [.registerComplete]
          (stateActions w.ctl.state .registering))
  | registered {w : World} {r : Reply} (hf : w.ctl.finished = false) :
      Move (.run .registerComplete r) w
        .pump (grow w { w.ctl with negotiationReady := true, statsRunning := true } w.peer
          (if w.ctl.statsRunning then [] else [.stats]) [.registered])
  | accepted {w : World} {r : Reply} {m : SignalingMessage} (hf : w.ctl.finished = false) :
      Move (.run (.signaling (.signalingMessage m)) r) w
        .pump (grow w (poppedCtl w.ctl (w.ctl.pendingSignalingMessages ++ [m])) w.peer []
          [.accepted m])
  | observed {w : World} {t : Task} {r : Reply} (ht : observes t = true)
      (connected seen attached peerConnected remoteMediaSeen : Bool) :
      Move (.run t r) w (.run t r)
        (grow w { w.ctl with peerConnected := peerConnected, remoteMediaSeen := remoteMediaSeen }
          { w.peer with connected := connected, remoteMediaSeen := seen, sinkAttached := attached }
          [] [])
  | established {w : World} {t : Task} {r : Reply} (ht : observes t = true)
      (hf : w.ctl.finished = false) (he : w.ctl.callEstablished = false) :
      Move (.run t r) w (.run t r) (establishedNow w)
  | candidateSent {w : World} {r : Reply} {n : Nat} {candidate : IceCandidate} {payload : Text}
      {joinResponse : JoinResponse} (hf : w.ctl.finished = false)
      (hj : w.ctl.joinResponse = some joinResponse)
      (hp : serializeIceCandidate env.json candidate = .ok payload) :
      Move (.run (.iceCandidate n (some candidate)) r) w
        .idle (grow w w.ctl w.peer [.sendComplete (.candidate n)]
          [.send (.candidate n) (routeOf env joinResponse) payload])
  | joined {w : World} {joinResponse : JoinResponse} (hf : w.ctl.finished = false) :
      Move (.run .joinComplete (.join (.ok joinResponse))) w
        (.setUp joinResponse)
        (grow w { w.ctl with joinResponse := some joinResponse } w.peer [] [])
  -- A task of a description exchange, its flag live.
  | chainFailed {w : World} {task : PeerTask} {r : Reply} {e : Error}
      (ht : task ≠ .remoteFrame) :
      Move (.run (.safe w.peer.safety task) r) w
        (.finishing .peerConnectionError (.error e))
        (grow w { w.ctl with signalingActionInFlight := false } w.peer [] [.callback])
  | localBegun {w : World} {type : SdpType} {text : Option Text} {json : Text} {r : Reply}
      (hs : serializeSessionDescription env.json ⟨type, text⟩ = .ok json) :
      Move (.run (.safe w.peer.safety (.createDescription type)) r) w
        .idle (grow w w.ctl w.peer [.safe w.peer.safety (.setLocalDescription ⟨type, text⟩ json)]
          (connectionCall w (.setLocalDescription ⟨type, text⟩)))
  | localSet {w : World} {description : SessionDescription} {json : Text}
      {joinResponse : JoinResponse} (hj : w.ctl.joinResponse = some joinResponse) :
      Move (.run (.safe w.peer.safety (.setLocalDescription description json)) (.status (.ok ()))) w
        .idle (grow w w.ctl w.peer [.sendComplete .description]
          [.localApplied description.type, .callback,
            .send .description (routeOf env joinResponse) json])
  | remoteOfferSet {w : World} {r : Reply} :
      Move (.run (.safe w.peer.safety .setRemoteOffer) r) w
        .idle (grow w w.ctl
          { w.peer with remoteDescriptionSet := true, pendingRemoteCandidates := [] }
          [.safe w.peer.safety (.createDescription .answer)]
          (.remoteApplied .offer
            :: passActions w.peer.connection w.peer.pendingRemoteCandidates
            ++ connectionCall w (.createDescription .answer)))
  | remoteAnswerSet {w : World} {r : Reply} :
      Move (.run (.safe w.peer.safety .setRemoteAnswer) r) w
        .pump (grow w { w.ctl with signalingActionInFlight := false }
          { w.peer with remoteDescriptionSet := true, pendingRemoteCandidates := [] } []
          (.remoteApplied .answer
            :: passActions w.peer.connection w.peer.pendingRemoteCandidates ++ [.callback]))
  | flushFailed {w : World} {type : SignalingMessageType} {sdpType : SdpType} {task : PeerTask}
      {front : List SignalingMessage} {r : Reply} {e : Error}
      (ht : RemoteStep type sdpType task) (hfront : front <+: w.peer.pendingRemoteCandidates) :
      Move (.run (.safe w.peer.safety task) r) w
        (.finishing .peerConnectionError (.error e))
        (grow w { w.ctl with signalingActionInFlight := false }
          { w.peer with remoteDescriptionSet := true } []
          (.remoteApplied sdpType :: passActions w.peer.connection front ++ [.callback]))
  -- `OnJoinComplete`.
  | factoryCreated {w : World} {joinResponse : JoinResponse} :
      Move (.setUp joinResponse) w (.setUp joinResponse)
        (grow w w.ctl { w.peer with factory := true } [] [.created .factory])
  | connectionCreated {w : World} {joinResponse : JoinResponse} :
      Move (.setUp joinResponse) w (.setUp joinResponse)
        (grow w w.ctl
          { w.peer with
            connection := true
            remoteFrameSink := true
            connected := false
            remoteMediaSeen := false
            remoteDescriptionSet := false
            pendingRemoteCandidates := [] } [] [.created .connection])
  | setUpDeref {w : World} {joinResponse : JoinResponse} {p : Pointer}
      (h : w.peer.live p = true) :
      Move (.setUp joinResponse) w (.setUp joinResponse) (grow w w.ctl w.peer [] [.deref p true])
  | videoSourceCreated {w : World} {joinResponse : JoinResponse} :
      Move (.setUp joinResponse) w (.setUp joinResponse)
        (grow w w.ctl { w.peer with videoSource := true } [] [])
  | setUpFailed {w : World} {joinResponse : JoinResponse} {reason : TerminalReason} {e : Error}
      (h : reason = .peerConnectionError ∨ reason = .mediaError) :
      Move (.setUp joinResponse) w (.finishing reason (.error e)) w
  | setUpDone {w : World} {joinResponse : JoinResponse} {queued : List SignalingMessage}
      (hq : parseJoinMessages env joinResponse.messages = some queued)
      (hf : w.peer.factory = true) (hc : w.peer.connection = true) :
      Move (.setUp joinResponse) w
        .idle { grow w
          { poppedCtl w.ctl (w.ctl.pendingSignalingMessages ++ sortQueued queued) with
            state := .connectingWebSocket }
          w.peer []
          (.joinQueued joinResponse.messages :: stateActions w.ctl.state .connectingWebSocket)
          with webSocketStarted := true }
  -- The pump.
  | stopped {w : World} (h : ¬ Pumping w) : Move .pump w .idle w
  | drained {w : World} {joinResponse : JoinResponse} (hp : Pumping w)
      (hq : w.ctl.pendingSignalingMessages = []) (hj : w.ctl.joinResponse = some joinResponse)
      (ho : joinResponse.isInitiator = true → w.ctl.offerStarted = true) : Move .pump w .idle w
  | offerStarted {w : World} {joinResponse : JoinResponse} (hp : Pumping w)
      (hq : w.ctl.pendingSignalingMessages = []) (hj : w.ctl.joinResponse = some joinResponse)
      (hi : joinResponse.isInitiator = true) (ho : w.ctl.offerStarted = false) :
      Move .pump w
        .idle (grow w { negotiatingCtl w.ctl with offerStarted := true } w.peer
          [.safe w.peer.safety (.createDescription .offer)]
          (stateActions w.ctl.state .negotiating ++ connectionCall w (.createDescription .offer)))
  | candidateBuffered {w : World} {m : SignalingMessage} {rest : List SignalingMessage}
      (hp : Pumping w) (hq : w.ctl.pendingSignalingMessages = m :: rest)
      (hm : m.type = .candidate) (hr : w.peer.remoteDescriptionSet = false) :
      Move .pump w
        .pump (grow w (poppedCtl w.ctl rest)
          { w.peer with
            pendingRemoteCandidates := w.peer.pendingRemoteCandidates ++ [m] } []
          [.popped m w.stepsInFlight])
  | candidatePassed {w : World} {m : SignalingMessage} {rest : List SignalingMessage}
      (hp : Pumping w) (hq : w.ctl.pendingSignalingMessages = m :: rest)
      (hm : m.type = .candidate) (hr : w.peer.remoteDescriptionSet = true) :
      Move .pump w
        .pump (grow w (poppedCtl w.ctl rest) w.peer []
          (.popped m w.stepsInFlight :: passActions w.peer.connection [m]))
  | candidateFailed {w : World} {m : SignalingMessage} {rest given : List SignalingMessage}
      {e : Error}
      (hp : Pumping w) (hq : w.ctl.pendingSignalingMessages = m :: rest)
      (hm : m.type = .candidate) (hr : w.peer.remoteDescriptionSet = true)
      (hg : given = [] ∨ given = [m]) :
      Move .pump w
        (.finishing .peerConnectionError (.error e))
        (grow w (poppedCtl w.ctl rest) w.peer []
          (.popped m w.stepsInFlight :: passActions w.peer.connection given))
  | byePopped {w : World} {m : SignalingMessage} {rest : List SignalingMessage} {e : Error}
      (hp : Pumping w) (hq : w.ctl.pendingSignalingMessages = m :: rest) (hm : m.type = .bye) :
      Move .pump w
        (.finishing (if w.ctl.callEstablished then .remoteByeAfterEstablished
          else .remoteByeBeforeEstablished) (.error e))
        (grow w (poppedCtl w.ctl rest) w.peer [] [.popped m w.stepsInFlight])
  | unknownPopped {w : World} {m : SignalingMessage} {rest : List SignalingMessage} {e : Error}
      (hp : Pumping w) (hq : w.ctl.pendingSignalingMessages = m :: rest)
      (hm : m.type = .unknown) :
      Move .pump w
        (.finishing .signalingError (.error e))
        (grow w (poppedCtl w.ctl rest) w.peer [] [.popped m w.stepsInFlight])
  | remoteBegun {w : World} {m : SignalingMessage} {rest : List SignalingMessage}
      {sdpType : SdpType} {task : PeerTask}
      (hp : Pumping w) (hq : w.ctl.pendingSignalingMessages = m :: rest)
      (hm : RemoteStep m.type sdpType task) :
      Move .pump w
        .idle (grow w (negotiatingCtl (poppedCtl w.ctl rest)) w.peer
          [.safe w.peer.safety task]
          (.popped m w.stepsInFlight :: stateActions w.ctl.state .negotiating
            ++ connectionCall w (.setRemoteDescription sdpType m.sdp)))
  | remoteUnparsed {w : World} {m : SignalingMessage} {rest : List SignalingMessage}
      {sdpType : SdpType} {task : PeerTask} {e : Error}
      (hp : Pumping w) (hq : w.ctl.pendingSignalingMessages = m :: rest)
      (hm : RemoteStep m.type sdpType task) :
      Move .pump w
        (.finishing .peerConnectionError (.error e))
        (grow w { poppedCtl w.ctl rest with state := .negotiating } w.peer []
          (.popped m w.stepsInFlight :: stateActions w.ctl.state .negotiating ++ [.callback]))
  -- `Finish`.
  | already {w : World} {reason : TerminalReason} {status : Status}
      (hf : w.ctl.finished = true) : Move (.finishing reason status) w .idle w
  | byeStarted {w : World} {status : Status} {joinResponse : JoinResponse}
      (hf : w.ctl.finished = false) (hj : w.ctl.joinResponse = some joinResponse) :
      Move (.finishing .localDurationReached status) w
        .idle (byeSent env joinResponse status w)
  | ended {w : World} {reason : TerminalReason} {status : Status}
      (hf : w.ctl.finished = false)
      (hr : reason ≠ .localDurationReached ∨ w.ctl.joinResponse = none) :
      Move (.finishing reason status) w .idle (ended reason status w)

/-- How a step begins: every label but `run` is over at once. -/
inductive Enter : World → Label → Phase → World → Prop where
  | post {w : World} {i : Nat} {t : Task} (h : w.ops[i]? = some t) :
      Enter w (.post i) .idle { w with ops := w.ops.eraseIdx i, queue := w.queue ++ [t] }
  | event {w : World} {t : Task} (h : canRaise w t = true) :
      Enter w (.event t) .idle { w with queue := w.queue ++ [t] }
  | run {w : World} {t : Task} {rest : List Task} {r : Reply} (h : w.queue = t :: rest) :
      Enter w (.run r) (.run t r) { w with queue := rest }
  | destroy {w : World} (hq : w.quit = true) (hf : w.ctl.finished = true) :
      Enter w .destroy .idle { grow w w.ctl (closedPeer w.peer) []
        (closeActions w.peer.connection) with destroyed := true }

def machine : PhaseMachine Phase World Label where
  idle := .idle
  start := initial
  enter := Enter
  move := Move env

/-- The phases and worlds some sequence of moves goes through. -/
abbrev Visited : Phase → World → Prop := (machine env).Visited

abbrev Moves : Phase → World → Phase → World → Prop := (machine env).Moves

/-! ## The load -/

variable {env}

theorem load_post {w : World} {i : Nat} {t : Task} (h : w.ops[i]? = some t) :
    (load .idle { w with ops := w.ops.eraseIdx i, queue := w.queue ++ [t] }).Perm
      (load .idle w) := by
  obtain ⟨hi, ht⟩ := List.getElem?_eq_some_iff.mp h
  have hperm : (t :: w.ops.eraseIdx i).Perm w.ops := by
    rw [← ht]; exact List.getElem_cons_eraseIdx_perm hi
  simp only [load, World.pending, List.append_assoc]
  exact List.Perm.append_left _ hperm

theorem load_run {w : World} {t : Task} {rest : List Task} {r : Reply} (h : w.queue = t :: rest) :
    load (.run t r) { w with queue := rest } = load .idle w := by
  simp [load, World.pending, h]

theorem load_event {w : World} {t x : Task}
    (h : x ∈ load .idle { w with queue := w.queue ++ [t] }) : x ∈ load .idle w ∨ x = t := by
  simp only [load, World.pending, List.mem_append, List.mem_singleton] at h ⊢
  tauto

theorem load_initial {t : Task} (h : t ∈ load .idle initial) :
    t = .startupTimeout 1 ∨ t = .joinComplete := by
  have hload : t ∈ [Task.startupTimeout 1, Task.joinComplete] := h
  simpa using hload

theorem pending_sub_load (p : Phase) (w : World) : w.pending ⊆ load p w := by
  cases p with
  | run t r => exact List.subset_cons_self _ _
  | _ => exact List.Subset.refl _

/-- Where a move starts no task of a kind, the tasks of that kind were there before. -/
theorem load_started {f : Task → Bool} {p p' : Phase} {w w' : World} {started : List Task}
    (hload : load p' w' = w.pending ++ started)
    (hs : started.all (fun t => !f t) = true) :
    ∀ t ∈ load p' w', f t = true → t ∈ load p w := by
  intro t ht hft
  rw [hload] at ht
  rcases List.mem_append.mp ht with ht | ht
  · exact pending_sub_load p w ht
  · have hno := List.all_eq_true.mp hs t ht
    rw [hft] at hno
    cases hno

/-- Where a move starts nothing, what is left was there before. -/
theorem load_kept {f : Task → Bool} {p p' : Phase} {w w' : World}
    (hload : load p' w' = w.pending) : ∀ t ∈ load p' w', f t = true → t ∈ load p w :=
  fun _ ht _ => pending_sub_load p w (hload ▸ ht)

/-- The task that finds the call established goes on, and has started a timer. -/
theorem load_established {f : Task → Bool} {t : Task} {r : Reply} {w : World}
    (hf : ∀ g, f (.callDuration g) = false) :
    ∀ x ∈ load (.run t r) (establishedNow w), f x = true → x ∈ load (.run t r) w := by
  intro x hx hfx
  simp only [load, establishedNow_pending, List.mem_cons, List.mem_append,
    List.not_mem_nil, or_false] at hx ⊢
  rcases hx with hx | hx | rfl
  · exact Or.inl hx
  · exact Or.inr hx
  · rw [hf] at hfx
    cases hfx

/-- The repeating stats task is started by the first registration, and no other task is. -/
theorem all_statsStarted {f : Task → Bool} (h : f .stats = true) (running : Bool) :
    (if running = true then [] else [Task.stats]).all f = true := by
  cases running <;> simp [h]

theorem countP_statsStarted {f : Task → Bool} (h : f .stats = false) (running : Bool) :
    (if running = true then [] else [Task.stats]).countP f = 0 := by
  cases running <;> simp [h]

end ApprtcCli.Proof
