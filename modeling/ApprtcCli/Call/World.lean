import ApprtcCli.Signaling.Client

/-!
# The world one call runs in

Everything `CallController` does happens on the signaling thread, one task at a
time. A `World` is what that thread sees between two tasks: the controller's
fields, the fields of its peer-connection client, the thread's queue, and the
operations other threads still owe it an answer for.

An asynchronous operation is its continuation. Calling `SendToRoomAsync` or
`SetLocalDescription` leaves a `Task` among `ops`; when the network thread or
WebRTC completes it, the task is posted to the queue; when it runs, it is given
the reply. Timers are operations that the clock completes. A closure of the
source is a constructor of `Task` holding what the closure captured.

`trace` is proof-only history. Nothing reads it but the oracles of the
environment, and every ordering law of this development is a law about it.
-/

namespace ApprtcCli.Call

open Lib

inductive CallState where
  | starting
  | joiningRoom
  | connectingWebSocket
  | registering
  | negotiating
  | connected
  | stopping
  | finished
  deriving DecidableEq, Repr

inductive TerminalReason where
  | localDurationReached
  | remoteByeAfterEstablished
  | remoteByeBeforeEstablished
  | startupTimeout
  | signalingError
  | peerConnectionError
  | mediaError
  deriving DecidableEq, Repr

def exitCodeForReason : TerminalReason → ExitCode
  | .localDurationReached => .success
  | .remoteByeAfterEstablished => .success
  | .remoteByeBeforeEstablished => .signalingFailed
  | .signalingError => .signalingFailed
  | .startupTimeout => .timeout
  | .peerConnectionError => .peerConnectionFailed
  | .mediaError => .mediaFailed

/-- `webrtc::PeerConnectionInterface::PeerConnectionState`. -/
inductive PeerConnectionState where
  | new
  | connecting
  | connected
  | disconnected
  | failed
  | closed
  deriving DecidableEq, Repr

/-- Which of the controller's sends a send-completion belongs to. -/
inductive SendKind where
  /-- `SendLocalDescription`. -/
  | description
  /-- `OnLocalSignalingMessage`; the local description the candidate was gathered for. -/
  | candidate (localDescription : Nat)
  /-- `SendByeAndFinish`, with the status its closure holds. -/
  | bye (status : Status)
  deriving DecidableEq

/-- What the peer-connection client posts behind its safety flag. -/
inductive PeerTask where
  /-- `CreateDescriptionObserver`, of `CreateOffer` or `CreateAnswer`. -/
  | createDescription (type : SdpType)
  /-- `SetLocalObserver`, with the text the closure holds. -/
  | setLocalDescription (description : SessionDescription) (json : Text)
  /-- `SetRemoteObserver` of `SetRemoteOfferAndCreateAnswer`. -/
  | setRemoteOffer
  /-- `SetRemoteObserver` of `SetRemoteAnswer`. -/
  | setRemoteAnswer
  /-- `RemoteFrameSink::OnFrame`. -/
  | remoteFrame
  deriving DecidableEq

/-- A task of the signaling thread. -/
inductive Task where
  | joinComplete
  | registerComplete
  | sendComplete (kind : SendKind)
  | startupTimeout (generation : Nat)
  | callDuration (generation : Nat)
  | stats
  /-- An event callback of the signaling client. -/
  | signaling (event : SignalingEvent)
  | connectionChange (state : PeerConnectionState)
  | iceCandidate (localDescription : Nat) (candidate : Option IceCandidate)
  | track (video : Bool)
  /-- A `SafeTask`: it does nothing unless its flag is still the live one. -/
  | safe (flag : Nat) (task : PeerTask)
  deriving DecidableEq

/-- The stages of a negotiation step: creating and setting descriptions, and sending one. -/
def Task.isNegotiationStep : Task → Bool
  | .sendComplete .description => true
  | .safe _ (.createDescription _) => true
  | .safe _ (.setLocalDescription _ _) => true
  | .safe _ .setRemoteOffer => true
  | .safe _ .setRemoteAnswer => true
  | _ => false

/-- The pointers of the peer-connection client that `Close` clears. -/
inductive Pointer where
  | factory
  | connection
  deriving DecidableEq, Repr

/-- How a message leaves the controller. -/
inductive Route where
  /-- `SendToRoomAsync`. -/
  | room (roomServerUrl roomId clientId : Text)
  /-- `SendWebSocketMessageAsync`. -/
  | webSocket
  deriving DecidableEq

/-- What happened, for the history. -/
inductive Action where
  /-- `SetState` changed the state. -/
  | state (state : CallState)
  /-- `QueueJoinMessages` queued what it could read of these texts. -/
  | joinQueued (messages : List Text)
  /-- `OnInboundSignalingMessage` queued a message. -/
  | accepted (message : SignalingMessage)
  /-- `OnRegisterComplete` was told that the registration succeeded. -/
  | registered
  /-- `PumpSignalingMessages` took a message off the queue, with this many steps in flight. -/
  | popped (message : SignalingMessage) (stepsInFlight : Nat)
  /-- `Initialize` set a pointer. -/
  | created (pointer : Pointer)
  /-- A pointer was dereferenced, and whether it was set. -/
  | deref (pointer : Pointer) (live : Bool)
  /-- `Close` cleared a pointer. -/
  | cleared (pointer : Pointer)
  /-- `Close` returned. -/
  | closed
  /-- A call on the connection: create an offer or an answer. -/
  | createDescription (type : SdpType)
  /-- A call on the connection. -/
  | setLocalDescription (description : SessionDescription)
  /-- A call on the connection. -/
  | setRemoteDescription (type : SdpType) (sdp : Text)
  /-- A call on the connection. -/
  | addIceCandidate (message : SignalingMessage)
  /-- The connection reported a local description applied. -/
  | localApplied (type : SdpType)
  /-- The connection reported a remote description applied. -/
  | remoteApplied (type : SdpType)
  /--
  A callback given to `CreateOffer`, `SetRemoteOfferAndCreateAnswer` or
  `SetRemoteAnswer` ran.
  -/
  | callback
  /-- `call_established_` was set. -/
  | established
  /-- A startup timer passed its guard. -/
  | startupTimerFired
  /-- A call-duration timer passed its guard. -/
  | durationTimerFired
  /-- A call of `Finish` got past its guard. -/
  | finish (reason : TerminalReason) (status : Status)
  /-- `CompleteFinish` was entered. -/
  | completeFinish (reason : TerminalReason) (status : Status)
  /-- A message was handed to the signaling client. -/
  | send (kind : SendKind) (route : Route) (payload : Text)
  /-- `CloseAsync` was called. -/
  | closeAsync (joinResponse : JoinResponse)
  /-- An `RTC_CHECK` failed. -/
  | checkFailed
  deriving DecidableEq

structure CallController where
  joinResponse : Option JoinResponse := none
  pendingSignalingMessages : List SignalingMessage := []
  /-- `stats_task_.Running()`. -/
  statsRunning : Bool := false
  state : CallState := .starting
  exitCode : Int := ExitCode.runtimeFailed.toInt
  startupTimeoutGeneration : Nat := 0
  callDurationGeneration : Nat := 0
  negotiationReady : Bool := false
  signalingActionInFlight : Bool := false
  offerStarted : Bool := false
  peerConnected : Bool := false
  remoteMediaSeen : Bool := false
  callEstablished : Bool := false
  finished : Bool := false
  deriving DecidableEq

structure PeerConnectionClient where
  /-- The live flag of `task_safety_`; `reset` kills it and makes the next one. -/
  safety : Nat := 0
  factory : Bool := false
  connection : Bool := false
  videoSource : Bool := false
  remoteFrameSink : Bool := false
  /-- The sink was handed to a remote video track. -/
  sinkAttached : Bool := false
  connected : Bool := false
  remoteMediaSeen : Bool := false
  remoteDescriptionSet : Bool := false
  pendingRemoteCandidates : List SignalingMessage := []
  deriving DecidableEq

structure World where
  ctl : CallController := {}
  peer : PeerConnectionClient := {}
  /-- The signaling thread's queue, in posting order. -/
  queue : List Task := []
  /-- Operations other threads have not completed, and timers not yet due. -/
  ops : List Task := []
  /-- `ConnectWebSocketAsync` was called. -/
  webSocketStarted : Bool := false
  /-- `Quit` was called on the thread. -/
  quit : Bool := false
  /-- The controller's destructor ran. -/
  destroyed : Bool := false
  trace : List Action := []
  deriving DecidableEq

/--
What one call depends on besides the order of events: the configuration, the
libraries, and how the synchronous calls on WebRTC and the video source turn out.
-/
structure Env where
  json : JsonCpp
  config : AppConfig
  /-- `Start` of the two WebRTC threads. -/
  startThreads : Bool
  /-- `CreateModularPeerConnectionFactory` returns a factory. -/
  createFactory : Bool
  /-- `CreatePeerConnectionOrError`. -/
  createPeerConnection : List IceServer → Except Text Unit
  /-- `FileVideoSource::Start`. -/
  startVideoSource : Status
  /-- `AddTrack` of the video track and of the audio track. -/
  addVideoTrack : Except Text Unit
  addAudioTrack : Except Text Unit
  /-- `CreateSessionDescription`, of a type and a text. -/
  createSessionDescription : SdpType → Text → Except Text Unit
  /-- `CreateIceCandidate`, of a mid, an index and a text. -/
  createIceCandidate : Text → Int → Text → Except Text Unit
  /-- `AddIceCandidate`, which may depend on all that went before. -/
  addIceCandidate : List Action → SignalingMessage → Bool
  /-- The states `connection_->Close()` reports before it returns. -/
  closeEvents : List PeerConnectionState

namespace World

def act (w : World) (a : Action) : World := { w with trace := w.trace ++ [a] }

/-- Start an operation that other threads will complete. -/
def start (w : World) (t : Task) : World := { w with ops := w.ops ++ [t] }

/-- Everything that will still run: posted, or owed by another thread. -/
def pending (w : World) : List Task := w.queue ++ w.ops

/-- How many stages of negotiation steps are outstanding. -/
def stepsInFlight (w : World) : Nat := w.pending.countP Task.isNegotiationStep

@[simp] theorem act_ctl (w : World) (a : Action) : (w.act a).ctl = w.ctl := rfl

end World

end ApprtcCli.Call
