import ApprtcCli.Call.Peer
import Mathlib.Data.List.Sort

/-!
# The call controller

`CallController` of `apprtc_call.cc`: one function for each member and closure.

Two knots of the source are cut by a parameter. `Close` reports connection states
into the controller while `CompleteFinish` is still running, and `SetRemoteAnswer`
calls back into the pump that called it where an answer does not parse. In the
first case `finished_` is already set and every handler returns at once; in the
second only an error comes back, and an error never pumps.
`close_cut` and `setRemoteAnswer_cut` say that the arguments passed there are as
good as the functions themselves.
-/

namespace ApprtcCli.Call

open Lib

variable (env : Env)

/-! ## States and timers -/

def setState (state : CallState) (w : World) : World :=
  if w.ctl.state = state then w else { w with ctl.state := state }.act (.state state)

def scheduleStartupTimeout (w : World) : World :=
  let generation := w.ctl.startupTimeoutGeneration + 1
  { w with ctl.startupTimeoutGeneration := generation }.start (.startupTimeout generation)

def cancelStartupTimeout (w : World) : World :=
  { w with ctl.startupTimeoutGeneration := w.ctl.startupTimeoutGeneration + 1 }

def scheduleCallDurationTimer (w : World) : World :=
  let generation := w.ctl.callDurationGeneration + 1
  { w with ctl.callDurationGeneration := generation }.start (.callDuration generation)

def cancelCallDurationTimer (w : World) : World :=
  { w with ctl.callDurationGeneration := w.ctl.callDurationGeneration + 1 }

/-- A repeating task that is already running is left alone. -/
def startStatsTimer (w : World) : World :=
  if w.ctl.statsRunning then w else { w with ctl.statsRunning := true }.start .stats

def stopStatsTimer (w : World) : World :=
  if w.ctl.statsRunning then { w with ctl.statsRunning := false } else w

/-! ## Connection and media -/

def maybeMarkCallEstablished (w : World) : World :=
  if w.ctl.callEstablished || !w.ctl.peerConnected || !w.ctl.remoteMediaSeen then w
  else
    let w := { w with ctl.callEstablished := true }.act .established
    let w := cancelStartupTimeout w
    let w := setState .connected w
    scheduleCallDurationTimer w

def onPeerConnectionChanged (connected : Bool) (w : World) : World :=
  if w.ctl.finished then w
  else maybeMarkCallEstablished { w with ctl.peerConnected := connected }

def onRemoteMediaSeen (w : World) : World :=
  if w.ctl.finished then w
  else maybeMarkCallEstablished { w with ctl.remoteMediaSeen := true }

/-! ## Sending -/

/-- `SendToRoomAsync`: the completion will post the callback. -/
def sendToRoomAsync (kind : SendKind) (joinResponse : JoinResponse) (payload : Text)
    (w : World) : World :=
  (w.act (.send kind
    (.room env.config.roomServerUrl joinResponse.roomId joinResponse.clientId) payload)).start
      (.sendComplete kind)

def sendWebSocketMessageAsync (kind : SendKind) (payload : Text) (w : World) : World :=
  (w.act (.send kind .webSocket payload)).start (.sendComplete kind)

/-- The branch every sender of the controller takes. -/
def sendMessage (kind : SendKind) (joinResponse : JoinResponse) (payload : Text) (w : World) :
    World :=
  if joinResponse.isInitiator then sendToRoomAsync env kind joinResponse payload w
  else sendWebSocketMessageAsync kind payload w

def sendLocalDescription (payload : Text) (w : World) : World :=
  match w.ctl.joinResponse with
  | none => w.act .checkFailed
  | some joinResponse => sendMessage env .description joinResponse payload w

/-- `OnLocalSignalingMessage`, for a candidate of one local description. -/
def onLocalSignalingMessage (localDescription : Nat) (payload : Text) (w : World) : World :=
  if w.ctl.finished then w
  else
    match w.ctl.joinResponse with
    | none => w
    | some joinResponse => sendMessage env (.candidate localDescription) joinResponse payload w

/-! ## Finishing -/

def buildByeMessage : Text := "\x7b\"type\":\"bye\"\x7d"

/-- `OnPeerConnectionError`, given `Finish`. -/
def onPeerConnectionError (finish : TerminalReason → Status → World → World) (e : Error)
    (w : World) : World :=
  if w.ctl.finished then w else finish .peerConnectionError (.error e) w

/-- What a state reported while closing runs, given `Finish`. -/
def observeClosing (finish : TerminalReason → Status → World → World)
    (state : PeerConnectionState) (w : World) : World :=
  onConnectionChange onPeerConnectionChanged (onPeerConnectionError finish) state w

/-- `CompleteFinish`. It is only entered with `finished_` set, so `Close` cannot finish again. -/
def completeFinish (reason : TerminalReason) (status : Status) (w : World) : World :=
  let w := w.act (.completeFinish reason status)
  let w := close env (observeClosing fun _ _ w => w) w
  let w := match w.ctl.joinResponse with
    | none => w
    | some joinResponse => w.act (.closeAsync joinResponse)
  let w := { w with ctl.exitCode := (exitCodeForReason reason).toInt }
  let w := setState .finished w
  { w with quit := true }

def sendByeAndFinish (status : Status) (w : World) : World :=
  match w.ctl.joinResponse with
  | none => w.act .checkFailed
  | some joinResponse => sendMessage env (.bye status) joinResponse buildByeMessage w

def finish (reason : TerminalReason) (status : Status) (w : World) : World :=
  if w.ctl.finished then w
  else
    let w := { w with ctl.finished := true }.act (.finish reason status)
    let w := setState .stopping w
    let w := cancelStartupTimeout w
    let w := cancelCallDurationTimer w
    let w := stopStatsTimer w
    if reason = .localDurationReached ∧ w.ctl.joinResponse.isSome then
      sendByeAndFinish env status w
    else completeFinish env reason status w

def onSignalingError (e : Error) (w : World) : World :=
  if w.ctl.finished then w else finish env .signalingError (.error e) w

/-! ## The pump -/

/-- The closure given to `CreateOffer` and to `SetRemoteOfferAndCreateAnswer`. -/
def onDescription (description : StatusOr Text) (w : World) : World :=
  let w := w.act .callback
  match description with
  | .error e =>
      finish env .peerConnectionError (.error e)
        { w with ctl.signalingActionInFlight := false }
  | .ok payload => sendLocalDescription env payload w

/-- The closure given to `SetRemoteAnswer`, given the pump. -/
def onAnswerSet (pump : World → World) (status : Status) (w : World) : World :=
  let w := { w with ctl.signalingActionInFlight := false }.act .callback
  match status with
  | .error e => finish env .peerConnectionError (.error e) w
  | .ok () => pump w

/-- The `kBye` branch. -/
def onBye (w : World) : World :=
  if w.ctl.callEstablished then
    finish env .remoteByeAfterEstablished
      (.error ⟨.cancelled, "remote hangup after established call"⟩) w
  else
    finish env .remoteByeBeforeEstablished
      (.error ⟨.failedPrecondition, "remote hangup before call establishment"⟩) w

/-- What the `kAnswer` and `kOffer` branches do before they call the client. -/
def beginNegotiation (w : World) : World :=
  let w := setState .negotiating w
  { w with ctl.signalingActionInFlight := true }

/-- The end of the loop body, on an empty queue. -/
def startOfferIfDue (w : World) : World :=
  match w.ctl.joinResponse with
  | none => w
  | some joinResponse =>
      if joinResponse.isInitiator && !w.ctl.offerStarted then
        let w := setState .negotiating w
        createOffer { w with ctl.offerStarted := true, ctl.signalingActionInFlight := true }
      else w

/-- The condition of the loop. -/
def mayPump (w : World) : Bool :=
  !w.ctl.finished && w.ctl.negotiationReady && !w.ctl.signalingActionInFlight

/-- Take the front message off the queue. -/
def popMessage (m : SignalingMessage) (rest : List SignalingMessage) (w : World) : World :=
  { w with ctl.pendingSignalingMessages := rest }.act (.popped m w.stepsInFlight)

/-- The loop, by the messages still queued; only a candidate goes round again. -/
def pumpLoop : List SignalingMessage → World → World
  | [], w => if mayPump w then startOfferIfDue w else w
  | m :: rest, w =>
      if !mayPump w then w
      else
        let w := popMessage m rest w
        match m.type with
        | .bye => onBye env w
        | .candidate =>
            match addRemoteCandidate env m w with
            | (.error e, w) => finish env .peerConnectionError (.error e) w
            | (.ok (), w) => pumpLoop rest w
        | .answer => setRemoteAnswer env (onAnswerSet env id) m (beginNegotiation w)
        | .offer => setRemoteOfferAndCreateAnswer env (onDescription env) m (beginNegotiation w)
        | .unknown =>
            finish env .signalingError
              (.error ⟨.unimplemented, "unknown signaling message"⟩) w

def pumpSignalingMessages (w : World) : World :=
  if !mayPump w || w.ctl.joinResponse.isNone then w
  else pumpLoop env w.ctl.pendingSignalingMessages w

/-! ## Joining and registering -/

def queuedMessagePriority : SignalingMessageType → Nat
  | .offer => 0
  | .answer => 0
  | .candidate => 1
  | .bye => 2
  | .unknown => 3

/-- The messages of the join response that parse; `none` where reading one ends the process. -/
def parseJoinMessages (messages : List Text) : Option (List SignalingMessage) := do
  let parsed ← messages.mapM (parseSignalingMessage env.json)
  some (parsed.filterMap fun
    | .ok m => some m
    | .error _ => none)

/-- `std::stable_sort` by `QueuedMessagePriority`. -/
def sortQueued (messages : List SignalingMessage) : List SignalingMessage :=
  messages.insertionSort fun a b =>
    queuedMessagePriority a.type ≤ queuedMessagePriority b.type

def queueJoinMessages (joinResponse : JoinResponse) (w : World) : Option World := do
  let queued ← parseJoinMessages env joinResponse.messages
  some ({ w with
    ctl.pendingSignalingMessages := w.ctl.pendingSignalingMessages ++ sortQueued queued }.act
      (.joinQueued joinResponse.messages))

def connectWebSocketAsync (w : World) : World := { w with webSocketStarted := true }

def onJoinComplete (joinResponse : StatusOr JoinResponse) (w : World) : Option World :=
  if w.ctl.finished then some w
  else
    match joinResponse with
    | .error e => some (finish env .signalingError (.error e) w)
    | .ok joinResponse => do
        let w := { w with ctl.joinResponse := some joinResponse }
        match ← peerInitialize env joinResponse w with
        | (.error e, w) => some (finish env .peerConnectionError (.error e) w)
        | (.ok (), w) =>
            match startMedia env w with
            | (.error e, w) => some (finish env .mediaError (.error e) w)
            | (.ok (), w) =>
                let w ← queueJoinMessages env joinResponse w
                some (connectWebSocketAsync (setState .connectingWebSocket w))

def onWebSocketOpen (w : World) : World :=
  if w.ctl.finished || w.ctl.joinResponse.isNone then w
  else (setState .registering w).start .registerComplete

def onRegisterComplete (status : Status) (w : World) : World :=
  if w.ctl.finished then w
  else
    match status with
    | .error e => finish env .signalingError (.error e) w
    | .ok () =>
        let w := { w with ctl.negotiationReady := true }.act .registered
        pumpSignalingMessages env (startStatsTimer w)

def onInboundSignalingMessage (m : SignalingMessage) (w : World) : World :=
  if w.ctl.finished then w
  else
    pumpSignalingMessages env ({ w with
      ctl.pendingSignalingMessages := w.ctl.pendingSignalingMessages ++ [m] }.act (.accepted m))

/-! ## Completions -/

/-- The closures given to the two send functions, by what was sent. -/
def onSendComplete (kind : SendKind) (status : Status) (w : World) : World :=
  match kind with
  | .description =>
      let w := { w with ctl.signalingActionInFlight := false }
      match status with
      | .error e => finish env .signalingError (.error e) w
      | .ok () => pumpSignalingMessages env w
  | .candidate _ =>
      match status with
      | .error e => finish env .signalingError (.error e) w
      | .ok () => w
  | .bye byeStatus => completeFinish env .localDurationReached byeStatus w

/-- The guard of a startup timer. -/
def startupTimeoutLive (generation : Nat) (w : World) : Bool :=
  !(w.ctl.finished || generation != w.ctl.startupTimeoutGeneration || w.ctl.callEstablished)

def onStartupTimeout (generation : Nat) (w : World) : World :=
  if !startupTimeoutLive generation w then w
  else
    finish env .startupTimeout
      (.error ⟨.deadlineExceeded, "timed out waiting for call completion"⟩)
      (w.act .startupTimerFired)

/-- The guard of a call-duration timer. -/
def callDurationLive (generation : Nat) (w : World) : Bool :=
  !(w.ctl.finished || generation != w.ctl.callDurationGeneration || !w.ctl.callEstablished)

def onCallDuration (generation : Nat) (w : World) : World :=
  if !callDurationLive generation w then w
  else finish env .localDurationReached okStatus (w.act .durationTimerFired)

/-- The repeating task; a stopped one does not run, a running one is posted again. -/
def onStats (w : World) : World :=
  if !w.ctl.statsRunning then w
  else (if !w.ctl.finished then logStats w else w).start .stats

end ApprtcCli.Call
