import ApprtcCli.Call.World

/-!
# The peer-connection client

`apprtc_peer_connection.cc`. The client owns the connection and turns the
three-stage description exchanges of WebRTC into one callback each. It calls back
into the controller through `std::function`s and closures; here they are
parameters, so nothing in this file knows the controller.

Every use of `connection_` and `factory_` goes through `World.deref`, which
records whether the pointer was set.
-/

namespace ApprtcCli.Call

open Lib

/-- Whether a pointer is set. -/
def PeerConnectionClient.live (p : PeerConnectionClient) : Pointer → Bool
  | .factory => p.factory
  | .connection => p.connection

namespace World

def deref (w : World) (p : Pointer) : World := w.act (.deref p (w.peer.live p))

/-- Hand WebRTC an observer whose task carries the live safety flag. -/
def startSafe (w : World) (t : PeerTask) : World := w.start (.safe w.peer.safety t)

end World

variable (env : Env)

/-! ## Setting up -/

/-- `Initialize`. Each exit returns before the pointers it did not get to are set. -/
def peerInitialize (joinResponse : JoinResponse) (w : World) : Option (Status × World) :=
  if !env.startThreads then
    some (.error ⟨.internal, "failed to start webrtc threads"⟩, w)
  else if !env.createFactory then
    some (.error ⟨.internal, "failed to create peer connection factory"⟩, w)
  else
    let w := { w with peer.factory := true }.act (.created .factory)
    match parseIceServers env.json joinResponse.pcConfigJson with
    | none => none
    | some (.error e) => some (.error e, w)
    | some (.ok iceServers) =>
        let w := w.deref .factory
        match env.createPeerConnection iceServers with
        | .error message => some (.error ⟨.internal, message⟩, w)
        | .ok () =>
            let peer := { w.peer with
              connection := true
              remoteFrameSink := true
              connected := false
              remoteMediaSeen := false
              remoteDescriptionSet := false
              pendingRemoteCandidates := [] }
            some (okStatus, { w with peer := peer }.act (.created .connection))

def startMedia (w : World) : Status × World :=
  let w := { w with peer.videoSource := true }
  match env.startVideoSource with
  | .error e => (.error e, w)
  | .ok () =>
      let w := (w.deref .factory).deref .connection
      match env.addVideoTrack with
      | .error message => (.error ⟨.internal, message⟩, w)
      | .ok () =>
          let w := ((w.deref .factory).deref .factory).deref .connection
          match env.addAudioTrack with
          | .error message => (.error ⟨.internal, message⟩, w)
          | .ok () => (okStatus, w)

/-! ## Descriptions -/

/-- `connection_->CreateOffer` or `CreateAnswer`, by the type. -/
def createDescription (type : SdpType) (w : World) : World :=
  ((w.deref .connection).act (.createDescription type)).startSafe (.createDescription type)

def createOffer (w : World) : World := createDescription .offer w

def createAnswer (w : World) : World := createDescription .answer w

def applyLocalDescription (description : SessionDescription) (json : Text) (w : World) : World :=
  ((w.deref .connection).act (.setLocalDescription description)).startSafe
    (.setLocalDescription description json)

/-- `observer` is the task of the observer, holding the caller's callback. -/
def applyRemoteDescription (type : SdpType) (sdp : Text) (observer : PeerTask) (w : World) :
    World :=
  ((w.deref .connection).act (.setRemoteDescription type sdp)).startSafe observer

/--
The closure `CreateOffer` and `CreateAnswer` give their observer. WebRTC creates
a description of the type asked for; `text` is what serializing it yields.
-/
def onDescriptionCreated (callback : StatusOr Text → World → World) (type : SdpType)
    (text : StatusOr (Option Text)) (w : World) : World :=
  match text with
  | .error e => callback (.error e) w
  | .ok text =>
      let description : SessionDescription := ⟨type, text⟩
      match serializeSessionDescription env.json description with
      | .error e => callback (.error e) w
      | .ok json => applyLocalDescription description json w

/-- The closure given to `ApplyLocalDescription`. -/
def onLocalDescriptionSet (callback : StatusOr Text → World → World)
    (description : SessionDescription) (json : Text) (status : Status) (w : World) : World :=
  match status with
  | .error e => callback (.error e) w
  | .ok () => callback (.ok json) (w.act (.localApplied description.type))

/-! ## Candidates -/

/-- `CreateIceCandidate` and `AddIceCandidate` of one message; `failure` is the caller's text. -/
def passCandidate (failure : Text) (m : SignalingMessage) (w : World) : Status × World :=
  match env.createIceCandidate m.sdpMid m.sdpMlineIndex m.candidate with
  | .error description => (.error ⟨.invalidArgument, description⟩, w)
  | .ok () =>
      let w := (w.deref .connection).act (.addIceCandidate m)
      if env.addIceCandidate w.trace m then (okStatus, w)
      else (.error ⟨.internal, failure⟩, w)

def queueRemoteCandidate (m : SignalingMessage) (w : World) : World :=
  { w with peer.pendingRemoteCandidates := w.peer.pendingRemoteCandidates ++ [m] }

def addRemoteCandidate (m : SignalingMessage) (w : World) : Status × World :=
  if !w.peer.remoteDescriptionSet then (okStatus, queueRemoteCandidate m w)
  else passCandidate env "AddIceCandidate failed" m w

/-- The loop of `FlushPendingRemoteCandidates`: the first failure leaves it. -/
def flushCandidates : List SignalingMessage → World → Status × World
  | [], w => (okStatus, w)
  | m :: rest, w =>
      match passCandidate env "AddIceCandidate failed while flushing" m w with
      | (.error e, w) => (.error e, w)
      | (.ok (), w) => flushCandidates rest w

def flushPendingRemoteCandidates (w : World) : Status × World :=
  if w.peer.pendingRemoteCandidates.isEmpty then (okStatus, w)
  else
    match flushCandidates env w.peer.pendingRemoteCandidates w with
    | (.error e, w) => (.error e, w)
    | (.ok (), w) => (okStatus, { w with peer.pendingRemoteCandidates := [] })

/-- The closure `ApplyRemoteDescription` gives its observer. -/
def onRemoteDescriptionSet (callback : Status → World → World) (type : SdpType)
    (status : Status) (w : World) : World :=
  match status with
  | .error e => callback (.error e) w
  | .ok () =>
      let w := { w with peer.remoteDescriptionSet := true }.act (.remoteApplied type)
      match flushPendingRemoteCandidates env w with
      | (.error e, w) => callback (.error e) w
      | (.ok (), w) => callback okStatus w

/-- `SetRemoteOfferAndCreateAnswer`. The callback runs at once where the text does not parse. -/
def setRemoteOfferAndCreateAnswer (callback : StatusOr Text → World → World)
    (m : SignalingMessage) (w : World) : World :=
  match env.createSessionDescription .offer m.sdp with
  | .error description => callback (.error ⟨.invalidArgument, description⟩) w
  | .ok () => applyRemoteDescription .offer m.sdp .setRemoteOffer w

/-- The closure `SetRemoteOfferAndCreateAnswer` gives `ApplyRemoteDescription`. -/
def onRemoteOfferSet (callback : StatusOr Text → World → World) (status : Status) (w : World) :
    World :=
  match status with
  | .error e => callback (.error e) w
  | .ok () => createAnswer w

def setRemoteAnswer (callback : Status → World → World) (m : SignalingMessage) (w : World) :
    World :=
  match env.createSessionDescription .answer m.sdp with
  | .error description => callback (.error ⟨.invalidArgument, description⟩) w
  | .ok () => applyRemoteDescription .answer m.sdp .setRemoteAnswer w

/-! ## Observer events -/

def onConnectionChange (connectionCallback : Bool → World → World)
    (errorCallback : Error → World → World) (state : PeerConnectionState) (w : World) : World :=
  let connected := state == .connected
  let w :=
    if w.peer.connected ≠ connected then
      connectionCallback connected { w with peer.connected := connected }
    else w
  if state = .failed then
    errorCallback ⟨.internal, "peer connection entered failed state"⟩ w
  else w

/-- `OnIceCandidate`; the candidate is absent where WebRTC passes a null pointer. -/
def onIceCandidate (messageCallback : Text → World → World) (candidate : Option IceCandidate)
    (w : World) : World :=
  match candidate with
  | none => w
  | some candidate =>
      match serializeIceCandidate env.json candidate with
      | .error _ => w
      | .ok json => messageCallback json w

def onTrack (video : Bool) (w : World) : World :=
  if video && w.peer.remoteFrameSink then { w with peer.sinkAttached := true } else w

/-- The task `RemoteFrameSink::OnFrame` posts. -/
def onRemoteFrame (remoteMediaCallback : World → World) (w : World) : World :=
  if w.peer.remoteMediaSeen then w
  else remoteMediaCallback { w with peer.remoteMediaSeen := true }

def logStats (w : World) : World :=
  if !w.peer.connection then w else w.deref .connection

/-! ## Closing -/

/-- `task_safety_.reset()`. -/
def resetSafety (w : World) : World := { w with peer.safety := w.peer.safety + 1 }

/-- `connection_->Close()`, where there is a connection, and what it reports meanwhile. -/
def closeConnection (observe : PeerConnectionState → World → World) (w : World) : World :=
  if w.peer.connection then
    let w := env.closeEvents.foldl (fun w state => observe state w) (w.deref .connection)
    { w with peer.connection := false }.act (.cleared .connection)
  else w

/-- The assignments at the end of `Close`. -/
def clearClient (w : World) : World :=
  let peer := { w.peer with
    pendingRemoteCandidates := []
    remoteDescriptionSet := false
    connected := false
    remoteMediaSeen := false
    videoSource := false
    factory := false
    remoteFrameSink := false }
  ({ w with peer := peer }.act (.cleared .factory)).act .closed

/--
`Close`. The flag is reset before the connection is closed, and `observe` is what
each state reported from inside `connection_->Close()` runs.
-/
def close (observe : PeerConnectionState → World → World) (w : World) : World :=
  clearClient (closeConnection env observe (resetSafety w))

end ApprtcCli.Call
