import ApprtcCli.Call.Controller
import ApprtcCli.Lib.Run

/-!
# Every run of a call

The labels of a step are the choices the environment has: which outstanding
operation completes next, which event is raised, and with what reply the task at
the head of the queue runs. A run is any list of labels, so an invariant of
reachable worlds holds for every order of completions, messages, timers and
observer events.

Tasks go on running after `Quit`: the thread may have them in hand already. Once
the controller is destroyed the thread runs nothing more of it.
-/

namespace ApprtcCli.Call

open Lib

/-- What a completed operation hands the task that was waiting for it. -/
inductive Reply where
  | none
  | status (status : Status)
  | join (joinResponse : StatusOr JoinResponse)
  | description (text : StatusOr (Option Text))

inductive Label where
  /-- The outstanding operation at this place completes: its task is posted. -/
  | post (i : Nat)
  /-- An event is raised, and its task posted. -/
  | event (task : Task)
  /-- The first task of the queue runs. -/
  | run (reply : Reply)
  /-- `Run` returned, and the controller is destroyed. -/
  | destroy

variable (env : Env)

/-- A task behind the safety flag, where the flag is still live. -/
def runPeerTask (w : World) : PeerTask → Reply → Option World
  | .createDescription type, .description text =>
      some (onDescriptionCreated env (onDescription env) type text w)
  | .setLocalDescription description json, .status status =>
      some (onLocalDescriptionSet (onDescription env) description json status w)
  | .setRemoteOffer, .status status =>
      some (onRemoteDescriptionSet env (onRemoteOfferSet (onDescription env)) .offer status w)
  | .setRemoteAnswer, .status status =>
      some (onRemoteDescriptionSet env
        (onAnswerSet env (pumpSignalingMessages env)) .answer status w)
  | .remoteFrame, .none => some (onRemoteFrame onRemoteMediaSeen w)
  | _, _ => none

def onSignalingEvent (event : SignalingEvent) (w : World) : World :=
  match event with
  | .webSocketOpen => onWebSocketOpen w
  | .signalingMessage m => onInboundSignalingMessage env m w
  | .error e => onSignalingError env e w

/-- Run a task; `none` where the reply is not one the task can get, or the process ends. -/
def runTask (w : World) : Task → Reply → Option World
  | .joinComplete, .join joinResponse => onJoinComplete env joinResponse w
  | .registerComplete, .status status => some (onRegisterComplete env status w)
  | .sendComplete kind, .status status => some (onSendComplete env kind status w)
  | .startupTimeout generation, .none => some (onStartupTimeout env generation w)
  | .callDuration generation, .none => some (onCallDuration env generation w)
  | .stats, .none => some (onStats w)
  | .signaling event, .none => some (onSignalingEvent env event w)
  | .connectionChange state, .none =>
      some (onConnectionChange onPeerConnectionChanged (onPeerConnectionError (finish env)) state w)
  | .iceCandidate localDescription candidate, .none =>
      some (onIceCandidate env (onLocalSignalingMessage env localDescription) candidate w)
  | .track video, .none => some (onTrack video w)
  | .safe flag task, reply => if flag = w.peer.safety then runPeerTask env w task reply else some w
  | _, _ => none

/-- Who can raise an event: an open socket, a live connection, an attached sink. -/
def canRaise (w : World) : Task → Bool
  | .signaling _ => w.webSocketStarted
  | .connectionChange _ => w.peer.connection
  | .iceCandidate _ _ => w.peer.connection
  | .track _ => w.peer.connection
  | .safe flag .remoteFrame =>
      w.peer.remoteFrameSink && w.peer.sinkAttached && flag == w.peer.safety
  | _ => false

/-- The destructor closes the peer-connection client if `CompleteFinish` has not. -/
def destroy (w : World) : World :=
  { close env (observeClosing (finish env)) w with destroyed := true }

def step (w : World) (l : Label) : Option World :=
  if w.destroyed then none
  else
    match l with
    | .post i =>
        match w.ops[i]? with
        | none => none
        | some t => some { w with ops := w.ops.eraseIdx i, queue := w.queue ++ [t] }
    | .event t => if canRaise w t then some { w with queue := w.queue ++ [t] } else none
    | .run reply =>
        match w.queue with
        | [] => none
        | t :: rest => runTask env { w with queue := rest } t reply
    | .destroy => if w.quit then some (destroy env w) else none

/-- `Start`. -/
def startCall (w : World) : World :=
  (scheduleStartupTimeout (setState .joiningRoom w)).start .joinComplete

/-- The world `Run` starts from. -/
def initial : World := startCall {}

/-- A world some run of the call gets to. -/
def Reached (w : World) : Prop := Reachable (step env) initial w

/-- Where a list of labels leads; the start where some label is impossible. -/
def after (labels : List Label) : World := (exec (step env) initial labels).getD initial

theorem exec_after {labels : List Label}
    (h : (exec (step env) initial labels).isSome = true) :
    exec (step env) initial labels = some (after env labels) := by
  obtain ⟨w, hw⟩ := Option.isSome_iff_exists.mp h
  rw [after, hw]
  rfl

theorem reached_after {labels : List Label}
    (h : (exec (step env) initial labels).isSome = true) : Reached env (after env labels) :=
  Reachable.of_exec (exec_after env h)

/-- An environment where every synchronous call succeeds, and these documents parse. -/
def Env.smooth (documents : List (Text × Json)) : Env where
  json := .ofTable (("pc_config", .object [("iceServers", .array [])]) :: documents)
  config := {}
  startThreads := true
  createFactory := true
  createPeerConnection _ := .ok ()
  startVideoSource := okStatus
  addVideoTrack := .ok ()
  addAudioTrack := .ok ()
  createSessionDescription _ _ := .ok ()
  createIceCandidate _ _ _ := .ok ()
  addIceCandidate _ _ := true
  closeEvents := [.closed]

/-- The steps of joining, up to a registration that succeeded. -/
def joinLabels (joinResponse : JoinResponse) : List Label :=
  [.post 1, .run (.join (.ok { joinResponse with pcConfigJson := "pc_config" })),
    .event (.signaling .webSocketOpen), .run .none, .post 1, .run (.status okStatus)]

/-- The steps that establish a call: a connection and a first remote frame. -/
def establishLabels : List Label :=
  [.event (.connectionChange .connected), .run .none, .event (.track true), .run .none,
    .event (.safe 0 .remoteFrame), .run .none]

end ApprtcCli.Call
