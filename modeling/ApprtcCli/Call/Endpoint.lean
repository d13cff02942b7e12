import ApprtcCli.Call.Webrtc
import ApprtcCli.Signaling.Network

/-!
# The whole client

A `World` is the signaling thread, and lets its signaling client answer as it likes. A
`Network` is that client, and lets its caller call as he likes. An `Endpoint` is the two
together: what the signaling thread asks of the client is posted to the network thread,
and what that thread or the socket reports is posted to the signaling thread, a
completion with the status it was given.

One task calls at most one of the client's functions (`clientCalls_most`), so the order
in which `clientCalls` lists the calls of a step does not matter.
-/

namespace ApprtcCli.Call

open Lib

structure Endpoint where
  world : World := initial
  net : Network Task := {}
  /-- The completions in the signaling thread's queue, each with what it was told. -/
  answers : List (Task × Status) := []

inductive EndpointLabel where
  /-- The signaling thread, WebRTC, a timer, or the room server's answer to the join. -/
  | call (l : Label)
  /-- The signaling thread runs a completion of the network thread. -/
  | complete
  /-- The network thread or the socket. -/
  | net (l : NetworkLabel Task)

/-- The completions of the network thread, the join's apart. -/
def Task.isNetworkDone : Task → Bool
  | .registerComplete => true
  | .sendComplete _ => true
  | _ => false

/-- `RegisterAsync`, where this operation was started by it. -/
def registerCall (joinResponse : JoinResponse) : Task → Option (NetworkTask Task)
  | .registerComplete => some (.register joinResponse .registerComplete)
  | _ => none

/-- The function of the client that left this in the history. -/
def sendCall : Action → Option (NetworkTask Task)
  | .send kind (.room _ _ _) _ => some (.sendToRoom (.sendComplete kind))
  | .send kind .webSocket payload => some (.sendWebSocketMessage payload (.sendComplete kind))
  | .closeAsync joinResponse => some (.close joinResponse)
  | _ => none

/-- The calls that need a join response, of a controller that has it. -/
def joinedCalls (connects : Bool) (started : List Task) :
    Option JoinResponse → List (NetworkTask Task)
  | none => []
  | some joinResponse =>
      (if connects then [.connectWebSocket joinResponse] else [])
        ++ started.filterMap (registerCall joinResponse)

/-- What was asked of the client between two worlds. -/
def clientCalls (w w' : World) : List (NetworkTask Task) :=
  joinedCalls (w'.webSocketStarted && !w.webSocketStarted) (w'.ops.drop w.ops.length)
      w'.ctl.joinResponse
    ++ (w'.trace.drop w.trace.length).filterMap sendCall

namespace Endpoint

variable (env : Env)

/-- What is not for the network thread or the socket to do. -/
def isOwn (w : World) : Label → Bool
  | .post i => !(w.ops[i]?.any Task.isNetworkDone)
  | .event (.signaling _) => false
  | .event _ => true
  | .run _ => !(w.queue.head?.any Task.isNetworkDone)
  | .destroy => true

/-- A step of the world, and what it asks of the client. -/
def advance (e : Endpoint) (l : Label) : Option Endpoint := do
  let world ← restrict (Call.step env) webrtcSpeaks e.world l
  some { e with world := world, net := (clientCalls e.world world).foldl Network.post e.net }

/-- `PostToCallbackThread`. -/
def postToCallbackThread (e : Endpoint) : Posted Task → Endpoint
  | .event event => { e with world.queue := e.world.queue ++ [.signaling event] }
  | .completion callback status =>
      { e with
        world.ops := e.world.ops.erase callback
        world.queue := e.world.queue ++ [callback]
        answers := e.answers ++ [(callback, status)] }

/-- What was posted reaches the queue, as long as there is a controller to run it. -/
def deliver (e : Endpoint) : Endpoint :=
  if e.world.destroyed then { e with net.outbox := [] }
  else e.net.outbox.foldl postToCallbackThread { e with net.outbox := [] }

def step (e : Endpoint) : EndpointLabel → Option Endpoint
  | .call l => if isOwn e.world l then advance env e l else none
  | .complete =>
      match e.world.queue, e.answers with
      | task :: _, (_, status) :: answers =>
          if task.isNetworkDone then
            advance env { e with answers := answers } (.run (.status status))
          else none
      | _, _ => none
  | .net (.call _) => none
  | .net l => do
      let net ← Network.step env.json e.net l
      some (deliver { e with net := net })

end Endpoint

end ApprtcCli.Call
