import ApprtcCli.Lib.Run
import ApprtcCli.Signaling.Client

/-!
# The network thread and the socket

`AppRtcSignalingClient` does its work on a thread of its own, one task at a time in
the order they were posted. The socket has another thread, which opens connections,
loses them, opens the next until it is stopped, and calls the handler. The two share
the flags under the mutex and the socket itself.

A task of the network thread is cut where it lets go of the mutex and where it calls
the socket; between two cuts anything may happen on the socket's thread. `stop` joins
that thread, so every event raised by then is handled before it returns, the Close
of the connection it closed last.

`κ` is what a caller leaves to be told of the outcome: its callback.
-/

namespace ApprtcCli

open Lib

/-- What the client writes to a connection. -/
inductive Frame where
  | register (roomId clientId : Text)
  | send (messageJson : Text)
  deriving DecidableEq

/-- Members are listed in key order, as JsonCpp keeps them. -/
def Frame.document : Frame → Json
  | .register roomId clientId => .object
      [("clientid", .string clientId), ("cmd", .string "register"), ("roomid", .string roomId)]
  | .send messageJson => .object [("cmd", .string "send"), ("msg", .string messageJson)]

/--
What is posted to the thread, the join apart: it touches neither the flags nor the socket,
and what it tells its caller is `joinRoomAsync`'s to say.
-/
inductive NetworkTask (κ : Type) where
  | connectWebSocket (joinResponse : JoinResponse)
  | register (joinResponse : JoinResponse) (callback : κ)
  /-- An exchange with the room server, which touches neither the flags nor the socket. -/
  | sendToRoom (callback : κ)
  | sendWebSocketMessage (messageJson : Text) (callback : κ)
  | close (joinResponse : JoinResponse)

/-- What the task that runs has still to do. -/
inductive Stage (κ : Type) where
  /-- `websocket_.stop()` of `ConnectWebSocketAsync`. -/
  | stopToConnect
  /-- `websocket_.start()`. -/
  | start
  /-- `websocket_.send` of `RegisterAsync`, which found the socket open. -/
  | writeRegister (joinResponse : JoinResponse) (callback : κ)
  /-- `websocket_.send` of `SendWebSocketMessageAsync`, which found the socket open. -/
  | writeSend (messageJson : Text) (callback : κ)
  /-- `websocket_.stop()` of `CloseAsync`. -/
  | stopToClose

/-- `ix::WebSocket`. -/
structure Socket where
  /-- How many connections it has opened; the last has this number. -/
  opened : Nat := 0
  /-- The last connection is open. -/
  up : Bool := false
  /-- Between `start` and `stop`: it opens a connection whenever there is none. -/
  started : Bool := false
  /-- Events raised and not handled yet. -/
  events : List WebSocketMessage := []

/-- A task posted to the callback thread. -/
inductive Posted (κ : Type) where
  | event (event : SignalingEvent)
  | completion (callback : κ) (status : Status)

/-- What happened at the socket, for the history. -/
inductive SocketAction where
  /-- An event was handled, with what that posted; `own` is the Close of our own `stop`. -/
  | handled (event : WebSocketMessage) (own : Bool) (posted : List SignalingEvent)
  /-- A frame was written to a connection, as this text. -/
  | written (connection : Nat) (frame : Frame) (text : Text)

structure Network (κ : Type) where
  client : AppRtcSignalingClient := ({} : AppRtcSignalingClient).setEventCallbacks
  /-- The network thread's queue. -/
  tasks : List (NetworkTask κ) := []
  stage : Option (Stage κ) := none
  socket : Socket := {}
  /-- Posted to the callback thread, oldest first. -/
  outbox : List (Posted κ) := []
  log : List SocketAction := []

inductive NetworkLabel (κ : Type) where
  /-- One of the client's functions is called. -/
  | call (task : NetworkTask κ)
  /-- The network thread goes on to its next cut; the answer it gets from outside. -/
  | run (answer : Status)
  /-- The socket opens a connection. -/
  | open
  /-- The connection is lost. -/
  | lose
  /-- The socket reports an error, of the connection or of opening one. -/
  | fail (reason : Text)
  /-- A frame, or an event of no interest, arrives over the connection. -/
  | receive (event : WebSocketMessage)
  /-- The socket's thread handles the next event. -/
  | handle

namespace Network

variable {κ : Type} (J : JsonCpp)

def post (n : Network κ) (task : NetworkTask κ) : Network κ := { n with tasks := n.tasks ++ [task] }

def complete (n : Network κ) (callback : κ) (status : Status) : Network κ :=
  { n with outbox := n.outbox ++ [.completion callback status] }

def raise (n : Network κ) (event : WebSocketMessage) : Network κ :=
  { n with socket.events := n.socket.events ++ [event] }

/-- The handler runs; `none` where handling the event ends the process. -/
def handle (event : WebSocketMessage) (own : Bool) (n : Network κ) : Option (Network κ) := do
  let client ← { n.client with posted := [] }.onWebSocketMessage J event
  some { n with
    client := { client with posted := [] }
    outbox := n.outbox ++ client.posted.map .event
    log := n.log ++ [.handled event own client.posted] }

def handleAll : List WebSocketMessage → Network κ → Option (Network κ)
  | [], n => some n
  | event :: events, n => do handleAll events (← handle J event false n)

/-- `websocket_.stop()`: what was raised is handled, then the Close of an open connection. -/
def stop (n : Network κ) : Option (Network κ) := do
  let n' ← handleAll J n.socket.events
    { n with socket := { n.socket with started := false, up := false, events := [] } }
  if n.socket.up then handle J .close true n' else some n'

/-- `websocket_.send`: the frame is written to an open connection, if the library takes it. -/
def write (frame : Frame) (answer : Status) (n : Network κ) : Option (Network κ) :=
  match answer with
  | .ok () =>
      if n.socket.up then
        some { n with log := n.log ++ [.written n.socket.opened frame (J.write frame.document)] }
      else none
  | .error _ => none

/-- `info.success` decides what the callback is told. -/
def writeAndComplete (frame : Frame) (failure : Text) (callback : κ) (answer : Status)
    (n : Network κ) : Network κ :=
  match write J frame answer n with
  | some n => n.complete callback okStatus
  | none => n.complete callback (.error ⟨.internal, failure⟩)

/-- A task begins: it runs to the first point where it calls the socket. -/
def begin (answer : Status) (n : Network κ) : NetworkTask κ → Network κ
  | .connectWebSocket _ =>
      { n with
        client.closing := false, client.websocketOpen := false, stage := some .stopToConnect }
  | .register joinResponse callback =>
      if !n.client.websocketOpen then
        n.complete callback (.error ⟨.failedPrecondition, "websocket not open during register"⟩)
      else { n with stage := some (.writeRegister joinResponse callback) }
  | .sendToRoom callback => n.complete callback answer
  | .sendWebSocketMessage messageJson callback =>
      if !n.client.websocketOpen then
        n.complete callback (.error ⟨.failedPrecondition, "websocket not open"⟩)
      else { n with stage := some (.writeSend messageJson callback) }
  | .close _ =>
      { n with client.closing := true, client.websocketOpen := false, stage := some .stopToClose }

/-- The task that runs goes on from a call of the socket. -/
def resume (answer : Status) (n : Network κ) : Stage κ → Option (Network κ)
  | .stopToConnect => do
      let n ← stop J n
      some { n with stage := some .start }
  | .start => some { n with socket.started := true, stage := none }
  | .writeRegister joinResponse callback =>
      some (writeAndComplete J (.register joinResponse.roomId joinResponse.clientId)
        "websocket register failed" callback answer { n with stage := none })
  | .writeSend messageJson callback =>
      some (writeAndComplete J (.send messageJson) "websocket send failed" callback answer
        { n with stage := none })
  | .stopToClose => do
      -- the DELETE that follows is not waited for by anybody
      let n ← stop J n
      some { n with stage := none }

/-- The network thread goes on: with the task that runs, or with the next. -/
def run (answer : Status) (n : Network κ) : Option (Network κ) :=
  match n.stage with
  | some stage => resume J answer n stage
  | none =>
      match n.tasks with
      | [] => none
      | task :: rest => some (begin answer { n with tasks := rest } task)

def step (n : Network κ) : NetworkLabel κ → Option (Network κ)
  | .call task => some (n.post task)
  | .run answer => run J answer n
  | .open =>
      if n.socket.started && !n.socket.up then
        some ({ n with socket.up := true, socket.opened := n.socket.opened + 1 }.raise .open)
      else none
  | .lose => if n.socket.up then some ({ n with socket.up := false }.raise .close) else none
  | .fail reason =>
      if n.socket.started then some ({ n with socket.up := false }.raise (.error reason)) else none
  | .receive event =>
      match event with
      | .message _ => if n.socket.up then some (n.raise event) else none
      | .other => if n.socket.up then some (n.raise event) else none
      | _ => none
  | .handle =>
      match n.socket.events with
      | [] => none
      | event :: rest => handle J event false { n with socket.events := rest }

end Network

end ApprtcCli
