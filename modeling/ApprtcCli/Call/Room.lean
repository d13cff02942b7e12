import ApprtcCli.Call.System

/-!
# Two clients in one room

The room server is not in the repository. What is said of it here is what a call takes
for granted: one of the two clients is told that it is the initiator, and whatever one
hands over, posted or on its websocket, is relayed to the other, each message once and
in the order it was sent. A message is relayed in the join response of the other client
or, later, in a frame on its websocket, as `{"msg": ...}`.

A server waits for a client to register before it sends frames. This one may send them
as soon as the client has started its socket, and a message may be lost on its way to
it, as one is whose sending failed. Both only add runs.
-/

namespace ApprtcCli.Call

open Lib AppRtcSignalingClient

inductive Side where
  | initiator
  | joiner
  deriving DecidableEq, Repr

def Side.other : Side → Side
  | .initiator => .joiner
  | .joiner => .initiator

def Side.isInitiator : Side → Bool
  | .initiator => true
  | .joiner => false

/-- The texts handed to the signaling client, in order. -/
def sentTexts (l : List Action) : List Text :=
  l.filterMap fun
    | .send _ _ payload => some payload
    | _ => none

structure Room where
  world : Side → World
  /-- How many of the other side's messages were relayed to this side, or lost. -/
  relayed : Side → Nat

namespace Room

def start : Room where
  world _ := initial
  relayed _ := 0

/-- What was sent to a side and not relayed yet. -/
def waiting (r : Room) (s : Side) : List Text :=
  (sentTexts (r.world s.other).trace).drop (r.relayed s)

/-- A step of one side, to which `count` messages were relayed with it. -/
def advance (r : Room) (s : Side) (count : Nat) (w : World) : Room where
  world t := if t = s then w else r.world t
  relayed t := if t = s then r.relayed s + count else r.relayed t

@[simp] theorem advance_world (r : Room) (s : Side) (count : Nat) (w : World) :
    (r.advance s count w).world s = w := if_pos rfl

@[simp] theorem advance_relayed (r : Room) (s : Side) (count : Nat) (w : World) :
    (r.advance s count w).relayed s = r.relayed s + count := if_pos rfl

theorem advance_world_ne (r : Room) {s t : Side} (h : t ≠ s) (count : Nat) (w : World) :
    (r.advance s count w).world t = r.world t := if_neg h

theorem advance_relayed_ne (r : Room) {s t : Side} (h : t ≠ s) (count : Nat) (w : World) :
    (r.advance s count w).relayed t = r.relayed t := if_neg h

@[simp] theorem advance_self (r : Room) (s : Side) (count : Nat) :
    (r.advance s count (r.world s)).world = r.world := by
  funext t
  by_cases ht : t = s
  · subst ht
    exact advance_world ..
  · exact advance_world_ne r ht ..

end Room

inductive RoomLabel where
  /-- A step of one client in which it gets nothing from the other. -/
  | step (s : Side) (l : Label)
  /-- The server answers the join of a client. -/
  | join (s : Side) (joinResponse : JoinResponse)
  /-- The server relays a message in a frame. -/
  | relay (s : Side) (frame : Text)
  /-- A message does not get to the server. -/
  | lose (s : Side)

/-- The labels by which a client gets messages. -/
def Label.brings : Label → Bool
  | .event (.signaling (.signalingMessage _)) => true
  | .run (.join (.ok _)) => true
  | _ => false

/-- A frame that carries this text and no error. -/
def wraps (J : JsonCpp) (frame text : Text) : Bool :=
  match J.parse frame with
  | .ok (.object members) =>
      match Json.lookup members "error", Json.lookup members "msg" with
      | .null, .string payload => payload = text
      | .string [], .string payload => payload = text
      | _, _ => false
  | _ => false

/-- The handler gets to the text of such a frame. -/
theorem onFrame_wraps {J : JsonCpp} {frame text : Text} (c : AppRtcSignalingClient)
    (h : wraps J frame text = true) : c.onFrame J frame = c.onPayload J text := by
  unfold wraps at h
  split at h
  · rename_i members hparse
    have hread : (Json.lookup members "error" = .null ∨ Json.lookup members "error" = .string [])
        ∧ Json.lookup members "msg" = .string text := by
      split at h
      · rename_i payload herr hmsg
        exact ⟨Or.inl herr, by rw [hmsg]; simpa using h⟩
      · rename_i payload herr hmsg
        exact ⟨Or.inr herr, by rw [hmsg]; simpa using h⟩
      · cases h
    obtain ⟨herr, hmsg⟩ := hread
    have hno : ¬ ((Json.lookup members "error").isString = true
        ∧ (Json.lookup members "error").asString J ≠ some []) := by
      rcases herr with herr | herr <;> rw [herr]
      · rintro ⟨hs, _⟩
        cases hs
      · exact fun hs => hs.2 rfl
    have hmember : stringMember J (.object members) "msg" = some text :=
      stringMember_eq_some_iff.mpr ⟨trivial, by rw [Json.member, hmsg]; rfl⟩
    simp only [onFrame, parseJson, hparse, onEnvelope, Json.get, Option.bind_eq_bind,
      Option.bind_some, if_neg hno, hmember]
  · cases h

/-- What the websocket handler posts for a frame. -/
def frameEvents (J : JsonCpp) (frame : Text) : Option (List SignalingEvent) :=
  ((setEventCallbacks {}).onWebSocketMessage J (.message frame)).map (·.posted)

def roomStep (env : Side → Env) (r : Room) : RoomLabel → Option Room
  | .step s l =>
      if l.brings then none else (step (env s) (r.world s) l).map (r.advance s 0)
  | .join s joinResponse =>
      if joinResponse.isInitiator = s.isInitiator ∧ joinResponse.messages <+: r.waiting s then
        (step (env s) (r.world s) (.run (.join (.ok joinResponse)))).map
          (r.advance s joinResponse.messages.length)
      else none
  | .relay s frame =>
      match r.waiting s, frameEvents (env s).json frame with
      | text :: _, some [event] =>
          if wraps (env s).json frame text then
            (step (env s) (r.world s) (.event (.signaling event))).map (r.advance s 1)
          else none
      | _, _ => none
  | .lose s => if r.waiting s = [] then none else some (r.advance s 1 (r.world s))

/-- **A relayed frame brings the message it carries**, or the error of reading it. -/
theorem frameEvents_wraps {J : JsonCpp} {frame text : Text} (h : wraps J frame text = true) :
    frameEvents J frame = (parseSignalingMessage J text).map fun
      | .ok m => [.signalingMessage m]
      | .error e => [.error e] := by
  have hframe : frameEvents J frame
      = ((setEventCallbacks {}).onPayload J text).map (·.posted) := by
    rw [← onFrame_wraps _ h]
    rfl
  rw [hframe, onPayload]
  cases parseSignalingMessage J text with
  | none => rfl
  | some result =>
      cases result with
      | ok m => rfl
      | error e => rfl

end ApprtcCli.Call
