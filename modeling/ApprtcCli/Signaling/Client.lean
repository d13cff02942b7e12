import ApprtcCli.Signaling.Common

/-!
# The websocket handler of the signaling client

The callback `ConnectWebSocketAsync` installs on the socket. It runs on the
socket's own thread, keeps two flags under the client's mutex, and speaks to the
controller only by posting tasks to the callback thread.

A frame is written by the room server and the remote peer, so its text is
arbitrary. `onWebSocketMessage` is `none` where handling the frame ends the
process, and `frame_handled_iff` says for which frames that is: the handler
tests that a frame is JSON, and the kind of one member, but never that the root
is an object.
-/

namespace ApprtcCli

open Lib

/-- A task on the callback thread, running one of the event callbacks. -/
inductive SignalingEvent where
  | webSocketOpen
  | signalingMessage (message : SignalingMessage)
  | error (error : Error)
  deriving DecidableEq, Repr

/-- `ix::WebSocketMessage`; `other` is a ping, a pong or a fragment. -/
inductive WebSocketMessage where
  | open
  | close
  | error (reason : Text)
  | message (str : Text)
  | other
  deriving DecidableEq, Repr

/-- The three callbacks are `std::function`s: the flags say whether they are set. -/
structure AppRtcSignalingClient where
  onWebSocketOpen : Bool := false
  onSignalingMessage : Bool := false
  onError : Bool := false
  websocketOpen : Bool := false
  closing : Bool := false
  /-- What has been posted to the callback thread. -/
  posted : List SignalingEvent := []
  deriving DecidableEq

namespace AppRtcSignalingClient

/-- `SetEventCallbacks`, given three callbacks that are set. -/
def setEventCallbacks (c : AppRtcSignalingClient) : AppRtcSignalingClient :=
  { c with onWebSocketOpen := true, onSignalingMessage := true, onError := true }

def postToCallbackThread (c : AppRtcSignalingClient) (task : SignalingEvent) :
    AppRtcSignalingClient :=
  { c with posted := c.posted ++ [task] }

def notifyError (c : AppRtcSignalingClient) (status : Error) : AppRtcSignalingClient :=
  if c.onError then c.postToCallbackThread (.error status) else c

/-- `ParseJson`, the client's own wrapper. -/
def parseJson (J : JsonCpp) (text : Text) : StatusOr Json :=
  match J.parse text with
  | .error errors => .error ⟨.invalidArgument, "failed to parse json: " ++ errors⟩
  | .ok root => .ok root

/-- The end of the message branch: the text nested in `msg` is parsed and posted. -/
def onPayload (J : JsonCpp) (c : AppRtcSignalingClient) (payload : Text) :
    Option AppRtcSignalingClient := do
  match ← parseSignalingMessage J payload with
  | .error e => some (c.notifyError e)
  | .ok message =>
      if c.onSignalingMessage then some (c.postToCallbackThread (.signalingMessage message))
      else some c

/-- The middle of the message branch: the parsed envelope is read. -/
def onEnvelope (J : JsonCpp) (c : AppRtcSignalingClient) (outer : Json) :
    Option AppRtcSignalingClient := do
  let error ← outer.get "error"
  if error.isString ∧ error.asString J ≠ some [] then
    let text ← error.asString J
    some (c.notifyError ⟨.internal, "websocket server error: " ++ text⟩)
  else
    let payload ← stringMember J outer "msg"
    c.onPayload J payload

/-- The message branch. -/
def onFrame (J : JsonCpp) (c : AppRtcSignalingClient) (str : Text) :
    Option AppRtcSignalingClient :=
  match parseJson J str with
  | .error e => some (c.notifyError e)
  | .ok outer => c.onEnvelope J outer

/-- The handler installed by `ConnectWebSocketAsync`. -/
def onWebSocketMessage (J : JsonCpp) (c : AppRtcSignalingClient) :
    WebSocketMessage → Option AppRtcSignalingClient
  | .open =>
      let c := { c with websocketOpen := true }
      some (if c.onWebSocketOpen then c.postToCallbackThread .webSocketOpen else c)
  | .close =>
      let c := { c with websocketOpen := false }
      some (if c.closing then c else c.notifyError ⟨.internal, "websocket closed"⟩)
  | .error reason =>
      let c := { c with websocketOpen := false }
      some (c.notifyError ⟨.internal, "websocket error: " ++ reason⟩)
  | .message str => c.onFrame J str
  | .other => some c

end AppRtcSignalingClient

open AppRtcSignalingClient

/-! ## Which frames are handled -/

/--
An envelope every member of which is converted from a convertible kind: the root
is an object or null, and either its `error` is a text to report, or its `msg`
reads as a text that is itself readable.
-/
def ReadableEnvelope (J : JsonCpp) (outer : Json) : Prop :=
  outer.Indexable ∧
    ((∃ text, outer.member "error" = .string text ∧ text ≠ []) ∨
      ∃ payload, (outer.member "msg").asString J = some payload ∧ ReadableMessage J payload)

/-- Text that is not JSON, or an envelope that can be read at both levels. -/
def ReadableFrame (J : JsonCpp) (str : Text) : Prop :=
  ∀ outer, J.parse str = .ok outer → ReadableEnvelope J outer

/-- One `NotifyError`, or one message: what handling a frame may post. -/
def SignalingEvent.IsOutcome : SignalingEvent → Prop
  | .webSocketOpen => False
  | .signalingMessage _ => True
  | .error _ => True

/-- The frame is handled: the process survives, and exactly one outcome is posted. -/
def FrameHandled (J : JsonCpp) (c : AppRtcSignalingClient) (str : Text) : Prop :=
  ∃ task : SignalingEvent, task.IsOutcome
    ∧ c.onWebSocketMessage J (.message str) = some (c.postToCallbackThread task)

theorem notifyError_of_set {c : AppRtcSignalingClient} (h : c.onError = true) (e : Error) :
    c.notifyError e = c.postToCallbackThread (.error e) := by
  unfold notifyError; rw [if_pos h]

/-- A payload that reads posts one outcome. -/
theorem onPayload_of_readable {J : JsonCpp} {c : AppRtcSignalingClient} {payload : Text}
    (he : c.onError = true) (hm : c.onSignalingMessage = true) (h : ReadableMessage J payload) :
    ∃ task : SignalingEvent, task.IsOutcome
      ∧ c.onPayload J payload = some (c.postToCallbackThread task) := by
  obtain ⟨r, hr⟩ := Option.isSome_iff_exists.mp (parseSignalingMessage_isSome_iff.mpr h)
  unfold onPayload
  rw [hr]
  cases r with
  | error e => exact ⟨.error e, trivial, by simp [notifyError_of_set he]⟩
  | ok m => exact ⟨.signalingMessage m, trivial, by simp [hm]⟩

/-- A payload that is handled at all was readable. -/
theorem readable_of_onPayload {J : JsonCpp} {c c' : AppRtcSignalingClient} {payload : Text}
    (h : c.onPayload J payload = some c') : ReadableMessage J payload := by
  obtain ⟨r, hr, _⟩ := Option.bind_eq_some_iff.mp h
  exact parseSignalingMessage_isSome_iff.mp (by rw [hr]; rfl)

theorem readable_of_onEnvelope {J : JsonCpp} {c c' : AppRtcSignalingClient} {outer : Json}
    (h : c.onEnvelope J outer = some c') : ReadableEnvelope J outer := by
  obtain ⟨error, herr, hbody⟩ := Option.bind_eq_some_iff.mp h
  obtain ⟨hi, herr⟩ := Json.get_eq_some_iff.mp herr
  refine ⟨hi, ?_⟩
  split at hbody
  · -- the server reported an error of its own
    rename_i hc
    left
    cases error <;> simp [Json.isString, Json.asString] at hc
    exact ⟨_, herr.symm, hc⟩
  · obtain ⟨payload, hpay, hbody⟩ := Option.bind_eq_some_iff.mp hbody
    exact Or.inr ⟨payload, (stringMember_eq_some_iff.mp hpay).2, readable_of_onPayload hbody⟩

theorem onEnvelope_of_readable {J : JsonCpp} {c : AppRtcSignalingClient} {outer : Json}
    (he : c.onError = true) (hm : c.onSignalingMessage = true) (h : ReadableEnvelope J outer) :
    ∃ task : SignalingEvent, task.IsOutcome
      ∧ c.onEnvelope J outer = some (c.postToCallbackThread task) := by
  obtain ⟨hi, herr⟩ := h
  unfold onEnvelope
  rw [Json.get_of_indexable hi]
  simp only [Option.bind_eq_bind, Option.bind_some]
  by_cases hc : (outer.member "error").isString ∧ (outer.member "error").asString J ≠ some []
  · rw [if_pos hc]
    obtain ⟨text, ht⟩ := Json.asString_of_stringLike (J := J) (Json.stringLike_of_isString hc.1)
    exact ⟨.error _, trivial, by rw [ht, Option.bind_some, notifyError_of_set he]⟩
  · rw [if_neg hc]
    rcases herr with ⟨text, ht, hne⟩ | ⟨payload, hpay, hread⟩
    · exact absurd ⟨by rw [ht]; rfl, by rw [ht]; simpa [Json.asString] using hne⟩ hc
    · rw [stringMember_eq_some_iff.mpr ⟨hi, hpay⟩, Option.bind_some]
      exact onPayload_of_readable he hm hread

/--
**A frame is handled exactly when it is readable.** The handler of a client with
its callbacks set survives the frame, and posts one outcome for it, if and only
if every member it converts is of a kind that converts.
-/
theorem frame_handled_iff (J : JsonCpp) (c : AppRtcSignalingClient) (str : Text) :
    FrameHandled J c.setEventCallbacks str ↔ ReadableFrame J str := by
  have he : c.setEventCallbacks.onError = true := rfl
  have hm : c.setEventCallbacks.onSignalingMessage = true := rfl
  generalize c.setEventCallbacks = c at he hm
  unfold FrameHandled ReadableFrame
  simp only [onWebSocketMessage, onFrame, parseJson]
  cases hp : J.parse str with
  | error e =>
      have hpost := notifyError_of_set he ⟨.invalidArgument, "failed to parse json: " ++ e⟩
      exact ⟨fun _ _ h => absurd h (by simp), fun _ => ⟨.error _, trivial, congrArg some hpost⟩⟩
  | ok outer =>
      constructor
      · rintro ⟨task, _, h⟩ outer' ho
        injection ho with ho
        exact ho ▸ readable_of_onEnvelope h
      · intro h
        exact onEnvelope_of_readable he hm (h outer rfl)

/-- A frame that is an array ends the process. -/
theorem array_frame_unhandled :
    ¬ FrameHandled (JsonCpp.ofTable [("[]", .array [])])
        (setEventCallbacks {}) "[]" := by
  rintro ⟨task, _, h⟩
  have hnone : (setEventCallbacks {}).onWebSocketMessage
      (JsonCpp.ofTable [("[]", .array [])]) (.message "[]") = none := by rfl
  rw [hnone] at h
  exact absurd h (by simp)

end ApprtcCli
