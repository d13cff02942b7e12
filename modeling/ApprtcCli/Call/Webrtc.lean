import ApprtcCli.Call.System

/-!
# Runs with WebRTC's order of events

`step` lets WebRTC raise any event at any time. WebRTC itself keeps an order: it has
nothing to report of a connection before it is given a description, and it calls
`OnSetLocalDescriptionComplete`, which posts the completion, before it posts the first
candidate gathered for that description. A law that needs one of these is a law about
`step` restricted to it; everything else is still as the environment likes.

A candidate is numbered by the call of `SetLocalDescription` it belongs to. A call
that has not completed is among the outstanding operations, and it is the last
call there was, because the controller makes one at a time.
-/

namespace ApprtcCli.Call

open Lib

/-- A call of `SetLocalDescription`. -/
def Action.isSetLocal : Action → Bool
  | .setLocalDescription _ => true
  | _ => false

/-- The task `OnSetLocalDescriptionComplete` posts. -/
def Task.isSetLocal : Task → Bool
  | .safe _ (.setLocalDescription _ _) => true
  | _ => false

/-- How many calls of `SetLocalDescription` have not completed. -/
def World.localsUnset (w : World) : Nat := w.ops.countP Task.isSetLocal

/-- How many calls of `SetLocalDescription` there have been. -/
def World.localsMade (w : World) : Nat := w.trace.countP Action.isSetLocal

/-- A candidate is posted only once the call it belongs to has completed. -/
def webrtcAllows (w : World) : Label → Bool
  | .event (.iceCandidate n _) => n + w.localsUnset < w.localsMade
  | _ => true

/-- A description was handed to the connection. -/
def Action.isDescription : Action → Bool
  | .setLocalDescription _ => true
  | .setRemoteDescription _ _ => true
  | _ => false

/-- WebRTC reports nothing of a connection that was given no description. -/
def webrtcSpeaks (w : World) : Label → Bool
  | .event (.signaling _) => true
  | .event _ => w.trace.any Action.isDescription
  | _ => true

/-- Every run of a call in which candidates come in WebRTC's order. -/
def webrtcStep (env : Env) : World → Label → Option World := restrict (step env) webrtcAllows

end ApprtcCli.Call
