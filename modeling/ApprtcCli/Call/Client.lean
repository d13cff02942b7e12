import ApprtcCli.Call.System

/-!
# The peer-connection client on its own

A `PeerConnectionClient` between `Initialize` and `Close`, in the hands of any
caller: it is asked to set remote descriptions and to add remote candidates in
any order, and what it has started completes in any order. Every function of the
client calls its callback last, so whatever a callback goes on to do is a step
of its own here, and the callbacks themselves do nothing.

The run numbers the candidates by the calls that brought them, so that two equal
candidates are told apart. The numbers are bookkeeping: they follow the buffer
and the history of the world, which the client alone determines.
-/

namespace ApprtcCli.Call

open Lib

inductive ClientLabel where
  | setRemoteOfferAndCreateAnswer (m : SignalingMessage)
  | setRemoteAnswer (m : SignalingMessage)
  | addRemoteCandidate (m : SignalingMessage)
  /-- The outstanding operation at this place completes, and its task runs. -/
  | complete (i : Nat) (reply : Reply)

variable (env : Env)

/-- A callback that leaves everything to later steps. -/
def leave {α : Type} (_ : α) (w : World) : World := w

/-- A task of the client, where its safety flag is still live. -/
def runClientTask (w : World) : PeerTask → Reply → Option World
  | .createDescription type, .description text =>
      some (onDescriptionCreated env leave type text w)
  | .setLocalDescription description json, .status status =>
      some (onLocalDescriptionSet leave description json status w)
  | .setRemoteOffer, .status status =>
      some (onRemoteDescriptionSet env (onRemoteOfferSet leave) .offer status w)
  | .setRemoteAnswer, .status status => some (onRemoteDescriptionSet env leave .answer status w)
  | _, _ => none

def clientStep (w : World) : ClientLabel → Option World
  | .setRemoteOfferAndCreateAnswer m => some (setRemoteOfferAndCreateAnswer env leave m w)
  | .setRemoteAnswer m => some (setRemoteAnswer env leave m w)
  | .addRemoteCandidate m => some (addRemoteCandidate env m w).2
  | .complete i reply =>
      match w.ops[i]? with
      | some (.safe flag task) =>
          let w := { w with ops := w.ops.eraseIdx i }
          if flag = w.peer.safety then runClientTask env w task reply else some w
      | _ => none

/-! ## What the connection accepted -/

/-- The candidate this action passed on, if `AddIceCandidate` accepted it. -/
def acceptedAt (before : List Action) : Action → List SignalingMessage
  | .addIceCandidate m =>
      if env.addIceCandidate (before ++ [.addIceCandidate m]) m then [m] else []
  | _ => []

/-- The candidates among these actions that were accepted, after this history. -/
def acceptedIn : List Action → List Action → List SignalingMessage
  | _, [] => []
  | before, a :: rest => acceptedAt env before a ++ acceptedIn (before ++ [a]) rest

/-- The candidates accepted between two worlds. -/
def acceptedBetween (w w' : World) : List SignalingMessage :=
  acceptedIn env w.trace (w'.trace.drop w.trace.length)

/-- A run of the client, with its candidates numbered by the calls that brought them. -/
structure ClientRun where
  world : World
  /-- The candidates given to `AddRemoteCandidate`, in the order of the calls. -/
  given : List SignalingMessage := []
  /-- The numbers of the candidates in the buffer. -/
  waiting : List Nat := []
  /-- The numbers of the candidates that were accepted. -/
  applied : List Nat := []

/-- The numbers after a step: an added candidate is the next one, a flush goes down the buffer. -/
def ClientRun.advance (r : ClientRun) (l : ClientLabel) (w : World) : ClientRun :=
  match l with
  | .addRemoteCandidate m =>
      let buffered :=
        w.peer.pendingRemoteCandidates.length > r.world.peer.pendingRemoteCandidates.length
      { world := w
        given := r.given ++ [m]
        waiting := if buffered then r.waiting ++ [r.given.length] else r.waiting
        applied := if (acceptedBetween env r.world w).isEmpty then r.applied
          else r.applied ++ [r.given.length] }
  | _ =>
      { r with
        world := w
        waiting := if w.peer.pendingRemoteCandidates.isEmpty then [] else r.waiting
        applied := r.applied ++ r.waiting.take (acceptedBetween env r.world w).length }

def clientRunStep (r : ClientRun) (l : ClientLabel) : Option ClientRun :=
  (clientStep env r.world l).map (r.advance env l)

end ApprtcCli.Call
