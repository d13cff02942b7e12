import ApprtcCli.Proof.Exchange

/-!
# What a client has been sent

The messages on their way to the pump: queued, accepted, waiting in the thread's queue
as tasks, or in a join response being acted on. Running tasks moves them along and
drops them, and never adds one; only an event off the socket and a join response
bring new ones. So a client never pops more messages of a kind than it was sent.
-/

namespace ApprtcCli.Proof

open Lib Call

variable {env : Env}

/-- The message a task brings. -/
def taskMessages : Task → List SignalingMessage
  | .signaling (.signalingMessage m) => [m]
  | _ => []

/-- The messages of a join response that is not acted on yet. -/
def carried (env : Env) : Phase → List SignalingMessage
  | .run .joinComplete (.join (.ok joinResponse)) => parsedMessages env joinResponse.messages
  | .setUp joinResponse => parsedMessages env joinResponse.messages
  | _ => []

/-- The messages of a kind a client was sent, wherever they are. -/
def received (env : Env) (f : SignalingMessage → Bool) (p : Phase) (w : World) : Nat :=
  (joinMessages env w.trace).countP f + (acceptedMessages w.trace).countP f
    + ((load p w).flatMap taskMessages).countP f + (carried env p).countP f

/-- A move that brings nothing. -/
theorem received_le {f : SignalingMessage → Bool} {p p' : Phase} {w w' : World}
    {l : List Action} (htrace : w'.trace = w.trace ++ l)
    (hquiet : l.all notReceived = true)
    (hload : ((load p' w').flatMap taskMessages).countP f
      ≤ ((load p w).flatMap taskMessages).countP f)
    (hcarried : carried env p' = []) : received env f p' w' ≤ received env f p w := by
  obtain ⟨hacc, hjoin⟩ := received_quiet env hquiet
  unfold received
  rw [htrace, joinMessages_append, acceptedMessages_append, hacc, hjoin, hcarried,
    List.append_nil, List.append_nil, List.countP_nil]
  omega

theorem observes_carried {t : Task} {r : Reply} (h : observes t = true) :
    carried env (.run t r) = [] := by
  cases t <;> first | rfl | cases h

/-- **No move brings a message.** -/
theorem received_move (f : SignalingMessage → Bool) {p p' : Phase} {w w' : World}
    (hm : Move env p w p' w') : received env f p' w' ≤ received env f p w := by
  have hpass : ∀ {live : Bool} {ms : List SignalingMessage},
      (passActions live ms).all notReceived = true := all_passActions rfl fun _ => rfl
  cases hm with
  | @accepted _ r m hf =>
      -- out of the task, onto the queue
      have hjoin : joinMessages env [.accepted m] = [] := rfl
      have hacc : acceptedMessages [.accepted m] = [m] := rfl
      simp only [received, grow_trace, joinMessages_append, acceptedMessages_append, hjoin, hacc,
        load, grow_pending, List.append_nil, List.countP_append, List.flatMap_cons, taskMessages,
        carried]
      omega
  | @setUpDone _ jr queued hq hf hc =>
      have hjoin : joinMessages env (.joinQueued jr.messages
          :: stateActions w.ctl.state .connectingWebSocket)
          = sortQueued (parsedMessages env jr.messages) := by
        rw [← List.singleton_append, joinMessages_append,
          (received_quiet env routine_notReceived.states).2]
        simp [joinMessages]
      have hacc : acceptedMessages (.joinQueued jr.messages
          :: stateActions w.ctl.state .connectingWebSocket) = [] := by
        rw [← List.singleton_append, acceptedMessages_append,
          (received_quiet env routine_notReceived.states).1]
        rfl
      have hcount : (sortQueued (parsedMessages env jr.messages)).countP f
          = (parsedMessages env jr.messages).countP f :=
        (List.perm_insertionSort _ _).countP_eq f
      simp only [received, grow_trace, joinMessages_append, acceptedMessages_append, hjoin, hacc,
        load, World.pending, grow_queue, grow_ops, List.append_nil, List.countP_append, hcount,
        List.flatMap_append, carried, List.countP_nil]
      omega
  | joined hf =>
      simp [received, load, carried, taskMessages]
  | observed ht =>
      exact received_le (l := []) (by simp) rfl (by simp [load]) (observes_carried ht)
  | established ht =>
      refine received_le rfl ?_ ?_ (observes_carried ht)
      · rw [List.all_cons, routine_notReceived.states]
        rfl
      · simp [load, taskMessages]
  | ended =>
      exact received_le (ended_trace ..) (routine_notReceived.ended rfl rfl)
        (by simp [load]) rfl
  | stats hs =>
      refine received_le rfl ?_ (by simp [load, taskMessages]) rfl
      rcases hs with rfl | ⟨_, rfl⟩ <;> rfl
  | registered hf =>
      refine received_le rfl rfl ?_ rfl
      cases w.ctl.statsRunning <;> simp [load, taskMessages]
  | already | stopped | drained => exact Nat.le_refl _
  | ignore | fail | setUpFailed =>
      exact received_le (l := []) (by simp) rfl (by simp [load]) rfl
  | factoryCreated | connectionCreated | videoSourceCreated | setUpDeref =>
      simp [received, load, carried, joinMessages, acceptedMessages]
  | _ =>
      refine received_le rfl ?_ ?_ rfl
      · simp [routine_notReceived.states, routine_notReceived.closing, hpass, notReceived,
          connectionCall, stopActions]
      · simp [load, List.flatMap_append, taskMessages]

/-- The messages a step brings. -/
def brought (env : Env) : Label → List SignalingMessage
  | .event t => taskMessages t
  | .run (.join (.ok joinResponse)) => parsedMessages env joinResponse.messages
  | _ => []

theorem received_enter (f : SignalingMessage → Bool) {p : Phase} {w w' : World} {l : Label}
    (he : Enter w l p w') :
    received env f p w' ≤ received env f .idle w + (brought env l).countP f := by
  cases he with
  | post hi =>
      have hperm := ((load_post hi).flatMap_right taskMessages).countP_eq f
      simp only [received, hperm, carried, brought, List.countP_nil]
      omega
  | @event t hr =>
      simp only [received, load, World.pending, List.flatMap_append, List.countP_append,
        List.flatMap_cons, List.flatMap_nil, List.append_nil, carried, brought, List.countP_nil]
      omega
  | @run t rest r hq =>
      have hcarried : (carried env (.run t r)).countP f ≤ (brought env (.run r)).countP f := by
        cases t with
        | joinComplete =>
            cases r with
            | join joinResponse =>
                cases joinResponse with
                | ok joinResponse => exact Nat.le_refl _
                | error e => exact Nat.zero_le _
            | _ => exact Nat.zero_le _
        | _ => exact Nat.zero_le _
      rw [received, received, load_run hq]
      simp only [carried, List.countP_nil] at hcarried ⊢
      omega
  | destroy hq hf =>
      have hle : received env f .idle { grow w w.ctl (closedPeer w.peer) []
          (closeActions w.peer.connection) with destroyed := true } ≤ received env f .idle w := by
        exact received_le rfl routine_notReceived.close (by simp [load, World.pending]) rfl
      exact Nat.le_trans hle (Nat.le_add_right _ _)

/-- **A client has what it was sent**, and a step adds what it brings. -/
theorem received_step (f : SignalingMessage → Bool) {w w' : World} {l : Label}
    (h : Reached env w) (hs : step env w l = some w') :
    received env f .idle w' ≤ received env f .idle w + (brought env l).countP f := by
  obtain ⟨p, w₁, he, hm⟩ := step_cuts (base_visited (reached_visited h)) hs
  have hmoves := hm.invariant (I := fun p v => received env f p v ≤ received env f _ w₁)
    (fun _ _ _ _ hi hm => Nat.le_trans (received_move f hm) hi) (Nat.le_refl _)
  exact Nat.le_trans hmoves (received_enter f he)

/-- What was popped had been received. -/
theorem popped_le_received (f : SignalingMessage → Bool) {w : World} (h : Reached env w) :
    (poppedMessages w.trace).countP f ≤ received env f .idle w := by
  have hfifo := congrArg (List.countP f) (queued_visited (reached_visited h)).fifo
  rw [List.countP_append, List.countP_append] at hfifo
  unfold received
  omega

end ApprtcCli.Proof
