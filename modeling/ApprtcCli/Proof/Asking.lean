import ApprtcCli.Call.Endpoint
import ApprtcCli.Proof.Gathering

/-!
# What a step asks of the signaling client

A task ends where it calls the client: each move that does goes to rest, and none goes
on from there. So a step makes one call or none (`clientCalls_most`), and what it starts
to wait for is the completion of that call.
-/

namespace ApprtcCli.Proof

open Lib Call PhaseMachine

variable {env : Env}

/-- What one move, or all the moves of a step, leave behind. -/
structure Grows (w w' : World) (started : List Task) (actions : List Action) : Prop where
  queue : w'.queue = w.queue
  ops : w'.ops = w.ops ++ started
  trace : w'.trace = w.trace ++ actions
  joined : ∀ joinResponse, w.ctl.joinResponse = some joinResponse →
    w'.ctl.joinResponse = some joinResponse
  ready : w.ctl.negotiationReady = true → w'.ctl.negotiationReady = true
  connected : w.webSocketStarted = true → w'.webSocketStarted = true

/-- No function of the client was called. -/
structure Unasked (w w' : World) (started : List Task) (actions : List Action) : Prop where
  owed : started.filter Task.isNetworkDone = []
  calls : actions.filterMap sendCall = []
  connected : w'.webSocketStarted = w.webSocketStarted

/-- The calls, and the completions that are waited for. -/
inductive Called (w' : World) : List Task → List (NetworkTask Task) → Prop where
  | nothing : Called w' [] []
  | connect {joinResponse : JoinResponse} (hweb : w'.webSocketStarted = true) :
      Called w' [] [.connectWebSocket joinResponse]
  | register {joinResponse : JoinResponse} (hj : w'.ctl.joinResponse = some joinResponse) :
      Called w' [.registerComplete] [.register joinResponse .registerComplete]
  | sendToRoom {kind : SendKind} :
      Called w' [.sendComplete kind] [.sendToRoom (.sendComplete kind)]
  | sendWebSocketMessage {kind : SendKind} {payload : Text}
      (hmem : .send kind .webSocket payload ∈ w'.trace) :
      Called w' [.sendComplete kind] [.sendWebSocketMessage payload (.sendComplete kind)]
  | close {joinResponse : JoinResponse} : Called w' [] [.close joinResponse]

/-- The calls, from what was started and what was recorded. -/
def callsOf (w w' : World) (started : List Task) (actions : List Action) :
    List (NetworkTask Task) :=
  joinedCalls (w'.webSocketStarted && !w.webSocketStarted) started w'.ctl.joinResponse
    ++ actions.filterMap sendCall

theorem clientCalls_eq {w w' : World} {started : List Task} {actions : List Action}
    (hops : w'.ops = w.ops ++ started) (htrace : w'.trace = w.trace ++ actions) :
    clientCalls w w' = callsOf w w' started actions := by
  simp [clientCalls, callsOf, hops, htrace]

theorem Grows.trans {w w₁ w' : World} {started started' : List Task}
    {actions actions' : List Action} (h : Grows w w₁ started actions)
    (h' : Grows w₁ w' started' actions') :
    Grows w w' (started ++ started') (actions ++ actions') where
  queue := h'.queue.trans h.queue
  ops := by rw [h'.ops, h.ops, List.append_assoc]
  trace := by rw [h'.trace, h.trace, List.append_assoc]
  joined joinResponse hj := h'.joined joinResponse (h.joined joinResponse hj)
  ready hr := h'.ready (h.ready hr)
  connected hw := h'.connected (h.connected hw)

theorem Unasked.trans {w w₁ w' : World} {started started' : List Task}
    {actions actions' : List Action} (h : Unasked w w₁ started actions)
    (h' : Unasked w₁ w' started' actions') :
    Unasked w w' (started ++ started') (actions ++ actions') where
  owed := by rw [List.filter_append, h.owed, h'.owed]; rfl
  calls := by rw [List.filterMap_append, h.calls, h'.calls]; rfl
  connected := h'.connected.trans h.connected

/-- Only completions of the network thread tell of a call. -/
theorem joinedCalls_owed (connects : Bool) (started : List Task)
    (joinResponse : Option JoinResponse) :
    joinedCalls connects started joinResponse
      = joinedCalls connects (started.filter Task.isNetworkDone) joinResponse := by
  cases joinResponse with
  | none => rfl
  | some jr =>
      simp only [joinedCalls]
      rw [List.filterMap_filter]
      refine congrArg _ (List.filterMap_congr fun t _ => ?_)
      cases t <;> rfl

/-- What came before a call does not change it. -/
theorem Unasked.callsOf {w w₁ w' : World} {started started' : List Task}
    {actions actions' : List Action} (h : Unasked w w₁ started actions) :
    callsOf w w' (started ++ started') (actions ++ actions')
      = callsOf w₁ w' started' actions' := by
  unfold Proof.callsOf
  rw [joinedCalls_owed, List.filter_append, h.owed, List.nil_append, ← joinedCalls_owed,
    List.filterMap_append, h.calls, h.connected]
  rfl

theorem Unasked.called {w w' : World} {started : List Task} {actions : List Action}
    (h : Unasked w w' started actions) :
    Called w' (started.filter Task.isNetworkDone) (Proof.callsOf w w' started actions) := by
  have hcalls : Proof.callsOf w w' started actions = [] := by
    unfold Proof.callsOf
    rw [joinedCalls_owed, h.owed, h.calls, h.connected]
    cases w'.ctl.joinResponse <;> simp [joinedCalls]
  rw [h.owed, hcalls]
  exact .nothing

/-! ## One move -/

/-- No function of the client leaves this. -/
def noCall (a : Action) : Bool := (sendCall a).isNone

theorem calls_none {l : List Action} (h : l.all noCall = true) : l.filterMap sendCall = [] := by
  refine List.filterMap_eq_nil_iff.mpr fun a ha => ?_
  exact Option.isNone_iff_eq_none.mp (List.all_eq_true.mp h a ha)

theorem owed_none {started : List Task} (h : started.all (fun t => !t.isNetworkDone) = true) :
    started.filter Task.isNetworkDone = [] := by
  rw [List.filter_eq_nil_iff]
  intro t ht
  simpa using List.all_eq_true.mp h t ht

/-- The fields that `Grows` speaks of. -/
structure SameCall (w w' : World) : Prop where
  queue : w'.queue = w.queue
  joinResponse : w'.ctl.joinResponse = w.ctl.joinResponse
  ready : w'.ctl.negotiationReady = w.ctl.negotiationReady
  connected : w'.webSocketStarted = w.webSocketStarted

theorem SameCall.grows {w w' : World} {started : List Task} {actions : List Action}
    (h : SameCall w w') (hops : w'.ops = w.ops ++ started)
    (htrace : w'.trace = w.trace ++ actions) : Grows w w' started actions where
  queue := h.queue
  ops := hops
  trace := htrace
  joined _ hj := h.joinResponse.trans hj
  ready hr := h.ready.trans hr
  connected hw := h.connected.trans hw

/-- What a move does for the client. -/
def Moved (p' : Phase) (w w' : World) : Prop :=
  ∃ started actions, Grows w w' started actions
    ∧ (Unasked w w' started actions
      ∨ (p' = .idle ∧ Called w' (started.filter Task.isNetworkDone)
        (callsOf w w' started actions)))

theorem SameCall.moved {p' : Phase} {w w' : World} {started : List Task} {actions : List Action}
    (h : SameCall w w') (hops : w'.ops = w.ops ++ started)
    (htrace : w'.trace = w.trace ++ actions)
    (hs : started.all (fun t => !t.isNetworkDone) = true)
    (ha : actions.all noCall = true) : Moved p' w w' :=
  ⟨started, actions, h.grows hops htrace, Or.inl ⟨owed_none hs, calls_none ha, h.connected⟩⟩

/-- A move that only goes on. -/
theorem moved_still {p' : Phase} {w : World} : Moved p' w w :=
  SameCall.moved ⟨rfl, rfl, rfl, rfl⟩ (List.append_nil _).symm (List.append_nil _).symm rfl rfl

/-- A controller that has joined closes its client, and another has none. -/
theorem SameCall.closing {w w' : World} (front : List Action) {connection : Bool}
    {state : CallState} (h : SameCall w w') (hops : w'.ops = w.ops)
    (htrace : w'.trace = w.trace ++ (front ++ closingActions connection w.ctl.joinResponse state))
    (hfront : front.all noCall = true) : Moved .idle w w' := by
  have hcalls : (front ++ closingActions connection w.ctl.joinResponse state).filterMap sendCall
      = (leaveActions w.ctl.joinResponse).filterMap sendCall := by
    have hclose : (closeActions connection).all noCall = true := by cases connection <;> rfl
    unfold closingActions
    rw [List.filterMap_append, List.filterMap_append, List.filterMap_append, calls_none hfront,
      calls_none hclose, calls_none (all_stateActions rfl)]
    simp
  refine ⟨[], _, h.grows (by rw [hops, List.append_nil]) htrace, ?_⟩
  cases hj : w.ctl.joinResponse with
  | none =>
      left
      refine ⟨rfl, ?_, h.connected⟩
      rw [← hj, hcalls, hj]
      rfl
  | some jr =>
      right
      refine ⟨rfl, ?_⟩
      unfold callsOf
      rw [← hj, hcalls, h.joinResponse, h.connected, hj]
      cases w.webSocketStarted <;> exact .close

/-- A message is handed over at the end of its task. -/
theorem SameCall.sending {w w' : World} (actions : List Action) {kind : SendKind}
    {joinResponse : JoinResponse} {payload : Text} (h : SameCall w w')
    (hops : w'.ops = w.ops ++ [.sendComplete kind])
    (htrace : w'.trace
      = w.trace ++ (actions ++ [.send kind (routeOf env joinResponse) payload]))
    (ha : actions.all noCall = true) : Moved .idle w w' := by
  refine ⟨_, _, h.grows hops htrace, Or.inr ⟨rfl, ?_⟩⟩
  have hcalls : callsOf w w' [.sendComplete kind]
      (actions ++ [.send kind (routeOf env joinResponse) payload])
      = [Action.send kind (routeOf env joinResponse) payload].filterMap sendCall := by
    unfold callsOf
    rw [h.connected, List.filterMap_append, calls_none ha]
    cases w'.ctl.joinResponse <;> simp [joinedCalls, registerCall]
  rw [hcalls]
  unfold routeOf at htrace ⊢
  split
  · exact .sendToRoom
  · rename_i hroom
    rw [if_neg hroom] at htrace
    exact .sendWebSocketMessage (by rw [htrace]; simp)

theorem remoteStep_done {type : SignalingMessageType} {sdpType : SdpType} {task : PeerTask}
    (flag : Nat) (h : RemoteStep type sdpType task) :
    (Task.safe flag task).isNetworkDone = false := by
  cases h <;> rfl

/-- **Every move calls the client at most once, and ends its task where it does.** -/
theorem moved_move {p p' : Phase} {w w' : World} (hj : Joining p w)
    (hm : Move env p w p' w') : Moved p' w w' := by
  cases hm with
  | webSocketOpen hf hjoined =>
      obtain ⟨jr, hjr⟩ := Option.isSome_iff_exists.mp hjoined
      refine ⟨_, _, SameCall.grows ⟨rfl, rfl, rfl, rfl⟩ rfl rfl, Or.inr ⟨rfl, ?_⟩⟩
      have hcalls : callsOf w (grow w { w.ctl with state := .registering } w.peer
          [.registerComplete] (stateActions w.ctl.state .registering)) [.registerComplete]
          (stateActions w.ctl.state .registering) = [.register jr .registerComplete] := by
        unfold callsOf
        rw [calls_none (all_stateActions rfl)]
        simp [hjr, joinedCalls, registerCall, grow]
      rw [hcalls]
      exact .register hjr
  | setUpDone =>
      refine ⟨[], _, ⟨rfl, rfl, rfl, fun _ hjr => hjr, fun hr => hr, fun _ => rfl⟩,
        Or.inr ⟨rfl, ?_⟩⟩
      unfold callsOf
      rw [List.filterMap_cons_none rfl, calls_none (all_stateActions rfl), List.append_nil]
      cases hjr : w.ctl.joinResponse with
      | none => simpa [joinedCalls, hjr, poppedCtl] using Called.nothing
      | some jr =>
          cases hweb : w.webSocketStarted with
          | true => simpa [joinedCalls, hjr, poppedCtl] using Called.nothing
          | false => simpa [joinedCalls, hjr, poppedCtl] using Called.connect rfl
  | candidateSent =>
      exact SameCall.sending [] ⟨rfl, rfl, rfl, rfl⟩ rfl rfl rfl
  | @localSet _ description =>
      exact SameCall.sending [.localApplied description.type, .callback] ⟨rfl, rfl, rfl, rfl⟩
        rfl rfl rfl
  | @byeStarted _ status =>
      refine SameCall.sending (stopActions .localDurationReached status w.ctl.state)
        ⟨rfl, rfl, rfl, rfl⟩ rfl rfl ?_
      rw [stopActions, List.all_cons, all_stateActions rfl]
      rfl
  | @byeSent _ status =>
      exact SameCall.closing [.completeFinish .localDurationReached status] ⟨rfl, rfl, rfl, rfl⟩
        (List.append_nil _) rfl rfl
  | @ended _ reason status =>
      have htrace : (Proof.ended reason status w).trace = w.trace
          ++ ((stopActions reason status w.ctl.state ++ [.completeFinish reason status])
            ++ closingActions w.peer.connection w.ctl.joinResponse .stopping) := by
        rw [ended_trace, endedActions]
        simp
      refine SameCall.closing _ ⟨rfl, rfl, rfl, rfl⟩ (show w.ops ++ [] ++ [] = w.ops by simp)
        htrace ?_
      rw [stopActions, List.all_append, List.all_cons, all_stateActions rfl]
      rfl
  | joined hf =>
      refine ⟨[], [], ⟨rfl, rfl, rfl, fun jr hjr => ?_, fun hr => hr, fun hw => hw⟩,
        Or.inl ⟨rfl, rfl, rfl⟩⟩
      rw [hj.unjoined] at hjr
      cases hjr
  | registered =>
      exact ⟨_, _, ⟨rfl, rfl, rfl, fun _ hjr => hjr, fun _ => rfl, fun hw => hw⟩,
        Or.inl ⟨owed_none (all_statsStarted rfl _), rfl, rfl⟩⟩
  -- and the rest calls nothing
  | ignore | fail | setUpFailed | stopped | drained | already => exact moved_still
  | descriptionSent | descriptionUnsent | startupTimer | durationTimer | accepted | observed
  | chainFailed | factoryCreated | connectionCreated | setUpDeref | videoSourceCreated
  | candidateBuffered | byePopped | unknownPopped | localBegun =>
      exact SameCall.moved ⟨rfl, rfl, rfl, rfl⟩ rfl rfl rfl rfl
  | stats hs =>
      refine SameCall.moved ⟨rfl, rfl, rfl, rfl⟩ rfl rfl rfl ?_
      rcases hs with rfl | ⟨_, rfl⟩ <;> rfl
  | established =>
      refine SameCall.moved ⟨rfl, rfl, rfl, rfl⟩ rfl rfl rfl ?_
      rw [List.all_cons, all_stateActions rfl]
      rfl
  | remoteOfferSet | remoteAnswerSet | flushFailed =>
      refine SameCall.moved ⟨rfl, rfl, rfl, rfl⟩ rfl rfl rfl ?_
      rw [List.all_append, List.all_cons, all_passActions rfl fun _ => rfl]
      rfl
  | candidatePassed | candidateFailed =>
      refine SameCall.moved ⟨rfl, rfl, rfl, rfl⟩ rfl rfl rfl ?_
      rw [List.all_cons, all_passActions rfl fun _ => rfl]
      rfl
  | offerStarted =>
      refine SameCall.moved ⟨rfl, rfl, rfl, rfl⟩ rfl rfl rfl ?_
      rw [List.all_append, all_stateActions rfl]
      rfl
  | remoteUnparsed =>
      refine SameCall.moved ⟨rfl, rfl, rfl, rfl⟩ rfl rfl rfl ?_
      rw [List.all_append, List.all_cons, all_stateActions rfl]
      rfl
  | @remoteBegun _ _ _ _ task hp hq hm =>
      refine SameCall.moved ⟨rfl, rfl, rfl, rfl⟩ rfl rfl ?_ ?_
      · simp [remoteStep_done _ hm]
      · rw [List.all_append, List.all_cons, all_stateActions rfl]
        rfl

/-! ## One step -/

/-- A task calls the client where it ends. -/
theorem moved_path {p p' : Phase} {w w' : World} (hv : Visited env p w)
    (h : Moves env p w p' w') : Moved p' w w' := by
  refine (h.invariant (I := fun q v => Visited env q v ∧ Moved q w v) ?_
    ⟨hv, moved_still⟩).2
  rintro q v q' v' ⟨hv, started, actions, hgrows, hcalls⟩ hm
  refine ⟨hv.move hm, ?_⟩
  obtain ⟨started', actions', hgrows', hcalls'⟩ := moved_move (joining_visited hv) hm
  refine ⟨_, _, hgrows.trans hgrows', ?_⟩
  rcases hcalls with hun | ⟨rfl, _⟩
  · rcases hcalls' with hun' | ⟨hq, hcalled⟩
    · exact Or.inl (hun.trans hun')
    · refine Or.inr ⟨hq, ?_⟩
      rw [hun.callsOf, List.filter_append, hun.owed]
      exact hcalled
  · cases hm

/-- **What the run of a task asks.** -/
theorem run_asks {w w' : World} {r : Reply} (h : Reached env w)
    (hs : step env w (.run r) = some w') :
    ∃ t rest started actions, w.queue = t :: rest
      ∧ Grows { w with queue := rest } w' started actions
      ∧ Called w' (started.filter Task.isNetworkDone) (clientCalls w w') := by
  have hv := reached_visited h
  obtain ⟨p, w₁, he, hm⟩ := step_cuts (base_visited hv) hs
  have hv₁ := hv.enter he
  cases he with
  | @run t rest _ hq =>
      obtain ⟨started, actions, hgrows, hcalls⟩ := moved_path hv₁ hm
      refine ⟨t, rest, started, actions, hq, hgrows, ?_⟩
      have hclient : clientCalls w w' = callsOf { w with queue := rest } w' started actions :=
        clientCalls_eq hgrows.ops hgrows.trace
      rw [hclient]
      rcases hcalls with hun | ⟨_, hcalled⟩
      · exact hun.called
      · exact hcalled

/-- Only a task calls the client. -/
theorem clientCalls_idle {w w' : World} {l : Label} (h : Reached env w)
    (hs : step env w l = some w') (hl : ∀ r, l ≠ .run r) : clientCalls w w' = [] := by
  have hb := base_visited (reached_visited h)
  cases l with
  | post i =>
      obtain ⟨t, _, rfl⟩ := post_eq hb hs
      have hops : (w.ops.eraseIdx i).drop w.ops.length = [] :=
        List.drop_eq_nil_of_le (List.length_eraseIdx_le ..)
      cases hj : w.ctl.joinResponse <;> simp [clientCalls, joinedCalls, hops, hj]
  | event t =>
      obtain ⟨_, rfl⟩ := event_eq hb hs
      cases hj : w.ctl.joinResponse <;> simp [clientCalls, joinedCalls, hj]
  | destroy =>
      obtain ⟨_, rfl⟩ := destroy_eq hb hs
      have hclose : (closeActions w.peer.connection).filterMap sendCall = [] := by
        cases w.peer.connection <;> rfl
      cases hj : w.ctl.joinResponse <;> simp [clientCalls, joinedCalls, hclose, hj, grow]
  | run r => exact absurd rfl (hl r)

/-- **A step calls the client at most once.** -/
theorem clientCalls_most {w w' : World} {l : Label} (h : Reached env w)
    (hs : step env w l = some w') : (clientCalls w w').length ≤ 1 := by
  by_cases hl : ∃ r, l = .run r
  · obtain ⟨r, rfl⟩ := hl
    obtain ⟨_, _, started, _, _, _, hcalled⟩ := run_asks h hs
    generalize started.filter Task.isNetworkDone = owed at hcalled
    generalize clientCalls w w' = calls at hcalled ⊢
    cases hcalled <;> simp
  · rw [clientCalls_idle h hs fun r hr => hl ⟨r, hr⟩]
    exact Nat.zero_le _

/-! ## Who makes the controller ready -/

theorem ready_move {p p' : Phase} {w w' : World} (hm : Move env p w p' w')
    (hp : ∀ r, p ≠ .run .registerComplete r) :
    w'.ctl.negotiationReady = w.ctl.negotiationReady
      ∧ ∀ r, p' ≠ .run .registerComplete r := by
  cases hm with
  | registered => exact absurd rfl (hp _)
  | observed | established => exact ⟨rfl, hp⟩
  | _ => exact ⟨rfl, by simp⟩

theorem ready_moves {p p' : Phase} {w w' : World} (hm : Moves env p w p' w')
    (hp : ∀ r, p ≠ .run .registerComplete r) :
    w'.ctl.negotiationReady = w.ctl.negotiationReady := by
  refine (hm.invariant (I := fun q v => v.ctl.negotiationReady = w.ctl.negotiationReady
    ∧ ∀ r, q ≠ .run .registerComplete r) ?_ ⟨rfl, hp⟩).1
  rintro q v q' v' ⟨hready, hq⟩ hm
  obtain ⟨hsame, hq'⟩ := ready_move hm hq
  exact ⟨hsame.trans hready, hq'⟩

/-- **The controller is ready once a registration it waited for succeeded.** -/
theorem ready_run {w w' : World} {r : Reply} (h : Reached env w)
    (hs : step env w (.run r) = some w') (hno : w.ctl.negotiationReady = false)
    (hyes : w'.ctl.negotiationReady = true) :
    w.queue.head? = some .registerComplete ∧ r = .status okStatus := by
  obtain ⟨p, w₁, he, hm⟩ := step_cuts (base_visited (reached_visited h)) hs
  cases he with
  | @run t rest _ hq =>
      by_cases ht : t = .registerComplete
      · subst ht
        refine ⟨by rw [hq]; rfl, ?_⟩
        obtain ⟨t', rest', hq', hrun⟩ := run_eq hs
        rw [hq] at hq'
        cases hq'
        cases r with
        | status status =>
            cases status with
            | ok u => rfl
            | error e =>
                injection hrun with hrun
                rw [← hrun] at hyes
                unfold onRegisterComplete at hyes
                split at hyes
                · rw [hno] at hyes
                  cases hyes
                · -- a call that ends does not become ready
                  have hfinish : Moves env _ { w with queue := rest } _ _ :=
                    finish_moves .signalingError (.error e) { w with queue := rest }
                  have hsame := ready_moves hfinish (by simp)
                  rw [hsame, hno] at hyes
                  cases hyes
        | _ => cases hrun
      · have hsame := ready_moves hm (by simpa using ht)
        rw [hsame, hno] at hyes
        cases hyes

end ApprtcCli.Proof
