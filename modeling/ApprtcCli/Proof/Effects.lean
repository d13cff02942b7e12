import ApprtcCli.Call.System

/-!
# What the functions do

The handlers of the controller and the client, each followed to its ends once.
A straight-line function gets its result as one record update (`close_eq`,
`completeFinish_eq`, `sendMessage_eq`); a function that branches gets the list of
its ways out (`finish_cases`, `flush_cases`). Nothing later unfolds them.
-/

namespace ApprtcCli.Proof

open Lib Call

variable {env : Env}

/-- What most of the code does: assign fields, start operations, leave a history. -/
def grow (w : World) (ctl : CallController) (peer : PeerConnectionClient) (started : List Task)
    (actions : List Action) : World :=
  { w with ctl := ctl, peer := peer, ops := w.ops ++ started, trace := w.trace ++ actions }

section grow

variable (w : World) (ctl : CallController) (peer : PeerConnectionClient) (started : List Task)
  (actions : List Action)

@[simp] theorem grow_ctl : (grow w ctl peer started actions).ctl = ctl := rfl
@[simp] theorem grow_peer : (grow w ctl peer started actions).peer = peer := rfl
@[simp] theorem grow_queue : (grow w ctl peer started actions).queue = w.queue := rfl
@[simp] theorem grow_ops : (grow w ctl peer started actions).ops = w.ops ++ started := rfl
@[simp] theorem grow_trace : (grow w ctl peer started actions).trace = w.trace ++ actions := rfl
@[simp] theorem grow_pending :
    (grow w ctl peer started actions).pending = w.pending ++ started := by
  simp [World.pending]

end grow

/-! ## Cut knots -/

/-- A state reported to a finished controller changes what the client remembers and no more. -/
theorem observeClosing_finished {f : TerminalReason → Status → World → World}
    {state : PeerConnectionState} {w : World} (h : w.ctl.finished = true) :
    observeClosing f state w = { w with peer.connected := state == .connected } := by
  have hsame : (if w.peer.connected ≠ (state == .connected) then
      onPeerConnectionChanged (state == .connected)
        { w with peer.connected := state == .connected } else w)
      = { w with peer.connected := state == .connected } := by
    by_cases hc : w.peer.connected = (state == .connected)
    · rw [if_neg (by simpa using hc), ← hc]
    · rw [if_pos hc, onPeerConnectionChanged, if_pos h]
  unfold observeClosing onConnectionChange
  dsimp only
  rw [hsame]
  split
  · rw [onPeerConnectionError, if_pos h]
  · rfl

/-- The pump given to an answer that does not parse is never called. -/
theorem setRemoteAnswer_cut (m : SignalingMessage) (w : World) :
    setRemoteAnswer env (onAnswerSet env id) m w
      = setRemoteAnswer env (onAnswerSet env (pumpSignalingMessages env)) m w := by
  unfold setRemoteAnswer
  cases env.createSessionDescription .answer m.sdp <;> rfl

/-! ## What the straight-line functions do -/

/-- What `SetState` leaves in the history. -/
def stateActions (before after : CallState) : List Action :=
  if before = after then [] else [.state after]

theorem mem_stateActions {before after : CallState} {a : Action}
    (h : a ∈ stateActions before after) : a = .state after := by
  unfold stateActions at h
  split at h
  · exact absurd h (by simp)
  · simpa using h

/-- A property of single actions holds of what `SetState` leaves if it holds of a state change. -/
theorem all_stateActions {f : Action → Bool} {before after : CallState}
    (h : f (.state after) = true) : (stateActions before after).all f = true :=
  List.all_eq_true.mpr fun a ha => by rw [mem_stateActions ha]; exact h

theorem setState_eq (state : CallState) (w : World) :
    setState state w =
      { w with ctl.state := state, trace := w.trace ++ stateActions w.ctl.state state } := by
  unfold setState stateActions
  by_cases h : w.ctl.state = state
  · rw [if_pos h, if_pos h, ← h, List.append_nil]
  · rw [if_neg h, if_neg h]; rfl

/-- The client after `Close`. -/
def closedPeer (p : PeerConnectionClient) : PeerConnectionClient :=
  { p with
    safety := p.safety + 1
    factory := false
    connection := false
    videoSource := false
    remoteFrameSink := false
    connected := false
    remoteMediaSeen := false
    remoteDescriptionSet := false
    pendingRemoteCandidates := [] }

/-- What `Close` leaves in the history. -/
def closeActions (connection : Bool) : List Action :=
  (if connection then [.deref .connection true, .cleared .connection] else [])
    ++ [.cleared .factory, .closed]

theorem observe_all {f : TerminalReason → Status → World → World} :
    ∀ (states : List PeerConnectionState) (w : World), w.ctl.finished = true →
      ∃ b, states.foldl (fun w state => observeClosing f state w) w
        = { w with peer.connected := b } := by
  intro states
  induction states with
  | nil => intro w _; exact ⟨w.peer.connected, rfl⟩
  | cons state states ih =>
      intro w h
      rw [List.foldl_cons, observeClosing_finished h]
      obtain ⟨b, hb⟩ := ih { w with peer.connected := state == .connected } h
      exact ⟨b, hb⟩

/-- **`Close`, run by a finished controller.** -/
theorem close_eq {f : TerminalReason → Status → World → World} {w : World}
    (h : w.ctl.finished = true) :
    close env (observeClosing f) w =
      { w with
        peer := closedPeer w.peer
        trace := w.trace ++ closeActions w.peer.connection } := by
  unfold close closeConnection closeActions
  cases hc : w.peer.connection with
  | false =>
      rw [if_neg (by simp [resetSafety, hc])]
      simp [clearClient, resetSafety, closedPeer, World.act, hc]
  | true =>
      obtain ⟨b, hb⟩ := observe_all (f := f) env.closeEvents
        ((resetSafety w).deref .connection) h
      rw [if_pos (by simp [resetSafety, hc])]
      dsimp only
      rw [hb]
      simp [clearClient, resetSafety, closedPeer, World.act, World.deref,
        PeerConnectionClient.live, hc]

/-- `Close` does not finish a call that is already finished. -/
theorem close_cut {w : World} (h : w.ctl.finished = true) :
    close env (observeClosing fun _ _ w => w) w = close env (observeClosing (finish env)) w := by
  rw [close_eq h, close_eq h]

/-- `CloseAsync`, by a controller that has joined. -/
def leaveActions : Option JoinResponse → List Action
  | none => []
  | some joinResponse => [.closeAsync joinResponse]

/-- What follows the first action of `CompleteFinish` in the history. -/
def closingActions (connection : Bool) (joinResponse : Option JoinResponse)
    (state : CallState) : List Action :=
  closeActions connection ++ (leaveActions joinResponse ++ stateActions state .finished)

/-- A property of single actions that does not tell apart the ways a call can be wound up. -/
structure Routine (f : Action → Bool) : Prop where
  state : ∀ state, f (.state state) = true
  deref : f (.deref .connection true) = true
  cleared : ∀ pointer, f (.cleared pointer) = true
  closed : f .closed = true
  closeAsync : ∀ joinResponse, f (.closeAsync joinResponse) = true

theorem Routine.states {f : Action → Bool} (h : Routine f) {before after : CallState} :
    (stateActions before after).all f = true :=
  all_stateActions (h.state after)

theorem Routine.close {f : Action → Bool} (h : Routine f) {connection : Bool} :
    (closeActions connection).all f = true := by
  cases connection <;> simp [closeActions, h.deref, h.cleared, h.closed]

theorem Routine.closing {f : Action → Bool} (h : Routine f) {connection : Bool}
    {joinResponse : Option JoinResponse} {state : CallState} :
    (closingActions connection joinResponse state).all f = true := by
  cases joinResponse <;>
    simp [closingActions, leaveActions, h.close, h.closeAsync, h.states]

/-- The world once the call is over. -/
def completed (reason : TerminalReason) (status : Status) (w : World) : World :=
  { grow w { w.ctl with exitCode := (exitCodeForReason reason).toInt, state := .finished }
      (closedPeer w.peer) []
      (.completeFinish reason status
        :: closingActions w.peer.connection w.ctl.joinResponse w.ctl.state)
    with quit := true }

@[simp] theorem completed_pending (reason : TerminalReason) (status : Status) (w : World) :
    (completed reason status w).pending = w.pending := by
  simp [completed, World.pending]

/-- **`CompleteFinish`.** -/
theorem completeFinish_eq {reason : TerminalReason} {status : Status} {w : World}
    (h : w.ctl.finished = true) :
    completeFinish env reason status w = completed reason status w := by
  unfold completeFinish completed closingActions
  dsimp only
  rw [close_eq (by exact h), setState_eq]
  cases hj : w.ctl.joinResponse <;> simp [World.act, hj, grow, leaveActions]

/-- The route of every message of a controller that joined with this response. -/
def routeOf (env : Env) (joinResponse : JoinResponse) : Route :=
  if joinResponse.isInitiator then
    .room env.config.roomServerUrl joinResponse.roomId joinResponse.clientId
  else .webSocket

/-- **Sending**, by either route. -/
theorem sendMessage_eq (kind : SendKind) (joinResponse : JoinResponse) (payload : Text)
    (w : World) :
    sendMessage env kind joinResponse payload w =
      (w.act (.send kind (routeOf env joinResponse) payload)).start (.sendComplete kind) := by
  unfold sendMessage routeOf
  split <;> rfl

/-- The controller between the guard of `Finish` and its choice of how to go on. -/
def stoppedCtl (c : CallController) : CallController :=
  { c with
    finished := true
    state := .stopping
    startupTimeoutGeneration := c.startupTimeoutGeneration + 1
    callDurationGeneration := c.callDurationGeneration + 1
    statsRunning := false }

/-- What `Finish` leaves in the history before that choice. -/
def stopActions (reason : TerminalReason) (status : Status) (state : CallState) : List Action :=
  .finish reason status :: stateActions state .stopping

/-- After a `Finish` that waits for its bye. -/
def byeSent (env : Env) (joinResponse : JoinResponse) (status : Status) (w : World) : World :=
  grow w (stoppedCtl w.ctl) w.peer [.sendComplete (.bye status)]
    (stopActions .localDurationReached status w.ctl.state
      ++ [.send (.bye status) (routeOf env joinResponse) buildByeMessage])

/-- After a `Finish` that closes at once. -/
def ended (reason : TerminalReason) (status : Status) (w : World) : World :=
  completed reason status
    (grow w (stoppedCtl w.ctl) w.peer [] (stopActions reason status w.ctl.state))

/-- What a `Finish` that closes at once leaves in the history. -/
def endedActions (reason : TerminalReason) (status : Status) (connection : Bool)
    (joinResponse : Option JoinResponse) (state : CallState) : List Action :=
  stopActions reason status state
    ++ .completeFinish reason status :: closingActions connection joinResponse .stopping

theorem ended_trace (reason : TerminalReason) (status : Status) (w : World) :
    (ended reason status w).trace = w.trace
      ++ endedActions reason status w.peer.connection w.ctl.joinResponse w.ctl.state := by
  simp [ended, completed, stoppedCtl, endedActions]

theorem Routine.ended {f : Action → Bool} (h : Routine f) {reason : TerminalReason}
    {status : Status} {connection : Bool} {joinResponse : Option JoinResponse}
    {state : CallState} (hf : f (.finish reason status) = true)
    (hc : f (.completeFinish reason status) = true) :
    (endedActions reason status connection joinResponse state).all f = true := by
  rw [endedActions, stopActions, List.all_append, List.all_cons, List.all_cons, hf, hc,
    h.states, h.closing]
  rfl

theorem byeSent_trace (env : Env) (joinResponse : JoinResponse) (status : Status) (w : World) :
    (byeSent env joinResponse status w).trace
      = w.trace ++ stopActions .localDurationReached status w.ctl.state
        ++ [.send (.bye status) (routeOf env joinResponse) buildByeMessage] := by
  simp [byeSent]

@[simp] theorem byeSent_pending (joinResponse : JoinResponse) (status : Status) (w : World) :
    (byeSent env joinResponse status w).pending = w.pending ++ [.sendComplete (.bye status)] := by
  simp [byeSent]

@[simp] theorem ended_pending (reason : TerminalReason) (status : Status) (w : World) :
    (ended reason status w).pending = w.pending := by
  simp [ended]

theorem finish_finished {reason : TerminalReason} {status : Status} {w : World}
    (h : w.ctl.finished = true) : finish env reason status w = w := by
  unfold finish; rw [if_pos h]

/-- **The two ways `Finish` can go.** -/
theorem finish_cases (env : Env) (reason : TerminalReason) (status : Status) {w : World}
    (h : w.ctl.finished = false) :
    (∃ joinResponse, reason = .localDurationReached ∧ w.ctl.joinResponse = some joinResponse
        ∧ finish env reason status w = byeSent env joinResponse status w)
      ∨ ((reason ≠ .localDurationReached ∨ w.ctl.joinResponse = none)
        ∧ finish env reason status w = ended reason status w) := by
  have hstop : stopStatsTimer (cancelCallDurationTimer (cancelStartupTimeout
      (setState .stopping ({ w with ctl.finished := true }.act (.finish reason status)))))
      = grow w (stoppedCtl w.ctl) w.peer [] (stopActions reason status w.ctl.state) := by
    rw [setState_eq]
    unfold stopStatsTimer cancelCallDurationTimer cancelStartupTimeout stoppedCtl stopActions grow
    dsimp only
    split
    · simp [World.act]
    · rename_i hs
      have hs : w.ctl.statsRunning = false := by simpa using hs
      simp [World.act, hs]
  unfold finish
  dsimp only
  rw [if_neg (by rw [h]; simp), hstop]
  by_cases hc : reason = .localDurationReached ∧ w.ctl.joinResponse.isSome
  · obtain ⟨hr, hj⟩ := hc
    obtain ⟨joinResponse, hj⟩ := Option.isSome_iff_exists.mp hj
    subst hr
    refine Or.inl ⟨joinResponse, rfl, hj, ?_⟩
    rw [if_pos ⟨rfl, by simp [stoppedCtl, hj]⟩]
    unfold sendByeAndFinish
    simp only [grow_ctl, stoppedCtl, hj]
    rw [sendMessage_eq]
    simp [byeSent, World.act, World.start, stoppedCtl, grow, hj]
  · refine Or.inr ⟨?_, ?_⟩
    · by_cases hr : reason = .localDurationReached
      · exact Or.inr (by simpa [hr] using hc)
      · exact Or.inl hr
    · rw [if_neg (by exact hc), completeFinish_eq rfl]
      rfl

/-! ## Candidates -/

/-- A candidate handed to `AddIceCandidate`. -/
def passed (m : SignalingMessage) (w : World) : World :=
  (w.deref .connection).act (.addIceCandidate m)

/-- **What passing one candidate can do.** -/
theorem passCandidate_cases {failure : Text} {m : SignalingMessage} {w w' : World} {r : Status}
    (h : passCandidate env failure m w = (r, w')) :
    (w' = passed m w) ∨ (w' = w ∧ ∃ e, r = .error e) := by
  unfold passCandidate at h
  split at h
  · injection h with h1 h2
    exact Or.inr ⟨h2.symm, _, h1.symm⟩
  · dsimp only at h
    split at h <;> (injection h with _ h2; exact Or.inl h2.symm)

/-- Several candidates handed to `AddIceCandidate`, in order. -/
def passedAll (ms : List SignalingMessage) (w : World) : World := ms.foldl (fun w m => passed m w) w

/-- What that leaves in the history. -/
def passActions (live : Bool) (ms : List SignalingMessage) : List Action :=
  ms.flatMap fun m => [.deref .connection live, .addIceCandidate m]

theorem passActions_cons (live : Bool) (m : SignalingMessage) (ms : List SignalingMessage) :
    passActions live (m :: ms)
      = [.deref .connection live, .addIceCandidate m] ++ passActions live ms := rfl

theorem all_passActions {f : Action → Bool} {live : Bool} {ms : List SignalingMessage}
    (hd : f (.deref .connection live) = true) (ha : ∀ m, f (.addIceCandidate m) = true) :
    (passActions live ms).all f = true := by
  simp [passActions, List.all_flatMap, hd, ha]

theorem passedAll_eq (ms : List SignalingMessage) (w : World) :
    passedAll ms w = { w with trace := w.trace ++ passActions w.peer.connection ms } := by
  induction ms generalizing w with
  | nil => simp [passedAll, passActions]
  | cons m ms ih =>
      have h : passedAll (m :: ms) w = passedAll ms (passed m w) := rfl
      rw [h, ih]
      simp [passed, passActions, World.act, World.deref, PeerConnectionClient.live]

/-- The buffer handed over and emptied. -/
def flushed (w : World) : World :=
  { passedAll w.peer.pendingRemoteCandidates w with peer.pendingRemoteCandidates := [] }

/-- The loop of the flush passes candidates in order, all of them where it succeeds. -/
theorem flushCandidates_cases :
    ∀ (ms : List SignalingMessage) (w : World) {r : Status} {w' : World},
      flushCandidates env ms w = (r, w') →
      ∃ front, front <+: ms ∧ w' = passedAll front w ∧ (r = .ok () → front = ms) := by
  intro ms
  induction ms with
  | nil =>
      intro w r w' h
      injection h with _ h2
      exact ⟨[], List.prefix_refl _, h2.symm, fun _ => rfl⟩
  | cons m rest ih =>
      intro w r w' h
      rw [flushCandidates] at h
      split at h
      · rename_i e w₁ hp
        injection h with h1 h2
        subst h1; subst h2
        rcases passCandidate_cases hp with rfl | ⟨rfl, _⟩
        · exact ⟨[m], ⟨rest, rfl⟩, rfl, fun hc => absurd hc (by simp)⟩
        · exact ⟨[], List.nil_prefix, rfl, fun hc => absurd hc (by simp)⟩
      · rename_i w₁ hp
        have hw : w₁ = passed m w := by
          rcases passCandidate_cases hp with hw | ⟨_, e, he⟩
          · exact hw
          · exact absurd he (by simp)
        subst hw
        obtain ⟨front, ⟨tail, ht⟩, hw', hall⟩ := ih _ h
        exact ⟨m :: front, ⟨tail, by rw [← ht]; rfl⟩, hw', fun hr => by rw [hall hr]⟩

/-- **What a flush can do**: it empties the buffer, or fails part of the way through it. -/
theorem flush_cases {w w' : World} {r : Status}
    (h : flushPendingRemoteCandidates env w = (r, w')) :
    (r = .ok () ∧ w' = flushed w)
      ∨ ∃ e front, r = .error e ∧ front <+: w.peer.pendingRemoteCandidates
        ∧ w' = passedAll front w := by
  unfold flushPendingRemoteCandidates at h
  split at h
  · rename_i hn
    injection h with h1 h2
    have hn : w.peer.pendingRemoteCandidates = [] := by simpa using hn
    have hsame : ({ w with peer.pendingRemoteCandidates := [] } : World) = w := by rw [← hn]
    refine Or.inl ⟨h1.symm, ?_⟩
    rw [← h2, flushed, hn]
    exact hsame.symm
  · split at h
    · rename_i e w₁ hf
      injection h with h1 h2
      subst h1; subst h2
      obtain ⟨front, hpre, hw, _⟩ := flushCandidates_cases _ _ hf
      exact Or.inr ⟨e, front, rfl, hpre, hw⟩
    · rename_i w₁ hf
      injection h with h1 h2
      obtain ⟨front, _, hw, hall⟩ := flushCandidates_cases _ _ hf
      rw [hall rfl] at hw
      exact Or.inl ⟨h1.symm, by rw [← h2, hw]; rfl⟩

/-! ## Being established -/

/-- The world once `call_established_` is set. -/
def establishedNow (w : World) : World :=
  grow w
    { w.ctl with
      callEstablished := true
      startupTimeoutGeneration := w.ctl.startupTimeoutGeneration + 1
      state := .connected
      callDurationGeneration := w.ctl.callDurationGeneration + 1 }
    w.peer [.callDuration (w.ctl.callDurationGeneration + 1)]
    (.established :: stateActions w.ctl.state .connected)

@[simp] theorem establishedNow_pending (w : World) :
    (establishedNow w).pending
      = w.pending ++ [.callDuration (w.ctl.callDurationGeneration + 1)] := by
  simp [establishedNow]

theorem maybeMarkCallEstablished_cases (w : World) :
    maybeMarkCallEstablished w = w
      ∨ (w.ctl.callEstablished = false ∧ maybeMarkCallEstablished w = establishedNow w) := by
  unfold maybeMarkCallEstablished
  split
  · exact Or.inl rfl
  · rename_i hc
    have he : w.ctl.callEstablished = false := by
      cases h : w.ctl.callEstablished <;> simp [h] at hc ⊢
    refine Or.inr ⟨he, ?_⟩
    dsimp only
    rw [setState_eq]
    simp [establishedNow, grow, cancelStartupTimeout, scheduleCallDurationTimer, World.act,
      World.start]

end ApprtcCli.Proof
