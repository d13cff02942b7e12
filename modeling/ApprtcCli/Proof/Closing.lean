import ApprtcCli.Signaling.Network

/-!
# Whose Close it was

`closing_` is meant to tell the Close of the client's own `stop` from a Close of the
other side. It is set and cleared at the start of a task and read when an event is
handled, so what it tells is which task of the network thread came last. The two
agree as long as `ConnectWebSocketAsync` finds no connection open and nothing is lost
between the start of `CloseAsync` and its `stop`.
-/

namespace ApprtcCli.Proof

open Lib Network

variable {κ : Type} {J : JsonCpp}

/-- The error a foreign Close is reported as. -/
def websocketClosed : SignalingEvent := .error ⟨.internal, "websocket closed"⟩

/-- No Close of our own was reported, and every other was. -/
def ClosesJudged (log : List SocketAction) : Prop :=
  ∀ own posted, .handled .close own posted ∈ log → posted = if own then [] else [websocketClosed]

/--
The step misjudges a Close: `ConnectWebSocketAsync` stops an open connection, or a Close
that was not our own is handled after `CloseAsync` began.
-/
def misjudges (n : Network κ) : NetworkLabel κ → Bool
  | .run _ =>
      match n.stage with
      | some .stopToConnect => n.socket.up
      | some .stopToClose => .close ∈ n.socket.events
      | _ => false
  | .handle => n.client.closing && n.socket.events.head? = some .close
  | _ => false

/-- What the running task has said of the Close to come. -/
structure Announced (n : Network κ) : Prop where
  reports : n.client.onError = true
  connecting : n.stage = some .stopToConnect → n.client.closing = false
  closing : n.stage = some .stopToClose → n.client.closing = true

/-! ## Handling one event -/

/-- The handler touches one flag, and posts. -/
structure SameClient (c c' : AppRtcSignalingClient) : Prop where
  closing : c'.closing = c.closing
  onError : c'.onError = c.onError
  onWebSocketOpen : c'.onWebSocketOpen = c.onWebSocketOpen
  onSignalingMessage : c'.onSignalingMessage = c.onSignalingMessage

theorem sameClient_post (c : AppRtcSignalingClient) (task : SignalingEvent) :
    SameClient c (c.postToCallbackThread task) :=
  ⟨rfl, rfl, rfl, rfl⟩

theorem sameClient_notify (c : AppRtcSignalingClient) (e : Error) :
    SameClient c (c.notifyError e) := by
  unfold AppRtcSignalingClient.notifyError
  split
  · exact sameClient_post c _
  · exact ⟨rfl, rfl, rfl, rfl⟩

theorem sameClient_payload {c c' : AppRtcSignalingClient} {payload : Text}
    (h : c.onPayload J payload = some c') : SameClient c c' := by
  obtain ⟨message, _, h⟩ := Option.bind_eq_some_iff.mp h
  cases message with
  | error e =>
      cases h
      exact sameClient_notify c e
  | ok m =>
      dsimp only at h
      split at h
      · cases h
        exact sameClient_post c _
      · cases h
        exact ⟨rfl, rfl, rfl, rfl⟩

theorem sameClient_frame {c c' : AppRtcSignalingClient} {str : Text}
    (h : c.onFrame J str = some c') : SameClient c c' := by
  unfold AppRtcSignalingClient.onFrame at h
  split at h
  · cases h
    exact sameClient_notify c _
  · obtain ⟨error, _, h⟩ := Option.bind_eq_some_iff.mp h
    split at h
    · obtain ⟨text, _, h⟩ := Option.bind_eq_some_iff.mp h
      cases h
      exact sameClient_notify c _
    · obtain ⟨payload, _, h⟩ := Option.bind_eq_some_iff.mp h
      exact sameClient_payload h

theorem sameClient_message {c c' : AppRtcSignalingClient} {event : WebSocketMessage}
    (h : c.onWebSocketMessage J event = some c') : SameClient c c' := by
  cases event with
  | «open» =>
      cases h
      dsimp only
      split <;> exact ⟨rfl, rfl, rfl, rfl⟩
  | close =>
      cases h
      dsimp only
      split
      · exact ⟨rfl, rfl, rfl, rfl⟩
      · unfold AppRtcSignalingClient.notifyError
        split <;> exact ⟨rfl, rfl, rfl, rfl⟩
  | error reason =>
      cases h
      unfold AppRtcSignalingClient.notifyError
      dsimp only
      split <;> exact ⟨rfl, rfl, rfl, rfl⟩
  | message str => exact sameClient_frame h
  | other =>
      cases h
      exact ⟨rfl, rfl, rfl, rfl⟩

/-- What handling an event leaves: the socket and the network thread are as they were. -/
structure Handled (n n' : Network κ) : Prop where
  client : SameClient n.client n'.client
  tasks : n'.tasks = n.tasks
  stage : n'.stage = n.stage
  socket : n'.socket = n.socket

/-- **Handling an event**: a Close is reported exactly where `closing_` is not set. -/
theorem handle_spec {event : WebSocketMessage} {own : Bool} {n n' : Network κ}
    (h : handle J event own n = some n') :
    Handled n n' ∧ ∃ posted, n'.log = n.log ++ [.handled event own posted]
      ∧ n'.outbox = n.outbox ++ posted.map .event
      ∧ (event = .close → n.client.onError = true →
        posted = if n.client.closing then [] else [websocketClosed]) := by
  obtain ⟨client, hclient, h⟩ := Option.bind_eq_some_iff.mp h
  cases h
  have hsame := sameClient_message hclient
  refine ⟨⟨⟨hsame.closing, hsame.onError, hsame.onWebSocketOpen, hsame.onSignalingMessage⟩,
    rfl, rfl, rfl⟩, client.posted, rfl, rfl, ?_⟩
  rintro rfl he
  cases hclient
  dsimp only
  split
  · rfl
  · rw [notifyError_of_set (by exact he)]
    rfl

theorem Handled.refl (n : Network κ) : Handled n n :=
  ⟨⟨rfl, rfl, rfl, rfl⟩, rfl, rfl, rfl⟩

theorem Handled.trans {n n' n'' : Network κ} (h : Handled n n') (h' : Handled n' n'') :
    Handled n n'' where
  client := ⟨h'.client.closing.trans h.client.closing, h'.client.onError.trans h.client.onError,
    h'.client.onWebSocketOpen.trans h.client.onWebSocketOpen,
    h'.client.onSignalingMessage.trans h.client.onSignalingMessage⟩
  tasks := h'.tasks.trans h.tasks
  stage := h'.stage.trans h.stage
  socket := h'.socket.trans h.socket

/-- A handled event breaks the law exactly where it is a Close and the flag is wrong. -/
theorem judged_handle {event : WebSocketMessage} {own : Bool} {n n' : Network κ}
    (he : n.client.onError = true) (h : handle J event own n = some n') :
    ClosesJudged n'.log ↔ ClosesJudged n.log ∧ (event = .close → own = n.client.closing) := by
  obtain ⟨_, posted, hlog, _, hposted⟩ := handle_spec h
  unfold ClosesJudged
  rw [hlog]
  constructor
  · intro hall
    refine ⟨fun own posted hmem => hall own posted (List.mem_append_left _ hmem), ?_⟩
    rintro rfl
    have hjudged := hall own posted (List.mem_append_right _ (List.mem_singleton_self _))
    rw [hposted rfl he] at hjudged
    generalize n.client.closing = closing at hjudged ⊢
    cases own <;> cases closing <;> simp at hjudged ⊢
  · intro ⟨hall, hown⟩ own' posted' hmem
    rcases List.mem_append.mp hmem with hmem | hmem
    · exact hall own' posted' hmem
    · cases List.mem_singleton.mp hmem
      rw [hposted rfl he, hown rfl]

theorem handleAll_spec {events : List WebSocketMessage} {n n' : Network κ}
    (he : n.client.onError = true) (h : handleAll J events n = some n') :
    Handled n n' ∧ (ClosesJudged n'.log
      ↔ ClosesJudged n.log ∧ (.close ∈ events → n.client.closing = false)) := by
  induction events generalizing n with
  | nil =>
      cases h
      exact ⟨Handled.refl _, by simp⟩
  | cons event events ih =>
      obtain ⟨n₁, hfirst, hrest⟩ := Option.bind_eq_some_iff.mp h
      have hhandled := (handle_spec hfirst).1
      have hone := judged_handle he hfirst
      obtain ⟨hall, hiff⟩ := ih (hhandled.client.onError.trans he) hrest
      refine ⟨hhandled.trans hall, ?_⟩
      rw [hiff, hone, hhandled.client.closing, List.mem_cons, and_assoc]
      refine and_congr_right fun _ => ?_
      constructor
      · rintro ⟨hfirst, hlater⟩ (hc | hc)
        · exact (hfirst hc.symm).symm
        · exact hlater hc
      · intro hc
        exact ⟨fun hevent => (hc (Or.inl hevent.symm)).symm, fun hlater => hc (Or.inr hlater)⟩

/-! ## Stopping the socket -/

/--
**`stop`**: the Close of an open connection is judged by the flag, as our own, and so is
every Close that waited, as the other side's.
-/
theorem stop_spec {n n' : Network κ} (he : n.client.onError = true) (h : stop J n = some n') :
    SameClient n.client n'.client ∧ n'.stage = n.stage ∧ n'.tasks = n.tasks
      ∧ (ClosesJudged n'.log ↔ ClosesJudged n.log
        ∧ (.close ∈ n.socket.events → n.client.closing = false)
        ∧ (n.socket.up = true → n.client.closing = true)) := by
  obtain ⟨n₁, hall, h⟩ := Option.bind_eq_some_iff.mp h
  have he₁ : ({ n with socket := { n.socket with started := false, up := false, events := [] } } :
      Network κ).client.onError = true := he
  obtain ⟨hhandled, hiff⟩ := handleAll_spec he₁ hall
  by_cases hup : n.socket.up = true
  · rw [if_pos hup] at h
    have hlast := (handle_spec h).1
    have hone := judged_handle (hhandled.client.onError.trans he) h
    refine ⟨(hhandled.trans hlast).client, (hhandled.trans hlast).stage,
      (hhandled.trans hlast).tasks, ?_⟩
    have hclosing : n₁.client.closing = n.client.closing := hhandled.client.closing
    rw [hone, hiff, hclosing, and_assoc]
    refine and_congr_right fun _ => and_congr_right fun _ => ?_
    constructor
    · intro hown _
      exact (hown rfl).symm
    · intro hc _
      exact (hc hup).symm
  · rw [if_neg hup] at h
    cases h
    refine ⟨hhandled.client, hhandled.stage, hhandled.tasks, ?_⟩
    rw [hiff]
    refine and_congr_right fun _ => ?_
    simp [hup]

/-! ## A step -/

theorem announced_start : Announced ({} : Network κ) where
  reports := rfl
  connecting h := by cases h
  closing h := by cases h

/-- A step that neither changes the client nor makes the running task stop. -/
theorem Announced.keep {n n' : Network κ} (h : Announced n)
    (hc : n'.client.closing = n.client.closing) (he : n'.client.onError = n.client.onError)
    (hs : n'.stage = n.stage ∨ (n'.stage ≠ some .stopToConnect ∧ n'.stage ≠ some .stopToClose)) :
    Announced n' where
  reports := he.trans h.reports
  connecting hstage := by
    rw [hc]
    rcases hs with hs | ⟨hs, _⟩
    · exact h.connecting (hs ▸ hstage)
    · exact absurd hstage hs
  closing hstage := by
    rw [hc]
    rcases hs with hs | ⟨_, hs⟩
    · exact h.closing (hs ▸ hstage)
    · exact absurd hstage hs

/-- A frame written or refused leaves the client, and is no Close. -/
theorem write_spec (frame : Frame) (failure : Text) (callback : κ) (answer : Status)
    (n : Network κ) :
    (writeAndComplete J frame failure callback answer n).client = n.client
      ∧ (writeAndComplete J frame failure callback answer n).stage = n.stage
      ∧ (ClosesJudged (writeAndComplete J frame failure callback answer n).log
        ↔ ClosesJudged n.log) := by
  unfold writeAndComplete write
  split
  · rename_i n₁ hwrite
    split at hwrite
    · split at hwrite
      · cases hwrite
        refine ⟨rfl, rfl, ?_⟩
        simp [ClosesJudged, complete]
      · cases hwrite
    · cases hwrite
  · exact ⟨rfl, rfl, Iff.rfl⟩

/-- A task that begins says, where it is going to stop the socket, whose Close that will be. -/
theorem judged_begin {n : Network κ} (answer : Status) (task : NetworkTask κ) (h : Announced n) :
    Announced (begin answer n task) ∧ (begin answer n task).log = n.log := by
  cases task with
  | connectWebSocket joinResponse =>
      refine ⟨?_, rfl⟩
      exact
        { reports := h.reports, connecting := fun _ => rfl
          closing := fun hstage => by cases hstage }
  | close joinResponse =>
      refine ⟨?_, rfl⟩
      exact
        { reports := h.reports, connecting := fun hstage => by cases hstage
          closing := fun _ => rfl }
  | sendToRoom callback => exact ⟨h.keep rfl rfl (Or.inl rfl), rfl⟩
  | register joinResponse callback =>
      unfold begin
      dsimp only
      split
      · exact ⟨h.keep rfl rfl (Or.inl rfl), rfl⟩
      · exact ⟨h.keep rfl rfl (Or.inr ⟨by simp, by simp⟩), rfl⟩
  | sendWebSocketMessage messageJson callback =>
      unfold begin
      dsimp only
      split
      · exact ⟨h.keep rfl rfl (Or.inl rfl), rfl⟩
      · exact ⟨h.keep rfl rfl (Or.inr ⟨by simp, by simp⟩), rfl⟩

/-- A task that ends by writing a frame has nothing to do with a Close. -/
theorem judged_written {n : Network κ} {answer : Status} (h : Announced n)
    (hquiet : misjudges n (.run answer) = false) (frame : Frame) (failure : Text) (callback : κ) :
    Announced (writeAndComplete J frame failure callback answer { n with stage := none })
      ∧ (ClosesJudged (writeAndComplete J frame failure callback answer
          { n with stage := none }).log
        ↔ ClosesJudged n.log ∧ misjudges n (.run answer) = false) := by
  obtain ⟨hclient, hstage, hiff⟩ :=
    write_spec (J := J) frame failure callback answer { n with stage := none }
  refine ⟨h.keep (by rw [hclient]) (by rw [hclient]) (Or.inr ?_), ?_⟩
  · rw [hstage]
    exact ⟨by simp, by simp⟩
  · rw [hiff, hquiet]
    exact (and_iff_left rfl).symm

theorem judged_resume {n n' : Network κ} {answer : Status} {stage : Stage κ} (h : Announced n)
    (hs : n.stage = some stage) (hrun : resume J answer n stage = some n') :
    Announced n' ∧ (ClosesJudged n'.log
      ↔ ClosesJudged n.log ∧ misjudges n (.run answer) = false) := by
  cases stage with
  | stopToConnect =>
      obtain ⟨n₁, hstop, hrun⟩ := Option.bind_eq_some_iff.mp hrun
      cases hrun
      obtain ⟨hclient, _, _, hiff⟩ := stop_spec h.reports hstop
      have hclosing := h.connecting hs
      refine ⟨h.keep hclient.closing hclient.onError (Or.inr ⟨by simp, by simp⟩), ?_⟩
      show ClosesJudged n₁.log ↔ _
      rw [hiff, hclosing]
      simp [misjudges, hs]
  | stopToClose =>
      obtain ⟨n₁, hstop, hrun⟩ := Option.bind_eq_some_iff.mp hrun
      cases hrun
      obtain ⟨hclient, _, _, hiff⟩ := stop_spec h.reports hstop
      have hclosing := h.closing hs
      refine ⟨h.keep hclient.closing hclient.onError (Or.inr ⟨by simp, by simp⟩), ?_⟩
      show ClosesJudged n₁.log ↔ _
      rw [hiff, hclosing]
      simp [misjudges, hs]
  | start =>
      cases hrun
      refine ⟨h.keep rfl rfl (Or.inr ⟨by simp, by simp⟩), ?_⟩
      simp [misjudges, hs]
  | writeRegister joinResponse callback =>
      cases hrun
      exact judged_written h (by simp [misjudges, hs]) _ _ callback
  | writeSend messageJson callback =>
      cases hrun
      exact judged_written h (by simp [misjudges, hs]) _ _ callback

/-- **A step breaks the law** exactly where it misjudges a Close. -/
theorem judged_step {n n' : Network κ} {l : NetworkLabel κ} (h : Announced n)
    (hstep : Network.step J n l = some n') :
    Announced n' ∧ (ClosesJudged n'.log ↔ ClosesJudged n.log ∧ misjudges n l = false) := by
  cases l with
  | call task =>
      cases hstep
      exact ⟨h.keep rfl rfl (Or.inl rfl), by simp [misjudges, post]⟩
  | run answer =>
      simp only [Network.step, run] at hstep
      split at hstep
      · rename_i stage hs
        exact judged_resume h hs hstep
      · rename_i hs
        split at hstep
        · cases hstep
        · rename_i task rest htasks
          cases hstep
          have hrest : Announced { n with tasks := rest } := h.keep rfl rfl (Or.inl rfl)
          obtain ⟨hann, hlog⟩ := judged_begin answer task hrest
          refine ⟨hann, ?_⟩
          rw [hlog]
          simp [misjudges, hs]
  | handle =>
      simp only [Network.step] at hstep
      split at hstep
      · cases hstep
      · rename_i event rest hevents
        obtain ⟨hhandled, _⟩ := handle_spec hstep
        refine ⟨h.keep hhandled.client.closing hhandled.client.onError
          (Or.inl hhandled.stage), ?_⟩
        have hreports : ({ n with socket.events := rest } : Network κ).client.onError = true :=
          h.reports
        rw [judged_handle hreports hstep]
        refine and_congr_right fun _ => ?_
        simp only [misjudges, hevents, List.head?_cons, Option.some.injEq]
        by_cases hevent : event = .close
        · subst hevent
          cases n.client.closing <;> simp
        · simp [hevent]
  | «open» | lose | fail reason =>
      simp only [Network.step] at hstep
      split at hstep
      · cases hstep
        exact ⟨h.keep rfl rfl (Or.inl rfl), by simp [misjudges, raise]⟩
      · cases hstep
  | receive event =>
      simp only [Network.step] at hstep
      have hraised : n' = n.raise event := by
        split at hstep
        · split at hstep <;> cases hstep
          rfl
        · split at hstep <;> cases hstep
          rfl
        · cases hstep
      subst hraised
      exact ⟨h.keep rfl rfl (Or.inl rfl), by simp [misjudges, raise]⟩

/--
**Our own Close is never reported and every other is**, in exactly the runs in which
`ConnectWebSocketAsync` never stops an open connection, and no Close of the other side is
handled between the start of `CloseAsync` and the return of its `stop`.
-/
theorem closes_judged_iff {tr : List (Network κ × NetworkLabel κ)} {n : Network κ}
    (h : Run (Network.step J) {} tr n) :
    ClosesJudged n.log ↔ ∀ p ∈ tr, misjudges p.1 p.2 = false := by
  refine (h.law_iff (P := fun n l => misjudges n l = false) (J := Announced)
    (I := fun n => ClosesJudged n.log) announced_start ?_ ?_ ?_).2
  · intro own posted hmem
    cases hmem
  · exact fun n l n' ha hstep => (judged_step ha hstep).1
  · exact fun n l n' ha hstep => (judged_step ha hstep).2

/-! ## Misjudged -/

/-- `ConnectWebSocketAsync` runs, and its connection opens. -/
def connectLabels : List (NetworkLabel Unit) :=
  [.call (.connectWebSocket {}), .run okStatus, .run okStatus, .run okStatus, .open, .handle]

/-- A connection that the client closes is closed by nobody else. -/
theorem closes_judged_iff_closed :
    ∃ tr n, Run (Network.step (.ofTable [])) ({} : Network Unit) tr n
      ∧ n.log = [.handled .open false [.webSocketOpen], .handled .close true []]
      ∧ ∀ p ∈ tr, misjudges p.1 p.2 = false := by
  obtain ⟨n, hn, hlog⟩ : ∃ n, exec (Network.step (.ofTable [])) ({} : Network Unit)
      (connectLabels ++ [.call (.close {}), .run okStatus, .run okStatus]) = some n
      ∧ n.log = [.handled .open false [.webSocketOpen], .handled .close true []] :=
    ⟨_, rfl, rfl⟩
  obtain ⟨tr, hrun, _⟩ := Run.start.exec hn
  refine ⟨tr, n, by simpa using hrun, hlog, (closes_judged_iff (by simpa using hrun)).mp ?_⟩
  intro own posted hmem
  rw [hlog] at hmem
  simp only [List.mem_cons, List.not_mem_nil, or_false] at hmem
  rcases hmem with hmem | hmem <;> cases hmem
  rfl

/--
**Both ways to misjudge a Close.** A second `ConnectWebSocketAsync` reports the Close of
the connection it replaces, and a connection lost after `CloseAsync` began is lost silently.
-/
theorem closes_misjudged :
    (∃ n, Reachable (Network.step (.ofTable [])) ({} : Network Unit) n
      ∧ .handled .close true [websocketClosed] ∈ n.log ∧ ¬ ClosesJudged n.log)
    ∧ ∃ n, Reachable (Network.step (.ofTable [])) ({} : Network Unit) n
      ∧ .handled .close false [] ∈ n.log ∧ ¬ ClosesJudged n.log := by
  constructor
  · obtain ⟨n, hn, hlog⟩ : ∃ n, exec (Network.step (.ofTable [])) ({} : Network Unit)
        (connectLabels ++ [.call (.connectWebSocket {}), .run okStatus, .run okStatus]) = some n
        ∧ n.log = [.handled .open false [.webSocketOpen],
          .handled .close true [websocketClosed]] := ⟨_, rfl, rfl⟩
    have hmem : .handled .close true [websocketClosed] ∈ n.log := by rw [hlog]; simp
    refine ⟨n, Reachable.of_exec hn, hmem, fun h => ?_⟩
    have hposted := h true [websocketClosed] hmem
    cases hposted
  · obtain ⟨n, hn, hlog⟩ : ∃ n, exec (Network.step (.ofTable [])) ({} : Network Unit)
        (connectLabels ++ [.call (.close {}), .run okStatus, .lose, .handle]) = some n
        ∧ n.log = [.handled .open false [.webSocketOpen], .handled .close false []] :=
      ⟨_, rfl, rfl⟩
    have hmem : .handled .close false [] ∈ n.log := by rw [hlog]; simp
    refine ⟨n, Reachable.of_exec hn, hmem, fun h => ?_⟩
    have hposted := h false [] hmem
    cases hposted

end ApprtcCli.Proof
