import ApprtcCli.Proof.Linked
import ApprtcCli.Proof.Closing
import ApprtcCli.Lib.Trail

/-!
# Registered before it sends

`RegisterAsync` and `SendWebSocketMessageAsync` find out whether the socket is open, not
which connection is. The library opens a new connection whenever one is lost, and the
controller learns of it when its turn comes: until it has registered again, what was
already on its way goes out over a connection the server has not been told about.

That is the only way to send unregistered. The first connection is always registered
before anything is sent, and so is every later one over which nothing goes out before
its 'register' frame.
-/

namespace ApprtcCli.Proof

open Lib Call Network

variable {env : Env}

/-- A 'send' frame has before it, on its connection, a 'register' frame for this client. -/
def RegisteredFirst (joinResponse : Option JoinResponse) (pre : List SocketAction) :
    SocketAction → Prop
  | .written connection (.send _) _ => ∃ joined text, joinResponse = some joined
      ∧ .written connection (.register joined.roomId joined.clientId) text ∈ pre
  | _ => True

/-- The socket has opened a connection since the last 'register' frame was written. -/
def reconnected (n : Network Task) : Bool :=
  match (registrations n.log).getLast? with
  | some connection => connection < n.socket.opened
  | none => false

/-- A 'send' frame is written to a connection opened since the last 'register' frame. -/
def writesReopened (e : Endpoint) : EndpointLabel → Bool
  | .net l => writesSend e.net l && reconnected e.net
  | _ => false

/-! ## The law, by connection -/

/-- The same law, of any 'register' frame. -/
def SomeRegister (pre : List SocketAction) : SocketAction → Prop
  | .written connection (.send _) _ => connection ∈ registrations pre
  | _ => True

theorem mem_registrations {log : List SocketAction} {connection : Nat} :
    connection ∈ registrations log
      ↔ ∃ roomId clientId, RegisterIn log connection roomId clientId := by
  constructor
  · intro hmem
    obtain ⟨a, ha, hon⟩ := List.mem_filterMap.mp hmem
    unfold registeredOn at hon
    split at hon
    · cases hon
      exact ⟨_, _, _, ha⟩
    · cases hon
  · intro ⟨roomId, clientId, text, hmem⟩
    exact List.mem_filterMap.mpr ⟨_, hmem, rfl⟩

/-- Every 'register' frame is this client's, so one law is the other. -/
theorem Logged.registered_iff {e : Endpoint} (h : Logged e) {pre post : List SocketAction}
    {a : SocketAction} (heq : e.net.log = pre ++ a :: post) :
    RegisteredFirst e.world.ctl.joinResponse pre a ↔ SomeRegister pre a := by
  cases a with
  | handled event own posted => exact Iff.rfl
  | written connection frame text =>
      cases frame with
      | register roomId clientId => exact Iff.rfl
      | send messageJson =>
          constructor
          · intro ⟨joined, text', _, hmem⟩
            exact mem_registrations.mpr ⟨_, _, text', hmem⟩
          · intro hmem
            obtain ⟨roomId, clientId, text', hmem⟩ := mem_registrations.mp hmem
            have hin : RegisterIn e.net.log connection roomId clientId :=
              ⟨text', by rw [heq]; exact List.mem_append_left _ hmem⟩
            obtain ⟨joined, hj, rfl, rfl⟩ := h.client connection roomId clientId hin
            exact ⟨joined, text', hj, hmem⟩

theorem Logged.registeredFirst {e : Endpoint} (h : Logged e) :
    Trail (RegisteredFirst e.world.ctl.joinResponse) e.net.log
      ↔ Trail SomeRegister e.net.log :=
  ⟨fun hall pre a post heq => (h.registered_iff heq).mp (hall pre a post heq),
    fun hall pre a post heq => (h.registered_iff heq).mpr (hall pre a post heq)⟩

/-- Entries that are no 'send' frames do not matter. -/
theorem someRegister_append {l k : List SocketAction}
    (hk : ∀ a ∈ k, ∀ pre, SomeRegister pre a) :
    Trail SomeRegister (l ++ k) ↔ Trail SomeRegister l :=
  ⟨fun h => h.of_front (List.prefix_append _ _), fun h => h.append hk⟩

/-- **A connection got a 'register' frame** exactly if it is that of the last one. -/
theorem Logged.newest_registered {e : Endpoint} (h : Logged e)
    (hready : e.world.ctl.negotiationReady = true) :
    e.net.socket.opened ∈ registrations e.net.log ↔ reconnected e.net = false := by
  obtain ⟨last, hlast⟩ : ∃ last, (registrations e.net.log).getLast? = some last := by
    rw [← Option.isSome_iff_exists, List.getLast?_isSome]
    exact h.ready hready
  have hmem := List.mem_of_getLast? hlast
  have hle := h.opened last hmem
  unfold reconnected
  rw [hlast]
  simp only [decide_eq_false_iff_not, Nat.not_lt]
  constructor
  · intro hnewest
    exact h.latest _ hnewest last hlast
  · intro hge
    rwa [Nat.le_antisymm hge hle]

/-! ## A step -/

theorem deliver_log {e : Endpoint} {n' : Network Task} :
    (Endpoint.deliver { e with net := n' }).net.log = n'.log := by
  unfold Endpoint.deliver
  have hfold : ∀ (posted : List (Posted Task)) (e : Endpoint),
      (posted.foldl Endpoint.postToCallbackThread e).net = e.net := by
    intro posted
    induction posted with
    | nil => exact fun _ => rfl
    | cons p posted ih =>
        intro e
        rw [List.foldl_cons, ih]
        cases p <;> rfl
  split
  · rfl
  · rw [hfold]

/-- The signaling thread writes nothing. -/
theorem advance_log {e e' : Endpoint} {l : Label} (h : Endpoint.advance env e l = some e') :
    e'.net.log = e.net.log := by
  obtain ⟨w', _, rfl⟩ := endpoint_advance_eq h
  have hfold : ∀ (calls : List (NetworkTask Task)) (n : Network Task),
      (calls.foldl post n).log = n.log := by
    intro calls
    induction calls with
    | nil => exact fun _ => rfl
    | cons call calls ih =>
        intro n
        rw [List.foldl_cons, ih]
        rfl
  exact hfold _ _

/-- **A step breaks the law** exactly where it sends over a connection opened since. -/
theorem registered_net {e : Endpoint} {n' : Network Task} {l : NetworkLabel Task}
    (h : Linked env e) (hl : ∀ task, l ≠ .call task)
    (hs : Network.step env.json e.net l = some n') :
    Trail SomeRegister n'.log
      ↔ Trail SomeRegister e.net.log ∧ writesReopened e (.net l) = false := by
  cases (turn_step hl hs).2 with
  | quiet hsend _ heard _ =>
      obtain ⟨actions, hlog, hall⟩ := heard
      rw [hlog, someRegister_append]
      · simp [writesReopened, hsend]
      · intro a ha pre
        have hno := List.all_eq_true.mp hall a ha
        cases a with
        | handled event own posted => trivial
        | written connection frame text => cases hno
  | answered hsend _ _ _ hlog _ _ =>
      rw [hlog]
      simp [writesReopened, hsend]
  | registered hsend jr _ text _ _ hlog _ =>
      rw [hlog, someRegister_append]
      · simp [writesReopened, hsend]
      · intro a ha pre
        cases List.mem_singleton.mp ha
        trivial
  | sent hsend messageJson callback text hstage _ hlog _ =>
      have hready := (h.serving.sends messageJson callback (mem_ahead hstage)).2
      rw [hlog, trail_concat]
      refine and_congr_right fun _ => ?_
      show e.net.socket.opened ∈ registrations e.net.log ↔ _
      rw [h.logged.newest_registered hready]
      simp [writesReopened, hsend]

theorem registered_step {e e' : Endpoint} {l : EndpointLabel} (h : Linked env e)
    (hs : Endpoint.step env e l = some e') :
    Trail SomeRegister e'.net.log
      ↔ Trail SomeRegister e.net.log ∧ writesReopened e l = false := by
  rcases endpoint_step_cases hs with ⟨_, rfl, _, hs⟩ | ⟨_, _, _, _, _, rfl, _, _, _, hs⟩
    | ⟨turn, n', rfl, hturn, hnet, rfl⟩
  · rw [advance_log hs]
    simp [writesReopened]
  · rw [advance_log hs]
    simp [writesReopened]
  · rw [deliver_log]
    exact registered_net h hturn hnet

/--
**Every 'send' frame follows a 'register' frame for this client on its connection**, in
exactly the runs in which none is written to a connection that the socket opened after the
client's last 'register' frame. Before the first of those frames nothing is sent at all.
-/
theorem sends_registered_iff {tr : List (Endpoint × EndpointLabel)} {e : Endpoint}
    (h : Run (Endpoint.step env) {} tr e) :
    Trail (RegisteredFirst e.world.ctl.joinResponse) e.net.log
      ↔ ∀ p ∈ tr, writesReopened p.1 p.2 = false := by
  obtain ⟨hlinked, hiff⟩ := h.law_iff (P := fun e l => writesReopened e l = false)
    (J := Linked env) (I := fun e => Trail SomeRegister e.net.log) linked_init (trail_nil _)
    (fun _ _ _ hi hs => linked_step hi hs) (fun _ _ _ hi hs => registered_step hi hs)
  rw [hlinked.logged.registeredFirst]
  exact hiff

/-! ## An answer on its way -/

def answeringClient : JoinResponse :=
  { roomId := "room", clientId := "client", pcConfigJson := "pc_config", messages := ["offer"] }

/-- The client joins, registers on its first connection, and hands over its answer. -/
def answeringLabels : List EndpointLabel :=
  [.call (.post 1), .call (.run (.join (.ok answeringClient))), .net (.run okStatus),
    .net (.run okStatus), .net (.run okStatus), .net .open, .net .handle, .call (.run .none),
    .net (.run okStatus), .net (.run okStatus), .complete, .call (.post 2),
    .call (.run (.status okStatus)), .call (.post 2),
    .call (.run (.description (.ok (some "v=0")))), .call (.post 2),
    .call (.run (.status okStatus))]

/-- The answer goes out over the connection that was registered. -/
theorem sends_registered_iff_answer :
    ∃ tr e, Run (Endpoint.step gatheringEnv) {} tr e
      ∧ e.net.log = [.handled .open false [.webSocketOpen],
        .written 1 (.register "room" "client") [], .written 1 (.send []) []]
      ∧ ∀ p ∈ tr, writesReopened p.1 p.2 = false := by
  obtain ⟨e, he, hlog, hj⟩ : ∃ e, exec (Endpoint.step gatheringEnv) {}
      (answeringLabels ++ [.net (.run okStatus), .net (.run okStatus)]) = some e
      ∧ e.net.log = [.handled .open false [.webSocketOpen],
        .written 1 (.register "room" "client") [], .written 1 (.send []) []]
      ∧ e.world.ctl.joinResponse = some answeringClient := ⟨_, rfl, rfl, rfl⟩
  obtain ⟨tr, hrun, _⟩ := Run.start.exec he
  refine ⟨tr, e, by simpa using hrun, hlog, (sends_registered_iff (by simpa using hrun)).mp ?_⟩
  have hopened : Trail (RegisteredFirst (some answeringClient))
      [.handled .open false [.webSocketOpen]] := trail_singleton trivial
  have hfront : Trail (RegisteredFirst (some answeringClient))
      ([.handled .open false [.webSocketOpen]] ++ [.written 1 (.register "room" "client") []]) :=
    trail_concat.mpr ⟨hopened, trivial⟩
  have hsent : RegisteredFirst (some answeringClient)
      [.handled .open false [.webSocketOpen], .written 1 (.register "room" "client") []]
      (.written 1 (.send []) []) := ⟨answeringClient, [], rfl, by simp [answeringClient]⟩
  rw [hlog, hj]
  exact trail_concat.mpr ⟨hfront, hsent⟩

/--
**Between the two the connection is lost and the next one opens**: the answer goes out over
a connection that carries no 'register' frame.
-/
theorem sends_unregistered :
    ∃ e, Reachable (Endpoint.step gatheringEnv) {} e
      ∧ .written 2 (.send []) [] ∈ e.net.log
      ∧ (∀ roomId clientId text, .written 2 (.register roomId clientId) text ∉ e.net.log)
      ∧ ¬ Trail (RegisteredFirst e.world.ctl.joinResponse) e.net.log := by
  obtain ⟨e, he, hlog⟩ : ∃ e, exec (Endpoint.step gatheringEnv) {}
      (answeringLabels ++ [.net .lose, .net .open, .net .handle, .net .handle,
        .net (.run okStatus), .net (.run okStatus)]) = some e
      ∧ e.net.log = [.handled .open false [.webSocketOpen],
        .written 1 (.register "room" "client") [], .handled .close false [websocketClosed],
        .handled .open false [.webSocketOpen]] ++ [.written 2 (.send []) []] := ⟨_, rfl, rfl⟩
  refine ⟨e, Reachable.of_exec he, ?_, ?_, ?_⟩
  · rw [hlog]
    simp
  · rw [hlog]
    simp
  · intro hall
    rw [hlog] at hall
    obtain ⟨joined, text, _, hmem⟩ := (trail_concat.mp hall).2
    simp at hmem

end ApprtcCli.Proof
