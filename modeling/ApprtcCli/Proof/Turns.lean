import ApprtcCli.Signaling.Network

/-!
# One turn of the network thread or the socket

What a step that is not a call can do, said once. A callback is owed from the moment
its function is called until it is posted, so a step either leaves what is owed alone, or
posts one completion; and it posts `OK` for a frame only where it wrote the frame.

`ahead` is where the tasks will stand when they reach the socket, the task that runs
included.
-/

namespace ApprtcCli.Proof

open Lib Network

variable {κ : Type} {J : JsonCpp}

/-! ## What is left to do -/

def callbackOf : NetworkTask κ → Option κ
  | .register _ callback => some callback
  | .sendToRoom callback => some callback
  | .sendWebSocketMessage _ callback => some callback
  | _ => none

def stageCallback : Stage κ → Option κ
  | .writeRegister _ callback => some callback
  | .writeSend _ callback => some callback
  | _ => none

/-- The callbacks that have not been posted. -/
def owes (n : Network κ) : List κ :=
  (n.stage.bind stageCallback).toList ++ n.tasks.filterMap callbackOf

/-- Where a task reaches the socket. -/
def stageOf : NetworkTask κ → Option (Stage κ)
  | .connectWebSocket _ => some .stopToConnect
  | .register joinResponse callback => some (.writeRegister joinResponse callback)
  | .sendToRoom _ => none
  | .sendWebSocketMessage messageJson callback => some (.writeSend messageJson callback)
  | .close _ => some .stopToClose

def ahead (n : Network κ) : List (Stage κ) := n.stage.toList ++ n.tasks.filterMap stageOf

/-- The socket was started, or has not forgotten that it was. -/
def Lives (s : Socket) : Prop := s.started = true ∨ s.up = true ∨ s.events ≠ []

/-- The stages of `ConnectWebSocketAsync`. -/
def connects : Stage κ → Bool
  | .stopToConnect => true
  | .start => true
  | _ => false

/-- The socket lives, or is about to be started. -/
def Involved (n : Network κ) : Prop := Lives n.socket ∨ (ahead n).any connects = true

/-- A 'send' frame is about to be written. -/
def writesSend (n : Network κ) : NetworkLabel κ → Bool
  | .run (.ok ()) =>
      match n.stage with
      | some (.writeSend _ _) => n.socket.up
      | _ => false
  | _ => false

/-! ## What a turn does -/

/-- What every turn does, whatever it posts. -/
structure Turned (n n' : Network κ) : Prop where
  opened : n.socket.opened ≤ n'.socket.opened
  tasks : ∀ task ∈ n'.tasks, task ∈ n.tasks
  ahead : ∀ stage ∈ ahead n', stage ∈ ahead n ∨ stage = .start
  involved : Involved n' → Involved n

/-- A frame was written. -/
def isFrame : SocketAction → Bool
  | .written _ _ _ => true
  | _ => false

inductive Turn (n : Network κ) (l : NetworkLabel κ) (n' : Network κ) : Prop where
  /-- Events may have been handled; nobody was answered. -/
  | quiet (hsend : writesSend n l = false) (howes : owes n' = owes n)
      (heard : ∃ actions, n'.log = n.log ++ actions ∧ actions.all (fun a => !isFrame a) = true)
      (posted : ∃ events : List SignalingEvent, n'.outbox = n.outbox ++ events.map .event
        ∧ (events ≠ [] → Involved n))
  /-- A callback was posted without a frame: with `OK`, only after a room exchange. -/
  | answered (hsend : writesSend n l = false) (callback : κ) (status : Status)
      (howes : owes n = callback :: owes n') (hlog : n'.log = n.log)
      (posted : n'.outbox = n.outbox ++ [.completion callback status])
      (room : status = okStatus → .sendToRoom callback ∈ n.tasks)
  /-- A 'register' frame was written. -/
  | registered (hsend : writesSend n l = false) (joinResponse : JoinResponse) (callback : κ)
      (text : Text) (hstage : n.stage = some (.writeRegister joinResponse callback))
      (howes : owes n = callback :: owes n')
      (hlog : n'.log = n.log ++ [.written n.socket.opened
        (.register joinResponse.roomId joinResponse.clientId) text])
      (posted : n'.outbox = n.outbox ++ [.completion callback okStatus])
  /-- A 'send' frame was written. -/
  | sent (hsend : writesSend n l = true) (messageJson : Text) (callback : κ) (text : Text)
      (hstage : n.stage = some (.writeSend messageJson callback))
      (howes : owes n = callback :: owes n')
      (hlog : n'.log = n.log ++ [.written n.socket.opened (.send messageJson) text])
      (posted : n'.outbox = n.outbox ++ [.completion callback okStatus])

/-! ## Handling events -/

/-- Events were handled, and nothing else was done. -/
structure Heard (n n' : Network κ) : Prop where
  tasks : n'.tasks = n.tasks
  stage : n'.stage = n.stage
  socket : n'.socket = n.socket
  log : ∃ actions, n'.log = n.log ++ actions ∧ actions.all (fun a => !isFrame a) = true
  outbox : ∃ events : List SignalingEvent, n'.outbox = n.outbox ++ events.map .event

theorem Heard.refl (n : Network κ) : Heard n n :=
  ⟨rfl, rfl, rfl, ⟨[], by simp⟩, ⟨[], by simp⟩⟩

theorem Heard.trans {n n' n'' : Network κ} (h : Heard n n') (h' : Heard n' n'') :
    Heard n n'' where
  tasks := h'.tasks.trans h.tasks
  stage := h'.stage.trans h.stage
  socket := h'.socket.trans h.socket
  log := by
    obtain ⟨actions, hlog, hall⟩ := h.log
    obtain ⟨actions', hlog', hall'⟩ := h'.log
    refine ⟨actions ++ actions', by rw [hlog', hlog, List.append_assoc], ?_⟩
    rw [List.all_append, hall, hall']
    rfl
  outbox := by
    obtain ⟨events, hout⟩ := h.outbox
    obtain ⟨events', hout'⟩ := h'.outbox
    exact ⟨events ++ events', by rw [hout', hout, List.map_append, List.append_assoc]⟩

theorem handle_heard {event : WebSocketMessage} {own : Bool} {n n' : Network κ}
    (h : handle J event own n = some n') : Heard n n' := by
  obtain ⟨client, _, h⟩ := Option.bind_eq_some_iff.mp h
  cases h
  exact ⟨rfl, rfl, rfl, ⟨[.handled event own client.posted], rfl, rfl⟩, ⟨client.posted, rfl⟩⟩

theorem handleAll_heard {events : List WebSocketMessage} {n n' : Network κ}
    (h : handleAll J events n = some n') : Heard n n' := by
  induction events generalizing n with
  | nil =>
      cases h
      exact Heard.refl _
  | cons event events ih =>
      obtain ⟨n₁, hfirst, hrest⟩ := Option.bind_eq_some_iff.mp h
      exact (handle_heard hfirst).trans (ih hrest)

/-- `stop` leaves a socket with nothing to tell, and what it told before is heard. -/
theorem stop_heard {n n' : Network κ} (h : stop J n = some n') :
    Heard { n with socket := { n.socket with started := false, up := false, events := [] } } n'
      ∧ (n'.outbox ≠ n.outbox → Involved n) := by
  obtain ⟨n₁, hall, h⟩ := Option.bind_eq_some_iff.mp h
  by_cases hup : n.socket.up = true
  · rw [if_pos hup] at h
    exact ⟨(handleAll_heard hall).trans (handle_heard h), fun _ => Or.inl (Or.inr (Or.inl hup))⟩
  · rw [if_neg hup] at h
    cases h
    refine ⟨handleAll_heard hall, fun hout => Or.inl (Or.inr (Or.inr ?_))⟩
    -- with no event to handle, none is posted
    intro hnone
    rw [hnone] at hall
    cases hall
    exact hout rfl

/-! ## Writing -/

theorem write_cases (frame : Frame) (failure : Text) (callback : κ) (answer : Status)
    (n : Network κ) :
    (answer = okStatus ∧ n.socket.up = true
      ∧ writeAndComplete J frame failure callback answer n
        = ({ n with log := n.log ++ [.written n.socket.opened frame (J.write frame.document)] } :
            Network κ).complete callback okStatus)
    ∨ ((answer ≠ okStatus ∨ n.socket.up = false)
      ∧ writeAndComplete J frame failure callback answer n
        = n.complete callback (.error ⟨.internal, failure⟩)) := by
  unfold writeAndComplete write
  cases answer with
  | error e => exact Or.inr ⟨Or.inl (by simp [okStatus]), rfl⟩
  | ok u =>
      by_cases hup : n.socket.up = true
      · exact Or.inl ⟨rfl, hup, by simp [hup]⟩
      · exact Or.inr ⟨Or.inr (by simpa using hup), by simp [hup]⟩

/-! ## A task that begins -/

theorem turned_begin {n n' : Network κ} {task : NetworkTask κ} (hs : n.stage = none)
    (ht : n.tasks = task :: n'.tasks) (hs' : n'.stage = none ∨ n'.stage = stageOf task)
    (hsocket : n'.socket = n.socket) : Turned n n' := by
  have hahead : ∀ stage ∈ ahead n', stage ∈ ahead n := by
    intro stage hstage
    have hold : ahead n = (stageOf task).toList ++ n'.tasks.filterMap stageOf := by
      unfold ahead
      rw [hs, ht, List.filterMap_cons]
      cases stageOf task <;> rfl
    rw [hold]
    unfold ahead at hstage
    rcases hs' with hs' | hs'
    · rw [hs'] at hstage
      exact List.mem_append_right _ hstage
    · rw [hs'] at hstage
      exact hstage
  refine ⟨by rw [hsocket], fun other hother => ?_, fun stage hstage => Or.inl (hahead stage hstage),
    ?_⟩
  · rw [ht]
    exact List.mem_cons_of_mem _ hother
  · unfold Involved
    rw [hsocket]
    refine Or.imp_right fun hinv => ?_
    obtain ⟨stage, hstage, hc⟩ := List.any_eq_true.mp hinv
    exact List.any_eq_true.mpr ⟨stage, hahead stage hstage, hc⟩

theorem owes_begun {n n' : Network κ} {task : NetworkTask κ} (hs : n.stage = none)
    (ht : n.tasks = task :: n'.tasks) (hs' : n'.stage.bind stageCallback = callbackOf task) :
    owes n' = owes n := by
  unfold owes
  rw [hs, ht, hs', List.filterMap_cons]
  cases callbackOf task <;> rfl

theorem owes_answered {n n' : Network κ} {task : NetworkTask κ} {callback : κ}
    (hs : n.stage = none) (ht : n.tasks = task :: n'.tasks) (hs' : n'.stage = none)
    (hc : callbackOf task = some callback) : owes n = callback :: owes n' := by
  unfold owes
  rw [hs, ht, hs', List.filterMap_cons, hc]
  rfl

theorem writesSend_begin {n : Network κ} (hs : n.stage = none) (answer : Status) :
    writesSend n (.run answer) = false := by
  unfold writesSend
  rw [hs]
  cases answer <;> rfl

/-- A task that finds the socket closed answers at once. -/
theorem turn_refused {n : Network κ} {task : NetworkTask κ} {rest : List (NetworkTask κ)}
    {callback : κ} (answer : Status) (e : Error) (hs : n.stage = none)
    (ht : n.tasks = task :: rest) (hc : callbackOf task = some callback) :
    Turned n (({ n with tasks := rest } : Network κ).complete callback (.error e))
      ∧ Turn n (.run answer)
        (({ n with tasks := rest } : Network κ).complete callback (.error e)) :=
  ⟨turned_begin hs ht (Or.inl hs) rfl,
    .answered (writesSend_begin hs answer) callback _ (owes_answered hs ht hs hc) rfl rfl
      (fun hok => by cases hok)⟩

/-- A task that comes to the socket. -/
theorem turn_started {n : Network κ} {task : NetworkTask κ} {rest : List (NetworkTask κ)}
    (answer : Status) (client : AppRtcSignalingClient) (hs : n.stage = none)
    (ht : n.tasks = task :: rest) (hc : (stageOf task).bind stageCallback = callbackOf task) :
    Turned n { n with tasks := rest, client := client, stage := stageOf task }
      ∧ Turn n (.run answer)
        { n with tasks := rest, client := client, stage := stageOf task } :=
  ⟨turned_begin hs ht (Or.inr rfl) rfl,
    .quiet (writesSend_begin hs answer) (owes_begun hs ht hc) ⟨[], by simp⟩ ⟨[], by simp⟩⟩

theorem turn_begin {n : Network κ} {task : NetworkTask κ} {rest : List (NetworkTask κ)}
    (answer : Status) (hs : n.stage = none) (ht : n.tasks = task :: rest) :
    Turned n (begin answer { n with tasks := rest } task)
      ∧ Turn n (.run answer) (begin answer { n with tasks := rest } task) := by
  cases task with
  | connectWebSocket joinResponse | close joinResponse => exact turn_started answer _ hs ht rfl
  | sendToRoom callback =>
      exact ⟨turned_begin hs ht (Or.inl hs) rfl,
        .answered (writesSend_begin hs answer) callback answer (owes_answered hs ht hs rfl) rfl
          rfl (fun _ => by rw [ht]; exact List.mem_cons_self ..)⟩
  | register joinResponse callback | sendWebSocketMessage messageJson callback =>
      unfold begin
      dsimp only
      split
      · exact turn_refused answer _ hs ht rfl
      · exact turn_started answer n.client hs ht rfl

/-! ## A task that goes on -/

theorem turned_of {n n' : Network κ} (ho : n.socket.opened ≤ n'.socket.opened)
    (ht : n'.tasks = n.tasks)
    (hs : ∀ stage, n'.stage = some stage → n.stage = some stage ∨ stage = .start)
    (hi : Involved n' → Involved n) : Turned n n' := by
  refine ⟨ho, fun task htask => ht ▸ htask, fun stage hstage => ?_, hi⟩
  unfold ahead at hstage ⊢
  rw [ht] at hstage
  rcases List.mem_append.mp hstage with hstage | hstage
  · refine (hs stage (by simpa using hstage)).imp_left fun hold => ?_
    exact List.mem_append_left _ (by simp [hold])
  · exact Or.inl (List.mem_append_right _ hstage)

theorem owes_resumed {n n' : Network κ} {stage : Stage κ} (hs : n.stage = some stage)
    (ht : n'.tasks = n.tasks) (hs' : n'.stage.bind stageCallback = none) :
    owes n = (stageCallback stage).toList ++ owes n' := by
  unfold owes
  rw [hs, ht, hs']
  rfl

theorem owes_kept {n n' : Network κ} {stage : Stage κ} (hs : n.stage = some stage)
    (hc : stageCallback stage = none) (ht : n'.tasks = n.tasks)
    (hs' : n'.stage.bind stageCallback = none) : owes n' = owes n := by
  rw [owes_resumed hs ht hs', hc]
  rfl

theorem writesSend_other {n : Network κ} {stage : Stage κ} (hs : n.stage = some stage)
    (hother : ∀ messageJson callback, stage ≠ .writeSend messageJson callback)
    (answer : Status) : writesSend n (.run answer) = false := by
  unfold writesSend
  rw [hs]
  cases answer with
  | error e => rfl
  | ok u =>
      cases stage with
      | writeSend messageJson callback => exact absurd rfl (hother messageJson callback)
      | _ => rfl

theorem mem_ahead {n : Network κ} {stage : Stage κ} (hs : n.stage = some stage) :
    stage ∈ ahead n := by
  unfold ahead
  rw [hs]
  exact List.mem_cons_self ..

theorem involved_ahead {n : Network κ} {stage : Stage κ} (hs : n.stage = some stage)
    (hc : connects stage = true) : Involved n :=
  Or.inr (List.any_eq_true.mpr ⟨stage, mem_ahead hs, hc⟩)

/-- The tasks behind the one that runs are ahead before and after it. -/
theorem connects_tasks {n n' : Network κ} (h : (ahead n').any connects = true)
    (hs' : n'.stage = none) (ht : n'.tasks = n.tasks) : (ahead n).any connects = true := by
  unfold ahead at h ⊢
  rw [hs', ht] at h
  rw [List.any_append, Bool.or_eq_true]
  exact Or.inr h

/-- A frame that the socket took, or did not. -/
theorem turned_write (frame : Frame) (failure : Text) (callback : κ) (answer : Status)
    (n : Network κ) :
    Turned n (writeAndComplete J frame failure callback answer { n with stage := none }) := by
  rcases write_cases (J := J) frame failure callback answer { n with stage := none } with
    ⟨_, _, heq⟩ | ⟨_, heq⟩
  all_goals
    rw [heq]
    exact turned_of (Nat.le_refl _) rfl (fun stage hstage => by cases hstage)
      (Or.imp_right fun h => connects_tasks h rfl rfl)

theorem turn_resume {n n' : Network κ} {stage : Stage κ} {answer : Status}
    (hs : n.stage = some stage) (h : resume J answer n stage = some n') :
    Turned n n' ∧ Turn n (.run answer) n' := by
  cases stage with
  | stopToConnect =>
      have hsend := writesSend_other hs (by simp) answer
      obtain ⟨n₁, hstop, h⟩ := Option.bind_eq_some_iff.mp h
      cases h
      obtain ⟨hheard, hposted⟩ := stop_heard hstop
      have hinv : Involved n := involved_ahead hs rfl
      refine ⟨turned_of (by rw [hheard.socket]) hheard.tasks
        (fun stage hstage => Or.inr (by cases hstage; rfl)) (fun _ => hinv), ?_⟩
      obtain ⟨events, hout⟩ := hheard.outbox
      exact .quiet hsend (owes_kept hs rfl hheard.tasks rfl) hheard.log
        ⟨events, hout, fun _ => hinv⟩
  | stopToClose =>
      have hsend := writesSend_other hs (by simp) answer
      obtain ⟨n₁, hstop, h⟩ := Option.bind_eq_some_iff.mp h
      cases h
      obtain ⟨hheard, hposted⟩ := stop_heard hstop
      refine ⟨turned_of (by rw [hheard.socket]) hheard.tasks
        (fun stage hstage => by cases hstage) ?_, ?_⟩
      · -- the socket is still, and only what was ahead remains
        unfold Involved
        rw [hheard.socket]
        intro hinv
        rcases hinv with hlives | hinv
        · exact absurd hlives (by simp [Lives])
        · exact Or.inr (connects_tasks hinv rfl hheard.tasks)
      · obtain ⟨events, hout⟩ := hheard.outbox
        refine .quiet hsend (owes_kept hs rfl hheard.tasks rfl) hheard.log
          ⟨events, hout, fun hne => hposted ?_⟩
        rw [hout]
        simpa using hne
  | start =>
      have hsend := writesSend_other hs (by simp) answer
      cases h
      exact ⟨turned_of (Nat.le_refl _) rfl (fun stage hstage => by cases hstage)
          (fun _ => involved_ahead hs rfl),
        .quiet hsend (owes_kept hs rfl rfl rfl) ⟨[], by simp⟩ ⟨[], by simp⟩⟩
  | writeRegister joinResponse callback =>
      have hsend := writesSend_other hs (by simp) answer
      cases h
      refine ⟨turned_write .., ?_⟩
      rcases write_cases (J := J) (.register joinResponse.roomId joinResponse.clientId)
        "websocket register failed" callback answer { n with stage := none } with
        ⟨_, _, heq⟩ | ⟨_, heq⟩
      · rw [heq]
        exact .registered hsend joinResponse callback _ hs (owes_resumed hs rfl rfl) rfl rfl
      · rw [heq]
        exact .answered hsend callback _ (owes_resumed hs rfl rfl) rfl rfl
          (fun hok => by cases hok)
  | writeSend messageJson callback =>
      cases h
      refine ⟨turned_write .., ?_⟩
      rcases write_cases (J := J) (.send messageJson) "websocket send failed" callback answer
        { n with stage := none } with ⟨hok, hup, heq⟩ | ⟨hno, heq⟩
      · rw [heq, hok]
        have hsend : writesSend n (.run okStatus) = true := by
          simp only [writesSend, okStatus, hs]
          exact hup
        exact .sent hsend messageJson callback _ hs (owes_resumed hs rfl rfl) rfl rfl
      · rw [heq]
        have hsend : writesSend n (.run answer) = false := by
          unfold writesSend
          rw [hs]
          rcases hno with hno | hno
          · cases answer with
            | error e => rfl
            | ok u => exact absurd rfl hno
          · cases answer with
            | error e => rfl
            | ok u => exact hno
        exact .answered hsend callback _ (owes_resumed hs rfl rfl) rfl rfl
          (fun hok => by cases hok)

/-! ## Every step -/

/-- What the socket does by itself posts nothing. -/
theorem turn_socket {n : Network κ} {l : NetworkLabel κ} {socket : Socket}
    (hsend : writesSend n l = false) (ho : n.socket.opened ≤ socket.opened)
    (hlive : n.socket.started = true ∨ n.socket.up = true) :
    Turned n { n with socket := socket } ∧ Turn n l { n with socket := socket } :=
  ⟨turned_of ho rfl (fun _ => Or.inl)
      (fun _ => Or.inl (hlive.imp_right Or.inl)),
    .quiet hsend rfl ⟨[], by simp⟩ ⟨[], by simp⟩⟩

/-- **What a step that is not a call can do.** -/
theorem turn_step {n n' : Network κ} {l : NetworkLabel κ} (hl : ∀ task, l ≠ .call task)
    (h : Network.step J n l = some n') : Turned n n' ∧ Turn n l n' := by
  cases l with
  | call task => exact absurd rfl (hl task)
  | run answer =>
      simp only [Network.step, run] at h
      split at h
      · rename_i stage hs
        exact turn_resume hs h
      · rename_i hs
        split at h
        · cases h
        · rename_i task rest ht
          cases h
          exact turn_begin answer hs ht
  | «open» =>
      simp only [Network.step] at h
      split at h
      · rename_i hc
        cases h
        exact turn_socket rfl (Nat.le_succ _) (Or.inl (Bool.and_eq_true_iff.mp hc).1)
      · cases h
  | lose =>
      simp only [Network.step] at h
      split at h
      · rename_i hup
        cases h
        exact turn_socket rfl (Nat.le_refl _) (Or.inr hup)
      · cases h
  | fail reason =>
      simp only [Network.step] at h
      split at h
      · rename_i hstarted
        cases h
        exact turn_socket rfl (Nat.le_refl _) (Or.inl hstarted)
      · cases h
  | receive event =>
      simp only [Network.step] at h
      split at h
      · split at h
        · rename_i hup
          cases h
          exact turn_socket rfl (Nat.le_refl _) (Or.inr hup)
        · cases h
      · split at h
        · rename_i hup
          cases h
          exact turn_socket rfl (Nat.le_refl _) (Or.inr hup)
        · cases h
      · cases h
  | handle =>
      simp only [Network.step] at h
      split at h
      · cases h
      · rename_i event rest hevents
        have hheard := handle_heard h
        have hinv : Involved n := Or.inl (Or.inr (Or.inr (by rw [hevents]; simp)))
        obtain ⟨events, hout⟩ := hheard.outbox
        have howes : owes n' = owes n := by
          unfold owes
          rw [hheard.stage, hheard.tasks]
        exact ⟨turned_of (by rw [hheard.socket]) hheard.tasks
            (fun stage hstage => Or.inl (hheard.stage ▸ hstage)) (fun _ => hinv),
          .quiet rfl howes hheard.log ⟨events, hout, fun _ => hinv⟩⟩

end ApprtcCli.Proof
