import ApprtcCli.Proof.Turns

/-!
# Every call and its answer

The callers of the client leave callbacks with it. Each call, the join apart, is answered
once, in the order in which they were made, and what the answer says is what happened: `OK`
for a 'register' or a 'send' means that its frame was written, an error that it was not. So
the frames that were written are those of the calls that were answered with `OK`, and the
answers that are missing are those of the calls that stand in the queue (`calls_answered`).
-/

namespace ApprtcCli.Proof

open Lib Network

variable {κ : Type} {J : JsonCpp}

/-! ## Calls, answers and frames -/

/-- A call that leaves a callback. -/
def asks (task : NetworkTask κ) : Bool := (callbackOf task).isSome

/-- The call that has come to the socket. -/
def stageTask : Stage κ → Option (NetworkTask κ)
  | .writeRegister joinResponse callback => some (.register joinResponse callback)
  | .writeSend messageJson callback => some (.sendWebSocketMessage messageJson callback)
  | _ => none

/-- The calls that are not answered yet, in order. -/
def openCalls (n : Network κ) : List (NetworkTask κ) :=
  (n.stage.bind stageTask).toList ++ n.tasks.filter asks

/-- The frame a call is there to write. -/
def frameOf : NetworkTask κ → Option Frame
  | .register joinResponse _ => some (.register joinResponse.roomId joinResponse.clientId)
  | .sendWebSocketMessage messageJson _ => some (.send messageJson)
  | _ => none

/-- A call, and what its callback was told. -/
abbrev Answered (κ : Type) := NetworkTask κ × Status

/-- What the callback thread gets of an answer. -/
def toldOf (a : Answered κ) : Option (κ × Status) := (callbackOf a.1).map (·, a.2)

variable (J) in
/-- What an answer says was written, and as which text. -/
def frameTold : Answered κ → Option (Frame × Text)
  | (task, .ok _) => (frameOf task).map fun frame => (frame, J.write frame.document)
  | (_, .error _) => none

/-- The completions that were posted, in order. -/
def postedAnswers (outbox : List (Posted κ)) : List (κ × Status) :=
  outbox.filterMap fun
    | .completion callback status => some (callback, status)
    | .event _ => none

/-- The frames that were written, in order. -/
def writtenFrames (log : List SocketAction) : List (Frame × Text) :=
  log.filterMap fun
    | .written _ frame text => some (frame, text)
    | .handled _ _ _ => none

theorem postedAnswers_append (outbox more : List (Posted κ)) :
    postedAnswers (outbox ++ more) = postedAnswers outbox ++ postedAnswers more :=
  List.filterMap_append ..

theorem postedAnswers_events (events : List SignalingEvent) :
    postedAnswers (events.map (.event : _ → Posted κ)) = [] := by
  induction events with
  | nil => rfl
  | cons event events ih => exact ih

theorem writtenFrames_append (log more : List SocketAction) :
    writtenFrames (log ++ more) = writtenFrames log ++ writtenFrames more :=
  List.filterMap_append ..

theorem writtenFrames_quiet {actions : List SocketAction}
    (h : actions.all (fun a => !isFrame a) = true) : writtenFrames actions = [] := by
  refine List.filterMap_eq_nil_iff.mpr fun a ha => ?_
  have hquiet := List.all_eq_true.mp h a ha
  cases a with
  | handled => rfl
  | written => cases hquiet

/-! ## What a step answers -/

variable (J) in
/-- A step answers these calls, and no others. -/
structure Settles (n n' : Network κ) (answers : List (Answered κ)) : Prop where
  calls : openCalls n = answers.map Prod.fst ++ openCalls n'
  told : postedAnswers n'.outbox = postedAnswers n.outbox ++ answers.filterMap toldOf
  frames : writtenFrames n'.log = writtenFrames n.log ++ answers.filterMap (frameTold J)

/-- Events may have been handled; nobody was answered. -/
theorem settles_quiet {n n' : Network κ} (hcalls : openCalls n' = openCalls n)
    (hlog : ∃ actions, n'.log = n.log ++ actions ∧ actions.all (fun a => !isFrame a) = true)
    (hout : ∃ events : List SignalingEvent, n'.outbox = n.outbox ++ events.map .event) :
    Settles J n n' [] := by
  obtain ⟨actions, hlog, hquiet⟩ := hlog
  obtain ⟨events, hout⟩ := hout
  refine ⟨hcalls.symm, ?_, ?_⟩
  · rw [hout, postedAnswers_append, postedAnswers_events]
    rfl
  · rw [hlog, writtenFrames_append, writtenFrames_quiet hquiet]
    rfl

theorem settles_still {n n' : Network κ} (hcalls : openCalls n' = openCalls n)
    (hlog : n'.log = n.log) (hout : n'.outbox = n.outbox) : Settles J n n' [] :=
  settles_quiet hcalls ⟨[], by simp [hlog], rfl⟩ ⟨[], by simp [hout]⟩

/-- A call is answered, and no frame is written. -/
theorem settles_unwritten {n n' : Network κ} {task : NetworkTask κ} {callback : κ}
    {status : Status} (hcalls : openCalls n = task :: openCalls n')
    (hc : callbackOf task = some callback) (hlog : n'.log = n.log)
    (hout : n'.outbox = n.outbox ++ [.completion callback status])
    (hframe : frameTold J (task, status) = none) : Settles J n n' [(task, status)] := by
  refine ⟨hcalls, ?_, ?_⟩
  · rw [hout, postedAnswers_append, List.filterMap_cons_some (b := (callback, status))
      (by rw [toldOf, hc]; rfl)]
    rfl
  · rw [hlog, List.filterMap_cons_none hframe]
    exact (List.append_nil _).symm

/-- A write answers its call with what became of the frame. -/
theorem settles_write {n n₀ : Network κ} {task : NetworkTask κ} {callback : κ} {frame : Frame}
    (failure : Text) (answer : Status) (hcalls : openCalls n = task :: openCalls n₀)
    (hc : callbackOf task = some callback) (hframe : frameOf task = some frame)
    (hlog : n₀.log = n.log) (hout : n₀.outbox = n.outbox) :
    ∃ answers, Settles J n (writeAndComplete J frame failure callback answer n₀) answers
      ∧ answers.length ≤ 1 := by
  rcases write_cases (J := J) frame failure callback answer n₀ with ⟨_, _, heq⟩ | ⟨_, heq⟩
  · refine ⟨[(task, okStatus)], ⟨?_, ?_, ?_⟩, Nat.le_refl _⟩
    · rw [heq]
      exact hcalls
    · rw [heq, List.filterMap_cons_some (b := (callback, okStatus)) (by rw [toldOf, hc]; rfl)]
      show postedAnswers (n₀.outbox ++ [.completion callback okStatus]) = _
      rw [postedAnswers_append, hout]
      rfl
    · have hwritten : frameTold J (task, okStatus) = some (frame, J.write frame.document) :=
        congrArg (Option.map _) hframe
      rw [heq, List.filterMap_cons_some hwritten]
      show writtenFrames (n₀.log ++ [.written _ frame _]) = _
      rw [writtenFrames_append, hlog]
      rfl
  · refine ⟨[(task, .error ⟨.internal, failure⟩)], ?_, Nat.le_refl _⟩
    rw [heq]
    exact settles_unwritten hcalls hc hlog (by rw [← hout]; rfl) rfl

theorem openCalls_begun {n n' : Network κ} {task : NetworkTask κ} {rest : List (NetworkTask κ)}
    (hs : n.stage = none) (ht : n.tasks = task :: rest) (ht' : n'.tasks = rest)
    (hs' : n'.stage.bind stageTask = if asks task then some task else none) :
    openCalls n' = openCalls n := by
  unfold openCalls
  rw [hs, ht, ht', hs', List.filter_cons]
  split <;> rfl

theorem openCalls_answered {n n' : Network κ} {task : NetworkTask κ}
    {rest : List (NetworkTask κ)} (hs : n.stage = none) (ht : n.tasks = task :: rest)
    (hs' : n'.stage = none) (ht' : n'.tasks = rest) (hc : asks task = true) :
    openCalls n = task :: openCalls n' := by
  unfold openCalls
  rw [hs, ht, hs', ht', List.filter_cons_of_pos hc]
  rfl

/-- A task that is answered before it comes to the socket. -/
theorem settles_answered {n : Network κ} {task : NetworkTask κ} {rest : List (NetworkTask κ)}
    {callback : κ} {status : Status} (hs : n.stage = none) (ht : n.tasks = task :: rest)
    (hc : callbackOf task = some callback) (hframe : frameTold J (task, status) = none) :
    ∃ answers, Settles J n (({ n with tasks := rest } : Network κ).complete callback status) answers
      ∧ answers.length ≤ 1 := by
  have hasks : asks task = true := by rw [asks, hc]; rfl
  exact ⟨[(task, status)],
    settles_unwritten (openCalls_answered hs ht hs rfl hasks) hc rfl rfl hframe, Nat.le_refl _⟩

theorem settles_begin {n : Network κ} {task : NetworkTask κ} {rest : List (NetworkTask κ)}
    (answer : Status) (hs : n.stage = none) (ht : n.tasks = task :: rest) :
    ∃ answers, Settles J n (begin answer { n with tasks := rest } task) answers
      ∧ answers.length ≤ 1 := by
  cases task with
  | connectWebSocket joinResponse =>
      exact ⟨[], settles_still (openCalls_begun hs ht rfl rfl) rfl rfl, Nat.zero_le _⟩
  | close joinResponse =>
      exact ⟨[], settles_still (openCalls_begun hs ht rfl rfl) rfl rfl, Nat.zero_le _⟩
  | sendToRoom callback =>
      exact settles_answered hs ht rfl (by cases answer <;> rfl)
  | register joinResponse callback =>
      unfold begin
      dsimp only
      split
      · exact settles_answered hs ht rfl rfl
      · exact ⟨[], settles_still (openCalls_begun hs ht rfl rfl) rfl rfl, Nat.zero_le _⟩
  | sendWebSocketMessage messageJson callback =>
      unfold begin
      dsimp only
      split
      · exact settles_answered hs ht rfl rfl
      · exact ⟨[], settles_still (openCalls_begun hs ht rfl rfl) rfl rfl, Nat.zero_le _⟩

theorem openCalls_resumed {n n' : Network κ} {stage : Stage κ} (hs : n.stage = some stage)
    (hs' : n'.stage.bind stageTask = none) (ht : n'.tasks = n.tasks) :
    openCalls n = (stageTask stage).toList ++ openCalls n' := by
  unfold openCalls
  rw [hs, hs', ht]
  rfl

theorem openCalls_passed {n n' : Network κ} {stage : Stage κ} (hs : n.stage = some stage)
    (hnone : stageTask stage = none) (hs' : n'.stage.bind stageTask = none)
    (ht : n'.tasks = n.tasks) : openCalls n' = openCalls n := by
  rw [openCalls_resumed hs hs' ht, hnone]
  rfl

theorem settles_resume {n n' : Network κ} {stage : Stage κ} {answer : Status}
    (hs : n.stage = some stage) (h : resume J answer n stage = some n') :
    ∃ answers, Settles J n n' answers ∧ answers.length ≤ 1 := by
  cases stage with
  | stopToConnect | stopToClose =>
      obtain ⟨n₁, hstop, h⟩ := Option.bind_eq_some_iff.mp h
      cases h
      have hheard := (stop_heard hstop).1
      refine ⟨[], settles_quiet ?_ hheard.log hheard.outbox, Nat.zero_le _⟩
      exact openCalls_passed hs rfl rfl hheard.tasks
  | start =>
      cases h
      refine ⟨[], settles_still ?_ rfl rfl, Nat.zero_le _⟩
      exact openCalls_passed hs rfl rfl rfl
  | writeRegister joinResponse callback =>
      cases h
      exact settles_write _ answer (openCalls_resumed hs rfl rfl) rfl rfl rfl rfl
  | writeSend messageJson callback =>
      cases h
      exact settles_write _ answer (openCalls_resumed hs rfl rfl) rfl rfl rfl rfl

/-- **A step that is not a call answers one call at most**: the one that was made first. -/
theorem settles_step {n n' : Network κ} {l : NetworkLabel κ} (hl : ∀ task, l ≠ .call task)
    (h : Network.step J n l = some n') :
    ∃ answers, Settles J n n' answers ∧ answers.length ≤ 1 := by
  cases l with
  | call task => exact absurd rfl (hl task)
  | run answer =>
      simp only [Network.step, run] at h
      split at h
      · rename_i stage hs
        exact settles_resume hs h
      · rename_i hs
        split at h
        · cases h
        · rename_i task rest ht
          cases h
          exact settles_begin answer hs ht
  | «open» | lose | fail reason =>
      simp only [Network.step] at h
      split at h
      · cases h
        exact ⟨[], settles_still rfl rfl rfl, Nat.zero_le _⟩
      · cases h
  | receive event =>
      simp only [Network.step] at h
      split at h
      · split at h
        · cases h
          exact ⟨[], settles_still rfl rfl rfl, Nat.zero_le _⟩
        · cases h
      · split at h
        · cases h
          exact ⟨[], settles_still rfl rfl rfl, Nat.zero_le _⟩
        · cases h
      · cases h
  | handle =>
      simp only [Network.step] at h
      split at h
      · cases h
      · have hheard := handle_heard h
        refine ⟨[], settles_quiet ?_ hheard.log hheard.outbox, Nat.zero_le _⟩
        unfold openCalls
        rw [hheard.stage, hheard.tasks]

/-! ## A run -/

/-- The calls of a run that left a callback, in order. -/
def callsMade (tr : List (Network κ × NetworkLabel κ)) : List (NetworkTask κ) :=
  (tr.map Prod.snd).filterMap fun
    | .call task => if asks task then some task else none
    | _ => none

theorem callsMade_append (tr more : List (Network κ × NetworkLabel κ)) :
    callsMade (tr ++ more) = callsMade tr ++ callsMade more := by
  rw [callsMade, List.map_append, List.filterMap_append]
  rfl

/--
**Every call is answered once, in order, and truly**: the calls that were made are those
that were answered and then those that stand in the queue; each callback was told of its
own call; and the frames that were written, in order and as the text of their documents,
are those of the calls that were answered with `OK`.
-/
theorem calls_answered {tr : List (Network κ × NetworkLabel κ)} {n : Network κ}
    (h : Run (Network.step J) {} tr n) :
    ∃ answered : List (Answered κ), callsMade tr = answered.map Prod.fst ++ openCalls n
      ∧ postedAnswers n.outbox = answered.filterMap toldOf
      ∧ writtenFrames n.log = answered.filterMap (frameTold J) := by
  induction h with
  | start => exact ⟨[], rfl, rfl, rfl⟩
  | @next tr n n' l _ hs ih =>
      obtain ⟨answered, hcalls, htold, hframes⟩ := ih
      have hmade := callsMade_append tr [(n, l)]
      by_cases hl : ∃ task, l = .call task
      · obtain ⟨task, rfl⟩ := hl
        cases hs
        refine ⟨answered, ?_, htold, hframes⟩
        have hopen : openCalls (n.post task) = openCalls n ++ callsMade [(n, .call task)] := by
          cases hasks : asks task <;> simp [openCalls, post, callsMade, hasks]
        rw [hmade, hcalls, hopen, List.append_assoc]
      · obtain ⟨answers, hset, -⟩ := settles_step (fun task heq => hl ⟨task, heq⟩) hs
        have hnone : callsMade [(n, l)] = [] := by
          cases l with
          | call task => exact absurd ⟨task, rfl⟩ hl
          | _ => rfl
        refine ⟨answered ++ answers, ?_, ?_, ?_⟩
        · rw [hmade, hnone, List.append_nil, hcalls, hset.calls, List.map_append,
            List.append_assoc]
        · rw [hset.told, htold, List.filterMap_append]
        · rw [hset.frames, hframes, List.filterMap_append]

/-! ## Frames as JsonCpp writes them -/

/-- A text without control characters, as a string of a document. -/
def quoted (text : Text) : Text :=
  Text.ofString "\"" ++ text.flatMap (fun b => if b = 34 ∨ b = 92 then [92, b] else [b]) ++ "\""

def writtenMember : Text × Json → Text
  | (key, .string value) => quoted key ++ ":" ++ quoted value
  | (key, _) => quoted key ++ ":null"

/-- What is written of an object whose members are such texts. -/
def writeStrings : Json → Text
  | .object members =>
      Text.ofString "\x7b" ++ List.intercalate "," (members.map writtenMember) ++ "\x7d"
  | _ => "null"

/-- The documents of a table, and a writer for objects of texts. -/
def stringsJson (table : List (Text × Json)) : JsonCpp :=
  { JsonCpp.ofTable table with write := writeStrings }

def firstFrame : Text := "\x7b\"cmd\":\"send\",\"msg\":\"first\"\x7d"

/-- A connection is opened, and two messages are sent; the second finds it lost. -/
def twoSends : List (NetworkLabel Unit) :=
  [.call (.connectWebSocket {}), .run okStatus, .run okStatus, .run okStatus, .open, .handle,
    .call (.sendWebSocketMessage "first" ()), .call (.sendWebSocketMessage "second" ()),
    .run okStatus, .run okStatus, .run okStatus, .lose, .run okStatus]

/-- The first is answered with `OK` and the second is not, so one frame was written. -/
theorem calls_answered_two :
    ∃ tr n, Run (Network.step (stringsJson [])) ({} : Network Unit) tr n
      ∧ tr.map Prod.snd = twoSends ∧ ∃ answered : List (Answered Unit),
        answered.map Prod.fst
          = [.sendWebSocketMessage "first" (), .sendWebSocketMessage "second" ()]
        ∧ answered.filterMap (frameTold (stringsJson [])) = [(.send "first", firstFrame)]
        ∧ postedAnswers n.outbox = answered.filterMap toldOf := by
  obtain ⟨n, hn, hopen, hlog⟩ : ∃ n, exec (Network.step (stringsJson [])) ({} : Network Unit)
      twoSends = some n ∧ openCalls n = [] ∧ writtenFrames n.log = [(.send "first", firstFrame)] :=
    ⟨_, rfl, rfl, by decide⟩
  obtain ⟨tr, hrun, hlabels⟩ := Run.start.exec hn
  rw [List.nil_append] at hrun
  obtain ⟨answered, hcalls, htold, hframes⟩ := calls_answered hrun
  have hmade : callsMade tr
      = [.sendWebSocketMessage "first" (), .sendWebSocketMessage "second" ()] := by
    rw [callsMade, hlabels]
    rfl
  rw [hopen, List.append_nil] at hcalls
  exact ⟨tr, n, hrun, hlabels, answered, hcalls.symm.trans hmade, hframes ▸ hlog, htold⟩

end ApprtcCli.Proof
