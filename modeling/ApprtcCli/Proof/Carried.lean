import ApprtcCli.Proof.Ledger
import ApprtcCli.Proof.Registering
import ApprtcCli.Proof.Service

/-!
# From the controller to the wire

The controller hands a message over and forgets it; a network thread takes it up, and a
socket that may be lost at any time writes it. What comes out at the other end is what was
handed over, in that order and once each, up to what is still waiting. And nothing is
missing, as long as the call goes on and no failure waits to be told: the controller ends
the call with the first failure it is told of (`sends_carried`).
-/

namespace ApprtcCli.Proof

open Lib Call Network

variable {env : Env}

/-! ## Handed over, waiting, written -/

/-- The messages the controller has handed over for the socket, in order. -/
def handedTexts (trace : List Action) : List Text :=
  trace.filterMap fun
    | .send _ .webSocket payload => some payload
    | _ => none

def textOf {κ : Type} : NetworkTask κ → Option Text
  | .sendWebSocketMessage messageJson _ => some messageJson
  | _ => none

/-- The messages that wait to be written, in order. -/
def waitingOver (n : Network Task) : List Text := (openCalls n).filterMap textOf

/-- The messages that were written, in order. -/
def sentOver (log : List SocketAction) : List Text :=
  (writtenFrames log).filterMap fun
    | (.send messageJson, _) => some messageJson
    | _ => none

/-- The call goes on, and no failure waits to be told. -/
def Unharmed (e : Endpoint) : Prop :=
  e.world.ctl.finished = false ∧ ∀ answer ∈ e.answers, answer.2 = okStatus

/-- What became of what was handed over. -/
structure Carried (env : Env) (e : Endpoint) : Prop where
  sent : ∃ front, handedTexts e.world.trace = front ++ waitingOver e.net
    ∧ (sentOver e.net.log).Sublist front ∧ (Unharmed e → sentOver e.net.log = front)
  texts : ∀ p ∈ writtenFrames e.net.log, p.2 = env.json.write p.1.document

theorem carried_init : Carried env {} where
  sent := ⟨[], rfl, List.Sublist.refl _, fun _ => rfl⟩
  texts _ h := by cases h

/-! ## A step of the signaling thread -/

theorem waitingOver_post (n : Network Task) (task : NetworkTask Task) :
    waitingOver (n.post task) = waitingOver n ++ (textOf task).toList := by
  unfold waitingOver openCalls post
  rw [List.filter_append, ← List.append_assoc, List.filterMap_append]
  cases task <;> rfl

theorem waitingOver_posted (calls : List (NetworkTask Task)) (n : Network Task) :
    waitingOver (calls.foldl post n) = waitingOver n ++ calls.filterMap textOf := by
  induction calls generalizing n with
  | nil => exact (List.append_nil _).symm
  | cons task calls ih =>
      rw [List.foldl_cons, ih, waitingOver_post, List.append_assoc, List.filterMap_cons]
      cases textOf task <;> rfl

/-- The messages among the calls of a step are those among its actions. -/
theorem clientCalls_texts (w w' : World) :
    (clientCalls w w').filterMap textOf = handedTexts (w'.trace.drop w.trace.length) := by
  have hjoined : ∀ connects started,
      (joinedCalls connects started w'.ctl.joinResponse).filterMap textOf = [] := by
    intro connects started
    cases w'.ctl.joinResponse with
    | none => rfl
    | some joinResponse =>
        refine List.filterMap_eq_nil_iff.mpr fun task hmem => ?_
        rcases List.mem_append.mp hmem with hmem | hmem
        · split at hmem
          · cases List.mem_singleton.mp hmem
            rfl
          · cases hmem
        · obtain ⟨t, _, ht⟩ := List.mem_filterMap.mp hmem
          cases t <;> cases ht
          rfl
  rw [clientCalls, List.filterMap_append, hjoined, List.nil_append, handedTexts,
    List.filterMap_filterMap]
  refine List.filterMap_congr fun a _ => ?_
  cases a with
  | send kind route payload => cases route <;> rfl
  | _ => rfl

theorem posted_log (calls : List (NetworkTask Task)) (n : Network Task) :
    (calls.foldl post n).log = n.log := by
  induction calls generalizing n with
  | nil => rfl
  | cons task calls ih => exact ih _

/-- What a step of the signaling thread hands over waits behind what was handed over before. -/
theorem Carried.advance {e e' : Endpoint} {l : Label} {answers : List (Task × Status)}
    (hr : Reached env e.world) (h : Carried env e)
    (hs : Endpoint.advance env { e with answers := answers } l = some e')
    (hunharmed : Unharmed e' → Unharmed e) : Carried env e' := by
  obtain ⟨w', hw, rfl⟩ := endpoint_advance_eq hs
  obtain ⟨front, hhanded, hsub, hexact⟩ := h.sent
  obtain ⟨actions, hactions⟩ := trace_step hr (restrict_eq_some.mp hw).2
  have hlog := posted_log (clientCalls e.world w') e.net
  refine ⟨⟨front, ?_, ?_, fun hun => ?_⟩, ?_⟩
  · show handedTexts w'.trace = front ++ waitingOver ((clientCalls e.world w').foldl post e.net)
    rw [waitingOver_posted, clientCalls_texts, ← hactions, List.drop_left, ← List.append_assoc,
      ← hhanded]
    exact List.filterMap_append ..
  · exact hlog ▸ hsub
  · exact hlog ▸ hexact (hunharmed hun)
  · exact hlog ▸ h.texts

/-- A failure that is told ends the call. -/
theorem failure_ends {w w' : World} {t : Task} {rest : List Task} {err : Error}
    (h : Reached env w) (hs : Call.step env w (.run (.status (.error err))) = some w')
    (hq : w.queue = t :: rest) (hdone : t.isNetworkDone = true) : w'.ctl.finished = true := by
  have hquit := (base_visited (reached_visited (h.next hs))).quit
  obtain ⟨t', rest', hq', hrun⟩ := run_eq hs
  rw [hq] at hq'
  cases hq'
  cases t with
  | registerComplete =>
      injection hrun with hrun
      rw [← hrun, onRegisterComplete]
      split
      · assumption
      · exact finish_sets ..
  | sendComplete kind =>
      cases kind with
      | description | candidate n =>
          injection hrun with hrun
          rw [← hrun]
          exact finish_sets ..
      | bye status => exact hquit (bye_quits hrun)
  | _ => cases hdone

/-! ## A step of the network thread -/

/-- What an answer says was written, where it is a message. -/
def sentText (J : JsonCpp) (a : Answered Task) : Option Text :=
  (frameTold J a).bind fun
    | (.send messageJson, _) => some messageJson
    | _ => none

theorem sentText_ok (J : JsonCpp) (task : NetworkTask Task) :
    sentText J (task, okStatus) = textOf task := by
  cases task <;> rfl

theorem sentTexts_sublist (J : JsonCpp) (answers : List (Answered Task)) :
    (answers.filterMap (sentText J)).Sublist ((answers.map Prod.fst).filterMap textOf) := by
  induction answers with
  | nil => exact List.Sublist.refl _
  | cons a answers ih =>
      obtain ⟨task, status⟩ := a
      rw [List.map_cons, List.filterMap_cons, List.filterMap_cons]
      cases status with
      | ok =>
          rw [show sentText J (task, .ok _) = textOf task from sentText_ok J task]
          cases textOf task with
          | none => exact ih
          | some text => exact ih.cons_cons text
      | error err =>
          rw [show sentText J (task, .error err) = none from rfl]
          cases textOf task with
          | none => exact ih
          | some text => exact ih.cons text

/-- Those who were told of successes only: all that was waiting was written. -/
theorem sentTexts_ok {J : JsonCpp} {answers : List (Answered Task)}
    (h : ∀ told ∈ answers.filterMap toldOf, told.2 = okStatus) :
    answers.filterMap (sentText J) = (answers.map Prod.fst).filterMap textOf := by
  rw [List.filterMap_map]
  refine List.filterMap_congr fun a ha => ?_
  obtain ⟨task, status⟩ := a
  cases hc : callbackOf task with
  | none => cases task <;> cases hc <;> cases status <;> rfl
  | some callback =>
      have htold : toldOf (task, status) = some (callback, status) := by rw [toldOf, hc]; rfl
      cases h _ (List.mem_filterMap.mpr ⟨_, ha, htold⟩)
      exact sentText_ok J task

theorem sentOver_frames {J : JsonCpp} {log log' : List SocketAction}
    {answers : List (Answered Task)}
    (h : writtenFrames log' = writtenFrames log ++ answers.filterMap (frameTold J)) :
    sentOver log' = sentOver log ++ answers.filterMap (sentText J) := by
  unfold sentOver
  rw [h, List.filterMap_append, List.filterMap_filterMap]
  rfl

/-- What is posted to a destroyed controller is dropped; else the queue gets every answer. -/
theorem deliver_answers {e : Endpoint} {n : Network Task} (hd : e.world.destroyed = false) :
    (Endpoint.deliver { e with net := n }).answers = e.answers ++ postedAnswers n.outbox := by
  have hfold : ∀ (posted : List (Posted Task)) (e : Endpoint),
      (posted.foldl Endpoint.postToCallbackThread e).answers
        = e.answers ++ postedAnswers posted := by
    intro posted
    induction posted with
    | nil => exact fun e => (List.append_nil _).symm
    | cons p posted ih =>
        intro e
        rw [List.foldl_cons, ih]
        cases p with
        | event => rfl
        | completion callback status =>
            rw [Endpoint.postToCallbackThread, List.append_assoc]
            rfl
  unfold Endpoint.deliver
  rw [if_neg (by simp [hd]), hfold]

/-- **What is written was waiting, and waited first.** -/
theorem Carried.net {e : Endpoint} {n' : Network Task} {l : NetworkLabel Task}
    (hr : Reached env e.world) (hout : e.net.outbox = []) (h : Carried env e)
    (hl : ∀ task, l ≠ .call task) (hs : Network.step env.json e.net l = some n') :
    Carried env (Endpoint.deliver { e with net := n' }) := by
  obtain ⟨front, hhanded, hsub, hexact⟩ := h.sent
  obtain ⟨answers, hset, -⟩ := settles_step hl hs
  obtain ⟨htrace, hctl, hnet⟩ := deliver_keeps (e := e) (n := n')
  have hwaiting : waitingOver (Endpoint.deliver { e with net := n' }).net = waitingOver n' := by
    rw [hnet]
    rfl
  have hlog : (Endpoint.deliver { e with net := n' }).net.log = n'.log := by rw [hnet]
  have hsent := sentOver_frames hset.frames
  refine ⟨⟨front ++ (answers.map Prod.fst).filterMap textOf, ?_, ?_, fun hun => ?_⟩, ?_⟩
  · rw [htrace, hhanded, hwaiting, List.append_assoc, waitingOver, hset.calls,
      List.filterMap_append]
    rfl
  · rw [hlog, hsent]
    exact hsub.append (sentTexts_sublist env.json answers)
  · -- the controller is there to be told, so it was told of nothing but successes
    obtain ⟨hunfinished, hok⟩ := hun
    rw [hctl] at hunfinished
    have hd : e.world.destroyed = false := by
      by_contra hd
      rw [finished_of_destroyed hr (by simpa using hd)] at hunfinished
      cases hunfinished
    rw [deliver_answers hd, hset.told, hout, show postedAnswers [] = [] from rfl,
      List.nil_append] at hok
    have hbefore : Unharmed e :=
      ⟨hunfinished, fun answer ha => hok answer (List.mem_append_left _ ha)⟩
    rw [hlog, hsent, hexact hbefore,
      sentTexts_ok fun told ha => hok told (List.mem_append_right _ ha)]
  · rw [hlog, hset.frames]
    intro p hp
    rcases List.mem_append.mp hp with hp | hp
    · exact h.texts p hp
    · obtain ⟨⟨task, status⟩, _, htold⟩ := List.mem_filterMap.mp hp
      cases status with
      | ok =>
          obtain ⟨frame, _, rfl⟩ := Option.map_eq_some_iff.mp htold
          rfl
      | error => cases htold

/-! ## Every step -/

theorem carried_step {e e' : Endpoint} {l : EndpointLabel} (hlinked : Linked env e)
    (h : Carried env e) (hs : Endpoint.step env e l = some e') : Carried env e' := by
  have hr := hlinked.world.of_restrict
  rcases endpoint_step_cases hs with ⟨own, rfl, hown, hs⟩
    | ⟨task, rest, callback, status, answers, rfl, hq, ha, hdone, hs⟩
    | ⟨turn, n', rfl, hturn, hnet, rfl⟩
  · refine h.advance hr hs fun hun => ?_
    obtain ⟨w', hw, rfl⟩ := endpoint_advance_eq hs
    exact ⟨unfinished_step hr (restrict_eq_some.mp hw).2 hun.1, hun.2⟩
  · refine h.advance hr hs fun hun => ?_
    obtain ⟨w', hw, rfl⟩ := endpoint_advance_eq hs
    have hstep := (restrict_eq_some.mp hw).2
    refine ⟨unfinished_step hr hstep hun.1, fun answer hmem => ?_⟩
    rw [ha] at hmem
    rcases List.mem_cons.mp hmem with rfl | hmem
    · -- had this been a failure, the call would be over now
      cases status with
      | ok => rfl
      | error err =>
          have hover := failure_ends hr hstep hq hdone
          rw [show w'.ctl.finished = false from hun.1] at hover
          cases hover
    · exact hun.2 answer hmem
  · exact h.net hr hlinked.outbox hturn hnet

/--
**What the controller hands over is carried to the wire**: the messages it has handed over
are some it has done with and then those that wait. Of the former, those that were written
were written in their order and once each; and all of them were, as long as the call goes
on and no failure waits to be told. Each went out as the text of its frame.
-/
theorem sends_carried {e : Endpoint} (h : Reachable (Endpoint.step env) {} e) :
    (∃ front, handedTexts e.world.trace = front ++ waitingOver e.net
        ∧ (sentOver e.net.log).Sublist front ∧ (Unharmed e → sentOver e.net.log = front))
      ∧ ∀ p ∈ writtenFrames e.net.log, p.2 = env.json.write p.1.document := by
  have hinv := h.invariant (I := fun e => Linked env e ∧ Carried env e)
    ⟨linked_init, carried_init⟩
    fun _ _ _ _ hi hs => ⟨linked_step hi.1 hs, carried_step hi.1 hi.2 hs⟩
  exact ⟨hinv.2.sent, hinv.2.texts⟩

/-- The client of `answeringLabels`, with a writer for what it sends. -/
def answeringEnv : Env :=
  { gatheringEnv with json := { gatheringEnv.json with write := writeStrings } }

def sentAnswer : Text := "\x7b\"sdp\":\"v=0\",\"type\":\"answer\"\x7d"

/-- The answer's text in its frame, with its quotes escaped. -/
def sentAnswerFrame : Text :=
  Text.ofString "\x7b\"cmd\":\"send\","
    ++ "\"msg\":\"\x7b\\\"sdp\\\":\\\"v=0\\\",\\\"type\\\":\\\"answer\\\"\x7d\"\x7d"

/-- An answer that was handed over waits, and then it is on the wire. -/
theorem sends_carried_answer :
    ∃ e, Reachable (Endpoint.step answeringEnv) {} e ∧ Unharmed e
      ∧ handedTexts e.world.trace = [sentAnswer] ∧ sentOver e.net.log = [sentAnswer]
      ∧ ∃ p ∈ writtenFrames e.net.log, p.2 = sentAnswerFrame := by
  obtain ⟨e, he, hun, hanswers, hwaiting, hsent, hframe⟩ :
      ∃ e, exec (Endpoint.step answeringEnv) {}
        (answeringLabels ++ [.net (.run okStatus), .net (.run okStatus)]) = some e
        ∧ e.world.ctl.finished = false ∧ e.answers.map Prod.snd = [okStatus]
        ∧ waitingOver e.net = [] ∧ sentOver e.net.log = [sentAnswer]
        ∧ (writtenFrames e.net.log).getLast?.map Prod.fst = some (.send sentAnswer) :=
    ⟨_, rfl, rfl, rfl, rfl, by decide, by decide⟩
  have hunharmed : Unharmed e := by
    refine ⟨hun, fun answer ha => ?_⟩
    have hmem := List.mem_map_of_mem (f := Prod.snd) ha
    rw [hanswers] at hmem
    exact List.mem_singleton.mp hmem
  obtain ⟨⟨front, hhanded, -, hexact⟩, htexts⟩ := sends_carried (Reachable.of_exec he)
  refine ⟨e, Reachable.of_exec he, hunharmed, ?_, hsent, ?_⟩
  · rw [hhanded, hwaiting, List.append_nil, ← hexact hunharmed, hsent]
  · obtain ⟨p, hp, hfst⟩ := Option.map_eq_some_iff.mp hframe
    refine ⟨p, List.mem_of_getLast? hp, ?_⟩
    rw [htexts p (List.mem_of_getLast? hp), hfst]
    decide

end ApprtcCli.Proof
