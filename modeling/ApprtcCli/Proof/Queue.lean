import ApprtcCli.Lib.StableSort
import ApprtcCli.Proof.Flight
import ApprtcCli.Proof.Outcome

/-!
# The queue of signaling messages

`pending_signaling_messages_` is filled from two sources and emptied from one end.
`OnJoinComplete` puts the sorted messages of the join response there, before the
websocket is so much as started, so no message off the socket can come before them;
from then on every accepted message goes to the back. What was popped and what is
still queued are therefore always the one list after the other, and the pump can
stop and resume where it likes.
-/

namespace ApprtcCli.Proof

open Lib Call

variable {env : Env}

/-- The messages the pump took off the queue, in order. -/
def poppedMessages (l : List Action) : List SignalingMessage :=
  l.filterMap fun
    | .popped m _ => some m
    | _ => none

/-- The messages `OnInboundSignalingMessage` put on the queue, in order. -/
def acceptedMessages (l : List Action) : List SignalingMessage :=
  l.filterMap fun
    | .accepted m => some m
    | _ => none

/-- The messages of a list of texts: a text that does not parse is left out. -/
def parsedMessages (env : Env) (texts : List Text) : List SignalingMessage :=
  texts.filterMap fun text =>
    match parseSignalingMessage env.json text with
    | some (.ok m) => some m
    | _ => none

/-- The messages `QueueJoinMessages` put on the queue. -/
def joinMessages (env : Env) (l : List Action) : List SignalingMessage :=
  l.flatMap fun
    | .joinQueued texts => sortQueued (parsedMessages env texts)
    | _ => []

/-! ## The join messages -/

/-- Offers and answers, then candidates, then byes, then the rest, each as they came. -/
def joinOrder (messages : List SignalingMessage) : List SignalingMessage :=
  messages.filter (fun m => m.type = .offer ∨ m.type = .answer)
    ++ messages.filter (fun m => m.type = .candidate)
    ++ messages.filter (fun m => m.type = .bye)
    ++ messages.filter (fun m => m.type = .unknown)

/-- A priority is the priority of the types that have it. -/
theorem keyClass_priority {n : Nat} {f : SignalingMessageType → Bool}
    (h : ∀ type, decide (queuedMessagePriority type = n) = f type)
    (messages : List SignalingMessage) :
    keyClass (fun m => queuedMessagePriority m.type) n messages
      = messages.filter fun m => f m.type :=
  List.filter_congr fun m _ => h m.type

theorem sortQueued_eq (messages : List SignalingMessage) :
    sortQueued messages = joinOrder messages := by
  have hbound : ∀ m ∈ messages, queuedMessagePriority m.type < 4 := by
    intro m _
    cases m.type <;> decide
  have hsort : sortQueued messages
      = sortByKey (fun m : SignalingMessage => queuedMessagePriority m.type) messages := rfl
  have hclasses : List.range' 0 4 = [0, 1, 2, 3] := rfl
  rw [hsort, sortByKey_eq hbound, hclasses]
  simp only [List.flatMap_cons, List.flatMap_nil, List.append_nil, joinOrder]
  rw [keyClass_priority (n := 0) (f := fun type => type = .offer ∨ type = .answer),
    keyClass_priority (n := 1) (f := fun type => type = .candidate),
    keyClass_priority (n := 2) (f := fun type => type = .bye),
    keyClass_priority (n := 3) (f := fun type => type = .unknown)]
  · simp only [List.append_assoc]
  all_goals
    intro type
    cases type <;> rfl

theorem parseJoinMessages_eq {texts : List Text} {queued : List SignalingMessage}
    (h : parseJoinMessages env texts = some queued) : queued = parsedMessages env texts := by
  obtain ⟨parsed, hmap, hq⟩ := Option.bind_eq_some_iff.mp h
  injection hq with hq
  subst hq
  clear h
  induction texts generalizing parsed with
  | nil =>
      cases hmap
      rfl
  | cons text texts ih =>
      rw [List.mapM_cons] at hmap
      obtain ⟨r, hr, hmap⟩ := Option.bind_eq_some_iff.mp hmap
      obtain ⟨rs, hrs, hmap⟩ := Option.bind_eq_some_iff.mp hmap
      injection hmap with hmap
      subst hmap
      have hrest := ih rs hrs
      cases r with
      | error e =>
          simp only [parsedMessages, List.filterMap_cons, hr]
          exact hrest
      | ok m =>
          simp only [parsedMessages, List.filterMap_cons, hr]
          exact congrArg (m :: ·) hrest

/-! ## The history of the queue -/

theorem poppedMessages_append (l k : List Action) :
    poppedMessages (l ++ k) = poppedMessages l ++ poppedMessages k :=
  List.filterMap_append

theorem poppedMessages_cons (m : SignalingMessage) (n : Nat) (l : List Action) :
    poppedMessages (.popped m n :: l) = m :: poppedMessages l := rfl

theorem acceptedMessages_append (l k : List Action) :
    acceptedMessages (l ++ k) = acceptedMessages l ++ acceptedMessages k :=
  List.filterMap_append

theorem joinMessages_append (l k : List Action) :
    joinMessages env (l ++ k) = joinMessages env l ++ joinMessages env k :=
  List.flatMap_append

/-- Brings no message. -/
def notReceived : Action → Bool
  | .accepted _ => false
  | .joinQueued _ => false
  | _ => true

theorem routine_notReceived : Routine notReceived :=
  ⟨fun _ => rfl, rfl, fun _ => rfl, rfl, fun _ => rfl⟩

theorem received_quiet (env : Env) {l : List Action} (h : l.all notReceived = true) :
    acceptedMessages l = [] ∧ joinMessages env l = [] := by
  have hq := List.all_eq_true.mp h
  constructor
  · rw [acceptedMessages, List.filterMap_eq_nil_iff]
    intro a ha
    have hq := hq a ha
    cases a <;> first | rfl | cases hq
  · rw [joinMessages, List.flatMap_eq_nil_iff]
    intro a ha
    have hq := hq a ha
    cases a <;> first | rfl | cases hq

/-- Has nothing to do with the queue. -/
def noMessage : Action → Bool
  | .popped _ _ => false
  | .accepted _ => false
  | .joinQueued _ => false
  | _ => true

theorem routine_noMessage : Routine noMessage :=
  ⟨fun _ => rfl, rfl, fun _ => rfl, rfl, fun _ => rfl⟩

theorem noMessage_notReceived {l : List Action} (h : l.all noMessage = true) :
    l.all notReceived = true := by
  refine List.all_eq_true.mpr fun a ha => ?_
  have hq := List.all_eq_true.mp h a ha
  cases a <;> first | rfl | cases hq

theorem messages_quiet (env : Env) {l : List Action} (h : l.all noMessage = true) :
    poppedMessages l = [] ∧ acceptedMessages l = [] ∧ joinMessages env l = [] := by
  refine ⟨?_, received_quiet env (noMessage_notReceived h)⟩
  rw [poppedMessages, List.filterMap_eq_nil_iff]
  intro a ha
  have hq := List.all_eq_true.mp h a ha
  cases a <;> first | rfl | cases hq

/-- A message is popped by a registered controller with no step in flight. -/
def PoppedFreely (pre : List Action) : Action → Prop
  | .popped _ n => .registered ∈ pre ∧ n = 0
  | _ => True

theorem poppedFreely_quiet {l : List Action} (h : l.all noMessage = true) :
    ∀ a ∈ l, ∀ pre, PoppedFreely pre a := by
  intro a ha pre
  have hq := List.all_eq_true.mp h a ha
  cases a <;> trivial

def isSignaling : Task → Bool
  | .signaling _ => true
  | _ => false

/-- Acting on a join response, or done with the call. -/
def Busy (p : Phase) (w : World) : Prop :=
  w.ctl.finished = true ∨ p.finishes = true ∨ ∃ joinResponse, p = .setUp joinResponse

/-- Where neither phase is busy, only finishing counts. -/
theorem Busy.over {p p' : Phase} {w w' : World} (hp : p.finishes = false)
    (hset : ∀ joinResponse, p ≠ .setUp joinResponse)
    (hf : w'.ctl.finished = w.ctl.finished) (h : Busy p w) : Busy p' w' := by
  rcases h with h | h | ⟨jr, h⟩
  · exact Or.inl (hf.trans h)
  · rw [hp] at h
    cases h
  · exact absurd h (hset jr)

structure Queued (env : Env) (p : Phase) (w : World) : Prop where
  fifo : poppedMessages w.trace ++ w.ctl.pendingSignalingMessages
    = joinMessages env w.trace ++ acceptedMessages w.trace
  law : Trail PoppedFreely w.trace
  registered : w.ctl.negotiationReady = true → .registered ∈ w.trace
  /-- The socket is started once the join messages are queued. -/
  started : w.webSocketStarted = true → ∃ joinResponse, w.ctl.joinResponse = some joinResponse
    ∧ joinMessages env w.trace = sortQueued (parsedMessages env joinResponse.messages)
  unstarted : w.webSocketStarted = false →
    joinMessages env w.trace = [] ∧ acceptedMessages w.trace = []
      ∧ (∀ t ∈ load p w, isSignaling t = false)
      ∧ (w.ctl.joinResponse.isSome = true → Busy p w)

/-- The fields `Queued` speaks of. -/
structure SameInbox (w w' : World) : Prop where
  pending : w'.ctl.pendingSignalingMessages = w.ctl.pendingSignalingMessages
  joinResponse : w'.ctl.joinResponse = w.ctl.joinResponse
  started : w'.webSocketStarted = w.webSocketStarted

/-- Moves that have nothing to do with the queue. -/
theorem Queued.quiet {p p' : Phase} {w w' : World} {l : List Action} (h : Queued env p w)
    (hs : SameInbox w w')
    (hready : w'.ctl.negotiationReady = true →
      w.ctl.negotiationReady = true ∨ .registered ∈ l)
    (hbusy : Busy p w → Busy p' w')
    (hload : ∀ t ∈ load p' w', isSignaling t = true → t ∈ load p w)
    (htrace : w'.trace = w.trace ++ l) (hquiet : l.all noMessage = true) :
    Queued env p' w' := by
  obtain ⟨hpop, hacc, hjoin⟩ := messages_quiet env hquiet
  have hpop : poppedMessages w'.trace = poppedMessages w.trace := by
    rw [htrace, poppedMessages_append, hpop, List.append_nil]
  have hacc : acceptedMessages w'.trace = acceptedMessages w.trace := by
    rw [htrace, acceptedMessages_append, hacc, List.append_nil]
  have hjoin : joinMessages env w'.trace = joinMessages env w.trace := by
    rw [htrace, joinMessages_append, hjoin, List.append_nil]
  refine ⟨?_, ?_, ?_, ?_, ?_⟩
  · rw [hpop, hacc, hjoin, hs.pending]
    exact h.fifo
  · rw [htrace]
    exact h.law.append (poppedFreely_quiet hquiet)
  · intro hr
    rw [htrace]
    rcases hready hr with hr | hr
    · exact List.mem_append_left _ (h.registered hr)
    · exact List.mem_append_right _ hr
  · rw [hs.started, hs.joinResponse, hjoin]
    exact h.started
  · rw [hs.started, hs.joinResponse, hjoin, hacc]
    intro hno
    obtain ⟨h1, h2, h3, h4⟩ := h.unstarted hno
    refine ⟨h1, h2, fun t ht => ?_, fun hj => hbusy (h4 hj)⟩
    cases hsig : isSignaling t with
    | false => rfl
    | true => rw [← hsig]; exact h3 t (hload t ht hsig)

/-- The front message is popped. -/
theorem Queued.pop {p' : Phase} {w w' : World} {m : SignalingMessage}
    {rest : List SignalingMessage} {l : List Action} (h : Queued env .pump w)
    (hfl : Flight .pump w) (hp : Pumping w) (hq : w.ctl.pendingSignalingMessages = m :: rest)
    (hrest : w'.ctl.pendingSignalingMessages = rest)
    (hready : w'.ctl.negotiationReady = w.ctl.negotiationReady)
    (hj : w'.ctl.joinResponse = w.ctl.joinResponse)
    (hstarted : w'.webSocketStarted = w.webSocketStarted)
    (htrace : w'.trace = w.trace ++ .popped m w.stepsInFlight :: l)
    (hquiet : l.all noMessage = true) : Queued env p' w' := by
  obtain ⟨hpop, hacc, hjoin⟩ := messages_quiet env hquiet
  have hsplit : w'.trace = (w.trace ++ [.popped m w.stepsInFlight]) ++ l := by
    rw [htrace]; simp
  have hpop : poppedMessages w'.trace = poppedMessages w.trace ++ [m] := by
    rw [hsplit, poppedMessages_append, poppedMessages_append, hpop]
    simp [poppedMessages]
  have hacc : acceptedMessages w'.trace = acceptedMessages w.trace := by
    rw [hsplit, acceptedMessages_append, acceptedMessages_append, hacc]
    simp [acceptedMessages]
  have hjoin : joinMessages env w'.trace = joinMessages env w.trace := by
    rw [hsplit, joinMessages_append, joinMessages_append, hjoin]
    simp [joinMessages]
  -- something was queued, so the socket was started
  have hopen : w.webSocketStarted = true := by
    cases hs : w.webSocketStarted with
    | true => rfl
    | false =>
        obtain ⟨h1, h2, _, _⟩ := h.unstarted hs
        have hfifo := h.fifo
        rw [h1, h2, hq] at hfifo
        simp at hfifo
  refine ⟨?_, ?_, ?_, ?_, ?_⟩
  · rw [hpop, hacc, hjoin, hrest, List.append_assoc, List.singleton_append, ← hq]
    exact h.fifo
  · rw [hsplit]
    have hfree : PoppedFreely w.trace (.popped m w.stepsInFlight) :=
      ⟨h.registered hp.ready, hfl.free hp⟩
    exact (trail_concat.mpr ⟨h.law, hfree⟩).append (poppedFreely_quiet hquiet)
  · rw [hready, htrace]
    exact fun hr => List.mem_append_left _ (h.registered hr)
  · rw [hstarted, hj, hjoin]
    exact h.started
  · rw [hstarted, hopen]
    simp

theorem queued_init : Queued env .idle initial where
  fifo := rfl
  law := trail_singleton trivial
  registered h := by cases h
  started h := by cases h
  unstarted _ := by
    refine ⟨rfl, rfl, ?_, fun h => by cases h⟩
    intro t ht
    rcases load_initial ht with rfl | rfl <;> rfl

/-- What the pump leaves on beginning a step. -/
theorem began_noMessage {before : CallState} {l : List Action} (h : l.all noMessage = true) :
    (stateActions before .negotiating ++ l).all noMessage = true := by
  rw [List.all_append, all_stateActions rfl, h]
  rfl

/-- **Kept by every move.** -/
theorem queued_move {p p' : Phase} {w w' : World} (hb : Base p w) (hj : Joining p w)
    (hfl : Flight p w) (h : Queued env p w) (hm : Move env p w p' w') : Queued env p' w' := by
  cases hm with
  -- the pump takes the front of the queue
  | candidateBuffered hp hq => exact h.pop hfl hp hq rfl rfl rfl rfl rfl rfl
  | candidatePassed hp hq | candidateFailed hp hq =>
      exact h.pop hfl hp hq rfl rfl rfl rfl rfl (all_passActions rfl fun _ => rfl)
  | byePopped hp hq | unknownPopped hp hq => exact h.pop hfl hp hq rfl rfl rfl rfl rfl rfl
  | remoteBegun hp hq | remoteUnparsed hp hq =>
      exact h.pop hfl hp hq rfl rfl rfl rfl rfl (began_noMessage rfl)
  | @accepted _ r m hf =>
      -- the socket that delivered it was started
      have hopen : w.webSocketStarted = true := by
        cases hs : w.webSocketStarted with
        | true => rfl
        | false =>
            exact absurd ((h.unstarted hs).2.2.1 _ (List.mem_cons_self ..))
              (fun h => Bool.noConfusion h)
      have hjoin : joinMessages env (w.trace ++ [.accepted m]) = joinMessages env w.trace := by
        rw [joinMessages_append]
        simp [joinMessages]
      refine ⟨?_, trail_concat.mpr ⟨h.law, trivial⟩, ?_, ?_, ?_⟩
      · rw [grow_trace, grow_ctl, hjoin, poppedMessages_append, acceptedMessages_append]
        simp only [poppedMessages, acceptedMessages, poppedCtl, List.filterMap_cons,
          List.filterMap_nil, List.append_nil]
        rw [← List.append_assoc, ← List.append_assoc]
        exact congrArg (· ++ [m]) h.fifo
      · exact fun hr => List.mem_append_left _ (h.registered hr)
      · intro hs
        rw [grow_trace, hjoin]
        exact h.started hs
      · intro hs
        exact Bool.noConfusion (hopen.symm.trans hs)
  | @setUpDone _ jr queued hq hf hc =>
      -- nothing came before, so the sorted messages are the whole queue
      have hw := hj.fresh (Or.inl ⟨jr, rfl⟩)
      obtain ⟨hjoin, hacc, _, _⟩ := h.unstarted hw.closed
      have hpop : poppedMessages w.trace = [] := by
        have hfifo := h.fifo
        rw [hjoin, hacc] at hfifo
        exact (List.append_eq_nil_iff.mp hfifo).1
      have hjoined : w.ctl.joinResponse = some jr := hb.setUp jr rfl
      have hqueue : (Action.joinQueued jr.messages
          :: stateActions w.ctl.state .connectingWebSocket)
          = [.joinQueued jr.messages] ++ stateActions w.ctl.state .connectingWebSocket := rfl
      have hquiet : (stateActions w.ctl.state .connectingWebSocket).all noMessage = true :=
        routine_noMessage.states
      obtain ⟨hpop', hacc', hjoin'⟩ := messages_quiet env hquiet
      refine ⟨?_, ?_, ?_, ?_, fun h => Bool.noConfusion h⟩
      · rw [grow_trace, hqueue]
        simp only [poppedMessages_append, acceptedMessages_append, joinMessages_append, hpop,
          hacc, hjoin, hpop', hacc', hjoin']
        simp [poppedMessages, acceptedMessages, joinMessages, poppedCtl, hw.pending,
          parseJoinMessages_eq hq]
      · rw [grow_trace, hqueue, ← List.append_assoc]
        have hlaw : Trail PoppedFreely (w.trace ++ [.joinQueued jr.messages]) :=
          trail_concat.mpr ⟨h.law, trivial⟩
        exact hlaw.append (poppedFreely_quiet routine_noMessage.states)
      · intro hr
        exact List.mem_append_left _ (h.registered hr)
      · intro _
        refine ⟨jr, hjoined, ?_⟩
        rw [grow_trace, hqueue]
        simp only [joinMessages_append, hjoin, hjoin']
        simp [joinMessages]
  | registered hf =>
      -- the mark that lets the pump begin
      refine h.quiet ⟨rfl, rfl, rfl⟩ (fun _ => Or.inr (List.mem_cons_self ..)) ?_
        (load_started (grow_pending ..) (all_statsStarted rfl _)) rfl rfl
      rintro (hf' | hp | ⟨jr, hp⟩)
      · exact Or.inl hf'
      · cases hp
      · cases hp
  | byeSent hf =>
      refine h.quiet ⟨rfl, rfl, rfl⟩ Or.inl (fun _ => Or.inl hf)
        (load_kept (completed_pending ..)) rfl ?_
      rw [List.all_cons, routine_noMessage.closing]
      rfl
  | ended =>
      exact h.quiet ⟨rfl, rfl, rfl⟩ Or.inl (fun _ => Or.inl rfl) (load_kept (ended_pending ..))
        (ended_trace ..) (routine_noMessage.ended rfl rfl)
  | byeStarted hf hj' =>
      refine h.quiet ⟨rfl, rfl, rfl⟩ Or.inl (fun _ => Or.inl rfl)
        (load_started (byeSent_pending ..) rfl) rfl ?_
      rw [stopActions, List.all_append, List.all_cons, routine_noMessage.states]
      rfl
  | @joined _ jr hf =>
      -- the only join there is
      have hw := hj.fresh (Or.inr ⟨hj.unjoined, hf, rfl⟩)
      obtain ⟨hjoin, hacc, htasks, _⟩ := h.unstarted hw.closed
      refine ⟨by simpa [grow] using h.fifo, by simpa using h.law, ?_, ?_, ?_⟩
      · intro hr
        simpa using h.registered hr
      · intro hs
        exact Bool.noConfusion (hw.closed.symm.trans hs)
      · intro _
        refine ⟨by simpa using hjoin, by simpa using hacc, ?_, fun _ => Or.inr (Or.inr ⟨jr, rfl⟩)⟩
        intro t ht
        exact htasks t (List.mem_cons_of_mem _ (by simpa [load] using ht))
  | already hf =>
      exact h.quiet (l := []) ⟨rfl, rfl, rfl⟩ Or.inl (fun _ => Or.inl hf) (load_kept rfl)
        (by simp) rfl
  | fail | setUpFailed =>
      exact h.quiet (l := []) ⟨rfl, rfl, rfl⟩ Or.inl (fun _ => Or.inr (Or.inl rfl))
        (load_kept rfl) (by simp) rfl
  | descriptionUnsent | startupTimer | durationTimer | chainFailed =>
      exact h.quiet ⟨rfl, rfl, rfl⟩ Or.inl (fun _ => Or.inr (Or.inl rfl))
        (load_started (grow_pending ..) rfl) rfl rfl
  | @flushFailed _ _ sdpType _ front _ _ ht hfront =>
      refine h.quiet ⟨rfl, rfl, rfl⟩ Or.inl (fun _ => Or.inr (Or.inl rfl))
        (load_started (grow_pending ..) rfl) rfl ?_
      rw [List.all_append, List.all_cons, all_passActions rfl fun _ => rfl]
      rfl
  | factoryCreated | connectionCreated | setUpDeref | videoSourceCreated =>
      exact h.quiet ⟨rfl, rfl, rfl⟩ Or.inl (fun _ => Or.inr (Or.inr ⟨_, rfl⟩))
        (load_started (grow_pending ..) rfl) rfl rfl
  -- a task that leaves the queue alone, whoever is busy with it
  | ignore | stopped | drained =>
      exact h.quiet (l := []) ⟨rfl, rfl, rfl⟩ Or.inl (Busy.over rfl (by simp) rfl)
        (load_kept rfl) (by simp) rfl
  | observed =>
      refine h.quiet ⟨rfl, rfl, rfl⟩ Or.inl (Busy.over rfl (by simp) rfl) ?_ rfl rfl
      intro t ht _
      simpa [load] using ht
  | stats hs =>
      refine h.quiet ⟨rfl, rfl, rfl⟩ Or.inl (Busy.over rfl (by simp) rfl)
        (load_started (grow_pending ..) rfl) rfl ?_
      rcases hs with rfl | ⟨_, rfl⟩ <;> rfl
  | descriptionSent | localBegun | localSet | candidateSent =>
      exact h.quiet ⟨rfl, rfl, rfl⟩ Or.inl (Busy.over rfl (by simp) rfl)
        (load_started (grow_pending ..) rfl) rfl rfl
  | remoteOfferSet | remoteAnswerSet =>
      refine h.quiet ⟨rfl, rfl, rfl⟩ Or.inl (Busy.over rfl (by simp) rfl)
        (load_started (grow_pending ..) rfl) rfl ?_
      rw [List.all_append, List.all_cons, all_passActions rfl fun _ => rfl]
      rfl
  | webSocketOpen =>
      exact h.quiet ⟨rfl, rfl, rfl⟩ Or.inl (Busy.over rfl (by simp) rfl)
        (load_started (grow_pending ..) rfl) rfl routine_noMessage.states
  | offerStarted =>
      exact h.quiet ⟨rfl, rfl, rfl⟩ Or.inl (Busy.over rfl (by simp) rfl)
        (load_started (grow_pending ..) rfl) rfl (began_noMessage rfl)
  | established =>
      refine h.quiet ⟨rfl, rfl, rfl⟩ Or.inl (Busy.over rfl (by simp) rfl)
        (load_established fun _ => rfl) rfl ?_
      rw [List.all_cons, routine_noMessage.states]
      rfl

theorem queued_enter {p : Phase} {w w' : World} {l : Label} (h : Queued env .idle w)
    (he : Enter w l p w') : Queued env p w' := by
  cases he with
  | post hi =>
      exact h.quiet (l := []) ⟨rfl, rfl, rfl⟩ Or.inl (Busy.over rfl (by simp) rfl)
        (fun _ ht _ => (load_post hi).mem_iff.mp ht) (by simp) rfl
  | @event t hr =>
      cases hsig : isSignaling t with
      | false =>
          refine h.quiet (l := []) ⟨rfl, rfl, rfl⟩ Or.inl (Busy.over rfl (by simp) rfl) ?_
            (by simp) rfl
          intro t' ht hsig'
          rcases load_event ht with ht | rfl
          · exact ht
          · rw [hsig] at hsig'
            cases hsig'
      | true =>
          -- only a started socket raises it
          have hopen : w.webSocketStarted = true := by
            cases t <;> first | exact hr | cases hsig
          exact ⟨h.fifo, h.law, h.registered, h.started,
            fun hs => Bool.noConfusion (hopen.symm.trans hs)⟩
  | run hq =>
      refine h.quiet (l := []) ⟨rfl, rfl, rfl⟩ Or.inl (Busy.over rfl (by simp) rfl) ?_
        (by simp) rfl
      intro t ht _
      rwa [load_run hq] at ht
  | destroy hq hf =>
      refine h.quiet ⟨rfl, rfl, rfl⟩ Or.inl (fun _ => Or.inl hf) ?_ rfl routine_noMessage.close
      intro t ht _
      simpa [load, World.pending] using ht

theorem queued_visited {p : Phase} {w : World} (h : Visited env p w) : Queued env p w :=
  h.invariant (I := Queued env) queued_init (fun _ _ _ _ _ hi he => queued_enter hi he)
    (fun _ _ _ _ hv hi hm =>
      queued_move (base_visited hv) (joining_visited hv) (flight_visited hv) hi hm)

/-! ## What arrives -/

/-- The message a task off the socket hands to a controller that has not finished. -/
def arrival (w : World) : Task → List SignalingMessage
  | .signaling (.signalingMessage m) => if w.ctl.finished then [] else [m]
  | _ => []

/-- The message about to be accepted. -/
def arriving : Phase → World → List SignalingMessage
  | .run t _, w => arrival w t
  | _, _ => []

/-- The message a step brings, if it brings one in time. -/
def stepArrival (w : World) : Label → List SignalingMessage
  | .run _ => w.queue.head?.toList.flatMap (arrival w)
  | _ => []

/-- The messages that arrived in a run while the call was not over, in order. -/
def arrivals (tr : List (World × Label)) : List SignalingMessage :=
  tr.flatMap fun s => stepArrival s.1 s.2

def notAccepted : Action → Bool
  | .accepted _ => false
  | _ => true

theorem routine_notAccepted : Routine notAccepted :=
  ⟨fun _ => rfl, rfl, fun _ => rfl, rfl, fun _ => rfl⟩

theorem acceptedMessages_quiet {l : List Action} (h : l.all notAccepted = true) :
    acceptedMessages l = [] := by
  rw [acceptedMessages, List.filterMap_eq_nil_iff]
  intro a ha
  have hq := List.all_eq_true.mp h a ha
  cases a <;> first | rfl | cases hq

/-- A move without a message. -/
theorem arriving_quiet {p q : Phase} {w w' : World} {l : List Action}
    (htrace : w'.trace = w.trace ++ l) (hquiet : l.all notAccepted = true)
    (hp : arriving p w = arriving q w') :
    acceptedMessages w'.trace ++ arriving q w' = acceptedMessages w.trace ++ arriving p w := by
  rw [htrace, acceptedMessages_append, acceptedMessages_quiet hquiet, List.append_nil, hp]

theorem observes_noArrival {w : World} {t : Task} (h : observes t = true) : arrival w t = [] := by
  cases t <;> first | rfl | cases h

theorem mayFail_noArrival {w : World} {t : Task} (h : mayFail t = true) : arrival w t = [] := by
  unfold mayFail at h
  split at h <;> first | rfl | cases h

theorem ignored_noArrival {w : World} {t : Task} (h : Ignored w t) : arrival w t = [] := by
  cases t with
  | signaling event =>
      cases event with
      | signalingMessage m => exact if_pos h
      | _ => rfl
  | _ => rfl

/-- **What arrives in time is accepted**, and nothing else. -/
theorem arriving_move {p p' : Phase} {w w' : World} (hm : Move env p w p' w') :
    acceptedMessages w'.trace ++ arriving p' w' = acceptedMessages w.trace ++ arriving p w := by
  have hpass : ∀ {live : Bool} {ms : List SignalingMessage},
      (passActions live ms).all notAccepted = true := all_passActions rfl fun _ => rfl
  cases hm with
  | @accepted _ r m hf =>
      have hnow : arriving (.run (.signaling (.signalingMessage m)) r) w = [m] :=
        if_neg (by rw [hf]; simp)
      rw [hnow, grow_trace, acceptedMessages_append]
      exact List.append_nil _
  | ignore h => exact arriving_quiet (l := []) (by simp) rfl (ignored_noArrival h)
  | fail h => exact arriving_quiet (l := []) (by simp) rfl (mayFail_noArrival h)
  | observed h =>
      refine arriving_quiet rfl rfl ?_
      exact (observes_noArrival h).trans (observes_noArrival h).symm
  | established h =>
      refine arriving_quiet rfl ?_ ((observes_noArrival h).trans (observes_noArrival h).symm)
      rw [List.all_cons, routine_notAccepted.states]
      rfl
  | ended => exact arriving_quiet (ended_trace ..) (routine_notAccepted.ended rfl rfl) rfl
  | stats hs =>
      refine arriving_quiet rfl ?_ rfl
      rcases hs with rfl | ⟨_, rfl⟩ <;> rfl
  | already | drained | stopped | setUpFailed => rfl
  | _ =>
      refine arriving_quiet rfl ?_ rfl
      simp [routine_notAccepted.states, routine_notAccepted.closing, hpass, notAccepted,
        connectionCall, stopActions]

theorem accepted_step {w w' : World} {l : Label} (h : Reached env w)
    (hs : step env w l = some w') :
    acceptedMessages w'.trace = acceptedMessages w.trace ++ stepArrival w l := by
  obtain ⟨p, w₁, he, hm⟩ := step_cuts (base_visited (reached_visited h)) hs
  have hmoves := hm.invariant
    (I := fun p v => acceptedMessages v.trace ++ arriving p v
      = acceptedMessages w₁.trace ++ arriving _ w₁)
    (fun _ _ _ _ hi hm => (arriving_move hm).trans hi) rfl
  have hend : acceptedMessages w'.trace = acceptedMessages w₁.trace ++ arriving p w₁ := by
    rw [← hmoves]
    exact (List.append_nil _).symm
  rw [hend]
  cases he with
  | run hq =>
      congr 1
      simp only [stepArrival, hq, List.head?_cons, Option.toList_some, List.flatMap_cons,
        List.flatMap_nil, List.append_nil]
      rfl
  | destroy =>
      exact arriving_quiet (p := .idle) (q := .idle) rfl routine_notAccepted.close rfl
  | _ => rfl

/-- **The controller accepts what arrives before it finishes**, in every run. -/
theorem accepted_run {tr : List (World × Label)} {w : World}
    (h : Run (step env) initial tr w) : acceptedMessages w.trace = arrivals tr := by
  induction h with
  | start => rfl
  | @next tr s s' l hr hs ih =>
      rw [accepted_step hr.reachable hs, ih, arrivals, arrivals, List.flatMap_append]
      simp

/--
**The queue is in order.** Once the join messages are queued, what was popped and what
is still queued are the join messages that parse, sorted, and after them what the socket
brought in time. Before that, and in a call that never gets there, there is nothing.
-/
theorem queue_in_order {tr : List (World × Label)} {w : World}
    (h : Run (step env) initial tr w) :
    (w.webSocketStarted = true → ∃ joinResponse, w.ctl.joinResponse = some joinResponse
        ∧ poppedMessages w.trace ++ w.ctl.pendingSignalingMessages
          = joinOrder (parsedMessages env joinResponse.messages) ++ arrivals tr)
      ∧ (w.webSocketStarted = false → poppedMessages w.trace = []
        ∧ w.ctl.pendingSignalingMessages = [] ∧ arrivals tr = []
        ∧ (w.ctl.joinResponse.isSome = true → w.ctl.finished = true))
      ∧ ∀ pre m n post, w.trace = pre ++ .popped m n :: post → .registered ∈ pre ∧ n = 0 := by
  have hq := queued_visited (reached_visited h.reachable)
  have hacc := accepted_run h
  refine ⟨fun hs => ?_, fun hs => ?_, fun pre m n post ht => hq.law pre _ post ht⟩
  · obtain ⟨jr, hj, hjoin⟩ := hq.started hs
    refine ⟨jr, hj, ?_⟩
    rw [hq.fifo, hjoin, hacc, sortQueued_eq]
  · obtain ⟨hjoin, hnone, _, hbusy⟩ := hq.unstarted hs
    have hfifo := hq.fifo
    rw [hjoin, hnone] at hfifo
    obtain ⟨hpop, hpend⟩ := List.append_eq_nil_iff.mp hfifo
    refine ⟨hpop, hpend, hacc ▸ hnone, fun hj => ?_⟩
    rcases hbusy hj with hf | hf | ⟨jr, hf⟩
    · exact hf
    · cases hf
    · cases hf

/-- The documents of the runs below. -/
def queueDocuments : List (Text × Json) :=
  [("offer", .object [("type", .string "offer")]), ("bye", .object [("type", .string "bye")]),
    ("candidate", .object [("type", .string "candidate")])]

/-- A join whose messages come in the wrong order, one of them no JSON, and a late candidate. -/
def queueLabels : List Label :=
  joinLabels { messages := ["bye", "candidate", "[", "offer"] }
    ++ [.event (.signaling (.signalingMessage { type := .candidate, rawJson := "late" })),
      .run .none]

theorem queue_in_order_sorted :
    ∃ (tr : List (World × Label)) (joinResponse : JoinResponse),
      Run (step (.smooth queueDocuments)) initial tr (after (.smooth queueDocuments) queueLabels)
        ∧ poppedMessages (after (.smooth queueDocuments) queueLabels).trace
            ++ (after (.smooth queueDocuments) queueLabels).ctl.pendingSignalingMessages
          = joinOrder (parsedMessages (.smooth queueDocuments) joinResponse.messages)
            ++ arrivals tr
        ∧ (poppedMessages (after (.smooth queueDocuments) queueLabels).trace).map (·.type)
          = [.offer]
        ∧ ((after (.smooth queueDocuments) queueLabels).ctl.pendingSignalingMessages).map
            (·.rawJson)
          = ["candidate", "bye", "late"] := by
  have hreached : Reached (.smooth queueDocuments) (after (.smooth queueDocuments) queueLabels) :=
    reached_after _ rfl
  obtain ⟨tr, hr⟩ := hreached
  obtain ⟨jr, _, heq⟩ := (queue_in_order hr).1 (by decide)
  exact ⟨tr, jr, hr, heq, by decide, by decide⟩

/-- A join whose peer connection cannot be made: its bye is never queued. -/
def stillbornEnv : Env := { Env.smooth queueDocuments with createFactory := false }

def stillbornLabels : List Label := [.post 1, .run (.join (.ok { messages := ["bye"] }))]

theorem stillborn_join_queues_nothing :
    ∃ (tr : List (World × Label)) (joinResponse : JoinResponse),
      Run (step stillbornEnv) initial tr (after stillbornEnv stillbornLabels)
        ∧ (after stillbornEnv stillbornLabels).ctl.joinResponse = some joinResponse
        ∧ poppedMessages (after stillbornEnv stillbornLabels).trace
            ++ (after stillbornEnv stillbornLabels).ctl.pendingSignalingMessages
          ≠ joinOrder (parsedMessages stillbornEnv joinResponse.messages) ++ arrivals tr := by
  have hreached : Reached stillbornEnv (after stillbornEnv stillbornLabels) := reached_after _ rfl
  obtain ⟨tr, hr⟩ := hreached
  refine ⟨tr, { messages := ["bye"] }, hr, by decide, ?_⟩
  rw [← accepted_run hr]
  decide

end ApprtcCli.Proof
