import ApprtcCli.Call.Webrtc
import ApprtcCli.Proof.Pointers
import ApprtcCli.Proof.Exchange

/-!
# A candidate never overtakes its description

A description is sent by the task that learns it was set; a candidate by the task it
was reported with. WebRTC posts the first of these before the second, so the order of
the queue is the order of the sends, as long as the first task sends where it runs and
hands the text to nobody else. And a description task that does not send has ended the
call, or runs after its end, and then candidates are not sent either.

`Behind` is the order of the queue; `texts` says that nothing lies between a set
description and its message.
-/

namespace ApprtcCli.Proof

open Lib Call PhaseMachine

variable {env : Env}

/-- The local descriptions handed to WebRTC, in order. -/
def localsOf (l : List Action) : List SessionDescription :=
  l.filterMap fun
    | .setLocalDescription description => some description
    | _ => none

/-- The description messages handed to the signaling client, each with its route. -/
def handedOver (l : List Action) : List (Route × Text) :=
  l.filterMap fun
    | .send .description route payload => some (route, payload)
    | _ => none

/--
A candidate is sent by the route of its description, after it, and neither after `Finish`
nor after `Close`.
-/
def AfterLocal (env : Env) (pre : List Action) : Action → Prop
  | .send (.candidate n) route _ =>
      (∃ description json, (localsOf pre)[n]? = some description
        ∧ serializeSessionDescription env.json description = .ok json
        ∧ (handedOver pre)[n]? = some (route, json))
      ∧ (∀ reason status, .finish reason status ∉ pre) ∧ .closed ∉ pre
  | _ => True

/-- The texts that wait for their description to be set. -/
def waitingTexts (ts : List Task) : List Text :=
  ts.filterMap fun
    | .safe _ (.setLocalDescription _ json) => some json
    | _ => none

/-- What runs, and what runs next. -/
def line : Phase → World → List Task
  | .run t _, w => t :: w.queue
  | _, w => w.queue

/-- In the queue, each candidate is behind the completion of its local description. -/
def Behind (p : Phase) (w : World) : Prop :=
  ∀ pre n candidate post, line p w = pre ++ .iceCandidate n candidate :: post →
    n + post.countP Task.isSetLocal + w.localsUnset < w.localsMade

/-- A candidate reported by WebRTC. -/
def isCandidate : Task → Bool
  | .iceCandidate _ _ => true
  | _ => false

/-- A task that has nothing to do with local descriptions. -/
def isPlain (t : Task) : Bool := !t.isSetLocal && !isCandidate t

/-- Neither sends nor sets a local description. -/
def noLocal (a : Action) : Bool := !isSend a && !a.isSetLocal

theorem routine_noLocal : Routine noLocal :=
  ⟨fun _ => rfl, rfl, fun _ => rfl, rfl, fun _ => rfl⟩

structure Gathered (env : Env) (p : Phase) (w : World) : Prop where
  routes : ∀ kind route payload, .send kind route payload ∈ w.trace →
    ∃ joinResponse, w.ctl.joinResponse = some joinResponse ∧ route = routeOf env joinResponse
  /-- Every description is sent, or its text waits. -/
  texts : w.ctl.finished = false → p.finishes = false →
    (localsOf w.trace).map (serializeSessionDescription env.json)
      = ((handedOver w.trace).map Prod.snd ++ waitingTexts (load p w)).map .ok
  behind : Behind p w
  /-- Candidates are events: nobody owes one. -/
  owed : ∀ t ∈ w.ops, isCandidate t = false
  sends : Trail (AfterLocal env) w.trace

/-! ## Lists of descriptions -/

theorem localsOf_append (l k : List Action) : localsOf (l ++ k) = localsOf l ++ localsOf k :=
  List.filterMap_append

theorem handedOver_append (l k : List Action) :
    handedOver (l ++ k) = handedOver l ++ handedOver k :=
  List.filterMap_append

theorem mem_handedOver {l : List Action} {route : Route} {json : Text}
    (h : (route, json) ∈ handedOver l) : .send .description route json ∈ l := by
  obtain ⟨a, ha, hsend⟩ := List.mem_filterMap.mp h
  split at hsend
  · cases hsend
    exact ha
  · cases hsend

theorem waitingTexts_append (l k : List Task) :
    waitingTexts (l ++ k) = waitingTexts l ++ waitingTexts k :=
  List.filterMap_append

theorem localsOf_length (l : List Action) :
    (localsOf l).length = l.countP Action.isSetLocal := by
  induction l with
  | nil => rfl
  | cons a l ih =>
      have hcons : localsOf (a :: l) = localsOf [a] ++ localsOf l := localsOf_append [a] l
      rw [hcons, List.length_append, List.countP_cons, ih]
      cases a <;> simp [localsOf, Action.isSetLocal, Nat.add_comm]

theorem waitingTexts_length (ts : List Task) :
    (waitingTexts ts).length = ts.countP Task.isSetLocal := by
  induction ts with
  | nil => rfl
  | cons t ts ih =>
      have hcons : waitingTexts (t :: ts) = waitingTexts [t] ++ waitingTexts ts :=
        waitingTexts_append [t] ts
      rw [hcons, List.length_append, List.countP_cons, ih]
      cases t with
      | safe flag task => cases task <;> simp [waitingTexts, Task.isSetLocal, Nat.add_comm]
      | _ => simp [waitingTexts, Task.isSetLocal]

theorem localsOf_quiet {l : List Action} (h : l.all noLocal = true) : localsOf l = [] := by
  refine List.filterMap_eq_nil_iff.mpr fun a ha => ?_
  have hq := List.all_eq_true.mp h a ha
  cases a <;> first | rfl | cases hq

theorem handedOver_quiet {l : List Action} (h : l.all noLocal = true) : handedOver l = [] := by
  refine List.filterMap_eq_nil_iff.mpr fun a ha => ?_
  have hq := List.all_eq_true.mp h a ha
  cases a <;> first | rfl | cases hq

theorem unsent_quiet {l : List Action} (h : l.all noLocal = true) {kind : SendKind}
    {route : Route} {payload : Text} : .send kind route payload ∉ l := by
  intro hmem
  have hq := List.all_eq_true.mp h _ hmem
  cases hq

/-- Entries other than candidates are always allowed. -/
theorem afterLocal_quiet {l : List Action} (h : l.all noLocal = true) :
    ∀ a ∈ l, ∀ pre, AfterLocal env pre a := by
  intro a ha pre
  have hq := List.all_eq_true.mp h a ha
  cases a with
  | send kind route payload => cases hq
  | _ => trivial

/-- A list of texts that can hold but one has no order. -/
theorem waitingTexts_perm {l k : List Task} (h : l.Perm k)
    (hone : k.countP Task.isSetLocal ≤ 1) : waitingTexts l = waitingTexts k := by
  have hperm : (waitingTexts l).Perm (waitingTexts k) := h.filterMap _
  have hlen : (waitingTexts k).length ≤ 1 := by
    rw [waitingTexts_length]
    exact hone
  cases hk : waitingTexts k with
  | nil =>
      rw [hk] at hperm
      exact hperm.eq_nil
  | cons text rest =>
      rw [hk] at hlen hperm
      have hrest : rest = [] := by
        cases rest with
        | nil => rfl
        | cons _ _ => simp at hlen
      rw [hrest] at hperm ⊢
      exact List.perm_singleton.mp hperm

theorem waitingTexts_cons_idle {t : Task} {ts : List Task} (h : t.isNegotiationStep = false) :
    waitingTexts (t :: ts) = waitingTexts ts := by
  refine List.filterMap_cons_none ?_
  cases t with
  | safe flag task => cases task <;> first | rfl | cases h
  | _ => rfl

/-! ## What moves leave alone -/

theorem Behind.keep {p p' : Phase} {w w' : World} (h : Behind p w)
    (hline : line p' w' <:+ line p w)
    (hcount : w'.localsUnset + w.localsMade = w.localsUnset + w'.localsMade) :
    Behind p' w' := by
  obtain ⟨front, hfront⟩ := hline
  intro pre n candidate post heq
  have hold := h (front ++ pre) n candidate post (by rw [← hfront, heq]; simp)
  omega

/-- A task that runs leaves the line, and none joins it. -/
theorem line_run {t : Task} {r : Reply} {w w' : World} (h : w'.queue = w.queue) :
    w'.queue <:+ line (.run t r) w := by
  rw [h]
  exact List.suffix_cons t w.queue

theorem plain_unset {ts : List Task} (h : ts.all isPlain = true) :
    ts.countP Task.isSetLocal = 0 := by
  rw [List.countP_eq_zero]
  intro t ht
  have hp := List.all_eq_true.mp h t ht
  simp only [isPlain, Bool.and_eq_true, Bool.not_eq_true'] at hp
  simp [hp.1]

theorem plain_waiting {ts : List Task} (h : ts.all isPlain = true) : waitingTexts ts = [] := by
  rw [← List.length_eq_zero_iff, waitingTexts_length]
  exact plain_unset h

/-- What is started by a task that sets no description does not wait to be set. -/
theorem waiting_started {p p' : Phase} {w w' : World} {started : List Task}
    (hload : load p' w' = w.pending ++ started) (hs : started.all isPlain = true)
    (hp : waitingTexts (load p w) = waitingTexts w.pending) :
    waitingTexts (load p' w') = waitingTexts (load p w) := by
  rw [hload, waitingTexts_append, plain_waiting hs, List.append_nil, hp]

theorem localsUnset_started {w w' : World} {started : List Task}
    (hops : w'.ops = w.ops ++ started) :
    w'.localsUnset = w.localsUnset + started.countP Task.isSetLocal := by
  rw [World.localsUnset, hops, List.countP_append]
  rfl

theorem owed_started {w w' : World} {started : List Task}
    (h : ∀ t ∈ w.ops, isCandidate t = false) (hops : w'.ops = w.ops ++ started)
    (hs : started.all (fun t => !isCandidate t) = true) :
    ∀ t ∈ w'.ops, isCandidate t = false := by
  intro t ht
  rw [hops] at ht
  rcases List.mem_append.mp ht with ht | ht
  · exact h t ht
  · simpa using List.all_eq_true.mp hs t ht

/-- A move that neither sends nor sets a local description. -/
theorem Gathered.quiet {p p' : Phase} {w w' : World} {l : List Action} {started : List Task}
    (h : Gathered env p w)
    (htrace : w'.trace = w.trace ++ l) (hl : l.all noLocal = true)
    (hj : ∀ joinResponse, w.ctl.joinResponse = some joinResponse →
      w'.ctl.joinResponse = some joinResponse)
    (hload : w'.ctl.finished = false → p'.finishes = false →
      w.ctl.finished = false ∧ p.finishes = false
        ∧ waitingTexts (load p' w') = waitingTexts (load p w))
    (hline : line p' w' <:+ line p w) (hops : w'.ops = w.ops ++ started)
    (hs : started.all isPlain = true) : Gathered env p' w' where
  routes kind route payload hmem := by
    rw [htrace] at hmem
    rcases List.mem_append.mp hmem with hmem | hmem
    · obtain ⟨jr, hjr, hroute⟩ := h.routes kind route payload hmem
      exact ⟨jr, hj jr hjr, hroute⟩
    · exact absurd hmem (unsent_quiet hl)
  texts hf hp := by
    obtain ⟨hf, hp, hwaiting⟩ := hload hf hp
    rw [htrace, localsOf_append, localsOf_quiet hl, handedOver_append, handedOver_quiet hl,
      hwaiting, List.append_nil, List.append_nil]
    exact h.texts hf hp
  behind := by
    refine h.behind.keep hline ?_
    have hmade : l.countP Action.isSetLocal = 0 := by
      rw [← localsOf_length, localsOf_quiet hl]
      rfl
    rw [World.localsMade, World.localsMade, htrace, List.countP_append, hmade,
      localsUnset_started hops, plain_unset hs]
    omega
  owed := by
    refine owed_started h.owed hops (List.all_eq_true.mpr fun t ht => ?_)
    exact (Bool.and_eq_true_iff.mp (List.all_eq_true.mp hs t ht)).2
  sends := by
    rw [htrace]
    exact h.sends.append (afterLocal_quiet hl)

/-- A bye goes the way of every message, and ends the call. -/
theorem Gathered.bye {p : Phase} {w : World} {status : Status} {joinResponse : JoinResponse}
    (h : Gathered env p w) (hj : w.ctl.joinResponse = some joinResponse)
    (hline : w.queue <:+ line p w) :
    Gathered env .idle (byeSent env joinResponse status w) := by
  have hstop : (stopActions .localDurationReached status w.ctl.state).all noLocal = true := by
    rw [stopActions, List.all_cons, routine_noLocal.states]
    rfl
  refine
    { routes := ?_, texts := fun hf => ?_, behind := h.behind.keep hline ?_
      owed := owed_started h.owed rfl rfl, sends := ?_ }
  · intro kind route payload hmem
    refine ⟨joinResponse, hj, ?_⟩
    rw [byeSent_trace] at hmem
    rcases List.mem_append.mp hmem with hmem | hmem
    · rcases List.mem_append.mp hmem with hmem | hmem
      · obtain ⟨jr, hjr, hroute⟩ := h.routes kind route payload hmem
        rw [hj] at hjr
        cases hjr
        exact hroute
      · exact absurd hmem (unsent_quiet hstop)
    · cases List.mem_singleton.mp hmem
      rfl
  · cases hf
  · have hmade : (stopActions .localDurationReached status w.ctl.state).countP
        Action.isSetLocal = 0 := by
      rw [← localsOf_length, localsOf_quiet hstop]
      rfl
    simp [World.localsUnset, World.localsMade, byeSent, List.countP_append, hmade,
      Task.isSetLocal, Action.isSetLocal]
  · rw [byeSent_trace]
    exact trail_concat.mpr ⟨h.sends.append (afterLocal_quiet hstop), trivial⟩

theorem gathered_init : Gathered env .idle initial where
  routes kind route payload h := by
    have hmem : Action.send kind route payload ∈ [Action.state .joiningRoom] := h
    cases List.mem_singleton.mp hmem
  texts _ _ := rfl
  behind pre n candidate post h := by
    have hnil : ([] : List Task) = pre ++ .iceCandidate n candidate :: post := h
    simp at hnil
  owed := by decide
  sends := trail_singleton trivial

/-- **A candidate that is sent finds its description sent.** -/
theorem Gathered.candidate {n : Nat} {candidate : Option IceCandidate} {r : Reply} {w : World}
    {joinResponse : JoinResponse} (h : Gathered env (.run (.iceCandidate n candidate) r) w)
    (hf : w.ctl.finished = false) (hj : w.ctl.joinResponse = some joinResponse) :
    ∃ description json, (localsOf w.trace)[n]? = some description
      ∧ serializeSessionDescription env.json description = .ok json
      ∧ (handedOver w.trace)[n]? = some (routeOf env joinResponse, json) := by
  have htexts := h.texts hf rfl
  have hbehind := h.behind [] n candidate w.queue rfl
  -- what has been made and does not wait has been sent
  have hlen := congrArg List.length htexts
  simp only [List.length_map, List.length_append, localsOf_length, waitingTexts_length, load,
    World.pending, List.countP_cons, List.countP_append, Task.isSetLocal] at hlen
  have hsent : n < (handedOver w.trace).length := by
    simp only [World.localsUnset, World.localsMade] at hbehind
    simp at hlen
    omega
  have hmade : n < (localsOf w.trace).length := by
    rw [localsOf_length]
    simp only [World.localsUnset, World.localsMade] at hbehind
    omega
  obtain ⟨⟨route, json⟩, hget⟩ : ∃ sent, (handedOver w.trace)[n]? = some sent :=
    ⟨_, List.getElem?_eq_getElem hsent⟩
  obtain ⟨description, hdesc⟩ : ∃ description, (localsOf w.trace)[n]? = some description :=
    ⟨_, List.getElem?_eq_getElem hmade⟩
  refine ⟨description, json, hdesc, ?_, ?_⟩
  · have hnth := congrArg (fun l => l[n]?) htexts
    simp only [List.getElem?_map, hdesc, Option.map_some] at hnth
    rw [List.getElem?_append_left (by simpa using hsent), List.getElem?_map, hget] at hnth
    simpa using hnth
  · -- every message goes the same way
    obtain ⟨jr, hjr, hroute⟩ := h.routes _ _ _ (mem_handedOver (List.mem_of_getElem? hget))
    rw [hj] at hjr
    cases hjr
    rw [hget, hroute]

theorem remoteStep_plain {type : SignalingMessageType} {sdpType : SdpType} {task : PeerTask}
    (h : RemoteStep type sdpType task) (flag : Nat) : isPlain (.safe flag task) = true := by
  cases h <;> rfl

/-- **Kept by every move.** -/
theorem gathered_move {p p' : Phase} {w w' : World} (hb : Base p w) (hj : Joining p w)
    (hg : Guarded w) (hd : Deciding p w) (h : Gathered env p w) (hm : Move env p w p' w') :
    Gathered env p' w' := by
  cases hm with
  | @localBegun _ type text json r hs =>
      -- the text waits from the moment its description is handed over
      refine
        { routes := ?_, texts := fun hf _ => ?_, behind := h.behind.keep (line_run rfl) ?_
          owed := owed_started h.owed rfl rfl
          sends := h.sends.append (by simp [connectionCall, AfterLocal]) }
      · intro kind route payload hmem
        have hmem : .send kind route payload ∈ w.trace := by
          simpa [connectionCall] using hmem
        exact h.routes kind route payload hmem
      · have hold := h.texts hf rfl
        have hlocals : localsOf (connectionCall w (.setLocalDescription ⟨type, text⟩))
            = [⟨type, text⟩] := rfl
        have hhanded : handedOver (connectionCall w (.setLocalDescription ⟨type, text⟩)) = [] :=
          rfl
        have hrun : waitingTexts (load (.run (.safe w.peer.safety (.createDescription type)) r) w)
            = waitingTexts w.pending := rfl
        rw [grow_trace, localsOf_append, handedOver_append, hlocals, hhanded, List.map_append,
          hold, hrun]
        simp [load, waitingTexts, hs]
      · simp [World.localsUnset, World.localsMade, List.countP_append, connectionCall,
          Task.isSetLocal, Action.isSetLocal]
        omega
  | @localSet _ description json jr hjr =>
      -- the text that waited is the one that is sent
      refine
        { routes := ?_, texts := fun hf _ => ?_, behind := h.behind.keep (line_run rfl) ?_
          owed := owed_started h.owed rfl rfl
          sends := h.sends.append (by simp [AfterLocal]) }
      · intro kind route payload hmem
        rcases List.mem_append.mp hmem with hmem | hmem
        · exact h.routes kind route payload hmem
        · refine ⟨jr, hjr, ?_⟩
          simp at hmem
          exact hmem.2.1
      · have hold := h.texts hf rfl
        have hlocals : localsOf [.localApplied description.type, .callback,
            .send .description (routeOf env jr) json] = [] := rfl
        have hhanded : handedOver [.localApplied description.type, .callback,
            .send .description (routeOf env jr) json] = [(routeOf env jr, json)] := rfl
        rw [grow_trace, localsOf_append, handedOver_append, hlocals, hhanded, List.append_nil,
          hold]
        simp [load, waitingTexts]
      · simp [World.localsUnset, World.localsMade, List.countP_append, Task.isSetLocal,
          Action.isSetLocal]
  | @candidateSent _ _ n candidate payload jr hf hjr hp =>
      refine
        { routes := ?_, texts := fun hf _ => ?_, behind := h.behind.keep (line_run rfl) ?_
          owed := owed_started h.owed rfl rfl
          sends := trail_concat.mpr ⟨h.sends, h.candidate hf hjr, ?_, ?_⟩ }
      · intro kind route payload' hmem
        rcases List.mem_append.mp hmem with hmem | hmem
        · exact h.routes kind route payload' hmem
        · cases List.mem_singleton.mp hmem
          exact ⟨jr, hjr, rfl⟩
      · have hold := h.texts hf rfl
        have hlocals : localsOf [.send (.candidate n) (routeOf env jr) payload] = [] := rfl
        have hhanded : handedOver [.send (.candidate n) (routeOf env jr) payload] = [] := rfl
        rw [grow_trace, localsOf_append, handedOver_append, hlocals, hhanded, List.append_nil,
          List.append_nil, hold]
        simp [load, waitingTexts]
      · simp [World.localsUnset, World.localsMade, List.countP_append, Task.isSetLocal,
          Action.isSetLocal]
      · -- a call that goes on has not been finished or closed
        intro reason status hmem
        have hno := (hd.before hf).2.2 _ hmem
        cases hno
      · intro hmem
        rw [(hg.closed hmem).1] at hf
        cases hf
  | byeStarted hf hjr => exact h.bye hjr List.suffix_rfl
  | @ignore _ t r hi =>
      refine h.quiet (List.append_nil _).symm rfl (fun _ hjr => hjr) (fun hf _ => ⟨hf, rfl, ?_⟩)
        (line_run rfl) (List.append_nil _).symm rfl
      exact (waitingTexts_cons_idle (ignored_idle hb hi hf)).symm
  | joined hf =>
      refine h.quiet rfl rfl (fun jr hjr => ?_) (fun hf _ => ⟨hf, rfl, ?_⟩) (line_run rfl)
        rfl rfl
      · rw [hj.unjoined] at hjr
        cases hjr
      · exact waiting_started (grow_pending ..) rfl rfl
  -- where the call is over, or about to be, texts may be dropped
  | fail =>
      exact h.quiet (List.append_nil _).symm rfl (fun _ hjr => hjr) (fun _ hp => by cases hp)
        (line_run rfl) (List.append_nil _).symm rfl
  | descriptionUnsent | startupTimer | durationTimer | chainFailed =>
      exact h.quiet rfl rfl (fun _ hjr => hjr) (fun _ hp => by cases hp) (line_run rfl)
        rfl rfl
  | flushFailed =>
      refine h.quiet rfl ?_ (fun _ hjr => hjr) (fun _ hp => by cases hp) (line_run rfl)
        rfl rfl
      rw [List.all_append, List.all_cons, all_passActions rfl fun _ => rfl]
      rfl
  | setUpFailed =>
      exact h.quiet (List.append_nil _).symm rfl (fun _ hjr => hjr) (fun _ hp => by cases hp)
        List.suffix_rfl (List.append_nil _).symm rfl
  | byePopped | unknownPopped =>
      exact h.quiet rfl rfl (fun _ hjr => hjr) (fun _ hp => by cases hp) List.suffix_rfl
        rfl rfl
  | candidateFailed =>
      refine h.quiet rfl ?_ (fun _ hjr => hjr) (fun _ hp => by cases hp) List.suffix_rfl
        rfl rfl
      rw [List.all_cons, all_passActions rfl fun _ => rfl]
      rfl
  | remoteUnparsed =>
      refine h.quiet rfl ?_ (fun _ hjr => hjr) (fun _ hp => by cases hp) List.suffix_rfl
        rfl rfl
      rw [List.all_append, List.all_cons, routine_noLocal.states]
      rfl
  | byeSent hf =>
      refine h.quiet rfl ?_ (fun _ hjr => hjr) (fun hf' => ?_) (line_run rfl)
        rfl rfl
      · rw [List.all_cons, routine_noLocal.closing]
        rfl
      · have hfin : w.ctl.finished = false := hf'
        rw [hf] at hfin
        cases hfin
  | ended =>
      exact h.quiet (ended_trace ..) (routine_noLocal.ended rfl rfl) (fun _ hjr => hjr)
        (fun hf => by cases hf) List.suffix_rfl
        (show w.ops ++ [] ++ [] = w.ops ++ [] by simp) rfl
  | already hf =>
      refine h.quiet (List.append_nil _).symm rfl (fun _ hjr => hjr) (fun hf' => ?_)
        List.suffix_rfl (List.append_nil _).symm rfl
      rw [hf] at hf'
      cases hf'
  -- and the rest neither sends nor sets
  | stopped | drained =>
      exact h.quiet (List.append_nil _).symm rfl (fun _ hjr => hjr) (fun hf _ => ⟨hf, rfl, rfl⟩)
        List.suffix_rfl (List.append_nil _).symm rfl
  | observed =>
      refine h.quiet rfl rfl (fun _ hjr => hjr) (fun hf _ => ⟨hf, rfl, ?_⟩) List.suffix_rfl
        rfl rfl
      simp [load]
  | @established _ t =>
      refine h.quiet rfl ?_ (fun _ hjr => hjr) (fun hf _ => ⟨hf, rfl, ?_⟩) List.suffix_rfl
        rfl rfl
      · rw [List.all_cons, routine_noLocal.states]
        rfl
      · simp [load, waitingTexts, List.filterMap_cons]
  | descriptionSent | accepted =>
      exact h.quiet rfl rfl (fun _ hjr => hjr)
        (fun hf _ => ⟨hf, rfl, waiting_started (grow_pending ..) rfl rfl⟩) (line_run rfl)
        rfl rfl
  | stats hs =>
      refine h.quiet rfl ?_ (fun _ hjr => hjr)
        (fun hf _ => ⟨hf, rfl, waiting_started (grow_pending ..) rfl rfl⟩) (line_run rfl)
        rfl rfl
      rcases hs with rfl | ⟨_, rfl⟩ <;> rfl
  | registered =>
      have hstats := all_statsStarted (f := isPlain) rfl w.ctl.statsRunning
      exact h.quiet rfl rfl (fun _ hjr => hjr)
        (fun hf _ => ⟨hf, rfl, waiting_started (grow_pending ..) hstats rfl⟩) (line_run rfl)
        rfl hstats
  | webSocketOpen =>
      exact h.quiet rfl routine_noLocal.states (fun _ hjr => hjr)
        (fun hf _ => ⟨hf, rfl, waiting_started (grow_pending ..) rfl rfl⟩) (line_run rfl)
        rfl rfl
  | remoteOfferSet | remoteAnswerSet =>
      refine h.quiet rfl ?_ (fun _ hjr => hjr)
        (fun hf _ => ⟨hf, rfl, waiting_started (grow_pending ..) rfl rfl⟩) (line_run rfl)
        rfl rfl
      rw [List.all_append, List.all_cons, all_passActions rfl fun _ => rfl]
      rfl
  | factoryCreated | connectionCreated | setUpDeref | videoSourceCreated | candidateBuffered =>
      exact h.quiet rfl rfl (fun _ hjr => hjr)
        (fun hf _ => ⟨hf, rfl, waiting_started (grow_pending ..) rfl rfl⟩) List.suffix_rfl
        rfl rfl
  | setUpDone =>
      refine h.quiet rfl ?_ (fun _ hjr => hjr) (fun hf _ => ⟨hf, rfl, ?_⟩) List.suffix_rfl
        rfl rfl
      · rw [List.all_cons, routine_noLocal.states]
        rfl
      · simp [load, World.pending]
  | offerStarted =>
      refine h.quiet rfl ?_ (fun _ hjr => hjr)
        (fun hf _ => ⟨hf, rfl, waiting_started (grow_pending ..) rfl rfl⟩) List.suffix_rfl
        rfl rfl
      rw [List.all_append, routine_noLocal.states]
      rfl
  | candidatePassed =>
      refine h.quiet rfl ?_ (fun _ hjr => hjr)
        (fun hf _ => ⟨hf, rfl, waiting_started (grow_pending ..) rfl rfl⟩) List.suffix_rfl
        rfl rfl
      rw [List.all_cons, all_passActions rfl fun _ => rfl]
      rfl
  | @remoteBegun _ _ _ _ task hp hq hm =>
      have hstarted : [Task.safe w.peer.safety task].all isPlain = true := by
        simp [remoteStep_plain hm]
      refine h.quiet rfl ?_ (fun _ hjr => hjr)
        (fun hf _ => ⟨hf, rfl, waiting_started (grow_pending ..) hstarted rfl⟩) List.suffix_rfl
        rfl hstarted
      rw [List.all_append, List.all_cons, routine_noLocal.states]
      rfl

/-! ## How a step begins -/

theorem waiting_le_steps (p : Phase) (w : World) :
    (load p w).countP Task.isSetLocal ≤ steps p w := by
  refine List.countP_mono_left fun t _ ht => ?_
  cases t with
  | safe flag task => cases task <;> first | rfl | cases ht
  | _ => cases ht

/-- Posting a completion takes it from the outstanding to the end of the queue. -/
theorem Behind.post {i : Nat} {t : Task} {w : World} (h : Behind .idle w)
    (ht : isCandidate t = false) (hi : w.ops[i]? = some t) :
    Behind .idle { w with ops := w.ops.eraseIdx i, queue := w.queue ++ [t] } := by
  obtain ⟨hlt, hget⟩ := List.getElem?_eq_some_iff.mp hi
  have hperm : (t :: w.ops.eraseIdx i).Perm w.ops := by
    rw [← hget]
    exact List.getElem_cons_eraseIdx_perm hlt
  have hcount := hperm.countP_eq Task.isSetLocal
  rw [List.countP_cons] at hcount
  intro pre n candidate post heq
  rcases concat_eq_append_cons heq with ⟨_, _, hlast⟩ | ⟨post', hpost, hqueue⟩
  · rw [hlast] at ht
    cases ht
  · have hold := h pre n candidate post' hqueue
    rw [hpost, List.countP_append, List.countP_singleton]
    simp only [World.localsUnset, World.localsMade] at hold ⊢
    omega

/-- An event joins the end of the queue, a candidate no sooner than WebRTC allows. -/
theorem Behind.event {t : Task} {w : World} (h : Behind .idle w) (ht : t.isSetLocal = false)
    (hallowed : webrtcAllows w (.event t) = true) :
    Behind .idle { w with queue := w.queue ++ [t] } := by
  intro pre n candidate post heq
  rcases concat_eq_append_cons heq with ⟨hpost, _, hlast⟩ | ⟨post', hpost, hqueue⟩
  · subst hlast
    rw [hpost]
    show n + 0 + w.localsUnset < w.localsMade
    simpa [webrtcAllows] using hallowed
  · have hold := h pre n candidate post' hqueue
    rw [hpost, List.countP_append, List.countP_singleton, ht]
    show n + (post'.countP Task.isSetLocal + 0) + w.localsUnset < w.localsMade
    omega

theorem gathered_enter {p : Phase} {w w' : World} {l : Label} (hfl : Flight .idle w)
    (h : Gathered env .idle w) (he : Enter w l p w') (hallowed : webrtcAllows w l = true) :
    Gathered env p w' := by
  cases he with
  | @post i t hi =>
      have ht : isCandidate t = false := h.owed t (List.mem_of_getElem? hi)
      refine
        { routes := h.routes, texts := fun hf _ => ?_, behind := h.behind.post ht hi
          owed := fun t' ht' => h.owed t' (List.mem_of_mem_eraseIdx ht'), sends := h.sends }
      rw [waitingTexts_perm (load_post hi) (Nat.le_trans (waiting_le_steps _ _) hfl.most)]
      exact h.texts hf rfl
  | @event t hr =>
      have hidle : waitingTexts [t] = [] := waitingTexts_cons_idle (canRaise_idle hr)
      have hset : t.isSetLocal = false := by
        have hlen := congrArg List.length hidle
        rw [waitingTexts_length] at hlen
        simpa using hlen
      refine
        { routes := h.routes, texts := fun hf _ => ?_, behind := h.behind.event hset hallowed
          owed := h.owed, sends := h.sends }
      have hwaiting : waitingTexts (load .idle { w with queue := w.queue ++ [t] })
          = waitingTexts (load .idle w) := by
        simp only [load, World.pending, waitingTexts_append, hidle, List.append_nil]
      rw [hwaiting]
      exact h.texts hf rfl
  | @run t rest r hq =>
      refine
        { routes := h.routes, texts := fun hf _ => ?_, behind := h.behind.keep ?_ rfl
          owed := h.owed, sends := h.sends }
      · rw [load_run hq]
        exact h.texts hf rfl
      · show t :: rest <:+ w.queue
        exact hq ▸ List.suffix_rfl
  | destroy hq hf =>
      refine h.quiet rfl routine_noLocal.close (fun _ hjr => hjr) (fun hf' => ?_) List.suffix_rfl
        rfl rfl
      have hfin : w.ctl.finished = false := hf'
      rw [hf] at hfin
      cases hfin

/-! ## Every run in WebRTC's order -/

theorem gathered_visited {p : Phase} {w : World}
    (h : ((machine env).restrict webrtcAllows).Visited p w) : Gathered env p w := by
  refine h.invariant (I := Gathered env) gathered_init ?_ ?_
  · intro w l p w' hv hi ⟨he, hallowed⟩
    exact gathered_enter (flight_visited hv.of_restrict) hi he hallowed
  · intro p w p' w' hv hi hm
    have hv := hv.of_restrict
    exact gathered_move (base_visited hv) (joining_visited hv) (guarded_visited hv)
      (deciding_visited hv) hi hm

/-- What is reached in WebRTC's order is visited in that order. -/
theorem webrtc_visited {w : World} (h : Reachable (webrtcStep env) initial w) :
    ((machine env).restrict webrtcAllows).Visited .idle w :=
  Reachable.visited_restrict (fun _ _ _ hv hs => step_cuts (base_visited hv) hs) h

/-- The messages handed to the signaling client, in order. -/
def outgoing (l : List Action) : List (SendKind × Route × Text) :=
  l.filterMap fun
    | .send kind route payload => some (kind, route, payload)
    | _ => none

theorem mem_outgoing {l : List Action} {kind : SendKind} {route : Route} {payload : Text} :
    (kind, route, payload) ∈ outgoing l ↔ .send kind route payload ∈ l := by
  constructor
  · intro hmem
    obtain ⟨a, ha, hsend⟩ := List.mem_filterMap.mp hmem
    split at hsend
    · cases hsend
      exact ha
    · cases hsend
  · intro hmem
    exact List.mem_filterMap.mpr ⟨_, hmem, rfl⟩

/-- What was sent before a message is what was sent in the history before it. -/
theorem outgoing_split {l : List Action} {kind : SendKind} {route : Route} {payload : Text}
    {before after : List (SendKind × Route × Text)}
    (h : outgoing l = before ++ (kind, route, payload) :: after) :
    ∃ pre post, l = pre ++ .send kind route payload :: post ∧ outgoing pre = before := by
  obtain ⟨l₁, l₂, hl, hbefore, hrest⟩ := List.filterMap_eq_append_iff.mp h
  obtain ⟨quiet, a, post, hl₂, hquiet, ha, _⟩ := List.filterMap_eq_cons_iff.mp hrest
  have hsend : a = .send kind route payload := by
    split at ha
    · cases ha
      rfl
    · cases ha
  refine ⟨l₁ ++ quiet, post, ?_, ?_⟩
  · rw [hl, hl₂, hsend]
    simp
  · have hnone : outgoing quiet = [] := List.filterMap_eq_nil_iff.mpr hquiet
    have happend : outgoing (l₁ ++ quiet) = outgoing l₁ ++ outgoing quiet :=
      List.filterMap_append
    rw [happend, hnone, List.append_nil]
    exact hbefore

/-- Behind a relay that keeps the order, a candidate comes after its description. -/
theorem received_description {l : List Action} (h : Trail (AfterLocal env) l)
    {seen : List (SendKind × Route × Text)} (hseen : seen <+: outgoing l) {n : Nat}
    {route : Route} {payload : Text} (hmem : (.candidate n, route, payload) ∈ seen) :
    ∃ description json, (localsOf l)[n]? = some description
      ∧ serializeSessionDescription env.json description = .ok json
      ∧ (.description, route, json) ∈ seen := by
  obtain ⟨before, after, rfl⟩ := List.append_of_mem hmem
  obtain ⟨rest, hrest⟩ := hseen
  have hall : outgoing l = before ++ (.candidate n, route, payload) :: (after ++ rest) := by
    rw [← hrest]
    simp
  obtain ⟨pre, post, rfl, hbefore⟩ := outgoing_split hall
  obtain ⟨⟨description, json, hdesc, hjson, hsent⟩, _⟩ := h pre _ post rfl
  refine ⟨description, json, ?_, hjson, List.mem_append_left _ ?_⟩
  · rw [localsOf_append, List.getElem?_append_left]
    · exact hdesc
    · exact (List.getElem?_eq_some_iff.mp hdesc).1
  · rw [← hbefore, mem_outgoing]
    exact mem_handedOver (List.mem_of_getElem? hsent)

/--
**A local candidate is sent after its description, by the same route**, in every run in
which WebRTC reports it after the completion of that description. Nothing of a
description that was dropped is sent, and whoever receives what was sent in order has the
description of every candidate.
-/
theorem candidates_after_description {w : World} (h : Reachable (webrtcStep env) initial w) :
    Trail (AfterLocal env) w.trace
      ∧ (∀ kind route payload, .send kind route payload ∈ w.trace →
        ∃ joinResponse, w.ctl.joinResponse = some joinResponse
          ∧ route = if joinResponse.isInitiator then
              .room env.config.roomServerUrl joinResponse.roomId joinResponse.clientId
            else .webSocket)
      ∧ ∀ seen, seen <+: outgoing w.trace → ∀ n route payload,
        (.candidate n, route, payload) ∈ seen →
          ∃ description json, (localsOf w.trace)[n]? = some description
            ∧ serializeSessionDescription env.json description = .ok json
            ∧ (.description, route, json) ∈ seen := by
  have hg := gathered_visited (webrtc_visited h)
  exact ⟨hg.sends, hg.routes, fun _ hseen _ _ _ hmem => received_description hg.sends hseen hmem⟩

/-! ## A candidate gathered at once -/

def gatheringEnv : Env := .smooth [("offer", .object [("type", .string "offer")])]

/-- WebRTC reports a candidate right after the answer is set, and before that is known. -/
def gatheringLabels : List Label :=
  joinLabels { messages := ["offer"] }
    ++ [.post 2, .run (.status okStatus), .post 2, .run (.description (.ok (some "v=0"))),
      .post 2, .event (.iceCandidate 0 (some ⟨"0", 0, some "candidate"⟩)),
      .run (.status okStatus), .run .none]

/-- Its message leaves after that of the answer. -/
theorem candidates_after_description_answer :
    ∃ w, Reachable (webrtcStep gatheringEnv) initial w ∧ Trail (AfterLocal gatheringEnv) w.trace
      ∧ (outgoing w.trace).map Prod.fst = [.description, .candidate 0] := by
  obtain ⟨w, hw, hsent⟩ : ∃ w, exec (webrtcStep gatheringEnv) initial gatheringLabels = some w
      ∧ (outgoing w.trace).map Prod.fst = [.description, .candidate 0] := ⟨_, rfl, by decide⟩
  have hreachable := Reachable.of_exec hw
  exact ⟨w, hreachable, (candidates_after_description hreachable).1, hsent⟩

end ApprtcCli.Proof
