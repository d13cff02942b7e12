import ApprtcCli.Proof.Outcome

/-!
# What is sent after `Finish`

A finished call that waits for its bye still has its connection, and a negotiation
step in flight goes on. Candidates meet the guard of `OnLocalSignalingMessage`;
`SendLocalDescription` has none, and the answer leaves after the bye. The run in
which that happens is exhibited, and it is the only way: a run keeps the bye last
exactly where no local description is reported set between the two.
-/

namespace ApprtcCli.Proof

open Lib Call PhaseMachine

variable {env : Env}

/-- A message handed over after a `Finish` is the bye, and the only one. -/
def ByeLast (pre : List Action) : Action → Prop
  | .send kind _ payload => (∃ reason status, .finish reason status ∈ pre) →
      (∃ status, kind = .bye status) ∧ payload = buildByeMessage
        ∧ ∀ status route text, .send (.bye status) route text ∉ pre
  | _ => True

def isSend : Action → Bool
  | .send _ _ _ => true
  | _ => false

theorem routine_notSend : Routine fun a => !isSend a :=
  ⟨fun _ => rfl, rfl, fun _ => rfl, rfl, fun _ => rfl⟩

theorem byeLast_of_not_send {pre : List Action} {a : Action} (h : isSend a = false) :
    ByeLast pre a := by
  cases a <;> trivial

structure LastBye (w : World) : Prop where
  law : Trail ByeLast w.trace
  /-- No bye is sent before the call finishes. -/
  unsent : w.ctl.finished = false → ∀ status route text, .send (.bye status) route text ∉ w.trace

/-- A local description is about to be reported set, in a call that has finished. -/
def Overtaking (p : Phase) (w : World) : Prop :=
  w.ctl.finished = true ∧ ∃ description json,
    p = .run (.safe w.peer.safety (.setLocalDescription description json)) (.status okStatus)

/-- Moves that send nothing. -/
theorem LastBye.grow {w w' : World} {l : List Action} (h : LastBye w)
    (hf : w'.ctl.finished = false → w.ctl.finished = false)
    (htrace : w'.trace = w.trace ++ l)
    (hquiet : l.all (fun a => !isSend a) = true) : LastBye w' := by
  have hno : ∀ a ∈ l, isSend a = false := by
    intro a ha
    simpa using List.all_eq_true.mp hquiet a ha
  refine ⟨?_, ?_⟩
  · rw [htrace]
    exact h.law.append fun a ha _ => byeLast_of_not_send (hno a ha)
  · intro hf' status route text hm
    rw [htrace] at hm
    rcases List.mem_append.mp hm with hm | hm
    · exact h.unsent (hf hf') _ _ _ hm
    · cases hno _ hm

/-- A send of a call that has not finished. -/
theorem LastBye.early {p : Phase} {w w' : World} (l : List Action) (kind : SendKind)
    (route : Route) (payload : Text) (h : LastBye w) (hd : Deciding p w)
    (hf : w.ctl.finished = false) (hkind : ∀ status, kind ≠ .bye status)
    (hend : l.all (fun a => !isSend a && !isEnding a) = true)
    (htrace : w'.trace = w.trace ++ l ++ [.send kind route payload]) : LastBye w' := by
  have hact : ∀ a ∈ l, isSend a = false ∧ isEnding a = false := by
    intro a ha
    simpa using List.all_eq_true.mp hend a ha
  refine ⟨?_, ?_⟩
  · rw [htrace]
    refine trail_concat.mpr ⟨h.law.append fun a ha _ => byeLast_of_not_send (hact a ha).1, ?_⟩
    rintro ⟨reason, status, hm⟩
    rcases List.mem_append.mp hm with hm | hm
    · cases (hd.before hf).2.2 _ hm
    · cases (hact _ hm).2
  · intro _ status' route' text hm
    rw [htrace] at hm
    rcases List.mem_append.mp hm with hm | hm
    · rcases List.mem_append.mp hm with hm | hm
      · exact h.unsent hf _ _ _ hm
      · cases (hact _ hm).1
    · have heq := List.mem_singleton.mp hm
      injection heq with hk
      exact hkind _ hk.symm

theorem lastBye_init : LastBye initial where
  law := trail_singleton trivial
  unsent _ := by simp [initial, startCall, scheduleStartupTimeout, setState_eq, World.start,
    stateActions]

/-- **Kept by every move** that does not overtake the bye. -/
theorem lastBye_move {p p' : Phase} {w w' : World} (hd : Deciding p w)
    (h : LastBye w) (hno : ¬ Overtaking p w) (hm : Move env p w p' w') : LastBye w' := by
  cases hm with
  | ignore | fail | setUpFailed | stopped | drained | already => exact h
  | @candidateSent _ _ n _ payload jr hf hj hp =>
      exact h.early [] (.candidate n) (routeOf env jr) payload hd hf
        (fun _ hk => by cases hk) rfl (by simp)
  | @localSet _ description json jr hj =>
      have hf : w.ctl.finished = false := by
        cases hf : w.ctl.finished with
        | false => rfl
        | true => exact absurd ⟨hf, _, _, rfl⟩ hno
      exact h.early [.localApplied description.type, .callback] .description
        (routeOf env jr) json hd hf (fun _ hk => by cases hk) rfl (by simp)
  | @byeStarted _ status jr hf hj =>
      -- the one bye, sent right after the `Finish`
      have hstop : LastBye (grow w (stoppedCtl w.ctl) w.peer []
          (stopActions .localDurationReached status w.ctl.state)) :=
        h.grow (fun _ => hf) rfl (by simp [stopActions, isSend, all_stateActions])
      refine ⟨?_, fun hf' => by cases hf'⟩
      rw [byeSent_trace]
      refine trail_concat.mpr ⟨hstop.law, fun _ => ⟨⟨_, rfl⟩, rfl, ?_⟩⟩
      intro status' route text hm
      rcases List.mem_append.mp hm with hm | hm
      · exact h.unsent hf _ _ _ hm
      · rcases List.mem_cons.mp hm with hm | hm
        · cases hm
        · cases mem_stateActions hm
  | byeSent hf =>
      refine h.grow (fun hf' => by rw [completed, grow_ctl] at hf'; exact hf') rfl ?_
      rw [List.all_cons, routine_notSend.closing]
      rfl
  | @ended _ reason status hf hr =>
      exact h.grow (fun _ => hf) (ended_trace ..) (routine_notSend.ended rfl rfl)
  | established =>
      refine h.grow id rfl ?_
      simp [isSend, all_stateActions]
  | stats hacts =>
      rcases hacts with rfl | ⟨_, rfl⟩ <;> exact h.grow id rfl rfl
  | webSocketOpen | offerStarted | setUpDone | remoteBegun | remoteUnparsed =>
      refine h.grow id rfl ?_
      simp [isSend, all_stateActions, connectionCall]
  | remoteOfferSet | remoteAnswerSet | flushFailed | candidatePassed | candidateFailed =>
      refine h.grow id rfl ?_
      simp [isSend, all_passActions, connectionCall]
  | observed => exact h.grow (l := []) id (by simp) rfl
  | _ => exact h.grow id rfl rfl

/-! ## Runs -/

/-- A step that reports a local description set, in a call that has finished. -/
def Overtakes (w : World) (l : Label) : Prop :=
  w.ctl.finished = true ∧ l = .run (.status okStatus) ∧ ∃ description json,
    w.queue.head? = some (.safe w.peer.safety (.setLocalDescription description json))

/-- Within a task, no move leads back to where a description is reported set. -/
theorem move_not_overtaking {p p' : Phase} {w w' : World} (hm : Move env p w p' w') :
    ¬ Overtaking p' w' := by
  rintro ⟨_, description, json, rfl⟩
  cases hm with
  | observed ht => cases ht
  | established ht => cases ht

theorem lastBye_step {w w' : World} {l : Label} (hr : Reached env w) (h : LastBye w)
    (hno : ¬ Overtakes w l) (hs : step env w l = some w') : LastBye w' := by
  have hv := reached_visited hr
  obtain ⟨p, w₁, he, hm⟩ := step_cuts (base_visited hv) hs
  have hstart : LastBye w₁ ∧ ¬ Overtaking p w₁ := by
    cases he with
    | @run t rest r hq =>
        refine ⟨⟨h.law, h.unsent⟩, ?_⟩
        rintro ⟨hf, description, json, heq⟩
        injection heq with ht hreply
        subst ht; subst hreply
        exact hno ⟨hf, rfl, description, json, by rw [hq]; rfl⟩
    | destroy hq hf =>
        exact ⟨h.grow id rfl routine_notSend.close, by rintro ⟨_, _, _, heq⟩; cases heq⟩
    | _ => exact ⟨⟨h.law, h.unsent⟩, by rintro ⟨_, _, _, heq⟩; cases heq⟩
  have hend := hm.invariant
    (I := fun p v => Visited env p v ∧ LastBye v ∧ ¬ Overtaking p v)
    (fun p v p' v' hi hm => ⟨hi.1.move hm,
      lastBye_move (deciding_visited hi.1) hi.2.1 hi.2.2 hm, move_not_overtaking hm⟩)
    ⟨hv.enter he, hstart⟩
  exact hend.2.1

/-- A step that overtakes the bye sends a description after the `Finish`. -/
theorem overtakes_breaks {w w' : World} {l : Label} (hr : Reached env w)
    (ho : Overtakes w l) (hs : step env w l = some w') : ¬ Trail ByeLast w'.trace := by
  obtain ⟨hf, rfl, description, json, hq⟩ := ho
  have hv := reached_visited hr
  obtain ⟨pre, reason, status, post, hdec⟩ := (deciding_visited hv).after hf
  have hmem : .finish reason status ∈ w.trace := by simp [hdec.history]
  obtain ⟨rest, hq⟩ := List.head?_eq_some_iff.mp hq
  have hb := base_enter (base_visited hv) (Enter.run (r := .status okStatus) hq)
  obtain ⟨jr, hj⟩ := Option.isSome_iff_exists.mp (hb.joined hb.connection)
  have hstep : w' = onLocalDescriptionSet (onDescription env) description json okStatus
      { w with queue := rest } := by
    obtain ⟨t, rest', hq', hrun⟩ := run_eq hs
    rw [hq] at hq'
    cases hq'
    simp only [runTask, if_true, runPeerTask] at hrun
    injection hrun with hrun
    exact hrun.symm
  have htrace : w'.trace = w.trace ++ [.localApplied description.type, .callback]
      ++ [.send .description (routeOf env jr) json] := by
    rw [hstep, okStatus, localDescriptionSet_eq hj]
    simp
  rw [htrace]
  intro h
  obtain ⟨⟨status', hkind⟩, _⟩ := (trail_concat.mp h).2
    ⟨reason, status, by simp [hmem]⟩
  cases hkind

/-- **The bye is last** in exactly the runs where no step overtakes it. -/
theorem bye_last_iff {tr : List (World × Label)} {w : World}
    (h : Run (step env) initial tr w) :
    Trail ByeLast w.trace ↔ ∀ p ∈ tr, ¬ Overtakes p.1 p.2 := by
  constructor
  · rintro hlaw ⟨s, l⟩ hp ho
    obtain ⟨s', hs, hstep, es, he⟩ := h.passes hp
    have hgrow := (trace_exec (Reachable.next hs hstep) he).2
    exact overtakes_breaks hs ho hstep (hlaw.of_front hgrow)
  · intro hno
    exact (h.invariant_where (P := fun s l => ¬ Overtakes s l) lastBye_init
      (fun s l s' hs hp hi he => lastBye_step hs hi hp he) hno).law

/-- An offer to renegotiate is being answered when the call-duration timer fires. -/
def overtakingLabels : List Label :=
  joinLabels {} ++ establishLabels
    ++ [.event (.signaling (.signalingMessage { type := .offer })), .run .none,
      .post 3, .run (.status okStatus), .post 3, .run (.description (.ok (some []))),
      .post 2, .run .none, .post 2, .run (.status okStatus)]

/-- **The answer leaves after the bye.** -/
theorem answer_overtakes_bye :
    Reached (.smooth []) (after (.smooth []) overtakingLabels)
      ∧ (∃ pre post, (after (.smooth []) overtakingLabels).trace
        = pre ++ [.finish .localDurationReached okStatus, .state .stopping,
            .send (.bye okStatus) .webSocket buildByeMessage,
            .localApplied .answer, .callback, .send .description .webSocket []] ++ post)
      ∧ ¬ Trail ByeLast (after (.smooth []) overtakingLabels).trace := by
  have hsplit : (after (.smooth []) overtakingLabels).trace
      = (after (.smooth []) overtakingLabels).trace.take 26
        ++ [.finish .localDurationReached okStatus, .state .stopping,
            .send (.bye okStatus) .webSocket buildByeMessage,
            .localApplied .answer, .callback, .send .description .webSocket []] ++ [] := by
    decide
  refine ⟨reached_after _ rfl, ⟨_, _, hsplit⟩, fun hlaw => ?_⟩
  -- the description is allowed only as a bye
  have hlast := hlaw ((after (.smooth []) overtakingLabels).trace.take 31)
    (.send .description .webSocket []) [] (by decide)
  obtain ⟨⟨status, hkind⟩, _⟩ := hlast ⟨.localDurationReached, okStatus, by decide⟩
  cases hkind

/-- Where the bye is the only message, the law holds. -/
theorem byeLast_of_alone {l : List Action} {status : Status} {route : Route}
    (h : l.filter isSend = [.send (.bye status) route buildByeMessage]) : Trail ByeLast l := by
  intro pre a post hl
  cases ha : isSend a with
  | false => exact byeLast_of_not_send ha
  | true =>
      rw [hl, List.filter_append, List.filter_cons_of_pos ha] at h
      rcases List.append_eq_singleton_iff.mp h with ⟨hpre, hrest⟩ | ⟨_, hrest⟩
      · injection hrest with hrest
        subst hrest
        refine fun _ => ⟨⟨status, rfl⟩, rfl, fun status' route' text hmem => ?_⟩
        exact List.filter_eq_nil_iff.mp hpre _ hmem rfl
      · cases hrest

/-- In a call that ran its time with no step in flight, the law and the condition hold. -/
theorem bye_last_iff_overrun :
    ∃ tr, Run (step (.smooth [])) initial tr (after (.smooth []) overrunLabels)
      ∧ tr.map Prod.snd = overrunLabels
      ∧ Trail ByeLast (after (.smooth []) overrunLabels).trace
      ∧ ∀ p ∈ tr, ¬ Overtakes p.1 p.2 := by
  have hexec : exec (step (.smooth [])) initial overrunLabels
      = some (after (.smooth []) overrunLabels) := exec_after _ rfl
  obtain ⟨tr, hr, hlabels⟩ := Run.start.exec hexec
  have hsent : (after (.smooth []) overrunLabels).trace.filter isSend
      = [.send (.bye okStatus) .webSocket buildByeMessage] := by decide
  have hlast := byeLast_of_alone hsent
  exact ⟨tr, hr, hlabels, hlast, (bye_last_iff hr).mp hlast⟩

end ApprtcCli.Proof
