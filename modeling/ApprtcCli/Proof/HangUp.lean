import ApprtcCli.Proof.Ending
import ApprtcCli.Proof.Room

/-!
# Who hangs up

To a client a bye is a text that came over the room, and it exits as if the call had gone
well, or had never come about. That this is what happened is a matter of the other client,
which says bye on one occasion only: when the duration of its own established call is
over. So the two agree on how the call ended. Where one was hung up on, the other ran its
time, and it was not hung up on itself; and where one exits with success, a call was
established and ran its time (`hang_up_agreed`). Messages may be lost on the way.
-/

namespace ApprtcCli.Proof

open Lib Call

/-! ## When a client says bye -/

section Client

variable {env : Env}

/-- A bye follows the `Finish` of a call that ran its time. -/
def ByeDue (pre : List Action) : Action → Prop
  | .send (.bye status) _ _ => .finish .localDurationReached status ∈ pre
  | _ => True

theorem byeDue_of_not_send {pre : List Action} {a : Action} (h : isSend a = false) :
    ByeDue pre a := by
  cases a with
  | send kind route payload => cases h
  | _ => trivial

theorem byeDue_quiet {w w' : World} {l : List Action} (h : Trail ByeDue w.trace)
    (htrace : w'.trace = w.trace ++ l) (hquiet : l.all (fun a => !isSend a) = true) :
    Trail ByeDue w'.trace := by
  rw [htrace]
  refine h.append fun a ha _ => byeDue_of_not_send ?_
  simpa using List.all_eq_true.mp hquiet a ha

/-- Another message, at the end of its task. -/
theorem byeDue_sent {w w' : World} (l : List Action) (kind : SendKind) (route : Route)
    (payload : Text) (h : Trail ByeDue w.trace)
    (htrace : w'.trace = w.trace ++ l ++ [.send kind route payload])
    (hquiet : l.all (fun a => !isSend a) = true)
    (hdue : ∀ status, kind = .bye status → .finish .localDurationReached status ∈ l) :
    Trail ByeDue w'.trace := by
  rw [htrace]
  have hbefore : Trail ByeDue ({ w with trace := w.trace ++ l } : World).trace :=
    byeDue_quiet h rfl hquiet
  refine trail_concat.mpr ⟨hbefore, ?_⟩
  cases kind with
  | bye status => exact List.mem_append_right _ (hdue status rfl)
  | _ => trivial

theorem byeDue_move {p p' : Phase} {w w' : World} (h : Trail ByeDue w.trace)
    (hm : Move env p w p' w') : Trail ByeDue w'.trace := by
  cases hm with
  | ignore | fail | setUpFailed | stopped | drained | already => exact h
  | @candidateSent _ _ n _ payload jr =>
      exact byeDue_sent [] (.candidate n) (routeOf env jr) payload h (by simp) rfl (by simp)
  | @localSet _ description json jr =>
      exact byeDue_sent [.localApplied description.type, .callback] .description (routeOf env jr)
        json h (by simp) rfl (by simp)
  | @byeStarted _ status jr =>
      refine byeDue_sent (stopActions .localDurationReached status w.ctl.state) (.bye status)
        (routeOf env jr) buildByeMessage h (byeSent_trace ..)
        (by simp [stopActions, isSend, all_stateActions]) ?_
      intro status' heq
      cases heq
      exact List.mem_cons_self ..
  | byeSent =>
      refine byeDue_quiet h rfl ?_
      rw [List.all_cons, routine_notSend.closing]
      rfl
  | ended => exact byeDue_quiet h (ended_trace ..) (routine_notSend.ended rfl rfl)
  | established =>
      refine byeDue_quiet h rfl ?_
      simp [isSend, all_stateActions]
  | stats hacts =>
      rcases hacts with rfl | ⟨_, rfl⟩ <;> exact byeDue_quiet h rfl rfl
  | webSocketOpen | offerStarted | setUpDone | remoteBegun | remoteUnparsed =>
      refine byeDue_quiet h rfl ?_
      simp [isSend, all_stateActions, connectionCall]
  | remoteOfferSet | remoteAnswerSet | flushFailed | candidatePassed | candidateFailed =>
      refine byeDue_quiet h rfl ?_
      simp [isSend, all_passActions, connectionCall]
  | observed => exact byeDue_quiet (l := []) h (by simp) rfl
  | _ => exact byeDue_quiet h rfl rfl

theorem byeDue_visited {p : Phase} {w : World} (h : Visited env p w) : Trail ByeDue w.trace := by
  refine h.invariant (I := fun _ w => Trail ByeDue w.trace) (trail_singleton trivial) ?_
    (fun _ _ _ _ _ hi hm => byeDue_move hi hm)
  intro w l p w' _ hi he
  cases he with
  | destroy =>
      refine byeDue_quiet hi rfl ?_
      exact routine_notSend.close
  | _ => exact hi

/-- A call that ran its time was established. -/
theorem TerminatedBy.established {w : World} (h : TerminatedBy w .localDurationReached)
    (hr : Reached env w) : w.ctl.callEstablished = true := by
  obtain ⟨pre, status, post, hd⟩ := h.finishedAt hr
  rw [(deciding_visited (reached_visited hr)).established, hd.established]
  generalize hreason : TerminalReason.localDurationReached = reason at hd
  cases hd.cause with
  | duration he => exact List.mem_append_left _ he
  | error hkind hcalm => rcases hkind with rfl | rfl | rfl <;> cases hreason
  | _ => cases hreason

/-- The two reasons of a call whose remote party hung up. -/
def WasHungUp (w : World) : Prop :=
  TerminatedBy w .remoteByeAfterEstablished ∨ TerminatedBy w .remoteByeBeforeEstablished

/-- It took a bye off its queue. -/
theorem WasHungUp.popped {w : World} (h : WasHungUp w) (hr : Reached env w) :
    0 < (poppedMessages w.trace).countP fun m => m.type = .bye := by
  have hpop : ∀ {pre post : List Action} {m : SignalingMessage} {n : Nat} {a : Action},
      w.trace = (pre ++ [.popped m n]) ++ a :: post → m.type = .bye →
        0 < (poppedMessages w.trace).countP fun m => m.type = .bye := by
    intro pre post m n a htrace hm
    rw [htrace, List.append_assoc, poppedMessages_append]
    refine List.countP_pos_iff.mpr ⟨m, ?_, by simpa using hm⟩
    exact List.mem_append_right _ (List.mem_cons_self ..)
  rcases h with h | h
  · obtain ⟨pre, status, post, hd⟩ := h.finishedAt hr
    have hhistory := hd.history
    generalize hreason : TerminalReason.remoteByeAfterEstablished = reason at hd
    cases hd.cause with
    | byeAfter hm => exact hpop hhistory hm
    | error hkind hcalm => rcases hkind with rfl | rfl | rfl <;> cases hreason
    | _ => cases hreason
  · obtain ⟨pre, status, post, hd⟩ := h.finishedAt hr
    have hhistory := hd.history
    generalize hreason : TerminalReason.remoteByeBeforeEstablished = reason at hd
    cases hd.cause with
    | byeBefore hm => exact hpop hhistory hm
    | error hkind hcalm => rcases hkind with rfl | rfl | rfl <;> cases hreason
    | _ => cases hreason

/-- What is read as a bye was sent as one. -/
theorem written_bye (hJ : ReadsBack env.json) {pre : List Action} {kind : SendKind} {route : Route}
    {payload : Text} (h : Written env pre (.send kind route payload))
    (hread : readsAs env.json .bye payload = true) : ∃ status, kind = .bye status := by
  cases kind with
  | description =>
      obtain ⟨description, hs, _⟩ := h
      obtain ⟨sdp, rfl⟩ := serialize_eq hs
      have hname := readsAs_messageType hread (hJ.description _ _)
      cases hd : description.type <;> rw [hd] at hname <;> exact absurd hname (by decide)
  | candidate n =>
      obtain ⟨candidate, hs⟩ := h
      obtain ⟨sdp, rfl⟩ := serializeCandidate_eq hs
      exact absurd (readsAs_messageType hread (hJ.candidate _ _)) (by decide)
  | bye status => exact ⟨status, rfl⟩

/-- **A client says bye only when its call has run its time.** -/
theorem bye_terminates (hJ : ReadsBack env.json) {w : World} (hr : Reached env w)
    (h : 0 < (sentTexts w.trace).countP (readsAs env.json .bye)) :
    TerminatedBy w .localDurationReached := by
  have hv := reached_visited hr
  obtain ⟨payload, hmem, hread⟩ := List.countP_pos_iff.mp h
  obtain ⟨a, ha, hpay⟩ := List.mem_filterMap.mp hmem
  cases a with
  | send kind route text =>
      cases hpay
      obtain ⟨pre, post, htrace⟩ := List.append_of_mem ha
      obtain ⟨status, rfl⟩ := written_bye hJ ((account_visited hv).sends _ _ _ htrace) hread
      refine ⟨status, ?_⟩
      rw [htrace]
      exact List.mem_append_left _ (byeDue_visited hv _ _ _ htrace)
  | _ => cases hpay

/-- Success is the end of a call that ran its time, here or at the other side. -/
theorem success_cases {w : World} (hr : Reached env w)
    (h : w.ctl.exitCode = ExitCode.success.toInt) :
    TerminatedBy w .localDurationReached ∨ TerminatedBy w .remoteByeAfterEstablished := by
  have hquit : w.quit = true := by
    refine (coded_visited (reached_visited hr)).mpr fun heq => ?_
    rw [h] at heq
    exact absurd heq (by decide)
  obtain ⟨pre, reason, status, post, hd, hcode⟩ := exit_of_quit hr hquit
  rw [h] at hcode
  have hreason := ExitCode.toInt_injective hcode
  cases reason with
  | localDurationReached => exact Or.inl hd.terminatedBy
  | remoteByeAfterEstablished => exact Or.inr hd.terminatedBy
  | _ => cases hreason

end Client

/-! ## The two clients of a room -/

variable {env : Side → Env} {J : JsonCpp}

/--
**The two clients agree on who hung up**, whatever is lost between them. Where one was hung
up on, the other ended its established call because the duration of it was over, and was not
hung up on itself. Where one exits with success, one of the two had its call established
and ran it to the end of its duration.
-/
theorem hang_up_agreed (hJ : ∀ s, (env s).json = J) (hread : ReadsBack J) {r : Room}
    (h : Reachable (roomStep env) Room.start r) (s : Side) :
    (WasHungUp (r.world s) → TerminatedBy (r.world s.other) .localDurationReached
        ∧ (r.world s.other).ctl.callEstablished = true ∧ ¬ WasHungUp (r.world s.other))
      ∧ ((r.world s).ctl.exitCode = ExitCode.success.toInt →
        ∃ t, TerminatedBy (r.world t) .localDurationReached
          ∧ (r.world t).ctl.callEstablished = true) := by
  have hp := paired_reachable h
  have hung : WasHungUp (r.world s) → TerminatedBy (r.world s.other) .localDurationReached := by
    intro hs
    have hpopped := hs.popped (hp.reached s)
    have hsent : 0 < sentOf J r s.other .bye :=
      Nat.lt_of_lt_of_le hpopped (hp.popped_le hJ s .bye)
    refine bye_terminates (by rw [hJ]; exact hread) (hp.reached s.other) ?_
    rw [hJ]
    exact hsent
  refine ⟨fun hs => ⟨hung hs, (hung hs).established (hp.reached s.other), fun hother => ?_⟩,
    fun hcode => ?_⟩
  · rcases hother with hother | hother
    · cases (hung hs).unique hother (hp.reached s.other)
    · cases (hung hs).unique hother (hp.reached s.other)
  · rcases success_cases (hp.reached s) hcode with hlocal | hremote
    · exact ⟨s, hlocal, hlocal.established (hp.reached s)⟩
    · have hother := hung (Or.inl hremote)
      exact ⟨s.other, hother, hother.established (hp.reached s.other)⟩

/-- The initiator's time is up before the other side has answered its offer. -/
def hungUpLabels : List RoomLabel :=
  roomJoinLabels .initiator [] ++ stageLabels .initiator (.description (.ok (some "v=0")))
    ++ stageLabels .initiator (.status okStatus) ++ stageLabels .initiator (.status okStatus)
    ++ establishLabels.map (.step .initiator) ++ stageLabels .initiator .none
    ++ roomJoinLabels .joiner [offerText, buildByeMessage]
    ++ stageLabels .joiner (.status okStatus)
    ++ stageLabels .joiner (.description (.ok (some "v=0")))
    ++ stageLabels .joiner (.status okStatus) ++ establishLabels.map (.step .joiner)
    ++ stageLabels .joiner (.status okStatus) ++ stageLabels .initiator (.status okStatus)

/-- What the other side's call is ended with. -/
def hungUp : Action :=
  .finish .remoteByeAfterEstablished (.error ⟨.cancelled, "remote hangup after established call"⟩)

/-- Both exit with success, the one because the other has said bye. -/
theorem hang_up_agreed_room :
    ∃ r, Reachable (roomStep callEnv) Room.start r
      ∧ (r.world .joiner).ctl.exitCode = ExitCode.success.toInt
      ∧ WasHungUp (r.world .joiner)
      ∧ TerminatedBy (r.world .initiator) .localDurationReached
      ∧ (r.world .initiator).ctl.callEstablished = true
      ∧ ∃ t, TerminatedBy (r.world t) .localDurationReached := by
  obtain ⟨r, hr, hcode, hfinish⟩ : ∃ r, exec (roomStep callEnv) Room.start hungUpLabels = some r
      ∧ (r.world .joiner).ctl.exitCode = ExitCode.success.toInt
      ∧ hungUp ∈ (r.world .joiner).trace :=
    ⟨_, rfl, rfl, List.elem_iff.mp rfl⟩
  have hagreed := hang_up_agreed (fun _ => rfl) callJson_readsBack (Reachable.of_exec hr) .joiner
  have hhung : WasHungUp (r.world .joiner) := Or.inl ⟨_, hfinish⟩
  obtain ⟨hlocal, hestablished, -⟩ := hagreed.1 hhung
  obtain ⟨t, ht, -⟩ := hagreed.2 hcode
  exact ⟨r, Reachable.of_exec hr, hcode, hhung, hlocal, hestablished, t, ht⟩

end ApprtcCli.Proof
