import ApprtcCli.Proof.Joining
import ApprtcCli.Lib.Trail

/-!
# The first `Finish` decides

`Cause` says what ended a call, read off the history before `Finish` alone: the
last thing that happened, and whether the call had been established by then. The
invariant is that a call that has not finished shows no such ending, that a task
about to finish knows its cause, and that a finished call shows one `Finish` with
its cause before it. What follows the `Finish` is either a wait for the bye or a
`CompleteFinish`, and the bye in the load tells which.
-/

namespace ApprtcCli.Proof

open Lib Call

variable {env : Env}

/-- The two marks of a call that is over. -/
def isEnding : Action → Bool
  | .finish _ _ => true
  | .completeFinish _ _ => true
  | _ => false

def isCompletion : Action → Bool
  | .completeFinish _ _ => true
  | _ => false

/-- What is followed by `Finish` at once: a live timer, or a remote bye taken off the queue. -/
def isDecisive : Action → Bool
  | .durationTimerFired => true
  | .startupTimerFired => true
  | .popped m _ => m.type == .bye
  | _ => false

def isEstablished : Action → Bool
  | .established => true
  | _ => false

/-- Neither an end nor the beginning of the call proper. -/
def isQuiet (a : Action) : Bool := !isEnding a && !isEstablished a

def isBye : Task → Bool
  | .sendComplete (.bye _) => true
  | _ => false

/-- What ended the call, by the history before its `Finish`. -/
inductive Cause : List Action → TerminalReason → Prop where
  /-- The live call-duration timer fired, in an established call. -/
  | duration {pre : List Action} (he : .established ∈ pre) :
      Cause (pre ++ [.durationTimerFired]) .localDurationReached
  /-- The live startup timer fired, in a call not established. -/
  | startup {pre : List Action} (he : .established ∉ pre) :
      Cause (pre ++ [.startupTimerFired]) .startupTimeout
  /-- A remote bye was taken off the queue, in an established call. -/
  | byeAfter {pre : List Action} {m : SignalingMessage} {n : Nat} (hm : m.type = .bye)
      (he : .established ∈ pre) : Cause (pre ++ [.popped m n]) .remoteByeAfterEstablished
  /-- A remote bye was taken off the queue, in a call not established. -/
  | byeBefore {pre : List Action} {m : SignalingMessage} {n : Nat} (hm : m.type = .bye)
      (he : .established ∉ pre) : Cause (pre ++ [.popped m n]) .remoteByeBeforeEstablished
  /-- An error, in a history that shows none of these. -/
  | error {pre : List Action} {reason : TerminalReason}
      (hr : reason = .signalingError ∨ reason = .peerConnectionError ∨ reason = .mediaError)
      (hc : ∀ a ∈ pre, isDecisive a = false) : Cause pre reason

/-- How many byes are still to complete, the running task included. -/
def byes (p : Phase) (w : World) : Nat := (load p w).countP isBye

/-- The history of a finished call: one `Finish`, with its cause before it. -/
structure FinishedAt (w : World) (pre : List Action) (reason : TerminalReason)
    (status : Status) (post : List Action) : Prop where
  history : w.trace = pre ++ .finish reason status :: post
  first : ∀ a ∈ pre, isEnding a = false
  cause : Cause pre reason
  only : ∀ a ∈ post, (∀ r s, a ≠ .finish r s) ∧ a ≠ .established

/-- A finished call, which waits for its bye or has completed. -/
structure Decided (p : Phase) (w : World) (pre : List Action) (reason : TerminalReason)
    (status : Status) (post : List Action) : Prop extends FinishedAt w pre reason status post where
  stage : (post.countP isCompletion = 0 ∧ byes p w = 1 ∧ reason = .localDurationReached
        ∧ w.ctl.exitCode = ExitCode.runtimeFailed.toInt)
      ∨ (post.countP isCompletion = 1 ∧ byes p w = 0
        ∧ w.ctl.exitCode = (exitCodeForReason reason).toInt)

structure Deciding (p : Phase) (w : World) : Prop where
  established : w.ctl.callEstablished = true ↔ .established ∈ w.trace
  before : w.ctl.finished = false → w.ctl.exitCode = ExitCode.runtimeFailed.toInt
    ∧ byes p w = 0 ∧ ∀ a ∈ w.trace, isEnding a = false
  calm : w.ctl.finished = false → p.finishes = false → ∀ a ∈ w.trace, isDecisive a = false
  about : w.ctl.finished = false → ∀ reason status, p = .finishing reason status →
    Cause w.trace reason
  after : w.ctl.finished = true → ∃ pre reason status post, Decided p w pre reason status post

theorem isQuiet_iff {a : Action} :
    isQuiet a = true ↔ isEnding a = false ∧ isEstablished a = false := by
  simp [isQuiet]

theorem quiet_not_established {l : List Action} (h : l.all isQuiet = true) :
    .established ∉ l := by
  intro hmem
  have hq := List.all_eq_true.mp h _ hmem
  cases hq

theorem isEnding_of_isCompletion {a : Action} (h : isCompletion a = true) :
    isEnding a = true := by
  cases a <;> first | rfl | cases h

theorem quiet_no_completion {l : List Action} (h : l.all isQuiet = true) :
    l.countP isCompletion = 0 := by
  rw [List.countP_eq_zero]
  intro a ha hc
  have hq := (isQuiet_iff.mp (List.all_eq_true.mp h a ha)).1
  rw [isEnding_of_isCompletion hc] at hq
  cases hq

theorem quiet_only {l : List Action} (h : l.all isQuiet = true) :
    ∀ a ∈ l, (∀ r s, a ≠ .finish r s) ∧ a ≠ .established := by
  intro a ha
  have hq := isQuiet_iff.mp (List.all_eq_true.mp h a ha)
  refine ⟨?_, ?_⟩
  · rintro r s rfl
    cases hq.1
  · rintro rfl
    cases hq.2

/-- **Quiet moves**: they add nothing that decides, and keep the byes and the exit code. -/
theorem Deciding.grow {p p' : Phase} {w w' : World} {l : List Action} (h : Deciding p w)
    (hf : w'.ctl.finished = w.ctl.finished)
    (he : w'.ctl.callEstablished = w.ctl.callEstablished)
    (hx : w'.ctl.exitCode = w.ctl.exitCode)
    (hb : byes p' w' = byes p w)
    (htrace : w'.trace = w.trace ++ l)
    (hquiet : l.all isQuiet = true)
    (hcalm : w.ctl.finished = false → p'.finishes = false →
      p.finishes = false ∧ ∀ a ∈ l, isDecisive a = false)
    (habout : w.ctl.finished = false → ∀ reason status, p' = .finishing reason status →
      Cause w'.trace reason) : Deciding p' w' := by
  have hend : ∀ a ∈ l, isEnding a = false :=
    fun a ha => (isQuiet_iff.mp (List.all_eq_true.mp hquiet a ha)).1
  refine ⟨?_, ?_, ?_, ?_, ?_⟩
  · rw [he, htrace, h.established, List.mem_append]
    exact ⟨Or.inl, fun hm => hm.resolve_right (quiet_not_established hquiet)⟩
  · intro hf'
    obtain ⟨hcode, hbye, hnone⟩ := h.before (by rw [← hf]; exact hf')
    refine ⟨by rw [hx]; exact hcode, by rw [hb]; exact hbye, ?_⟩
    intro a ha
    rw [htrace] at ha
    exact (List.mem_append.mp ha).elim (hnone a) (hend a)
  · intro hf' hp' a ha
    have hf' : w.ctl.finished = false := by rw [← hf]; exact hf'
    obtain ⟨hp, hnew⟩ := hcalm hf' hp'
    rw [htrace] at ha
    exact (List.mem_append.mp ha).elim (h.calm hf' hp a) (hnew a)
  · intro hf'
    exact habout (by rw [← hf]; exact hf')
  · intro hf'
    obtain ⟨pre, reason, status, post, hd⟩ := h.after (by rw [← hf]; exact hf')
    refine ⟨pre, reason, status, post ++ l, ?_⟩
    refine ⟨⟨by rw [htrace, hd.history]; simp, hd.first, hd.cause, ?_⟩, ?_⟩
    · intro a ha
      exact (List.mem_append.mp ha).elim (hd.only a) (quiet_only hquiet a)
    · rw [List.countP_append, quiet_no_completion hquiet, hb, hx]
      exact hd.stage

/-- A move that only leaves quiet, undecisive actions, between phases not about to finish. -/
theorem Deciding.frame {p p' : Phase} {w w' : World} {l : List Action} (h : Deciding p w)
    (hf : w'.ctl.finished = w.ctl.finished)
    (he : w'.ctl.callEstablished = w.ctl.callEstablished)
    (hx : w'.ctl.exitCode = w.ctl.exitCode)
    (hp : p.finishes = false) (hp' : p'.finishes = false)
    (hb : byes p' w' = byes p w)
    (htrace : w'.trace = w.trace ++ l)
    (hquiet : l.all (fun a => isQuiet a && !isDecisive a) = true) : Deciding p' w' := by
  have hboth : ∀ a ∈ l, isQuiet a = true ∧ isDecisive a = false := by
    intro a ha
    have hq := List.all_eq_true.mp hquiet a ha
    simpa using hq
  refine h.grow hf he hx hb htrace ?_ ?_ ?_
  · exact List.all_eq_true.mpr fun a ha => (hboth a ha).1
  · exact fun _ _ => ⟨hp, fun a ha => (hboth a ha).2⟩
  · rintro _ reason status rfl
    cases hp'

/-- A move on which an error is about to finish the call. -/
theorem Deciding.error {p : Phase} {w w' : World} {l : List Action}
    {reason : TerminalReason} {status : Status} (h : Deciding p w)
    (hr : reason = .signalingError ∨ reason = .peerConnectionError ∨ reason = .mediaError)
    (hf : w'.ctl.finished = w.ctl.finished)
    (he : w'.ctl.callEstablished = w.ctl.callEstablished)
    (hx : w'.ctl.exitCode = w.ctl.exitCode)
    (hp : p.finishes = false)
    (hb : byes (.finishing reason status) w' = byes p w)
    (htrace : w'.trace = w.trace ++ l)
    (hquiet : l.all (fun a => isQuiet a && !isDecisive a) = true) :
    Deciding (.finishing reason status) w' := by
  have hboth : ∀ a ∈ l, isQuiet a = true ∧ isDecisive a = false := by
    intro a ha
    have hq := List.all_eq_true.mp hquiet a ha
    simpa using hq
  refine h.grow hf he hx hb htrace ?_ (fun _ h => Bool.noConfusion h) ?_
  · exact List.all_eq_true.mpr fun a ha => (hboth a ha).1
  · rintro hf' reason' status' heq
    cases heq
    refine Cause.error hr ?_
    intro a ha
    rw [htrace] at ha
    exact (List.mem_append.mp ha).elim (h.calm hf' hp a) (fun ha => (hboth a ha).2)

theorem deciding_init : Deciding .idle initial where
  established := by decide
  before _ := ⟨rfl, rfl, by decide⟩
  calm _ _ := by decide
  about _ _ _ h := by cases h
  after h := by cases h

theorem mayFail_noBye {t : Task} (h : mayFail t = true) : isBye t = false := by
  cases t with
  | sendComplete kind => cases kind <;> first | rfl | cases h
  | _ => rfl

theorem ignored_noBye {w : World} {t : Task} (h : Ignored w t) : isBye t = false := by
  cases t with
  | sendComplete kind => cases kind <;> first | rfl | cases h
  | _ => rfl

/-- **`CompleteFinish`** ends a call that had only finished. -/
theorem deciding_completed {w : World} {pre post : List Action} {reason : TerminalReason}
    {status status' : Status} (hest : w.ctl.callEstablished = true ↔ .established ∈ w.trace)
    (hf : w.ctl.finished = true) (hd : FinishedAt w pre reason status' post)
    (hnone : post.countP isCompletion = 0) (hbye : w.pending.countP isBye = 0) :
    Deciding .idle (completed reason status w) := by
  have hroutine : Routine isQuiet := ⟨fun _ => rfl, rfl, fun _ => rfl, rfl, fun _ => rfl⟩
  have hquiet : (closingActions w.peer.connection w.ctl.joinResponse w.ctl.state).all isQuiet
      = true := hroutine.closing
  refine ⟨?_, ?_, ?_, by simp, fun _ => ⟨pre, reason, status', post
    ++ (.completeFinish reason status
      :: closingActions w.peer.connection w.ctl.joinResponse w.ctl.state), ?_⟩⟩
  · simp only [completed, grow_ctl, grow_trace, List.mem_append, List.mem_cons]
    rw [hest]
    simp [quiet_not_established hquiet]
  · intro hf'
    exact absurd hf' (by simp [completed, hf])
  · intro hf'
    exact absurd hf' (by simp [completed, hf])
  · refine ⟨⟨by simp [completed, hd.history], hd.first, hd.cause, ?_⟩, Or.inr ⟨?_, ?_, rfl⟩⟩
    · intro a ha
      rcases List.mem_append.mp ha with ha | ha
      · exact hd.only a ha
      · rcases List.mem_cons.mp ha with rfl | ha
        · exact ⟨by simp, by simp⟩
        · exact quiet_only hquiet a ha
    · rw [List.countP_append, hnone, List.countP_cons, quiet_no_completion hquiet]
      rfl
    · simpa [byes, load] using hbye

/-- `Finish`, up to the choice of how to go on. -/
theorem finishedAt_stopped {p : Phase} {w w' : World} {reason : TerminalReason} {status : Status}
    {l : List Action} (h : Deciding p w) (hf : w.ctl.finished = false)
    (hp : p = .finishing reason status)
    (htrace : w'.trace = w.trace ++ stopActions reason status w.ctl.state ++ l)
    (hquiet : l.all isQuiet = true) :
    FinishedAt w' w.trace reason status (stateActions w.ctl.state .stopping ++ l) := by
  refine ⟨by rw [htrace, stopActions]; simp, (h.before hf).2.2, h.about hf _ _ hp, ?_⟩
  intro a ha
  rcases List.mem_append.mp ha with ha | ha
  · rw [mem_stateActions ha]
    exact ⟨by simp, by simp⟩
  · exact quiet_only hquiet a ha

theorem established_stopped {p : Phase} {w w' : World} {reason : TerminalReason} {status : Status}
    {l : List Action} (h : Deciding p w)
    (he : w'.ctl.callEstablished = w.ctl.callEstablished)
    (htrace : w'.trace = w.trace ++ stopActions reason status w.ctl.state ++ l)
    (hquiet : l.all isQuiet = true) :
    w'.ctl.callEstablished = true ↔ .established ∈ w'.trace := by
  have hstop : Action.established ∉ stopActions reason status w.ctl.state := by
    intro hmem
    rcases List.mem_cons.mp hmem with hc | hc
    · cases hc
    · cases mem_stateActions hc
  rw [he, htrace, h.established]
  simp [hstop, quiet_not_established hquiet]

theorem stateActions_no_completion (before after : CallState) :
    (stateActions before after).countP isCompletion = 0 := by
  rw [List.countP_eq_zero]
  intro a ha
  rw [mem_stateActions ha]
  exact fun h => Bool.noConfusion h

/-- Pumping, in a call that has not finished, takes a message that decides nothing. -/
theorem all_popped {m : SignalingMessage} {n : Nat} {l : List Action}
    (hm : m.type ≠ .bye)
    (h : l.all (fun a => isQuiet a && !isDecisive a) = true) :
    (.popped m n :: l).all (fun a => isQuiet a && !isDecisive a) = true := by
  have hbeq : (m.type == .bye) = false := by simpa using hm
  simp only [List.all_cons, h, Bool.and_true]
  simp [isQuiet, isEnding, isEstablished, isDecisive, hbeq]

theorem remoteStep_noBye {type : SignalingMessageType} {sdpType : SdpType} {task : PeerTask}
    (h : RemoteStep type sdpType task) : type ≠ .bye := by
  cases h <;> simp

/-- **Kept by every move.** -/
theorem deciding_move {p p' : Phase} {w w' : World} (h : Deciding p w)
    (hm : Move env p w p' w') : Deciding p' w' := by
  have hstate : ∀ {before after : CallState},
      (stateActions before after).all (fun a => isQuiet a && !isDecisive a) = true :=
    all_stateActions rfl
  have hpass : ∀ {live : Bool} {ms : List SignalingMessage},
      (passActions live ms).all (fun a => isQuiet a && !isDecisive a) = true :=
    all_passActions rfl fun _ => rfl
  cases hm with
  | ignore hi =>
      refine h.frame (l := []) rfl rfl rfl rfl rfl ?_ (by simp) rfl
      simp [byes, load, ignored_noBye hi]
  | fail ht hr =>
      refine h.error (l := []) (by tauto) rfl rfl rfl rfl ?_ (by simp) rfl
      simp [byes, load, mayFail_noBye ht]
  | descriptionSent =>
      refine h.frame rfl rfl rfl rfl rfl ?_ rfl rfl
      simp [byes, load, isBye]
  | descriptionUnsent =>
      refine h.error (Or.inl rfl) rfl rfl rfl rfl ?_ rfl rfl
      simp [byes, load, isBye]
  | @byeSent _ status r hf =>
      -- the one bye of a call that waits for it
      obtain ⟨pre, reason, status', post, hd⟩ := h.after hf
      have hone : byes (.run (.sendComplete (.bye status)) r) w = w.pending.countP isBye + 1 := by
        simp only [byes, load]
        rw [List.countP_cons_of_pos rfl]
      rcases hd.stage with ⟨hnone, hbye, rfl, _⟩ | ⟨_, hbye, _⟩
      · exact deciding_completed h.established hf hd.toFinishedAt hnone (by omega)
      · omega
  | @byeStarted _ status jr hf hj =>
      -- the history is decided now, and the one bye is in the load
      have hbye : byes .idle (ApprtcCli.Proof.byeSent env jr status w) = 1 := by
        have hz : w.pending.countP isBye = 0 := (h.before hf).2.1
        simp [byes, load, List.countP_append, hz, isBye]
      have htrace := byeSent_trace env jr status w
      refine ⟨established_stopped h rfl htrace rfl, fun h => Bool.noConfusion h,
        fun h => Bool.noConfusion h, fun h => Bool.noConfusion h, fun _ => ?_⟩
      refine ⟨_, _, _, _, finishedAt_stopped h hf rfl htrace rfl,
        Or.inl ⟨?_, hbye, rfl, (h.before hf).1⟩⟩
      rw [List.countP_append, stateActions_no_completion]
      rfl
  | @ended _ reason status hf hr =>
      have hz : w.pending.countP isBye = 0 := (h.before hf).2.1
      have hstop :
          (grow w (stoppedCtl w.ctl) w.peer [] (stopActions reason status w.ctl.state)).trace
            = w.trace ++ stopActions reason status w.ctl.state ++ [] := by simp
      refine deciding_completed (established_stopped h rfl hstop rfl) rfl
        (finishedAt_stopped h hf rfl hstop rfl) ?_ (by simpa using hz)
      rw [List.countP_append, stateActions_no_completion]
      rfl
  | already hf =>
      refine h.grow (l := []) rfl rfl rfl rfl (by simp) rfl ?_ (by simp)
      intro hf'
      rw [hf] at hf'
      cases hf'
  | registered hf =>
      refine h.frame rfl rfl rfl rfl rfl ?_ rfl rfl
      simp [byes, load, isBye]
  | stats hacts =>
      rcases hacts with rfl | ⟨_, rfl⟩ <;>
        exact h.frame rfl rfl rfl rfl rfl (by simp [byes, load, isBye]) rfl rfl
  | startupTimer hlive =>
      -- its guard says that the call is not established
      refine h.grow rfl rfl rfl (by simp [byes, load, isBye]) rfl rfl
        (fun _ h => Bool.noConfusion h) ?_
      rintro hf reason status heq
      cases heq
      refine Cause.startup fun hmem => ?_
      have he := h.established.mpr hmem
      simp [startupTimeoutLive, he] at hlive
  | durationTimer hlive =>
      refine h.grow rfl rfl rfl (by simp [byes, load, isBye]) rfl rfl
        (fun _ h => Bool.noConfusion h) ?_
      rintro hf reason status heq
      cases heq
      refine Cause.duration (h.established.mp ?_)
      cases he : w.ctl.callEstablished with
      | true => rfl
      | false => simp [callDurationLive, he] at hlive
  | @established _ t r ht hf he =>
      -- the one move that sets the flag leaves its mark
      have hbyes : byes (.run t r) (establishedNow w) = byes (.run t r) w := by
        simp [byes, load, List.countP_cons, List.countP_append, isBye]
      have hact : ∀ a ∈ (Action.established :: stateActions w.ctl.state .connected),
          isEnding a = false ∧ isDecisive a = false := by
        intro a ha
        rcases List.mem_cons.mp ha with rfl | ha
        · exact ⟨rfl, rfl⟩
        · rw [mem_stateActions ha]
          exact ⟨rfl, rfl⟩
      obtain ⟨hcode, hbye, hnone⟩ := h.before hf
      refine ⟨?_, fun _ => ⟨hcode, by rw [hbyes]; exact hbye, ?_⟩, fun _ _ => ?_, by simp, ?_⟩
      · simp [establishedNow]
      · intro a ha
        exact (List.mem_append.mp ha).elim (hnone a) (fun ha => (hact a ha).1)
      · intro a ha
        exact (List.mem_append.mp ha).elim (h.calm hf rfl a) (fun ha => (hact a ha).2)
      · intro hf'
        exact absurd hf' (by simp [establishedNow, hf])
  | observed ht =>
      exact h.frame (l := []) rfl rfl rfl rfl rfl (by simp [byes, load]) (by simp) rfl
  | webSocketOpen =>
      exact h.frame rfl rfl rfl rfl rfl (by simp [byes, load, isBye]) rfl (all_stateActions rfl)
  | @chainFailed _ task _ _ ht =>
      exact h.error (Or.inr (Or.inl rfl)) rfl rfl rfl rfl (by simp [byes, load, isBye]) rfl rfl
  | flushFailed =>
      refine h.error (Or.inr (Or.inl rfl)) rfl rfl rfl rfl (by simp [byes, load, isBye]) rfl ?_
      simp only [List.all_append, List.all_cons, hpass]
      rfl
  | remoteOfferSet | remoteAnswerSet =>
      refine h.frame rfl rfl rfl rfl rfl (by simp [byes, load, isBye]) rfl ?_
      simp only [List.all_append, List.all_cons, hpass]
      rfl
  | setUpFailed hr =>
      refine h.error (l := []) ?_ rfl rfl rfl rfl (by simp [byes, load]) (by simp) rfl
      tauto
  | setUpDone =>
      refine h.frame rfl rfl rfl rfl rfl (by simp [byes, load, World.pending]) rfl ?_
      simp only [List.all_cons, hstate]
      rfl
  | stopped | drained =>
      exact h.frame (l := []) rfl rfl rfl rfl rfl rfl (by simp) rfl
  | offerStarted hp =>
      refine h.frame rfl rfl rfl rfl rfl (by simp [byes, load, isBye]) rfl ?_
      simp only [List.all_append, hstate]
      rfl
  | candidateBuffered hp hq hm hr =>
      exact h.frame rfl rfl rfl rfl rfl (by simp [byes, load]) rfl
        (all_popped (by rw [hm]; simp) rfl)
  | candidatePassed hp hq hm hr =>
      exact h.frame rfl rfl rfl rfl rfl (by simp [byes, load]) rfl
        (all_popped (by rw [hm]; simp) (all_passActions rfl fun _ => rfl))
  | candidateFailed hp hq hm hr hg =>
      exact h.error (Or.inr (Or.inl rfl)) rfl rfl rfl rfl (by simp [byes, load]) rfl
        (all_popped (by rw [hm]; simp) (all_passActions rfl fun _ => rfl))
  | unknownPopped hp hq hm =>
      exact h.error (Or.inl rfl) rfl rfl rfl rfl (by simp [byes, load]) rfl
        (all_popped (by rw [hm]; simp) rfl)
  | remoteBegun hp hq hm =>
      refine h.frame rfl rfl rfl rfl rfl (by simp [byes, load, isBye]) rfl ?_
      rw [List.all_append, all_popped (remoteStep_noBye hm) hstate]
      rfl
  | remoteUnparsed hp hq hm =>
      refine h.error (Or.inr (Or.inl rfl)) rfl rfl rfl rfl (by simp [byes, load]) rfl ?_
      rw [List.all_append, all_popped (remoteStep_noBye hm) hstate]
      rfl
  | byePopped hp hq hm =>
      refine h.grow rfl rfl rfl (by simp [byes, load]) rfl rfl
        (fun _ h => Bool.noConfusion h) ?_
      rintro hf reason status heq
      injection heq with hreason
      subst hreason
      -- the pump reads the flag when it takes the bye
      cases he : w.ctl.callEstablished with
      | true => exact Cause.byeAfter hm (h.established.mp he)
      | false =>
          refine Cause.byeBefore hm fun hmem => ?_
          rw [h.established.mpr hmem] at he
          cases he
  | _ => exact h.frame rfl rfl rfl rfl rfl (by simp [byes, load, isBye]) rfl rfl

theorem deciding_enter {p : Phase} {w w' : World} {l : Label} (h : Deciding .idle w)
    (he : Enter w l p w') :
    Deciding p w' := by
  cases he with
  | post hi =>
      exact h.frame (l := []) rfl rfl rfl rfl rfl ((load_post hi).countP_eq _) (by simp) rfl
  | @event t hr =>
      have ht : isBye t = false := by cases t <;> first | rfl | cases hr
      refine h.frame (l := []) rfl rfl rfl rfl rfl ?_ (by simp) rfl
      simp only [byes, load, World.pending, List.countP_append, List.countP_singleton, ht]
      simp
  | run hq =>
      exact h.frame (l := []) rfl rfl rfl rfl rfl (by rw [byes, load_run hq, byes]) (by simp)
        rfl
  | destroy hq hf =>
      refine h.frame rfl rfl rfl rfl rfl (by simp [byes, load, World.pending]) rfl ?_
      cases w.peer.connection <;> rfl

theorem deciding_visited {p : Phase} {w : World} (h : Visited env p w) : Deciding p w :=
  h.invariant (I := Deciding) deciding_init (fun _ _ _ _ _ hi he => deciding_enter hi he)
    (fun _ _ _ _ _ hi hm => deciding_move hi hm)

/-! ## Later events change nothing -/

/-- The history only grows. -/
theorem trace_move {p p' : Phase} {w w' : World} (hm : Move env p w p' w') :
    w.trace <+: w'.trace := by
  cases hm with
  | ended => exact (List.prefix_append _ _).trans (List.prefix_append _ _)
  | _ => first | exact List.prefix_refl _ | exact List.prefix_append _ _

theorem trace_enter {p : Phase} {w w' : World} {l : Label} (he : Enter w l p w') :
    w.trace <+: w'.trace := by
  cases he with
  | destroy => exact List.prefix_append _ _
  | _ => exact List.prefix_refl _

theorem trace_step {w w' : World} {l : Label} (h : Reached env w) (hs : step env w l = some w') :
    w.trace <+: w'.trace := by
  obtain ⟨p, w₁, he, hm⟩ := step_cuts (base_visited (reached_visited h)) hs
  refine (trace_enter he).trans ?_
  exact hm.invariant (I := fun _ v => w₁.trace <+: v.trace)
    (fun _ _ _ _ hi hm => hi.trans (trace_move hm)) (List.prefix_refl _)

theorem trace_exec {w w' : World} {labels : List Label} (h : Reached env w)
    (he : exec (step env) w labels = some w') : Reached env w' ∧ w.trace <+: w'.trace := by
  refine Reachable.exec (I := fun v => w.trace <+: v.trace) ?_ h (List.prefix_refl _) he
  exact fun s l s' hr hi hs => hi.trans (trace_step hr hs)

/-- A longer history of a finished call has the same `Finish` in the same place. -/
theorem FinishedAt.later {w w' : World} {pre pre' post post' : List Action}
    {reason reason' : TerminalReason} {status status' : Status}
    (hd : FinishedAt w pre reason status post) (hd' : FinishedAt w' pre' reason' status' post')
    (hgrow : w.trace <+: w'.trace) :
    pre' = pre ∧ reason' = reason ∧ status' = status ∧ post <+: post' := by
  obtain ⟨more, hmore⟩ := hgrow
  have heq : pre' ++ .finish reason' status' :: post'
      = pre ++ .finish reason status :: (post ++ more) := by
    rw [← hd'.history, ← hmore, hd.history]
    simp
  obtain ⟨h1, h2, h3⟩ := first_unique (P := fun a => isEnding a = true) heq rfl rfl
    (fun a ha => by rw [hd'.first a ha]; simp) (fun a ha => by rw [hd.first a ha]; simp)
  injection h2 with h4 h5
  exact ⟨h1, h4, h5, ⟨more, h3.symm⟩⟩

/-- Whether a finished call was established was settled before it finished. -/
theorem FinishedAt.established {w : World} {pre post : List Action} {reason : TerminalReason}
    {status : Status} (hd : FinishedAt w pre reason status post) :
    .established ∈ w.trace ↔ .established ∈ pre := by
  rw [hd.history, List.mem_append]
  refine ⟨fun h => h.resolve_right fun hm => ?_, Or.inl⟩
  rcases List.mem_cons.mp hm with hc | hc
  · cases hc
  · exact (hd.only _ hc).2 rfl

/-! ## Exit codes -/

/-- The live call-duration timer was the last thing that happened. -/
def DurationElapsed (pre : List Action) : Prop := ∃ l, pre = l ++ [.durationTimerFired]

/-- The last thing that happened was a remote bye, taken off the queue of an established call. -/
def HungUp (pre : List Action) : Prop :=
  ∃ l m n, pre = l ++ [.popped m n] ∧ m.type = .bye ∧ .established ∈ l

/-- The live startup timer was the last thing that happened. -/
def TimedOut (pre : List Action) : Prop := ∃ l, pre = l ++ [.startupTimerFired]

theorem last_of_concat {l l' : List Action} {a b : Action} (h : l ++ [a] = l' ++ [b]) :
    l = l' ∧ a = b := by
  obtain ⟨h1, h2⟩ := List.append_inj' h rfl
  injection h2 with h2
  exact ⟨h1, h2⟩

/-- Success is a call that ran its time, or whose remote party hung up. -/
theorem Cause.success_iff {pre : List Action} {reason : TerminalReason} (h : Cause pre reason) :
    exitCodeForReason reason = .success ↔ DurationElapsed pre ∨ HungUp pre := by
  cases h with
  | @duration l he => exact ⟨fun _ => Or.inl ⟨l, rfl⟩, fun _ => rfl⟩
  | @byeAfter l m n hm he => exact ⟨fun _ => Or.inr ⟨l, m, n, rfl, hm, he⟩, fun _ => rfl⟩
  | startup he =>
      refine ⟨(fun h => by cases h), ?_⟩
      rintro (⟨l, hl⟩ | ⟨l, m, n, hl, _, _⟩) <;> cases (last_of_concat hl).2
  | byeBefore hm he =>
      refine ⟨(fun h => by cases h), ?_⟩
      rintro (⟨l, hl⟩ | ⟨l, m, n, hl, _, he'⟩)
      · cases (last_of_concat hl).2
      · rw [(last_of_concat hl).1] at he
        exact absurd he' he
  | error hr hc =>
      constructor
      · intro hx
        rcases hr with rfl | rfl | rfl <;> cases hx
      · rintro (⟨l, rfl⟩ | ⟨l, m, n, rfl, hm, _⟩)
        · cases hc .durationTimerFired (by simp)
        · have hbye := hc (.popped m n) (by simp)
          simp [isDecisive, hm] at hbye

/-- The timeout code is that of the startup timer, in a call not established. -/
theorem Cause.timeout {pre : List Action} {reason : TerminalReason} (h : Cause pre reason)
    (hx : exitCodeForReason reason = .timeout) : TimedOut pre ∧ .established ∉ pre := by
  cases h with
  | @startup l he => exact ⟨⟨l, rfl⟩, by simp [he]⟩
  | error hr hc => rcases hr with rfl | rfl | rfl <;> cases hx
  | _ => cases hx

/-- How many times `CompleteFinish` was entered. -/
def completions (w : World) : Nat := w.trace.countP isCompletion

theorem FinishedAt.completions {w : World} {pre post : List Action} {reason : TerminalReason}
    {status : Status} (hd : FinishedAt w pre reason status post) :
    completions w = post.countP isCompletion := by
  have hpre : pre.countP isCompletion = 0 := by
    rw [List.countP_eq_zero]
    intro a ha hc
    have hno := hd.first a ha
    rw [isEnding_of_isCompletion hc] at hno
    cases hno
  rw [ApprtcCli.Proof.completions, hd.history, List.countP_append, hpre]
  simp [isCompletion]

/-- What a finished call shows: its one `Finish`, and the exit code that goes with it. -/
structure Outcome (w : World) (pre : List Action) (reason : TerminalReason) : Prop where
  /-- `pre` is the history before the first `Finish`, and there is no second. -/
  decided : ∃ status post, w.trace = pre ++ .finish reason status :: post
    ∧ ∀ r s, .finish r s ∉ pre ∧ .finish r s ∉ post
  once : completions w ≤ 1
  bye : completions w = 0 → w.pending.countP isBye = 1
  code : completions w = 1 → w.ctl.exitCode = (exitCodeForReason reason).toInt
  success : completions w = 1 →
    (w.ctl.exitCode = ExitCode.success.toInt ↔ DurationElapsed pre ∨ HungUp pre)
  timeout : completions w = 1 → w.ctl.exitCode = ExitCode.timeout.toInt →
    TimedOut pre ∧ .established ∉ w.trace

theorem Decided.outcome {w : World} {pre post : List Action} {reason : TerminalReason}
    {status : Status} (hd : Decided .idle w pre reason status post) : Outcome w pre reason := by
  have hcount := hd.completions
  have hcode : completions w = 1 → w.ctl.exitCode = (exitCodeForReason reason).toInt := by
    intro hc
    rcases hd.stage with ⟨h0, _⟩ | ⟨_, _, hx⟩
    · omega
    · exact hx
  refine
    { decided := ⟨status, post, hd.history, fun r s => ⟨fun hm => ?_, fun hm => ?_⟩⟩
      once := ?_, bye := ?_, code := hcode, success := ?_, timeout := ?_ }
  · cases hd.first _ hm
  · exact (hd.only _ hm).1 r s rfl
  · rcases hd.stage with ⟨h0, _⟩ | ⟨h1, _⟩ <;> omega
  · intro hc
    rcases hd.stage with ⟨_, hb, _⟩ | ⟨h1, _⟩
    · exact hb
    · omega
  · intro hc
    rw [hcode hc, ← hd.cause.success_iff]
    exact ExitCode.toInt_injective.eq_iff
  · intro hc hx
    rw [hcode hc] at hx
    obtain ⟨h1, h2⟩ := hd.cause.timeout (ExitCode.toInt_injective hx)
    exact ⟨h1, fun hm => h2 (hd.established.mp hm)⟩

/-- **The first `Finish` decides**, and every later event leaves its decision alone. -/
theorem first_finish_decides {w : World} (h : Reached env w) :
    (w.ctl.callEstablished = true ↔ .established ∈ w.trace)
    ∧ (w.ctl.finished = false → completions w = 0 ∧ (∀ r s, .finish r s ∉ w.trace)
      ∧ w.ctl.exitCode = ExitCode.runtimeFailed.toInt)
    ∧ (w.ctl.finished = true → ∃ pre reason, Outcome w pre reason
      ∧ ∀ labels w', exec (step env) w labels = some w' →
        w'.ctl.finished = true ∧ Outcome w' pre reason
          ∧ w'.ctl.callEstablished = w.ctl.callEstablished
          ∧ (completions w = 1 → w'.ctl.exitCode = w.ctl.exitCode)) := by
  have hd := deciding_visited (reached_visited h)
  refine ⟨hd.established, fun hf => ?_, fun hf => ?_⟩
  · obtain ⟨hcode, _, hnone⟩ := hd.before hf
    refine ⟨?_, fun r s hm => (by cases hnone _ hm), hcode⟩
    rw [completions, List.countP_eq_zero]
    intro a ha hc
    have hno := hnone a ha
    rw [isEnding_of_isCompletion hc] at hno
    cases hno
  · obtain ⟨pre, reason, status, post, hdec⟩ := hd.after hf
    refine ⟨pre, reason, hdec.outcome, fun labels w' he => ?_⟩
    obtain ⟨h', hgrow⟩ := trace_exec h he
    have hd' := deciding_visited (reached_visited h')
    have hf' : w'.ctl.finished = true := by
      cases hf' : w'.ctl.finished with
      | true => rfl
      | false =>
          have hmem : .finish reason status ∈ w.trace := by simp [hdec.history]
          cases (hd'.before hf').2.2 _ (hgrow.subset hmem)
    obtain ⟨pre', reason', status', post', hdec'⟩ := hd'.after hf'
    obtain ⟨rfl, rfl, rfl, hpost⟩ := hdec.toFinishedAt.later hdec'.toFinishedAt hgrow
    refine ⟨hf', hdec'.outcome, ?_, fun hc => ?_⟩
    · rw [Bool.eq_iff_iff, hd'.established, hd.established, hdec'.established, hdec.established]
    · have hc' : completions w' = 1 := by
        have hle := hdec'.outcome.once
        have hmono : completions w ≤ completions w' := hgrow.sublist.countP_le
        omega
      rw [hdec'.outcome.code hc', hdec.outcome.code hc]

/-- The end of a call that ran its time, with a bye the server would not take. -/
def overrunLabels : List Label :=
  joinLabels {} ++ establishLabels
    ++ [.post 2, .run .none, .post 2, .run (.status (.error ⟨.internal, []⟩))]

/-- That call is a success, and stays one when its startup timer runs after `Quit`. -/
theorem first_finish_decides_overrun :
    (after (.smooth []) overrunLabels).ctl.exitCode = ExitCode.success.toInt
      ∧ (after (.smooth []) (overrunLabels ++ [.post 0, .run .none])).ctl.exitCode
        = ExitCode.success.toInt := by
  have hcode : (after (.smooth []) overrunLabels).ctl.exitCode = ExitCode.success.toInt := by
    decide
  have hreached : Reached (.smooth []) (after (.smooth []) overrunLabels) := reached_after _ rfl
  obtain ⟨pre, reason, _, hlater⟩ := (first_finish_decides hreached).2.2 (by decide)
  have hsame := (hlater [.post 0, .run .none]
    (after (.smooth []) (overrunLabels ++ [.post 0, .run .none])) (by rfl)).2.2.2 (by decide)
  exact ⟨hcode, by rw [hsame, hcode]⟩

end ApprtcCli.Proof
