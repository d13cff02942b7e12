import ApprtcCli.Proof.Flight
import ApprtcCli.Proof.Outcome

/-!
# Remote candidates

A candidate reaches WebRTC directly once a remote description is applied, and
through a buffer before. While the call goes on, what was passed and what is
buffered make up what was popped. A flush that fails breaks that: it leaves the
buffer as it was, and a second flush would pass its front again. There is none,
because the stage that failed was the one negotiation step in flight, and a call
that has finished starts no other.
-/

namespace ApprtcCli.Proof

open Lib Call

variable {env : Env}

/-- The candidates passed to `AddIceCandidate`, in order. -/
def passedCandidates (l : List Action) : List SignalingMessage :=
  l.filterMap fun
    | .addIceCandidate m => some m
    | _ => none

/-- The candidate messages the pump took off the queue, in order. -/
def poppedCandidates (l : List Action) : List SignalingMessage :=
  l.filterMap fun
    | .popped m _ => if m.type = .candidate then some m else none
    | _ => none

theorem passedCandidates_append (l k : List Action) :
    passedCandidates (l ++ k) = passedCandidates l ++ passedCandidates k :=
  List.filterMap_append

theorem poppedCandidates_append (l k : List Action) :
    poppedCandidates (l ++ k) = poppedCandidates l ++ poppedCandidates k :=
  List.filterMap_append

/-- Neither passes a candidate nor pops one. -/
def noCandidate : Action → Bool
  | .addIceCandidate _ => false
  | .popped m _ => m.type != .candidate
  | _ => true

theorem routine_noCandidate : Routine noCandidate :=
  ⟨fun _ => rfl, rfl, fun _ => rfl, rfl, fun _ => rfl⟩

theorem passedCandidates_quiet {l : List Action} (h : l.all noCandidate = true) :
    passedCandidates l = [] := by
  rw [passedCandidates, List.filterMap_eq_nil_iff]
  intro a ha
  have hq := List.all_eq_true.mp h a ha
  cases a <;> first | rfl | cases hq

theorem poppedCandidates_quiet {l : List Action} (h : l.all noCandidate = true) :
    poppedCandidates l = [] := by
  rw [poppedCandidates, List.filterMap_eq_nil_iff]
  intro a ha
  have hq := List.all_eq_true.mp h a ha
  cases a with
  | popped m n =>
      have hm : m.type ≠ .candidate := by simpa [noCandidate] using hq
      exact if_neg hm
  | _ => rfl

theorem candidates_quiet {w w' : World} {l : List Action} (htrace : w'.trace = w.trace ++ l)
    (h : l.all noCandidate = true) :
    passedCandidates w'.trace = passedCandidates w.trace
      ∧ poppedCandidates w'.trace = poppedCandidates w.trace := by
  constructor
  · rw [htrace, passedCandidates_append, passedCandidates_quiet h, List.append_nil]
  · rw [htrace, poppedCandidates_append, poppedCandidates_quiet h, List.append_nil]

theorem passedCandidates_passActions (live : Bool) (ms : List SignalingMessage) :
    passedCandidates (passActions live ms) = ms := by
  induction ms with
  | nil => rfl
  | cons m ms ih =>
      rw [passActions_cons, passedCandidates_append, ih]
      rfl

theorem poppedCandidates_passActions (live : Bool) (ms : List SignalingMessage) :
    poppedCandidates (passActions live ms) = [] := by
  induction ms with
  | nil => rfl
  | cons m ms ih =>
      rw [passActions_cons, poppedCandidates_append, ih]
      rfl

/-- A candidate is passed only once a remote description was reported applied. -/
def Described (pre : List Action) : Action → Prop
  | .addIceCandidate _ => ∃ type, .remoteApplied type ∈ pre
  | _ => True

theorem described_quiet {l : List Action} (h : l.all noCandidate = true) :
    ∀ a ∈ l, ∀ pre, Described pre a := by
  intro a ha pre
  have hq := List.all_eq_true.mp h a ha
  cases a <;> trivial

/-- Passing candidates is allowed once a description was reported applied. -/
theorem described_passActions {l : List Action} {live : Bool} {ms : List SignalingMessage}
    (h : Trail Described l) (hset : ∃ type, .remoteApplied type ∈ l) :
    Trail Described (l ++ passActions live ms) := by
  refine (h.append_under (Q := fun l => ∃ type, .remoteApplied type ∈ l) hset ?_).1
  rintro a _ pre ⟨type, hm⟩
  refine ⟨?_, type, List.mem_append_left _ hm⟩
  cases a <;> first | trivial | exact ⟨type, hm⟩

structure Candidates (p : Phase) (w : World) : Prop where
  law : Trail Described w.trace
  described : w.peer.remoteDescriptionSet = true → ∃ type, .remoteApplied type ∈ w.trace
  front : passedCandidates w.trace <+: poppedCandidates w.trace
  /-- While the call goes on, the buffer makes up the rest, and is empty once flushed. -/
  exact : w.ctl.finished = false → p.finishes = false →
    passedCandidates w.trace ++ w.peer.pendingRemoteCandidates = poppedCandidates w.trace
      ∧ (w.peer.remoteDescriptionSet = true → w.peer.pendingRemoteCandidates = [])
  /-- What a flush still to come would pass comes next. -/
  coming : steps p w ≠ 0 →
    passedCandidates w.trace ++ w.peer.pendingRemoteCandidates <+: poppedCandidates w.trace

/-- What was done that has nothing to do with candidates leaves the law and the order. -/
theorem Candidates.appended {p : Phase} {w w' : World} {l : List Action} (h : Candidates p w)
    (htrace : w'.trace = w.trace ++ l) (hquiet : l.all noCandidate = true) :
    Trail Described w'.trace ∧ passedCandidates w'.trace <+: poppedCandidates w'.trace := by
  obtain ⟨hpass, hpop⟩ := candidates_quiet htrace hquiet
  constructor
  · rw [htrace]
    exact h.law.append (described_quiet hquiet)
  · rw [hpass, hpop]
    exact h.front

/-- Moves that have nothing to do with candidates. -/
theorem Candidates.quiet {p p' : Phase} {w w' : World} {l : List Action}
    (h : Candidates p w)
    (hf : w'.ctl.finished = false → p'.finishes = false →
      w.ctl.finished = false ∧ p.finishes = false)
    (hset : w'.peer.remoteDescriptionSet = w.peer.remoteDescriptionSet)
    (hbuf : w'.peer.pendingRemoteCandidates = w.peer.pendingRemoteCandidates)
    (hsteps : steps p' w' ≤ steps p w ∨ (w.ctl.finished = false ∧ p.finishes = false))
    (htrace : w'.trace = w.trace ++ l) (hquiet : l.all noCandidate = true) :
    Candidates p' w' := by
  obtain ⟨hpass, hpop⟩ := candidates_quiet htrace hquiet
  obtain ⟨hlaw, hfront⟩ := h.appended htrace hquiet
  refine ⟨hlaw, ?_, hfront, ?_, ?_⟩
  · intro hs
    obtain ⟨type, hm⟩ := h.described (by rw [← hset]; exact hs)
    exact ⟨type, by rw [htrace]; exact List.mem_append_left _ hm⟩
  · intro hf' hp'
    obtain ⟨h1, h2⟩ := hf hf' hp'
    rw [hpass, hpop, hbuf, hset]
    exact h.exact h1 h2
  · intro hs
    rw [hpass, hpop, hbuf]
    rcases hsteps with hle | ⟨h1, h2⟩
    · exact h.coming (by omega)
    · simp only [(h.exact h1 h2).1, List.prefix_refl]

/-- A move after which the buffer is empty, and the call over. -/
theorem Candidates.closed {p : Phase} {w w' : World} {l : List Action}
    (h : Candidates p w) (hf : w'.ctl.finished = true) (hp : w'.peer = closedPeer w.peer)
    (htrace : w'.trace = w.trace ++ l) (hquiet : l.all noCandidate = true) :
    Candidates .idle w' := by
  obtain ⟨hpass, hpop⟩ := candidates_quiet htrace hquiet
  obtain ⟨hlaw, hfront⟩ := h.appended htrace hquiet
  refine ⟨hlaw, ?_, hfront, ?_, ?_⟩
  · intro hs
    rw [hp] at hs
    cases hs
  · intro hf'
    rw [hf] at hf'
    cases hf'
  · intro _
    rw [hpass, hpop, hp]
    simpa [closedPeer] using h.front

/-- What a flush leaves, whether it gets to the end of the buffer or not. -/
theorem Candidates.flush {p : Phase} {w w' : World} {type : SdpType} {live : Bool}
    {front : List SignalingMessage} {actions : List Action} (h : Candidates p w)
    (htrace : w'.trace = w.trace ++ (.remoteApplied type :: passActions live front ++ actions))
    (hquiet : actions.all noCandidate = true) :
    Trail Described w'.trace ∧ (∃ type, .remoteApplied type ∈ w'.trace)
      ∧ passedCandidates w'.trace = passedCandidates w.trace ++ front
      ∧ poppedCandidates w'.trace = poppedCandidates w.trace := by
  have hsplit : w'.trace
      = ((w.trace ++ [.remoteApplied type]) ++ passActions live front) ++ actions := by
    rw [htrace]; simp
  have hset : ∃ t, .remoteApplied t ∈ w.trace ++ [.remoteApplied type] := ⟨type, by simp⟩
  have happlied : Trail Described (w.trace ++ [.remoteApplied type]) :=
    trail_concat.mpr ⟨h.law, trivial⟩
  refine ⟨?_, ⟨type, by rw [htrace]; simp⟩, ?_, ?_⟩
  · rw [hsplit]
    exact (described_passActions happlied hset).append (described_quiet hquiet)
  · rw [hsplit]
    simp only [passedCandidates_append, passedCandidates_passActions,
      passedCandidates_quiet hquiet, passedCandidates_quiet (l := [.remoteApplied type]) rfl,
      List.append_nil]
  · rw [hsplit]
    simp only [poppedCandidates_append, poppedCandidates_passActions,
      poppedCandidates_quiet hquiet, poppedCandidates_quiet (l := [.remoteApplied type]) rfl,
      List.append_nil]

/-- A flush that gets to the end empties the buffer. -/
theorem Candidates.flushed {p p' : Phase} {w w' : World} {type : SdpType} {live : Bool}
    {l : List Action} (h : Candidates p w) (hp : p.finishes = false)
    (hsteps : steps p w ≠ 0) (hf : w'.ctl.finished = w.ctl.finished)
    (hbuf : w'.peer.pendingRemoteCandidates = [])
    (htrace : w'.trace = w.trace
      ++ (.remoteApplied type :: passActions live w.peer.pendingRemoteCandidates ++ l))
    (hquiet : l.all noCandidate = true) : Candidates p' w' := by
  obtain ⟨hlaw, hset, hpass, hpop⟩ := h.flush htrace hquiet
  refine ⟨hlaw, fun _ => hset, ?_, ?_, fun _ => ?_⟩
  · rw [hpass, hpop]
    exact h.coming hsteps
  · intro hf' _
    rw [hf] at hf'
    rw [hpass, hpop, hbuf, List.append_nil]
    exact ⟨(h.exact hf' hp).1, fun _ => rfl⟩
  · rw [hpass, hpop, hbuf, List.append_nil]
    exact h.coming hsteps

/-- A message that is popped and is no candidate. -/
theorem noCandidate_popped {m : SignalingMessage} {n : Nat} {l : List Action}
    (hm : m.type ≠ .candidate) (h : l.all noCandidate = true) :
    (.popped m n :: l).all noCandidate = true := by
  rw [List.all_cons, h]
  simpa [noCandidate] using hm

theorem remoteStep_noCandidate {type : SignalingMessageType} {sdpType : SdpType}
    {task : PeerTask} (h : RemoteStep type sdpType task) : type ≠ .candidate := by
  cases h <;> simp

/-- A candidate that is popped, and what was passed of it. -/
theorem Candidates.pop {w w' : World} {p' : Phase} {m : SignalingMessage} {n : Nat}
    {live : Bool} {given : List SignalingMessage} (h : Candidates .pump w)
    (hp : Pumping w) (hm : m.type = .candidate) (hr : w.peer.remoteDescriptionSet = true)
    (hg : given = [m] ∨ (given = [] ∧ p'.finishes = true))
    (hpeer : w'.peer = w.peer)
    (htrace : w'.trace = w.trace ++ .popped m n :: passActions live given) :
    Candidates p' w' := by
  -- with the description applied the buffer is empty: all that was popped was passed
  obtain ⟨hall, hempty⟩ := h.exact hp.unfinished rfl
  have hbuf : w.peer.pendingRemoteCandidates = [] := hempty hr
  rw [hbuf, List.append_nil] at hall
  have hsplit : w'.trace = (w.trace ++ [.popped m n]) ++ passActions live given := by
    rw [htrace]; simp
  have hpass : passedCandidates w'.trace = passedCandidates w.trace ++ given := by
    rw [hsplit, passedCandidates_append, passedCandidates_append, passedCandidates_passActions]
    simp [passedCandidates]
  have hpop : poppedCandidates w'.trace = passedCandidates w.trace ++ [m] := by
    rw [hsplit, poppedCandidates_append, poppedCandidates_append, poppedCandidates_passActions,
      hall]
    simp [poppedCandidates, hm]
  have hpre : passedCandidates w.trace ++ given <+: passedCandidates w.trace ++ [m] := by
    rcases hg with rfl | ⟨rfl, _⟩
    · exact List.prefix_refl _
    · simp
  obtain ⟨type, happ⟩ := h.described hr
  refine ⟨?_, fun _ => ⟨type, ?_⟩, ?_, ?_, fun _ => ?_⟩
  · rw [hsplit]
    refine described_passActions (trail_concat.mpr ⟨h.law, trivial⟩) ⟨type, ?_⟩
    exact List.mem_append_left _ happ
  · rw [htrace]
    exact List.mem_append_left _ happ
  · rw [hpass, hpop]
    exact hpre
  · intro _ hp'
    rcases hg with rfl | ⟨_, hfin⟩
    · rw [hpass, hpop, hpeer, hbuf, List.append_nil]
      exact ⟨rfl, fun _ => rfl⟩
    · rw [hfin] at hp'
      cases hp'
  · rw [hpass, hpop, hpeer, hbuf, List.append_nil]
    exact hpre

theorem candidates_init : Candidates .idle initial where
  law := trail_singleton trivial
  described h := by cases h
  front := List.prefix_refl _
  exact _ _ := ⟨rfl, fun _ => rfl⟩
  coming _ := List.prefix_refl _

theorem steps_live {w : World} {task : PeerTask} {r : Reply}
    (h : (Task.safe w.peer.safety task).isNegotiationStep = true) :
    steps (.run (.safe w.peer.safety task) r) w ≠ 0 := by
  simp [steps, load, h]

/-- **Kept by every move.** -/
theorem candidates_move {p p' : Phase} {w w' : World} (hj : Joining p w) (hfl : Flight p w)
    (h : Candidates p w) (hm : Move env p w p' w') : Candidates p' w' := by
  have hsteps := steps_move hm
  cases hm with
  | remoteOfferSet =>
      exact h.flushed (l := connectionCall w (.createDescription .answer)) rfl
        (steps_live rfl) rfl rfl rfl rfl
  | remoteAnswerSet =>
      exact h.flushed (l := [.callback]) rfl (steps_live rfl) rfl rfl rfl rfl
  | @flushFailed _ type sdpType task front r e ht hfront =>
      -- a front of the buffer was passed, and the buffer stays as it was
      have htrace : (grow w { w.ctl with signalingActionInFlight := false }
          { w.peer with remoteDescriptionSet := true } []
          (.remoteApplied sdpType :: passActions w.peer.connection front ++ [.callback])).trace
          = w.trace ++ (.remoteApplied sdpType :: passActions w.peer.connection front
            ++ [.callback]) := rfl
      obtain ⟨hlaw, hset, hpass, hpop⟩ := h.flush htrace rfl
      refine ⟨hlaw, fun _ => hset, ?_, fun _ h => Bool.noConfusion h, ?_⟩
      · rw [hpass, hpop]
        exact ((List.prefix_append_right_inj _).mpr hfront).trans
          (h.coming (steps_live (remoteStep_isStep ht _)))
      · -- the stage that failed was the only one
        intro hs
        have hmost := hfl.most
        have hsum : steps (.run (.safe w.peer.safety task) r) w = w.pending.countP
            Task.isNegotiationStep + 1 := by
          simp only [steps, load]
          rw [List.countP_cons_of_pos (remoteStep_isStep ht _)]
        have hrest : steps (.finishing .peerConnectionError (.error e))
            (grow w { w.ctl with signalingActionInFlight := false }
              { w.peer with remoteDescriptionSet := true } []
              (.remoteApplied sdpType :: passActions w.peer.connection front ++ [.callback]))
            = w.pending.countP Task.isNegotiationStep := by
          simp [steps, load]
        omega
  | candidatePassed hp hq hm hr => exact h.pop hp hm hr (Or.inl rfl) rfl rfl
  | candidateFailed hp hq hm hr hg =>
      exact h.pop hp hm hr (hg.symm.imp id (fun hn => ⟨hn, rfl⟩)) rfl rfl
  | @candidateBuffered _ m rest hp hq hm hr =>
      -- popped and not passed: it goes to the back of the buffer
      obtain ⟨hall, _⟩ := h.exact hp.unfinished rfl
      have hpass : passedCandidates (w.trace ++ [.popped m w.stepsInFlight])
          = passedCandidates w.trace := by
        rw [passedCandidates_append]
        simp [passedCandidates]
      have hpop : poppedCandidates (w.trace ++ [.popped m w.stepsInFlight])
          = poppedCandidates w.trace ++ [m] := by
        rw [poppedCandidates_append]
        simp [poppedCandidates, hm]
      have heq : passedCandidates (w.trace ++ [.popped m w.stepsInFlight])
            ++ (w.peer.pendingRemoteCandidates ++ [m])
          = poppedCandidates (w.trace ++ [.popped m w.stepsInFlight]) := by
        rw [hpass, hpop, ← List.append_assoc, hall]
      refine ⟨trail_concat.mpr ⟨h.law, trivial⟩, ?_, ?_, ?_, ?_⟩
      · intro hs
        rw [grow_peer] at hs
        rw [hr] at hs
        cases hs
      · exact ⟨_, heq⟩
      · intro _ _
        refine ⟨heq, fun hs => ?_⟩
        rw [grow_peer] at hs
        rw [hr] at hs
        cases hs
      · intro _
        exact ⟨[], by rw [List.append_nil]; exact heq⟩
  | @connectionCreated _ jr =>
      -- `Initialize` clears a buffer that nothing was put in yet
      have hw := hj.fresh (Or.inl ⟨jr, rfl⟩)
      have hfresh : passedCandidates w.trace = poppedCandidates w.trace := by
        have hall := (h.exact hw.finished rfl).1
        rwa [hw.buffer, List.append_nil] at hall
      have hpass : passedCandidates (w.trace ++ [.created .connection])
          = poppedCandidates (w.trace ++ [.created .connection]) := by
        rw [passedCandidates_append, poppedCandidates_append, hfresh]
        rfl
      refine ⟨trail_concat.mpr ⟨h.law, trivial⟩, fun h => Bool.noConfusion h, ?_, ?_, ?_⟩
      · simp only [grow_trace, hpass, List.prefix_refl]
      · intro _ _
        rw [grow_trace, hpass]
        exact ⟨List.append_nil _, fun _ => rfl⟩
      · intro _
        rw [grow_trace, hpass]
        exact ⟨[], by simp⟩
  | byeSent hf =>
      refine h.closed (by simp [completed, hf]) rfl rfl ?_
      rw [List.all_cons, routine_noCandidate.closing]
      rfl
  | ended => exact h.closed rfl rfl (ended_trace ..) (routine_noCandidate.ended rfl rfl)
  | byeStarted hf hj' =>
      refine h.quiet (fun h => Bool.noConfusion h) rfl rfl hsteps rfl ?_
      rw [stopActions, List.all_append, List.all_cons, routine_noCandidate.states]
      rfl
  | already hf =>
      refine h.quiet (l := []) ?_ rfl rfl hsteps (by simp) rfl
      intro hf'
      rw [hf] at hf'
      cases hf'
  | startupTimer | durationTimer | chainFailed =>
      exact h.quiet (fun _ h => Bool.noConfusion h) rfl rfl hsteps rfl rfl
  | fail | descriptionUnsent | setUpFailed =>
      exact h.quiet (l := []) (fun _ h => Bool.noConfusion h) rfl rfl hsteps (by simp) rfl
  | unknownPopped hp hq hm | byePopped hp hq hm =>
      exact h.quiet (fun _ h => Bool.noConfusion h) rfl rfl hsteps rfl
        (noCandidate_popped (by rw [hm]; simp) rfl)
  | remoteUnparsed hp hq hm =>
      refine h.quiet (fun _ h => Bool.noConfusion h) rfl rfl hsteps rfl ?_
      rw [List.all_append,
        noCandidate_popped (remoteStep_noCandidate hm) routine_noCandidate.states]
      rfl
  | remoteBegun hp hq hm =>
      refine h.quiet (fun hf _ => ⟨hf, rfl⟩) rfl rfl hsteps rfl ?_
      rw [List.all_append,
        noCandidate_popped (remoteStep_noCandidate hm) routine_noCandidate.states]
      rfl
  | offerStarted hp =>
      refine h.quiet (fun hf _ => ⟨hf, rfl⟩) rfl rfl hsteps rfl ?_
      rw [List.all_append, routine_noCandidate.states]
      rfl
  | established | setUpDone =>
      refine h.quiet (fun hf _ => ⟨hf, rfl⟩) rfl rfl hsteps rfl ?_
      rw [List.all_cons, routine_noCandidate.states]
      rfl
  | webSocketOpen =>
      exact h.quiet (fun hf _ => ⟨hf, rfl⟩) rfl rfl hsteps rfl routine_noCandidate.states
  | stats hacts =>
      rcases hacts with rfl | ⟨_, rfl⟩ <;>
        exact h.quiet (fun hf _ => ⟨hf, rfl⟩) rfl rfl hsteps rfl rfl
  | ignore | stopped | drained | observed | joined | videoSourceCreated | descriptionSent =>
      exact h.quiet (l := []) (fun hf _ => ⟨hf, rfl⟩) rfl rfl hsteps (by simp) rfl
  | _ => exact h.quiet (fun hf _ => ⟨hf, rfl⟩) rfl rfl hsteps rfl rfl

theorem candidates_enter {p : Phase} {w w' : World} {l : Label} (h : Candidates .idle w)
    (he : Enter w l p w') : Candidates p w' := by
  cases he with
  | post hi =>
      refine h.quiet (l := []) (fun hf _ => ⟨hf, rfl⟩) rfl rfl (Or.inl ?_) (by simp) rfl
      exact Nat.le_of_eq ((load_post hi).countP_eq _)
  | @event t hr =>
      refine h.quiet (l := []) (fun hf _ => ⟨hf, rfl⟩) rfl rfl (Or.inl ?_) (by simp) rfl
      simp [steps, load, World.pending, List.countP_append, canRaise_idle hr]
  | run hq =>
      refine h.quiet (l := []) (fun hf _ => ⟨hf, rfl⟩) rfl rfl (Or.inl ?_) (by simp) rfl
      rw [steps, load_run hq, steps]
  | destroy hq hf =>
      exact h.closed hf rfl rfl routine_noCandidate.close

theorem candidates_visited {p : Phase} {w : World} (h : Visited env p w) : Candidates p w :=
  h.invariant (I := Candidates) candidates_init (fun _ _ _ _ _ hi he => candidates_enter hi he)
    (fun _ _ _ _ hv hi hm => candidates_move (joining_visited hv) (flight_visited hv) hi hm)

/-- **Candidates are passed in order, none twice, none skipped, none too early.** -/
theorem candidates_in_order {w : World} (h : Reached env w) :
    (∀ pre m post, w.trace = pre ++ .addIceCandidate m :: post →
        ∃ type, .remoteApplied type ∈ pre)
      ∧ passedCandidates w.trace <+: poppedCandidates w.trace
      ∧ (w.ctl.finished = false →
        passedCandidates w.trace ++ w.peer.pendingRemoteCandidates = poppedCandidates w.trace
          ∧ (w.peer.remoteDescriptionSet = true → w.peer.pendingRemoteCandidates = [])) := by
  have hc := candidates_visited (reached_visited h)
  exact ⟨fun pre m post ht => hc.law pre _ post ht, hc.front, fun hf => hc.exact hf rfl⟩

/-- A candidate that comes before its offer, buffered and then flushed. -/
def flushLabels : List Label :=
  joinLabels {}
    ++ [.event (.signaling (.signalingMessage { type := .candidate, candidate := "c" })),
      .run .none, .event (.signaling (.signalingMessage { type := .offer })), .run .none,
      .post 2, .run (.status okStatus)]

theorem candidates_in_order_flush :
    passedCandidates (after (.smooth []) flushLabels).trace
        = [{ type := .candidate, candidate := "c" }]
      ∧ (after (.smooth []) flushLabels).peer.pendingRemoteCandidates = []
      ∧ poppedCandidates (after (.smooth []) flushLabels).trace
        = [{ type := .candidate, candidate := "c" }] := by
  have hreached : Reached (.smooth []) (after (.smooth []) flushLabels) := reached_after _ rfl
  have hgoing := (candidates_in_order hreached).2.2 (by decide)
  have hpassed : passedCandidates (after (.smooth []) flushLabels).trace
      = [{ type := .candidate, candidate := "c" }] := by decide
  have hbuffer := hgoing.2 (by decide)
  refine ⟨hpassed, hbuffer, ?_⟩
  rw [← hgoing.1, hpassed, hbuffer]
  rfl

end ApprtcCli.Proof
