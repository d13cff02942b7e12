import ApprtcCli.Proof.Ending
import ApprtcCli.Proof.Room
import ApprtcCli.Proof.Transport

/-!
# A quiet room agrees

That neither client does anything wrong holds of two clients that do nothing at all. What
is left to say is that they do not stop short: once nothing is under way any more, in a
room that lost nothing, both have played their scripts to the end, and each has applied
every candidate of the other.

Where the bounds of `Proof/Inbox.lean` count what cannot be there, this counts what must
be. A client that goes on has what it was sent, no more and no less: a message that
arrives is kept until it is popped, and one that is popped and cannot be acted on ends
the call.
-/

namespace ApprtcCli.Proof

open Lib Call

section Client

variable {env : Env}

/-- What a task that a call ignores brings, it brings too late. -/
theorem ignored_messages {w : World} {t : Task} (h : Ignored w t)
    (hf : w.ctl.finished = false) : taskMessages t = [] := by
  cases t with
  | signaling event =>
      cases event with
      | signalingMessage m => exact Bool.noConfusion (hf.symm.trans h)
      | _ => rfl
  | _ => rfl

theorem received_eq {f : SignalingMessage → Bool} {p p' : Phase} {w w' : World}
    {l : List Action} (htrace : w'.trace = w.trace ++ l)
    (hquiet : l.all notReceived = true)
    (hload : ((load p' w').flatMap taskMessages).countP f
      = ((load p w).flatMap taskMessages).countP f)
    (hcarried : carried env p' = [] ∧ carried env p = []) :
    received env f p' w' = received env f p w := by
  obtain ⟨hacc, hjoin⟩ := received_quiet env hquiet
  unfold received
  rw [htrace, joinMessages_append, acceptedMessages_append, hacc, hjoin, hcarried.1, hcarried.2,
    List.append_nil, List.append_nil, hload]

/-- **No move of a call that goes on drops a message.** -/
theorem received_kept (f : SignalingMessage → Bool) {p p' : Phase} {w w' : World}
    (hm : Move env p w p' w') (h : Going p' w') : received env f p' w' = received env f p w := by
  have hpass : ∀ {live : Bool} {ms : List SignalingMessage},
      (passActions live ms).all notReceived = true := all_passActions rfl fun _ => rfl
  have hgoing := going_move hm h
  cases hm with
  | @ignore _ t r hi =>
      have hnone := ignored_messages hi hgoing.1
      have hcarried : carried env (.run t r) = [] := by
        cases t with
        | joinComplete => exact Bool.noConfusion (hgoing.1.symm.trans hi)
        | _ => rfl
      refine received_eq (l := []) (by simp) rfl ?_ ⟨rfl, hcarried⟩
      simp [load, hnone]
  | @accepted _ r m hf =>
      -- out of the task, onto the queue
      have hjoin : joinMessages env [.accepted m] = [] := rfl
      have hacc : acceptedMessages [.accepted m] = [m] := rfl
      simp only [received, grow_trace, joinMessages_append, acceptedMessages_append, hjoin, hacc,
        load, grow_pending, List.append_nil, List.countP_append, List.flatMap_cons, taskMessages,
        carried]
      omega
  | @setUpDone _ jr queued hq hf hc =>
      have hjoin : joinMessages env (.joinQueued jr.messages
          :: stateActions w.ctl.state .connectingWebSocket)
          = sortQueued (parsedMessages env jr.messages) := by
        rw [← List.singleton_append, joinMessages_append,
          (received_quiet env routine_notReceived.states).2]
        simp [joinMessages]
      have hacc : acceptedMessages (.joinQueued jr.messages
          :: stateActions w.ctl.state .connectingWebSocket) = [] := by
        rw [← List.singleton_append, acceptedMessages_append,
          (received_quiet env routine_notReceived.states).1]
        rfl
      have hcount : (sortQueued (parsedMessages env jr.messages)).countP f
          = (parsedMessages env jr.messages).countP f :=
        (List.perm_insertionSort _ _).countP_eq f
      simp only [received, grow_trace, joinMessages_append, acceptedMessages_append, hjoin, hacc,
        load, World.pending, grow_queue, grow_ops, List.append_nil, List.countP_append, hcount,
        List.flatMap_append, carried, List.countP_nil]
      omega
  | joined hf =>
      simp [received, load, carried, taskMessages]
  | observed ht =>
      exact received_eq (l := []) (by simp) rfl (by simp [load])
        ⟨observes_carried ht, observes_carried ht⟩
  | established ht =>
      refine received_eq rfl ?_ ?_ ⟨observes_carried ht, observes_carried ht⟩
      · rw [List.all_cons, routine_notReceived.states]
        rfl
      · simp [load, taskMessages]
  | stats hs =>
      refine received_eq rfl ?_ (by simp [load, taskMessages]) ⟨rfl, rfl⟩
      rcases hs with rfl | ⟨_, rfl⟩ <;> rfl
  | registered hf =>
      refine received_eq rfl rfl ?_ ⟨rfl, rfl⟩
      cases w.ctl.statsRunning <;> simp [load, taskMessages]
  | stopped | drained => rfl
  | factoryCreated | connectionCreated | videoSourceCreated | setUpDeref =>
      simp [received, load, carried, joinMessages, acceptedMessages]
  | byeSent hf => exact Bool.noConfusion (hf.symm.trans hgoing.1)
  | already hf => exact Bool.noConfusion (hf.symm.trans hgoing.1)
  | byeStarted | ended => cases hgoing.2
  | fail | setUpFailed | descriptionUnsent | startupTimer | durationTimer | chainFailed
  | flushFailed | candidateFailed | byePopped | unknownPopped | remoteUnparsed => cases h.2
  | _ =>
      refine received_eq rfl ?_ ?_ ⟨rfl, rfl⟩
      · simp [routine_notReceived.states, hpass, notReceived, connectionCall]
      · simp [load, List.flatMap_append, taskMessages]

/-- Only the join completion is given a join response, while the flags are the first. -/
theorem run_join {w w' : World} {t : Task} {rest : List Task} {joinResponse : JoinResponse}
    (hb : Base .idle w) (hf : w.ctl.finished = false) (hq : w.queue = t :: rest)
    (hrun : runTask env { w with queue := rest } t (.join (.ok joinResponse)) = some w') :
    t = .joinComplete := by
  cases t with
  | joinComplete => rfl
  | safe flag task =>
      -- the flag is live, and a live task takes no such reply
      have hmem : .safe flag task ∈ load .idle w := by simp [load, World.pending, hq]
      have hle : flag ≤ w.peer.safety := (hb.tasks _ hmem).1
      have hflag : flag = w.peer.safety := by
        rw [hb.flag hf] at hle ⊢
        omega
      have hnone : runPeerTask env { w with queue := rest } task (.join (.ok joinResponse))
          = some w' := by
        have hlive : (if flag = w.peer.safety then
            runPeerTask env { w with queue := rest } task (.join (.ok joinResponse))
            else some { w with queue := rest }) = some w' := hrun
        rwa [if_pos hflag] at hlive
      cases task <;> cases hnone
  | _ => cases hrun

/-- **A call that goes on has what it was sent, and what a step brings.** -/
theorem received_exact (f : SignalingMessage → Bool) {w w' : World} {l : Label}
    (h : Reached env w) (hs : step env w l = some w') (hf : w'.ctl.finished = false) :
    received env f .idle w' = received env f .idle w + (brought env l).countP f := by
  have hb := base_visited (reached_visited h)
  obtain ⟨p, w₁, he, hm⟩ := step_cuts hb hs
  have hmoves := hm.invariant
    (I := fun q v => Going q v → Going p w₁ ∧ received env f q v = received env f p w₁)
    (fun q v q' v' hi hm hgo => by
      obtain ⟨hgo₁, heq⟩ := hi (going_move hm hgo)
      exact ⟨hgo₁, (received_kept f hm hgo).trans heq⟩)
    (fun hgo => ⟨hgo, rfl⟩)
  obtain ⟨hgo, heq⟩ := hmoves ⟨hf, rfl⟩
  refine Eq.trans heq ?_
  cases he with
  | post hi =>
      have hperm := ((load_post hi).flatMap_right taskMessages).countP_eq f
      simp only [received, hperm, carried, brought, List.countP_nil]
  | @event t hr =>
      simp only [received, load, World.pending, List.flatMap_append, List.countP_append,
        List.flatMap_cons, List.flatMap_nil, List.append_nil, carried, brought, List.countP_nil]
      omega
  | @run t rest r hq =>
      have hcarried : carried env (.run t r) = brought env (.run r) := by
        obtain ⟨t', rest', hq', hrun⟩ := run_eq hs
        rw [hq] at hq'
        cases hq'
        cases r with
        | join result =>
            cases result with
            | error e => cases t <;> rfl
            | ok joinResponse =>
                cases run_join hb hgo.1 hq hrun
                rfl
        | _ => cases t <;> rfl
      rw [received, received, load_run hq, hcarried]
      simp only [carried, List.countP_nil]
      omega
  | destroy hq hf' => exact Bool.noConfusion (hf'.symm.trans hgo.1)

/-! ## What becomes of a message -/

/-- A description that was popped was set, an offer that was due was made. -/
structure Acted (p : Phase) (w : World) : Prop where
  set : Going p w → ∀ {type : SignalingMessageType} {sdpType : SdpType} {task : PeerTask},
    RemoteStep type sdpType task →
      (beats w.trace).count (.setRemote sdpType)
        = (poppedMessages w.trace).countP (fun m => m.type = type)
  made : w.ctl.offerStarted = true → .create .offer ∈ beats w.trace
  described : Going p w → (∃ type, .remoteApplied type ∈ beats w.trace) →
    w.peer.remoteDescriptionSet = true

theorem Acted.grow {p p' : Phase} {w w' : World} {l : List Action} (h : Acted p w)
    (hgo : Going p' w' → Going p w) (htrace : w'.trace = w.trace ++ l)
    (hset : Going p' w' → ∀ {type : SignalingMessageType} {sdpType : SdpType} {task : PeerTask},
      RemoteStep type sdpType task → (beats l).count (.setRemote sdpType)
        = (poppedMessages l).countP (fun m => m.type = type))
    (hmade : w'.ctl.offerStarted = true →
      w.ctl.offerStarted = true ∨ .create .offer ∈ beats l)
    (hdescribed : Going p' w' →
      w.peer.remoteDescriptionSet = true ∨ (∃ type, .remoteApplied type ∈ beats l) →
        w'.peer.remoteDescriptionSet = true) : Acted p' w' := by
  refine ⟨fun hgo' type sdpType task hs => ?_, fun ho => ?_, fun hgo' hd => ?_⟩
  · have hold := h.set (hgo hgo') hs
    have hnew := hset hgo' hs
    rw [htrace, beats_append, List.count_append, poppedMessages_append, List.countP_append]
    omega
  · rw [htrace, beats_append]
    exact List.mem_append.mpr ((hmade ho).imp h.made id)
  · obtain ⟨type, hmem⟩ := hd
    rw [htrace, beats_append] at hmem
    refine hdescribed hgo' ((List.mem_append.mp hmem).imp (fun hm => ?_) fun hm => ⟨type, hm⟩)
    exact h.described (hgo hgo') ⟨type, hm⟩

/-- Where no remote description is applied, it was before. -/
theorem described_before {l : List Beat} {isSet : Bool}
    (h : isSet = true ∨ ∃ type, .remoteApplied type ∈ l) (hno : ∀ type, .remoteApplied type ∉ l) :
    isSet = true := by
  refine h.resolve_right ?_
  intro hdone
  obtain ⟨type, hmem⟩ := hdone
  exact hno type hmem

/-- Neither a beat nor a message taken off the queue. -/
def noDeed : Action → Bool
  | .popped _ _ => false
  | a => noBeat a

theorem routine_noDeed : Routine noDeed :=
  ⟨fun _ => rfl, rfl, fun _ => rfl, rfl, fun _ => rfl⟩

theorem noDeed_quiet {l : List Action} (h : l.all noDeed = true) :
    beats l = [] ∧ poppedMessages l = [] := by
  have hall := List.all_eq_true.mp h
  constructor
  · refine beats_quiet (List.all_eq_true.mpr fun a ha => ?_)
    have hq := hall a ha
    cases a <;> first | exact hq | rfl
  · refine List.filterMap_eq_nil_iff.mpr fun a ha => ?_
    have hq := hall a ha
    cases a <;> first | rfl | cases hq

theorem noDeed_states (before after : CallState) :
    beats (stateActions before after) = []
      ∧ poppedMessages (stateActions before after) = [] :=
  noDeed_quiet routine_noDeed.states

/-- Moves that do nothing of the kind. -/
theorem Acted.quiet {p p' : Phase} {w w' : World} {l : List Action} (h : Acted p w)
    (hgo : Going p' w' → Going p w) (htrace : w'.trace = w.trace ++ l)
    (hbeats : beats l = [])
    (hpopped : Going p' w' → ∀ m ∈ poppedMessages l, m.type = .candidate)
    (hoffer : w'.ctl.offerStarted = w.ctl.offerStarted)
    (hset : Going p' w' → w'.peer.remoteDescriptionSet = w.peer.remoteDescriptionSet) :
    Acted p' w' := by
  refine h.grow hgo htrace (fun hgo' type sdpType task hs => ?_)
    (fun ho => Or.inl (hoffer ▸ ho)) (fun hgo' hd => ?_)
  · -- a candidate is no description
    rw [hbeats, List.count_nil, eq_comm, List.countP_eq_zero]
    intro m hm
    rw [hpopped hgo' m hm]
    cases hs <;> decide
  · rw [hset hgo']
    refine described_before hd fun type hmem => ?_
    rw [hbeats] at hmem
    cases hmem

theorem acted_init : Acted .idle initial where
  set _ := fun hs => by cases hs <;> rfl
  made h := by cases h
  described _ h := by
    obtain ⟨type, hmem⟩ := h
    have hnone : beats initial.trace = [] := rfl
    rw [hnone] at hmem
    cases hmem

theorem Acted.still {p p' : Phase} {w w' : World} {l : List Action} (h : Acted p w)
    (hgo : Going p' w' → Going p w) (htrace : w'.trace = w.trace ++ l)
    (hquiet : l.all noDeed = true) (hoffer : w'.ctl.offerStarted = w.ctl.offerStarted)
    (hset : Going p' w' → w'.peer.remoteDescriptionSet = w.peer.remoteDescriptionSet) :
    Acted p' w' := by
  obtain ⟨hbeats, hpopped⟩ := noDeed_quiet hquiet
  refine h.quiet hgo htrace hbeats (fun _ m hm => ?_) hoffer hset
  rw [hpopped] at hm
  cases hm

/-- What is left by popping a message and setting its description. -/
def begunActions (n : Nat) (m : SignalingMessage) (sdpType : SdpType) (w : World) : List Action :=
  .popped m n :: stateActions w.ctl.state .negotiating
    ++ connectionCall w (.setRemoteDescription sdpType m.sdp)

theorem begun_beats (n : Nat) (m : SignalingMessage) (sdpType : SdpType) (w : World) :
    beats (begunActions n m sdpType w) = [.setRemote sdpType]
      ∧ poppedMessages (begunActions n m sdpType w) = [m] := by
  obtain ⟨hbeats, hpopped⟩ := noDeed_states w.ctl.state .negotiating
  constructor
  · rw [begunActions, List.cons_append, ← List.singleton_append, beats_append, beats_append,
      hbeats]
    rfl
  · rw [begunActions, List.cons_append, poppedMessages_cons, poppedMessages_append, hpopped]
    rfl

/-- The two kinds of description do not mix. -/
theorem begun_matches {m : SignalingMessage} {n : Nat} {w : World}
    {type : SignalingMessageType} {sdpType sdpType' : SdpType} {task task' : PeerTask}
    (hm : RemoteStep m.type sdpType task) (hs : RemoteStep type sdpType' task') :
    (beats (begunActions n m sdpType w)).count (.setRemote sdpType')
      = (poppedMessages (begunActions n m sdpType w)).countP (fun m => m.type = type) := by
  obtain ⟨hbeats, hpopped⟩ := begun_beats n m sdpType w
  rw [hbeats, hpopped, List.countP_singleton]
  by_cases heq : sdpType' = sdpType
  · subst heq
    rw [List.count_singleton_self, if_pos (by simpa using remoteStep_type hm hs)]
  · have htype : ¬ m.type = type := by
      intro htype
      rw [htype] at hm
      cases hs <;> cases hm <;> exact heq rfl
    rw [List.count_singleton, if_neg (by simpa using Ne.symm heq), if_neg (by simpa using htype)]

/-- Passing the candidates pops none. -/
theorem poppedMessages_flush {type : SdpType} {live : Bool} {ms : List SignalingMessage}
    {l : List Action} :
    poppedMessages (.remoteApplied type :: passActions live ms ++ l) = poppedMessages l := by
  have hpass : poppedMessages (passActions live ms) = [] :=
    (noDeed_quiet (all_passActions rfl fun _ => rfl)).2
  rw [← List.singleton_append, List.append_assoc, poppedMessages_append, poppedMessages_append,
    hpass]
  rfl

/-- **Kept by every move.** -/
theorem acted_move {p p' : Phase} {w w' : World} (hj : Joining p w) (h : Acted p w)
    (hm : Move env p w p' w') : Acted p' w' := by
  have hgo := going_move hm
  cases hm with
  | @remoteBegun _ m rest sdpType task hp hq hm =>
      refine h.grow (l := begunActions w.stepsInFlight m sdpType w) hgo rfl
        (fun _ _ _ _ hs => begun_matches hm hs) Or.inl
        (fun _ hd => described_before hd fun type hmem => ?_)
      rw [(begun_beats ..).1] at hmem
      cases List.mem_singleton.mp hmem
  | remoteOfferSet =>
      refine h.grow hgo rfl (fun _ _ _ _ hs => ?_) Or.inl (fun _ _ => rfl)
      rw [beats_flush, poppedMessages_flush]
      cases hs <;> rfl
  | remoteAnswerSet =>
      refine h.grow hgo rfl (fun _ _ _ _ hs => ?_) Or.inl (fun _ _ => rfl)
      rw [beats_flush, poppedMessages_flush]
      cases hs <;> rfl
  | flushFailed =>
      exact h.grow hgo rfl (fun h => Bool.noConfusion h.2) Or.inl (fun h => Bool.noConfusion h.2)
  | offerStarted =>
      refine h.grow hgo rfl (fun _ _ _ _ hs => ?_) (fun _ => Or.inr ?_) (fun _ hd => ?_)
      · obtain ⟨hbeats, hpopped⟩ := noDeed_states w.ctl.state .negotiating
        rw [beats_append, poppedMessages_append, hbeats, hpopped]
        cases hs <;> rfl
      · rw [beats_append]
        exact List.mem_append_right _ (List.mem_singleton_self _)
      · refine described_before hd fun type hmem => ?_
        rw [beats_append, (noDeed_quiet routine_noDeed.states).1] at hmem
        cases List.mem_singleton.mp hmem
  | localBegun =>
      refine h.grow hgo rfl (fun _ _ _ _ hs => ?_) Or.inl
        (fun _ hd => described_before hd fun type hmem => ?_)
      · cases hs <;> rfl
      · cases List.mem_singleton.mp hmem
  | localSet =>
      refine h.grow hgo rfl (fun _ _ _ _ hs => ?_) Or.inl
        (fun _ hd => described_before hd fun type hmem => ?_)
      · cases hs <;> rfl
      · simp [beats, beat] at hmem
  | connectionCreated =>
      -- nothing was described before there was a connection
      have hw := hj.fresh (Or.inl ⟨_, rfl⟩)
      have hnone : beats (w.trace ++ [.created .connection]) = [] := by
        refine beats_quiet (List.all_eq_true.mpr fun a ha => ?_)
        rcases List.mem_append.mp ha with ha | ha
        · have hs := hw.history a ha
          cases a <;> first | rfl | cases hs
        · cases List.mem_singleton.mp ha
          rfl
      have hstill : Acted (.setUp _) (grow w w.ctl w.peer [] [.created .connection]) :=
        h.still hgo rfl rfl rfl fun _ => rfl
      refine ⟨hstill.set, hstill.made, ?_⟩
      intro _ hdone
      obtain ⟨type, hmem⟩ := hdone
      rw [grow_trace, hnone] at hmem
      cases hmem
  | candidateBuffered hp hq hm' hr =>
      refine h.quiet hgo rfl rfl (fun _ m hm => ?_) rfl fun _ => rfl
      cases List.mem_singleton.mp hm
      exact hm'
  | candidatePassed hp hq hm' hr =>
      refine h.quiet hgo rfl ?_ (fun _ m hm => ?_) rfl fun _ => rfl
      · exact beats_quiet (by rw [List.all_cons, all_passActions rfl fun _ => rfl]; rfl)
      · rw [poppedMessages_cons, (noDeed_quiet (all_passActions rfl fun _ => rfl)).2] at hm
        cases List.mem_singleton.mp hm
        exact hm'
  -- the call is over, or about to be
  | candidateFailed =>
      refine h.quiet hgo rfl ?_ (fun h => Bool.noConfusion h.2) rfl (fun _ => rfl)
      exact beats_quiet (by rw [List.all_cons, all_passActions rfl fun _ => rfl]; rfl)
  | byePopped | unknownPopped =>
      exact h.quiet hgo rfl rfl (fun h => Bool.noConfusion h.2) rfl (fun _ => rfl)
  | remoteUnparsed =>
      refine h.quiet hgo rfl ?_ (fun h => Bool.noConfusion h.2) rfl (fun _ => rfl)
      refine beats_quiet ?_
      rw [List.all_append, List.all_cons, routine_noBeat.states]
      rfl
  | byeSent hf =>
      refine h.still hgo rfl ?_ rfl fun h => Bool.noConfusion (hf.symm.trans h.1)
      rw [List.all_cons, routine_noDeed.closing]
      rfl
  | byeStarted =>
      refine h.still hgo rfl ?_ rfl fun h => Bool.noConfusion h.1
      rw [List.all_append, stopActions, List.all_cons, routine_noDeed.states]
      rfl
  | ended =>
      exact h.still hgo (ended_trace ..) (routine_noDeed.ended rfl rfl) rfl
        fun h => Bool.noConfusion h.1
  -- nothing of the kind is done
  | already | stopped | drained | ignore | fail | setUpFailed =>
      exact h.still (l := []) hgo (by simp) rfl rfl fun _ => rfl
  | stats hs =>
      refine h.still hgo rfl ?_ rfl fun _ => rfl
      rcases hs with rfl | ⟨_, rfl⟩ <;> rfl
  | setUpDone | established =>
      refine h.still hgo rfl ?_ rfl fun _ => rfl
      rw [List.all_cons, routine_noDeed.states]
      rfl
  | webSocketOpen => exact h.still hgo rfl routine_noDeed.states rfl fun _ => rfl
  | _ => exact h.still hgo rfl rfl rfl fun _ => rfl

theorem acted_enter {p : Phase} {w w' : World} {l : Label} (h : Acted .idle w)
    (he : Enter w l p w') : Acted p w' := by
  cases he with
  | destroy hq hf =>
      exact h.still (fun h => ⟨h.1, rfl⟩) rfl routine_noDeed.close rfl
        fun h => Bool.noConfusion (hf.symm.trans h.1)
  | _ => exact h.still (l := []) (fun h => ⟨h.1, rfl⟩) (by simp) rfl rfl fun _ => rfl

theorem acted_visited {p : Phase} {w : World} (h : Visited env p w) : Acted p w :=
  h.invariant (I := Acted) acted_init (fun _ _ _ _ _ hi he => acted_enter hi he)
    (fun _ _ _ _ hv hi hm => acted_move (joining_visited hv) hi hm)

/-! ## Nothing left to do -/

/-- Registered, with nothing under way and nothing that was sent still to be taken in. -/
structure Rested (w : World) : Prop where
  unfinished : w.ctl.finished = false
  ready : w.ctl.negotiationReady = true
  calm : w.stepsInFlight = 0
  taken : ∀ t ∈ w.pending, taskMessages t = []

/-- The queue was pumped dry. -/
theorem Rested.drained {w : World} (h : Rested w) (hr : Reached env w) :
    w.ctl.pendingSignalingMessages = []
      ∧ ∀ joinResponse, w.ctl.joinResponse = some joinResponse →
        joinResponse.isInitiator = true → w.ctl.offerStarted = true := by
  have hv := reached_visited hr
  have hlock : w.ctl.signalingActionInFlight = false := by
    cases hl : w.ctl.signalingActionInFlight with
    | false => rfl
    | true =>
        have hone := ((flight_visited hv).lock h.unfinished rfl).mp hl
        rw [show steps .idle w = 0 from h.calm] at hone
        cases hone
  exact settled_visited hv h.unfinished rfl (by simp) h.ready hlock

/-- So all that was received was popped. -/
theorem Rested.popped {w : World} (h : Rested w) (hr : Reached env w)
    (f : SignalingMessage → Bool) :
    (poppedMessages w.trace).countP f = received env f .idle w := by
  have hfifo := congrArg (List.countP f) (queued_visited (reached_visited hr)).fifo
  rw [(h.drained hr).1, List.append_nil, List.countP_append] at hfifo
  have hnone : (load .idle w).flatMap taskMessages = [] :=
    List.flatMap_eq_nil_iff.mpr h.taken
  rw [received, hnone, hfifo]
  rfl

/-- A rested client is between two steps. -/
theorem Rested.rests {w : World} (h : Rested w) (hr : Reached env w) :
    isRest (beats w.trace).getLast? = true :=
  (beating_visited (reached_visited hr)).rest h.unfinished rfl h.calm

end Client

/-! ## A room that loses nothing -/

variable {env : Side → Env} {J : JsonCpp}

/-- The steps of a room in which every message gets to the server. -/
def keepsAll : Room → RoomLabel → Bool
  | _, .lose _ => false
  | _, _ => true

/-- **A step of such a room** brings a side a front of what waits for it, all of it. -/
theorem roomStep_keeps {r r' : Room} {l : RoomLabel}
    (h : restrict (roomStep env) keepsAll r l = some r') :
    ∃ s label count w, step (env s) (r.world s) label = some w ∧ r' = r.advance s count w
      ∧ count ≤ (r.waiting s).length
      ∧ brought (env s) label = parsedMessages (env s) ((r.waiting s).take count) := by
  obtain ⟨hkeeps, h⟩ := restrict_eq_some.mp h
  unfold roomStep at h
  cases l with
  | step s label =>
      dsimp only at h
      split at h
      · cases h
      · rename_i hb
        obtain ⟨w, hw, rfl⟩ := Option.map_eq_some_iff.mp h
        exact ⟨s, label, 0, w, hw, rfl, Nat.zero_le _, brought_none _ (by simpa using hb)⟩
  | join s joinResponse =>
      dsimp only at h
      split at h
      · rename_i hj
        obtain ⟨_, hfront⟩ := hj
        obtain ⟨w, hw, rfl⟩ := Option.map_eq_some_iff.mp h
        refine ⟨s, _, _, w, hw, rfl, hfront.length_le, ?_⟩
        rw [← List.prefix_iff_eq_take.mp hfront]
        rfl
      · cases h
  | relay s frame =>
      dsimp only at h
      split at h
      · rename_i text rest event hwait hevents
        split at h
        · rename_i hwraps
          obtain ⟨w, hw, rfl⟩ := Option.map_eq_some_iff.mp h
          refine ⟨s, _, 1, w, hw, rfl, by simp [hwait], ?_⟩
          rw [frameEvents_wraps hwraps] at hevents
          rw [hwait]
          cases hparse : parseSignalingMessage (env s).json text with
          | none =>
              rw [hparse] at hevents
              cases hevents
          | some result =>
              rw [hparse] at hevents
              cases result <;> cases hevents <;>
                simp [brought, taskMessages, parsedMessages, hparse]
        · cases h
      · cases h
  | lose s => cases hkeeps

/-- Each side that goes on has been brought what was relayed to it. -/
structure Kept (env : Side → Env) (r : Room) : Prop where
  within : ∀ s, r.relayed s ≤ (sentTexts (r.world s.other).trace).length
  exact : ∀ s f, (r.world s).ctl.finished = false → received (env s) f .idle (r.world s)
    = (parsedMessages (env s)
      ((sentTexts (r.world s.other).trace).take (r.relayed s))).countP f

theorem kept_start : Kept env Room.start where
  within _ := Nat.zero_le _
  exact _ _ _ := rfl

theorem parsedMessages_append (e : Env) (l k : List Text) :
    parsedMessages e (l ++ k) = parsedMessages e l ++ parsedMessages e k :=
  List.filterMap_append

/-- What was relayed is not changed by the sender sending more. -/
theorem relayed_same {l l' : List Text} {n : Nat} (h : l <+: l') (hn : n ≤ l.length) :
    l'.take n = l.take n := by
  obtain ⟨more, rfl⟩ := h
  exact List.take_append_of_le_length hn

theorem kept_step {r r' : Room} {l : RoomLabel} (hp : Paired env r) (h : Kept env r)
    (hs : restrict (roomStep env) keepsAll r l = some r') : Kept env r' := by
  obtain ⟨s, label, count, w, hstep, rfl, hcount, hbrought⟩ := roomStep_keeps hs
  have hgrow : sentTexts (r.world s).trace <+: sentTexts w.trace :=
    (trace_step (hp.reached s) hstep).filterMap _
  have hself : s.other ≠ s := by cases s <;> decide
  have hother : ∀ t, t ≠ s → t.other = s := fun t ht => by
    cases t <;> cases s <;> first | rfl | exact absurd rfl ht
  refine ⟨fun t => ?_, fun t f hf => ?_⟩
  · by_cases ht : t = s
    · subst ht
      have hwithin := h.within t
      rw [Room.waiting, List.length_drop] at hcount
      rw [Room.advance_relayed, Room.advance_world_ne _ hself]
      omega
    · have hwithin := h.within t
      rw [hother t ht] at hwithin
      rw [Room.advance_relayed_ne _ ht, hother t ht, Room.advance_world]
      exact Nat.le_trans hwithin hgrow.length_le
  · by_cases ht : t = s
    · -- the side that moved has what it had, and what it was brought
      subst ht
      rw [Room.advance_world] at hf ⊢
      rw [Room.advance_relayed, Room.advance_world_ne _ hself, List.take_add,
        parsedMessages_append, List.countP_append, received_exact f (hp.reached t) hstep hf,
        hbrought, h.exact t f (unfinished_step (hp.reached t) hstep hf)]
      rfl
    · have hwithin := h.within t
      rw [hother t ht] at hwithin
      rw [Room.advance_world_ne _ ht] at hf ⊢
      rw [Room.advance_relayed_ne _ ht, hother t ht, Room.advance_world,
        relayed_same hgrow hwithin, h.exact t f hf, hother t ht]

theorem kept_reachable {r : Room}
    (h : Reachable (restrict (roomStep env) keepsAll) Room.start r) : Kept env r :=
  h.invariant (I := Kept env) kept_start fun _ _ _ hr hi hs =>
    kept_step (paired_reachable hr.of_restrict) hi hs

/-! ## Both scripts are played to their end -/

/-- Neither side has anything left to do, and everything sent was relayed. -/
def AtRest (r : Room) : Prop := ∀ s, Rested (r.world s) ∧ r.waiting s = []

/-- **A side of a quiet room has popped what the other sent.** -/
theorem AtRest.popped {r : Room} (hq : AtRest r)
    (h : Reachable (restrict (roomStep env) keepsAll) Room.start r) (s : Side)
    (f : SignalingMessage → Bool) :
    (poppedMessages (r.world s).trace).countP f
      = (parsedMessages (env s) (sentTexts (r.world s.other).trace)).countP f := by
  obtain ⟨hrest, hwait⟩ := hq s
  have hreach := (paired_reachable h.of_restrict).reached s
  have hall : (sentTexts (r.world s.other).trace).length ≤ r.relayed s :=
    List.drop_eq_nil_iff.mp hwait
  rw [hrest.popped hreach, (kept_reachable h).exact s f hrest.unfinished,
    List.take_of_length_le hall]

/-- The texts of the descriptions that were sent read back as they were written. -/
def Reread (J : JsonCpp) (r : Room) : Prop :=
  ∀ s type sdp, J.write (descriptionJson type sdp) ∈ sentDescriptions (r.world s).trace →
    Rereads J (descriptionJson type sdp)

/-- The message of the description each side sends. -/
def Side.writes : Side → SignalingMessageType
  | .initiator => .offer
  | .joiner => .answer

theorem writes_remoteStep (s : Side) : ∃ task, RemoteStep (Side.writes s) (Side.sends s) task := by
  cases s
  · exact ⟨_, .offer⟩
  · exact ⟨_, .answer⟩

/-- A description that was written is read as one of its side. -/
theorem readsAs_description {s : Side} {sdp : Text}
    (h : Rereads J (descriptionJson (Side.sends s) sdp)) :
    readsAs J (Side.writes s) (J.write (descriptionJson (Side.sends s) sdp)) = true := by
  have htype : Side.sends s = .offer ∨ Side.sends s = .answer := by
    cases s
    · exact Or.inl rfl
    · exact Or.inr rfl
  rw [readsAs, decode_description htype h]
  cases s <;> rfl

/-- A side that got to sending has sent the description of its side. -/
theorem sent_description (hJ : ∀ s, (env s).json = J) (hread : ReadsBack J) {r : Room}
    (h : Reachable (roomStep env) Room.start r) (hre : Reread J r) {s : Side}
    (hsent : .sent ∈ beats (r.world s).trace) : 0 < sentOf J r s (Side.writes s) := by
  obtain ⟨a, ha, hbeat⟩ := List.mem_filterMap.mp hsent
  obtain ⟨pre, post, htrace⟩ := List.append_of_mem ha
  have hreach := (paired_reachable h).reached s
  cases a with
  | send kind route payload =>
      cases kind with
      | description =>
          obtain ⟨description, hser, hlast⟩ :=
            (account_visited (reached_visited hreach)).sends _ _ _ htrace
          -- what was applied before it was sent is in the script
          have happlied : .localApplied description.type ∈ beats (r.world s).trace := by
            rw [htrace, beats_append]
            exact List.mem_append_left _ (List.mem_of_getLast? hlast)
          have htype := script_applies ((keeps_script hJ hread h s).subset happlied)
          obtain ⟨sdp, hpayload⟩ := serialize_eq hser
          rw [htype, hJ s] at hpayload
          have hmem : payload ∈ sentDescriptions (r.world s).trace :=
            List.mem_filterMap.mpr ⟨_, ha, rfl⟩
          rw [hpayload] at hmem
          refine List.countP_pos_iff.mpr ⟨payload, List.mem_filterMap.mpr ⟨_, ha, rfl⟩, ?_⟩
          rw [hpayload]
          exact readsAs_description (hre s _ sdp hmem)
      | _ => cases hbeat
  | _ => cases hbeat

/-- What one side of a quiet room sent as its description, the other has set. -/
theorem set_description (hJ : ∀ s, (env s).json = J) {r : Room} (hq : AtRest r)
    (h : Reachable (restrict (roomStep env) keepsAll) Room.start r) {s : Side}
    (hsent : 0 < sentOf J r s.other (Side.writes s.other)) :
    .setRemote (Side.sends s.other) ∈ beats (r.world s).trace := by
  obtain ⟨task, hstep⟩ := writes_remoteStep s.other
  have hreach := (paired_reachable h.of_restrict).reached s
  have hset := (acted_visited (reached_visited hreach)).set
    ⟨(hq s).1.unfinished, rfl⟩ hstep
  rw [hq.popped h s, countP_parsedMessages, hJ s] at hset
  exact List.count_pos_iff.mp (hset ▸ hsent)

/-- What holds of every front that can be cut off a list holds of every front of it. -/
theorem front_of_take {α : Type} {P : List α → Prop} {l l' : List α} (h : l <+: l')
    (hall : ∀ n < l'.length + 1, P (l'.take n)) : P l := by
  rw [List.prefix_iff_eq_take.mp h]
  exact hall _ (Nat.lt_succ_of_le h.length_le)

/-- An initiator that has made its offer rests where it has sent it, or at the end. -/
theorem initiator_rests {l : List Beat} (h : l <+: initiatorScript) :
    isRest l.getLast? = true → .create .offer ∈ l →
      l = initiatorScript.take 4 ∨ l = initiatorScript :=
  front_of_take (P := fun l => isRest l.getLast? = true → .create .offer ∈ l →
    l = initiatorScript.take 4 ∨ l = initiatorScript) h (by decide)

/-- A joiner that was set an offer rests where it has sent its answer. -/
theorem joiner_rests {l : List Beat} (h : l <+: joinerScript) :
    isRest l.getLast? = true → .setRemote .offer ∈ l → l = joinerScript :=
  front_of_take (P := fun l => isRest l.getLast? = true → .setRemote .offer ∈ l →
    l = joinerScript) h (by decide)

/-- **Both scripts are played to their end.** -/
theorem scripts_played (hJ : ∀ s, (env s).json = J) (hread : ReadsBack J) {r : Room}
    (h : Reachable (restrict (roomStep env) keepsAll) Room.start r) (hre : Reread J r)
    (hq : AtRest r) (s : Side) : beats (r.world s).trace = script s := by
  have hp := paired_reachable h.of_restrict
  have hkeeps := keeps_script hJ hread h.of_restrict
  have hrests := fun s => (hq s).1.rests (hp.reached s)
  -- the initiator registered, so it made its offer
  have hmade : .create .offer ∈ beats (r.world .initiator).trace := by
    have hv := reached_visited (hp.reached .initiator)
    obtain ⟨jr, hjr⟩ := Option.isSome_iff_exists.mp ((base_visited hv).ready (hq _).1.ready)
    exact (acted_visited hv).made (((hq _).1.drained (hp.reached _)).2 jr hjr (hp.role _ jr hjr))
  have hinitiator := initiator_rests (hkeeps .initiator) (hrests _) hmade
  have hsent : .sent ∈ beats (r.world .initiator).trace := by
    rcases hinitiator with heq | heq <;> rw [heq] <;> decide
  have hoffer : .setRemote .offer ∈ beats (r.world .joiner).trace :=
    set_description hJ hq h (sent_description hJ hread h.of_restrict hre (s := .initiator) hsent)
  have hjoiner := joiner_rests (hkeeps .joiner) (hrests _) hoffer
  cases s with
  | joiner => exact hjoiner
  | initiator =>
      have hanswer : .sent ∈ beats (r.world .joiner).trace := by rw [hjoiner]; decide
      have hset : .setRemote .answer ∈ beats (r.world .initiator).trace :=
        set_description hJ hq h (sent_description hJ hread h.of_restrict hre (s := .joiner) hanswer)
      refine hinitiator.resolve_left fun heq => ?_
      rw [heq] at hset
      exact absurd hset (by decide)

theorem poppedCandidates_eq (l : List Action) :
    poppedCandidates l = (poppedMessages l).filter (fun m => m.type = .candidate) := by
  induction l with
  | nil => rfl
  | cons a l ih =>
      have hcons : poppedCandidates (a :: l) = poppedCandidates [a] ++ poppedCandidates l :=
        poppedCandidates_append [a] l
      have hpop : poppedMessages (a :: l) = poppedMessages [a] ++ poppedMessages l :=
        poppedMessages_append [a] l
      rw [hcons, hpop, List.filter_append, ih]
      congr 1
      cases a with
      | popped m n =>
          by_cases hm : m.type = .candidate <;> simp [poppedCandidates, poppedMessages, hm]
      | _ => rfl

/-- A rested client that was described has passed on every candidate it popped. -/
theorem Rested.passed {e : Env} {w : World} (h : Rested w) (hr : Reached e w)
    (hd : ∃ type, .remoteApplied type ∈ beats w.trace) :
    passedCandidates w.trace = poppedCandidates w.trace := by
  have hv := reached_visited hr
  have hset := (acted_visited hv).described ⟨h.unfinished, rfl⟩ hd
  obtain ⟨hpassed, hflushed⟩ := (candidates_visited hv).exact h.unfinished rfl
  rwa [hflushed hset, List.append_nil] at hpassed

/--
**The negotiation completes.** Once both clients are registered and unfinished, with
nothing under way and nothing on its way, in a room that lost no message: both have played
their scripts to the end and are back in a stable signaling state; each has acted on
exactly the messages the other sent; and each has added exactly the candidates among them.
-/
theorem negotiation_completes (hJ : ∀ s, (env s).json = J) (hread : ReadsBack J) {r : Room}
    (h : Reachable (restrict (roomStep env) keepsAll) Room.start r) (hre : Reread J r)
    (hq : AtRest r) (s : Side) :
    beats (r.world s).trace = script s
      ∧ signalingState (beats (r.world s).trace) = .stable
      ∧ (poppedMessages (r.world s).trace).Perm
        (parsedMessages (env s) (sentTexts (r.world s.other).trace))
      ∧ (passedCandidates (r.world s).trace).Perm
        ((parsedMessages (env s) (sentTexts (r.world s.other).trace)).filter
          (fun m => m.type = .candidate)) := by
  have hplayed := scripts_played hJ hread h hre hq s
  have hpopped : (poppedMessages (r.world s).trace).Perm
      (parsedMessages (env s) (sentTexts (r.world s.other).trace)) :=
    List.perm_iff_count.mpr fun m => hq.popped h s (· == m)
  refine ⟨hplayed, by rw [hplayed]; cases s <;> rfl, hpopped, ?_⟩
  have hdescribed : ∃ type, .remoteApplied type ∈ beats (r.world s).trace := by
    rw [hplayed]
    cases s
    · exact ⟨.answer, by decide⟩
    · exact ⟨.offer, by decide⟩
  rw [(hq s).1.passed ((paired_reachable h.of_restrict).reached s) hdescribed,
    poppedCandidates_eq]
  exact hpopped.filter _

theorem callJson_reread : Reread callJson afterCall := by
  have hsent : ∀ s, sentDescriptions (afterCall.world s).trace
      = if s = .initiator then [offerText] else [answerText] := by
    intro s
    cases s <;> decide
  intro s type sdp hmem
  by_cases hsdp : sdp = "v=0"
  · subst hsdp
    rw [hsent] at hmem
    cases s <;> cases type <;> first | rfl | exact absurd hmem (by decide)
  · -- no other text is written as a description
    have hunwritten : callJson.write (descriptionJson type sdp) = [] := by
      simp [callJson, descriptionJson, hsdp]
    rw [hunwritten, hsent] at hmem
    cases s <;> exact absurd hmem (by decide)

/-- The call of `Proof/Room.lean` ends in such a room. -/
theorem negotiation_completes_call :
    AtRest afterCall ∧ signalingState (beats (afterCall.world .initiator).trace) = .stable := by
  have hcall : exec (restrict (roomStep callEnv) keepsAll) Room.start callLabels
      = some afterCall := rfl
  have hquiet : AtRest afterCall := fun s => by
    cases s <;> exact ⟨⟨by decide, by decide, by decide, by decide⟩, by decide⟩
  have hcompletes := negotiation_completes (fun _ => rfl) callJson_readsBack
    (Reachable.of_exec hcall) callJson_reread hquiet
  exact ⟨hquiet, (hcompletes .initiator).2.1⟩

end ApprtcCli.Proof
