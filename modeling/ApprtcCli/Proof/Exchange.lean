import ApprtcCli.Call.Room
import ApprtcCli.Proof.Beats
import ApprtcCli.Proof.Bye

/-!
# What a client sends for what it gets

The account of one client: it makes at most one offer, and none unless it was told to
be the initiator; it sets a remote description only for a message it popped; and what
it sends is a description it has set, a candidate, or the bye. Together with the order
of the beats that bounds what a client sends by what it was sent.
-/

namespace ApprtcCli.Proof

open Lib Call

variable {env : Env}

/-- The descriptions handed to the signaling client, in order. -/
def sentDescriptions (l : List Action) : List Text :=
  l.filterMap fun
    | .send .description _ payload => some payload
    | _ => none

theorem sentDescriptions_length (l : List Action) :
    (sentDescriptions l).length = (beats l).count .sent := by
  induction l with
  | nil => rfl
  | cons a l ih =>
      have hcons : beats (a :: l) = beats [a] ++ beats l := beats_append [a] l
      have hsent : sentDescriptions (a :: l) = sentDescriptions [a] ++ sentDescriptions l :=
        List.filterMap_append (l := [a])
      rw [hcons, hsent, List.length_append, List.count_append, ih]
      congr 1
      cases a with
      | send kind route payload => cases kind <;> rfl
      | _ => rfl

/-- Where each sent text comes from. -/
def Written (env : Env) (pre : List Action) : Action → Prop
  | .send .description _ payload => ∃ description,
      serializeSessionDescription env.json description = .ok payload
        ∧ (beats pre).getLast? = some (.localApplied description.type)
  | .send (.candidate _) _ payload => ∃ candidate,
      serializeIceCandidate env.json candidate = .ok payload
  | .send (.bye _) _ payload => payload = buildByeMessage
  | _ => True

/-- Has nothing to do with the account. -/
def noDeal (a : Action) : Bool := noBeat a && !isSend a

theorem routine_noDeal : Routine noDeal :=
  ⟨fun _ => rfl, rfl, fun _ => rfl, rfl, fun _ => rfl⟩

theorem noDeal_beats {l : List Action} (h : l.all noDeal = true) : beats l = [] := by
  refine beats_quiet (List.all_eq_true.mpr fun a ha => ?_)
  have hq := List.all_eq_true.mp h a ha
  exact (Bool.and_eq_true_iff.mp hq).1

/-- Nothing is sent. -/
theorem written_quiet {l : List Action} (h : l.all (fun a => !isSend a) = true) :
    ∀ a ∈ l, ∀ pre, Written env pre a := by
  intro a ha pre
  have hq := List.all_eq_true.mp h a ha
  cases a <;> trivial

structure Account (env : Env) (p : Phase) (w : World) : Prop where
  offers : (beats w.trace).count (.create .offer) ≤ if w.ctl.offerStarted then 1 else 0
  initiates : w.ctl.offerStarted = true →
    ∃ joinResponse, w.ctl.joinResponse = some joinResponse ∧ joinResponse.isInitiator = true
  remote : ∀ {type : SignalingMessageType} {sdpType : SdpType} {task : PeerTask},
    RemoteStep type sdpType task →
      (beats w.trace).count (.setRemote sdpType)
        ≤ (poppedMessages w.trace).countP (fun m => m.type = type)
  /-- The text the closure of a set-local observer holds is that of its description. -/
  json : ∀ flag description json,
    .safe flag (.setLocalDescription description json) ∈ load p w →
      serializeSessionDescription env.json description = .ok json
  sends : Trail (Written env) w.trace

def setsLocal : Task → Bool
  | .safe _ (.setLocalDescription _ _) => true
  | _ => false

/-- Where no set-local stage is started, the texts are those there were. -/
theorem Account.json_kept {p p' : Phase} {w w' : World} (h : Account env p w)
    (hload : ∀ t ∈ load p' w', setsLocal t = true → t ∈ load p w) :
    ∀ flag description json, .safe flag (.setLocalDescription description json) ∈ load p' w' →
      serializeSessionDescription env.json description = .ok json :=
  fun flag description json ht => h.json flag description json (hload _ ht rfl)

theorem Account.grow {p p' : Phase} {w w' : World} {l : List Action} (h : Account env p w)
    (htrace : w'.trace = w.trace ++ l)
    (hoffer : (beats l).count (.create .offer) = 0
      ∧ w'.ctl.offerStarted = w.ctl.offerStarted)
    (hremote : ∀ {type : SignalingMessageType} {sdpType : SdpType} {task : PeerTask},
      RemoteStep type sdpType task → (beats l).count (.setRemote sdpType)
        ≤ (poppedMessages l).countP (fun m => m.type = type))
    (hj : ∀ joinResponse, w.ctl.joinResponse = some joinResponse →
      w'.ctl.joinResponse = some joinResponse)
    (hjson : ∀ flag description json,
      .safe flag (.setLocalDescription description json) ∈ load p' w' →
        serializeSessionDescription env.json description = .ok json)
    (hsends : Trail (Written env) (w.trace ++ l)) : Account env p' w' := by
  refine ⟨?_, ?_, ?_, hjson, by rw [htrace]; exact hsends⟩
  · rw [htrace, beats_append, List.count_append, hoffer.1, hoffer.2]
    exact h.offers
  · rw [hoffer.2]
    intro ho
    obtain ⟨jr, hjr, hi⟩ := h.initiates ho
    exact ⟨jr, hj jr hjr, hi⟩
  · intro type sdpType task hs
    have hold := h.remote hs
    have hnew := hremote hs
    rw [htrace, beats_append, List.count_append, poppedMessages_append, List.countP_append]
    omega

/-- Candidates passed, and what comes before and after them, where no step begins. -/
theorem Account.flush {p p' : Phase} {w w' : World} {type : SdpType} {live : Bool}
    {ms : List SignalingMessage} {l : List Action} (h : Account env p w)
    (htrace : w'.trace = w.trace ++ (.remoteApplied type :: passActions live ms ++ l))
    (hcreate : (beats l).count (.create .offer) = 0)
    (hset : ∀ type, (beats l).count (.setRemote type) = 0)
    (hsend : l.all (fun a => !isSend a) = true)
    (hoffer : w'.ctl.offerStarted = w.ctl.offerStarted)
    (hj : w'.ctl.joinResponse = w.ctl.joinResponse)
    (hload : ∀ t ∈ load p' w', setsLocal t = true → t ∈ load p w) : Account env p' w' := by
  refine h.grow htrace ⟨?_, hoffer⟩ ?_ (fun jr hjr => by rw [hj]; exact hjr)
    (h.json_kept hload) (h.sends.append (written_quiet ?_))
  · rw [beats_flush, List.count_cons_of_ne (by simp), hcreate]
  · intro _ sdpType _ _
    rw [beats_flush, List.count_cons_of_ne (by simp), hset]
    exact Nat.zero_le _
  · rw [List.all_append, List.all_cons, hsend, all_passActions rfl fun _ => rfl]
    rfl

/-- Moves that have nothing to do with the account. -/
theorem Account.quiet {p p' : Phase} {w w' : World} {l : List Action}
    (h : Account env p w) (hoffer : w'.ctl.offerStarted = w.ctl.offerStarted)
    (hj : ∀ joinResponse, w.ctl.joinResponse = some joinResponse →
      w'.ctl.joinResponse = some joinResponse)
    (hload : ∀ t ∈ load p' w', setsLocal t = true → t ∈ load p w)
    (htrace : w'.trace = w.trace ++ l) (hquiet : l.all noDeal = true) :
    Account env p' w' := by
  have hbeats := noDeal_beats hquiet
  refine h.grow htrace ⟨by rw [hbeats]; rfl, hoffer⟩ (fun _ => by rw [hbeats]; simp) hj
    (h.json_kept hload) ?_
  refine h.sends.append (written_quiet (List.all_eq_true.mpr fun a ha => ?_))
  exact (Bool.and_eq_true_iff.mp (List.all_eq_true.mp hquiet a ha)).2

/-- The type of a description message is that of its description. -/
theorem remoteStep_type {type type' : SignalingMessageType} {sdpType : SdpType}
    {task task' : PeerTask} (h : RemoteStep type sdpType task)
    (h' : RemoteStep type' sdpType task') : type = type' := by
  cases h <;> cases h' <;> rfl

theorem remoteStep_setsLocal {type : SignalingMessageType} {sdpType : SdpType}
    {task : PeerTask} (h : RemoteStep type sdpType task) (flag : Nat) :
    setsLocal (.safe flag task) = false := by
  cases h <;> rfl

theorem account_init : Account env .idle initial where
  offers := by decide
  initiates h := by cases h
  remote _ := Nat.zero_le _
  json flag description json ht := by
    rcases load_initial ht with ht | ht <;> cases ht
  sends := trail_singleton trivial

/-- **Kept by every move.** -/
theorem account_move {p p' : Phase} {w w' : World} (hj : Joining p w)
    (h : Account env p w) (hm : Move env p w p' w') : Account env p' w' := by
  cases hm with
  | @localBegun _ type text json r hs =>
      refine h.grow (l := connectionCall w (.setLocalDescription ⟨type, text⟩)) rfl
        ⟨rfl, rfl⟩ (fun hs => by cases hs <;> exact Nat.le_refl 0) (fun _ hj => hj) ?_
        (h.sends.append (written_quiet rfl))
      intro flag description json' ht
      simp only [load, grow_pending, List.mem_append, List.mem_singleton] at ht
      rcases ht with ht | ht
      · exact h.json _ _ _ (List.mem_cons_of_mem _ ht)
      · -- the one stage that is started holds the text just written
        cases ht
        exact hs
  | @localSet _ description json jr hj' =>
      -- what is sent is what was just set
      have hjson := h.json _ _ _ (List.mem_cons_self ..)
      refine h.grow (l := [.localApplied description.type, .callback,
          .send .description (routeOf env jr) json]) rfl ⟨rfl, rfl⟩
        (fun hs => by cases hs <;> exact Nat.le_refl 0) (fun _ hj => hj)
        (h.json_kept (load_started (grow_pending ..) rfl)) ?_
      have hset : Trail (Written env) (w.trace ++ [.localApplied description.type, .callback]) :=
        h.sends.append (written_quiet rfl)
      have hlast : (beats (w.trace ++ [.localApplied description.type, .callback])).getLast?
          = some (.localApplied description.type) := by
        rw [beats_append]
        exact List.getLast?_concat
      have hsend : Written env (w.trace ++ [.localApplied description.type, .callback])
          (.send .description (routeOf env jr) json) := ⟨description, hjson, hlast⟩
      simpa using trail_concat.mpr ⟨hset, hsend⟩
  | @candidateSent _ _ n candidate payload jr hf hj' hp =>
      refine h.grow (l := [.send (.candidate n) (routeOf env jr) payload]) rfl ⟨rfl, rfl⟩
        (fun hs => by cases hs <;> exact Nat.le_refl 0) (fun _ hj => hj)
        (h.json_kept (load_started (grow_pending ..) rfl)) ?_
      have hsend : Written env w.trace (.send (.candidate n) (routeOf env jr) payload) :=
        ⟨candidate, hp⟩
      exact trail_concat.mpr ⟨h.sends, hsend⟩
  | @byeStarted _ status jr hf hj' =>
      -- what the controller itself writes is the bye
      have hquiet : (stopActions .localDurationReached status w.ctl.state).all noDeal = true := by
        rw [stopActions, List.all_cons, routine_noDeal.states]
        rfl
      refine h.grow rfl ⟨?_, rfl⟩ ?_ (fun _ hj => hj)
        (h.json_kept (load_started (byeSent_pending ..) rfl)) ?_
      · rw [beats_append, noDeal_beats hquiet]
        rfl
      · intro _ _ _ hs
        rw [beats_append, noDeal_beats hquiet]
        exact Nat.zero_le _
      · -- the bye comes right after what `Finish` leaves, which sends nothing
        rw [← List.append_assoc]
        refine trail_concat.mpr ⟨h.sends.append (written_quiet ?_), rfl⟩
        rw [stopActions, List.all_cons, routine_notSend.states]
        rfl
  | @offerStarted _ jr hp hq hjr hi ho =>
      have hquiet : (stateActions w.ctl.state .negotiating).all noDeal = true :=
        routine_noDeal.states
      refine ⟨?_, fun _ => ⟨jr, hjr, hi⟩, ?_,
        h.json_kept (load_started (grow_pending ..) rfl), ?_⟩
      · -- the flag was down, so no offer had been made
        have hnone := h.offers
        rw [ho] at hnone
        rw [grow_trace, beats_append, beats_append, noDeal_beats hquiet]
        simp only [List.count_append]
        exact Nat.add_le_add_right hnone 1
      · intro type sdpType task hs
        have hold := h.remote hs
        have hnew : (beats (connectionCall w (.createDescription .offer))).count
            (.setRemote sdpType) = 0 := rfl
        rw [grow_trace, beats_append, beats_append, noDeal_beats hquiet, poppedMessages_append,
          List.countP_append, List.nil_append, List.count_append, hnew]
        omega
      · rw [grow_trace, ← List.append_assoc]
        exact (h.sends.append (written_quiet routine_notSend.states)).append (written_quiet rfl)
  | @remoteBegun _ m rest sdpType task hp hq hm =>
      have hquiet : (stateActions w.ctl.state .negotiating).all noDeal = true :=
        routine_noDeal.states
      have hbeats : beats (.popped m w.stepsInFlight :: stateActions w.ctl.state .negotiating
          ++ connectionCall w (.setRemoteDescription sdpType m.sdp)) = [.setRemote sdpType] := by
        rw [List.cons_append, ← List.singleton_append, beats_append, beats_append,
          noDeal_beats hquiet]
        rfl
      refine h.grow rfl ⟨by rw [hbeats]; rfl, rfl⟩ ?_ (fun _ hj => hj)
        (h.json_kept (load_started (grow_pending ..) ?_)) ?_
      · intro type' sdpType' task' hs
        rw [hbeats]
        by_cases heq : sdpType' = sdpType
        · -- the message that was popped accounts for it
          subst heq
          have hmatch : m.type = type' := remoteStep_type hm hs
          rw [List.count_singleton_self, List.cons_append, poppedMessages_cons,
            List.countP_cons, if_pos (by simpa using hmatch)]
          omega
        · rw [List.count_singleton, if_neg (by simpa using Ne.symm heq)]
          exact Nat.zero_le _
      · rw [List.all_cons, remoteStep_setsLocal hm w.peer.safety]
        rfl
      · refine h.sends.append (written_quiet ?_)
        rw [List.cons_append, List.all_cons, List.all_append, routine_notSend.states]
        rfl
  | remoteOfferSet | remoteAnswerSet | flushFailed =>
      exact h.flush rfl rfl (fun _ => rfl) rfl rfl rfl (load_started (grow_pending ..) rfl)
  | joined hf =>
      -- there was no join response yet
      refine h.quiet rfl (fun jr hjr => ?_) (load_started (grow_pending ..) rfl) rfl rfl
      rw [hj.unjoined] at hjr
      cases hjr
  | byeSent hf =>
      refine h.quiet rfl (fun _ hj => hj) (load_kept (completed_pending ..)) rfl ?_
      rw [List.all_cons, routine_noDeal.closing]
      rfl
  | ended =>
      exact h.quiet rfl (fun _ hj => hj) (load_kept (ended_pending ..)) (ended_trace ..)
        (routine_noDeal.ended rfl rfl)
  | already | stopped | drained | ignore | fail | setUpFailed =>
      exact h.quiet (l := []) rfl (fun _ hj => hj) (load_kept rfl) (by simp) rfl
  | observed =>
      refine h.quiet rfl (fun _ hj => hj) ?_ rfl rfl
      intro t ht _
      simpa [load] using ht
  | descriptionSent | descriptionUnsent | videoSourceCreated | startupTimer | durationTimer
  | chainFailed | byePopped | unknownPopped | factoryCreated | connectionCreated | setUpDeref
  | accepted | candidateBuffered =>
      exact h.quiet rfl (fun _ hj => hj) (load_started (grow_pending ..) rfl) rfl rfl
  | candidatePassed | candidateFailed =>
      refine h.quiet rfl (fun _ hj => hj) (load_started (grow_pending ..) rfl) rfl ?_
      rw [List.all_cons, all_passActions rfl fun _ => rfl]
      rfl
  | remoteUnparsed =>
      refine h.quiet rfl (fun _ hj => hj) (load_started (grow_pending ..) rfl) rfl ?_
      rw [List.all_append, List.all_cons, routine_noDeal.states]
      rfl
  | setUpDone =>
      refine h.quiet rfl (fun _ hj => hj) ?_ rfl ?_
      · intro t ht _
        simpa [load, World.pending] using ht
      · rw [List.all_cons, routine_noDeal.states]
        rfl
  | registered =>
      exact h.quiet rfl (fun _ hj => hj) (load_started (grow_pending ..) (all_statsStarted rfl _))
        rfl rfl
  | stats hs =>
      refine h.quiet rfl (fun _ hj => hj) (load_started (grow_pending ..) rfl) rfl ?_
      rcases hs with rfl | ⟨_, rfl⟩ <;> rfl
  | webSocketOpen =>
      exact h.quiet rfl (fun _ hj => hj) (load_started (grow_pending ..) rfl) rfl
        routine_noDeal.states
  | established =>
      refine h.quiet rfl (fun _ hj => hj) (load_established fun _ => rfl) rfl ?_
      rw [List.all_cons, routine_noDeal.states]
      rfl

theorem account_enter {p : Phase} {w w' : World} {l : Label} (h : Account env .idle w)
    (he : Enter w l p w') : Account env p w' := by
  cases he with
  | post hi =>
      exact h.quiet (l := []) rfl (fun _ hj => hj)
        (fun _ ht _ => (load_post hi).mem_iff.mp ht) (by simp) rfl
  | @event t hr =>
      refine h.quiet (l := []) rfl (fun _ hj => hj) ?_ (by simp) rfl
      intro t' ht' hs
      rcases load_event ht' with ht' | rfl
      · exact ht'
      · -- no event sets a description
        cases t' with
        | safe flag task => cases task <;> first | cases hr | cases hs
        | _ => cases hs
  | run hq =>
      refine h.quiet (l := []) rfl (fun _ hj => hj) ?_ (by simp) rfl
      intro t ht _
      rwa [load_run hq] at ht
  | destroy hq hf =>
      refine h.quiet rfl (fun _ hj => hj) ?_ rfl routine_noDeal.close
      intro t ht _
      simpa [load, World.pending] using ht

theorem account_visited {p : Phase} {w : World} (h : Visited env p w) : Account env p w :=
  h.invariant (I := Account env) account_init (fun _ _ _ _ _ hi he => account_enter hi he)
    (fun _ _ _ _ hv hi hm => account_move (joining_visited hv) hi hm)

/-! ## What the other side reads -/

/-- The document a description is written as. -/
def descriptionJson (type : SdpType) (sdp : Text) : Json :=
  .object [("sdp", .string sdp), ("type", .string (sdpTypeToString type))]

/-- The document a candidate is written as. -/
def candidateJson (candidate : IceCandidate) (sdp : Text) : Json :=
  .object
    [("candidate", .string sdp), ("id", .string candidate.sdpMid),
      ("label", .int candidate.sdpMlineIndex), ("type", .string "candidate")]

/-- A text that parses, if it does, to a document of this type. -/
def Types (J : JsonCpp) (text type : Text) : Prop :=
  ∀ root, J.parse text = .ok root → stringMember J root "type" = some type

/-- JsonCpp reads the type of what the program writes as it was put there. -/
structure ReadsBack (J : JsonCpp) : Prop where
  description : ∀ type sdp, Types J (J.write (descriptionJson type sdp)) (sdpTypeToString type)
  candidate : ∀ candidate sdp, Types J (J.write (candidateJson candidate sdp)) "candidate"
  bye : Types J buildByeMessage "bye"

/-- A text that reads as a message of this type. -/
def readsAs (J : JsonCpp) (type : SignalingMessageType) (text : Text) : Bool :=
  match parseSignalingMessage J text with
  | some (.ok m) => m.type = type
  | _ => false

/-- The type of a message, by the `type` of its document. -/
def messageType (type : Text) : SignalingMessageType :=
  if type = "offer" then .offer
  else if type = "answer" then .answer
  else if type = "candidate" then .candidate
  else if type = "bye" then .bye
  else .unknown

theorem read_messageType {J : JsonCpp} {text type : Text} {root : Json} {m : SignalingMessage}
    (h : readSignalingMessage J text root = some m) (ht : stringMember J root "type" = some type) :
    m.type = messageType type := by
  obtain ⟨type', ht', hbody⟩ := Option.bind_eq_some_iff.mp h
  rw [ht] at ht'
  injection ht' with ht'
  subst ht'
  unfold messageType
  by_cases h1 : type = "offer"
  · rw [if_pos h1] at hbody ⊢
    obtain ⟨sdp, _, hm⟩ := Option.bind_eq_some_iff.mp hbody
    injection hm with hm
    rw [← hm]
  rw [if_neg h1] at hbody ⊢
  by_cases h2 : type = "answer"
  · rw [if_pos h2] at hbody ⊢
    obtain ⟨sdp, _, hm⟩ := Option.bind_eq_some_iff.mp hbody
    injection hm with hm
    rw [← hm]
  rw [if_neg h2] at hbody ⊢
  by_cases h3 : type = "candidate"
  · rw [if_pos h3] at hbody ⊢
    obtain ⟨candidate, _, hbody⟩ := Option.bind_eq_some_iff.mp hbody
    obtain ⟨mid, _, hbody⟩ := Option.bind_eq_some_iff.mp hbody
    obtain ⟨index, _, hm⟩ := Option.bind_eq_some_iff.mp hbody
    injection hm with hm
    rw [← hm]
  rw [if_neg h3] at hbody ⊢
  by_cases h4 : type = "bye"
  · rw [if_pos h4] at hbody ⊢
    injection hbody with hm
    rw [← hm]
  · rw [if_neg h4] at hbody ⊢
    injection hbody with hm
    rw [← hm]

/-- A text is read as the type its document names. -/
theorem readsAs_messageType {J : JsonCpp} {type : SignalingMessageType} {text name : Text}
    (h : readsAs J type text = true) (hname : Types J text name) : messageType name = type := by
  unfold readsAs at h
  split at h
  · rename_i m hparse
    have hm : m.type = type := by simpa using h
    unfold parseSignalingMessage at hparse
    split at hparse
    · cases hparse
    · rename_i root hroot
      obtain ⟨m', hread, heq⟩ := Option.map_eq_some_iff.mp hparse
      injection heq with heq
      subst heq
      rw [← read_messageType hread (hname root hroot), hm]
  · cases h

theorem serialize_eq {J : JsonCpp} {description : SessionDescription} {json : Text}
    (h : serializeSessionDescription J description = .ok json) :
    ∃ sdp, json = J.write (descriptionJson description.type sdp) := by
  unfold serializeSessionDescription at h
  split at h
  · cases h
  · rename_i sdp _
    injection h with h
    exact ⟨sdp, h.symm⟩

theorem serializeCandidate_eq {J : JsonCpp} {candidate : IceCandidate} {json : Text}
    (h : serializeIceCandidate J candidate = .ok json) :
    ∃ sdp, json = J.write (candidateJson candidate sdp) := by
  unfold serializeIceCandidate at h
  split at h
  · cases h
  · rename_i sdp _
    injection h with h
    exact ⟨sdp, h.symm⟩

/-- A description is read as a description of its own type. -/
theorem description_readsAs {J : JsonCpp} (hJ : ReadsBack J) {description : SessionDescription}
    {json : Text} {type : SignalingMessageType} {sdpType : SdpType} {task : PeerTask}
    (hs : serializeSessionDescription J description = .ok json)
    (hstep : RemoteStep type sdpType task) (h : readsAs J type json = true) :
    description.type = sdpType := by
  obtain ⟨sdp, rfl⟩ := serialize_eq hs
  have hname := readsAs_messageType h (hJ.description _ _)
  cases hstep <;> cases hd : description.type <;> rw [hd] at hname <;>
    first | rfl | exact absurd hname (by decide)

/-- What is read as a description was sent as one. -/
theorem candidate_readsAs {J : JsonCpp} (hJ : ReadsBack J) {candidate : IceCandidate}
    {json : Text} {type : SignalingMessageType} {sdpType : SdpType} {task : PeerTask}
    (hs : serializeIceCandidate J candidate = .ok json)
    (hstep : RemoteStep type sdpType task) : readsAs J type json = false := by
  obtain ⟨sdp, rfl⟩ := serializeCandidate_eq hs
  cases h : readsAs J type (J.write (candidateJson candidate sdp)) with
  | false => rfl
  | true =>
      have hname := readsAs_messageType h (hJ.candidate _ _)
      cases hstep <;> exact absurd hname (by decide)

theorem bye_readsAs {J : JsonCpp} (hJ : ReadsBack J) {type : SignalingMessageType}
    {sdpType : SdpType} {task : PeerTask} (hstep : RemoteStep type sdpType task) :
    readsAs J type buildByeMessage = false := by
  cases h : readsAs J type buildByeMessage with
  | false => rfl
  | true =>
      have hname := readsAs_messageType h hJ.bye
      cases hstep <;> exact absurd hname (by decide)

/-! ## What is sent for what -/

theorem sentTexts_append (l k : List Action) : sentTexts (l ++ k) = sentTexts l ++ sentTexts k :=
  List.filterMap_append

/-- A text that is read as a description was sent as one. -/
theorem written_description (hJ : ReadsBack env.json) {pre : List Action} {kind : SendKind}
    {route : Route} {payload : Text} {type : SignalingMessageType} {sdpType : SdpType}
    {task : PeerTask} (h : Written env pre (.send kind route payload))
    (hstep : RemoteStep type sdpType task) (hread : readsAs env.json type payload = true) :
    kind = .description ∧ (beats pre).getLast? = some (.localApplied sdpType) := by
  cases kind with
  | description =>
      obtain ⟨description, hs, hlast⟩ := h
      rw [description_readsAs hJ hs hstep hread] at hlast
      exact ⟨rfl, hlast⟩
  | candidate n =>
      obtain ⟨candidate, hs⟩ := h
      rw [candidate_readsAs hJ hs hstep] at hread
      cases hread
  | bye status =>
      have hbye : payload = buildByeMessage := h
      rw [hbye, bye_readsAs hJ hstep] at hread
      cases hread

/-- Descriptions are set before they are sent, and each is sent once. -/
theorem sent_le_applied (hJ : ReadsBack env.json) {type : SignalingMessageType}
    {sdpType : SdpType} {task : PeerTask} (hstep : RemoteStep type sdpType task)
    {l : List Action} (h : Trail (Written env) l) :
    (sentTexts l).countP (readsAs env.json type)
      ≤ (beats l).count (.localApplied sdpType) := by
  -- one that was just set is not sent yet
  have hopen : (sentTexts l).countP (readsAs env.json type)
      + endsIn (.localApplied sdpType) (beats l) ≤ (beats l).count (.localApplied sdpType) := by
    induction l using List.reverseRecOn with
    | nil => simp [sentTexts, beats, endsIn]
    | append_singleton l a ih =>
        obtain ⟨hl, ha⟩ := trail_concat.mp h
        have ih := ih hl
        have hlast := endsIn_append_le (.localApplied sdpType) (beats l) (beats [a])
        rw [sentTexts_append, beats_append, List.countP_append, List.count_append]
        by_cases hsent : (sentTexts [a]).countP (readsAs env.json type) = 0
        · omega
        · obtain ⟨payload, hmem, hread⟩ := List.countP_pos_iff.mp (Nat.pos_of_ne_zero hsent)
          cases a with
          | send kind route text =>
              have htext : payload = text := List.mem_singleton.mp hmem
              subst htext
              obtain ⟨rfl, hset⟩ := written_description hJ ha hstep hread
              have hbefore : endsIn (.localApplied sdpType) (beats l) = 1 := if_pos hset
              have hafter : endsIn (.localApplied sdpType)
                  (beats l ++ beats [.send .description route payload]) = 0 :=
                if_neg (by rw [show beats [.send .description route payload] = [.sent] from rfl,
                  List.getLast?_concat]; simp)
              have hone : (sentTexts [.send .description route payload]).countP
                  (readsAs env.json type) ≤ 1 := List.countP_le_length
              omega
          | _ => cases hmem
  omega

/-- A client that was read as having sent a description has sent one. -/
theorem sent_beat (hJ : ReadsBack env.json) {type : SignalingMessageType} {sdpType : SdpType}
    {task : PeerTask} (hstep : RemoteStep type sdpType task) {l : List Action}
    (h : Trail (Written env) l) (hread : 0 < (sentTexts l).countP (readsAs env.json type)) :
    .sent ∈ beats l := by
  obtain ⟨payload, hmem, hread⟩ := List.countP_pos_iff.mp hread
  obtain ⟨a, ha, hpay⟩ := List.mem_filterMap.mp hmem
  obtain ⟨pre, post, rfl⟩ := List.append_of_mem ha
  cases a with
  | send kind route text =>
      injection hpay with hpay
      subst hpay
      obtain ⟨rfl, _⟩ := written_description hJ (h _ _ _ rfl) hstep hread
      exact List.mem_filterMap.mpr ⟨_, ha, rfl⟩
  | _ => cases hpay

/-! ## The order of the beats -/

theorem applied_le_created {l : List Beat} (h : InTime l) (type : SdpType) :
    l.count (.localApplied type) ≤ l.count (.create type) := by
  have happlied : l.count (.localApplied type) ≤ l.count (.setLocal type) :=
    Trail.count_le h (by simp) fun _ hb => hb
  exact Nat.le_trans happlied (Trail.count_le h (by simp) fun _ hb => hb)

/-- An answer is created for an offer that was set. -/
theorem answers_le_offers {l : List Beat} (h : InTime l) :
    l.count (.create .answer) ≤ l.count (.setRemote .offer) := by
  have hcreated : l.count (.create .answer) ≤ l.count (.remoteApplied .offer) := by
    refine Trail.count_le h (by simp) fun pre hb => ?_
    rcases hb with ⟨hoffer, _⟩ | ⟨_, hlast⟩
    · cases hoffer
    · exact hlast
  exact Nat.le_trans hcreated (Trail.count_le h (by simp) fun _ hb => hb)

/-- **What a client sends is bounded by what it popped**: an answer for an offer. -/
theorem answersSent_le (hJ : ReadsBack env.json) {w : World} (h : Reached env w) :
    (sentTexts w.trace).countP (readsAs env.json .answer)
      ≤ (poppedMessages w.trace).countP (fun m => m.type = .offer) := by
  have hv := reached_visited h
  have hin := (beating_visited hv).inTime
  have hacc := account_visited hv
  calc (sentTexts w.trace).countP (readsAs env.json .answer)
      ≤ (beats w.trace).count (.localApplied .answer) := sent_le_applied hJ .answer hacc.sends
    _ ≤ (beats w.trace).count (.create .answer) := applied_le_created hin .answer
    _ ≤ (beats w.trace).count (.setRemote .offer) := answers_le_offers hin
    _ ≤ (poppedMessages w.trace).countP (fun m => m.type = .offer) := hacc.remote .offer

/-- **A client sends no more offers than it made.** -/
theorem offersSent_le (hJ : ReadsBack env.json) {w : World} (h : Reached env w) :
    (sentTexts w.trace).countP (readsAs env.json .offer)
      ≤ (beats w.trace).count (.create .offer) := by
  have hv := reached_visited h
  exact Nat.le_trans (sent_le_applied hJ .offer (account_visited hv).sends)
    (applied_le_created (beating_visited hv).inTime .offer)

/-- It makes one at most, and none unless it is the initiator. -/
theorem offersMade_le {w : World} (h : Reached env w) :
    (beats w.trace).count (.create .offer) ≤ 1 := by
  have hle := (account_visited (reached_visited h)).offers
  split at hle <;> omega

theorem offersMade_joiner {w : World} (h : Reached env w)
    (hrole : ∀ joinResponse, w.ctl.joinResponse = some joinResponse →
      joinResponse.isInitiator = false) :
    (beats w.trace).count (.create .offer) = 0 := by
  have hacc := account_visited (reached_visited h)
  have hle := hacc.offers
  split at hle
  · rename_i ho
    obtain ⟨jr, hj, hi⟩ := hacc.initiates ho
    rw [hrole jr hj] at hi
    cases hi
  · omega

end ApprtcCli.Proof
