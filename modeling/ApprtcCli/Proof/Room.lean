import ApprtcCli.Proof.Candidates
import ApprtcCli.Proof.Inbox
import ApprtcCli.Proof.Script

/-!
# Two clients negotiate

Neither client knows what the other is doing, and nothing of what they do is in step.
What makes the negotiation legal is an account that goes round in a circle: an answer is
set only if one was sent, one is sent only for an offer that was set, an offer is set
only if one was sent, and only the initiator sends one, once. So each client keeps to
its script.

The circle is closed by time. When the initiator sets an answer it has sent its offer,
because the answer it was sent was made for that offer; and it had sent it before the
step in which it sets the answer, because the other side's answer was there before.
-/

namespace ApprtcCli.Proof

open Lib Call

variable {env : Side → Env} {J : JsonCpp}

/-! ## The server's part -/

theorem countP_parsedMessages (e : Env) (type : SignalingMessageType) (texts : List Text) :
    (parsedMessages e texts).countP (fun m => m.type = type)
      = texts.countP (readsAs e.json type) := by
  induction texts with
  | nil => rfl
  | cons text texts ih =>
      cases hparse : parseSignalingMessage e.json text with
      | none => simpa [parsedMessages, readsAs, hparse] using ih
      | some result =>
          cases result with
          | error error => simpa [parsedMessages, readsAs, hparse] using ih
          | ok m => simpa [parsedMessages, readsAs, hparse, List.countP_cons] using ih

/-- A step that brings nothing. -/
theorem brought_none (e : Env) {l : Label} (h : l.brings = false) : brought e l = [] := by
  cases l with
  | event t =>
      cases t with
      | signaling event => cases event <;> first | rfl | cases h
      | _ => rfl
  | run reply =>
      cases reply with
      | join joinResponse => cases joinResponse <;> first | rfl | cases h
      | _ => rfl
  | _ => rfl

/--
**What a step of the room is**: a loss, or a step of one side with what was relayed to it.
-/
theorem roomStep_cases {r r' : Room} {l : RoomLabel} (h : roomStep env r l = some r') :
    (∃ s, r' = r.advance s 1 (r.world s))
      ∨ ∃ s label count w, step (env s) (r.world s) label = some w ∧ r' = r.advance s count w
        ∧ (∀ joinResponse, label = .run (.join (.ok joinResponse)) →
          joinResponse.isInitiator = s.isInitiator)
        ∧ ∀ type, (brought (env s) label).countP (fun m => m.type = type)
          ≤ ((r.waiting s).take count).countP (readsAs (env s).json type) := by
  unfold roomStep at h
  cases l with
  | step s label =>
      dsimp only at h
      split at h
      · cases h
      · rename_i hb
        have hb : label.brings = false := by simpa using hb
        obtain ⟨w, hw, rfl⟩ := Option.map_eq_some_iff.mp h
        refine Or.inr ⟨s, label, 0, w, hw, rfl, ?_, fun _ => ?_⟩
        · rintro jr rfl
          cases hb
        · rw [brought_none _ hb]
          exact Nat.zero_le _
  | join s joinResponse =>
      dsimp only at h
      split at h
      · rename_i hj
        obtain ⟨hrole, hfront⟩ := hj
        obtain ⟨w, hw, rfl⟩ := Option.map_eq_some_iff.mp h
        refine Or.inr ⟨s, .run (.join (.ok joinResponse)), joinResponse.messages.length, w, hw,
          rfl, ?_, fun type => ?_⟩
        · intro jr hjr
          cases hjr
          exact hrole
        · -- the join brings what it can read of a front of what waits
          have hparsed := countP_parsedMessages (env s) type joinResponse.messages
          rw [← List.prefix_iff_eq_take.mp hfront]
          exact Nat.le_of_eq hparsed
      · cases h
  | relay s frame =>
      dsimp only at h
      split at h
      · rename_i text rest event hwait hevents
        split at h
        · rename_i hwraps
          obtain ⟨w, hw, rfl⟩ := Option.map_eq_some_iff.mp h
          refine Or.inr ⟨s, .event (.signaling event), 1, w, hw, rfl, by simp, fun type => ?_⟩
          -- the frame brings the message of the text it carries, or an error
          rw [frameEvents_wraps hwraps] at hevents
          rw [hwait]
          cases hparse : parseSignalingMessage (env s).json text with
          | none => rw [hparse] at hevents; cases hevents
          | some result =>
              rw [hparse] at hevents
              cases result with
              | error error =>
                  cases hevents
                  exact Nat.zero_le _
              | ok m =>
                  cases hevents
                  simp [brought, taskMessages, readsAs, hparse]
        · cases h
      · cases h
  | lose s =>
      dsimp only at h
      split at h
      · cases h
      · injection h with h
        exact Or.inl ⟨s, h.symm⟩

/-! ## Who was told what -/

/-- The join response a phase starts from. -/
def joinReply : Phase → Option JoinResponse
  | .run _ (.join (.ok joinResponse)) => some joinResponse
  | _ => none

/-- A controller has the join response it was given. -/
theorem joinResponse_move {e : Env} {p p' : Phase} {w w' : World} (hm : Move e p w p' w') :
    (joinReply p' = none ∨ p' = p)
      ∧ (w'.ctl.joinResponse = w.ctl.joinResponse
        ∨ ∃ joinResponse, joinReply p = some joinResponse
          ∧ w'.ctl.joinResponse = some joinResponse) := by
  cases hm with
  | @joined _ jr hf => exact ⟨Or.inl rfl, Or.inr ⟨jr, rfl, rfl⟩⟩
  | observed | established => exact ⟨Or.inr rfl, Or.inl rfl⟩
  | _ => exact ⟨Or.inl rfl, Or.inl rfl⟩

theorem joinResponse_step {e : Env} {w w' : World} {l : Label} (h : Reached e w)
    (hs : step e w l = some w') :
    w'.ctl.joinResponse = w.ctl.joinResponse
      ∨ ∃ joinResponse, l = .run (.join (.ok joinResponse))
        ∧ w'.ctl.joinResponse = some joinResponse := by
  obtain ⟨p, w₁, he, hm⟩ := step_cuts (base_visited (reached_visited h)) hs
  -- the reply is read by the first move or by none
  have hmoves := hm.invariant
    (I := fun q v => (joinReply q = none ∨ q = p)
      ∧ (v.ctl.joinResponse = w₁.ctl.joinResponse
        ∨ ∃ joinResponse, joinReply p = some joinResponse
          ∧ v.ctl.joinResponse = some joinResponse))
    (fun q v q' v' hi hm => by
      obtain ⟨hq, hv⟩ := hi
      obtain ⟨hq', hv'⟩ := joinResponse_move hm
      refine ⟨?_, ?_⟩
      · rcases hq' with hq' | rfl
        · exact Or.inl hq'
        · exact hq
      · rcases hv' with hv' | ⟨jr, hjr, hv'⟩
        · rw [hv']
          exact hv
        · rcases hq with hq | rfl
          · rw [hq] at hjr
            cases hjr
          · exact Or.inr ⟨jr, hjr, hv'⟩)
    ⟨Or.inr rfl, Or.inl rfl⟩
  have hsame : w₁.ctl.joinResponse = w.ctl.joinResponse := by cases he <;> rfl
  rcases hmoves.2 with hkept | ⟨jr, hjr, hw'⟩
  · exact Or.inl (hkept.trans hsame)
  · refine Or.inr ⟨jr, ?_, hw'⟩
    cases he with
    | @run t rest r hq =>
        unfold joinReply at hjr
        split at hjr
        · rename_i heq
          cases heq
          cases hjr
          rfl
        · cases hjr
    | _ => cases hjr

/-! ## The account of the room -/

structure Paired (env : Side → Env) (r : Room) : Prop where
  reached : ∀ s, Reached (env s) (r.world s)
  role : ∀ s joinResponse, (r.world s).ctl.joinResponse = some joinResponse →
    joinResponse.isInitiator = s.isInitiator
  /-- A client was sent no more than the other handed over and the server relayed. -/
  relayed : ∀ s type, received (env s) (fun m => m.type = type) .idle (r.world s)
    ≤ ((sentTexts (r.world s.other).trace).take (r.relayed s)).countP
      (readsAs (env s).json type)

/-- The messages of a type a side has sent. -/
def sentOf (J : JsonCpp) (r : Room) (s : Side) (type : SignalingMessageType) : Nat :=
  (sentTexts (r.world s).trace).countP (readsAs J type)

/-- The messages of a type a side has popped. -/
def poppedOf (r : Room) (s : Side) (type : SignalingMessageType) : Nat :=
  (poppedMessages (r.world s).trace).countP fun m => m.type = type

/-- **What one side popped the other has sent.** -/
theorem Paired.popped_le {r : Room} (h : Paired env r) (hJ : ∀ s, (env s).json = J) (s : Side)
    (type : SignalingMessageType) : poppedOf r s type ≤ sentOf J r s.other type := by
  have hrelayed := h.relayed s type
  rw [hJ s] at hrelayed
  have htake := (List.take_sublist (r.relayed s) (sentTexts (r.world s.other).trace)).countP_le
    (p := readsAs J type)
  exact Nat.le_trans (popped_le_received _ (h.reached s)) (Nat.le_trans hrelayed htake)

theorem sent_offer_le (hJ : ∀ s, (env s).json = J) (hread : ReadsBack J) {r : Room} (s : Side)
    (h : Reached (env s) (r.world s)) :
    sentOf J r s .offer ≤ (beats (r.world s).trace).count (.create .offer) := by
  have hle := offersSent_le (by rw [hJ s]; exact hread) h
  rwa [hJ s] at hle

theorem sent_answer_le (hJ : ∀ s, (env s).json = J) (hread : ReadsBack J) {r : Room} (s : Side)
    (h : Reached (env s) (r.world s)) : sentOf J r s .answer ≤ poppedOf r s .offer := by
  have hle := answersSent_le (by rw [hJ s]; exact hread) h
  rwa [hJ s] at hle

/-- The joiner makes no offer. -/
theorem Paired.joiner_makes {r : Room} (h : Paired env r) :
    (beats (r.world .joiner).trace).count (.create .offer) = 0 :=
  offersMade_joiner (h.reached .joiner) fun jr hjr => h.role .joiner jr hjr

/-- So the initiator is sent none. -/
theorem Paired.initiator_offers {r : Room} (h : Paired env r) (hJ : ∀ s, (env s).json = J)
    (hread : ReadsBack J) : poppedOf r .initiator .offer = 0 := by
  have hpopped := h.popped_le hJ .initiator .offer
  have hsent := sent_offer_le hJ hread .joiner (h.reached .joiner)
  have hmade := h.joiner_makes
  simp only [Side.other] at hpopped
  omega

/-- The joiner is sent one offer at most. -/
theorem Paired.joiner_offers {r : Room} (h : Paired env r) (hJ : ∀ s, (env s).json = J)
    (hread : ReadsBack J) : poppedOf r .joiner .offer ≤ 1 := by
  have hpopped := h.popped_le hJ .joiner .offer
  have hsent := sent_offer_le hJ hread .initiator (h.reached .initiator)
  have hmade := offersMade_le (h.reached .initiator)
  simp only [Side.other] at hpopped
  omega

/-- And no answer, as the initiator has none to give. -/
theorem Paired.joiner_answers {r : Room} (h : Paired env r) (hJ : ∀ s, (env s).json = J)
    (hread : ReadsBack J) : poppedOf r .joiner .answer = 0 := by
  have hpopped := h.popped_le hJ .joiner .answer
  have hsent := sent_answer_le hJ hread .initiator (h.reached .initiator)
  have hnone := h.initiator_offers hJ hread
  simp only [Side.other] at hpopped
  omega

/-- The initiator is sent no more answers than the joiner was sent offers. -/
theorem Paired.initiator_answers {r : Room} (h : Paired env r) (hJ : ∀ s, (env s).json = J)
    (hread : ReadsBack J) :
    poppedOf r .initiator .answer ≤ sentOf J r .joiner .answer
      ∧ sentOf J r .joiner .answer ≤ sentOf J r .initiator .offer := by
  have hpopped := h.popped_le hJ .initiator .answer
  have hsent := sent_answer_le hJ hread .joiner (h.reached .joiner)
  have hoffers := h.popped_le hJ .joiner .offer
  simp only [Side.other] at hpopped hoffers
  exact ⟨hpopped, Nat.le_trans hsent hoffers⟩

theorem paired_start : Paired env Room.start where
  reached _ := Reachable.init
  role s jr hjr := by cases hjr
  relayed s type := by
    have hnone : received (env s) (fun m => m.type = type) .idle initial = 0 := rfl
    exact Nat.le_trans (Nat.le_of_eq hnone) (Nat.zero_le _)

/-- What was relayed is still there to be counted when the sender has sent more. -/
theorem relayed_mono {l l' : List Text} (h : l <+: l') (n : Nat) (f : Text → Bool) :
    (l.take n).countP f ≤ (l'.take n).countP f := by
  obtain ⟨more, rfl⟩ := h
  rw [List.take_append, List.countP_append]
  exact Nat.le_add_right _ _

/-- A side is owed no less when messages to it are lost. -/
theorem Paired.lose {r : Room} (h : Paired env r) (s : Side) :
    Paired env (r.advance s 1 (r.world s)) := by
  refine ⟨?_, ?_, ?_⟩
  · rw [Room.advance_self]
    exact h.reached
  · rw [Room.advance_self]
    exact h.role
  · intro t type
    rw [Room.advance_self]
    have hle : r.relayed t ≤ (r.advance s 1 (r.world s)).relayed t := by
      by_cases ht : t = s
      · subst ht
        rw [Room.advance_relayed]
        exact Nat.le_succ _
      · rw [Room.advance_relayed_ne _ ht]
    exact Nat.le_trans (h.relayed t type) (List.take_sublist_take_left hle).countP_le

/-- **Kept by every step of the room.** -/
theorem paired_step {r r' : Room} {l : RoomLabel} (h : Paired env r)
    (hs : roomStep env r l = some r') : Paired env r' := by
  obtain ⟨s, rfl⟩ | ⟨s, label, count, w, hstep, rfl, hrole, hbrought⟩ := roomStep_cases hs
  · exact h.lose s
  have hgrow := trace_step (h.reached s) hstep
  have hreached : ∀ t, Reached (env t) ((r.advance s count w).world t) := by
    intro t
    by_cases ht : t = s
    · subst ht
      rw [Room.advance_world]
      exact (h.reached t).next hstep
    · rw [Room.advance_world_ne _ ht]
      exact h.reached t
  have hroles : ∀ t joinResponse,
      ((r.advance s count w).world t).ctl.joinResponse = some joinResponse →
        joinResponse.isInitiator = t.isInitiator := by
    intro t jr hjr
    by_cases ht : t = s
    · subst ht
      rw [Room.advance_world] at hjr
      rcases joinResponse_step (h.reached t) hstep with hsame | ⟨jr', hlabel, hnew⟩
      · rw [hsame] at hjr
        exact h.role t jr hjr
      · rw [hnew] at hjr
        cases hjr
        exact hrole jr hlabel
    · rw [Room.advance_world_ne _ ht] at hjr
      exact h.role t jr hjr
  have hrelayed : ∀ t type,
      received (env t) (fun m => m.type = type) .idle ((r.advance s count w).world t)
        ≤ ((sentTexts ((r.advance s count w).world t.other).trace).take
            ((r.advance s count w).relayed t)).countP (readsAs (env t).json type) := by
    intro t type
    by_cases ht : t = s
    · -- the side that moved has what it had, and what it was brought
      subst ht
      have hother : t.other ≠ t := by cases t <;> decide
      rw [Room.advance_world, Room.advance_relayed, Room.advance_world_ne _ hother,
        List.take_add, List.countP_append]
      exact Nat.le_trans (received_step _ (h.reached t) hstep)
        (Nat.add_le_add (h.relayed t type) (hbrought type))
    · -- the side that waits is not behind for the other having sent more
      have hother : t.other = s := by cases t <;> cases s <;> first | rfl | exact absurd rfl ht
      rw [Room.advance_world_ne _ ht, Room.advance_relayed_ne _ ht, hother, Room.advance_world]
      have hold := h.relayed t type
      rw [hother] at hold
      exact Nat.le_trans hold (relayed_mono (hgrow.filterMap _) _ _)
  exact ⟨hreached, hroles, hrelayed⟩

theorem paired_reachable {r : Room} (h : Reachable (roomStep env) Room.start r) :
    Paired env r :=
  h.invariant (I := Paired env) paired_start fun _ _ _ _ hi hs => paired_step hi hs

/-- An answer is only set by a client that has sent its offer. -/
def AnswerLate (pre : List Beat) (b : Beat) : Prop := b = .setRemote .answer → .sent ∈ pre

/-- **The initiator sets no answer before it has sent its offer.** -/
theorem late_step (hJ : ∀ s, (env s).json = J) (hread : ReadsBack J) {r r' : Room}
    {l : RoomLabel} (hp : Paired env r) (h : Trail AnswerLate (beats (r.world .initiator).trace))
    (hs : roomStep env r l = some r') :
    Trail AnswerLate (beats (r'.world .initiator).trace) := by
  have hp' := paired_step hp hs
  obtain ⟨s, rfl⟩ | ⟨s, label, count, w, hstep, rfl, _, _⟩ := roomStep_cases hs
  · rw [Room.advance_self]
    exact h
  cases s with
  | joiner =>
      rw [Room.advance_world_ne _ (by decide)]
      exact h
  | initiator =>
      obtain ⟨new, hnew⟩ := trace_step (hp.reached .initiator) hstep
      rw [Room.advance_world, ← hnew, beats_append]
      by_cases hsent : .sent ∈ beats (r.world .initiator).trace
      · refine (h.append_under (Q := fun l => .sent ∈ l) hsent ?_).1
        exact fun b _ pre hq => ⟨fun _ => hq, List.mem_append_left _ hq⟩
      · -- no offer was sent before this step, so there is no answer in it
        have hnone : sentOf J r .initiator .offer = 0 := by
          by_contra hpos
          exact hsent (sent_beat (by rw [hJ]; exact hread) .offer
            (account_visited (reached_visited (hp.reached .initiator))).sends
            (by rw [hJ]; exact Nat.pos_of_ne_zero hpos))
        have hanswers := (hp.initiator_answers hJ hread).2
        have hpopped := (hp'.initiator_answers hJ hread).1
        have hjoiner : sentOf J (r.advance .initiator count w) .joiner .answer
            = sentOf J r .joiner .answer := by
          rw [sentOf, Room.advance_world_ne _ (by decide)]
          rfl
        have hset : (beats ((r.advance .initiator count w).world .initiator).trace).count
            (.setRemote .answer) ≤ poppedOf (r.advance .initiator count w) .initiator .answer :=
          (account_visited (reached_visited (hp'.reached .initiator))).remote .answer
        have hzero : (beats (r.world .initiator).trace ++ beats new).count (.setRemote .answer)
            = 0 := by
          rw [← beats_append, hnew, ← Room.advance_world r .initiator count w]
          omega
        rintro pre b post hl rfl
        exact absurd (by rw [hl]; simp) (List.count_eq_zero.mp hzero)

/-! ## The negotiation -/

theorem late_reachable (hJ : ∀ s, (env s).json = J) (hread : ReadsBack J) {r : Room}
    (h : Reachable (roomStep env) Room.start r) :
    Trail AnswerLate (beats (r.world .initiator).trace) :=
  h.invariant (I := fun r => Trail AnswerLate (beats (r.world .initiator).trace)) (trail_nil _)
    fun _ _ _ hr hi hs => late_step hJ hread (paired_reachable hr) hi hs

/-- The beats of each side, as far as it gets. -/
def script : Side → List Beat
  | .initiator => initiatorScript
  | .joiner => joinerScript

/-- **Each side keeps to its script.** -/
theorem keeps_script (hJ : ∀ s, (env s).json = J) (hread : ReadsBack J) {r : Room}
    (h : Reachable (roomStep env) Room.start r) (s : Side) :
    beats (r.world s).trace <+: script s := by
  have hp := paired_reachable h
  have hv := fun s => reached_visited (hp.reached s)
  have hset : ∀ {s type sdpType task}, RemoteStep type sdpType task →
      (beats (r.world s).trace).count (.setRemote sdpType) ≤ poppedOf r s type :=
    fun hs => (account_visited (hv _)).remote hs
  cases s with
  | initiator =>
      have hoffers := hset (s := .initiator) .offer
      have hanswers := hset (s := .initiator) .answer
      have hnone := hp.initiator_offers hJ hread
      have hsent := hp.initiator_answers hJ hread
      have hmade := offersMade_le (hp.reached .initiator)
      have hone := sent_offer_le hJ hread .initiator (hp.reached .initiator)
      exact initiator_script (beating_visited (hv .initiator)).inTime (by omega) hmade (by omega)
        (late_reachable hJ hread h)
  | joiner =>
      have hoffers := hset (s := .joiner) .offer
      have hanswers := hset (s := .joiner) .answer
      have hone := hp.joiner_offers hJ hread
      have hnone := hp.joiner_answers hJ hread
      exact joiner_script (beating_visited (hv .joiner)).inTime hp.joiner_makes (by omega)
        (by omega)

theorem script_legal (s : Side) : Trail Legal (script s) := by
  cases s
  · exact initiatorScript_legal
  · exact joinerScript_legal

/-- The description each side sends. -/
def Side.sends : Side → SdpType
  | .initiator => .offer
  | .joiner => .answer

theorem script_applies {s : Side} {type : SdpType} (h : .localApplied type ∈ script s) :
    type = Side.sends s := by
  cases s <;> simpa [script, initiatorScript, joinerScript, Side.sends] using h

/--
**The negotiation is legal.** Whatever the order of tasks, completions, timers and
deliveries: every description is set in a signaling state that allows it, with every
earlier one applied; no candidate is added before a remote description was applied; and
one offer at most goes one way, and one answer at most the other.
-/
theorem negotiation_legal (hJ : ∀ s, (env s).json = J) (hread : ReadsBack J) {r : Room}
    (h : Reachable (roomStep env) Room.start r) (s : Side) :
    (∀ pre a post, (r.world s).trace = pre ++ a :: post →
        ∀ b, beat a = some b → Legal (beats pre) b)
      ∧ (∀ pre m post, (r.world s).trace = pre ++ .addIceCandidate m :: post →
        ∃ type, .remoteApplied type ∈ pre)
      ∧ (sentDescriptions (r.world s).trace).length ≤ 1
      ∧ ∀ payload ∈ sentDescriptions (r.world s).trace,
        ∃ sdp, payload = J.write (descriptionJson (Side.sends s) sdp) := by
  have hp := paired_reachable h
  have hscript := keeps_script hJ hread h s
  have hcandidates := candidates_visited (reached_visited (hp.reached s))
  refine ⟨?_, fun pre m post ht => hcandidates.law pre _ post ht, ?_, ?_⟩
  · exact ((script_legal s).of_front hscript).of_filterMap
  · rw [sentDescriptions_length]
    have hone : (script s).count .sent = 1 := by cases s <;> rfl
    exact Nat.le_trans (hscript.sublist.count_le _) (Nat.le_of_eq hone)
  · intro payload hmem
    obtain ⟨a, ha, hpay⟩ := List.mem_filterMap.mp hmem
    obtain ⟨pre, post, htrace⟩ := List.append_of_mem ha
    cases a with
    | send kind route text =>
        cases kind with
        | description =>
            cases hpay
            obtain ⟨description, hser, hlast⟩ :=
              (account_visited (reached_visited (hp.reached s))).sends _ _ _ htrace
            -- what was applied before it was sent is in the script
            have hbeats : .localApplied description.type ∈ beats (r.world s).trace := by
              rw [htrace, beats_append]
              exact List.mem_append_left _ (List.mem_of_getLast? hlast)
            obtain ⟨sdp, hpayload⟩ := serialize_eq hser
            rw [script_applies (hscript.subset hbeats), hJ s] at hpayload
            exact ⟨sdp, hpayload⟩
        | _ => cases hpay
    | _ => cases hpay

/-! ## A call that goes as it should -/

def offerText : Text := "\x7b\"sdp\":\"v=0\",\"type\":\"offer\"\x7d"

def answerText : Text := "\x7b\"sdp\":\"v=0\",\"type\":\"answer\"\x7d"

def answerFrame : Text :=
  "\x7b\"msg\":\"\x7b\\\"sdp\\\":\\\"v=0\\\",\\\"type\\\":\\\"answer\\\"\x7d\"\x7d"

/-- JsonCpp, on the documents of a call in which both descriptions are `v=0`. -/
def callJson : JsonCpp where
  parse := (JsonCpp.ofTable
    [("pc_config", .object [("iceServers", .array [])]),
      (offerText, descriptionJson .offer "v=0"), (answerText, descriptionJson .answer "v=0"),
      (buildByeMessage, .object [("type", .string "bye")]),
      (answerFrame, .object [("msg", .string answerText)])]).parse
  write
    | .object [(_, .string sdp), (_, .string type)] =>
        if sdp = "v=0" ∧ type = "offer" then offerText
        else if sdp = "v=0" ∧ type = "answer" then answerText
        else []
    | _ => []
  realToString _ := []

theorem callJson_readsBack : ReadsBack callJson where
  description type sdp root h := by
    by_cases hsdp : sdp = "v=0"
    · subst hsdp
      cases type <;> cases h <;> rfl
    · have hunwritten : callJson.write (descriptionJson type sdp) = [] := by
        simp [callJson, descriptionJson, hsdp]
      rw [hunwritten] at h
      cases h
  candidate _ _ root h := by cases h
  bye root h := by
    cases h
    rfl

/-- A side joins, is relayed these messages, and registers. -/
def roomJoinLabels (s : Side) (messages : List Text) : List RoomLabel :=
  [.step s (.post 1),
    .join s { isInitiator := s.isInitiator, pcConfigJson := "pc_config", messages := messages }]
    ++ [.event (.signaling .webSocketOpen), .run .none, .post 1,
      .run (.status okStatus)].map (.step s)

/-- The outstanding stage of a negotiation step completes. -/
def stageLabels (s : Side) (reply : Reply) : List RoomLabel :=
  [.step s (.post 2), .step s (.run reply)]

/-- The initiator is there first; the other side finds the offer when it joins. -/
def callLabels : List RoomLabel :=
  roomJoinLabels .initiator [] ++ stageLabels .initiator (.description (.ok (some "v=0")))
    ++ stageLabels .initiator (.status okStatus) ++ stageLabels .initiator (.status okStatus)
    ++ roomJoinLabels .joiner [offerText] ++ stageLabels .joiner (.status okStatus)
    ++ stageLabels .joiner (.description (.ok (some "v=0")))
    ++ stageLabels .joiner (.status okStatus) ++ stageLabels .joiner (.status okStatus)
    ++ [.relay .initiator answerFrame, .step .initiator (.run .none)]
    ++ stageLabels .initiator (.status okStatus)

def callEnv (_ : Side) : Env := { Env.smooth [] with json := callJson }

def afterCall : Room := (exec (roomStep callEnv) Room.start callLabels).getD Room.start

/-- Both scripts are played to their end. -/
theorem negotiation_legal_call :
    beats (afterCall.world .initiator).trace = initiatorScript
      ∧ beats (afterCall.world .joiner).trace = joinerScript
      ∧ (sentDescriptions (afterCall.world .initiator).trace).length ≤ 1
      ∧ ∃ sdp, answerText = callJson.write (descriptionJson .answer sdp) := by
  have hcall : exec (roomStep callEnv) Room.start callLabels = some afterCall := rfl
  have hlegal := negotiation_legal (fun _ => rfl) callJson_readsBack (Reachable.of_exec hcall)
  have hsent : sentDescriptions (afterCall.world .joiner).trace = [answerText] := by decide
  refine ⟨by decide, by decide, (hlegal .initiator).2.2.1, ?_⟩
  exact (hlegal .joiner).2.2.2 answerText (by rw [hsent]; exact List.mem_singleton_self _)

end ApprtcCli.Proof
