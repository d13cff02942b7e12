import ApprtcCli.Proof.Beats
import Mathlib.Tactic.IntervalCases

/-!
# Two scripts

The beats a client plays in a call that goes as it should: the initiator's, which makes
the offer and is sent the answer, and the joiner's, which is sent the offer and makes
the answer. A client that is sent no more than that, and not too early, keeps to its
script, however far it gets. Both scripts are legal: each description is set in a
signaling state that allows it.
-/

namespace ApprtcCli.Proof

open Lib Call

def initiatorScript : List Beat :=
  [.create .offer, .setLocal .offer, .localApplied .offer, .sent, .setRemote .answer,
    .remoteApplied .answer]

def joinerScript : List Beat :=
  [.setRemote .offer, .remoteApplied .offer, .create .answer, .setLocal .answer,
    .localApplied .answer, .sent]

/-- The beat that has to come after one, within a step. -/
def successor : Beat → Option Beat
  | .create type => some (.setLocal type)
  | .setLocal type => some (.localApplied type)
  | .localApplied _ => some .sent
  | .setRemote type => some (.remoteApplied type)
  | .remoteApplied .offer => some (.create .answer)
  | _ => none

theorem not_rest_of_successor {last next : Beat} (h : successor last = some next) :
    isRest (some last) = false := by
  cases last with
  | remoteApplied type => cases type <;> first | rfl | cases h
  | sent => cases h
  | _ => rfl

theorem Follows.eq_successor {last b next : Beat} (h : Follows (some last) b)
    (hn : successor last = some next) : b = next := by
  have hrest := not_rest_of_successor hn
  cases b with
  | create type =>
      rcases h with ⟨_, hr⟩ | ⟨rfl, hlast⟩
      · rw [hrest] at hr
        cases hr
      · cases hlast
        injection hn
  | setRemote type =>
      obtain ⟨_, hr⟩ := h
      rw [hrest] at hr
      cases hr
  | sent =>
      obtain ⟨type, hlast⟩ := h
      cases hlast
      injection hn
  | _ =>
      cases h
      injection hn

/-- What begins a step. -/
theorem Follows.of_rest {last : Option Beat} {b : Beat} (h : Follows last b)
    (hrest : isRest last = true) :
    b = .create .offer ∨ b = .setRemote .offer ∨ b = .setRemote .answer := by
  cases b with
  | create type =>
      rcases h with ⟨rfl, _⟩ | ⟨_, rfl⟩
      · exact Or.inl rfl
      · cases hrest
  | setRemote type =>
      obtain ⟨rfl | rfl, _⟩ := h
      · exact Or.inr (Or.inl rfl)
      · exact Or.inr (Or.inr rfl)
  | sent =>
      obtain ⟨type, rfl⟩ := h
      cases hrest
  | _ =>
      cases h
      cases hrest

/-- **The initiator keeps to its script**, if it is sent no offer and one answer, and that late. -/
theorem initiator_script {l : List Beat} (h : InTime l) (hoffer : l.count (.setRemote .offer) = 0)
    (hmade : l.count (.create .offer) ≤ 1) (hanswer : l.count (.setRemote .answer) ≤ 1)
    (hlate : Trail (fun pre b => b = .setRemote .answer → .sent ∈ pre) l) :
    l <+: initiatorScript := by
  induction l using List.reverseRecOn with
  | nil => exact List.nil_prefix
  | append_singleton l b ih =>
      obtain ⟨hl, hb⟩ := trail_concat.mp h
      obtain ⟨hlatel, hlateb⟩ := trail_concat.mp hlate
      rw [List.count_append] at hoffer hmade hanswer
      have ih := ih hl (by omega) (by omega) (by omega) hlatel
      obtain ⟨n, hn, rfl⟩ : ∃ n ≤ 6, l = initiatorScript.take n :=
        ⟨l.length, ih.length_le, List.prefix_iff_eq_take.mp ih⟩
      clear h hlate hl hlatel ih
      interval_cases n
      · rcases Follows.of_rest hb rfl with rfl | rfl | rfl
        · decide
        · cases hoffer
        · cases hlateb rfl
      · rw [Follows.eq_successor hb rfl]
        decide
      · rw [Follows.eq_successor hb rfl]
        decide
      · rw [Follows.eq_successor hb rfl]
        decide
      · rcases Follows.of_rest hb rfl with rfl | rfl | rfl
        · exact absurd hmade (by decide)
        · cases hoffer
        · decide
      · rw [Follows.eq_successor hb rfl]
        decide
      · rcases Follows.of_rest hb rfl with rfl | rfl | rfl
        · exact absurd hmade (by decide)
        · cases hoffer
        · exact absurd hanswer (by decide)

/-- **The other side keeps to its own**, if it makes no offer and is sent one and no answer. -/
theorem joiner_script {l : List Beat} (h : InTime l) (hmade : l.count (.create .offer) = 0)
    (hanswer : l.count (.setRemote .answer) = 0) (hoffer : l.count (.setRemote .offer) ≤ 1) :
    l <+: joinerScript := by
  induction l using List.reverseRecOn with
  | nil => exact List.nil_prefix
  | append_singleton l b ih =>
      obtain ⟨hl, hb⟩ := trail_concat.mp h
      rw [List.count_append] at hoffer hmade hanswer
      have ih := ih hl (by omega) (by omega) (by omega)
      obtain ⟨n, hn, rfl⟩ : ∃ n ≤ 6, l = joinerScript.take n :=
        ⟨l.length, ih.length_le, List.prefix_iff_eq_take.mp ih⟩
      clear h hl ih
      interval_cases n
      · rcases Follows.of_rest hb rfl with rfl | rfl | rfl
        · cases hmade
        · decide
        · cases hanswer
      · rw [Follows.eq_successor hb rfl]
        decide
      · rw [Follows.eq_successor hb rfl]
        decide
      · rw [Follows.eq_successor hb rfl]
        decide
      · rw [Follows.eq_successor hb rfl]
        decide
      · rw [Follows.eq_successor hb rfl]
        decide
      · rcases Follows.of_rest hb rfl with rfl | rfl | rfl
        · cases hmade
        · exact absurd hoffer (by decide)
        · cases hanswer

/-! ## Signaling states -/

/--
`webrtc::PeerConnectionInterface::SignalingState`, where neither side sends a
provisional answer.
-/
inductive SignalingState where
  | stable
  | haveLocalOffer
  | haveRemoteOffer
  deriving DecidableEq, Repr

def SignalingState.next (state : SignalingState) : Beat → SignalingState
  | .localApplied .offer => .haveLocalOffer
  | .remoteApplied .offer => .haveRemoteOffer
  | .localApplied .answer => .stable
  | .remoteApplied .answer => .stable
  | _ => state

/-- The signaling state the descriptions applied so far have led to. -/
def signalingState (l : List Beat) : SignalingState := l.foldl SignalingState.next .stable

def Beat.sets : Beat → Bool
  | .setLocal _ => true
  | .setRemote _ => true
  | _ => false

def Beat.applies : Beat → Bool
  | .localApplied _ => true
  | .remoteApplied _ => true
  | _ => false

/-- Every description handed to the connection has been applied. -/
def AllApplied (l : List Beat) : Prop := l.countP Beat.sets = l.countP Beat.applies

/-- Setting this description is legal in the state the connection is in. -/
def Legal (pre : List Beat) : Beat → Prop
  | .setLocal type => AllApplied pre
      ∧ ((type = .offer ∧ signalingState pre = .stable)
        ∨ (type = .answer ∧ signalingState pre = .haveRemoteOffer))
  | .setRemote type => AllApplied pre
      ∧ ((type = .offer ∧ signalingState pre = .stable)
        ∨ (type = .answer ∧ signalingState pre = .haveLocalOffer))
  | _ => True

instance (l : List Beat) : Decidable (AllApplied l) := inferInstanceAs (Decidable (_ = _))

instance (pre : List Beat) : (b : Beat) → Decidable (Legal pre b)
  | .setLocal _ => inferInstanceAs (Decidable (_ ∧ _))
  | .setRemote _ => inferInstanceAs (Decidable (_ ∧ _))
  | .create _ => isTrue trivial
  | .localApplied _ => isTrue trivial
  | .sent => isTrue trivial
  | .remoteApplied _ => isTrue trivial

theorem initiatorScript_legal : Trail Legal initiatorScript := trail_of_take (by decide)

theorem joinerScript_legal : Trail Legal joinerScript := trail_of_take (by decide)

end ApprtcCli.Proof
