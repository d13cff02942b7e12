import Mathlib.Data.List.Basic

/-!
# Decoders that hold frames back

A decoder takes packets one at a time and gives frames when it is ready to: some
packets yield none, some yield several, and at the end of a stream it may still
hold frames that only a drain gets out of it. An item it yields is a frame, or
`none` where decoding failed.

`feed` is what a stream of packets yields without a drain, and `Decodes` what it
yields with one, which is what the stream means.
-/

namespace ApprtcCli.Lib

/-- `π` is a packet, `φ` a frame and `σ` what the decoder remembers. -/
structure Decoder (π φ σ : Type) where
  /-- What a flush leaves. -/
  fresh : σ
  /-- Take a packet, or refuse it. -/
  send : σ → π → Option (σ × List (Option φ))
  /-- The frames still held, which a drain packet releases. -/
  held : σ → List φ

namespace Decoder

variable {π φ σ : Type} (D : Decoder π φ σ)

/-- Take packets from a state; `none` where one is refused or fails to decode. -/
def feed : σ → List π → Option (σ × List φ)
  | s, [] => some (s, [])
  | s, p :: rest => do
      let (s, items) ← D.send s p
      let frames ← items.mapM id
      let (s, more) ← feed s rest
      some (s, frames ++ more)

/-- A stream of packets means these frames. -/
def Decodes (packets : List π) (frames : List φ) : Prop :=
  ∃ s out, D.feed D.fresh packets = some (s, out) ∧ frames = out ++ D.held s

/-- Once it has taken these packets, the decoder holds nothing back. -/
def HoldsNothing (packets : List π) : Prop :=
  ∀ s out, D.feed D.fresh packets = some (s, out) → D.held s = []

/-- Items that are all frames. -/
theorem mapM_id_map_some (frames : List φ) : (frames.map some).mapM id = some frames := by
  induction frames with
  | nil => rfl
  | cons f frames ih =>
      rw [List.map_cons, List.mapM_cons, ih]
      rfl

/-- One packet more. -/
theorem feed_concat {s s₁ s₂ : σ} {packets : List π} {out frames : List φ} {p : π}
    (h : D.feed s packets = some (s₁, out)) (hp : D.send s₁ p = some (s₂, frames.map some)) :
    D.feed s (packets ++ [p]) = some (s₂, out ++ frames) := by
  induction packets generalizing s out with
  | nil =>
      injection h with h
      injection h with h1 h2
      subst h1; subst h2
      simp only [List.nil_append, feed, hp, Option.bind_eq_bind, Option.bind_some,
        mapM_id_map_some, List.append_nil]
  | cons q packets ih =>
      rw [feed] at h
      obtain ⟨⟨s', items⟩, hsend, h⟩ := Option.bind_eq_some_iff.mp h
      obtain ⟨front, hfront, h⟩ := Option.bind_eq_some_iff.mp h
      obtain ⟨⟨s'', more⟩, hmore, h⟩ := Option.bind_eq_some_iff.mp h
      injection h with h
      injection h with h1 h2
      subst h1; subst h2
      rw [List.cons_append, feed, hsend]
      simp only [Option.bind_eq_bind, Option.bind_some, hfront, ih hmore, List.append_assoc]

/-- What was fed means what came out of it exactly where nothing is held back. -/
theorem decodes_iff {packets : List π} {s : σ} {out : List φ}
    (h : D.feed D.fresh packets = some (s, out)) :
    D.Decodes packets out ↔ D.HoldsNothing packets := by
  constructor
  · intro hd s' out' h'
    obtain ⟨s'', out'', h'', heq⟩ := hd
    rw [h] at h' h''
    injection h' with h'
    injection h' with h1 h2
    injection h'' with h''
    injection h'' with h3 h4
    subst h1; subst h3; subst h4
    have hlen := congrArg List.length heq
    rw [List.length_append] at hlen
    exact List.length_eq_zero_iff.mp (by omega)
  · intro hn
    exact ⟨s, out, h, by rw [hn s out h, List.append_nil]⟩

end Decoder

end ApprtcCli.Lib
