import ApprtcCli.Lib.Run
import Mathlib.Logic.Relation

/-!
# Steps made of moves

One step of a system can run a great deal of code, and an invariant of the system
is broken and restored several times on the way. A `PhaseMachine` cuts a step into
moves, each a few assignments under one guard, and says between them what the
running code still has to do: its phase. A step enters the machine from the idle
phase, under its label, and leaves it there.

`Reachable.visited` is the refinement rule: where every step is a path of moves,
every reachable state is one the machine visits at rest. Invariants are then
proved about single moves, with the phase as what the code in between may assume.
-/

namespace ApprtcCli.Lib

variable {φ σ ε : Type}

structure PhaseMachine (φ σ ε : Type) where
  idle : φ
  start : σ
  /-- How a step begins: from a state at rest, by its label, into some phase. -/
  enter : σ → ε → φ → σ → Prop
  move : φ → σ → φ → σ → Prop

namespace PhaseMachine

variable (M : PhaseMachine φ σ ε)

/-- A path of moves. -/
def Moves (p : φ) (s : σ) (p' : φ) (s' : σ) : Prop :=
  Relation.ReflTransGen (fun a b : φ × σ => M.move a.1 a.2 b.1 b.2) (p, s) (p', s')

/-- The phases and states some sequence of steps goes through. -/
inductive Visited : φ → σ → Prop where
  | start : Visited M.idle M.start
  | enter {s : σ} {e : ε} {p : φ} {s' : σ} : Visited M.idle s → M.enter s e p s' → Visited p s'
  | move {p p' : φ} {s s' : σ} : Visited p s → M.move p s p' s' → Visited p' s'

variable {M}

theorem Moves.refl {p : φ} {s : σ} : M.Moves p s p s := Relation.ReflTransGen.refl

theorem Moves.single {p p' : φ} {s s' : σ} (h : M.move p s p' s') : M.Moves p s p' s' :=
  Relation.ReflTransGen.single h

theorem Moves.head {p p₁ p' : φ} {s s₁ s' : σ} (h : M.move p s p₁ s₁)
    (hm : M.Moves p₁ s₁ p' s') : M.Moves p s p' s' :=
  have hhead : (fun a b : φ × σ => M.move a.1 a.2 b.1 b.2) (p, s) (p₁, s₁) := h
  Relation.ReflTransGen.head hhead hm

theorem Moves.trans {p p₁ p' : φ} {s s₁ s' : σ} (h : M.Moves p s p₁ s₁)
    (hm : M.Moves p₁ s₁ p' s') : M.Moves p s p' s' :=
  Relation.ReflTransGen.trans h hm

/-- **The rule for one step**: what every move keeps, a path of moves keeps. -/
theorem Moves.invariant {I : φ → σ → Prop} {p p' : φ} {s s' : σ} (h : M.Moves p s p' s')
    (hmove : ∀ p s p' s', I p s → M.move p s p' s' → I p' s') (hi : I p s) : I p' s' := by
  unfold Moves at h
  generalize hc : (p', s') = c at h
  induction h generalizing p' s' with
  | refl =>
      injection hc with h1 h2
      subst h1; subst h2
      exact hi
  | @tail b c _ hm ih =>
      subst hc
      exact hmove b.1 b.2 p' s' (ih rfl) hm

theorem Visited.moves {p p' : φ} {s s' : σ} (h : M.Visited p s) (hm : M.Moves p s p' s') :
    M.Visited p' s' :=
  hm.invariant (fun _ _ _ _ hv hm => hv.move hm) h

/-- **The invariant rule**, over everything the machine visits. -/
theorem Visited.invariant {I : φ → σ → Prop} (h0 : I M.idle M.start)
    (henter : ∀ s e p s', M.Visited M.idle s → I M.idle s → M.enter s e p s' → I p s')
    (hmove : ∀ p s p' s', M.Visited p s → I p s → M.move p s p' s' → I p' s')
    {p : φ} {s : σ} (h : M.Visited p s) : I p s := by
  induction h with
  | start => exact h0
  | enter hv he ih => exact henter _ _ _ _ hv ih he
  | move hv hm ih => exact hmove _ _ _ _ hv ih hm

/-- The machine entered only as `allow` says. -/
def restrict (M : PhaseMachine φ σ ε) (allow : σ → ε → Bool) : PhaseMachine φ σ ε where
  idle := M.idle
  start := M.start
  enter s e p s' := M.enter s e p s' ∧ allow s e = true
  move := M.move

theorem Visited.of_restrict {allow : σ → ε → Bool} {p : φ} {s : σ}
    (h : (M.restrict allow).Visited p s) : M.Visited p s := by
  induction h with
  | start => exact Visited.start
  | enter _ he hv => exact hv.enter he.1
  | move _ hm hv => exact hv.move hm

/-- A step of a system, cut into moves. -/
def Cuts (M : PhaseMachine φ σ ε) (s : σ) (e : ε) (s' : σ) : Prop :=
  ∃ p s₁, M.enter s e p s₁ ∧ M.Moves p s₁ M.idle s'

end PhaseMachine

open PhaseMachine

/-- **Refinement**: a system whose steps the machine can cut stays among the machine's states. -/
theorem Reachable.visited {M : PhaseMachine φ σ ε} {step : σ → ε → Option σ}
    (hcut : ∀ s e s', M.Visited M.idle s → step s e = some s' → M.Cuts s e s')
    {s : σ} (h : Reachable step M.start s) : M.Visited M.idle s := by
  refine h.invariant (I := M.Visited M.idle) Visited.start ?_
  intro s e s' _ hv hs
  obtain ⟨p, s₁, he, hm⟩ := hcut s e s' hv hs
  exact (hv.enter he).moves hm

/-- The same, for a system and a machine with fewer labels. -/
theorem Reachable.visited_restrict {M : PhaseMachine φ σ ε} {step : σ → ε → Option σ}
    {allow : σ → ε → Bool}
    (hcut : ∀ s e s', M.Visited M.idle s → step s e = some s' → M.Cuts s e s')
    {s : σ} (h : Reachable (Lib.restrict step allow) M.start s) :
    (M.restrict allow).Visited M.idle s := by
  have hM : Reachable (Lib.restrict step allow) (M.restrict allow).start s := h
  refine Reachable.visited (fun s e s' hv hs => ?_) hM
  obtain ⟨hallow, hs⟩ := restrict_eq_some.mp hs
  obtain ⟨p, s₁, he, hm⟩ := hcut s e s' hv.of_restrict hs
  exact ⟨p, s₁, ⟨he, hallow⟩, hm⟩

end ApprtcCli.Lib
