import Mathlib.Algebra.Group.ModEq
import Mathlib.Algebra.Order.Group.Defs
import Mathlib.Algebra.Order.Monoid.Unbundled.Pow
import Mathlib.Algebra.Ring.Periodic
import Mathlib.Logic.Function.Iterate
import Mathlib.Order.Interval.Set.Basic
import Mathlib.Tactic.Abel

/-!
# Phase accumulators

An accumulator that adds an increment at each tick and, where the sum is over a
modulus, takes the modulus off. It does so at most once a tick, so it reduces the
sum modulo the modulus only while the increment is no larger than that.

Whatever the increment, the accumulator is right up to whole turns
(`iterate_modEq`). How long it stays within one turn is `iterate_mem_iff`: for
`N` ticks exactly where `N` times the excess of the increment fits into a turn.
-/

namespace ApprtcCli.Lib

variable {G : Type*} [AddCommGroup G] [LinearOrder G]

/-- Add `d`, and take `m` off once where the sum is over it. -/
def advance (m d x : G) : G := if x + d > m then x + d - m else x + d

/-! ## Up to whole turns -/

theorem advance_modEq (m d x : G) : advance m d x ≡ x + d [PMOD m] := by
  unfold advance
  split
  · exact AddCommGroup.modEq_iff_zsmul.mpr ⟨1, by abel⟩
  · exact AddCommGroup.modEq_rfl

/-- After `n` ticks the accumulator is `n` increments further, up to whole turns. -/
theorem iterate_modEq (m d x : G) (n : ℕ) : (advance m d)^[n] x ≡ x + n • d [PMOD m] := by
  induction n with
  | zero => rw [Function.iterate_zero_apply, zero_nsmul, add_zero]
  | succ n ih =>
      rw [Function.iterate_succ_apply', succ_nsmul, ← add_assoc]
      exact (advance_modEq m d _).trans (ih.add_right d)

/-- What has the modulus for a period does not see it taken off. -/
theorem periodic_iterate {β : Type*} {f : G → β} {m : G} (hf : Function.Periodic f m) (d x : G)
    (n : ℕ) : f ((advance m d)^[n] x) = f (x + n • d) := by
  obtain ⟨z, hz⟩ := AddCommGroup.modEq_iff_zsmul.mp (iterate_modEq m d x n)
  have heq : (advance m d)^[n] x = x + n • d - z • m := by rw [hz, sub_sub_cancel]
  rw [heq, hf.sub_zsmul_eq]

/-! ## Within one turn -/

variable [IsOrderedAddMonoid G] {m d x : G}

/-- An increment of at most a turn keeps the accumulator within one. -/
theorem advance_mem (hd : 0 ≤ d) (hdm : d ≤ m) (hx : x ∈ Set.Icc 0 m) :
    advance m d x ∈ Set.Icc 0 m := by
  unfold advance
  split
  · rename_i hover
    refine ⟨sub_nonneg.mpr (le_of_lt hover), ?_⟩
    rw [sub_le_iff_le_add]
    exact add_le_add hx.2 hdm
  · rename_i hover
    exact ⟨add_nonneg hx.1 hd, not_lt.mp hover⟩

theorem iterate_mem (hd : 0 ≤ d) (hdm : d ≤ m) (hx : x ∈ Set.Icc 0 m) (n : ℕ) :
    (advance m d)^[n] x ∈ Set.Icc 0 m := by
  induction n with
  | zero => exact hx
  | succ n ih =>
      rw [Function.iterate_succ_apply']
      exact advance_mem hd hdm ih

/-- An increment of more than a turn leaves its excess behind at every tick. -/
theorem iterate_overrun (hmd : m < d) (hx : 0 ≤ x) (n : ℕ) :
    (advance m d)^[n] x = x + n • (d - m) := by
  induction n with
  | zero => rw [Function.iterate_zero_apply, zero_nsmul, add_zero]
  | succ n ih =>
      have hpos : 0 ≤ x + n • (d - m) :=
        add_nonneg hx (nsmul_nonneg (sub_nonneg.mpr (le_of_lt hmd)) n)
      have hover : x + n • (d - m) + d > m := lt_of_lt_of_le hmd (le_add_of_nonneg_left hpos)
      rw [Function.iterate_succ_apply', ih, advance, if_pos hover, succ_nsmul, ← add_assoc,
        add_sub_assoc]

/--
**How long one turn is enough.** Started at zero, the accumulator stays within a turn for `N`
ticks exactly where `N` times the excess of the increment does.
-/
theorem iterate_mem_iff (hm : 0 ≤ m) (hd : 0 ≤ d) (N : ℕ) :
    (∀ n ≤ N, (advance m d)^[n] 0 ∈ Set.Icc 0 m) ↔ N • (d - m) ≤ m := by
  rcases le_or_gt d m with hdm | hmd
  · have hexcess : N • (d - m) ≤ 0 := nsmul_nonpos (sub_nonpos.mpr hdm) N
    exact iff_of_true (fun n _ => iterate_mem hd hdm ⟨le_rfl, hm⟩ n) (hexcess.trans hm)
  · have hexcess : 0 ≤ d - m := sub_nonneg.mpr (le_of_lt hmd)
    constructor
    · intro h
      have hlast := (h N le_rfl).2
      rwa [iterate_overrun hmd le_rfl, zero_add] at hlast
    · intro h n hn
      rw [iterate_overrun hmd le_rfl, zero_add]
      exact ⟨nsmul_nonneg hexcess n, (nsmul_le_nsmul_left hexcess hn).trans h⟩

end ApprtcCli.Lib
