import Mathlib.Data.List.FinRange

/-!
# Filling a grid row by row

A grid of `rows` by `cols` cells kept in one vector, row after row, and a record of
the cells that were written, oldest first. A write is at a cell of the grid, so
there is none out of bounds.

`loop_invariant` is the rule for a counted loop: what holds at the start and is
kept by every round holds at the end. `Filled` is its use for the loop that fills
one row a round: the cells of the rows gone through were written once each, in
order, whatever the vector held before.
-/

namespace ApprtcCli.Lib

/-- **The rule for counted loops**, with an invariant that knows how many rounds were gone. -/
theorem loop_invariant {β : Type*} {P : ℕ → β → Prop} {n : ℕ} {f : β → Fin n → β} {b : β}
    (h0 : P 0 b) (hstep : ∀ (i : Fin n) (b : β), P i b → P (i + 1) (f b i)) :
    P n (Fin.foldl n f b) := by
  induction n with
  | zero => exact h0
  | succ n ih =>
      rw [Fin.foldl_succ_last]
      exact hstep (Fin.last n) _ (ih fun i b => hstep i.castSucc b)

/-- A vector of `rows * cols` cells, and which of them were written. -/
structure Grid (α : Type) (rows cols : ℕ) where
  cells : Vector α (rows * cols)
  written : List ℕ := []

namespace Grid

variable {α : Type} {rows cols : ℕ}

/-- Where the cell of a row and a column is. -/
def slot (i : Fin rows) (j : Fin cols) : Fin (rows * cols) :=
  ⟨i * cols + j, calc
    i * cols + j < i * cols + cols := Nat.add_lt_add_left j.isLt _
    _ = (i + 1) * cols := (Nat.succ_mul i cols).symm
    _ ≤ rows * cols := Nat.mul_le_mul_right cols i.isLt⟩

/-- The row can be read off a slot. -/
theorem slot_div (i : Fin rows) (j : Fin cols) : (slot i j).val / cols = i := by
  have hpos : 0 < cols := Nat.zero_lt_of_lt j.isLt
  show (i * cols + j) / cols = i.val
  rw [Nat.mul_comm, Nat.mul_add_div hpos, Nat.div_eq_of_lt j.isLt, Nat.add_zero]

theorem slot_inj {i k : Fin rows} {j l : Fin cols} :
    (slot i j).val = (slot k l).val ↔ i = k ∧ j = l := by
  constructor
  · intro h
    have hrow : i = k := Fin.ext (by rw [← slot_div i j, h, slot_div])
    subst hrow
    exact ⟨rfl, Fin.ext (Nat.add_left_cancel h)⟩
  · intro h
    rw [h.1, h.2]

/-- Write one cell. -/
def put (g : Grid α rows cols) (cell : Fin (rows * cols)) (x : α) : Grid α rows cols where
  cells := g.cells.set cell x
  written := g.written ++ [cell.val]

/-- The cell of a row and a column. -/
def read (g : Grid α rows cols) (i : Fin rows) (j : Fin cols) : α := g.cells[slot i j]

/-- The cells of a column, from the first row on. -/
def column (g : Grid α rows cols) (j : Fin cols) : List α :=
  (List.finRange rows).map fun i => g.read i j

theorem read_put (g : Grid α rows cols) (i k : Fin rows) (j l : Fin cols) (x : α) :
    (g.put (slot i j) x).read k l = if i = k ∧ j = l then x else g.read k l := by
  simp only [read, put, Fin.getElem_fin, Vector.getElem_set, slot_inj]

/-! ## Rows -/

/-- Write `x` to every cell of a row, from left to right. -/
def putRow (g : Grid α rows cols) (i : Fin rows) (x : α) : Grid α rows cols :=
  Fin.foldl cols (fun g j => g.put (slot i j) x) g

/-- What the loop over a row has done after `n` rounds. -/
theorem putRow_spec (g : Grid α rows cols) (i : Fin rows) (x : α) :
    (g.putRow i x).written = g.written ++ (List.range cols).map (i * cols + ·)
      ∧ ∀ k l, (g.putRow i x).read k l = if i = k then x else g.read k l := by
  have hloop := loop_invariant (n := cols) (f := fun (g : Grid α rows cols) j => g.put (slot i j) x)
    (P := fun n g' => g'.written = g.written ++ (List.range n).map (i * cols + ·)
      ∧ ∀ k (l : Fin cols), g'.read k l = if i = k ∧ l < n then x else g.read k l) (b := g)
    ⟨by simp, fun k l => by simp⟩ ?_
  · refine ⟨hloop.1, fun k l => ?_⟩
    rw [putRow, hloop.2 k l]
    simp [l.isLt]
  · intro j g' ⟨hwritten, hread⟩
    refine ⟨?_, fun k l => ?_⟩
    · rw [put, hwritten, List.range_succ, List.map_append, List.append_assoc]
      rfl
    · rw [read_put, hread]
      by_cases hk : i = k
      · by_cases hl : j = l
        · simp [hk, hl]
        · have hlt : l.val < j ↔ l.val < j + 1 := by
            have hne : j.val ≠ l := fun h => hl (Fin.ext h)
            omega
          simp [hk, hl, hlt]
      · simp [hk]

/-- The first `n` rows were written once each, in order, row `i` with `f i` throughout. -/
structure Filled (f : ℕ → α) (n : ℕ) (g : Grid α rows cols) : Prop where
  written : g.written = List.range (n * cols)
  read : ∀ i : Fin rows, i.val < n → ∀ j, g.read i j = f i

/-- A column of a grid that was filled to the last row. -/
theorem Filled.column {f : ℕ → α} {g : Grid α rows cols} (h : Filled f rows g) (j : Fin cols) :
    g.column j = (List.range rows).map f := by
  rw [Grid.column, List.map_congr_left (fun i _ => h.read i i.isLt j),
    ← List.map_coe_finRange_eq_range, List.map_map]
  rfl

/-- Nothing was written yet. -/
theorem Filled.none {f : ℕ → α} (cells : Vector α (rows * cols)) :
    Filled f 0 { cells := cells } where
  written := by rw [Nat.zero_mul, List.range_zero]
  read i hi := absurd hi (Nat.not_lt_zero _)

/-- One row more. -/
theorem Filled.putRow {f : ℕ → α} {i : Fin rows} {g : Grid α rows cols} (h : Filled f i g) :
    Filled f (i + 1) (g.putRow i (f i)) where
  written := by
    rw [(g.putRow_spec i (f i)).1, h.written, Nat.succ_mul, List.range_add]
  read k hk j := by
    rw [(g.putRow_spec i (f i)).2 k j]
    by_cases hik : i = k
    · rw [if_pos hik, hik]
    · have hlt : k.val < i := by
        have hne : i.val ≠ k := fun h => hik (Fin.ext h)
        omega
      rw [if_neg hik, h.read k hlt j]

end Grid

end ApprtcCli.Lib
