import Mathlib.Data.List.Sort

/-!
# Stable sorting by a small key

A stable sort keeps each key class as it came, and a sorted list has its classes
one after the other. With keys below a bound that determines the result: it is the
classes of the input, in key order.
-/

namespace ApprtcCli.Lib

variable {α : Type} (key : α → Nat)

/-- The elements with one key, as they came. -/
def keyClass (n : Nat) (l : List α) : List α := l.filter fun a => key a = n

/-- Sort by the key, keeping the order of equal keys. -/
def sortByKey (l : List α) : List α := l.insertionSort fun a b => key a ≤ key b

variable {key}

theorem sortByKey_sorted (l : List α) : (sortByKey key l).Pairwise fun a b => key a ≤ key b := by
  have htotal : Std.Total fun a b : α => key a ≤ key b := ⟨fun a b => Nat.le_total _ _⟩
  have htrans : IsTrans α fun a b => key a ≤ key b := ⟨fun _ _ _ => Nat.le_trans⟩
  exact List.pairwise_insertionSort _ l

/-- **Stability**: sorting leaves every key class as it was. -/
theorem keyClass_sortByKey (n : Nat) (l : List α) :
    keyClass key n (sortByKey key l) = keyClass key n l := by
  have hsame : (keyClass key n l).Pairwise fun a b => key a ≤ key b := by
    refine List.pairwise_of_forall_mem_list fun a ha b hb => ?_
    have hka : key a = n := by simpa using (List.mem_filter.mp ha).2
    have hkb : key b = n := by simpa using (List.mem_filter.mp hb).2
    omega
  have hsub : (keyClass key n l).Sublist (sortByKey key l) :=
    List.sublist_insertionSort hsame List.filter_sublist
  have hclass : (keyClass key n l).Sublist (keyClass key n (sortByKey key l)) := by
    have hf := hsub.filter fun a => key a = n
    rw [keyClass, List.filter_filter] at hf
    simp only [Bool.and_self] at hf
    exact hf
  have hlen : (keyClass key n (sortByKey key l)).length = (keyClass key n l).length :=
    ((List.perm_insertionSort _ l).filter _).length_eq
  exact (hclass.eq_of_length hlen.symm).symm

/-- A sorted list starts with its least class. -/
theorem sorted_split {n : Nat} {l : List α} (h : l.Pairwise fun a b => key a ≤ key b)
    (hn : ∀ a ∈ l, n ≤ key a) :
    l = keyClass key n l ++ l.filter fun a => n + 1 ≤ key a := by
  induction l with
  | nil => rfl
  | cons a l ih =>
      obtain ⟨hhead, htail⟩ := List.pairwise_cons.mp h
      have ha : n ≤ key a := hn a (List.mem_cons_self ..)
      have ih := ih htail fun b hb => hn b (List.mem_cons_of_mem _ hb)
      by_cases hk : key a = n
      · have hlow : ¬ n + 1 ≤ key a := by omega
        rw [keyClass, List.filter_cons_of_pos (by simpa using hk),
          List.filter_cons_of_neg (by simpa using hlow), List.cons_append]
        exact congrArg (a :: ·) ih
      · -- then the class is empty
        have hup : n + 1 ≤ key a := by omega
        have hall : ∀ b ∈ a :: l, n + 1 ≤ key b := by
          intro b hb
          rcases List.mem_cons.mp hb with rfl | hb
          · exact hup
          · exact Nat.le_trans hup (hhead b hb)
        have hempty : keyClass key n (a :: l) = [] := by
          refine List.filter_eq_nil_iff.mpr fun b hb => ?_
          have hb := hall b hb
          simp only [decide_eq_true_eq]
          omega
        have hrest : (a :: l).filter (fun b => n + 1 ≤ key b) = a :: l :=
          List.filter_eq_self.mpr fun b hb => by simpa using hall b hb
        rw [hempty, hrest, List.nil_append]

/-- A sorted list is its classes, one after the other. -/
theorem sorted_eq_classes {l : List α} (h : l.Pairwise fun a b => key a ≤ key b) :
    ∀ (count n : Nat), (∀ a ∈ l, n ≤ key a ∧ key a < n + count) →
      l = (List.range' n count).flatMap fun i => keyClass key i l := by
  intro count
  induction count generalizing l with
  | zero =>
      intro n hn
      cases l with
      | nil => rfl
      | cons a l => have ha := hn a (List.mem_cons_self ..); omega
  | succ count ih =>
      intro n hn
      have hrest : ∀ a ∈ l.filter (fun a => n + 1 ≤ key a),
          n + 1 ≤ key a ∧ key a < n + 1 + count := by
        intro a ha
        obtain ⟨hmem, hup⟩ := List.mem_filter.mp ha
        have hlt := (hn a hmem).2
        have hup : n + 1 ≤ key a := by simpa using hup
        omega
      have htail := ih (h.filter _) (n + 1) hrest
      have hclass : ∀ i ∈ List.range' (n + 1) count,
          keyClass key i (l.filter fun a => n + 1 ≤ key a) = keyClass key i l := by
        intro i hi
        have hlow : n + 1 ≤ i := (List.mem_range'_1.mp hi).1
        rw [keyClass, List.filter_filter]
        refine List.filter_congr fun a _ => ?_
        by_cases hk : key a = i
        · simp [hk, hlow]
        · simp [hk]
      rw [List.range'_succ, List.flatMap_cons, ← List.flatMap_congr hclass, ← htail]
      exact sorted_split h fun a ha => (hn a ha).1

/-- **A stable sort by a key below a bound.** -/
theorem sortByKey_eq {count : Nat} {l : List α} (h : ∀ a ∈ l, key a < count) :
    sortByKey key l = (List.range' 0 count).flatMap fun i => keyClass key i l := by
  have hbound : ∀ a ∈ sortByKey key l, 0 ≤ key a ∧ key a < 0 + count := by
    intro a ha
    have hmem : a ∈ l := (List.mem_insertionSort _).mp ha
    have hlt := h a hmem
    omega
  have hclasses := sorted_eq_classes (sortByKey_sorted l) count 0 hbound
  simpa only [keyClass_sortByKey] using hclasses

end ApprtcCli.Lib
