import ApprtcCli.Lib.Trail
import Mathlib.Logic.Function.Basic

/-!
# Handles that are owned

A component that works with handles of a library keeps each in a variable, uses it through
that variable, and has to give it back once. `κ` names the variables. The ledger is what
the library sees of it.

Whether operations are in order depends on nothing but which variables hold a handle
(`permitted`), and that can be computed. `Holding.run` carries it over to the ledger: no
handle is used or given back that is not live, and no live handle is forgotten.
-/

namespace ApprtcCli.Lib

variable {κ : Type}

/-- What is done with the handle of a variable. -/
inductive HandleOp (κ : Type) where
  /-- Get a new handle and keep it here. -/
  | acquire (k : κ)
  | use (k : κ)
  /-- Give the handle back and forget it. -/
  | release (k : κ)

/-- What the library sees; `none` is a null handle. -/
inductive LedgerEntry where
  | acquired (handle : ℕ)
  | used (handle : Option ℕ)
  | released (handle : Option ℕ)
  deriving DecidableEq

/-- The handle was given out, and not given back. -/
def Live (ledger : List LedgerEntry) (handle : ℕ) : Prop :=
  .acquired handle ∈ ledger ∧ .released (some handle) ∉ ledger

/-- What is used or given back is live, and what is given out was not given out before. -/
def LedgerLaw (before : List LedgerEntry) : LedgerEntry → Prop
  | .acquired handle => .acquired handle ∉ before
  | .used handle => ∃ n, handle = some n ∧ Live before n
  | .released handle => ∃ n, handle = some n ∧ Live before n

structure Owner (κ : Type) where
  handle : κ → Option ℕ := fun _ => none
  /-- The handle that is given out next. -/
  next : ℕ := 0
  ledger : List LedgerEntry := []

namespace Owner

/-- Which variables hold a handle. -/
def holds (o : Owner κ) (k : κ) : Bool := (o.handle k).isSome

variable [DecidableEq κ]

def step (o : Owner κ) : HandleOp κ → Owner κ
  | .acquire k =>
      { handle := Function.update o.handle k (some o.next), next := o.next + 1,
        ledger := o.ledger ++ [.acquired o.next] }
  | .use k => { o with ledger := o.ledger ++ [.used (o.handle k)] }
  | .release k =>
      { o with
        handle := Function.update o.handle k none
        ledger := o.ledger ++ [.released (o.handle k)] }

def run (o : Owner κ) (ops : List (HandleOp κ)) : Owner κ := ops.foldl step o

end Owner

/-! ## Which operations are in order -/

namespace HandleOp

/-- Nothing is acquired over a handle, and only a handle is used or released. -/
def permitted (held : κ → Bool) : HandleOp κ → Bool
  | .acquire k => !held k
  | .use k => held k
  | .release k => held k

variable [DecidableEq κ]

def after (held : κ → Bool) : HandleOp κ → κ → Bool
  | .acquire k => Function.update held k true
  | .use _ => held
  | .release k => Function.update held k false

end HandleOp

variable [DecidableEq κ]

/-- Each operation is in order after the ones before it. -/
def permitted (held : κ → Bool) : List (HandleOp κ) → Bool
  | [] => true
  | op :: ops => op.permitted held && permitted (op.after held) ops

def heldAfter (held : κ → Bool) (ops : List (HandleOp κ)) : κ → Bool :=
  ops.foldl HandleOp.after held

/-- The live handles are those that are held, each by one variable. -/
structure Tidy (o : Owner κ) : Prop where
  law : Trail LedgerLaw o.ledger
  live : ∀ n, Live o.ledger n ↔ ∃ k, o.handle k = some n
  distinct : ∀ k k' n, o.handle k = some n → o.handle k' = some n → k = k'
  fresh : ∀ n, .acquired n ∈ o.ledger → n < o.next

omit [DecidableEq κ] in
theorem tidy_empty : Tidy ({} : Owner κ) where
  law := trail_nil _
  live _ := ⟨(fun h => by cases h.1), (fun ⟨_, h⟩ => by cases h)⟩
  distinct _ _ _ h := by cases h
  fresh _ h := by cases h

theorem Owner.step_holds (o : Owner κ) (op : HandleOp κ) :
    (o.step op).holds = op.after o.holds := by
  funext k
  cases op with
  | use _ => rfl
  | acquire k' | release k' =>
      by_cases h : k = k' <;> simp [Owner.step, Owner.holds, HandleOp.after, h]

omit [DecidableEq κ] in
theorem acquired_of_released {ledger : List LedgerEntry} (h : Trail LedgerLaw ledger) {n : ℕ}
    (hr : .released (some n) ∈ ledger) : .acquired n ∈ ledger := by
  obtain ⟨before, after, rfl⟩ := List.append_of_mem hr
  obtain ⟨m, hm, hlive⟩ := h before _ after rfl
  cases hm
  exact List.mem_append_left _ hlive.1

theorem tidy_acquire {o : Owner κ} (h : Tidy o) {k : κ} (hk : o.handle k = none) :
    Tidy (o.step (.acquire k)) := by
  have hnew : .acquired o.next ∉ o.ledger := fun hm => Nat.lt_irrefl _ (h.fresh _ hm)
  have hheld : ∀ {k' n}, Function.update o.handle k (some o.next) k' = some n ↔
      (k' = k ∧ n = o.next) ∨ o.handle k' = some n := by
    intro k' n
    by_cases hkk : k' = k
    · subst hkk
      simp [hk, eq_comm]
    · simp [hkk]
  have hunheld : ∀ k', o.handle k' ≠ some o.next := fun k' hk' =>
    hnew ((h.live _).mpr ⟨k', hk'⟩).1
  refine ⟨trail_concat.mpr ⟨h.law, hnew⟩, fun n => ?_, fun k₁ k₂ n h₁ h₂ => ?_, fun n hn => ?_⟩
  · by_cases hn : n = o.next
    · subst hn
      have hlive : Live (o.ledger ++ [.acquired o.next]) o.next := by
        refine ⟨by simp, fun hr => ?_⟩
        simp only [List.mem_append, List.mem_singleton, reduceCtorEq, or_false] at hr
        exact hnew (acquired_of_released h.law hr)
      exact ⟨fun _ => ⟨k, hheld.mpr (Or.inl ⟨rfl, rfl⟩)⟩, fun _ => hlive⟩
    · have hlive : Live (o.ledger ++ [.acquired o.next]) n ↔ Live o.ledger n := by
        simp [Live, hn]
      rw [Owner.step, hlive, h.live]
      simp only [hheld, hn, and_false, false_or]
  · rcases hheld.mp h₁ with ⟨rfl, rfl⟩ | h₁
    · rcases hheld.mp h₂ with ⟨rfl, _⟩ | h₂
      · rfl
      · exact absurd h₂ (hunheld _)
    · rcases hheld.mp h₂ with ⟨_, rfl⟩ | h₂
      · exact absurd h₁ (hunheld _)
      · exact h.distinct _ _ _ h₁ h₂
  · rcases List.mem_append.mp hn with hn | hn
    · exact Nat.lt_succ_of_lt (h.fresh n hn)
    · cases List.mem_singleton.mp hn
      exact Nat.lt_succ_self _

theorem tidy_use {o : Owner κ} (h : Tidy o) {k : κ} {n : ℕ} (hk : o.handle k = some n) :
    Tidy (o.step (.use k)) := by
  refine ⟨trail_concat.mpr ⟨h.law, n, hk, (h.live n).mpr ⟨k, hk⟩⟩, fun m => ?_, h.distinct,
    fun m hm => h.fresh m (by simpa [Owner.step] using hm)⟩
  have hlive : Live (o.ledger ++ [.used (o.handle k)]) m ↔ Live o.ledger m := by
    simp [Live]
  exact hlive.trans (h.live m)

theorem tidy_release {o : Owner κ} (h : Tidy o) {k : κ} {n : ℕ} (hk : o.handle k = some n) :
    Tidy (o.step (.release k)) := by
  have hheld : ∀ {k' m}, Function.update o.handle k none k' = some m ↔
      k' ≠ k ∧ o.handle k' = some m := by
    intro k' m
    by_cases hkk : k' = k
    · simp [hkk]
    · simp [hkk]
  refine ⟨trail_concat.mpr ⟨h.law, n, hk, (h.live n).mpr ⟨k, hk⟩⟩, fun m => ?_,
    fun k₁ k₂ m h₁ h₂ => h.distinct _ _ m (hheld.mp h₁).2 (hheld.mp h₂).2,
    fun m hm => h.fresh m (by simpa [Owner.step] using hm)⟩
  have hlive : Live (o.ledger ++ [.released (o.handle k)]) m ↔ Live o.ledger m ∧ m ≠ n := by
    simp [Live, hk, and_assoc, eq_comm]
  rw [Owner.step, hlive, h.live]
  simp only [hheld]
  constructor
  · intro hother
    obtain ⟨⟨k', hk'⟩, hne⟩ := hother
    exact ⟨k', fun heq => hne (by rw [heq, hk] at hk'; injection hk' with hk'; exact hk'.symm), hk'⟩
  · intro hkept
    obtain ⟨k', hne, hk'⟩ := hkept
    exact ⟨⟨k', hk'⟩, fun heq => hne (h.distinct _ _ m hk' (heq ▸ hk))⟩

/-- An operation that is in order keeps the ledger and the variables together. -/
theorem Tidy.step {o : Owner κ} (h : Tidy o) {op : HandleOp κ}
    (hop : op.permitted o.holds = true) : Tidy (o.step op) := by
  cases op with
  | acquire k =>
      exact tidy_acquire h (by simpa [HandleOp.permitted, Owner.holds] using hop)
  | use k =>
      obtain ⟨n, hn⟩ := Option.isSome_iff_exists.mp hop
      exact tidy_use h hn
  | release k =>
      obtain ⟨n, hn⟩ := Option.isSome_iff_exists.mp hop
      exact tidy_release h hn

/-- The ledger and the variables are in order, and these variables hold a handle. -/
structure Holding (o : Owner κ) (held : κ → Bool) : Prop where
  tidy : Tidy o
  holds : o.holds = held

/-- **What is in order for the variables is in order for the ledger.** -/
theorem Holding.run {o : Owner κ} {held : κ → Bool} (h : Holding o held)
    (ops : List (HandleOp κ)) (hops : permitted held ops = true) :
    Holding (o.run ops) (heldAfter held ops) := by
  induction ops generalizing o held with
  | nil => exact h
  | cons op ops ih =>
      obtain ⟨htidy, rfl⟩ := h
      obtain ⟨hop, hrest⟩ := Bool.and_eq_true_iff.mp hops
      exact ih ⟨htidy.step hop, o.step_holds op⟩ hrest

/-- To release whatever is held, one variable after the other, is in order. -/
theorem release_held {ks : List κ} (hks : ks.Nodup) (held : κ → Bool) :
    permitted held ((ks.filter held).map .release) = true
      ∧ ∀ k, heldAfter held ((ks.filter held).map .release) k = (held k && !decide (k ∈ ks)) := by
  induction ks generalizing held with
  | nil => simp [permitted, heldAfter]
  | cons k' ks ih =>
      obtain ⟨hnew, hks⟩ := List.nodup_cons.mp hks
      cases hk : held k' with
      | false =>
          obtain ⟨hp, ha⟩ := ih hks held
          rw [List.filter_cons_of_neg (by simp [hk])]
          refine ⟨hp, fun k => ?_⟩
          rw [ha]
          by_cases hkk : k = k'
          · simp [hkk, hk]
          · simp [hkk]
      | true =>
          -- what is held of the others is not touched
          have hsame : ks.filter held = ks.filter (Function.update held k' false) :=
            List.filter_congr fun k hmem => by
              have hne : k ≠ k' := fun heq => hnew (heq ▸ hmem)
              rw [Function.update_of_ne hne]
          obtain ⟨hp, ha⟩ := ih hks (Function.update held k' false)
          rw [List.filter_cons_of_pos (by simpa using hk), hsame]
          refine ⟨Bool.and_eq_true_iff.mpr ⟨hk, hp⟩, fun k => (ha k).trans ?_⟩
          by_cases hkk : k = k'
          · simp [hkk]
          · simp [hkk]

/-- What is held by these variables is given back. -/
theorem Holding.release {o : Owner κ} {held : κ → Bool} (h : Holding o held) (ks : List κ)
    (hks : ks.Nodup) :
    Holding (o.run ((ks.filter o.holds).map .release)) fun k => held k && !decide (k ∈ ks) := by
  obtain ⟨hp, ha⟩ := release_held hks held
  have hrun := h.run _ hp
  rw [funext ha] at hrun
  rw [h.holds]
  exact hrun

omit [DecidableEq κ] in
/-- **Once nothing is held, every handle that was given out was given back once.** -/
theorem Holding.settled {o : Owner κ} (h : Holding o fun _ => false) {n : ℕ}
    (ha : .acquired n ∈ o.ledger) : o.ledger.count (.released (some n)) = 1 := by
  have hdead : ¬ Live o.ledger n := by
    rw [h.tidy.live]
    intro hheld
    obtain ⟨k, hk⟩ := hheld
    have hno := congrFun h.holds k
    rw [Owner.holds, hk] at hno
    cases hno
  have hback : .released (some n) ∈ o.ledger := by
    by_contra hno
    exact hdead ⟨ha, hno⟩
  have honce : o.ledger.count (.released (some n)) ≤ 1 := by
    refine h.tidy.law.count_le_one fun before hl => ?_
    obtain ⟨m, hm, hlive⟩ := hl
    cases hm
    exact hlive.2
  have hpos := List.count_pos_iff.mpr hback
  omega

end ApprtcCli.Lib
