import ApprtcCli.Lib.Owner

/-!
# Scopes and their cleanups

A function that gets one handle after the other, and gives each back in a cleanup of its
scope: wherever it returns, the cleanups run, the last first. `κ` names the handles, as in
`Lib/Owner.lean`.

`Nested` is what entering and leaving keep. It has the handles in the order they were got
in, so that none is given back before one that was got after it (`LastFirst`).
-/

namespace ApprtcCli.Lib

variable {κ : Type}

structure Scope (κ : Type) where
  owner : Owner κ := {}
  /-- What the cleanups give back, the next first. -/
  cleanups : List κ := []

/-- What is given back was got last, of what is live. -/
def LastFirst (before : List LedgerEntry) : LedgerEntry → Prop
  | .released (some handle) => ∀ n, Live before n → n ≤ handle
  | _ => True

namespace Scope

def ledger (s : Scope κ) : List LedgerEntry := s.owner.ledger

/-- There is a handle of this name, and it is live. -/
def Lives (s : Scope κ) (k : κ) : Prop := ∃ n, s.owner.handle k = some n ∧ Live s.ledger n

variable [DecidableEq κ]

/-- Get a handle, and see to it that it is given back. -/
def enter (s : Scope κ) (k : κ) : Scope κ :=
  { owner := s.owner.step (.acquire k), cleanups := k :: s.cleanups }

/-- The next cleanup. -/
def leave (s : Scope κ) : Scope κ :=
  match s.cleanups with
  | [] => s
  | k :: rest => { owner := s.owner.step (.release k), cleanups := rest }

end Scope

/-- The handles of these, each got after the ones of those behind it. -/
def Latest (handle : κ → Option ℕ) (ks : List κ) : Prop :=
  ks.Pairwise fun k k' => ∀ n n', handle k = some n → handle k' = some n' → n' < n

theorem Latest.congr {handle handle' : κ → Option ℕ} {ks : List κ} (h : Latest handle ks)
    (heq : ∀ k ∈ ks, handle' k = handle k) : Latest handle' ks := by
  refine List.Pairwise.imp_of_mem (fun {k k'} hk hk' hlt => ?_) h
  rw [heq k hk, heq k' hk']
  exact hlt

variable [DecidableEq κ]

/-- What is held is what the cleanups give back, in the order opposite to that of getting it. -/
structure Nested (s : Scope κ) : Prop where
  held : Holding s.owner fun k => decide (k ∈ s.cleanups)
  nodup : s.cleanups.Nodup
  latest : Latest s.owner.handle s.cleanups
  lastFirst : Trail LastFirst s.ledger

theorem nested_empty : Nested ({} : Scope κ) where
  held := ⟨tidy_empty, rfl⟩
  nodup := List.nodup_nil
  latest := List.Pairwise.nil
  lastFirst := trail_nil _

/-- What has a cleanup is held. -/
theorem Nested.handle {s : Scope κ} (h : Nested s) {k : κ} :
    (∃ n, s.owner.handle k = some n) ↔ k ∈ s.cleanups := by
  rw [← Option.isSome_iff_exists]
  have hheld := congrFun h.held.holds k
  rw [Owner.holds] at hheld
  rw [hheld, decide_eq_true_iff]

/-- **What has a cleanup yet to run is live.** -/
theorem Nested.lives {s : Scope κ} (h : Nested s) {k : κ} (hk : k ∈ s.cleanups) : s.Lives k := by
  obtain ⟨n, hn⟩ := h.handle.mpr hk
  exact ⟨n, hn, (h.held.tidy.live n).mpr ⟨k, hn⟩⟩

theorem Nested.enter {s : Scope κ} (h : Nested s) {k : κ} (hk : k ∉ s.cleanups) :
    Nested (s.enter k) := by
  have hnone : s.owner.handle k = none := by
    by_contra hsome
    exact hk (h.handle.mp (Option.ne_none_iff_exists'.mp hsome))
  have hother : ∀ k' ∈ s.cleanups, (s.enter k).owner.handle k' = s.owner.handle k' := by
    intro k' hk'
    have hne : k' ≠ k := fun heq => hk (heq ▸ hk')
    exact Function.update_of_ne hne ..
  refine ⟨⟨tidy_acquire h.held.tidy hnone, ?_⟩, List.nodup_cons.mpr ⟨hk, h.nodup⟩,
    List.pairwise_cons.mpr ⟨fun k' hk' n n' hn hn' => ?_, h.latest.congr hother⟩,
    trail_concat.mpr ⟨h.lastFirst, trivial⟩⟩
  · have hstep := s.owner.step_holds (.acquire k)
    rw [h.held.holds] at hstep
    refine hstep.trans (funext fun k' => ?_)
    by_cases hkk : k' = k
    · simp [HandleOp.after, Scope.enter, hkk]
    · simp [HandleOp.after, Scope.enter, hkk]
  · -- the new handle is the greatest
    have hnew : (s.enter k).owner.handle k = some s.owner.next := Function.update_self ..
    rw [hnew] at hn
    rw [hother k' hk'] at hn'
    cases hn
    exact h.held.tidy.fresh n' ((h.held.tidy.live n').mpr ⟨k', hn'⟩).1

theorem leave_cons {s : Scope κ} {k : κ} {rest : List κ} (hc : s.cleanups = k :: rest) :
    s.leave = { owner := s.owner.step (.release k), cleanups := rest } := by
  unfold Scope.leave
  rw [hc]

theorem Nested.leave {s : Scope κ} (h : Nested s) : Nested s.leave := by
  cases hc : s.cleanups with
  | nil =>
      unfold Scope.leave
      rw [hc]
      exact h
  | cons k rest =>
      have hnodup := h.nodup
      have hlatest := h.latest
      rw [hc] at hnodup hlatest
      obtain ⟨hk, hnodup⟩ := List.nodup_cons.mp hnodup
      obtain ⟨hfirst, hlatest⟩ := List.pairwise_cons.mp hlatest
      obtain ⟨n, hn⟩ := h.handle.mpr (hc ▸ List.mem_cons_self ..)
      have hother : ∀ k' ∈ rest, (s.owner.step (.release k)).handle k' = s.owner.handle k' := by
        intro k' hk'
        have hne : k' ≠ k := fun heq => hk (heq ▸ hk')
        exact Function.update_of_ne hne ..
      rw [leave_cons hc]
      refine ⟨⟨tidy_release h.held.tidy hn, ?_⟩, hnodup, Latest.congr hlatest hother,
        trail_concat.mpr ⟨h.lastFirst, ?_⟩⟩
      · have hstep := s.owner.step_holds (.release k)
        rw [h.held.holds, hc] at hstep
        refine hstep.trans (funext fun k' => ?_)
        by_cases hkk : k' = k
        · simp [HandleOp.after, hkk, hk]
        · simp [HandleOp.after, hkk]
      · -- whatever else is live was got before
        rw [hn]
        intro m hm
        obtain ⟨k', hk'⟩ := (h.held.tidy.live m).mp hm
        rcases List.mem_cons.mp (hc ▸ h.handle.mp ⟨m, hk'⟩) with rfl | hmem
        · exact Nat.le_of_eq (Option.some.inj (hk'.symm.trans hn))
        · exact Nat.le_of_lt (hfirst k' hmem n m hn hk')

/-- **Once the cleanups have run, every handle that was got was given back once.** -/
theorem Nested.settled {s : Scope κ} (h : Nested s) (hc : s.cleanups = []) {n : ℕ}
    (ha : .acquired n ∈ s.ledger) : s.ledger.count (.released (some n)) = 1 := by
  have hheld := h.held
  rw [hc] at hheld
  refine Holding.settled ⟨hheld.tidy, hheld.holds.trans (funext fun k => ?_)⟩ ha
  simp

end ApprtcCli.Lib
