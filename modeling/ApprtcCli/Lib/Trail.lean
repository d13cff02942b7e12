import Mathlib.Data.List.Induction

/-!
# Trails: histories whose entries are justified by what came before

A history is a list of actions, oldest first. Ordering laws ("nothing is sent
after the bye", "no candidate before a description") all have one shape: each
entry must be allowed by the entries before it. `Trail` is that shape, and
`trail_concat` is how such a law is kept while the history grows.
-/

namespace ApprtcCli.Lib

variable {α : Type}

/-- Where an entry of a history that just grew can stand: at the end, or before it. -/
theorem concat_eq_append_cons {l pre post : List α} {a b : α} (h : l ++ [a] = pre ++ b :: post) :
    (post = [] ∧ l = pre ∧ a = b) ∨ ∃ post', post = post' ++ [a] ∧ l = pre ++ b :: post' := by
  rcases List.eq_nil_or_concat post with hp | ⟨post', c, hp⟩
  · subst hp
    obtain ⟨h1, h2⟩ := List.append_inj' h rfl
    injection h2 with h2
    exact Or.inl ⟨rfl, h1, h2⟩
  · rw [List.concat_eq_append] at hp
    subst hp
    have h' : l ++ [a] = (pre ++ b :: post') ++ [c] := by rw [h]; simp
    obtain ⟨h1, h2⟩ := List.append_inj' h' rfl
    injection h2 with h2
    exact Or.inr ⟨post', by rw [h2], h1⟩

/-- A history has one first entry of a kind. -/
theorem first_unique {P : α → Prop} {pre pre' post post' : List α} {a a' : α}
    (h : pre ++ a :: post = pre' ++ a' :: post') (ha : P a) (ha' : P a')
    (hpre : ∀ b ∈ pre, ¬ P b) (hpre' : ∀ b ∈ pre', ¬ P b) :
    pre = pre' ∧ a = a' ∧ post = post' := by
  induction pre generalizing pre' with
  | nil =>
      cases pre' with
      | nil => simpa using h
      | cons b pre' =>
          injection h with h1 _
          subst h1
          exact absurd ha (hpre' a (List.mem_cons_self ..))
  | cons b pre ih =>
      cases pre' with
      | nil =>
          injection h with h1 _
          subst h1
          exact absurd ha' (hpre b (List.mem_cons_self ..))
      | cons c pre' =>
          injection h with h1 h2
          subst h1
          obtain ⟨h3, h4⟩ := ih h2 (fun b hb => hpre b (List.mem_cons_of_mem _ hb))
            (fun b hb => hpre' b (List.mem_cons_of_mem _ hb))
          exact ⟨by rw [h3], h4⟩

/-- Every entry is allowed by the entries before it. -/
def Trail (P : List α → α → Prop) (l : List α) : Prop :=
  ∀ pre a post, l = pre ++ a :: post → P pre a

theorem trail_nil (P : List α → α → Prop) : Trail P [] := by
  intro pre a post h
  simp at h

/-- Growing a history by one entry asks about that entry only. -/
theorem trail_concat {P : List α → α → Prop} {l : List α} {a : α} :
    Trail P (l ++ [a]) ↔ Trail P l ∧ P l a := by
  constructor
  · intro h
    exact ⟨fun pre b post hl => h pre b (post ++ [a]) (by simp [hl]), h l a [] rfl⟩
  · rintro ⟨hl, ha⟩ pre b post heq
    rcases concat_eq_append_cons heq with ⟨_, rfl, rfl⟩ | ⟨post', _, h⟩
    · exact ha
    · exact hl pre b post' h

theorem trail_singleton {P : List α → α → Prop} {a : α} (h : P [] a) : Trail P [a] :=
  trail_concat.mpr ⟨trail_nil P, h⟩

/-- A law of a given history is checked entry by entry. -/
theorem trail_of_take {P : List α → α → Prop} {l : List α}
    (h : ∀ i : Fin l.length, P (l.take i) (l.get i)) : Trail P l := by
  rintro pre a post rfl
  have hi : pre.length < (pre ++ a :: post).length := by simp
  simpa using h ⟨pre.length, hi⟩

/-- A history that has obeyed a law obeyed it all along. -/
theorem Trail.of_front {P : List α → α → Prop} {l l' : List α} (h : Trail P l') (hl : l <+: l') :
    Trail P l := by
  obtain ⟨more, rfl⟩ := hl
  rintro pre a post rfl
  exact h pre a (post ++ more) (by simp)

/-- Entries that are always allowed may be appended freely. -/
theorem Trail.append {P : List α → α → Prop} {l : List α} (h : Trail P l) :
    ∀ {k : List α}, (∀ a ∈ k, ∀ pre, P pre a) → Trail P (l ++ k) := by
  intro k
  induction k generalizing l with
  | nil => intro _; simpa using h
  | cons a k ih =>
      intro hk
      rw [← List.singleton_append, ← List.append_assoc]
      exact ih (trail_concat.mpr ⟨h, hk a (List.mem_cons_self ..) l⟩)
        (fun b hb => hk b (List.mem_cons_of_mem _ hb))

/-- Entries allowed under a condition that they keep. -/
theorem Trail.append_under {P : List α → α → Prop} {Q : List α → Prop} {l : List α}
    (h : Trail P l) (hq : Q l) :
    ∀ {k : List α}, (∀ a ∈ k, ∀ pre, Q pre → P pre a ∧ Q (pre ++ [a])) →
      Trail P (l ++ k) ∧ Q (l ++ k) := by
  intro k
  induction k generalizing l with
  | nil => intro _; simpa using ⟨h, hq⟩
  | cons a k ih =>
      intro hk
      obtain ⟨hp, hq'⟩ := hk a (List.mem_cons_self ..) l hq
      rw [← List.singleton_append, ← List.append_assoc]
      exact ih (trail_concat.mpr ⟨h, hp⟩) hq' (fun b hb => hk b (List.mem_cons_of_mem _ hb))

/-- A law about the entries a history projects to is a law about the history. -/
theorem Trail.of_filterMap {β : Type} {f : α → Option β} {P : List β → β → Prop} {l : List α}
    (h : Trail P (l.filterMap f)) :
    Trail (fun pre a => ∀ b, f a = some b → P (pre.filterMap f) b) l := by
  rintro pre a post rfl b hb
  refine h (pre.filterMap f) b (post.filterMap f) ?_
  rw [List.filterMap_append, List.filterMap_cons_some hb]

/-- An entry that is not allowed a second time occurs once at most. -/
theorem Trail.count_le_one [DecidableEq α] {P : List α → α → Prop} {a : α} {l : List α}
    (h : Trail P l) (ha : ∀ pre, P pre a → a ∉ pre) : l.count a ≤ 1 := by
  induction l using List.reverseRecOn with
  | nil => simp
  | append_singleton l c ih =>
      obtain ⟨hl, hc⟩ := trail_concat.mp h
      rw [List.count_append]
      by_cases hca : c = a
      · subst hca
        have hzero : l.count c = 0 := List.count_eq_zero.mpr (ha l hc)
        have hone : List.count c [c] = 1 := List.count_singleton_self
        omega
      · have hzero : List.count a [c] = 0 := List.count_eq_zero.mpr (by simpa using Ne.symm hca)
        rw [hzero]
        exact ih hl

/-- Whether a history ends in this entry, as a number. -/
def endsIn [DecidableEq α] (a : α) (l : List α) : Nat := if l.getLast? = some a then 1 else 0

/-- A history that comes to end in an entry has got it in what was appended. -/
theorem endsIn_append_le [DecidableEq α] (a : α) (l k : List α) :
    endsIn a (l ++ k) ≤ endsIn a l + k.count a := by
  unfold endsIn
  rw [List.getLast?_append]
  cases hk : k.getLast? with
  | none => exact Nat.le_add_right _ _
  | some b =>
      by_cases hb : b = a
      · subst hb
        have hmem : 0 < k.count b := List.count_pos_iff.mpr (List.mem_of_getLast? hk)
        rw [Option.some_or, if_pos rfl]
        omega
      · rw [Option.some_or, if_neg (by simpa using hb)]
        exact Nat.zero_le _

/-- An entry that only ever follows another directly is no more frequent than the other. -/
theorem Trail.count_le [DecidableEq α] {P : List α → α → Prop} {a b : α} {l : List α}
    (h : Trail P l) (hne : b ≠ a) (hb : ∀ pre, P pre b → pre.getLast? = some a) :
    l.count b ≤ l.count a := by
  -- the last entry, where it is an `a`, has not been followed yet
  have hopen : l.count b + endsIn a l ≤ l.count a := by
    induction l using List.reverseRecOn with
    | nil => simp [endsIn]
    | append_singleton l c ih =>
        obtain ⟨hl, hc⟩ := trail_concat.mp h
        have ih := ih hl
        rw [List.count_append, List.count_append]
        by_cases hcb : c = b
        · subst hcb
          have hbefore : endsIn a l = 1 := if_pos (hb l hc)
          have hafter : endsIn a (l ++ [c]) = 0 :=
            if_neg (by rw [List.getLast?_concat]; simpa using hne)
          rw [List.count_singleton_self]
          omega
        · have hzero : List.count b [c] = 0 := List.count_eq_zero.mpr (by simpa using Ne.symm hcb)
          have hlast := endsIn_append_le a l [c]
          omega
  omega

end ApprtcCli.Lib
