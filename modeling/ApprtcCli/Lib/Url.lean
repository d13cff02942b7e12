import ApprtcCli.Lib.Json

/-!
# Urls and what their segments name

A hierarchical url, as the five parts its text is made of. The bytes that would end
a part early are kept out of it by the structure, so the text has one reading
(`Url.text_injective`).

A segment of the path names a text: bytes may stand for themselves or be written
`%XX`. Which bytes may stand for themselves is a parameter; `uriGrammar` is the
common choice. The segments `.` and `..` name nothing, they move along the path.
-/

namespace ApprtcCli.Lib

def slash : UInt8 := 47
def question : UInt8 := 63
def hash : UInt8 := 35
def percent : UInt8 := 37
def colon : UInt8 := 58

/-- The bytes that end an authority or a segment. -/
def isDelimiter (b : UInt8) : Bool := b = slash || b = question || b = hash

/-- Segments, each after its slash. -/
def pathText (path : List Text) : Text := path.flatMap fun segment => slash :: segment

structure Url where
  scheme : Text
  authority : Text
  path : List Text
  query : Option Text
  fragment : Option Text
  scheme_ok : colon ∉ scheme ∧ ∀ b ∈ scheme, isDelimiter b = false
  authority_ok : authority ≠ [] ∧ ∀ b ∈ authority, isDelimiter b = false
  path_ok : ∀ segment ∈ path, ∀ b ∈ segment, isDelimiter b = false
  query_ok : ∀ q, query = some q → hash ∉ q

namespace Url

/-- What comes after the path. -/
def tail (u : Url) : Text :=
  (match u.query with
    | some q => question :: q
    | none => [])
  ++ match u.fragment with
    | some f => hash :: f
    | none => []

/-- Everything before the path. -/
def origin (u : Url) : Text := u.scheme ++ colon :: slash :: slash :: u.authority

def text (u : Url) : Text := u.origin ++ (pathText u.path ++ u.tail)

/-- Neither a query nor a fragment. -/
def NoTail (u : Url) : Prop := u.query = none ∧ u.fragment = none

instance (u : Url) : Decidable u.NoTail := inferInstanceAs (Decidable (_ ∧ _))

end Url

/-! ## One reading -/

/-- A text is cut in one way at the first byte of a kind. -/
theorem split_unique {p : UInt8 → Bool} {l l' r r' : Text} (hl : ∀ b ∈ l, p b = false)
    (hl' : ∀ b ∈ l', p b = false) (hr : ∀ b, r.head? = some b → p b = true)
    (hr' : ∀ b, r'.head? = some b → p b = true) (h : l ++ r = l' ++ r') : l = l' ∧ r = r' := by
  induction l generalizing l' with
  | nil =>
      cases l' with
      | nil => exact ⟨rfl, h⟩
      | cons b l' =>
          have hb := hr b (by rw [← List.nil_append r, h]; rfl)
          rw [hl' b (List.mem_cons_self ..)] at hb
          cases hb
  | cons a l ih =>
      cases l' with
      | nil =>
          have ha := hr' a (by rw [← List.nil_append r', ← h]; rfl)
          rw [hl a (List.mem_cons_self ..)] at ha
          cases ha
      | cons b l' =>
          injection h with h1 h2
          subst h1
          obtain ⟨h3, h4⟩ := ih (fun b hb => hl b (List.mem_cons_of_mem _ hb))
            (fun b hb => hl' b (List.mem_cons_of_mem _ hb)) h2
          exact ⟨by rw [h3], h4⟩

theorem pathText_head {path : List Text} {tail : Text}
    (htail : ∀ b, tail.head? = some b → isDelimiter b = true) :
    ∀ b, (pathText path ++ tail).head? = some b → isDelimiter b = true := by
  cases path with
  | nil => exact htail
  | cons segment path =>
      intro b hb
      injection hb with hb
      subst hb
      decide

/-- A path is read in one way, up to a query or a fragment. -/
theorem pathText_unique {path path' : List Text} {tail tail' : Text}
    (hp : ∀ segment ∈ path, ∀ b ∈ segment, isDelimiter b = false)
    (hp' : ∀ segment ∈ path', ∀ b ∈ segment, isDelimiter b = false)
    (ht : ∀ b, tail.head? = some b → isDelimiter b = true ∧ b ≠ slash)
    (ht' : ∀ b, tail'.head? = some b → isDelimiter b = true ∧ b ≠ slash)
    (h : pathText path ++ tail = pathText path' ++ tail') : path = path' ∧ tail = tail' := by
  induction path generalizing path' with
  | nil =>
      cases path' with
      | nil => exact ⟨rfl, h⟩
      | cons segment path' =>
          have h : tail = pathText (segment :: path') ++ tail' := h
          exact absurd rfl (ht slash (by rw [h]; rfl)).2
  | cons segment path ih =>
      cases path' with
      | nil =>
          have h : pathText (segment :: path) ++ tail = tail' := h
          exact absurd rfl (ht' slash (by rw [← h]; rfl)).2
      | cons segment' path' =>
          have h : slash :: (segment ++ (pathText path ++ tail))
              = slash :: (segment' ++ (pathText path' ++ tail')) := by
            simpa [pathText] using h
          injection h with _ h
          obtain ⟨h1, h2⟩ := split_unique (hp segment (List.mem_cons_self ..))
            (hp' segment' (List.mem_cons_self ..)) (pathText_head fun b hb => (ht b hb).1)
            (pathText_head fun b hb => (ht' b hb).1) h
          obtain ⟨h3, h4⟩ := ih (fun s hs => hp s (List.mem_cons_of_mem _ hs))
            (fun s hs => hp' s (List.mem_cons_of_mem _ hs)) h2
          exact ⟨by rw [h1, h3], h4⟩

/-- What follows the query. -/
def fragmentText : Option Text → Text
  | some fragment => hash :: fragment
  | none => []

theorem fragmentText_head {fragment : Option Text} {b : UInt8}
    (h : (fragmentText fragment).head? = some b) : b = hash := by
  cases fragment with
  | some f =>
      injection h with h
      exact h.symm
  | none => cases h

/-- A query ends at the first hash. -/
theorem fragmentText_unique {query query' : Text} {fragment fragment' : Option Text}
    (hq : hash ∉ query) (hq' : hash ∉ query')
    (h : query ++ fragmentText fragment = query' ++ fragmentText fragment') :
    query = query' ∧ fragment = fragment' := by
  have hfree : ∀ {q : Text}, hash ∉ q → ∀ b ∈ q, (b == hash) = false := by
    intro q hq b hb
    by_cases hc : b = hash
    · exact absurd (hc ▸ hb) hq
    · simpa using hc
  have hhead : ∀ (f : Option Text) (b : UInt8),
      (fragmentText f).head? = some b → (b == hash) = true :=
    fun f b hb => by simp [fragmentText_head hb]
  obtain ⟨h1, h2⟩ := split_unique (hfree hq) (hfree hq') (hhead fragment) (hhead fragment') h
  refine ⟨h1, ?_⟩
  cases fragment <;> cases fragment' <;> simp_all [fragmentText]

theorem Url.tail_some {u : Url} {query : Text} (h : u.query = some query) :
    u.tail = question :: (query ++ fragmentText u.fragment) := by
  unfold Url.tail
  rw [h]
  cases u.fragment <;> rfl

theorem Url.tail_none {u : Url} (h : u.query = none) : u.tail = fragmentText u.fragment := by
  unfold Url.tail
  rw [h]
  cases u.fragment <;> rfl

theorem Url.tail_head {u : Url} :
    ∀ b, u.tail.head? = some b → isDelimiter b = true ∧ b ≠ slash := by
  intro b hb
  cases hq : u.query with
  | some q =>
      rw [Url.tail_some hq] at hb
      injection hb with hb
      subst hb
      decide
  | none =>
      rw [Url.tail_none hq] at hb
      rw [fragmentText_head hb]
      decide

/-- A tail with a query is none without. -/
theorem Url.tail_marked {u : Url} (h : u.query = none) (rest : Text) :
    u.tail ≠ question :: rest := by
  intro heq
  have hhead := fragmentText_head (b := question) (by rw [← Url.tail_none h, heq]; rfl)
  exact absurd hhead (by decide)

theorem Url.tail_unique {u u' : Url} (h : u.tail = u'.tail) :
    u.query = u'.query ∧ u.fragment = u'.fragment := by
  cases hq : u.query with
  | some q =>
      rw [Url.tail_some hq] at h
      cases hq' : u'.query with
      | some q' =>
          rw [Url.tail_some hq'] at h
          injection h with _ h
          obtain ⟨h1, h2⟩ := fragmentText_unique (u.query_ok q hq) (u'.query_ok q' hq') h
          exact ⟨by rw [h1], h2⟩
      | none => exact absurd h.symm (Url.tail_marked hq' _)
  | none =>
      cases hq' : u'.query with
      | some q' =>
          rw [Url.tail_some hq'] at h
          exact absurd h (Url.tail_marked hq _)
      | none =>
          rw [Url.tail_none hq, Url.tail_none hq'] at h
          obtain ⟨_, h2⟩ := fragmentText_unique List.not_mem_nil List.not_mem_nil
            (show [] ++ fragmentText u.fragment = [] ++ fragmentText u'.fragment from h)
          exact ⟨rfl, h2⟩

/-- **A text is the text of one url.** -/
theorem Url.text_injective : Function.Injective Url.text := by
  intro u u' h
  have hscheme : ∀ u : Url, ∀ b ∈ u.scheme, (b == colon) = false := by
    intro u b hb
    by_cases hc : b = colon
    · exact absurd (hc ▸ hb) u.scheme_ok.1
    · simpa using hc
  unfold Url.text Url.origin at h
  rw [List.append_assoc, List.append_assoc] at h
  obtain ⟨h1, h⟩ := split_unique (hscheme u) (hscheme u')
    (fun b hb => by injection hb with hb; subst hb; rfl)
    (fun b hb => by injection hb with hb; subst hb; rfl) h
  simp only [List.cons_append, List.cons.injEq, true_and] at h
  obtain ⟨h2, h⟩ := split_unique u.authority_ok.2 u'.authority_ok.2
    (pathText_head fun b hb => (Url.tail_head b hb).1)
    (pathText_head fun b hb => (Url.tail_head b hb).1) h
  obtain ⟨h3, h⟩ := pathText_unique u.path_ok u'.path_ok Url.tail_head Url.tail_head h
  obtain ⟨h4, h5⟩ := Url.tail_unique h
  cases u; cases u'
  simp_all

/-! ## What a segment names -/

/-- Which bytes stand for themselves in a segment. -/
structure SegmentGrammar where
  literal : UInt8 → Bool
  literal_delimiter : ∀ b, literal b = true → isDelimiter b = false
  literal_percent : literal percent = false
  literal_letter : ∀ b, 97 ≤ b → b ≤ 122 → literal b = true

/-- Letters, digits and the marks a segment may hold unescaped. -/
def uriGrammar : SegmentGrammar where
  literal b := (65 ≤ b && b ≤ 90) || (97 ≤ b && b ≤ 122) || (48 ≤ b && b ≤ 57)
    || (Text.ofString "-._~!$&'()*+,;=:@").contains b
  literal_delimiter b h := by
    by_cases hd : isDelimiter b = true
    · simp only [isDelimiter, Bool.or_eq_true, decide_eq_true_eq] at hd
      rcases hd with (rfl | rfl) | rfl <;> exact absurd h (by decide)
    · simpa using hd
  literal_percent := by decide
  literal_letter b h h' := by simp [h, h']

def hexDigit (b : UInt8) : Option UInt8 :=
  if 48 ≤ b ∧ b ≤ 57 then some (b - 48)
  else if 65 ≤ b ∧ b ≤ 70 then some (b - 55)
  else if 97 ≤ b ∧ b ≤ 102 then some (b - 87)
  else none

variable (G : SegmentGrammar)

/-- The text a segment is an escaped form of. -/
def percentDecode : Text → Option Text
  | [] => some []
  | b :: rest =>
      if b = percent then
        match rest with
        | high :: low :: rest => do
            let high ← hexDigit high
            let low ← hexDigit low
            let decoded ← percentDecode rest
            some ((16 * high + low) :: decoded)
        | _ => none
      else if G.literal b then (percentDecode rest).map (b :: ·)
      else none

/-- The segment names the text. -/
def Names (segment text : Text) : Prop :=
  segment ≠ Text.ofString "." ∧ segment ≠ Text.ofString ".." ∧ percentDecode G segment = some text

/-- A text that can stand as a segment as it is. -/
def Plain (text : Text) : Prop :=
  text ≠ Text.ofString "." ∧ text ≠ Text.ofString ".." ∧ text.all G.literal = true

instance (text : Text) : Decidable (Plain G text) := inferInstanceAs (Decidable (_ ∧ _ ∧ _))

variable {G}

theorem percentDecode_length {text decoded : Text} (h : percentDecode G text = some decoded) :
    decoded.length ≤ text.length := by
  fun_induction percentDecode G text generalizing decoded with
  | case1 =>
      injection h with h
      subst h
      exact Nat.le_refl _
  | case2 high low rest ih =>
      obtain ⟨a, _, h⟩ := Option.bind_eq_some_iff.mp h
      obtain ⟨b, _, h⟩ := Option.bind_eq_some_iff.mp h
      obtain ⟨more, hmore, h⟩ := Option.bind_eq_some_iff.mp h
      injection h with h
      subst h
      have := ih hmore
      simp only [List.length_cons]
      omega
  | case3 => cases h
  | case4 b rest _ _ ih =>
      obtain ⟨more, hmore, rfl⟩ := Option.map_eq_some_iff.mp h
      have := ih hmore
      simp only [List.length_cons]
      omega
  | case5 => cases h

/-- A segment is read as itself where all its bytes are literal: an escape is never its own text. -/
theorem percentDecode_self_iff {text : Text} :
    percentDecode G text = some text ↔ ∀ b ∈ text, G.literal b = true := by
  induction text with
  | nil => simp [percentDecode]
  | cons b rest ih =>
      unfold percentDecode
      by_cases hb : b = percent
      · rw [if_pos hb]
        constructor
        · intro h
          exfalso
          split at h
          · rename_i high low rest
            obtain ⟨a, _, h⟩ := Option.bind_eq_some_iff.mp h
            obtain ⟨c, _, h⟩ := Option.bind_eq_some_iff.mp h
            obtain ⟨more, hmore, h⟩ := Option.bind_eq_some_iff.mp h
            injection h with h
            have hlen := congrArg List.length h
            have := percentDecode_length hmore
            simp only [List.length_cons] at hlen
            omega
          · cases h
        · intro h
          have hpercent := h b (List.mem_cons_self ..)
          rw [hb, G.literal_percent] at hpercent
          cases hpercent
      · rw [if_neg hb]
        by_cases hl : G.literal b = true
        · rw [if_pos hl, List.forall_mem_cons, ← ih]
          simp [hl]
        · rw [if_neg hl, List.forall_mem_cons]
          simp [hl]

/-- **A text names itself** exactly where it is plain. -/
theorem names_self_iff {text : Text} : Names G text text ↔ Plain G text := by
  unfold Names Plain
  rw [percentDecode_self_iff, List.all_eq_true]

/-- A word in small letters. -/
theorem plain_of_letters {text : Text} (h : text.all (fun b => 97 ≤ b && b ≤ 122) = true) :
    Plain G text := by
  refine ⟨?_, ?_, List.all_eq_true.mpr fun b hb => ?_⟩
  · rintro rfl
    exact absurd h (by decide)
  · rintro rfl
    exact absurd h (by decide)
  · have hb := List.all_eq_true.mp h b hb
    rw [Bool.and_eq_true, decide_eq_true_eq, decide_eq_true_eq] at hb
    exact G.literal_letter b hb.1 hb.2

/-- A part of a url without the bytes that would end it. -/
theorem delimiterFree {text : Text} (h : text.all (fun b => !isDelimiter b) = true) :
    ∀ b ∈ text, isDelimiter b = false := by
  intro b hb
  have := List.all_eq_true.mp h b hb
  simpa using this

/-! ## Going on from a base -/

/-- A path without the empty segment that a slash at its end leaves. -/
def trimPath (path : List Text) : List Text :=
  if path.getLast? = some [] then path.dropLast else path

variable (G) in
/-- The text is a url that goes on from the base by segments that name these texts, and ends. -/
def Addresses (base : Url) (text : Text) (names : List Text) : Prop :=
  ∃ u : Url, u.text = text ∧ u.scheme = base.scheme ∧ u.authority = base.authority ∧ u.NoTail
    ∧ ∃ segments, u.path = trimPath base.path ++ segments
      ∧ List.Forall₂ (Names G) segments names

/-- A segment names one text. -/
theorem forall_names_unique {segments names names' : List Text}
    (h : List.Forall₂ (Names G) segments names) (h' : List.Forall₂ (Names G) segments names') :
    names = names' := by
  induction h generalizing names' with
  | nil => cases h'; rfl
  | @cons segment name segments names hname _ ih =>
      cases h' with
      | cons hname' hrest' =>
          have heq := hname.2.2.symm.trans hname'.2.2
          injection heq with heq
          rw [heq, ih hrest']

/-- **A url addresses one thing.** -/
theorem addresses_unique {base : Url} {text : Text} {names names' : List Text}
    (h : Addresses G base text names) (h' : Addresses G base text names') : names = names' := by
  obtain ⟨u, htext, _, _, _, segments, hpath, hnames⟩ := h
  obtain ⟨u', htext', _, _, _, segments', hpath', hnames'⟩ := h'
  have hu : u = u' := Url.text_injective (htext.trans htext'.symm)
  subst hu
  rw [hpath] at hpath'
  have hsegments := List.append_cancel_left hpath'
  subst hsegments
  exact forall_names_unique hnames hnames'

theorem Url.text_of_noTail {u : Url} (h : u.NoTail) : u.text = u.origin ++ pathText u.path := by
  unfold Url.text Url.tail
  rw [h.1, h.2]
  simp

/-- A url without a query or a fragment has no byte that would start one. -/
theorem no_tail_bytes {u : Url} (h : u.NoTail) : question ∉ u.text ∧ hash ∉ u.text := by
  have hfree : ∀ b, isDelimiter b = true → b ≠ slash → b ≠ colon → b ∉ u.text := by
    intro b hb hs hc hmem
    have hpart : ∀ {t : Text}, (∀ b ∈ t, isDelimiter b = false) → b ∉ t := by
      intro t ht hbt
      rw [ht b hbt] at hb
      cases hb
    rw [Url.text_of_noTail h] at hmem
    simp only [Url.origin, pathText, List.mem_append, List.mem_cons, List.mem_flatMap] at hmem
    rcases hmem with (hm | hm | hm | hm | hm) | ⟨segment, hseg, hm | hm⟩
    · exact hpart u.scheme_ok.2 hm
    · exact hc hm
    · exact hs hm
    · exact hs hm
    · exact hpart u.authority_ok.2 hm
    · exact hs hm
    · exact hpart (u.path_ok segment hseg) hm
  exact ⟨hfree question (by decide) (by decide) (by decide),
    hfree hash (by decide) (by decide) (by decide)⟩

theorem tail_bytes {u : Url} (h : ¬ u.NoTail) : question ∈ u.text ∨ hash ∈ u.text := by
  unfold Url.text Url.tail
  cases hq : u.query with
  | some q => exact Or.inl (by simp)
  | none =>
      cases hf : u.fragment with
      | some f => exact Or.inr (by simp)
      | none => exact absurd ⟨hq, hf⟩ h

theorem count_pathText (path : List Text) :
    (pathText path).count slash = path.length + (path.map (List.count slash)).sum := by
  induction path with
  | nil => rfl
  | cons segment path ih =>
      have h : pathText (segment :: path) = slash :: segment ++ pathText path := rfl
      rw [h, List.count_append, List.count_cons_self, ih, List.length_cons, List.map_cons,
        List.sum_cons]
      omega

/-- As many texts as segments, joined to the same path, are the segments. -/
theorem segments_unique {segments texts : List Text}
    (hs : ∀ segment ∈ segments, ∀ b ∈ segment, isDelimiter b = false)
    (hlen : segments.length = texts.length) (h : pathText segments = pathText texts) :
    segments = texts := by
  have hfree : (segments.map (List.count slash)).sum = 0 := by
    rw [List.sum_eq_zero_iff_forall_eq_nat, List.forall_mem_map]
    intro segment hseg
    rw [List.count_eq_zero]
    intro hmem
    have := hs segment hseg slash hmem
    cases this
  -- each path has one slash for each part, so there is none inside a text
  have hcount := congrArg (List.count slash) h
  rw [count_pathText, count_pathText, hfree, hlen] at hcount
  have hzero : (texts.map (List.count slash)).sum = 0 := by omega
  rw [List.sum_eq_zero_iff_forall_eq_nat, List.forall_mem_map] at hzero
  have htexts : ∀ t ∈ texts, ∀ b ∈ t, isDelimiter b = false := by
    intro t ht b hb
    by_cases hslash : b = slash
    · subst hslash
      exact absurd hb (List.count_eq_zero.mp (hzero t ht))
    · have hmem : b ∈ pathText segments := by
        rw [h]
        exact List.mem_flatMap.mpr ⟨t, ht, List.mem_cons_of_mem _ hb⟩
      obtain ⟨segment, hseg, hb'⟩ := List.mem_flatMap.mp hmem
      rcases List.mem_cons.mp hb' with hb' | hb'
      · exact absurd hb' hslash
      · exact hs segment hseg b hb'
  have hnil : ∀ b : UInt8, ([] : Text).head? = some b → isDelimiter b = true ∧ b ≠ slash :=
    fun b hb => by cases hb
  exact (pathText_unique hs htexts hnil hnil (by rw [h])).1

/-- **Texts put after a base as they are** are addressed exactly where all of them are plain. -/
theorem addresses_append_iff {base : Url} (h : base.NoTail) (texts : List Text) :
    Addresses G base (base.origin ++ pathText (trimPath base.path ++ texts)) texts
      ↔ ∀ t ∈ texts, Plain G t := by
  constructor
  · rintro ⟨u, htext, hscheme, hauthority, hno, segments, hpath, hnames⟩
    have horigin : u.origin = base.origin := by rw [Url.origin, hscheme, hauthority]; rfl
    rw [Url.text_of_noTail hno, horigin, hpath] at htext
    have hparts : pathText segments = pathText texts := by
      have hboth := List.append_cancel_left htext
      simp only [pathText, List.flatMap_append] at hboth
      exact List.append_cancel_left hboth
    have hseg := segments_unique
      (fun s hs => u.path_ok s (by rw [hpath]; exact List.mem_append_right _ hs))
      hnames.length_eq hparts
    subst hseg
    exact fun t ht => names_self_iff.mp (List.forall₂_same.mp hnames t ht)
  · intro hplain
    have htrim : ∀ segment ∈ trimPath base.path, segment ∈ base.path := by
      intro segment hs
      unfold trimPath at hs
      split at hs
      · exact List.dropLast_subset _ hs
      · exact hs
    let u : Url :=
      { base with
        path := trimPath base.path ++ texts
        path_ok := by
          intro segment hs b hb
          rcases List.mem_append.mp hs with hs | hs
          · exact base.path_ok segment (htrim segment hs) b hb
          · exact G.literal_delimiter b (List.all_eq_true.mp (hplain segment hs).2.2 b hb) }
    refine ⟨u, Url.text_of_noTail h, rfl, rfl, h, texts, rfl, ?_⟩
    exact List.forall₂_same.mpr fun t ht => names_self_iff.mpr (hplain t ht)

end ApprtcCli.Lib
