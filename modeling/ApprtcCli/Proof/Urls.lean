import ApprtcCli.Signaling.RoomServer

/-!
# What the urls address

The client builds three urls by putting ids behind a base as they are: nothing is
escaped anywhere. `urls_address` says when such a url addresses the room and the
client that were meant: where the base ends with its path, and every id is a text
that can stand in a path as it is. An id with a slash, a question mark, a hash or
a percent sign in it, or one that is `.` or `..`, makes it another url.

The url to delete is built without `JoinUrl`, so a base that ends in a slash is
left out for it.
-/

namespace ApprtcCli.Proof

open Lib

theorem pathText_concat (init : List Text) (last : Text) :
    pathText (init ++ [last]) = pathText init ++ slash :: last := by
  simp [pathText]

/-- A base ends in a slash exactly where its last segment is empty. -/
theorem text_getLast_iff {base : Url} (h : base.NoTail) :
    base.text.getLast? = some slash ↔ base.path.getLast? = some [] := by
  rw [Url.text_of_noTail h]
  rcases List.eq_nil_or_concat base.path with hp | ⟨init, last, hp⟩
  · -- the authority is not empty, and has no slash
    rw [hp]
    constructor
    · intro hlast
      obtain ⟨hne, hfree⟩ := base.authority_ok
      rcases List.eq_nil_or_concat base.authority with ha | ⟨bytes, b, ha⟩
      · exact absurd ha hne
      · rw [List.concat_eq_append] at ha
        have horigin : base.origin = (base.scheme ++ colon :: slash :: slash :: bytes) ++ [b] := by
          rw [Url.origin, ha]
          simp
        rw [show pathText [] = [] from rfl, List.append_nil, horigin, List.getLast?_concat] at hlast
        injection hlast with hlast
        have := hfree b (by rw [ha]; simp)
        rw [hlast] at this
        cases this
    · intro hlast
      cases hlast
  · rw [List.concat_eq_append] at hp
    rw [hp, pathText_concat, List.getLast?_concat, ← List.append_assoc]
    rcases List.eq_nil_or_concat last with hl | ⟨bytes, b, hl⟩
    · rw [hl, List.getLast?_concat]
      exact ⟨fun _ => rfl, fun _ => rfl⟩
    · rw [List.concat_eq_append] at hl
      rw [hl, ← List.cons_append, ← List.append_assoc, List.getLast?_concat]
      constructor
      · intro hlast
        injection hlast with hlast
        have := base.path_ok last (by rw [hp]; simp) b (by rw [hl]; simp)
        rw [hlast] at this
        cases this
      · intro hlast
        injection hlast with hlast
        exact absurd hlast (by simp)

/-- `JoinUrl` goes on from the trimmed path of the base. -/
theorem joinUrl_text {base : Url} (h : base.NoTail) (texts : List Text) :
    joinUrl base.text (pathText texts)
      = base.origin ++ pathText (trimPath base.path ++ texts) := by
  unfold joinUrl trimPath
  by_cases hlast : base.path.getLast? = some []
  · rw [if_pos ((text_getLast_iff h).mpr hlast), if_pos hlast, Url.text_of_noTail h]
    obtain ⟨init, hp⟩ := List.getLast?_eq_some_iff.mp hlast
    rw [hp, pathText_concat, List.dropLast_concat, ← List.append_assoc, List.dropLast_concat]
    simp [pathText]
  · rw [if_neg (fun hc => hlast ((text_getLast_iff h).mp hc)), if_neg hlast, Url.text_of_noTail h]
    simp [pathText]

/-- What starts a query or a fragment in the base is still there behind it. -/
theorem mem_joinUrl {base suffix : Text} {b : UInt8} (h : b ∈ base) (hb : b ≠ slash) :
    b ∈ joinUrl base suffix := by
  unfold joinUrl
  split
  · rename_i hlast
    obtain ⟨init, hp⟩ := List.getLast?_eq_some_iff.mp hlast
    rw [hp] at h ⊢
    rw [List.dropLast_concat]
    rcases List.mem_append.mp h with h | h
    · exact List.mem_append_left _ h
    · exact absurd (List.mem_singleton.mp h) hb
  · exact List.mem_append_left _ h

/-- Nothing is addressed behind a query or a fragment. -/
theorem noTail_of_addresses {G : SegmentGrammar} {base : Url} {text : Text} {names : List Text}
    (h : Addresses G base text names) (hmem : ∀ b ∈ base.text, b ≠ slash → b ∈ text) :
    base.NoTail := by
  obtain ⟨u, htext, _, _, hno, _⟩ := h
  by_contra hbase
  obtain ⟨hquestion, hhash⟩ := no_tail_bytes hno
  rw [htext] at hquestion hhash
  rcases tail_bytes hbase with hb | hb
  · exact hquestion (hmem question hb (by decide))
  · exact hhash (hmem hash hb (by decide))

/-- A url built by `JoinUrl` from texts as they are. -/
theorem joinUrl_addresses_iff (G : SegmentGrammar) (base : Url) (texts : List Text) :
    Addresses G base (joinUrl base.text (pathText texts)) texts
      ↔ base.NoTail ∧ ∀ t ∈ texts, Plain G t := by
  constructor
  · intro h
    have hno := noTail_of_addresses h fun b hb hs => mem_joinUrl hb hs
    rw [joinUrl_text hno, addresses_append_iff hno] at h
    exact ⟨hno, h⟩
  · rintro ⟨hno, hplain⟩
    rw [joinUrl_text hno]
    exact (addresses_append_iff hno texts).mpr hplain

/-! ## The three urls -/

theorem joinRoomUrl_eq (base : Url) (roomId : Text) :
    joinRoomUrl base.text roomId = joinUrl base.text (pathText ["join", roomId]) := by
  have h : pathText ["join", roomId] = Text.ofString "/join/" ++ roomId := by
    simp only [pathText, List.flatMap_cons, List.flatMap_nil, List.append_nil]
    rfl
  rw [h]
  rfl

theorem messageUrl_eq (base roomId clientId : Text) :
    messageUrl base roomId clientId = joinUrl base (pathText ["message", roomId, clientId]) := by
  have h : pathText ["message", roomId, clientId]
      = Text.ofString "/message/" ++ roomId ++ "/" ++ clientId := by
    simp only [pathText, List.flatMap_cons, List.flatMap_nil, List.append_nil, List.append_assoc]
    rfl
  rw [h]
  rfl

/-- The url to delete goes on from the whole base. -/
theorem deleteUrl_eq (joinResponse : JoinResponse) :
    deleteUrl joinResponse
      = joinResponse.wssPostUrl ++ pathText [joinResponse.roomId, joinResponse.clientId] := by
  simp only [deleteUrl, pathText, List.flatMap_cons, List.flatMap_nil, List.append_nil,
    List.append_assoc]
  rfl

theorem deleteUrl_addresses_iff (G : SegmentGrammar) {base : Url} {joinResponse : JoinResponse}
    (hbase : joinResponse.wssPostUrl = base.text) (hslash : base.text.getLast? ≠ some slash) :
    Addresses G base (deleteUrl joinResponse) [joinResponse.roomId, joinResponse.clientId]
      ↔ base.NoTail ∧ Plain G joinResponse.roomId ∧ Plain G joinResponse.clientId := by
  have hjoin : deleteUrl joinResponse
      = joinUrl base.text (pathText [joinResponse.roomId, joinResponse.clientId]) := by
    rw [deleteUrl_eq, hbase, joinUrl, if_neg hslash]
  rw [hjoin, joinUrl_addresses_iff]
  simp

/-- Behind one base, what is put there can be read off. -/
theorem joinUrl_injective (base : Text) : Function.Injective (joinUrl base) := by
  intro suffix suffix' h
  unfold joinUrl at h
  split at h <;> exact List.append_cancel_left h

/-- A pair of plain ids makes the end of a path that no other pair makes. -/
theorem ids_unique {G : SegmentGrammar} {id₁ id₂ id₁' id₂' : Text} (h₁ : Plain G id₁)
    (h₂ : Plain G id₂) (h : pathText [id₁, id₂] = pathText [id₁', id₂']) :
    id₁ = id₁' ∧ id₂ = id₂' := by
  have hfree : ∀ id ∈ [id₁, id₂], ∀ b ∈ id, isDelimiter b = false := by
    intro id hid b hb
    have hplain : Plain G id := by
      rcases List.mem_pair.mp hid with rfl | rfl
      · exact h₁
      · exact h₂
    exact G.literal_delimiter b (List.all_eq_true.mp hplain.2.2 b hb)
  have hsame : [id₁, id₂] = [id₁', id₂'] := segments_unique hfree rfl h
  injection hsame with h3 h4
  injection h4 with h4
  exact ⟨h3, h4⟩

/--
**What the urls address.** Each of the three urls is one that goes on from the base by the
segments meant, and ends there, if and only if the base has no query or fragment and every
id is plain; and nothing else is addressed by it. Whatever the base is, a pair of plain ids
has its url to post to, and its url to delete, for itself.
-/
theorem urls_address (G : SegmentGrammar) (base : Url) :
    (∀ roomId, Addresses G base (joinRoomUrl base.text roomId) ["join", roomId]
      ↔ base.NoTail ∧ Plain G roomId)
    ∧ (∀ roomId clientId,
      Addresses G base (messageUrl base.text roomId clientId) ["message", roomId, clientId]
        ↔ base.NoTail ∧ Plain G roomId ∧ Plain G clientId)
    ∧ (∀ joinResponse : JoinResponse, joinResponse.wssPostUrl = base.text →
      base.text.getLast? ≠ some slash →
      (Addresses G base (deleteUrl joinResponse) [joinResponse.roomId, joinResponse.clientId]
        ↔ base.NoTail ∧ Plain G joinResponse.roomId ∧ Plain G joinResponse.clientId))
    ∧ (∀ text names names', Addresses G base text names → Addresses G base text names' →
      names = names')
    ∧ (∀ roomServerUrl roomId clientId roomId' clientId', Plain G roomId → Plain G clientId →
      messageUrl roomServerUrl roomId clientId = messageUrl roomServerUrl roomId' clientId' →
      roomId = roomId' ∧ clientId = clientId')
    ∧ ∀ j j' : JoinResponse, j.wssPostUrl = j'.wssPostUrl → Plain G j.roomId → Plain G j.clientId →
      deleteUrl j = deleteUrl j' → j.roomId = j'.roomId ∧ j.clientId = j'.clientId := by
  have hjoin : Plain G "join" := plain_of_letters (by decide)
  have hmessage : Plain G "message" := plain_of_letters (by decide)
  refine ⟨?_, ?_, ?_, fun _ _ _ => addresses_unique, ?_, ?_⟩
  · intro roomId
    rw [joinRoomUrl_eq, joinUrl_addresses_iff]
    simp [hjoin]
  · intro roomId clientId
    rw [messageUrl_eq, joinUrl_addresses_iff]
    simp [hmessage]
  · intro joinResponse hbase hslash
    exact deleteUrl_addresses_iff G hbase hslash
  · intro roomServerUrl roomId clientId roomId' clientId' hr hc heq
    rw [messageUrl_eq, messageUrl_eq] at heq
    have hpath : pathText ["message"] ++ pathText [roomId, clientId]
        = pathText ["message"] ++ pathText [roomId', clientId'] := joinUrl_injective _ heq
    exact ids_unique hr hc (List.append_cancel_left hpath)
  · intro j j' hbase hr hc heq
    rw [deleteUrl_eq, deleteUrl_eq, hbase] at heq
    exact ids_unique hr hc (List.append_cancel_left heq)

/-- The default room server. -/
def apprtcUrl : Url where
  scheme := "https"
  authority := "appr.tc"
  path := []
  query := none
  fragment := none
  scheme_ok := ⟨by decide, delimiterFree (by decide)⟩
  authority_ok := ⟨by decide, delimiterFree (by decide)⟩
  path_ok := by simp
  query_ok := by simp

/-- A room and a client with the usual ids; behind a query they are told from others too. -/
theorem urls_address_usual :
    Addresses uriGrammar apprtcUrl (messageUrl "https://appr.tc" "room-1" "81230467")
        ["message", "room-1", "81230467"]
      ∧ ∀ roomId clientId : Text, messageUrl "https://appr.tc?v=1" "room-1" "81230467"
          = messageUrl "https://appr.tc?v=1" roomId clientId →
        "room-1" = roomId ∧ "81230467" = clientId := by
  obtain ⟨-, hmessage, -, -, hpairs, -⟩ := urls_address uriGrammar apprtcUrl
  refine ⟨(hmessage "room-1" "81230467").mpr ⟨by decide, by decide, by decide⟩, ?_⟩
  intro roomId clientId heq
  exact hpairs _ _ _ _ _ (by decide) (by decide) heq

/--
An id with a slash in it: the url to join is not that of the room, and two different pairs
have the same url to post to and to delete. A room called `..` is not one of its own either.
-/
theorem slash_addresses_other :
    ¬ Addresses uriGrammar apprtcUrl (joinRoomUrl "https://appr.tc" "a/b") ["join", "a/b"]
    ∧ ¬ Addresses uriGrammar apprtcUrl (joinRoomUrl "https://appr.tc" "..") ["join", ".."]
    ∧ messageUrl "https://appr.tc" "a/b" "c" = messageUrl "https://appr.tc" "a" "b/c"
    ∧ deleteUrl { wssPostUrl := "https://appr.tc", roomId := "a/b", clientId := "c" }
      = deleteUrl { wssPostUrl := "https://appr.tc", roomId := "a", clientId := "b/c" } := by
  have hno : ∀ roomId : Text, ¬ Plain uriGrammar roomId →
      ¬ Addresses uriGrammar apprtcUrl (joinRoomUrl apprtcUrl.text roomId) ["join", roomId] := by
    intro roomId hplain h
    rw [joinRoomUrl_eq, joinUrl_addresses_iff] at h
    exact hplain (h.2 roomId (by simp))
  exact ⟨hno "a/b" (by decide), hno ".." (by decide), rfl, rfl⟩

end ApprtcCli.Proof
