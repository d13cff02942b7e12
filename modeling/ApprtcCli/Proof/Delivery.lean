import ApprtcCli.Proof.Source

/-!
# What the sinks of a source hear

A source is its two machines side by side: its sink list is the one of
`Video/Broadcast.lean` and its decoder thread the one of `Video/Decode.lean`, each taking
the steps it could take by itself (`source_refines`).

Of each sink the history of the source says which frames it is due, those that were
broadcast while it was registered, and which it heard. A sink hears what it is due, in
order and once each, and is behind by one frame at most (`sinks_hear`). At the start and
the end of a pass it is not behind at all, so a sink that stays registered through a pass
without errors hears what the packets of the file yield (`pass_heard`).
-/

namespace ApprtcCli.Video

open Lib

variable {π φ σ ι ω : Type} {F : Ffmpeg π φ σ}

/-! ## What a round does -/

/-- What a round adds to the history of the thread: one action at most. -/
theorem read_log (t : DecodeLoop π φ σ) (readFails : Bool) :
    ∃ k, (t.read F.toClip readFails).log = t.log ++ k ∧ k.length ≤ 1 ∧ broadcasts k = [] := by
  have hsame : ∃ k, t.log = t.log ++ k ∧ k.length ≤ 1 ∧ broadcasts k = [] :=
    ⟨[], (List.append_nil _).symm, by simp, rfl⟩
  unfold DecodeLoop.read
  split
  · exact hsame
  · split
    · exact ⟨[.rewound false], rfl, by simp, rfl⟩
    · split
      · exact ⟨[.rewound true], rfl, by simp, rfl⟩
      · dsimp only
        split
        · unfold DecodeLoop.sendPacket
          split
          · exact hsame
          · exact ⟨[.sendFailed], rfl, by simp, rfl⟩
        · exact hsame

theorem receive_log (t : DecodeLoop π φ σ) :
    ∃ k, t.receive.log = t.log ++ k ∧ k.length ≤ 1 ∧ broadcasts k = t.received.toList := by
  unfold DecodeLoop.receive DecodeLoop.received
  cases hstop : t.stop with
  | true => exact ⟨[], (List.append_nil _).symm, by simp, rfl⟩
  | false =>
      cases hready : t.ready with
      | nil => exact ⟨[], (List.append_nil _).symm, by simp, rfl⟩
      | cons item ready =>
          cases item with
          | none => exact ⟨[.receiveFailed], rfl, by simp, rfl⟩
          | some frame => exact ⟨[.broadcast frame], rfl, by simp, rfl⟩

theorem advance_log {s : Source π φ σ ι ω} {t t' : DecodeLoop π φ σ} {k : List (DecodeAction φ)}
    (hk : t'.log = t.log ++ k) : (s.advance t t').log = s.log ++ k.map .decoded := by
  rw [Source.advance, hk, List.drop_left]

theorem decodedActions_append (log more : List (SourceAction φ ι)) :
    decodedActions (log ++ more) = decodedActions log ++ decodedActions more :=
  List.filterMap_append ..

theorem copiedFrames_append (log more : List (SourceAction φ ι)) :
    copiedFrames (log ++ more) = copiedFrames log ++ copiedFrames more :=
  List.filterMap_append ..

theorem broadcasts_append (pass more : List (DecodeAction φ)) :
    broadcasts (pass ++ more) = broadcasts pass ++ broadcasts more :=
  List.filterMap_append ..

theorem decodedActions_decoded (k : List (DecodeAction φ)) :
    decodedActions (k.map (.decoded : _ → SourceAction φ ι)) = k := by
  induction k with
  | nil => rfl
  | cons a k ih => exact congrArg (a :: ·) ih

theorem copiedFrames_decoded (k : List (DecodeAction φ)) :
    copiedFrames (k.map (.decoded : _ → SourceAction φ ι)) = [] := by
  induction k with
  | nil => rfl
  | cons a k ih => exact ih

/-! ## What is not delivered yet -/

theorem undelivered_none {s : FileVideoSource ι ω} (hb : s.broadcast = none) :
    s.undelivered = [] := by
  rw [FileVideoSource.undelivered, hb]
  rfl

theorem undelivered_some {s : FileVideoSource ι ω} {rest : List (SinkEntry ι ω)}
    (hb : s.broadcast = some rest) : s.undelivered = rest := by
  rw [FileVideoSource.undelivered, hb]
  rfl

/-! ## The two machines -/

/-- The sink list of a source, and a thread with its history, are reached by themselves. -/
structure Refines [DecidableEq ι] (F : Ffmpeg π φ σ) (s : Source π φ σ ι ω) : Prop where
  sinks : Reachable step {} s.sinks
  thread : ∃ t, Reachable (decodeStep F.toClip) (DecodeLoop.start F.toClip) t
    ∧ t.log = decodedActions s.log ∧ ∀ t', s.decoderThread = some t' → t' = t
  undecoded : s.place = .constructed → decodedActions s.log = []

variable [DecidableEq ι]

theorem refines_init : Refines F ({} : Source π φ σ ι ω) where
  sinks := Reachable.init
  thread := ⟨_, Reachable.init, rfl, fun _ h => by cases h⟩
  undecoded _ := rfl

/-- The thread of a source is the one with its history. -/
theorem Refines.current {s : Source π φ σ ι ω} (h : Refines F s) {t : DecodeLoop π φ σ}
    (ht : s.decoderThread = some t) :
    Reachable (decodeStep F.toClip) (DecodeLoop.start F.toClip) t
      ∧ t.log = decodedActions s.log := by
  obtain ⟨t', hreach, hlog, hcurrent⟩ := h.thread
  rw [hcurrent t ht]
  exact ⟨hreach, hlog⟩

/-- The thread has gone a round of its loop. -/
theorem Refines.round {s s' : Source π φ σ ι ω} (h : Refines F s) {t t' : DecodeLoop π φ σ}
    {k : List (DecodeAction φ)} (readFails : Bool) (hp : s'.place ≠ .constructed)
    (hsinks : s'.sinks = s.sinks) (ht : s.decoderThread = some t)
    (ht' : s'.decoderThread = some t')
    (hstep : decodeStep F.toClip t (.round readFails) = some t') (hk : t'.log = t.log ++ k)
    (hlog : s'.log = s.log ++ k.map .decoded) : Refines F s' := by
  obtain ⟨hreach, hsame⟩ := h.current ht
  refine ⟨hsinks ▸ h.sinks, ⟨t', hreach.next hstep, ?_, fun t₁ ht₁ => ?_⟩, fun hc => absurd hc hp⟩
  · rw [hk, hlog, decodedActions_append, decodedActions_decoded, hsame]
  · rw [ht'] at ht₁
    cases ht₁
    rfl

/-- Something other than the thread has gone on. -/
theorem Refines.still {s s' : Source π φ σ ι ω} (h : Refines F s)
    (hsinks : Reachable step {} s'.sinks)
    (hplace : s'.place = .constructed → s.place = .constructed)
    (hthread : ∀ t, s'.decoderThread = some t → s.decoderThread = some t)
    (hlog : decodedActions s'.log = decodedActions s.log) : Refines F s' := by
  obtain ⟨t, hreach, hsame, hcurrent⟩ := h.thread
  refine ⟨hsinks, ⟨t, hreach, hlog ▸ hsame, fun t' ht' => hcurrent t' (hthread t' ht')⟩, ?_⟩
  intro hc
  rw [hlog]
  exact h.undecoded (hplace hc)

theorem refines_thread {s s' : Source π φ σ ι ω} {t : DecodeLoop π φ σ} (hsafe : Safe s)
    (h : Refines F s) (ht : s.decoderThread = some t) (hs : ThreadMove F s t s') :
    Refines F s' := by
  have hplace : s.place ≠ .constructed := fun hc => by
    rw [(hsafe.constructed hc).2] at ht
    cases ht
  have hlog : ∀ a : SourceAction φ ι, decodedActions [a] = [] →
      decodedActions (s.log ++ [a]) = decodedActions s.log := by
    intro a ha
    rw [decodedActions_append, ha, List.append_nil]
  cases hs with
  | read readFails hf hp =>
      obtain ⟨k, hk, -, -⟩ := read_log (F := F) t readFails
      exact h.round readFails hplace rfl ht rfl (by simp only [decodeStep, hp]) hk
        (advance_log hk)
  | receive hf hp =>
      obtain ⟨k, hk, -, -⟩ := receive_log t
      exact h.round false hplace rfl ht rfl (by simp only [decodeStep, hp]) hk
        (advance_log hk)
  | copy frame hf hb =>
      refine h.still (h.sinks.next (e := .copySinks) ?_) id (fun _ => id) (hlog _ rfl)
      simp only [step, FileVideoSource.copySinks, hb]
  | done frame hf hb =>
      refine h.still (h.sinks.next (e := .deliver) ?_) id (fun _ => id) rfl
      simp only [step, FileVideoSource.deliver, hb]
  | skip frame wants rest hf hb =>
      refine h.still (h.sinks.next (e := .deliver) ?_) id (fun _ => id) rfl
      simp only [step, FileVideoSource.deliver, hb]
  | call frame sink wants rest hf hb =>
      refine h.still (h.sinks.next (e := .deliver) ?_) id (fun _ => id) (hlog _ rfl)
      simp only [step, FileVideoSource.deliver, hb]

theorem refines_move {s s' : Source π φ σ ι ω} (hsafe : Safe s) (h : Refines F s)
    (hs : SourceMove F s s') : Refines F s' := by
  cases hs with
  | start hp =>
      obtain ⟨hplace, hsinks, -, hlog, hthread⟩ := start_rest (F := F) hsafe hp
      refine ⟨hsinks ▸ h.sinks, ⟨_, Reachable.init, ?_, hthread⟩, fun hc => ?_⟩
      · rw [hlog, h.undecoded hp]
        rfl
      · rw [hplace] at hc
        cases hc
  | destroy hh =>
      unfold Source.destroy
      split
      · exact h.still h.sinks (fun hc => by cases hc) (fun t ht => by cases ht) rfl
      · rename_i t ht
        obtain ⟨hreach, hsame⟩ := h.current ht
        refine ⟨h.sinks, ⟨_, hreach.next (e := .stop) rfl, hsame, fun t' ht' => ?_⟩,
          fun hc => by cases hc⟩
        cases ht'
        rfl
  | joined => exact h.still h.sinks (fun hc => by cases hc) (fun t ht => by cases ht) rfl
  | thread t ht hm => exact refines_thread hsafe h ht hm
  | add sink wants =>
      refine h.still (h.sinks.next (e := .addOrUpdateSink sink wants) rfl) id (fun _ => id) ?_
      rw [decodedActions_append]
      exact List.append_nil _
  | remove sink =>
      refine h.still (h.sinks.next (e := .removeSink sink) rfl) id (fun _ => id) ?_
      rw [decodedActions_append]
      exact List.append_nil _

theorem refines_reachable {s : Source π φ σ ι ω} (h : Reachable (sourceStep F) {} s) :
    Refines F s :=
  h.invariant refines_init fun _ _ _ hr hi hs =>
    refines_move (safe_reachable hr) hi (sourceStep_move hs)

/-! ## What a sink is due -/

/-- What the broadcast in progress still owes a sink. -/
def Source.pending (s : Source π φ σ ι ω) (sink : ι) : List φ :=
  s.sinks.undelivered.filterMap fun entry => if entry.sink = some sink then s.frame else none

theorem pending_none {s : Source π φ σ ι ω} (h : s.sinks.undelivered = []) (sink : ι) :
    s.pending sink = [] := by
  rw [Source.pending, h]
  rfl

/-- The frame that was received and is not copied to the sinks yet. -/
def Source.uncopied (s : Source π φ σ ι ω) : List φ :=
  match s.sinks.broadcast with
  | none => s.frame.toList
  | some _ => []

/-- Every frame that was decoded was broadcast, and every sink has heard what it is due. -/
def CaughtUp (log : List (SourceAction φ ι)) : Prop :=
  broadcasts (decodedActions log) = copiedFrames log
    ∧ ∀ sink, (audience sink log).heard = (audience sink log).due

/-- The thread goes on decoding once a frame was delivered. -/
def DecodeLaw (before : List (SourceAction φ ι)) : SourceAction φ ι → Prop
  | .decoded _ => CaughtUp before
  | _ => True

/-- What the sinks have got of what was broadcast. -/
structure Delivering (s : Source π φ σ ι ω) : Prop where
  distinct : (s.sinks.sinks.map (·.sink)).Nodup
  copy : (s.sinks.undelivered.map (·.sink)).Nodup
  broadcast : s.frame = none → s.sinks.broadcast = none
  registered : ∀ sink,
    (audience sink s.log).registered = true ↔ some sink ∈ s.sinks.sinks.map (·.sink)
  due : ∀ sink, (audience sink s.log).due = (audience sink s.log).heard ++ s.pending sink
  copied : broadcasts (decodedActions s.log) = copiedFrames s.log ++ s.uncopied
  law : Trail DecodeLaw s.log

theorem audience_concat (sink : ι) (log : List (SourceAction φ ι)) (a : SourceAction φ ι) :
    audience sink (log ++ [a]) = (audience sink log).after sink a := List.foldl_concat ..

theorem audience_decoded (sink : ι) (log : List (SourceAction φ ι))
    (k : List (DecodeAction φ)) :
    audience sink (log ++ k.map .decoded) = audience sink log := by
  rw [audience, List.foldl_append]
  induction k with
  | nil => rfl
  | cons a k ih => exact ih

theorem delivering_init : Delivering ({} : Source π φ σ ι ω) where
  distinct := List.nodup_nil
  copy := List.nodup_nil
  broadcast _ := rfl
  registered sink := by simp [audience]
  due _ := rfl
  copied := rfl
  law := trail_nil _

/-- A known sink keeps its place, a new one goes last. -/
theorem map_addOrUpdate (sink : Option ι) (wants : ω) (l : List (SinkEntry ι ω)) :
    (addOrUpdate sink wants l).map (·.sink)
      = if sink ∈ l.map (·.sink) then l.map (·.sink) else l.map (·.sink) ++ [sink] := by
  induction l with
  | nil => rfl
  | cons entry l ih =>
      rw [addOrUpdate]
      by_cases h : entry.sink = sink
      · simp [h]
      · rw [if_neg h, List.map_cons, ih]
        by_cases hmem : sink ∈ l.map (·.sink)
        · simp only [List.map_cons, List.mem_cons, hmem, or_true, if_true]
        · simp only [List.map_cons, List.mem_cons, hmem, or_false, if_false, Ne.symm h,
            List.cons_append]

/-- Of entries for different sinks, one at most is for this one. -/
theorem owed_once {l : List (SinkEntry ι ω)} (h : (l.map (·.sink)).Nodup) (sink : ι)
    (frame : φ) :
    (l.filterMap fun entry => if entry.sink = some sink then some frame else none)
      = if some sink ∈ l.map (·.sink) then [frame] else [] := by
  induction l with
  | nil => rfl
  | cons entry l ih =>
      obtain ⟨hnew, hl⟩ := List.nodup_cons.mp h
      rw [List.filterMap_cons, ih hl]
      by_cases he : entry.sink = some sink
      · have hnew' : some sink ∉ l.map (·.sink) := he ▸ hnew
        rw [if_pos he, if_neg hnew', if_pos (by simp [he])]
      · simp [he, Ne.symm he]

/-- A source between two frames has nothing under way. -/
theorem Delivering.caughtUp {s : Source π φ σ ι ω} (h : Delivering s) (hf : s.frame = none) :
    CaughtUp s.log := by
  have hb := h.broadcast hf
  refine ⟨?_, fun sink => ?_⟩
  · rw [h.copied, Source.uncopied, hb, hf]
    exact List.append_nil _
  · rw [h.due, pending_none (undelivered_none hb)]
    exact (List.append_nil _).symm

/-- The thread has gone a round; what it received is not copied yet. -/
theorem Delivering.round {s s' : Source π φ σ ι ω} (h : Delivering s) (hf : s.frame = none)
    {k : List (DecodeAction φ)} (hone : k.length ≤ 1) (hsinks : s'.sinks = s.sinks)
    (hlog : s'.log = s.log ++ k.map .decoded) (hk : broadcasts k = s'.frame.toList) :
    Delivering s' := by
  have hb := h.broadcast hf
  have hcaught := h.caughtUp hf
  refine ⟨hsinks ▸ h.distinct, hsinks ▸ h.copy, fun _ => hsinks ▸ hb, fun sink => ?_,
    fun sink => ?_, ?_, ?_⟩
  · rw [hlog, hsinks, audience_decoded]
    exact h.registered sink
  · rw [hlog, audience_decoded, ← hcaught.2 sink, pending_none (undelivered_none (hsinks ▸ hb))]
    exact (List.append_nil _).symm
  · rw [hlog, decodedActions_append, copiedFrames_append, decodedActions_decoded,
      copiedFrames_decoded, List.append_nil, ← hcaught.1, Source.uncopied, hsinks, hb]
    dsimp only
    rw [← hk, broadcasts_append]
  · rw [hlog]
    cases k with
    | nil =>
        rw [List.map_nil, List.append_nil]
        exact h.law
    | cons a k =>
        obtain rfl : k = [] := List.length_eq_zero_iff.mp (by simpa using hone)
        exact trail_concat.mpr ⟨h.law, hcaught⟩

/-- While there is a copy, all that was decoded is copied. -/
theorem Delivering.allCopied {s : Source π φ σ ι ω} (h : Delivering s)
    {rest : List (SinkEntry ι ω)} (hb : s.sinks.broadcast = some rest) :
    broadcasts (decodedActions s.log) = copiedFrames s.log := by
  have hcopied := h.copied
  rwa [Source.uncopied, hb, List.append_nil] at hcopied

/-- The sinks of the moment are due the frame. -/
theorem Delivering.copying {s : Source π φ σ ι ω} (h : Delivering s) {frame : φ}
    (hf : s.frame = some frame) (hb : s.sinks.broadcast = none) :
    Delivering { s with
      sinks := { s.sinks with broadcast := some s.sinks.sinks }
      log := s.log ++ [.copied frame] } := by
  refine ⟨h.distinct, h.distinct, fun hno => ?_, fun sink => ?_, fun sink => ?_, ?_,
    trail_concat.mpr ⟨h.law, trivial⟩⟩
  · exact absurd hno (by rw [hf]; simp)
  · rw [audience_concat, ← h.registered sink]
    simp only [Audience.after]
    split <;> rfl
  · have hdue := h.due sink
    rw [pending_none (undelivered_none hb), List.append_nil] at hdue
    have howed := owed_once h.distinct sink frame
    simp only [Source.pending, FileVideoSource.undelivered, Option.getD_some, hf, howed,
      audience_concat, Audience.after, ← h.registered sink]
    by_cases hreg : (audience sink s.log).registered = true
    · simp only [hreg, if_true, hdue]
    · simp only [hreg, if_false, hdue, List.append_nil, Bool.false_eq_true]
  · have hcopied := h.copied
    rw [Source.uncopied, hb, hf] at hcopied
    rw [decodedActions_append, copiedFrames_append, Source.uncopied]
    simpa [decodedActions, copiedFrames] using hcopied

/-- The next sink of the copy hears the frame it is due. -/
theorem Delivering.calling {s : Source π φ σ ι ω} (h : Delivering s) {frame : φ} {sink : ι}
    {wants : ω} {rest : List (SinkEntry ι ω)} (hf : s.frame = some frame)
    (hb : s.sinks.broadcast = some (⟨some sink, wants⟩ :: rest)) :
    Delivering { s with
      sinks := { s.sinks with broadcast := some rest, log := s.sinks.log ++ [.onFrame sink] }
      frame := some frame
      log := s.log ++ [.onFrame sink frame] } := by
  have hu := undelivered_some hb
  have hcopy := h.copy
  rw [hu] at hcopy
  refine ⟨h.distinct, (List.nodup_cons.mp hcopy).2, fun hno => (by cases hno), fun other => ?_,
    fun other => ?_, ?_, trail_concat.mpr ⟨h.law, trivial⟩⟩
  · rw [audience_concat, ← h.registered other]
    simp only [Audience.after]
    split <;> rfl
  · have hdue := h.due other
    rw [Source.pending, hu, hf] at hdue
    simp only [Source.pending, FileVideoSource.undelivered, Option.getD_some, audience_concat,
      Audience.after]
    by_cases heq : sink = other
    · subst heq
      simpa using hdue
    · simpa [heq] using hdue
  · rw [decodedActions_append, copiedFrames_append, Source.uncopied]
    simpa [decodedActions, copiedFrames] using h.allCopied hb

theorem delivering_thread {s s' : Source π φ σ ι ω} {t : DecodeLoop π φ σ} (h : Delivering s)
    (hs : ThreadMove F s t s') : Delivering s' := by
  cases hs with
  | read readFails hf hp =>
      obtain ⟨k, hk, hone, hnone⟩ := read_log (F := F) t readFails
      refine h.round hf hone rfl (advance_log hk) (hnone.trans ?_)
      show [] = s.frame.toList
      rw [hf]
      rfl
  | receive hf hp =>
      obtain ⟨k, hk, hone, hsome⟩ := receive_log t
      exact h.round hf hone rfl (advance_log hk) hsome
  | copy frame hf hb => exact h.copying hf hb
  | done frame hf hb =>
      refine ⟨h.distinct, List.nodup_nil, fun _ => rfl, h.registered, fun sink => ?_, ?_, h.law⟩
      · have hdue := h.due sink
        rwa [pending_none (undelivered_some hb)] at hdue
      · exact (h.allCopied hb).trans (List.append_nil _).symm
  | skip frame wants rest hf hb =>
      have hu := undelivered_some hb
      have hcopy := h.copy
      rw [hu] at hcopy
      refine ⟨h.distinct, (List.nodup_cons.mp hcopy).2, fun hno => (by cases hno), h.registered,
        fun sink => ?_, ?_, h.law⟩
      · have hdue := h.due sink
        rw [Source.pending, hu, hf] at hdue
        simpa [Source.pending, FileVideoSource.undelivered] using hdue
      · exact (h.allCopied hb).trans (List.append_nil _).symm
  | call frame sink wants rest hf hb => exact h.calling hf hb

/-- Sinks come and go, and what is under way is not touched. -/
theorem Delivering.listed {s s' : Source π φ σ ι ω} (h : Delivering s)
    {a : SourceAction φ ι} (hframe : s'.frame = s.frame)
    (hbroadcast : s'.sinks.broadcast = s.sinks.broadcast) (hlog : s'.log = s.log ++ [a])
    (hdecoded : decodedActions [a] = []) (hcopied : copiedFrames [a] = [])
    (hsame : ∀ sink (b : Audience φ), (b.after sink a).due = b.due
      ∧ (b.after sink a).heard = b.heard)
    (hlaw : DecodeLaw s.log a) (hdistinct : (s'.sinks.sinks.map (·.sink)).Nodup)
    (hreg : ∀ sink, ((audience sink s.log).after sink a).registered = true
      ↔ some sink ∈ s'.sinks.sinks.map (·.sink)) : Delivering s' where
  distinct := hdistinct
  copy := by
    rw [FileVideoSource.undelivered, hbroadcast]
    exact h.copy
  broadcast hf := by rw [hbroadcast, h.broadcast (hframe ▸ hf)]
  registered sink := by
    rw [hlog, audience_concat]
    exact hreg sink
  due sink := by
    rw [hlog, audience_concat, (hsame sink _).1, (hsame sink _).2, h.due, Source.pending,
      Source.pending, FileVideoSource.undelivered, FileVideoSource.undelivered, hbroadcast, hframe]
  copied := by
    rw [hlog, decodedActions_append, copiedFrames_append, hdecoded, hcopied, List.append_nil,
      List.append_nil, h.copied, Source.uncopied, Source.uncopied, hbroadcast, hframe]
  law := hlog ▸ trail_concat.mpr ⟨h.law, hlaw⟩

theorem delivering_add {s : Source π φ σ ι ω} (h : Delivering s) (sink : Option ι) (wants : ω) :
    Delivering { s with
      sinks := s.sinks.addOrUpdateSink sink wants, log := s.log ++ [.added sink] } := by
  have hmap := map_addOrUpdate sink wants s.sinks.sinks
  refine h.listed rfl rfl rfl rfl rfl (fun other b => ?_) trivial ?_ fun other => ?_
  · simp only [Audience.after]
    split <;> exact ⟨rfl, rfl⟩
  · show ((addOrUpdate sink wants s.sinks.sinks).map (·.sink)).Nodup
    rw [hmap]
    split
    · exact h.distinct
    · rename_i hnew
      exact List.nodup_append.mpr ⟨h.distinct, by simp, fun a ha b hb heq =>
        hnew (by rwa [← List.mem_singleton.mp hb, ← heq])⟩
  · show _ ↔ some other ∈ (addOrUpdate sink wants s.sinks.sinks).map (·.sink)
    rw [hmap]
    have hother := h.registered other
    simp only [Audience.after]
    by_cases heq : sink = some other
    · subst heq
      rw [if_pos rfl]
      refine ⟨fun _ => ?_, fun _ => rfl⟩
      split
      · assumption
      · exact List.mem_append_right _ (List.mem_singleton_self _)
    · rw [if_neg heq, hother]
      split
      · rfl
      · rw [List.mem_append, List.mem_singleton]
        exact ⟨Or.inl, fun hmem => hmem.resolve_right fun h => heq h.symm⟩

theorem delivering_remove {s : Source π φ σ ι ω} (h : Delivering s) (sink : Option ι) :
    Delivering { s with
      sinks := s.sinks.removeSink sink, log := s.log ++ [.removed sink] } := by
  have hmem : ∀ other, some other ∈ (s.sinks.removeSink sink).sinks.map (·.sink)
      ↔ some other ∈ s.sinks.sinks.map (·.sink) ∧ sink ≠ some other := by
    intro other
    simp only [FileVideoSource.removeSink, List.mem_map, List.mem_filter, decide_eq_true_eq]
    constructor
    · intro hlisted
      obtain ⟨entry, ⟨hentry, hne⟩, heq⟩ := hlisted
      exact ⟨⟨entry, hentry, heq⟩, fun hsink => hne (heq.trans hsink.symm)⟩
    · intro hlisted
      obtain ⟨⟨entry, hentry, heq⟩, hne⟩ := hlisted
      exact ⟨entry, ⟨hentry, fun hsink => hne (hsink.symm.trans heq)⟩, heq⟩
  refine h.listed rfl rfl rfl rfl rfl (fun other b => ?_) trivial ?_ fun other => ?_
  · simp only [Audience.after]
    split <;> exact ⟨rfl, rfl⟩
  · exact h.distinct.sublist (List.filter_sublist.map _)
  · refine Iff.trans ?_ (hmem other).symm
    have hother := h.registered other
    simp only [Audience.after]
    by_cases heq : sink = some other
    · simp [heq]
    · rw [if_neg heq, hother]
      exact (and_iff_left heq).symm

/-- The owner's calls touch neither the sinks nor the history. -/
theorem Delivering.kept {s s' : Source π φ σ ι ω} (h : Delivering s) (hsinks : s'.sinks = s.sinks)
    (hframe : s'.frame = s.frame) (hlog : s'.log = s.log) : Delivering s' := by
  obtain ⟨hdistinct, hcopy, hbroadcast, hreg, hdue, hcopied, hlaw⟩ := h
  simp only [Source.pending, Source.uncopied] at hdue hcopied
  rw [← hsinks] at hdistinct hcopy hbroadcast hdue hcopied
  rw [← hframe] at hbroadcast hdue hcopied
  rw [← hlog] at hdue hcopied hlaw
  refine ⟨hdistinct, hcopy, hbroadcast, fun sink => ?_, hdue, hcopied, hlaw⟩
  rw [hsinks, hlog]
  exact hreg sink

theorem delivering_move {s s' : Source π φ σ ι ω} (hsafe : Safe s) (h : Delivering s)
    (hs : SourceMove F s s') : Delivering s' := by
  cases hs with
  | start hp =>
      obtain ⟨-, hsinks, hframe, hlog, -⟩ := start_rest (F := F) hsafe hp
      exact h.kept hsinks hframe hlog
  | destroy =>
      unfold Source.destroy
      split <;> exact h.kept rfl rfl rfl
  | joined => exact h.kept rfl rfl rfl
  | thread t ht hm => exact delivering_thread h hm
  | add sink wants => exact delivering_add h sink wants
  | remove sink => exact delivering_remove h sink

theorem delivering_reachable {s : Source π φ σ ι ω} (h : Reachable (sourceStep F) {} s) :
    Delivering s :=
  h.invariant delivering_init fun _ _ _ hr hi hs =>
    delivering_move (safe_reachable hr) hi (sourceStep_move hs)

/-! ## What is relied on -/

/--
**A source is its two machines side by side**: whatever is interleaved, its sink list is one
that `Video/Broadcast.lean` reaches by itself, and its decoder thread, with all that was
decoded, one that `Video/Decode.lean` does.
-/
theorem source_refines {s : Source π φ σ ι ω} (h : Reachable (sourceStep F) {} s) :
    Reachable step {} s.sinks
      ∧ ∃ t, Reachable (decodeStep F.toClip) (DecodeLoop.start F.toClip) t
        ∧ t.log = decodedActions s.log ∧ ∀ t', s.decoderThread = some t' → t' = t :=
  ⟨(refines_reachable h).sinks, (refines_reachable h).thread⟩

/--
**A sink hears what it is due**: the frames that were broadcast while it was registered, in
order and once each. It is behind by one frame at most, and between two frames by none; and
by then every frame that was decoded was broadcast.
-/
theorem sinks_hear {s : Source π φ σ ι ω} (h : Reachable (sourceStep F) {} s) (sink : ι) :
    (audience sink s.log).heard <+: (audience sink s.log).due
      ∧ (audience sink s.log).due.length ≤ (audience sink s.log).heard.length + 1
      ∧ (s.frame = none → (audience sink s.log).heard = (audience sink s.log).due
        ∧ copiedFrames s.log = broadcasts (decodedActions s.log)) := by
  have hd := delivering_reachable h
  refine ⟨⟨s.pending sink, (hd.due sink).symm⟩, ?_, fun hf => ?_⟩
  · rw [hd.due, List.length_append]
    have hone : (s.pending sink).length ≤ 1 := by
      unfold Source.pending
      cases hf : s.frame with
      | none => simp
      | some frame =>
          rw [owed_once hd.copy]
          split <;> simp
    omega
  · obtain ⟨hcopied, hheard⟩ := hd.caughtUp hf
    exact ⟨hheard sink, hcopied.symm⟩

/-! ## A pass -/

/-- A pass begins here: sinks were registered so far, or the thread has just sought the start. -/
def PassStart (log : List (SourceAction φ ι)) : Prop :=
  (∀ a ∈ log, (∃ sink, a = .added sink) ∨ ∃ sink, a = .removed sink)
    ∨ ∃ front atEnd, log = front ++ [.decoded (.rewound atEnd)]

/-- The frames a sink was called with, in order. -/
def heardIn (sink : ι) (pass : List (SourceAction φ ι)) : List φ :=
  pass.filterMap fun
    | .onFrame other frame => if other = sink then some frame else none
    | _ => none

/-- What a sink that stays registered is due, and what it hears. -/
theorem audience_pass {sink : ι} {start pass : List (SourceAction φ ι)}
    (hreg : (audience sink start).registered = true) (hkeep : .removed (some sink) ∉ pass) :
    (audience sink (start ++ pass)).registered = true
      ∧ (audience sink (start ++ pass)).due = (audience sink start).due ++ copiedFrames pass
      ∧ (audience sink (start ++ pass)).heard
        = (audience sink start).heard ++ heardIn sink pass := by
  induction pass using List.reverseRecOn with
  | nil => simp [hreg, copiedFrames, heardIn]
  | append_singleton pass a ih =>
      rw [List.mem_append, List.mem_singleton, not_or] at hkeep
      obtain ⟨ih₁, ih₂, ih₃⟩ := ih hkeep.1
      rw [← List.append_assoc, audience_concat, copiedFrames_append, heardIn,
        List.filterMap_append, ← heardIn]
      cases a with
      | added other =>
          simp only [Audience.after]
          split <;> simp [ih₁, ih₂, ih₃, copiedFrames]
      | removed other =>
          have hne : other ≠ some sink := fun heq => hkeep.2 (by rw [heq])
          simp [Audience.after, hne, ih₁, ih₂, ih₃, copiedFrames]
      | decoded action => simp [Audience.after, ih₁, ih₂, ih₃, copiedFrames]
      | copied frame => simp [Audience.after, ih₁, ih₂, ih₃, copiedFrames]
      | onFrame other frame =>
          by_cases heq : other = sink <;>
            simp [Audience.after, heq, ih₁, ih₂, ih₃, copiedFrames]

/-- Where a pass begins, nothing is under way, and the thread has nothing of it yet. -/
theorem passStart_caughtUp {start : List (SourceAction φ ι)} (h : PassStart start)
    (hlaw : Trail DecodeLaw start) :
    CaughtUp start ∧ currentPass (decodedActions start) = [] := by
  rcases h with hlisted | ⟨front, atEnd, rfl⟩
  · have hnone : decodedActions start = [] ∧ copiedFrames start = []
        ∧ ∀ sink, (audience sink start).heard = [] ∧ (audience sink start).due = [] := by
      induction start using List.reverseRecOn with
      | nil => exact ⟨rfl, rfl, fun _ => ⟨rfl, rfl⟩⟩
      | append_singleton start a ih =>
          obtain ⟨hd, hc, ha⟩ := ih (trail_concat.mp hlaw).1
            fun b hb => hlisted b (List.mem_append_left _ hb)
          rw [decodedActions_append, copiedFrames_append, hd, hc]
          simp only [audience_concat]
          rcases hlisted a (by simp) with ⟨other, rfl⟩ | ⟨other, rfl⟩
          all_goals
            refine ⟨rfl, rfl, fun sink => ?_⟩
            simp only [Audience.after]
            split <;> exact ha sink
    obtain ⟨hd, hc, ha⟩ := hnone
    refine ⟨⟨by rw [hd, hc]; rfl, fun sink => (ha sink).1.trans (ha sink).2.symm⟩, ?_⟩
    rw [hd]
    rfl
  · obtain ⟨-, hcopied, hheard⟩ := trail_concat.mp hlaw
    refine ⟨⟨?_, fun sink => ?_⟩, ?_⟩
    · rw [decodedActions_append, copiedFrames_append, broadcasts_append, hcopied]
      rfl
    · rw [audience_concat]
      exact hheard sink
    · rw [decodedActions_append]
      exact currentPass_rewound _ atEnd

theorem currentPass_append (log : List (DecodeAction φ)) {pass : List (DecodeAction φ)}
    (h : ∀ atEnd, .rewound atEnd ∉ pass) : currentPass (log ++ pass) = currentPass log ++ pass := by
  induction pass using List.reverseRecOn with
  | nil => simp
  | append_singleton pass a ih =>
      rw [← List.append_assoc, currentPass_concat _ fun atEnd heq => h atEnd (by simp [heq]),
        ih fun atEnd hmem => h atEnd (List.mem_append_left _ hmem), List.append_assoc]

/-- The law of a pass, of any thread that is reached. -/
theorem passLaw_reachable {C : Clip π φ σ} {t : DecodeLoop π φ σ}
    (h : Reachable (decodeStep C) (DecodeLoop.start C) t) : Trail (PassLaw C) t.log := by
  have h0 : OnTrack C (DecodeLoop.start C) ∧ Trail (PassLaw C) (DecodeLoop.start C).log :=
    ⟨fun _ => Or.inr ⟨rfl, [], rfl, rfl⟩, trail_nil _⟩
  exact (h.invariant (I := fun t => OnTrack C t ∧ Trail (PassLaw C) t.log) h0
    fun _ _ _ _ hi hs => passLaw_step hi hs).2

/--
**A sink hears the whole of a pass.** It stays registered from the start of the pass to its
end, and nothing failed to be sent or received: it was called with what the packets of the
video stream yield, each frame once and in order.
-/
theorem pass_heard {s : Source π φ σ ι ω} (h : Reachable (sourceStep F) {} s)
    {start pass after : List (SourceAction φ ι)}
    (hlog : s.log = start ++ pass ++ .decoded (.rewound true) :: after)
    (hstart : PassStart start) (hpass : ∀ atEnd, .decoded (.rewound atEnd) ∉ pass)
    (hno : NoError (decodedActions pass)) {sink : ι}
    (hreg : (audience sink start).registered = true) (hkeep : .removed (some sink) ∉ pass) :
    ∃ codec, F.decoder.feed F.decoder.fresh (videoPackets F.toClip F.file)
      = some (codec, heardIn sink pass) := by
  have hlaw := (delivering_reachable h).law
  obtain ⟨hcaught, hbegun⟩ := passStart_caughtUp hstart
    (hlaw.of_front ⟨_, by rw [hlog, List.append_assoc]⟩)
  obtain ⟨hcopied, hheard⟩ : CaughtUp (start ++ pass) := hlaw _ _ after hlog
  -- what was decoded in the pass is what was broadcast in it
  rw [decodedActions_append, copiedFrames_append, broadcasts_append, hcaught.1] at hcopied
  have hbroadcast := List.append_cancel_left hcopied
  -- and what the sink heard in it
  obtain ⟨-, hdue', hheard'⟩ := audience_pass hreg hkeep
  have hall := hheard sink
  rw [hdue', hheard', hcaught.2 sink] at hall
  rw [List.append_cancel_left hall, ← hbroadcast]
  -- the thread has come to the end of that pass
  obtain ⟨t, hreach, hsame, -⟩ := (refines_reachable h).thread
  rw [hlog, decodedActions_append, decodedActions_append] at hsame
  have hnew : ∀ atEnd, .rewound atEnd ∉ decodedActions pass := fun atEnd hmem => by
    obtain ⟨a, ha, heq⟩ := List.mem_filterMap.mp hmem
    cases a <;> cases heq
    exact hpass atEnd ha
  have hcurrent : currentPass (decodedActions start ++ decodedActions pass)
      = decodedActions pass := by
    rw [currentPass_append _ hnew, hbegun, List.nil_append]
  have hfeed := passLaw_reachable hreach _ _ _ hsame rfl (hcurrent.symm ▸ hno)
  rwa [hcurrent] at hfeed

/-- What happens while the file is played once. -/
def playedPass : List (SourceAction Nat Nat) :=
  [.decoded (.broadcast 7), .copied 7, .onFrame 1 7, .decoded (.broadcast 9), .copied 9,
    .onFrame 1 9]

theorem playedLabels_exec :
    ∃ s, exec (sourceStep playedFile) {} playedLabels = some s ∧ s.frame = none
      ∧ s.log = [.added (some 1)] ++ playedPass ++ .decoded (.rewound true) :: [] :=
  ⟨_, rfl, rfl, rfl⟩

/-- So it is with the source that has played its file. -/
theorem source_refines_played :
    ∃ s, Reachable (sourceStep (ι := Nat) (ω := Unit) playedFile) {} s
      ∧ Reachable step {} s.sinks ∧ s.sinks.sinks.length = 1
      ∧ ∃ t, Reachable (decodeStep playedFile.toClip) (DecodeLoop.start playedFile.toClip) t
        ∧ t.log = decodedActions s.log := by
  obtain ⟨s, hs, hlen⟩ : ∃ s, exec (sourceStep playedFile) {} playedLabels = some s
      ∧ s.sinks.sinks.length = 1 := ⟨_, rfl, rfl⟩
  have hreach := Reachable.of_exec hs
  obtain ⟨hsinks, t, hthread, hlog, -⟩ := source_refines hreach
  exact ⟨s, hreach, hsinks, hlen, t, hthread, hlog⟩

/-- The sink has heard all it is due. -/
theorem sinks_hear_played :
    ∃ s, Reachable (sourceStep (ι := Nat) (ω := Unit) playedFile) {} s ∧ s.frame = none
      ∧ (audience 1 s.log).due = [7, 9]
      ∧ (audience 1 s.log).heard = (audience 1 s.log).due := by
  obtain ⟨s, hs, hf, hlog⟩ := playedLabels_exec
  have hreach := Reachable.of_exec hs
  exact ⟨s, hreach, hf, by rw [hlog]; rfl, ((sinks_hear hreach 1).2.2 hf).1⟩

/-- The sink has heard the whole file. -/
theorem pass_heard_played :
    heardIn 1 playedPass = [7, 9] ∧ ∃ codec, promptDecoder.feed promptDecoder.fresh
      (videoPackets mixedClip mixedClip.file) = some (codec, heardIn 1 playedPass) := by
  obtain ⟨s, hs, -, hlog⟩ := playedLabels_exec
  refine ⟨rfl, pass_heard (Reachable.of_exec hs) hlog (Or.inl ?_) ?_ ?_ rfl (by decide)⟩
  · intro a ha
    exact Or.inl ⟨some 1, List.mem_singleton.mp ha⟩
  · intro atEnd
    cases atEnd <;> decide
  · constructor <;> decide

end ApprtcCli.Video
