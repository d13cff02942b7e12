import ApprtcCli.Lib.Execution
import ApprtcCli.Video.Source

/-!
# A source, from `Start` to its destructor

What holds of a source in any interleaving of its owner, its decoder thread and whoever
registers sinks. Each step is one of a few moves (`SourceMove`), and everything else is
derived from these: what FFmpeg allocated is used while it is there and freed once, at
whichever call `Start` failed (`source_tidy`), and the destructor returns
(`destructor_returns`).
-/

namespace ApprtcCli.Video

open Lib

variable {π φ σ ι ω : Type} {F : Ffmpeg π φ σ}

/-! ## What a step of the thread does -/

variable (F) in
/-- The steps of the decoder thread. -/
inductive ThreadMove (s : Source π φ σ ι ω) (t : DecodeLoop π φ σ) : Source π φ σ ι ω → Prop where
  | read (readFails : Bool) (hf : s.frame = none) (hp : t.place = .reading) :
      ThreadMove s t ((s.calls (t.readCalls F readFails)).advance t (t.read F.toClip readFails))
  | receive (hf : s.frame = none) (hp : t.place = .receiving) :
      ThreadMove s t { (s.calls t.receiveCalls).advance t t.receive with frame := t.received }
  | copy (frame : φ) (hf : s.frame = some frame) (hb : s.sinks.broadcast = none) :
      ThreadMove s t
        { s with
          sinks := { s.sinks with broadcast := some s.sinks.sinks }
          log := s.log ++ [.copied frame] }
  | done (frame : φ) (hf : s.frame = some frame) (hb : s.sinks.broadcast = some []) :
      ThreadMove s t { s with sinks := { s.sinks with broadcast := none }, frame := none }
  | skip (frame : φ) (wants : ω) (rest : List (SinkEntry ι ω)) (hf : s.frame = some frame)
      (hb : s.sinks.broadcast = some (⟨none, wants⟩ :: rest)) :
      ThreadMove s t
        { s with sinks := { s.sinks with broadcast := some rest }, frame := some frame }
  | call (frame : φ) (sink : ι) (wants : ω) (rest : List (SinkEntry ι ω))
      (hf : s.frame = some frame) (hb : s.sinks.broadcast = some (⟨some sink, wants⟩ :: rest)) :
      ThreadMove s t
        { s with
          sinks := { s.sinks with
            broadcast := some rest, log := s.sinks.log ++ [.onFrame sink] }
          frame := some frame
          log := s.log ++ [.onFrame sink frame] }

theorem goOn_move {s s' : Source π φ σ ι ω} {t : DecodeLoop π φ σ} {readFails : Bool}
    (hs : s.goOn F t readFails = some s') : ThreadMove F s t s' := by
  unfold Source.goOn at hs
  split at hs
  · rename_i hf
    unfold Source.round at hs
    split at hs
    · rename_i hp
      cases hs
      exact .read readFails hf hp
    · rename_i hp
      cases hs
      exact .receive hf hp
    · cases hs
  · rename_i frame hf hb
    simp only [Source.copySinks, FileVideoSource.copySinks, hb, Option.map_some] at hs
    cases hs
    exact .copy frame hf hb
  · rename_i frame l hf hb
    simp only [Source.deliver, FileVideoSource.deliver, Source.delivery, hf, hb] at hs
    cases l with
    | nil =>
        cases hs
        rw [List.append_nil]
        exact .done frame hf hb
    | cons entry rest =>
        obtain ⟨sink, wants⟩ := entry
        cases sink with
        | none =>
            cases hs
            rw [List.append_nil]
            exact .skip frame wants rest hf hb
        | some sink =>
            cases hs
            exact .call frame sink wants rest hf hb

variable (F) in
/-- The steps of a source. -/
inductive SourceMove [DecidableEq ι] (s : Source π φ σ ι ω) : Source π φ σ ι ω → Prop where
  | start (hp : s.place = .constructed) : SourceMove s (s.start F).1
  | destroy (hh : s.held = true) : SourceMove s s.destroy
  | joined (t : DecodeLoop π φ σ) (hp : s.place = .joining) (ht : s.decoderThread = some t)
      (hr : t.place = .returned) : SourceMove s s.finish
  | thread (t : DecodeLoop π φ σ) {s' : Source π φ σ ι ω} (ht : s.decoderThread = some t)
      (hm : ThreadMove F s t s') : SourceMove s s'
  | add (sink : Option ι) (wants : ω) (hh : s.held = true) :
      SourceMove s
        { s with sinks := s.sinks.addOrUpdateSink sink wants, log := s.log ++ [.added sink] }
  | remove (sink : Option ι) (hh : s.held = true) :
      SourceMove s { s with sinks := s.sinks.removeSink sink, log := s.log ++ [.removed sink] }

theorem sourceStep_move [DecidableEq ι] {s s' : Source π φ σ ι ω} {l : SourceLabel ι ω}
    (hs : sourceStep F s l = some s') : SourceMove F s s' := by
  cases l with
  | start =>
      simp only [sourceStep, Option.ite_none_right_eq_some] at hs
      cases hs.2
      exact .start hs.1
  | destructor =>
      simp only [sourceStep, Option.ite_none_right_eq_some] at hs
      cases hs.2
      exact .destroy hs.1
  | joined =>
      simp only [sourceStep, Source.joined] at hs
      split at hs
      · rename_i t hp ht
        simp only [Option.ite_none_right_eq_some] at hs
        cases hs.2
        exact .joined t hp ht hs.1
      · cases hs
  | thread readFails =>
      obtain ⟨t, ht, hgo⟩ := Option.bind_eq_some_iff.mp hs
      exact .thread t ht (goOn_move hgo)
  | addOrUpdateSink sink wants =>
      simp only [sourceStep, Option.ite_none_right_eq_some] at hs
      cases hs.2
      exact .add sink wants hs.1
  | removeSink sink =>
      simp only [sourceStep, Option.ite_none_right_eq_some] at hs
      cases hs.2
      exact .remove sink hs.1

/-! ## What FFmpeg allocated -/

/-- What a source that is live holds. -/
def ready : Pointer → Bool
  | .packetData => false
  | _ => true

/-- A round of the outer loop leaves the packet blank. -/
theorem readCalls_ready (t : DecodeLoop π φ σ) (readFails : Bool) :
    permitted ready (t.readCalls F readFails) = true
      ∧ heldAfter ready (t.readCalls F readFails) = ready := by
  unfold DecodeLoop.readCalls
  split
  · exact ⟨rfl, rfl⟩
  · split
    · exact ⟨rfl, rfl⟩
    · exact ⟨rfl, rfl⟩
    · split
      all_goals exact ⟨rfl, by funext k; cases k <;> rfl⟩

theorem receiveCalls_ready (t : DecodeLoop π φ σ) :
    permitted ready t.receiveCalls = true ∧ heldAfter ready t.receiveCalls = ready := by
  unfold DecodeLoop.receiveCalls
  split
  · exact ⟨rfl, rfl⟩
  · split
    all_goals exact ⟨rfl, rfl⟩

/-- Calls that leave held what was held. -/
theorem holding_calls {o : Owner Pointer} {ops : List (HandleOp Pointer)} (h : Holding o ready)
    (hops : permitted ready ops = true ∧ heldAfter ready ops = ready) :
    Holding (o.run ops) ready := by
  have hrun := h.run ops hops.1
  rwa [hops.2] at hrun

/-- What is held is freed; the data of the packet was given back before. -/
theorem holding_cleanup {s : Source π φ σ ι ω} {held : Pointer → Bool}
    (h : Holding s.ffmpeg held) (hblank : held .packetData = false) :
    Holding s.cleanupDecoder.ffmpeg fun _ => false := by
  have hfree := h.release [.packet, .decodedFrame, .codecContext, .formatContext, .swsContext]
    (by decide)
  refine ⟨hfree.tidy, hfree.holds.trans (funext fun k => ?_)⟩
  cases k with
  | packetData => rw [hblank]; rfl
  | _ => exact Bool.and_false _

/-- Whatever of the source FFmpeg has no part in. -/
def Source.rest (s : Source π φ σ ι ω) :
    SourcePlace × SourceState × FileVideoSource ι ω × Option (DecodeLoop π φ σ) × Option φ
      × List (SourceAction φ ι) :=
  (s.place, s.state, s.sinks, s.decoderThread, s.frame, s.log)

/-- Within `InitializeDecoder`: what it holds, and that nothing else has changed. -/
structure Opening (s s' : Source π φ σ ι ω) (held : Pointer → Bool) : Prop where
  held : Holding s'.ffmpeg held
  rest : s'.rest = s.rest

theorem Opening.calls {s s' : Source π φ σ ι ω} {held : Pointer → Bool} (h : Opening s s' held)
    (ops : List (HandleOp Pointer)) (hops : permitted held ops = true) :
    Opening s (s'.calls ops) (heldAfter held ops) :=
  ⟨h.held.run ops hops, h.rest⟩

theorem Opening.index {s s' : Source π φ σ ι ω} {held : Pointer → Bool} (h : Opening s s' held)
    (index : Int) : Opening s (s'.setVideoStreamIndex index) held := ⟨h.held, h.rest⟩

theorem Opening.dimensions {s s' : Source π φ σ ι ω} {held : Pointer → Bool}
    (h : Opening s s' held) (width height : Int) :
    Opening s (s'.setDimensions width height) held := ⟨h.held, h.rest⟩

/-- What `InitializeDecoder` leaves. -/
structure Opened (s : Source π φ σ ι ω) (result : Source π φ σ ι ω × Status) : Prop where
  held : ∃ held, Holding result.1.ffmpeg held ∧ held .packetData = false
  live : result.2 = okStatus →
    Holding result.1.ffmpeg ready ∧ 0 < result.1.width ∧ 0 < result.1.height
  rest : result.1.rest = s.rest

/-- A check of `InitializeDecoder`, where it may return. -/
theorem Opening.check {s s' : Source π φ σ ι ω} {held : Pointer → Bool} (h : Opening s s' held)
    (hblank : held .packetData = false) {fails : Prop} [Decidable fails] {e : Error}
    {result : Source π φ σ ι ω × Status} (hgoes : ¬ fails → Opened s result) :
    Opened s (if fails then (s', .error e) else result) := by
  by_cases hfails : fails
  · rw [if_pos hfails]
    exact ⟨⟨held, h.held, hblank⟩, (fun hok => by cases hok), h.rest⟩
  · rw [if_neg hfails]
    exact hgoes hfails

/-- Wherever `InitializeDecoder` returns, it keeps what it got so far. -/
theorem opened_initializeDecoder {s : Source π φ σ ι ω} (h : Holding s.ffmpeg fun _ => false) :
    Opened s (s.initializeDecoder F) := by
  have h₀ : Opening s s fun _ => false := ⟨h, rfl⟩
  have h₁ := h₀.calls [.acquire .formatContext, .use .formatContext] rfl
  have h₂ := (h₁.calls [.use .formatContext] rfl).index F.videoStreamIndex
  have h₃ := h₂.calls [.use .formatContext] rfl
  have h₄ := h₃.calls [.acquire .codecContext, .use .codecContext, .use .formatContext] rfl
  have h₅ := h₄.calls [.use .codecContext] rfl
  have h₆ := h₅.calls (if F.frameAlloc then [.acquire .decodedFrame] else []) (by split <;> rfl)
  have h₇ := h₆.calls (if F.packetAlloc then [.acquire .packet] else [])
    (by cases F.frameAlloc <;> cases F.packetAlloc <;> rfl)
  unfold Source.initializeDecoder
  refine h₀.check rfl fun _ => ?_
  refine h₁.check rfl fun _ => ?_
  refine h₂.check rfl fun _ => ?_
  refine h₃.check rfl fun _ => ?_
  refine h₃.check rfl fun _ => ?_
  refine h₄.check rfl fun _ => ?_
  refine h₅.check rfl fun _ => ?_
  refine h₇.check (by cases F.frameAlloc <;> cases F.packetAlloc <;> rfl) fun halloc => ?_
  -- both were allocated
  rw [not_or, Bool.not_eq_false, Bool.not_eq_false] at halloc
  rw [halloc.1, halloc.2] at h₇ ⊢
  have h₈ := (h₇.calls [.use .codecContext] rfl).dimensions F.width F.height
  have h₉ := h₈.calls [.use .codecContext] rfl
  have h₁₀ := h₉.calls [.acquire .swsContext, .use .formatContext] rfl
  refine h₈.check rfl fun hdims => ?_
  refine h₉.check rfl fun _ => ?_
  refine ⟨⟨_, h₁₀.held, rfl⟩, fun _ => ⟨⟨h₁₀.held.tidy, ?_⟩, ?_⟩, h₁₀.rest⟩
  · exact h₁₀.held.holds.trans (funext fun k => by cases k <;> rfl)
  · show 0 < F.width ∧ 0 < F.height
    omega

/-- What is held, wherever the owner and the thread are. -/
structure Safe (s : Source π φ σ ι ω) : Prop where
  held : ∃ held, Holding s.ffmpeg held ∧ held .packetData = false
  constructed : s.place = .constructed →
    Holding s.ffmpeg (fun _ => false) ∧ s.decoderThread = none
  thread : s.decoderThread.isSome = true →
    Holding s.ffmpeg ready ∧ (s.place = .started ∨ s.place = .joining)
  joining : s.place = .joining → s.decoderThread.isSome = true
  destroyed : s.place = .destroyed → Holding s.ffmpeg fun _ => false
  live : s.state = .live → 0 < s.width ∧ 0 < s.height

theorem safe_init : Safe ({} : Source π φ σ ι ω) where
  held := ⟨_, ⟨tidy_empty, rfl⟩, rfl⟩
  constructed _ := ⟨⟨tidy_empty, rfl⟩, rfl⟩
  thread h := by cases h
  joining h := by cases h
  destroyed h := by cases h
  live h := by cases h

theorem safe_start {s : Source π φ σ ι ω} (h : Safe s) (hp : s.place = .constructed) :
    Safe (s.start F).1 := by
  obtain ⟨hnone, hthread⟩ := h.constructed hp
  have hopened := opened_initializeDecoder (F := F) hnone
  unfold Source.start
  generalize s.initializeDecoder F = result at hopened
  obtain ⟨s', status⟩ := result
  obtain ⟨hheld, hlive, hrest⟩ := hopened
  have hthread' : s'.decoderThread = none :=
    (congrArg (fun rest => rest.2.2.2.1) hrest).trans hthread
  cases status with
  | error e =>
      refine ⟨hheld, (fun hc => by cases hc), fun ht => ?_, (fun hc => by cases hc),
        (fun hc => by cases hc), fun hc => by cases hc⟩
      rw [hthread'] at ht
      cases ht
  | ok _ =>
      obtain ⟨hready, hdims⟩ := hlive rfl
      exact ⟨hheld, (fun hc => by cases hc), fun _ => ⟨hready, Or.inl rfl⟩,
        (fun hc => by cases hc), (fun hc => by cases hc), fun _ => hdims⟩

/-- `Start` touches neither the sinks nor the history, and creates the thread at its start. -/
theorem start_rest {s : Source π φ σ ι ω} (h : Safe s) (hp : s.place = .constructed) :
    (s.start F).1.place = .started ∧ (s.start F).1.sinks = s.sinks
      ∧ (s.start F).1.frame = s.frame ∧ (s.start F).1.log = s.log
      ∧ ∀ t, (s.start F).1.decoderThread = some t → t = DecodeLoop.start F.toClip := by
  obtain ⟨hnone, hthread⟩ := h.constructed hp
  have hrest := (opened_initializeDecoder (F := F) hnone).rest
  unfold Source.start
  generalize s.initializeDecoder F = result at hrest
  obtain ⟨s', status⟩ := result
  simp only [Source.rest, Prod.mk.injEq] at hrest
  obtain ⟨_, _, hsinks, hthread', hframe, hlog⟩ := hrest
  cases status with
  | error e =>
      refine ⟨rfl, hsinks, hframe, hlog, fun t ht => ?_⟩
      rw [hthread', hthread] at ht
      cases ht
  | ok _ =>
      refine ⟨rfl, hsinks, hframe, hlog, fun t ht => ?_⟩
      cases ht
      rfl

theorem safe_finish {s : Source π φ σ ι ω} (h : Safe s) : Safe s.finish := by
  obtain ⟨held, hheld, hblank⟩ := h.held
  have hfree := holding_cleanup hheld hblank
  exact ⟨⟨_, hfree, rfl⟩, (fun hc => by cases hc), (fun hc => by cases hc),
    (fun hc => by cases hc), fun _ => hfree, fun hc => by cases hc⟩

theorem safe_destroy {s : Source π φ σ ι ω} (h : Safe s) : Safe s.destroy := by
  unfold Source.destroy
  split
  · exact safe_finish h
  · rename_i t ht
    have hready := (h.thread (by rw [ht]; rfl)).1
    exact ⟨h.held, (fun hc => by cases hc), fun _ => ⟨hready, Or.inr rfl⟩, fun _ => rfl,
      (fun hc => by cases hc), h.live⟩

/-- The thread goes a step, and what is held is as it was. -/
theorem Safe.still {s s' : Source π φ σ ι ω} {t : DecodeLoop π φ σ} (h : Safe s)
    (ht : s.decoderThread = some t) (hheld : Holding s'.ffmpeg ready)
    (ht' : s'.decoderThread.isSome = true) (hp : s'.place = s.place)
    (hlive : s'.state = .live → 0 < s'.width ∧ 0 < s'.height) : Safe s' := by
  have hthread := h.thread (by rw [ht]; rfl)
  rw [← hp] at hthread
  refine ⟨⟨_, hheld, rfl⟩, fun hc => ?_, fun _ => ⟨hheld, hthread.2⟩, fun _ => ht',
    fun hc => ?_, hlive⟩
  all_goals
    rw [hc] at hthread
    rcases hthread.2 with hno | hno <;> cases hno

theorem safe_thread {s s' : Source π φ σ ι ω} {t : DecodeLoop π φ σ} (h : Safe s)
    (ht : s.decoderThread = some t) (hs : ThreadMove F s t s') : Safe s' := by
  have hready := (h.thread (by rw [ht]; rfl)).1
  have hsome : s.decoderThread.isSome = true := by rw [ht]; rfl
  cases hs with
  | read readFails =>
      exact h.still ht (holding_calls hready (readCalls_ready t readFails)) rfl rfl h.live
  | receive => exact h.still ht (holding_calls hready (receiveCalls_ready t)) rfl rfl h.live
  | copy | done | skip | call => exact h.still ht hready hsome rfl h.live

variable [DecidableEq ι]

theorem safe_move {s s' : Source π φ σ ι ω} (h : Safe s) (hs : SourceMove F s s') : Safe s' := by
  cases hs with
  | start hp => exact safe_start h hp
  | destroy => exact safe_destroy h
  | joined => exact safe_finish h
  | thread t ht hm => exact safe_thread h ht hm
  | add | remove => exact { h with }

theorem safe_reachable {s : Source π φ σ ι ω} (h : Reachable (sourceStep F) {} s) : Safe s :=
  h.invariant safe_init fun _ _ _ _ hi hs => safe_move hi (sourceStep_move hs)

/--
**What FFmpeg allocated is used while it is there, and freed once**, at whichever call
`Start` failed and wherever the decoder thread is when the source is destroyed. While the
source is live its dimensions are positive.
-/
theorem source_tidy {s : Source π φ σ ι ω} (h : Reachable (sourceStep F) {} s) :
    Trail LedgerLaw s.ffmpeg.ledger
      ∧ (s.place = .destroyed → s.decoderThread = none
        ∧ ∀ n, .acquired n ∈ s.ffmpeg.ledger → s.ffmpeg.ledger.count (.released (some n)) = 1)
      ∧ (s.state = .live → 0 < s.getStats.1 ∧ 0 < s.getStats.2) := by
  have hsafe := safe_reachable h
  obtain ⟨held, hheld, _⟩ := hsafe.held
  refine ⟨hheld.tidy.law, fun hp => ⟨?_, fun n hn => (hsafe.destroyed hp).settled hn⟩, hsafe.live⟩
  by_contra hthread
  rcases (hsafe.thread (Option.isSome_iff_ne_none.mpr hthread)).2 with hno | hno
  all_goals
    rw [hp] at hno
    cases hno

/-! ## The destructor returns -/

/-- The thread that the destructor waits for was told to stop. -/
def Told (s : Source π φ σ ι ω) : Prop :=
  s.place = .joining → ∀ t, s.decoderThread = some t → t.stop = true

omit [DecidableEq ι] in
theorem told_thread {s s' : Source π φ σ ι ω} {t : DecodeLoop π φ σ} (h : Told s)
    (ht : s.decoderThread = some t) (hs : ThreadMove F s t s') : Told s' := by
  intro hp t' ht'
  cases hs with
  | read readFails =>
      have hstop : t.stop = true := h hp t ht
      cases ht'
      rw [DecodeLoop.read, if_pos hstop]
      exact hstop
  | receive =>
      have hstop : t.stop = true := h hp t ht
      cases ht'
      rw [DecodeLoop.receive, if_pos hstop]
      exact hstop
  | copy | done | skip | call => exact h hp t' ht'

theorem told_move {s s' : Source π φ σ ι ω} (hsafe : Safe s) (h : Told s)
    (hs : SourceMove F s s') : Told s' := by
  cases hs with
  | start hp =>
      intro hc
      rw [(start_rest (F := F) hsafe hp).1] at hc
      cases hc
  | destroy =>
      intro _ t ht
      unfold Source.destroy at ht
      split at ht <;> cases ht
      rfl
  | joined => exact fun hc => by cases hc
  | thread t ht hm => exact told_thread h ht hm
  | add | remove => exact h

theorem told_reachable {s : Source π φ σ ι ω} (h : Reachable (sourceStep F) {} s) : Told s :=
  h.invariant (fun hc => by cases hc) fun _ _ _ hr hi hs =>
    told_move (safe_reachable hr) hi (sourceStep_move hs)

/-- How many rounds a thread is from its return, once it was told to stop. -/
def DecodePlace.left : DecodePlace → ℕ
  | .receiving => 2
  | .reading => 1
  | .returned => 0

/-- How many steps the thread is from its return; a broadcast is delivered first. -/
def Source.left (s : Source π φ σ ι ω) : ℕ :=
  (s.decoderThread.map (·.place.left)).getD 0 +
    match s.sinks.broadcast, s.frame with
    | some rest, _ => rest.length + 1
    | none, some _ => s.sinks.sinks.length + 2
    | none, none => 0

omit [DecidableEq ι] in
/-- Once told to stop, every step of the thread brings it nearer to its return. -/
theorem thread_left {s s' : Source π φ σ ι ω} {t : DecodeLoop π φ σ} (hstop : t.stop = true)
    (ht : s.decoderThread = some t) (hs : ThreadMove F s t s') :
    s'.left < s.left ∧ s'.place = s.place := by
  refine ⟨?_, by cases hs <;> rfl⟩
  cases hs with
  | read readFails hf hp =>
      simp [Source.left, Source.advance, Source.calls, ht, hp, hf, DecodeLoop.read, hstop,
        DecodePlace.left]
  | receive hf hp =>
      simp [Source.left, Source.advance, Source.calls, ht, hp, hf, DecodeLoop.receive,
        DecodeLoop.received, hstop, DecodePlace.left]
  | copy frame hf hb => simp [Source.left, hf, hb]
  | done frame hf hb => simp [Source.left, hb]
  | skip frame wants rest hf hb | call frame sink wants rest hf hb => simp [Source.left, hb]

/-- A step that the destructor sees: the thread's, or its own return. -/
theorem joining_step {s s' : Source π φ σ ι ω} {l : SourceLabel ι ω} (htold : Told s)
    (hp : s.place = .joining) (hs : sourceStep F s l = some s') :
    (s'.place = .joining ∧ s'.left < s.left ∧ ∃ readFails, l = .thread readFails)
      ∨ (s'.place = .destroyed ∧ s'.left ≤ s.left ∧ l = .joined) := by
  have hheld : s.held = false := by rw [Source.held, hp]; rfl
  cases l with
  | start => simp [sourceStep, hp] at hs
  | destructor | addOrUpdateSink | removeSink => simp [sourceStep, hheld] at hs
  | joined =>
      simp only [sourceStep, Source.joined] at hs
      split at hs
      · simp only [Option.ite_none_right_eq_some] at hs
        cases hs.2
        exact Or.inr ⟨rfl, Nat.add_le_add_right (Nat.zero_le _) _, rfl⟩
      · cases hs
  | thread readFails =>
      obtain ⟨t, ht, hgo⟩ := Option.bind_eq_some_iff.mp hs
      obtain ⟨hlt, hplace⟩ := thread_left (htold hp t ht) ht (goOn_move hgo)
      exact Or.inl ⟨hplace.trans hp, hlt, readFails, rfl⟩

/-- Nothing happens at a source that was destroyed. -/
theorem destroyed_rests {s : Source π φ σ ι ω} (h : Safe s) (hp : s.place = .destroyed)
    (l : SourceLabel ι ω) : sourceStep F s l = none := by
  have hheld : s.held = false := by rw [Source.held, hp]; rfl
  have hthread : s.decoderThread = none := by
    by_contra hsome
    rcases (h.thread (Option.isSome_iff_ne_none.mpr hsome)).2 with hno | hno
    all_goals
      rw [hp] at hno
      cases hno
  cases l with
  | start => simp [sourceStep, hp]
  | destructor | addOrUpdateSink | removeSink => simp [sourceStep, hheld]
  | joined => simp [sourceStep, Source.joined, hp]
  | thread readFails => simp [sourceStep, hthread]

/-- While the destructor waits the thread goes on, and `join` returns after it. -/
def KeepsGoing (x : Execution (sourceStep (ι := ι) (ω := ω) F) {}) : Prop :=
  ∀ n, (x.state n).place = .joining → ∃ m, n ≤ m ∧ ((x.state m).place = .destroyed
    ∨ (∃ readFails, x.label m = some (.thread readFails)) ∨ x.label m = some .joined)

/-- A destructor that waits has returned in the end. -/
theorem KeepsGoing.returns {x : Execution (sourceStep (ι := ι) (ω := ω) F) {}}
    (hx : KeepsGoing x) {n : ℕ} (hn : (x.state n).place = .joining) :
    ∃ m, n ≤ m ∧ (x.state m).place = .destroyed := by
  have hstep := fun m (hp : (x.state m).place = .joining) l (hl : x.label m = some l) =>
    joining_step (told_reachable (x.reachable m)) hp (x.step_of_label hl)
  -- from now on the destructor waits, or has returned
  have hlater : ∀ m, n ≤ m → (x.state m).place = .joining ∨ (x.state m).place = .destroyed := by
    intro m hm
    refine x.stable (P := fun s => s.place = .joining ∨ s.place = .destroyed) ?_ hm (Or.inl hn)
    intro s l s' hr hp hs
    rcases hp with hp | hp
    · exact (joining_step (told_reachable hr) hp hs).imp And.left And.left
    · rw [destroyed_rests (safe_reachable hr) hp] at hs
      cases hs
  have hmono : ∀ m, ¬ (x.state m).place ≠ .joining →
      (x.state (m + 1)).left ≤ (x.state m).left := by
    intro m hp
    cases hl : x.label m with
    | none => rw [x.stay_of_label hl]
    | some l =>
        rcases hstep m (not_not.mp hp) l hl with ⟨-, hlt, -⟩ | ⟨-, hle, -⟩
        · exact Nat.le_of_lt hlt
        · exact hle
  have hagain : ∀ m, ¬ (x.state m).place ≠ .joining → ∃ k, m ≤ k ∧
      ((x.state k).place ≠ .joining ∨ (x.state (k + 1)).left < (x.state k).left) := by
    intro m hp
    obtain ⟨k, hk, hcase⟩ := hx m (not_not.mp hp)
    by_cases hpk : (x.state k).place = .joining
    · rcases hcase with hdone | ⟨readFails, hl⟩ | hl
      · exact ⟨k, hk, Or.inl (by rw [hdone]; decide)⟩
      · rcases hstep k hpk _ hl with ⟨-, hlt, -⟩ | ⟨-, -, hno⟩
        · exact ⟨k, hk, Or.inr hlt⟩
        · cases hno
      · rcases hstep k hpk _ hl with ⟨-, -, _, hno⟩ | ⟨hdone, -, -⟩
        · cases hno
        · exact ⟨k + 1, by omega, Or.inl (by rw [hdone]; decide)⟩
    · exact ⟨k, hk, Or.inl hpk⟩
  obtain ⟨m, hm, hover⟩ :=
    x.ends_of_measure (fun s => s.place ≠ .joining) Source.left hmono hagain n
  exact ⟨m, hm, (hlater m hm).resolve_left hover⟩

/--
**The destructor returns**, wherever the thread is when it is called, and however many sinks
the broadcast in progress has still to be delivered to.
-/
theorem destructor_returns {x : Execution (sourceStep (ι := ι) (ω := ω) F) {}}
    (hx : KeepsGoing x) :
    x.LeadsTo (fun s => s.place = .joining) (fun s => s.place = .destroyed) :=
  fun _ hn => hx.returns hn

/-! ## A file that is played once -/

/-- The clip of `Video/Decode.lean`, in a file that FFmpeg opens. -/
def playedFile : Ffmpeg Nat Nat Unit := { mixedClip with width := 2, height := 2 }

/-- A sink is registered, and the thread plays the file to its end. -/
def playedLabels : List (SourceLabel Nat Unit) :=
  [.addOrUpdateSink (some 1) (), .start] ++ List.replicate 14 (.thread false)

/-- And the source is destroyed. -/
def destroyedLabels : List (SourceLabel Nat Unit) :=
  playedLabels ++ [.destructor, .thread false, .joined]

theorem destroyedLabels_exec :
    ∃ s, exec (sourceStep playedFile) {} destroyedLabels = some s
      ∧ s.place = .destroyed ∧ .acquired 4 ∈ s.ffmpeg.ledger :=
  ⟨_, rfl, rfl, by decide⟩

/-- Everything that was allocated was freed, the data of the last packet among it. -/
theorem source_tidy_played :
    ∃ s, Reachable (sourceStep (ι := Nat) (ω := Unit) playedFile) {} s ∧ s.place = .destroyed
      ∧ s.decoderThread = none ∧ .acquired 4 ∈ s.ffmpeg.ledger
      ∧ s.ffmpeg.ledger.count (.released (some 4)) = 1 := by
  obtain ⟨s, hs, hp, hmem⟩ := destroyedLabels_exec
  obtain ⟨-, hdestroyed, -⟩ := source_tidy (Reachable.of_exec hs)
  exact ⟨s, Reachable.of_exec hs, hp, (hdestroyed hp).1, hmem, (hdestroyed hp).2 4 hmem⟩

/-- The execution that stays where the source was destroyed. -/
def played : Execution (sourceStep (ι := Nat) (ω := Unit) playedFile) {} :=
  Execution.ofLabels destroyedLabels rfl

/-- The destructor waits after the seventeenth step, and returns. -/
theorem destructor_returns_played :
    (played.state 17).place = .joining ∧ ∃ m, 17 ≤ m ∧ (played.state m).place = .destroyed := by
  have hend : ∀ n, destroyedLabels.length ≤ n → (played.state n).place = .destroyed := by
    intro n hn
    rw [played, Execution.ofLabels_end rfl hn]
    rfl
  have hgoing : KeepsGoing played := fun n _ =>
    ⟨n + destroyedLabels.length, by omega, Or.inl (hend _ (by omega))⟩
  exact ⟨rfl, destructor_returns hgoing 17 rfl⟩

end ApprtcCli.Video
