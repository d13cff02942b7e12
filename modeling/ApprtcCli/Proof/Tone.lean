import ApprtcCli.Audio.SineWave
import ApprtcCli.Lib.Accumulator
import Mathlib.Algebra.Field.ModEq
import Mathlib.Analysis.SpecialFunctions.Trigonometric.Basic
import Mathlib.Tactic.FieldSimp
import Mathlib.Tactic.Ring

/-!
# The tone that is captured

What a run of the capture loop records, whatever is called meanwhile on other
threads. Sample `n` of the stream is taken at `phaseAt T d n`, the accumulator after
`n` additions, so the buffers of a run are pieces of one sequence (`captured_reachable`)
and, where the sine has its period, samples of one tone (`real_tone`).

Two things `validateConfig` does not ask for decide whether that tone is the one that
was configured: that the rate is a multiple of 100, because a tick takes a whole number
of samples, and that the frequency is no higher than the rate, because the accumulator
is wrapped once a sample. `tone_kept_iff` says how far each is needed.
-/

namespace ApprtcCli.Audio

open Lib

variable {K : Type} [Field K] [LinearOrder K]
variable {d : SineWaveAudioDeviceModule} {α : Type} (T : Trig K)

/-- The accumulator after `n` samples. -/
def phaseAt (d : SineWaveAudioDeviceModule) (n : ℕ) : K :=
  (advance T.kTwoPi (d.phaseIncrement T))^[n] 0

theorem phaseAt_succ (n : ℕ) :
    phaseAt T d (n + 1) = advance T.kTwoPi (d.phaseIncrement T) (phaseAt T d n) :=
  Function.iterate_succ_apply' _ n 0

/-! ## One sample -/

section Sample

variable {T}

/-- Sample `n` is taken where a tone of the frequency is, up to whole turns. -/
theorem phaseAt_turns (n : ℕ) :
    phaseAt T d n / T.kTwoPi ≡ n * d.frequencyHz / d.sampleRateHz [PMOD 1] := by
  have hne : T.kTwoPi ≠ 0 := ne_of_gt T.kTwoPi_pos
  have hphase := iterate_modEq T.kTwoPi (d.phaseIncrement T) 0 n
  have hturns : (n * d.frequencyHz / d.sampleRateHz : K)
      = (0 + n • d.phaseIncrement T) / T.kTwoPi := by
    rw [zero_add, nsmul_eq_mul, SineWaveAudioDeviceModule.phaseIncrement, eq_div_iff hne]
    ring
  rw [hturns, AddCommGroup.div_modEq_div hne, one_mul]
  exact hphase

variable [IsStrictOrderedRing K]

theorem withinTurn_iff {phase : K} : T.WithinTurn phase ↔ phase ∈ Set.Icc 0 T.kTwoPi := by
  have hpos := T.kTwoPi_pos
  rw [Trig.WithinTurn, Set.mem_Icc, Set.mem_Icc, div_le_one hpos, le_div_iff₀ hpos, zero_mul]

/-- How far `N` increments are over `N` turns, in samples of a turn. -/
theorem excess_iff (hrate : 0 < d.sampleRateHz) (N : ℕ) :
    N • (d.phaseIncrement T - T.kTwoPi) ≤ T.kTwoPi
      ↔ N * (d.frequencyHz - d.sampleRateHz) ≤ d.sampleRateHz := by
  have hpos := T.kTwoPi_pos
  have hrate' : (0 : K) < d.sampleRateHz := Int.cast_pos.mpr hrate
  have hexcess : N • (d.phaseIncrement T - T.kTwoPi)
      = T.kTwoPi * (N * (d.frequencyHz - d.sampleRateHz) / d.sampleRateHz) := by
    rw [nsmul_eq_mul, SineWaveAudioDeviceModule.phaseIncrement]
    field_simp
  rw [hexcess, mul_le_iff_le_one_right hpos, div_le_one hrate']
  exact_mod_cast Iff.rfl

/-- A frequency over the rate leaves its excess in the accumulator at every sample. -/
theorem phaseAt_overrun (hrate : 0 < d.sampleRateHz) (hover : d.sampleRateHz < d.frequencyHz)
    (n : ℕ) : phaseAt T d n / T.kTwoPi
      = n * (d.frequencyHz - d.sampleRateHz) / d.sampleRateHz := by
  have hpos := T.kTwoPi_pos
  have hrate' : (0 : K) < d.sampleRateHz := Int.cast_pos.mpr hrate
  have hmd : T.kTwoPi < d.phaseIncrement T := by
    rw [SineWaveAudioDeviceModule.phaseIncrement, lt_div_iff₀ hrate', mul_lt_mul_iff_right₀ hpos]
    exact Int.cast_lt.mpr hover
  rw [phaseAt, iterate_overrun hmd le_rfl, SineWaveAudioDeviceModule.phaseIncrement, zero_add,
    nsmul_eq_mul]
  field_simp

variable [FloorRing K]

theorem abs_toInt16_le {x : K} {b : Int} (h : |x| ≤ b) : |toInt16 x| ≤ b := by
  obtain ⟨hlo, hhi⟩ := abs_le.mp h
  have hlo' : ((-b : Int) : K) ≤ x := by rwa [Int.cast_neg]
  rw [abs_le, toInt16]
  split
  · exact ⟨Int.le_floor.mpr hlo', Int.cast_le.mp ((Int.floor_le x).trans hhi)⟩
  · exact ⟨Int.cast_le.mp (hlo'.trans (Int.le_ceil x)), Int.ceil_le.mpr hhi⟩

/-- A sample is one of 16 bits, so the conversion to `int16_t` is defined. -/
theorem abs_sampleAt_le (phase : K) : |T.sampleAt phase| ≤ 16000 := by
  refine abs_toInt16_le ?_
  have hloud : (0 : K) ≤ 16000 := by norm_num
  rw [abs_mul, abs_of_nonneg hloud]
  calc |T.sin phase| * 16000
      ≤ 1 * 16000 := mul_le_mul_of_nonneg_right (T.abs_sin_le phase) hloud
    _ = ((16000 : Int) : K) := by norm_num

end Sample

/-! ## One tick -/

variable [FloorRing K]

/-- Sample `n` of a stream. -/
def samplingAt (d : SineWaveAudioDeviceModule) (n : ℕ) : Sampling K where
  before := phaseAt T d n
  sample := T.sampleAt (phaseAt T d n)
  after := phaseAt T d (n + 1)

/-- A tick that began at sample `N` has taken `n` samples. -/
structure FilledFrom (N n : ℕ) (f : Filling d K) : Prop where
  buffer : f.buffer.Filled (fun i => T.sampleAt (phaseAt T d (N + i))) n
  phase : f.phase = phaseAt T d (N + n)
  samplings : f.samplings = (List.range n).map fun i => samplingAt T d (N + i)

variable {T}

theorem FilledFrom.takeSample {N : ℕ} {f : Filling d K} {i : Fin d.samplesPerChannel}
    (h : FilledFrom T N i f) : FilledFrom T N (i + 1) (takeSample T f i) := by
  have hafter : advance T.kTwoPi (d.phaseIncrement T) f.phase = phaseAt T d (N + i + 1) := by
    rw [h.phase, phaseAt_succ]
  refine ⟨?_, hafter, ?_⟩
  · have hrow := h.buffer.putRow
    rw [← h.phase] at hrow
    exact hrow
  · have hnew : (Audio.takeSample T f i).samplings
        = f.samplings ++ [⟨f.phase, T.sampleAt f.phase,
            advance T.kTwoPi (d.phaseIncrement T) f.phase⟩] := rfl
    rw [hnew, hafter, h.samplings, h.phase, List.range_succ, List.map_append]
    rfl

/-- What a tick does, begun at sample `N` with whatever the buffer holds. -/
theorem fill_spec (cells : Vector Int (d.samplesPerChannel * d.channels)) (N : ℕ) :
    FilledFrom T N d.samplesPerChannel (fill T cells (phaseAt T d N)) :=
  loop_invariant (P := FilledFrom T N)
    ⟨Grid.Filled.none cells, rfl, rfl⟩ (fun _ _ h => h.takeSample)

/-! ## A whole run -/

variable (T) in
/-- Everything there is to know of a run so far. -/
structure Captured (s : CaptureLoop d K α) : Prop where
  nextTick : s.nextTick = s.ticks.length * 10
  phase : s.phase = phaseAt T d (s.ticks.length * d.samplesPerChannel)
  samplings : s.samplings
    = (List.range (s.ticks.length * d.samplesPerChannel)).map (samplingAt T d)
  channel : ∀ channel, s.channel channel
    = (List.range (s.ticks.length * d.samplesPerChannel)).map fun n => T.sampleAt (phaseAt T d n)
  written : ∀ t ∈ s.ticks, t.buffer.written = List.range (d.samplesPerChannel * d.channels)
  equal : ∀ t ∈ s.ticks, ∀ i channel channel',
    t.buffer.read i channel = t.buffer.read i channel'
  handed : ∀ t ∈ s.ticks, ∀ callback data,
    t.handed = some (callback, data) → data = recordedData t.buffer.cells

theorem captured_start (audioCallback : Option α) :
    Captured T (CaptureLoop.start d K audioCallback) where
  nextTick := rfl
  phase := by simp [CaptureLoop.start, phaseAt]
  samplings := by simp [CaptureLoop.start, CaptureLoop.samplings]
  channel := by simp [CaptureLoop.start, CaptureLoop.channel]
  written := by simp [CaptureLoop.start]
  equal := by simp [CaptureLoop.start]
  handed := by simp [CaptureLoop.start]

/-- A piece of a sequence and the next one. -/
theorem map_range_add {β : Type} (f : ℕ → β) (m n : ℕ) :
    (List.range m).map f ++ (List.range n).map (fun i => f (m + i))
      = (List.range (m + n)).map f := by
  rw [List.range_add, List.map_append, List.map_map]
  rfl

/-- A tick that recorded the samples that come next. -/
theorem Captured.tick {s : CaptureLoop d K α} (h : Captured T s) {f : Filling d K}
    (hf : FilledFrom T (s.ticks.length * d.samplesPerChannel) d.samplesPerChannel f)
    {t : Tick d K α} (hbuffer : t.buffer = f.buffer) (hsamplings : t.samplings = f.samplings)
    (hhanded : ∀ callback data,
      t.handed = some (callback, data) → data = recordedData t.buffer.cells) :
    Captured T { s with
      buffer := f.buffer.cells
      phase := f.phase
      nextTick := s.nextTick + 10
      ticks := s.ticks ++ [t] } := by
  have hlen : (s.ticks ++ [t]).length * d.samplesPerChannel
      = s.ticks.length * d.samplesPerChannel + d.samplesPerChannel := by
    rw [List.length_append, List.length_singleton, Nat.succ_mul]
  have hall : ∀ {P : Tick d K α → Prop}, (∀ t' ∈ s.ticks, P t') → P t →
      ∀ t' ∈ s.ticks ++ [t], P t' := fun hold hnew =>
    List.forall_mem_append.mpr ⟨hold, List.forall_mem_singleton.mpr hnew⟩
  have hfilled := hf.buffer
  rw [← hbuffer] at hfilled
  refine ⟨?_, ?_, ?_, fun channel => ?_, hall h.written hfilled.written, hall h.equal ?_,
    hall h.handed hhanded⟩
  · show s.nextTick + 10 = (s.ticks ++ [t]).length * 10
    rw [h.nextTick, List.length_append, List.length_singleton, Nat.succ_mul]
  · show f.phase = phaseAt T d ((s.ticks ++ [t]).length * d.samplesPerChannel)
    rw [hlen, hf.phase]
  · show (s.ticks ++ [t]).flatMap Tick.samplings
      = (List.range ((s.ticks ++ [t]).length * d.samplesPerChannel)).map (samplingAt T d)
    have hold : s.ticks.flatMap Tick.samplings = _ := h.samplings
    rw [hlen, List.flatMap_append, hold, List.flatMap_singleton, hsamplings,
      hf.samplings, map_range_add]
  · show (s.ticks ++ [t]).flatMap (fun t => t.buffer.column channel)
      = (List.range ((s.ticks ++ [t]).length * d.samplesPerChannel)).map _
    have hold : s.ticks.flatMap (fun t => t.buffer.column channel) = _ := h.channel channel
    rw [hlen, List.flatMap_append, hold, List.flatMap_singleton, hfilled.column channel,
      map_range_add (fun n => T.sampleAt (phaseAt T d n))]
  · intro i channel channel'
    rw [hfilled.read i i.isLt, hfilled.read i i.isLt]

/-- **A round records the samples that come next.** -/
theorem captured_round {s : CaptureLoop d K α} (h : Captured T s) : Captured T (s.round T) := by
  unfold CaptureLoop.round
  split
  · have hfill := fill_spec (T := T) s.buffer (s.ticks.length * d.samplesPerChannel)
    rw [← h.phase] at hfill
    refine h.tick hfill rfl rfl (fun callback data hcall => ?_)
    obtain ⟨_, _, hdata⟩ := Option.map_eq_some_iff.mp hcall
    exact (congrArg Prod.snd hdata).symm
  · exact { h with }

theorem captured_step {s s' : CaptureLoop d K α} {e : CaptureLabel α} (h : Captured T s)
    (hs : captureStep T s e = some s') : Captured T s' := by
  cases e with
  | round =>
      rw [captureStep] at hs
      split at hs
      · cases hs
      · injection hs with hs
        subst hs
        exact captured_round h
  | registerAudioCallback audioCallback =>
      injection hs with hs
      subst hs
      exact { h with }
  | stopRecording =>
      injection hs with hs
      subst hs
      exact { h with }

theorem captured_reachable {audioCallback : Option α} {s : CaptureLoop d K α}
    (h : Reachable (captureStep T) (CaptureLoop.start d K audioCallback) s) : Captured T s :=
  h.invariant (captured_start audioCallback) (fun _ _ _ _ hc hs => captured_step hc hs)

/-- The thread can go any number of ticks. -/
theorem ticks_reachable (d : SineWaveAudioDeviceModule) (audioCallback : Option α) (k : ℕ) :
    ∃ s, Reachable (captureStep T) (CaptureLoop.start d K audioCallback) s
      ∧ s.ticks.length = k ∧ s.recording = true ∧ s.returned = false := by
  induction k with
  | zero => exact ⟨_, Reachable.init, rfl, rfl, rfl⟩
  | succ k ih =>
      obtain ⟨s, hreach, hticks, hrecording, hreturned⟩ := ih
      have hstep : captureStep T s .round = some (s.round T) := by
        rw [captureStep, hreturned]
        rfl
      refine ⟨s.round T, hreach.next hstep, ?_⟩
      rw [CaptureLoop.round, if_pos hrecording]
      exact ⟨by rw [List.length_append, hticks]; rfl, hrecording, hreturned⟩

/-- Where the sine has the period, the stream is the sine of the undivided phase. -/
theorem Captured.tone {s : CaptureLoop d K α} (h : Captured T s)
    (hperiod : Function.Periodic T.sin T.kTwoPi) (channel : Fin d.channels) :
    s.channel channel = (List.range (s.ticks.length * d.samplesPerChannel)).map
      fun n => T.sampleAt (n • d.phaseIncrement T) := by
  have hsin : ∀ n, T.sin (phaseAt T d n) = T.sin (n • d.phaseIncrement T) := by
    intro n
    rw [phaseAt, periodic_iterate hperiod, zero_add]
  rw [h.channel]
  refine List.map_congr_left (fun n _ => ?_)
  rw [Trig.sampleAt, hsin, Trig.sampleAt]

/-- The callback is told how many samples there are. -/
theorem Captured.handed_length {s : CaptureLoop d K α} (h : Captured T s) {t : Tick d K α}
    (ht : t ∈ s.ticks) {callback : α} {data : RecordedData}
    (hcall : t.handed = some (callback, data)) :
    data.audioSamples.length = data.nSamples * data.nChannels := by
  rw [h.handed t ht callback data hcall]
  exact Vector.length_toList

/-! ## Where the tone is kept -/

/-- What `validateConfig` makes sure of. -/
structure Positive (d : SineWaveAudioDeviceModule) : Prop where
  sampleRate : 0 < d.sampleRateHz
  channels : 0 < d.numChannels
  frequency : 0 < d.frequencyHz

theorem audioDevice_positive {config : AppConfig} (h : config.Valid) :
    Positive (audioDevice config) where
  sampleRate := h.audioSampleRate
  channels := h.audioChannels
  frequency := h.audioFrequency

/-- A tick is short of a hundredth of a second by what the division drops. -/
theorem Positive.samplesPerChannel (hd : Positive d) :
    (d.samplesPerChannel : ℤ) = d.sampleRateHz / 100 := by
  have hrate := hd.sampleRate
  rw [SineWaveAudioDeviceModule.samplesPerChannel, Int.tdiv_eq_ediv_of_nonneg hrate.le]
  omega

/-- For `int`s, the size of the buffer is one a `std::vector` of 16-bit samples can have. -/
theorem Positive.buffer_fits (hd : Positive d) (hrate : d.sampleRateHz < 2 ^ 31)
    (hchannels : d.numChannels < 2 ^ 31) : d.samplesPerChannel * d.channels < 2 ^ 62 := by
  have hspc := hd.samplesPerChannel
  have hsamples : d.samplesPerChannel ≤ 2 ^ 31 := by omega
  have hwide : d.channels < 2 ^ 31 := by
    rw [SineWaveAudioDeviceModule.channels]
    omega
  calc d.samplesPerChannel * d.channels
      ≤ 2 ^ 31 * d.channels := Nat.mul_le_mul_right _ hsamples
    _ < 2 ^ 31 * 2 ^ 31 := Nat.mul_lt_mul_of_pos_left hwide (by norm_num)
    _ = 2 ^ 62 := by norm_num

theorem Positive.carried_iff (hd : Positive d) (k : ℕ) :
    ((k * d.samplesPerChannel : ℕ) : ℚ) = k * d.sampleRateHz / 100
      ↔ k = 0 ∨ 100 ∣ d.sampleRateHz := by
  have hwhole : (d.samplesPerChannel : ℤ) * 100 = d.sampleRateHz ↔ 100 ∣ d.sampleRateHz := by
    have hspc := hd.samplesPerChannel
    omega
  rw [eq_div_iff (by norm_num), ← hwhole]
  have hint : ((k * d.samplesPerChannel : ℕ) : ℚ) * 100 = k * d.sampleRateHz
      ↔ (k : ℤ) * (d.samplesPerChannel * 100) = k * d.sampleRateHz := by
    rw [← mul_assoc]
    exact_mod_cast Iff.rfl
  rw [hint, mul_eq_mul_left_iff, Int.natCast_eq_zero, or_comm]

variable [IsStrictOrderedRing K]

theorem Captured.bounded_iff {s : CaptureLoop d K α} (h : Captured T s) (hd : Positive d) :
    (∀ sampling ∈ s.samplings, T.WithinTurn sampling.before ∧ T.WithinTurn sampling.after)
      ↔ (s.ticks.length * d.samplesPerChannel : ℕ) * (d.frequencyHz - d.sampleRateHz)
          ≤ d.sampleRateHz := by
  have hinc : 0 ≤ d.phaseIncrement T :=
    div_nonneg (mul_nonneg T.kTwoPi_pos.le (Int.cast_nonneg hd.frequency.le))
      (Int.cast_nonneg hd.sampleRate.le)
  rw [← excess_iff (T := T) hd.sampleRate, ← iterate_mem_iff T.kTwoPi_pos.le hinc, h.samplings]
  constructor
  · intro hb n hn
    cases n with
    | zero => exact ⟨le_rfl, T.kTwoPi_pos.le⟩
    | succ n =>
        have hmem : samplingAt T d n
            ∈ (List.range (s.ticks.length * d.samplesPerChannel)).map (samplingAt T d) :=
          List.mem_map_of_mem (List.mem_range.mpr hn)
        exact withinTurn_iff.mp (hb _ hmem).2
  · intro hm sampling hs
    obtain ⟨n, hn, rfl⟩ := List.mem_map.mp hs
    have hlt := List.mem_range.mp hn
    exact ⟨withinTurn_iff.mpr (hm n hlt.le), withinTurn_iff.mpr (hm (n + 1) hlt)⟩

/-- At a rate of whole hundreds the samples of a tick cancel from the bound on the excess. -/
theorem Positive.overrun_iff (hd : Positive d) (hwhole : 100 ∣ d.sampleRateHz) (k : ℕ) :
    (k * d.samplesPerChannel : ℕ) * (d.frequencyHz - d.sampleRateHz) ≤ d.sampleRateHz
      ↔ k * (d.frequencyHz - d.sampleRateHz) ≤ 100 := by
  have hrate := hd.sampleRate
  have hspc := hd.samplesPerChannel
  have hpos : (0 : ℤ) < d.samplesPerChannel := by omega
  have htick : d.sampleRateHz = 100 * d.samplesPerChannel := by omega
  calc
    _ ↔ k * (d.frequencyHz - d.sampleRateHz) * d.samplesPerChannel
          ≤ 100 * d.samplesPerChannel := by
      rw [← htick, Nat.cast_mul, mul_right_comm]
    _ ↔ _ := mul_le_mul_iff_left₀ hpos

/-- **Which runs keep the tone.** -/
theorem Captured.keepsTone_iff {s : CaptureLoop d K α} (h : Captured T s) (hd : Positive d) :
    KeepsTone T s ↔ s.ticks.length = 0
      ∨ 100 ∣ d.sampleRateHz ∧ s.ticks.length * (d.frequencyHz - d.sampleRateHz) ≤ 100 := by
  have hlen : ∀ channel,
      (s.channel channel).length = s.ticks.length * d.samplesPerChannel := by
    intro channel
    rw [h.channel, List.length_map, List.length_range]
  have hchannels : 0 < d.channels := Int.lt_toNat.mpr hd.channels
  constructor
  · intro hk
    have hcarried := hk.carried ⟨0, hchannels⟩
    rw [hlen, hd.carried_iff] at hcarried
    rcases hcarried with hzero | hwhole
    · exact Or.inl hzero
    · exact Or.inr ⟨hwhole, (hd.overrun_iff hwhole _).mp ((h.bounded_iff hd).mp hk.bounded)⟩
  · intro hcond
    have hcarried : s.ticks.length = 0 ∨ 100 ∣ d.sampleRateHz := hcond.imp_right And.left
    have hoverrun : (s.ticks.length * d.samplesPerChannel : ℕ)
        * (d.frequencyHz - d.sampleRateHz) ≤ d.sampleRateHz := by
      rcases hcond with hzero | ⟨hwhole, hle⟩
      · rw [hzero, Nat.zero_mul, Nat.cast_zero, zero_mul]
        exact hd.sampleRate.le
      · exact (hd.overrun_iff hwhole _).mpr hle
    exact
      { carried := fun channel => by rw [hlen, hd.carried_iff]; exact hcarried
        second := fun hk channel => by
          have hspc := hd.samplesPerChannel
          rw [hlen, hk]
          omega
        written := h.written
        equal := h.equal
        sampled := fun channel => by
          rw [h.channel, h.samplings, List.map_map]
          rfl
        phased := fun n sampling hn => by
          rw [h.samplings, List.getElem?_map, Option.map_eq_some_iff] at hn
          obtain ⟨m, hm, rfl⟩ := hn
          obtain ⟨_, hnm⟩ := List.getElem?_eq_some_iff.mp hm
          rw [List.getElem_range] at hnm
          subst hnm
          exact phaseAt_turns n
        bounded := (h.bounded_iff hd).mpr hoverrun }

/--
**The tone is kept** by a run of `k` ticks exactly where the rate is a multiple of 100 and the
frequency exceeds it by no more than `100 / k`; by every run, where it does not exceed it.
-/
theorem tone_kept_iff (T : Trig K) {config : AppConfig}
    (hconfig : validateConfig config = okStatus) (audioCallback : Option α) :
    (∀ s, Reachable (captureStep T)
          (CaptureLoop.start (audioDevice config) K audioCallback) s →
        (KeepsTone T s ↔ s.ticks.length = 0 ∨ 100 ∣ config.audioSampleRateHz
          ∧ s.ticks.length * (config.audioFrequencyHz - config.audioSampleRateHz) ≤ 100))
      ∧ ((∀ s, Reachable (captureStep T)
            (CaptureLoop.start (audioDevice config) K audioCallback) s → KeepsTone T s)
          ↔ 100 ∣ config.audioSampleRateHz
            ∧ config.audioFrequencyHz ≤ config.audioSampleRateHz) := by
  have hd := audioDevice_positive (validateConfig_ok_iff.mp hconfig)
  have hrun : ∀ s, Reachable (captureStep T)
      (CaptureLoop.start (audioDevice config) K audioCallback) s → _ :=
    fun s hs => (captured_reachable hs).keepsTone_iff hd
  refine ⟨hrun, ?_, ?_⟩
  · intro hall
    -- a hundred and one ticks are enough for an excess of one to leave the turn
    obtain ⟨s, hs, hticks, -⟩ := ticks_reachable (T := T) (audioDevice config) audioCallback 101
    rcases (hrun s hs).mp (hall s hs) with hzero | ⟨hwhole, hle⟩
    · omega
    · refine ⟨hwhole, ?_⟩
      rw [hticks] at hle
      have hle' : (101 : ℕ) * (config.audioFrequencyHz - config.audioSampleRateHz) ≤ 100 := hle
      omega
  · rintro ⟨hwhole, hle⟩ s hs
    refine (hrun s hs).mpr (Or.inr ⟨hwhole, le_trans ?_ (by norm_num : (0 : ℤ) ≤ 100)⟩)
    exact mul_nonpos_of_nonneg_of_nonpos (Int.natCast_nonneg _) (sub_nonpos.mpr hle)

/-! ## Over the reals -/

/-- A circle's own turn, and the sine. -/
noncomputable def Trig.real : Trig ℝ where
  kTwoPi := 2 * Real.pi
  sin := Real.sin
  kTwoPi_pos := Real.two_pi_pos
  abs_sin_le := Real.abs_sin_le_one

/-- What is captured on every channel is the sine of the frequency, at the rate. -/
theorem real_tone {audioCallback : Option α} {s : CaptureLoop d ℝ α}
    (hs : Reachable (captureStep Trig.real) (CaptureLoop.start d ℝ audioCallback) s)
    (channel : Fin d.channels) :
    s.channel channel = (List.range (s.ticks.length * d.samplesPerChannel)).map fun n : ℕ =>
      toInt16 (Real.sin (n * (2 * Real.pi * d.frequencyHz / d.sampleRateHz)) * 16000) := by
  rw [(captured_reachable hs).tone Real.sin_periodic]
  refine List.map_congr_left (fun n _ => ?_)
  rw [nsmul_eq_mul]
  rfl

/-- A tick of the default device: 10 ms of 440 Hz. -/
theorem real_tone_tick :
    ∃ s, Reachable (captureStep Trig.real) (CaptureLoop.start
        (audioDevice { roomId := "room", videoPath := "clip.mp4" }) ℝ (none : Option Unit)) s
      ∧ ∀ channel, s.channel channel = (List.range 480).map fun n : ℕ =>
        toInt16 (Real.sin (n * (2 * Real.pi * (440 : ℤ) / (48000 : ℤ))) * 16000) := by
  obtain ⟨s, hs, hticks, -⟩ := ticks_reachable (T := Trig.real)
    (audioDevice { roomId := "room", videoPath := "clip.mp4" }) (none : Option Unit) 1
  refine ⟨s, hs, fun channel => ?_⟩
  have htone := real_tone hs channel
  rw [hticks] at htone
  exact htone

/-- At its defaults the program keeps the tone. -/
theorem tone_kept_iff_default :
    validateConfig { roomId := "room", videoPath := "clip.mp4" } = okStatus
      ∧ ∀ s, Reachable (captureStep Trig.real) (CaptureLoop.start
          (audioDevice { roomId := "room", videoPath := "clip.mp4" }) ℝ (none : Option Unit)) s →
        KeepsTone Trig.real s :=
  ⟨by decide, (tone_kept_iff Trig.real (by decide) none).2.mpr ⟨by decide, by decide⟩⟩

/-- A rate of 220.5 samples in 10 ms. -/
def halfSampleConfig : AppConfig :=
  { roomId := "room", videoPath := "clip.mp4", audioSampleRateHz := 22050 }

/-- A frequency of two turns and a half in one sample. -/
def shrillConfig : AppConfig :=
  { roomId := "room", videoPath := "clip.mp4", audioSampleRateHz := 8000,
    audioFrequencyHz := 20000 }

/--
Configurations that are accepted and do not keep the tone: of the one, a second's ticks are 50
samples short; of the other, the first sample leaves the accumulator a turn and a half on.
-/
theorem tone_lost :
    (validateConfig halfSampleConfig = okStatus
      ∧ ∃ s, Reachable (captureStep Trig.real)
          (CaptureLoop.start (audioDevice halfSampleConfig) ℝ (none : Option Unit)) s
        ∧ s.ticks.length = 100 ∧ (∀ channel, (s.channel channel).length = 22000)
        ∧ ¬ KeepsTone Trig.real s)
    ∧ (validateConfig shrillConfig = okStatus
      ∧ ∃ s, Reachable (captureStep Trig.real)
          (CaptureLoop.start (audioDevice shrillConfig) ℝ (none : Option Unit)) s
        ∧ s.ticks.length = 1
        ∧ (∃ sampling ∈ s.samplings, sampling.after / Trig.real.kTwoPi = 3 / 2)
        ∧ ¬ KeepsTone Trig.real s) := by
  refine ⟨⟨by decide, ?_⟩, by decide, ?_⟩
  · obtain ⟨s, hs, hticks, -⟩ :=
      ticks_reachable (T := Trig.real) (audioDevice halfSampleConfig) (none : Option Unit) 100
    have hd : Positive (audioDevice halfSampleConfig) :=
      audioDevice_positive (validateConfig_ok_iff.mp (by decide))
    refine ⟨s, hs, hticks, fun channel => ?_, fun hk => ?_⟩
    · rw [(captured_reachable hs).channel, List.length_map, List.length_range, hticks]
      rfl
    · rw [(captured_reachable hs).keepsTone_iff hd, hticks] at hk
      exact absurd hk (by decide)
  · obtain ⟨s, hs, hticks, -⟩ :=
      ticks_reachable (T := Trig.real) (audioDevice shrillConfig) (none : Option Unit) 1
    have hd : Positive (audioDevice shrillConfig) :=
      audioDevice_positive (validateConfig_ok_iff.mp (by decide))
    refine ⟨s, hs, hticks,
      ⟨samplingAt Trig.real (audioDevice shrillConfig) 0, ?_, ?_⟩, fun hk => ?_⟩
    · rw [(captured_reachable hs).samplings, hticks]
      exact List.mem_map_of_mem (List.mem_range.mpr (by decide))
    · have hafter := phaseAt_overrun (T := Trig.real) hd.sampleRate (by decide) 1
      rw [samplingAt, hafter]
      norm_num [audioDevice, createSineWaveAudioDevice, shrillConfig]
    · rw [(captured_reachable hs).keepsTone_iff hd, hticks] at hk
      exact absurd hk (by decide)

end ApprtcCli.Audio
