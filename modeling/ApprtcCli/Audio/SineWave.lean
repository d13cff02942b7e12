import ApprtcCli.Lib.Grid
import ApprtcCli.Lib.Run
import ApprtcCli.Signaling.Common
import Mathlib.Algebra.Group.ModEq
import Mathlib.Algebra.Order.Field.Basic
import Mathlib.Algebra.Order.Floor.Ring

/-!
# The sine-wave audio device

`SineWaveAudioDeviceModule` and its `CaptureLoop`. A tick of the capture thread fills
a buffer of 10 ms, gives it to the audio callback if one is registered, and waits for
the next tick; the same buffer and the same phase accumulator serve all ticks.

The code computes in doubles. Here it computes exactly, over any ordered field: over
the rationals with the constant as it is written, or over the reals with 2π itself.
`Trig` is what the loop takes from the mathematics library. Its `int`s are integers
here: none that `ValidateConfig` accepts makes a size overflow (`Positive.buffer_fits`).

A step is one round of the thread's loop or one call on another thread, which the
mutex and the atomic flag keep apart. The buffer remembers which slots a tick wrote,
and a tick remembers the accumulator before and after each sample.
-/

namespace ApprtcCli.Audio

open Lib

/-- A full turn, in radians, and the sine. -/
structure Trig (K : Type) [Field K] [LinearOrder K] where
  kTwoPi : K
  sin : K → K
  kTwoPi_pos : 0 < kTwoPi
  abs_sin_le : ∀ x, |sin x| ≤ 1

structure SineWaveAudioDeviceModule where
  sampleRateHz : Int
  numChannels : Int
  frequencyHz : Int
  deriving DecidableEq

def createSineWaveAudioDevice (sampleRateHz numChannels frequencyHz : Int) :
    SineWaveAudioDeviceModule :=
  ⟨sampleRateHz, numChannels, frequencyHz⟩

/-- The device `Initialize` gives to the peer connection factory. -/
def audioDevice (config : AppConfig) : SineWaveAudioDeviceModule :=
  createSineWaveAudioDevice config.audioSampleRateHz config.audioChannels config.audioFrequencyHz

variable {K : Type} [Field K] [LinearOrder K]

namespace SineWaveAudioDeviceModule

variable (d : SineWaveAudioDeviceModule)

/-- A division of ints, which truncates. -/
def samplesPerChannel : ℕ := (d.sampleRateHz.tdiv 100).toNat

def channels : ℕ := d.numChannels.toNat

def phaseIncrement (T : Trig K) : K := T.kTwoPi * d.frequencyHz / d.sampleRateHz

end SineWaveAudioDeviceModule

/-- A conversion of a double to an integer type truncates. -/
def toInt16 [FloorRing K] (x : K) : Int := if 0 ≤ x then ⌊x⌋ else ⌈x⌉

/-- The sample taken at a phase. -/
def Trig.sampleAt [FloorRing K] (T : Trig K) (phase : K) : Int :=
  toInt16 (T.sin phase * 16000)

/-- One sample, with the phase accumulator before and after it. -/
structure Sampling (K : Type) where
  before : K
  sample : Int
  after : K

/-- How far a tick has come with its buffer. -/
structure Filling (d : SineWaveAudioDeviceModule) (K : Type) where
  buffer : Grid Int d.samplesPerChannel d.channels
  phase : K
  samplings : List (Sampling K) := []

/-- What `RecordedDataIsAvailable` is called with. -/
structure RecordedData where
  audioSamples : List Int
  nSamples : ℕ
  nBytesPerSample : ℕ := 2
  nChannels : ℕ
  samplesPerSec : ℕ
  totalDelayMs : ℕ := 0
  clockDrift : Int := 0
  currentMicLevel : ℕ := 0
  keyPressed : Bool := false
  newMicLevel : ℕ := 0
  estimatedCaptureTimeNs : Option Int := none

/-- A tick that was gone through; `α` names audio callbacks. -/
structure Tick (d : SineWaveAudioDeviceModule) (K α : Type) where
  buffer : Grid Int d.samplesPerChannel d.channels
  samplings : List (Sampling K)
  /-- Who was called with what. -/
  handed : Option (α × RecordedData)

structure CaptureLoop (d : SineWaveAudioDeviceModule) (K α : Type) where
  buffer : Vector Int (d.samplesPerChannel * d.channels)
  phase : K
  /-- In milliseconds since the thread was started. -/
  nextTick : ℕ := 0
  recording : Bool := true
  audioCallback : Option α
  returned : Bool := false
  ticks : List (Tick d K α) := []

variable [FloorRing K] {d : SineWaveAudioDeviceModule} {α : Type} (T : Trig K)

/-- One round of the loop over the samples of a buffer. -/
def takeSample (f : Filling d K) (i : Fin d.samplesPerChannel) : Filling d K :=
  let sample := T.sampleAt f.phase
  let phase := f.phase + d.phaseIncrement T
  let phase := if phase > T.kTwoPi then phase - T.kTwoPi else phase
  { buffer := Fin.foldl d.channels
      (fun buffer channel => buffer.put (Grid.slot i channel) sample) f.buffer
    phase := phase
    samplings := f.samplings ++ [⟨f.phase, sample, phase⟩] }

/-- The loop over the samples of a buffer. -/
def fill (cells : Vector Int (d.samplesPerChannel * d.channels)) (phase : K) : Filling d K :=
  Fin.foldl d.samplesPerChannel (takeSample T) { buffer := { cells := cells }, phase := phase }

def recordedData (cells : Vector Int (d.samplesPerChannel * d.channels)) : RecordedData where
  audioSamples := cells.toList
  nSamples := d.samplesPerChannel
  nChannels := d.channels
  samplesPerSec := d.sampleRateHz.toNat

namespace CaptureLoop

/-- The thread as `StartRecording` creates it. -/
def start (d : SineWaveAudioDeviceModule) (K : Type) [Zero K] {α : Type}
    (audioCallback : Option α) : CaptureLoop d K α :=
  { buffer := Vector.replicate _ 0, phase := 0, audioCallback := audioCallback }

/-- One round of the thread's loop. -/
def round (s : CaptureLoop d K α) : CaptureLoop d K α :=
  if s.recording then
    let f := fill T s.buffer s.phase
    { s with
      buffer := f.buffer.cells
      phase := f.phase
      nextTick := s.nextTick + 10
      ticks := s.ticks ++ [
        { buffer := f.buffer
          samplings := f.samplings
          handed := s.audioCallback.map fun callback =>
            (callback, recordedData f.buffer.cells) }] }
  else { s with returned := true }

end CaptureLoop

inductive CaptureLabel (α : Type) where
  /-- The capture thread goes one round. -/
  | round
  /-- Another thread calls `RegisterAudioCallback`. -/
  | registerAudioCallback (audioCallback : Option α)
  /-- Another thread clears `recording_`, in `StopRecording`. -/
  | stopRecording

def captureStep (s : CaptureLoop d K α) : CaptureLabel α → Option (CaptureLoop d K α)
  | .round => if s.returned then none else some (s.round T)
  | .registerAudioCallback audioCallback => some { s with audioCallback := audioCallback }
  | .stopRecording => some { s with recording := false }

/-! ## What was recorded -/

namespace CaptureLoop

/-- The stream of one channel: its samples in all ticks. -/
def channel (s : CaptureLoop d K α) (channel : Fin d.channels) : List Int :=
  s.ticks.flatMap (·.buffer.column channel)

/-- All samples that were taken. -/
def samplings (s : CaptureLoop d K α) : List (Sampling K) := s.ticks.flatMap (·.samplings)

end CaptureLoop

/-- A phase in turns is within one. -/
def Trig.WithinTurn (phase : K) : Prop := phase / T.kTwoPi ∈ Set.Icc 0 1

/-- A run has captured a tone of the device's frequency, at its rate and on all its channels. -/
structure KeepsTone (s : CaptureLoop d K α) : Prop where
  /-- The ticks carry `rate / 100` samples per channel each, -/
  carried : ∀ channel,
    ((s.channel channel).length : ℚ) = s.ticks.length * d.sampleRateHz / 100
  /-- so a hundred of them carry a second's worth. -/
  second : s.ticks.length = 100 → ∀ channel, ((s.channel channel).length : Int) = d.sampleRateHz
  /-- Every tick writes every slot of its buffer, -/
  written : ∀ t ∈ s.ticks, t.buffer.written = List.range (d.samplesPerChannel * d.channels)
  /-- with the same sample on all channels, -/
  equal : ∀ t ∈ s.ticks, ∀ i channel channel',
    t.buffer.read i channel = t.buffer.read i channel'
  /-- and these are the samples it took. -/
  sampled : ∀ channel,
    s.channel channel = s.samplings.map fun sampling => T.sampleAt sampling.before
  /-- Sample `n` is taken where a tone of the frequency is after `n` samples, up to whole turns. -/
  phased : ∀ (n : ℕ) sampling, s.samplings[n]? = some sampling →
    sampling.before / T.kTwoPi ≡ n * d.frequencyHz / d.sampleRateHz [PMOD 1]
  /-- The accumulator is within a turn before and after every sample. -/
  bounded : ∀ sampling ∈ s.samplings, T.WithinTurn sampling.before ∧ T.WithinTurn sampling.after

end ApprtcCli.Audio
