import ApprtcCli.Audio.SineWave

/-!
# The device and its threads

`SineWaveAudioDeviceModule` as WebRTC calls it. The device's functions are called one at
a time, by one thread; `RegisterAudioCallback` takes the mutex and may be called by any.
`StartRecording` creates the capture thread. `StopRecording` clears the flag and waits in
`join` until that thread has returned, and so do `Terminate` and the destructor.

A round of `CaptureLoop` is four steps here: the flag is read and the buffer filled, the
callback is copied under the mutex, the copy is called, and the thread sleeps. Whatever
else is called lands between two of them.

Assigning to a `std::thread` that was not joined ends the process. `terminated` says that
this was done.
-/

namespace ApprtcCli.Audio

open Lib

/-- Where the capture thread is in a round. -/
inductive CapturePlace (α : Type) where
  /-- At the condition of the loop. -/
  | checking
  /-- The buffer is filled. -/
  | filled
  /-- The callback was copied. -/
  | copied (callback : Option α)
  | sleeping
  | returned
  deriving DecidableEq

structure CaptureThread (d : SineWaveAudioDeviceModule) (K α : Type) where
  /-- Which `StartRecording` created it. -/
  session : ℕ
  buffer : Vector Int (d.samplesPerChannel * d.channels)
  phase : K
  nextTick : ℕ := 0
  place : CapturePlace α := .checking

/-- Who called `StopRecording`. -/
inductive StopCaller where
  | stopRecording
  | terminate
  | destructor
  deriving DecidableEq

/-- What happened at the device, for the history. -/
inductive DeviceAction (α : Type) where
  /-- `RegisterAudioCallback` returned. -/
  | registered (audioCallback : Option α)
  /-- `StartRecording` created a thread. -/
  | started (session : ℕ)
  /-- `StopRecording` cleared the flag. -/
  | stopping
  /-- `StopRecording` returned. -/
  | stopped
  /-- A call of `RecordedDataIsAvailable` was started. -/
  | called (session : ℕ) (callback : α) (data : RecordedData)

structure Device (d : SineWaveAudioDeviceModule) (K α : Type) where
  audioCallback : Option α := none
  recording : Bool := false
  /-- `capture_thread_`, while it is joinable. -/
  captureThread : Option (CaptureThread d K α) := none
  initialized : Bool := false
  recordingInitialized : Bool := false
  /-- The call that waits in `join`. -/
  joining : Option StopCaller := none
  /-- How many threads were created. -/
  sessions : ℕ := 0
  destroyed : Bool := false
  terminated : Bool := false
  log : List (DeviceAction α) := []

/-- The functions of the device, and its destructor. -/
inductive DeviceCall where
  | init
  | initRecording
  | startRecording
  | stopRecording
  | terminate
  | destructor

variable {K : Type} [Field K] [LinearOrder K] [FloorRing K]
variable {d : SineWaveAudioDeviceModule} {α : Type} (T : Trig K)

namespace Device

def startRecording (s : Device d K α) : Device d K α :=
  if s.recording then s
  else if s.captureThread.isSome then { s with recording := true, terminated := true }
  else
    { s with
      recording := true
      captureThread := some
        { session := s.sessions, buffer := Vector.replicate _ 0, phase := 0 }
      sessions := s.sessions + 1
      log := s.log ++ [.started s.sessions] }

/-- `StopRecording` returns, to its caller. -/
def stopped (s : Device d K α) (caller : StopCaller) : Device d K α :=
  { s with
    captureThread := none
    joining := none
    initialized := s.initialized && caller != .terminate
    destroyed := caller == .destructor
    log := s.log ++ [.stopped] }

/-- `StopRecording`, up to `join`. -/
def stopRecording (s : Device d K α) (caller : StopCaller) : Device d K α :=
  let s := { s with recording := false, log := s.log ++ [DeviceAction.stopping] }
  if s.captureThread.isSome then { s with joining := some caller } else s.stopped caller

def registerAudioCallback (s : Device d K α) (audioCallback : Option α) : Device d K α :=
  { s with audioCallback := audioCallback, log := s.log ++ [.registered audioCallback] }

def call (s : Device d K α) : DeviceCall → Device d K α
  | .init => { s with initialized := true }
  | .initRecording => { s with recordingInitialized := true }
  | .startRecording => s.startRecording
  | .stopRecording => s.stopRecording .stopRecording
  | .terminate => s.stopRecording .terminate
  | .destructor => s.stopRecording .destructor

/-- The capture thread has gone on to `t`. -/
def advance (s : Device d K α) (t : CaptureThread d K α) : Device d K α :=
  { s with captureThread := some t }

/-- The capture thread goes one step; a thread that returned goes no further. -/
def capture (s : Device d K α) (t : CaptureThread d K α) : Option (Device d K α) :=
  match t.place with
  | .checking =>
      if s.recording then
        let f := fill T t.buffer t.phase
        some (s.advance { t with buffer := f.buffer.cells, phase := f.phase, place := .filled })
      else some (s.advance { t with place := .returned })
  | .filled => some (s.advance { t with place := .copied s.audioCallback })
  | .copied none => some (s.advance { t with place := .sleeping })
  | .copied (some callback) =>
      some { s.advance { t with place := .sleeping } with
        log := s.log ++ [.called t.session callback (recordedData t.buffer)] }
  | .sleeping => some (s.advance { t with nextTick := t.nextTick + 10, place := .checking })
  | .returned => none

/-- A call waits in `join`, and the thread has returned. -/
def joined (s : Device d K α) : Option (Device d K α) :=
  match s.joining, s.captureThread with
  | some caller, some t =>
      match t.place with
      | .returned => some (s.stopped caller)
      | _ => none
  | _, _ => none

end Device

inductive DeviceLabel (α : Type) where
  /-- The thread that uses the device calls a function of it. -/
  | call (c : DeviceCall)
  /-- Some thread calls `RegisterAudioCallback`. -/
  | registerAudioCallback (audioCallback : Option α)
  /-- The capture thread goes on. -/
  | capture
  /-- `join` returns. -/
  | joined

def deviceStep (s : Device d K α) : DeviceLabel α → Option (Device d K α)
  | .call c =>
      if s.destroyed || s.terminated || s.joining.isSome then none else some (s.call c)
  | .registerAudioCallback audioCallback =>
      if s.destroyed || s.terminated then none else some (s.registerAudioCallback audioCallback)
  | .capture => if s.terminated then none else s.captureThread.bind (s.capture T)
  | .joined => if s.terminated then none else s.joined

/-! ## What the log says -/

/-- What the actions so far come to. -/
structure Told (α : Type) where
  /-- A recording was started, and `StopRecording` has not returned since. -/
  recording : Bool := false
  /-- `StopRecording` cleared the flag, and no recording was started since. -/
  stopping : Bool := false
  /-- The callback registered last. -/
  callback : Option α := none
  /-- The calls started since it was registered. -/
  sinceRegistered : ℕ := 0
  /-- The calls started since the flag was cleared. -/
  sinceStopping : ℕ := 0

def Told.after (h : Told α) : DeviceAction α → Told α
  | .registered audioCallback => { h with callback := audioCallback, sinceRegistered := 0 }
  | .started _ => { h with recording := true, stopping := false }
  | .stopping => { h with stopping := true, sinceStopping := 0 }
  | .stopped => { h with recording := false }
  | .called _ _ _ =>
      { h with sinceRegistered := h.sinceRegistered + 1, sinceStopping := h.sinceStopping + 1 }

def told (log : List (DeviceAction α)) : Told α := log.foldl Told.after {}

/-- When a call may be started. -/
structure MayCall (h : Told α) (callback : α) : Prop where
  /-- Within a recording, and not once `StopRecording` has returned. -/
  recording : h.recording = true
  /-- Of the callback registered last, but for the first call since. -/
  registered : h.callback = some callback ∨ h.sinceRegistered = 0
  /-- Once at most while `StopRecording` waits. -/
  stopping : h.stopping = true → h.sinceStopping = 0

/-- The law of the log. -/
def DeviceLaw (before : List (DeviceAction α)) : DeviceAction α → Prop
  | .called _ callback _ => MayCall (told before) callback
  | .started _ => (told before).recording = false
  | _ => True

/-- The calls of a session, in order. -/
def callsIn (session : ℕ) (log : List (DeviceAction α)) : List (α × RecordedData) :=
  log.filterMap fun
    | .called n callback data => if n = session then some (callback, data) else none
    | _ => none

/-- What the ticks of a loop handed out, in order. -/
def CaptureLoop.handed (loop : CaptureLoop d K α) : List (α × RecordedData) :=
  loop.ticks.filterMap (·.handed)

end ApprtcCli.Audio
