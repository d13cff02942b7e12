import ApprtcCli.Audio.Device
import ApprtcCli.Lib.Execution
import ApprtcCli.Lib.Trail
import ApprtcCli.Proof.Tone

/-!
# Recording sessions

What WebRTC may rely on when it uses the device. The flag, the thread object and the call
that waits for it say the same thing three times (`Managed`), so no thread is assigned
over another; a call is only started within a recording, of the callback that is
registered, and once at most with a copy that is out of date.

The capture thread of every session is a `CaptureLoop`: the four steps of a round are one
round of that loop, taken when the callback is copied. A flag that is cleared between
the check and the copy is seen by the loop only after its round (`Follows`).
-/

namespace ApprtcCli.Audio

open Lib

variable {K : Type} {d : SineWaveAudioDeviceModule} {α : Type}

/-! ## What the thread that uses the device does -/

/-- The flag, the thread and the call that waits agree. -/
structure Managed (s : Device d K α) : Prop where
  alive : s.terminated = false
  thread : s.captureThread.isSome = (s.recording || s.joining.isSome)
  waits : s.joining.isSome = true → s.recording = false
  recording : (told s.log).recording = s.captureThread.isSome
  stopping : (told s.log).stopping = true → s.recording = false
  callback : (told s.log).callback = s.audioCallback
  /-- A copy is out of date only where nothing was called since. -/
  copied : ∀ t callback, s.captureThread = some t → t.place = .copied (some callback) →
    s.audioCallback = some callback ∨ (told s.log).sinceRegistered = 0
  /-- A round that is under way as the flag is cleared is the only one to call. -/
  late : ∀ t, s.captureThread = some t → (told s.log).stopping = true →
    (t.place = .filled ∨ ∃ callback, t.place = .copied callback) →
      (told s.log).sinceStopping = 0
  law : Trail DeviceLaw s.log

theorem told_concat (log : List (DeviceAction α)) (a : DeviceAction α) :
    told (log ++ [a]) = (told log).after a := List.foldl_concat ..

theorem managed_start : Managed ({} : Device d K α) where
  alive := rfl
  thread := rfl
  waits h := by cases h
  recording := rfl
  stopping h := by cases h
  callback := rfl
  copied _ _ h := by cases h
  late _ h := by cases h
  law := trail_nil _

/-- `StopRecording` returns where its thread is no more. -/
theorem managed_stopped {s : Device d K α} (h : Managed s) (hr : s.recording = false)
    (caller : StopCaller) : Managed (s.stopped caller) := by
  have htold := told_concat s.log .stopped
  refine ⟨h.alive, ?_, fun hw => ?_, ?_, fun _ => hr, ?_, fun t callback ht => ?_,
    fun t ht => ?_, trail_concat.mpr ⟨h.law, trivial⟩⟩
  · simp [Device.stopped, hr]
  · cases hw
  · rw [Device.stopped, htold]
    rfl
  · rw [Device.stopped, htold]
    exact h.callback
  · cases ht
  · cases ht

theorem managed_stopRecording {s : Device d K α} (h : Managed s) (hj : s.joining = none)
    (caller : StopCaller) : Managed (s.stopRecording caller) := by
  have htold := told_concat s.log .stopping
  have hcleared : Managed { s with
      recording := false, log := s.log ++ [.stopping]
      joining := if s.captureThread.isSome then some caller else none } := by
    refine ⟨h.alive, ?_, fun _ => rfl, ?_, fun _ => rfl, ?_, fun t callback ht hp => ?_,
      fun t ht hs hp => ?_, trail_concat.mpr ⟨h.law, trivial⟩⟩
    · cases hc : s.captureThread <;> rfl
    · rw [htold]
      exact h.recording
    · rw [htold]
      exact h.callback
    · rw [htold]
      exact h.copied t callback ht hp
    · rw [htold]
      rfl
  unfold Device.stopRecording
  cases hc : s.captureThread with
  | none =>
      rw [hc] at hcleared
      simpa [hj] using managed_stopped hcleared rfl caller
  | some t =>
      rw [hc] at hcleared
      simpa using hcleared

theorem managed_registered {s : Device d K α} (h : Managed s) (audioCallback : Option α) :
    Managed (s.registerAudioCallback audioCallback) := by
  have htold := told_concat s.log (.registered audioCallback)
  refine ⟨h.alive, h.thread, h.waits, ?_, ?_, ?_, fun t callback ht hp => Or.inr ?_, ?_,
    trail_concat.mpr ⟨h.law, trivial⟩⟩
  all_goals rw [Device.registerAudioCallback, htold]
  · exact h.recording
  · exact h.stopping
  · rfl
  · rfl
  · exact h.late

/-- The capture thread goes on, and calls nobody. -/
theorem managed_advance {s : Device d K α} {t t' : CaptureThread d K α} (h : Managed s)
    (ht : s.captureThread = some t)
    (hcopied : ∀ callback, t'.place = .copied (some callback) → s.audioCallback = some callback)
    (hlate : (told s.log).stopping = true →
      (t'.place = .filled ∨ ∃ callback, t'.place = .copied callback) →
        (told s.log).sinceStopping = 0) : Managed (s.advance t') := by
  have hsome : s.captureThread.isSome = true := by rw [ht]; rfl
  refine ⟨h.alive, ?_, h.waits, ?_, h.stopping, h.callback, ?_, ?_, h.law⟩
  · exact hsome.symm.trans h.thread
  · exact h.recording.trans hsome
  · intro t₁ callback ht₁ hp
    cases ht₁
    exact Or.inl (hcopied callback hp)
  · intro t₁ ht₁ hs hp
    cases ht₁
    exact hlate hs hp

/-- The capture thread is not about to call anybody. -/
theorem managed_away {s : Device d K α} {t t' : CaptureThread d K α} (h : Managed s)
    (ht : s.captureThread = some t) (hfilled : t'.place ≠ .filled)
    (hcopied : ∀ callback, t'.place ≠ .copied callback) : Managed (s.advance t') := by
  refine managed_advance h ht (fun _ hp => absurd hp (hcopied _)) fun _ hp => ?_
  rcases hp with hp | ⟨callback, hp⟩
  · exact absurd hp hfilled
  · exact absurd hp (hcopied callback)

variable [Field K]

theorem managed_startRecording {s : Device d K α} (h : Managed s) (hj : s.joining = none) :
    Managed s.startRecording := by
  unfold Device.startRecording
  by_cases hr : s.recording = true
  · rwa [if_pos hr]
  have hnone : s.captureThread.isSome = false := by
    rw [h.thread, hj]
    simpa using hr
  rw [if_neg hr, if_neg (by rw [hnone]; simp)]
  have htold := told_concat s.log (.started s.sessions)
  refine ⟨h.alive, rfl, fun hw => ?_, ?_, fun hs => ?_, ?_, fun t callback ht hp => ?_,
    fun t ht hs => ?_, trail_concat.mpr ⟨h.law, ?_⟩⟩
  · rw [hj] at hw
    cases hw
  · rw [htold]
    rfl
  · rw [htold] at hs
    cases hs
  · rw [htold]
    exact h.callback
  · cases ht
    cases hp
  · rw [htold] at hs
    cases hs
  · exact h.recording.trans hnone

theorem managed_call {s : Device d K α} (h : Managed s) (hj : s.joining = none)
    (c : DeviceCall) : Managed (s.call c) := by
  cases c with
  | init | initRecording => exact { h with }
  | startRecording => exact managed_startRecording h hj
  | stopRecording | terminate | destructor => exact managed_stopRecording h hj _

/-! ## What the capture thread does -/

variable [LinearOrder K] [FloorRing K] {T : Trig K}

theorem managed_capture {s s' : Device d K α} {t : CaptureThread d K α} (h : Managed s)
    (ht : s.captureThread = some t) (hs : s.capture T t = some s') : Managed s' := by
  unfold Device.capture at hs
  split at hs
  · split at hs
    · rename_i hr
      cases hs
      refine managed_advance h ht (fun _ hp => by cases hp) fun hstop => ?_
      exact Bool.noConfusion (hr.symm.trans (h.stopping hstop))
    · cases hs
      exact managed_away h ht (fun hp => by cases hp) fun _ hp => by cases hp
  · rename_i hplace
    cases hs
    refine managed_advance h ht (fun callback hp => ?_) fun hstop _ => ?_
    · injection hp
    · exact h.late t ht hstop (Or.inl hplace)
  · cases hs
    exact managed_away h ht (fun hp => by cases hp) fun _ hp => by cases hp
  · rename_i callback hplace
    cases hs
    have hsome : s.captureThread.isSome = true := by rw [ht]; rfl
    have htold := told_concat s.log (.called t.session callback (recordedData t.buffer))
    have hmay : MayCall (told s.log) callback := by
      refine ⟨h.recording.trans hsome, ?_, fun hstop => ?_⟩
      · exact (h.copied t callback ht hplace).imp_left fun hc => h.callback.trans hc
      · exact h.late t ht hstop (Or.inr ⟨_, hplace⟩)
    refine ⟨h.alive, ?_, h.waits, ?_, ?_, ?_, ?_, ?_, trail_concat.mpr ⟨h.law, hmay⟩⟩
    · exact hsome.symm.trans h.thread
    · rw [htold]
      exact h.recording.trans hsome
    · rw [htold]
      exact h.stopping
    · rw [htold]
      exact h.callback
    · intro t₁ _ ht₁ hp
      cases ht₁
      cases hp
    · intro t₁ ht₁ _ hp
      cases ht₁
      rcases hp with hp | ⟨_, hp⟩ <;> cases hp
  · cases hs
    exact managed_away h ht (fun hp => by cases hp) fun _ hp => by cases hp
  · cases hs

/-- What a step is: of the thread that uses the device, of another, or of the capture thread. -/
theorem deviceStep_cases {s s' : Device d K α} {l : DeviceLabel α}
    (h : deviceStep T s l = some s') :
    (∃ c, s.joining = none ∧ s' = s.call c)
      ∨ (∃ audioCallback, s' = s.registerAudioCallback audioCallback)
      ∨ (∃ t, s.captureThread = some t ∧ s.capture T t = some s')
      ∨ ∃ t caller, s.captureThread = some t ∧ t.place = .returned ∧ s.joining = some caller
        ∧ s' = s.stopped caller := by
  unfold deviceStep at h
  split at h
  · rename_i c
    split at h
    · cases h
    · rename_i hc
      cases h
      refine Or.inl ⟨c, ?_, rfl⟩
      simp only [Bool.or_eq_true, not_or] at hc
      simpa using hc.2
  · rename_i audioCallback
    split at h
    · cases h
    · cases h
      exact Or.inr (Or.inl ⟨audioCallback, rfl⟩)
  · split at h
    · cases h
    · obtain ⟨t, ht, hs⟩ := Option.bind_eq_some_iff.mp h
      exact Or.inr (Or.inr (Or.inl ⟨t, ht, hs⟩))
  · split at h
    · cases h
    · unfold Device.joined at h
      split at h
      · rename_i caller t hj ht
        split at h
        · rename_i hplace
          cases h
          exact Or.inr (Or.inr (Or.inr ⟨t, caller, ht, hplace, hj, rfl⟩))
        · cases h
      · cases h

theorem managed_step {s s' : Device d K α} {l : DeviceLabel α} (h : Managed s)
    (hs : deviceStep T s l = some s') : Managed s' := by
  rcases deviceStep_cases hs with ⟨c, hj, rfl⟩ | ⟨_, rfl⟩ | ⟨t, ht, hc⟩ | ⟨t, caller, _, _, hj, rfl⟩
  · exact managed_call h hj c
  · exact managed_registered h _
  · exact managed_capture h ht hc
  · exact managed_stopped h (h.waits (by rw [hj]; rfl)) caller

theorem managed_reachable {s : Device d K α} (h : Reachable (deviceStep T) {} s) : Managed s :=
  h.invariant managed_start fun _ _ _ _ hi hs => managed_step hi hs

/-! ## A session is a run of the loop -/

/-- What the thread is about to call. -/
def CaptureThread.pending (t : CaptureThread d K α) : List (α × RecordedData) :=
  match t.place with
  | .copied (some callback) => [(callback, recordedData t.buffer)]
  | _ => []

/-- How far the loop's clock is ahead of the thread's, which ticks as it goes to sleep. -/
def CapturePlace.early : CapturePlace α → ℕ
  | .copied _ => 10
  | .sleeping => 10
  | _ => 0

def CapturePlace.isFilled : CapturePlace α → Bool
  | .filled => true
  | _ => false

def CapturePlace.isReturned : CapturePlace α → Bool
  | .returned => true
  | _ => false

variable (T) in
/-- The thread is where the loop is, or has filled the buffer of the loop's next round. -/
structure Follows (s : Device d K α) (t : CaptureThread d K α) (loop : CaptureLoop d K α) :
    Prop where
  callback : loop.audioCallback = s.audioCallback
  recording : loop.recording = (s.recording || t.place.isFilled)
  returned : loop.returned = t.place.isReturned
  nextTick : loop.nextTick = t.nextTick + t.place.early
  level : t.place.isFilled = false → loop.buffer = t.buffer ∧ loop.phase = t.phase
  filled : t.place.isFilled = true → (fill T loop.buffer loop.phase).buffer.cells = t.buffer
    ∧ (fill T loop.buffer loop.phase).phase = t.phase
  handed : loop.handed = callsIn t.session s.log ++ t.pending

variable (T) in
/-- A loop that some run gets to. -/
def Captures (loop : CaptureLoop d K α) : Prop :=
  ∃ audioCallback, Reachable (captureStep T) (CaptureLoop.start d K audioCallback) loop

theorem Captures.next {loop loop' : CaptureLoop d K α} {e : CaptureLabel α}
    (h : Captures T loop) (hs : captureStep T loop e = some loop') : Captures T loop' := by
  obtain ⟨audioCallback, hreach⟩ := h
  exact ⟨audioCallback, hreach.next hs⟩

/-- The thread goes a step that the loop does not see. -/
theorem Follows.still {s : Device d K α} {t : CaptureThread d K α} {loop : CaptureLoop d K α}
    (h : Follows T s t loop) (t' : CaptureThread d K α) (hsession : t'.session = t.session)
    (hbuffer : t'.buffer = t.buffer) (hphase : t'.phase = t.phase)
    (hfilled : t'.place.isFilled = false ∧ t.place.isFilled = false)
    (hreturned : t'.place.isReturned = t.place.isReturned)
    (htick : t'.nextTick + t'.place.early = t.nextTick + t.place.early)
    {log : List (DeviceAction α)}
    (hhanded : callsIn t.session s.log ++ t.pending = callsIn t.session log ++ t'.pending) :
    Follows T { s.advance t' with log := log } t' loop where
  callback := h.callback
  recording := by
    rw [h.recording, hfilled.1, hfilled.2]
    rfl
  returned := h.returned.trans hreturned.symm
  nextTick := h.nextTick.trans htick.symm
  level _ := by
    rw [hbuffer, hphase]
    exact h.level hfilled.2
  filled hf := by
    rw [hfilled.1] at hf
    cases hf
  handed := by rw [hsession, h.handed, hhanded]

/-- The flag of a loop may be cleared at any time. -/
theorem Captures.flag {loop : CaptureLoop d K α} (h : Captures T loop) {recording : Bool}
    (hr : recording = true → loop.recording = true) :
    Captures T { loop with recording := recording } := by
  cases hb : recording with
  | false => exact h.next (e := .stopRecording) rfl
  | true =>
      have hsame : { loop with recording := true } = loop := by rw [← hr hb]
      rw [hsame]
      exact h

/-- What a round of a loop comes to. -/
theorem round_eq {loop : CaptureLoop d K α} (hr : loop.recording = true) :
    (loop.round T).buffer = (fill T loop.buffer loop.phase).buffer.cells
      ∧ (loop.round T).phase = (fill T loop.buffer loop.phase).phase
      ∧ (loop.round T).nextTick = loop.nextTick + 10
      ∧ (loop.round T).recording = true
      ∧ (loop.round T).audioCallback = loop.audioCallback
      ∧ (loop.round T).returned = loop.returned
      ∧ (loop.round T).handed = loop.handed ++ (loop.audioCallback.map fun callback =>
        (callback, recordedData (fill T loop.buffer loop.phase).buffer.cells)).toList := by
  unfold CaptureLoop.round CaptureLoop.handed
  rw [if_pos hr]
  refine ⟨rfl, rfl, rfl, hr, rfl, rfl, ?_⟩
  rw [List.filterMap_append]
  cases loop.audioCallback <;> rfl

/-- **The callback is copied**: the loop goes round, and then sees whether the flag is cleared. -/
theorem follows_copied {s : Device d K α} {t : CaptureThread d K α} {loop : CaptureLoop d K α}
    (h : Follows T s t loop) (hc : Captures T loop) (hp : t.place = .filled) :
    ∃ loop', Captures T loop'
      ∧ Follows T (s.advance { t with place := .copied s.audioCallback })
        { t with place := .copied s.audioCallback } loop' := by
  have hfilled : t.place.isFilled = true := by rw [hp]; rfl
  have hreturned : loop.returned = false := by rw [h.returned, hp]; rfl
  have hrecording : loop.recording = true := by rw [h.recording, hfilled, Bool.or_true]
  obtain ⟨hcells, hphase⟩ := h.filled hfilled
  obtain ⟨hb, hph, htick, hr, hcb, hret, hhanded⟩ := round_eq (T := T) hrecording
  have hround : Captures T (loop.round T) :=
    hc.next (e := .round) (by rw [captureStep, hreturned]; rfl)
  refine ⟨{ loop.round T with recording := s.recording }, hround.flag fun _ => hr, ?_⟩
  refine ⟨hcb.trans h.callback, (Bool.or_false _).symm, hret.trans hreturned, ?_,
    fun _ => ⟨hb.trans hcells, hph.trans hphase⟩, (fun hf => by cases hf), ?_⟩
  · show (loop.round T).nextTick = _
    rw [htick, h.nextTick, hp]
    rfl
  · show (loop.round T).handed = _
    rw [hhanded, h.handed, hcells, h.callback, CaptureThread.pending, hp, List.append_nil]
    cases s.audioCallback <;> rfl

/-- The calls of one session among more actions. -/
theorem callsIn_concat (n : ℕ) (log : List (DeviceAction α)) (a : DeviceAction α) :
    callsIn n (log ++ [a]) = callsIn n log ++ callsIn n [a] := List.filterMap_append

theorem callsIn_called (n : ℕ) (callback : α) (data : RecordedData) :
    callsIn n [.called n callback data] = [(callback, data)] := by
  simp [callsIn]

/-- **A step of the capture thread** is one of its loop, or none. -/
theorem follows_capture {s s' : Device d K α} {t : CaptureThread d K α}
    {loop : CaptureLoop d K α} (h : Follows T s t loop) (hc : Captures T loop)
    (hs : s.capture T t = some s') :
    ∃ t' loop', s'.captureThread = some t' ∧ t'.session = t.session ∧ Captures T loop'
      ∧ Follows T s' t' loop' := by
  obtain ⟨session, buffer, phase, nextTick, place⟩ := t
  cases place with
  | checking =>
      obtain ⟨hbuffer, hphase⟩ := h.level rfl
      have hrecording : loop.recording = s.recording := h.recording.trans (Bool.or_false _)
      cases hr : s.recording with
      | true =>
          simp only [Device.capture, hr] at hs
          cases hs
          refine ⟨_, loop, rfl, rfl, hc, h.callback, ?_, h.returned, h.nextTick,
            (fun hf => by cases hf), fun _ => ?_, h.handed⟩
          · rw [hrecording, hr]
            exact (Bool.or_true _).symm
          · rw [hbuffer, hphase]
            exact ⟨rfl, rfl⟩
      | false =>
          simp only [Device.capture, hr] at hs
          cases hs
          have hround : captureStep T loop .round = some { loop with returned := true } := by
            rw [captureStep, h.returned, CaptureLoop.round, hrecording, hr]
            rfl
          refine ⟨_, _, rfl, rfl, hc.next hround, h.callback, ?_, rfl, h.nextTick,
            fun _ => ⟨hbuffer, hphase⟩, (fun hf => by cases hf), h.handed⟩
          exact hrecording.trans (Bool.or_false _).symm
  | filled =>
      cases hs
      obtain ⟨loop', hc', h'⟩ := follows_copied h hc rfl
      exact ⟨_, loop', rfl, rfl, hc', h'⟩
  | copied callback =>
      cases callback with
      | none =>
          cases hs
          exact ⟨_, loop, rfl, rfl, hc,
            h.still ⟨session, buffer, phase, nextTick, .sleeping⟩ rfl rfl rfl ⟨rfl, rfl⟩
              rfl rfl rfl⟩
      | some callback =>
          cases hs
          refine ⟨_, loop, rfl, rfl, hc,
            h.still ⟨session, buffer, phase, nextTick, .sleeping⟩ rfl rfl rfl ⟨rfl, rfl⟩
              rfl rfl ?_⟩
          dsimp only
          rw [callsIn_concat, callsIn_called]
          simp [CaptureThread.pending]
  | sleeping =>
      cases hs
      exact ⟨_, loop, rfl, rfl, hc,
        h.still ⟨session, buffer, phase, nextTick + 10, .checking⟩ rfl rfl rfl ⟨rfl, rfl⟩
          rfl rfl rfl⟩
  | returned => cases hs

/-! ## Every session -/

variable (T) in
/-- The sessions of a device: the one that goes on, and those that are over. -/
structure Sessions (s : Device d K α) : Prop where
  numbered : ∀ n callback data, .called n callback data ∈ s.log → n < s.sessions
  current : ∀ t, s.captureThread = some t → t.session + 1 = s.sessions
    ∧ ∃ loop, Captures T loop ∧ Follows T s t loop
  past : ∀ n < s.sessions, (∀ t, s.captureThread = some t → t.session ≠ n) →
    ∃ loop : CaptureLoop d K α, Captures T loop ∧ loop.returned = true
      ∧ loop.handed = callsIn n s.log

/-- An action that calls nobody is in no session. -/
def noCall : DeviceAction α → Bool
  | .called _ _ _ => false
  | _ => true

theorem callsIn_noCall (n : ℕ) (log : List (DeviceAction α)) {a : DeviceAction α}
    (h : noCall a = true) : callsIn n (log ++ [a]) = callsIn n log := by
  rw [callsIn_concat]
  cases a <;> first | exact List.append_nil _ | cases h

theorem sessions_start : Sessions T ({} : Device d K α) where
  numbered _ _ _ h := by cases h
  current _ h := by cases h
  past _ h := by cases h

/-- Actions that call nobody leave the sessions as they are. -/
theorem Sessions.logged {s s' : Device d K α} (h : Sessions T s) {a : DeviceAction α}
    (ha : noCall a = true) (hlog : s'.log = s.log ++ [a]) (hn : s'.sessions = s.sessions)
    (ht : s'.captureThread = s.captureThread)
    (hfollows : ∀ t loop, s.captureThread = some t → Captures T loop → Follows T s t loop →
      ∃ loop', Captures T loop' ∧ Follows T s' t loop') : Sessions T s' where
  numbered n callback data hmem := by
    rw [hlog] at hmem
    rw [hn]
    rcases List.mem_append.mp hmem with hmem | hmem
    · exact h.numbered n callback data hmem
    · cases List.mem_singleton.mp hmem
      cases ha
  current t ht' := by
    rw [ht] at ht'
    obtain ⟨hsession, loop, hc, hf⟩ := h.current t ht'
    exact ⟨hn ▸ hsession, hfollows t loop ht' hc hf⟩
  past n hlt hne := by
    rw [ht] at hne
    rw [hn] at hlt
    obtain ⟨loop, hc, hr, hcalls⟩ := h.past n hlt hne
    exact ⟨loop, hc, hr, by rw [hlog, callsIn_noCall n _ ha, hcalls]⟩

theorem sessions_registered {s : Device d K α} (h : Sessions T s) (audioCallback : Option α) :
    Sessions T (s.registerAudioCallback audioCallback) := by
  refine h.logged (a := .registered audioCallback) rfl rfl rfl rfl fun t loop ht hc hf => ?_
  refine ⟨_, hc.next (e := .registerAudioCallback audioCallback) rfl, ?_⟩
  exact ⟨rfl, hf.recording, hf.returned, hf.nextTick, hf.level, hf.filled, by
    rw [Device.registerAudioCallback, callsIn_noCall _ _ rfl]
    exact hf.handed⟩

/-- The flag is cleared: the loop sees it, unless its next round has begun. -/
theorem Follows.cleared {s : Device d K α} {t : CaptureThread d K α} {loop : CaptureLoop d K α}
    (h : Follows T s t loop) (hc : Captures T loop) (joining : Option StopCaller) :
    ∃ loop', Captures T loop' ∧ Follows T { s with
      recording := false, joining := joining, log := s.log ++ [.stopping] } t loop' := by
  refine ⟨{ loop with recording := t.place.isFilled }, hc.flag fun hf => ?_, ?_⟩
  · rw [h.recording, hf, Bool.or_true]
  · exact ⟨h.callback, (Bool.false_or _).symm, h.returned, h.nextTick, h.level, h.filled, by
      rw [callsIn_noCall _ _ rfl]
      exact h.handed⟩

/-- The thread has returned, or there is none: every session is over. -/
theorem sessions_stopped {s : Device d K α} (h : Sessions T s)
    (hreturned : ∀ t, s.captureThread = some t → t.place = .returned) (caller : StopCaller) :
    Sessions T (s.stopped caller) := by
  refine ⟨fun n callback data hmem => ?_, fun t ht => ?_, fun n hlt _ => ?_⟩
  · rcases List.mem_append.mp hmem with hmem | hmem
    · exact h.numbered n callback data hmem
    · cases List.mem_singleton.mp hmem
  · cases ht
  · rw [Device.stopped, callsIn_noCall n _ rfl]
    by_cases hcurrent : ∃ t, s.captureThread = some t ∧ t.session = n
    · obtain ⟨t, ht, rfl⟩ := hcurrent
      obtain ⟨_, loop, hc, hf⟩ := h.current t ht
      have hplace := hreturned t ht
      refine ⟨loop, hc, hf.returned.trans (by rw [hplace]; rfl), ?_⟩
      rw [hf.handed, CaptureThread.pending, hplace, List.append_nil]
    · exact h.past n hlt fun t ht hn => hcurrent ⟨t, ht, hn⟩

theorem sessions_stopRecording {s : Device d K α} (h : Sessions T s) (caller : StopCaller) :
    Sessions T (s.stopRecording caller) := by
  have hcleared : ∀ joining, Sessions T { s with
      recording := false, joining := joining, log := s.log ++ [.stopping] } := fun joining =>
    h.logged (a := .stopping) rfl rfl rfl rfl fun t loop _ hc hf => hf.cleared hc joining
  unfold Device.stopRecording
  cases ht : s.captureThread with
  | none =>
      refine sessions_stopped (s := { s with
          recording := false, log := s.log ++ [.stopping] })
        (hcleared s.joining) (fun t h => ?_) caller
      rw [ht] at h
      cases h
  | some t =>
      rw [ht] at hcleared
      exact hcleared (some caller)

theorem sessions_startRecording {s : Device d K α} (h : Sessions T s) (hm : Managed s)
    (hj : s.joining = none) : Sessions T s.startRecording := by
  unfold Device.startRecording
  by_cases hr : s.recording = true
  · rwa [if_pos hr]
  have hnone : s.captureThread = none := by
    have hthread := hm.thread
    rw [hj, Bool.eq_false_iff.mpr hr] at hthread
    simpa using hthread
  rw [if_neg hr, hnone, if_neg (by simp)]
  -- nothing was called in a session that was not started
  have hunused : callsIn s.sessions s.log = [] := by
    refine List.filterMap_eq_nil_iff.mpr fun a ha => ?_
    cases a with
    | called n callback data =>
        have hlt := h.numbered n callback data ha
        simp only [if_neg (Nat.ne_of_lt hlt)]
    | _ => rfl
  refine ⟨fun n callback data hmem => ?_, fun t ht => ?_, fun n hlt hne => ?_⟩
  · rcases List.mem_append.mp hmem with hmem | hmem
    · exact Nat.lt_succ_of_lt (h.numbered n callback data hmem)
    · cases List.mem_singleton.mp hmem
  · cases ht
    refine ⟨rfl, CaptureLoop.start d K s.audioCallback, ⟨_, Reachable.init⟩, ?_⟩
    refine ⟨rfl, rfl, rfl, rfl, fun _ => ⟨rfl, rfl⟩, (fun hf => by cases hf), ?_⟩
    rw [callsIn_noCall _ _ rfl, hunused]
    rfl
  · rw [callsIn_noCall n _ rfl]
    have hold : n < s.sessions := by
      have hother := hne _ rfl
      dsimp only at hlt hother
      omega
    exact h.past n hold fun t ht => by rw [hnone] at ht; cases ht

theorem sessions_call {s : Device d K α} (h : Sessions T s) (hm : Managed s)
    (hj : s.joining = none) (c : DeviceCall) : Sessions T (s.call c) := by
  cases c with
  | init | initRecording =>
      refine ⟨h.numbered, fun t ht => ?_, h.past⟩
      obtain ⟨hsession, loop, hc, hf⟩ := h.current t ht
      exact ⟨hsession, loop, hc, { hf with }⟩
  | startRecording => exact sessions_startRecording h hm hj
  | stopRecording | terminate | destructor => exact sessions_stopRecording h _

/-- A step of the thread calls nobody but in its own session. -/
theorem capture_log {s s' : Device d K α} {t : CaptureThread d K α}
    (hs : s.capture T t = some s') : s'.sessions = s.sessions ∧ (s'.log = s.log
      ∨ ∃ callback data, s'.log = s.log ++ [.called t.session callback data]) := by
  unfold Device.capture at hs
  split at hs
  · split at hs <;> cases hs <;> exact ⟨rfl, Or.inl rfl⟩
  all_goals first
    | (cases hs; exact ⟨rfl, Or.inl rfl⟩)
    | (cases hs; exact ⟨rfl, Or.inr ⟨_, _, rfl⟩⟩)
    | cases hs

theorem sessions_capture {s s' : Device d K α} {t : CaptureThread d K α} (h : Sessions T s)
    (ht : s.captureThread = some t) (hs : s.capture T t = some s') : Sessions T s' := by
  obtain ⟨hsession, loop, hc, hf⟩ := h.current t ht
  obtain ⟨t', loop', ht', hsame, hc', hf'⟩ := follows_capture hf hc hs
  obtain ⟨hn, hlog⟩ := capture_log hs
  refine ⟨fun n callback data hmem => ?_, fun t₁ ht₁ => ?_, fun n hlt hne => ?_⟩
  · rw [hn]
    rcases hlog with hlog | ⟨_, _, hlog⟩ <;> rw [hlog] at hmem
    · exact h.numbered n callback data hmem
    · rcases List.mem_append.mp hmem with hmem | hmem
      · exact h.numbered n callback data hmem
      · cases List.mem_singleton.mp hmem
        omega
  · rw [ht'] at ht₁
    cases ht₁
    exact ⟨by rw [hn, hsame]; exact hsession, loop', hc', hf'⟩
  · rw [hn] at hlt
    have hother : t.session ≠ n := hsame ▸ hne t' ht'
    obtain ⟨loop', hover, hr, hcalls⟩ := h.past n hlt fun t₁ ht₁ => by
      rw [ht] at ht₁
      cases ht₁
      exact hother
    refine ⟨loop', hover, hr, ?_⟩
    rcases hlog with hlog | ⟨callback, data, hlog⟩ <;> rw [hlog, hcalls]
    rw [callsIn_concat]
    simp [callsIn, hother]

theorem sessions_step {s s' : Device d K α} {l : DeviceLabel α} (h : Sessions T s)
    (hm : Managed s) (hs : deviceStep T s l = some s') : Sessions T s' := by
  rcases deviceStep_cases hs with ⟨c, hj, rfl⟩ | ⟨_, rfl⟩ | ⟨t, ht, hc⟩
    | ⟨t, caller, ht, hp, hj, rfl⟩
  · exact sessions_call h hm hj c
  · exact sessions_registered h _
  · exact sessions_capture h ht hc
  · refine sessions_stopped h (fun t₁ ht₁ => ?_) caller
    rw [ht] at ht₁
    cases ht₁
    exact hp

theorem sessions_reachable {s : Device d K α} (h : Reachable (deviceStep T) {} s) :
    Sessions T s :=
  h.invariant sessions_start fun _ _ _ hr hi hs => sessions_step hi (managed_reachable hr) hs

/-! ## What is relied on -/

/--
**A device is safe to use.** Whatever is called in whatever order, and wherever the capture
thread is meanwhile: the process is not ended by a thread that was not joined, and none is
left when the device is destroyed; a call is only started within a recording; the first
call since a callback was registered is the only one that may be of another; and at most
one is started while `StopRecording` waits.
-/
theorem recording_lawful (T : Trig K) {s : Device d K α} (h : Reachable (deviceStep T) {} s) :
    s.terminated = false ∧ Trail DeviceLaw s.log
      ∧ (s.recording = false → s.joining = none → s.captureThread = none) := by
  have hm := managed_reachable h
  refine ⟨hm.alive, hm.law, fun hr hj => ?_⟩
  have hthread := hm.thread
  rw [hr, hj] at hthread
  simpa using hthread

/--
**Every session is a run of the capture loop**, from its start and with phase 0: what was
handed out in it is what the ticks of that run handed out, but for a call that is about to
be started. Once it is over that is all of it, and the loop has returned.
-/
theorem sessions_capture_loop (T : Trig K) {s : Device d K α}
    (h : Reachable (deviceStep T) {} s) {n : ℕ} (hn : n < s.sessions) :
    ∃ loop : CaptureLoop d K α, Captures T loop ∧ callsIn n s.log <+: loop.handed
      ∧ loop.handed.length ≤ (callsIn n s.log).length + 1
      ∧ ((∀ t, s.captureThread = some t → t.session ≠ n) →
        loop.returned = true ∧ callsIn n s.log = loop.handed) := by
  have hs := sessions_reachable h
  by_cases hcurrent : ∃ t, s.captureThread = some t ∧ t.session = n
  · obtain ⟨t, ht, rfl⟩ := hcurrent
    obtain ⟨_, loop, hc, hf⟩ := hs.current t ht
    refine ⟨loop, hc, ⟨t.pending, hf.handed.symm⟩, ?_, fun hne => absurd rfl (hne t ht)⟩
    have hpending : t.pending.length ≤ 1 := by
      unfold CaptureThread.pending
      split <;> simp
    rw [hf.handed, List.length_append]
    omega
  · obtain ⟨loop, hc, hr, hcalls⟩ := hs.past n hn fun t ht hne => hcurrent ⟨t, ht, hne⟩
    refine ⟨loop, hc, ?_, ?_, fun _ => ⟨hr, hcalls.symm⟩⟩
    · rw [hcalls]
    · rw [hcalls]
      exact Nat.le_succ _

/-! ## StopRecording returns -/

/-- How many steps a thread is from its return, once the flag is cleared. -/
def CapturePlace.left : CapturePlace α → ℕ
  | .filled => 4
  | .copied _ => 3
  | .sleeping => 2
  | .checking => 1
  | .returned => 0

def Device.left (s : Device d K α) : ℕ := (s.captureThread.map (·.place.left)).getD 0

/-- While a call waits, every step of the thread brings it nearer to its return. -/
theorem capture_left {s s' : Device d K α} {t : CaptureThread d K α}
    (hr : s.recording = false) (ht : s.captureThread = some t)
    (hs : s.capture T t = some s') : s'.left < s.left ∧ s'.joining = s.joining := by
  have hleft : s.left = t.place.left := by rw [Device.left, ht]; rfl
  rw [hleft]
  unfold Device.capture at hs
  rw [hr] at hs
  split at hs
  all_goals
    rename_i hp
    rw [hp]
    cases hs
  all_goals exact ⟨Nat.lt_succ_self _, rfl⟩

/-- The capture thread goes on while a call waits for it, and `join` returns after it. -/
def KeepsGoing (x : Execution (deviceStep (K := K) (d := d) (α := α) T) {}) : Prop :=
  ∀ n, (x.state n).joining.isSome = true → ∃ m, n ≤ m ∧
    ((x.state m).joining = none ∨ x.label m = some .capture ∨ x.label m = some .joined)

/-- A step that a waiting call sees: the thread's, or one that leaves the thread alone. -/
theorem waiting_step {s s' : Device d K α} {l : DeviceLabel α} (hm : Managed s)
    (hj : s.joining.isSome = true) (hs : deviceStep T s l = some s') :
    s'.left ≤ s.left ∧ (l = .capture → s'.left < s.left) ∧ (l = .joined → s'.joining = none) := by
  have hr := hm.waits hj
  cases l with
  | call c =>
      rw [deviceStep, hj, Bool.or_true] at hs
      cases hs
  | registerAudioCallback audioCallback =>
      rw [deviceStep] at hs
      split at hs
      · cases hs
      · cases hs
        exact ⟨Nat.le_refl _, by simp, by simp⟩
  | capture =>
      rw [deviceStep, hm.alive] at hs
      obtain ⟨t, ht, hc⟩ := Option.bind_eq_some_iff.mp hs
      have hlt := (capture_left hr ht hc).1
      exact ⟨Nat.le_of_lt hlt, fun _ => hlt, by simp⟩
  | joined =>
      have hjoined : s.joined = some s' := by simpa [deviceStep, hm.alive] using hs
      unfold Device.joined at hjoined
      split at hjoined
      · split at hjoined
        · cases hjoined
          exact ⟨Nat.zero_le _, by simp, fun _ => rfl⟩
        · cases hjoined
      · cases hjoined

/--
**`StopRecording` returns**, whatever other threads register meanwhile, as long as the
capture thread goes on.
-/
theorem stop_returns (T : Trig K) {x : Execution (deviceStep (K := K) (d := d) (α := α) T) {}}
    (hx : KeepsGoing x) :
    x.LeadsTo (fun s => s.joining.isSome = true) (fun s => s.joining = none) := by
  intro n _
  refine x.ends_of_measure (fun s : Device d K α => s.joining = none) Device.left
    (fun m hno => ?_) (fun m hno => ?_) n
  all_goals have hwaits := Option.isSome_iff_ne_none.mpr hno
  · cases hl : x.label m with
    | none =>
        rw [x.stay_of_label hl]
    | some l =>
        exact (waiting_step (managed_reachable (x.reachable m)) hwaits (x.step_of_label hl)).1
  · obtain ⟨k, hk, hcase⟩ := hx m hwaits
    by_cases hj : (x.state k).joining = none
    · exact ⟨k, hk, Or.inl hj⟩
    have hstep := fun l hl => waiting_step (managed_reachable (x.reachable k))
      (Option.isSome_iff_ne_none.mpr hj) (x.step_of_label (e := l) hl)
    rcases hcase with hover | hl | hl
    · exact absurd hover hj
    · exact ⟨k, hk, Or.inr ((hstep _ hl).2.1 rfl)⟩
    · exact ⟨k + 1, by omega, Or.inl ((hstep _ hl).2.2 rfl)⟩

/-! ## A recording -/

def monoDevice : SineWaveAudioDeviceModule := createSineWaveAudioDevice 48000 1 440

/-- A recording of one tick, which is stopped while its callback is called. -/
def recordingLabels : List (DeviceLabel Unit) :=
  [.registerAudioCallback (some ()), .call .startRecording, .capture, .capture, .capture,
    .call .stopRecording, .capture, .capture, .joined]

theorem recordingLabels_exec :
    ∃ s : Device monoDevice ℝ Unit, exec (deviceStep Trig.real) {} recordingLabels = some s
      ∧ (callsIn 0 s.log).length = 1 ∧ s.sessions = 1 ∧ s.captureThread = none :=
  ⟨_, rfl, rfl, rfl, rfl⟩

theorem recording_lawful_once :
    ∃ s : Device monoDevice ℝ Unit, (callsIn 0 s.log).length = 1 ∧ Trail DeviceLaw s.log := by
  obtain ⟨s, hs, hcalls, -, -⟩ := recordingLabels_exec
  exact ⟨s, hcalls, (recording_lawful Trig.real (Reachable.of_exec hs)).2.1⟩

/-- The one tick of the loop was handed out. -/
theorem sessions_capture_loop_once :
    ∃ loop : CaptureLoop monoDevice ℝ Unit, Captures Trig.real loop ∧ loop.returned = true
      ∧ loop.handed.length = 1 := by
  obtain ⟨s, hs, hcalls, hn, ht⟩ := recordingLabels_exec
  obtain ⟨loop, hc, -, -, hover⟩ := sessions_capture_loop Trig.real (Reachable.of_exec hs)
    (n := 0) (by omega)
  obtain ⟨hr, heq⟩ := hover fun t ht' => by rw [ht] at ht'; cases ht'
  exact ⟨loop, hc, hr, by rw [← heq]; exact hcalls⟩

/-- The execution that stays where the recording ends. -/
noncomputable def recording : Execution (deviceStep (d := monoDevice) (α := Unit) Trig.real) {} :=
  Execution.ofLabels recordingLabels rfl

theorem recording_end {n : ℕ} (hn : recordingLabels.length ≤ n) :
    (recording.state n).joining = none := by
  rw [recording, Execution.ofLabels_end rfl hn]
  rfl

/-- The call that waits after the sixth step is not left waiting. -/
theorem stop_returns_once :
    (recording.state 6).joining = some .stopRecording
      ∧ ∃ m, 6 ≤ m ∧ (recording.state m).joining = none := by
  have hgoing : KeepsGoing recording := fun n _ =>
    ⟨n + recordingLabels.length, by omega, Or.inl (recording_end (by omega))⟩
  exact ⟨rfl, stop_returns Trig.real hgoing 6 rfl⟩

end ApprtcCli.Audio
