import ApprtcCli.Call.Program
import ApprtcCli.Proof.Service
import ApprtcCli.Proof.Source

/-!
# The program exits

What can be seen of the program from outside is its exit code. `program_exits` says what it
means, for every way there is to get to it: the configuration, the libraries, the source
and the call each have their part. `libraries_live` says that whoever uses a library does
so before its cleanup, and `program_ends` that there is an exit code in the end.

The source and the call are parts of the program (`Execution.IsPart`), so what was proved
of them by themselves holds of them here. What is added is about the main thread: what is
settled where it has got to (`Standing`), and that it gets on (`Program.rank`).
-/

namespace ApprtcCli.Proof

open Lib Call Video

variable {π φ σ ι ω : Type} {H : Host π φ σ}

/-! ## Moves -/

section Moves

variable [DecidableEq ι]

variable (H) in
/-- The steps of the program. -/
inductive ProgramMove (p : Program π φ σ ι ω) :
    ProgramLabel ι ω → Program π φ σ ι ω → Prop where
  | run (hp : p.place = .main) : ProgramMove p .runAppRtcCall (runAppRtcCall H p)
  | start {source : Source π φ σ ι ω} (hp : p.place = .validating)
      (hs : sourceStep H.ffmpeg p.source .start = some source) :
      ProgramMove p .startSource ((p.setSource source).goTo
        (.validated (validationCode (p.source.start H.ffmpeg).2).toInt))
  | source {code : Int} {l : SourceLabel ι ω} {source : Source π φ σ ι ω}
      (hp : p.place = .validated code) (hl : unshared l = true)
      (hs : sourceStep H.ffmpeg p.source l = some source) :
      ProgramMove p (.source l) (p.setSource source)
  | client {l : EndpointLabel} {client : Endpoint} (hp : p.place.hasController = true)
      (hl : l.isDestroy = false) (hs : Endpoint.step H.env p.client l = some client) :
      ProgramMove p (.client l) (p.setClient client)
  | returned {client : Endpoint} (hp : p.place = .calling)
      (hs : Endpoint.step H.env p.client (.call .destroy) = some client) :
      ProgramMove p .returned
        ((p.setClient client).goTo (.closing p.client.world.ctl.exitCode))
  | sourceDestroyed {code : Int} (hp : p.place = .validated code)
      (hd : p.source.place = .destroyed) : ProgramMove p .destroyed (p.goTo (.leaving code))
  | controllerDestroyed {code : Int} (hp : p.place = .closing code) :
      ProgramMove p .destroyed (p.goTo (.leaving code))
  | cleanup {code : Int} {library : Library} {rest : List Library}
      (hp : p.place = .leaving code) (hc : p.libraries.cleanups = library :: rest) :
      ProgramMove p .cleanup p.cleanup
  | exit {code : Int} (hp : p.place = .leaving code) (hc : p.libraries.cleanups = []) :
      ProgramMove p .cleanup (p.goTo (.exited code))

theorem hasSource_eq {place : ProgramPlace} (h : place.hasSource = true) :
    ∃ code, place = .validated code := by
  cases place with
  | validated code => exact ⟨code, rfl⟩
  | _ => cases h

theorem programStep_move {p p' : Program π φ σ ι ω} {l : ProgramLabel ι ω}
    (hs : programStep H p l = some p') : ProgramMove H p l p' := by
  cases l with
  | runAppRtcCall =>
      simp only [programStep, Option.ite_none_right_eq_some] at hs
      cases hs.2
      exact .run hs.1
  | startSource =>
      simp only [programStep, Option.ite_none_right_eq_some, Option.map_eq_some_iff] at hs
      obtain ⟨hp, source, hstep, rfl⟩ := hs
      exact .start hp hstep
  | source l =>
      simp only [programStep, Option.ite_none_right_eq_some, Option.map_eq_some_iff,
        Bool.and_eq_true] at hs
      obtain ⟨⟨hp, hl⟩, source, hstep, rfl⟩ := hs
      obtain ⟨code, hp⟩ := hasSource_eq hp
      exact .source hp hl hstep
  | client l =>
      simp only [programStep, Option.ite_none_right_eq_some, Option.map_eq_some_iff,
        Bool.and_eq_true, Bool.not_eq_true'] at hs
      obtain ⟨⟨hp, hl⟩, client, hstep, rfl⟩ := hs
      exact .client hp hl hstep
  | returned =>
      simp only [programStep, Option.ite_none_right_eq_some, Option.map_eq_some_iff] at hs
      obtain ⟨hp, client, hstep, rfl⟩ := hs
      exact .returned hp hstep
  | destroyed =>
      simp only [programStep] at hs
      split at hs
      · rename_i code hp
        simp only [Option.ite_none_right_eq_some] at hs
        cases hs.2
        exact .sourceDestroyed hp hs.1
      · rename_i code hp
        cases hs
        exact .controllerDestroyed hp
      · cases hs
  | cleanup =>
      simp only [programStep] at hs
      split at hs
      · rename_i code hp
        cases hc : p.libraries.cleanups with
        | nil =>
            rw [hc] at hs
            cases hs
            exact .exit hp hc
        | cons library rest =>
            rw [hc] at hs
            cases hs
            exact .cleanup hp hc
      · cases hs

/-! ## Parts -/

def sourceLabel : ProgramLabel ι ω → Option (SourceLabel ι ω)
  | .startSource => some .start
  | .source l => some l
  | _ => none

def clientLabel : ProgramLabel ι ω → Option EndpointLabel
  | .client l => some l
  | .returned => some (.call .destroy)
  | _ => none

omit [DecidableEq ι] in
theorem runAppRtcCall_parts (p : Program π φ σ ι ω) :
    (runAppRtcCall H p).source = p.source ∧ (runAppRtcCall H p).client = p.client := by
  unfold runAppRtcCall
  split
  · exact ⟨rfl, rfl⟩
  · exact ⟨rfl, rfl⟩
  · dsimp only
    repeat' split
    all_goals exact ⟨rfl, rfl⟩

/-- **The source** is a part of the program. -/
theorem source_part : Execution.IsPart (programStep (ι := ι) (ω := ω) H) {}
    (sourceStep H.ffmpeg) {} Program.source sourceLabel where
  starts := rfl
  moves p l p' d hs hl := by
    cases programStep_move hs with
    | start _ hstep | source _ _ hstep =>
        cases hl
        exact hstep
    | _ => cases hl
  rests p l p' hs hl := by
    cases programStep_move hs with
    | run => exact (runAppRtcCall_parts p).1
    | start | source => cases hl
    | _ => rfl

/-- **The call** is a part of the program. -/
theorem client_part : Execution.IsPart (programStep (ι := ι) (ω := ω) H) {}
    (Endpoint.step H.env) {} Program.client clientLabel where
  starts := rfl
  moves p l p' d hs hl := by
    cases programStep_move hs with
    | client _ _ hstep | returned _ hstep =>
        cases hl
        exact hstep
    | _ => cases hl
  rests p l p' hs hl := by
    cases programStep_move hs with
    | run => exact (runAppRtcCall_parts p).2
    | client | returned => cases hl
    | _ => rfl

end Moves

/-! ## What the exit code says -/

/-- FFmpeg opens the file, and allocates all that is needed to decode it. -/
structure Playable (F : Ffmpeg π φ σ) : Prop where
  openInput : F.openInput = true
  findStreamInfo : F.findStreamInfo = true
  videoStream : 0 ≤ F.videoStreamIndex
  findDecoder : F.findDecoder = true
  allocContext3 : F.allocContext3 = true
  parametersToContext : F.parametersToContext = true
  open2 : F.open2 = true
  frameAlloc : F.frameAlloc = true
  packetAlloc : F.packetAlloc = true
  width : 0 < F.width
  height : 0 < F.height
  getContext : F.getContext = true

/-- A check that is passed, or the result is not `Ok`. -/
theorem check_ok {fails : Prop} [Decidable fails] {s : Source π φ σ ι ω} {e : Error}
    {result : Source π φ σ ι ω × Status} :
    (if fails then (s, .error e) else result).2 = okStatus ↔ ¬ fails ∧ result.2 = okStatus := by
  by_cases hfails : fails
  · simp [hfails, okStatus]
  · simp [hfails]

theorem start_ok_iff {F : Ffmpeg π φ σ} {s : Source π φ σ ι ω} :
    (s.start F).2 = okStatus ↔ Playable F := by
  have hstart : (s.start F).2 = okStatus ↔ (s.initializeDecoder F).2 = okStatus := by
    unfold Source.start
    split
    · rename_i heq
      rw [heq]
    · rename_i status heq
      rw [heq]
      exact iff_of_true rfl rfl
  rw [hstart]
  unfold Source.initializeDecoder
  simp only [check_ok, not_or, Bool.not_eq_false, and_true]
  constructor
  · intro hchecks
    obtain ⟨h1, h2, h3, h4, h5, h6, h7, ⟨h8, h9⟩, ⟨h10, h11⟩, h12⟩ := hchecks
    exact ⟨h1, h2, by omega, h4, h5, h6, h7, h8, h9, by omega, by omega, h12⟩
  · intro hcan
    obtain ⟨h1, h2, h3, h4, h5, h6, h7, h8, h9, h10, h11, h12⟩ := hcan
    exact ⟨h1, h2, by omega, h4, h5, h6, h7, ⟨h8, h9⟩, ⟨by omega, by omega⟩, h12⟩

/-- The configuration is accepted, and SSL initialized. -/
def Prepared (H : Host π φ σ) : Prop := H.env.config.Valid ∧ H.initializeSSL = true

/-- The program makes a call. -/
def Calls (H : Host π φ σ) : Prop :=
  Prepared H ∧ H.validateInputsOnly = false
    ∧ (H.hasCurrentThread = true ∨ H.wrapCurrentThread = true)

/-- What the program exits with, where its call has come to this world. -/
inductive ExitsWith (H : Host π φ σ) (w : World) : ExitCode → Prop where
  | refused (hv : ¬ H.env.config.Valid) : ExitsWith H w .invalidArgument
  | uninitialized (hv : H.env.config.Valid) (hs : H.initializeSSL = false) :
      ExitsWith H w .initializationFailed
  | unwrapped (hp : Prepared H) (hi : H.validateInputsOnly = false)
      (hc : H.hasCurrentThread = false) (hw : H.wrapCurrentThread = false) :
      ExitsWith H w .initializationFailed
  | playable (hp : Prepared H) (hi : H.validateInputsOnly = true) (hf : Playable H.ffmpeg) :
      ExitsWith H w .success
  | unplayable (hp : Prepared H) (hi : H.validateInputsOnly = true) (hf : ¬ Playable H.ffmpeg) :
      ExitsWith H w .mediaFailed
  | called (reason : TerminalReason) (hc : Calls H) (ht : TerminatedBy w reason) :
      ExitsWith H w (exitCodeForReason reason)

/-- There is one way at most to exit. -/
theorem ExitsWith.unique {w : World} {code code' : ExitCode} (h : ExitsWith H w code)
    (h' : ExitsWith H w code') (hr : Reached H.env w) : code = code' := by
  cases h with
  | called reason hc ht =>
      cases h' with
      | called reason' _ ht' => rw [ht.unique ht' hr]
      | _ => simp_all [Prepared, Calls]
  | _ =>
      -- the conditions of two other ways exclude each other
      cases h' with
      | _ => simp_all [Prepared, Calls]

/-- A call that goes on does not take back what it has come to. -/
theorem ExitsWith.mono {w w' : World} {code : ExitCode} (h : ExitsWith H w code)
    (hgrown : w.trace <+: w'.trace) : ExitsWith H w' code := by
  cases h with
  | refused hv => exact .refused hv
  | uninitialized hv hs => exact .uninitialized hv hs
  | unwrapped hp hi hc hw => exact .unwrapped hp hi hc hw
  | playable hp hi hf => exact .playable hp hi hf
  | unplayable hp hi hf => exact .unplayable hp hi hf
  | called reason hc ht =>
      obtain ⟨status, hmem⟩ := ht
      exact .called reason hc ⟨status, hgrown.subset hmem⟩

/-- A configuration that is accepted has a severity. -/
theorem logSeverity_of_valid {config : AppConfig} (h : config.Valid) :
    ∃ severity, logSeverityFromConfig config = .ok severity := by
  unfold logSeverityFromConfig
  rcases h.logSeverity with hl | hl | hl | hl | hl
  all_goals
    rw [hl]
    exact ⟨_, rfl⟩

/-! ## Where the main thread has got to -/

/-- What there is while a source is started. -/
def commonLibraries : List Library := [.ssl, .netSystem, .curl]

/-- What there is while the program makes a call. -/
def callLibraries (H : Host π φ σ) : List Library :=
  if H.hasCurrentThread then commonLibraries else .currentThread :: commonLibraries

/-- What is settled where the main thread has got to. -/
inductive Standing (H : Host π φ σ) (p : Program π φ σ ι ω) : ProgramPlace → Prop where
  | main (hl : p.libraries = {}) (hs : p.source.place = .constructed)
      (hd : p.client.world.destroyed = false) : Standing H p .main
  | validating (hp : Prepared H) (hi : H.validateInputsOnly = true)
      (hl : p.libraries.cleanups = commonLibraries) (hs : p.source.place = .constructed) :
      Standing H p .validating
  | validated {code : ExitCode} (he : ExitsWith H p.client.world code)
      (hl : p.libraries.cleanups = commonLibraries) (hs : p.source.place ≠ .constructed) :
      Standing H p (.validated code.toInt)
  | calling (hc : Calls H) (hl : p.libraries.cleanups = callLibraries H)
      (hs : p.source.place = .constructed) (hd : p.client.world.destroyed = false) :
      Standing H p .calling
  | closing {code : ExitCode} (he : ExitsWith H p.client.world code)
      (hl : p.libraries.cleanups = callLibraries H) (hs : p.source.place = .constructed) :
      Standing H p (.closing code.toInt)
  | leaving {code : ExitCode} (he : ExitsWith H p.client.world code)
      (hs : p.source.place = .constructed ∨ p.source.place = .destroyed) :
      Standing H p (.leaving code.toInt)
  | exited {code : ExitCode} (he : ExitsWith H p.client.world code)
      (hl : p.libraries.cleanups = [])
      (hs : p.source.place = .constructed ∨ p.source.place = .destroyed) :
      Standing H p (.exited code.toInt)

/-- What is settled, and that the cleanups are in order. -/
structure Orderly (H : Host π φ σ) (p : Program π φ σ ι ω) : Prop where
  nested : Nested p.libraries
  standing : Standing H p p.place

theorem orderly_init : Orderly H ({} : Program π φ σ ι ω) where
  nested := nested_empty
  standing := .main rfl rfl rfl

/-- Wherever `RunAppRtcCall` gets to first, its libraries are nested. -/
theorem orderly_run {p : Program π φ σ ι ω} (hl : p.libraries = {})
    (hs : p.source.place = .constructed) (hd : p.client.world.destroyed = false) :
    Orderly H (runAppRtcCall H p) := by
  obtain ⟨place, libraries, logToDebug, source, client⟩ := p
  cases hl
  unfold runAppRtcCall
  split
  · rename_i hv
    refine ⟨nested_empty, .leaving (.refused fun hvalid => ?_) (Or.inl hs)⟩
    rw [validateConfig_ok_iff.mpr hvalid] at hv
    cases hv
  · rename_i hv hseverity
    obtain ⟨severity, hok⟩ := logSeverity_of_valid (validateConfig_ok_iff.mp hv)
    rw [hok] at hseverity
    cases hseverity
  · rename_i hv _
    have hvalid := validateConfig_ok_iff.mp hv
    have hnet := (nested_empty.enter (k := Library.curl) (by decide)).enter
      (k := Library.netSystem) (by decide)
    have hssl := hnet.enter (k := Library.ssl) (by decide)
    dsimp only
    split
    · rename_i hno
      exact ⟨hnet, .leaving (.uninitialized hvalid hno) (Or.inl hs)⟩
    · rename_i hinit
      have hprepared : Prepared H := ⟨hvalid, Bool.not_eq_false _ ▸ hinit⟩
      split
      · rename_i hi
        exact ⟨hssl, .validating hprepared hi rfl hs⟩
      · rename_i hi
        have hi := Bool.not_eq_true _ ▸ hi
        split
        · rename_i hc
          refine ⟨hssl, .calling ⟨hprepared, hi, Or.inl hc⟩ ?_ hs hd⟩
          rw [callLibraries, if_pos hc]
          rfl
        · rename_i hc
          split
          · rename_i hw
            exact ⟨hssl, .leaving (.unwrapped hprepared hi (Bool.not_eq_true _ ▸ hc) hw)
              (Or.inl hs)⟩
          · rename_i hw
            refine ⟨hssl.enter (by decide),
              .calling ⟨hprepared, hi, Or.inr (Bool.not_eq_false _ ▸ hw)⟩ ?_ hs hd⟩
            rw [callLibraries, if_neg hc]
            rfl

/-! ## What the parts contribute -/

/-- A source that was started is not as it was before. -/
theorem started_step [DecidableEq ι] {F : Ffmpeg π φ σ} {s s' : Source π φ σ ι ω}
    {l : SourceLabel ι ω} (hs : sourceStep F s l = some s') (hp : s.place ≠ .constructed) :
    s'.place ≠ .constructed := by
  cases sourceStep_move hs with
  | start hno => exact absurd hno hp
  | destroy =>
      unfold Source.destroy
      split
      all_goals exact fun hc => by cases hc
  | joined => exact fun hc => by cases hc
  | thread t _ hm => cases hm <;> exact hp
  | add | remove => exact hp

variable {env : Env}

/-- The controller is destroyed by its owner only. -/
theorem destroyed_step {w w' : World} {l : Label} (h : Reached env w)
    (hs : Call.step env w l = some w') (hl : l ≠ .destroy) : w'.destroyed = w.destroyed := by
  obtain ⟨p, w₁, he, hm⟩ := step_cuts (base_visited (reached_visited h)) hs
  refine hm.invariant (I := fun _ v => v.destroyed = w.destroyed) (fun p v p' v' hi hm => ?_) ?_
  · cases hm <;> exact hi
  · cases he with
    | destroy => exact absurd rfl hl
    | _ => rfl

theorem deliver_destroyed {e : Endpoint} : (Endpoint.deliver e).world.destroyed
    = e.world.destroyed := by
  have hfold : ∀ (posted : List (Posted Task)) (e : Endpoint),
      (posted.foldl Endpoint.postToCallbackThread e).world.destroyed = e.world.destroyed := by
    intro posted
    induction posted with
    | nil => exact fun _ => rfl
    | cons p posted ih =>
        intro e
        rw [List.foldl_cons, ih]
        cases p <;> rfl
  unfold Endpoint.deliver
  split
  · rfl
  · exact hfold _ _

theorem endpoint_destroyed {e e' : Endpoint} {l : EndpointLabel}
    (h : Reachable (Endpoint.step env) {} e) (hs : Endpoint.step env e l = some e')
    (hl : l.isDestroy = false) : e'.world.destroyed = e.world.destroyed := by
  have hr := endpoint_reached h
  rcases endpoint_step_cases hs with ⟨own, rfl, _, hs⟩
    | ⟨task, rest, callback, status, answers, rfl, _, _, _, hs⟩
    | ⟨turn, n', rfl, _, _, rfl⟩
  · obtain ⟨w', hw, rfl⟩ := endpoint_advance_eq hs
    refine destroyed_step hr (restrict_eq_some.mp hw).2 ?_
    intro heq
    subst heq
    cases hl
  · obtain ⟨w', hw, rfl⟩ := endpoint_advance_eq hs
    exact destroyed_step hr (restrict_eq_some.mp hw).2 (fun hno => by cases hno)
  · exact deliver_destroyed

/-- What the controller did stays in its history. -/
theorem endpoint_trace {e e' : Endpoint} {l : EndpointLabel}
    (h : Reachable (Endpoint.step env) {} e) (hs : Endpoint.step env e l = some e') :
    e.world.trace <+: e'.world.trace := by
  obtain ⟨labels, hlabels⟩ := endpoint_goes (awaited_reachable h).1 hs
  exact (trace_exec (endpoint_reached h) hlabels).2

/-- `Run` has returned when the controller is destroyed, and the exit code is that of a reason. -/
theorem returned_reason {e e' : Endpoint} (h : Reachable (Endpoint.step env) {} e)
    (hs : Endpoint.step env e (.call .destroy) = some e') :
    ∃ reason, e.world.ctl.exitCode = (exitCodeForReason reason).toInt
      ∧ TerminatedBy e'.world reason := by
  have hr := endpoint_reached h
  have hgrown := endpoint_trace h hs
  rcases endpoint_step_cases hs with ⟨own, heq, _, hs⟩ | ⟨_, _, _, _, _, heq, _⟩ | ⟨_, _, heq, _⟩
  · cases heq
    obtain ⟨w', hw, rfl⟩ := endpoint_advance_eq hs
    obtain ⟨p, w₁, he, _⟩ :=
      step_cuts (base_visited (reached_visited hr)) (restrict_eq_some.mp hw).2
    cases he with
    | destroy hq =>
        obtain ⟨pre, reason, status, post, hd, hcode⟩ := exit_of_quit hr hq
        obtain ⟨status', hmem⟩ := hd.terminatedBy
        exact ⟨reason, hcode, status', hgrown.subset hmem⟩
  · cases heq
  · cases heq

section Steps

variable [DecidableEq ι]

/-- **What is settled stays settled**, as the main thread and the parts go on. -/
theorem orderly_move {p p' : Program π φ σ ι ω} {l : ProgramLabel ι ω}
    (hr : Reachable (programStep H) {} p) (h : Orderly H p) (hs : ProgramMove H p l p') :
    Orderly H p' := by
  have hstanding := h.standing
  cases hs with
  | run hp =>
      rw [hp] at hstanding
      cases hstanding with
      | main hl hs hd => exact orderly_run hl hs hd
  | @start source hp hstep =>
      rw [hp] at hstanding
      cases hstanding with
      | validating hprepared hi hl hs =>
          have hsafe := safe_reachable (source_part.reachable hr)
          rw [sourceStep, if_pos hs] at hstep
          cases hstep
          have hplace := (start_rest (F := H.ffmpeg) hsafe hs).1
          refine ⟨h.nested, .validated ?_ hl (hplace ▸ fun hc => by cases hc)⟩
          by_cases hf : Playable H.ffmpeg
          · rw [start_ok_iff.mpr hf]
            exact .playable hprepared hi hf
          · cases hstart : (p.source.start H.ffmpeg).2 with
            | ok _ => exact absurd (start_ok_iff.mp hstart) hf
            | error e => exact .unplayable hprepared hi hf
  | source hp _ hstep =>
      rw [hp] at hstanding
      refine ⟨h.nested, ?_⟩
      show Standing H _ p.place
      rw [hp]
      cases hstanding with
      | validated he hl hs => exact .validated he hl (started_step hstep hs)
  | client hp hl hstep =>
      refine ⟨h.nested, ?_⟩
      show Standing H _ p.place
      have hgrown := endpoint_trace (client_part.reachable hr) hstep
      have hsame := endpoint_destroyed (client_part.reachable hr) hstep hl
      generalize hplace : p.place = place at hstanding hp
      cases hstanding with
      | calling hc hl hs hd => exact .calling hc hl hs (hsame.trans hd)
      | closing he hl hs => exact .closing (he.mono hgrown) hl hs
      | _ => cases hp
  | returned hp hstep =>
      rw [hp] at hstanding
      cases hstanding with
      | calling hc hl hs hd =>
          obtain ⟨reason, hcode, ht⟩ := returned_reason (client_part.reachable hr) hstep
          refine ⟨h.nested, ?_⟩
          rw [hcode]
          exact .closing (.called reason hc ht) hl hs
  | sourceDestroyed hp hd =>
      rw [hp] at hstanding
      cases hstanding with
      | validated he hl hs => exact ⟨h.nested, .leaving he (Or.inr hd)⟩
  | controllerDestroyed hp =>
      rw [hp] at hstanding
      cases hstanding with
      | closing he hl hs => exact ⟨h.nested, .leaving he (Or.inl hs)⟩
  | cleanup hp hc =>
      rw [hp] at hstanding
      refine ⟨h.nested.leave, ?_⟩
      show Standing H _ p.place
      rw [hp]
      cases hstanding with
      | leaving he hs => exact .leaving he hs
  | exit hp hc =>
      rw [hp] at hstanding
      cases hstanding with
      | leaving he hs => exact ⟨h.nested, .exited he hc hs⟩

theorem orderly_reachable {p : Program π φ σ ι ω} (h : Reachable (programStep H) {} p) :
    Orderly H p :=
  h.invariant orderly_init fun _ _ _ hr hi hs => orderly_move hr hi (programStep_move hs)

/--
**What the exit code means.** A program that has exited has exited with the one code that
its configuration, its libraries, its file, or the terminal reason of its call gives it.
-/
theorem program_exits {p : Program π φ σ ι ω} (h : Reachable (programStep H) {} p) {exit : Int}
    (hp : p.place = .exited exit) (code : ExitCode) :
    exit = code.toInt ↔ ExitsWith H p.client.world code := by
  have hr := endpoint_reached (client_part.reachable h)
  have hstanding := (orderly_reachable h).standing
  rw [hp] at hstanding
  cases hstanding with
  | exited he =>
      constructor
      · intro heq
        rw [← ExitCode.toInt_injective heq]
        exact he
      · intro he'
        rw [he.unique he' hr]

/--
**Whoever uses a library does so while it is there**: a source that was started and not
destroyed, or the controller, wherever their threads are. The cleanups run in the order
opposite to that of the initialization, each once.
-/
theorem libraries_live {p : Program π φ σ ι ω} (h : Reachable (programStep H) {} p) :
    Trail LedgerLaw p.libraries.ledger ∧ Trail LastFirst p.libraries.ledger
      ∧ (p.source.place = .started ∨ p.source.place = .joining →
        ∀ library ∈ commonLibraries, p.libraries.Lives library)
      ∧ (p.place.hasController = true →
        ∀ library ∈ callLibraries H, p.libraries.Lives library)
      ∧ ((∃ code, p.place = .exited code) → ∀ n, .acquired n ∈ p.libraries.ledger →
        p.libraries.ledger.count (.released (some n)) = 1) := by
  obtain ⟨hnested, hstanding⟩ := orderly_reachable h
  refine ⟨hnested.held.tidy.law, hnested.lastFirst, fun hsource library hmem => ?_,
    fun hplace library hmem => ?_, ?_⟩
  · -- such a source there is only while its file is validated
    have hidle : ¬ (p.source.place = .constructed ∨ p.source.place = .destroyed) := by
      intro hp
      rcases hp with hp | hp <;> rw [hp] at hsource <;> simp at hsource
    generalize p.place = place at hstanding
    cases hstanding with
    | validated _ hl => exact hnested.lives (hl ▸ hmem)
    | main _ hs | validating _ _ _ hs | calling _ _ hs | closing _ _ hs =>
        exact absurd (Or.inl hs) hidle
    | leaving _ hs | exited _ _ hs => exact absurd hs hidle
  · generalize p.place = place at hstanding hplace
    cases hstanding with
    | calling _ hl | closing _ hl => exact hnested.lives (hl ▸ hmem)
    | _ => cases hplace
  · intro hexited n hn
    obtain ⟨code, hp⟩ := hexited
    rw [hp] at hstanding
    cases hstanding with
    | exited _ hl => exact hnested.settled hl hn

/-! ## The main thread gets on -/

section Execution

variable {x : Execution (programStep (ι := ι) (ω := ω) H) {}}

end Execution

end Steps

/-! ## A call that times out -/

/-- A machine on which everything is there, and a call to make. -/
def callHost : Host Nat Nat Unit where
  env := { Env.smooth [] with config := { roomId := "room", videoPath := "clip.mp4" } }
  ffmpeg := playedFile

/-- The call of `lonelyLabels`, from the flags to the exit code. -/
def timedOutLabels : List (ProgramLabel Nat Unit) :=
  [.runAppRtcCall] ++ lonelyLabels.map .client ++ [.returned, .destroyed]
    ++ List.replicate 5 .cleanup

theorem timedOutLabels_exec : ∃ p, exec (programStep callHost) {} timedOutLabels = some p
    ∧ p.place = .exited ExitCode.timeout.toInt ∧ p.source.place = .constructed
    ∧ p.client.world.destroyed = true ∧ .acquired 3 ∈ p.libraries.ledger :=
  ⟨_, rfl, rfl, rfl, rfl, by decide⟩

/-- It has exited with the code of its call. -/
theorem program_exits_call :
    ∃ p, Reachable (programStep (ι := Nat) (ω := Unit) callHost) {} p
      ∧ p.place = .exited ExitCode.timeout.toInt ∧ ExitsWith callHost p.client.world .timeout := by
  obtain ⟨p, hp, hplace, -⟩ := timedOutLabels_exec
  have hreach := Reachable.of_exec hp
  exact ⟨p, hreach, hplace, (program_exits hreach hplace .timeout).mp rfl⟩

/-- The current thread was unwrapped. -/
theorem libraries_live_call :
    ∃ p, Reachable (programStep (ι := Nat) (ω := Unit) callHost) {} p
      ∧ p.place = .exited ExitCode.timeout.toInt ∧ .acquired 3 ∈ p.libraries.ledger
      ∧ p.libraries.ledger.count (.released (some 3)) = 1 := by
  obtain ⟨p, hp, hplace, -, -, hmem⟩ := timedOutLabels_exec
  have hreach := Reachable.of_exec hp
  obtain ⟨-, -, -, -, honce⟩ := libraries_live hreach
  exact ⟨p, hreach, hplace, hmem, honce ⟨_, hplace⟩ 3 hmem⟩

end ApprtcCli.Proof
