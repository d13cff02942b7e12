import ApprtcCli.Call.Endpoint
import ApprtcCli.Lib.Scope
import ApprtcCli.Video.Source

/-!
# The whole program

`main` hands its flags to `RunAppRtcCall`, and exits with what that returns. The main
thread checks the configuration, initializes the libraries, and then starts a video source
to see that it can, or makes a call, whose signaling thread it is.

Wherever `RunAppRtcCall` returns, the source or the controller is destroyed first, and then
the cleanups run which it has created by then. What it returns was decided before.

The source and the call go on as they do by themselves (`Video/Source.lean`,
`Call/Endpoint.lean`); only the main thread starts, leaves and destroys them.
-/

namespace ApprtcCli.Call

open Lib Video

inductive LoggingSeverity where
  | verbose
  | info
  | warning
  | error
  | none
  deriving DecidableEq, Repr

def logSeverityFromConfig (config : AppConfig) : StatusOr LoggingSeverity :=
  if config.logSeverity = "verbose" then .ok .verbose
  else if config.logSeverity = "info" then .ok .info
  else if config.logSeverity = "warning" then .ok .warning
  else if config.logSeverity = "error" then .ok .error
  else if config.logSeverity = "none" then .ok .none
  else .error ⟨.invalidArgument, "invalid log severity"⟩

/-- What `RunAppRtcCall` creates a cleanup for. -/
inductive Library where
  | curl
  | netSystem
  | ssl
  /-- The wrapper of the current thread. -/
  | currentThread
  deriving DecidableEq, Repr

/-- What the program is run with, and on. -/
structure Host (π φ σ : Type) where
  env : Env
  validateInputsOnly : Bool := false
  ffmpeg : Ffmpeg π φ σ
  initializeSSL : Bool := true
  /-- `Thread::Current()` is not null. -/
  hasCurrentThread : Bool := false
  wrapCurrentThread : Bool := true

/-- How far the main thread has got; once `RunAppRtcCall` returns, with what. -/
inductive ProgramPlace where
  | main
  /-- `Start` of the source is next. -/
  | validating
  /-- The source is destroyed. -/
  | validated (code : Int)
  /-- In `Run` of the controller. -/
  | calling
  /-- The controller is destroyed. -/
  | closing (code : Int)
  /-- The cleanups run. -/
  | leaving (code : Int)
  | exited (code : Int)
  deriving DecidableEq, Repr

structure Program (π φ σ ι ω : Type) where
  place : ProgramPlace := .main
  libraries : Scope Library := {}
  /-- What `LogToDebug` was called with. -/
  logToDebug : Option LoggingSeverity := none
  source : Source π φ σ ι ω := {}
  client : Endpoint := {}

variable {π φ σ ι ω : Type}

namespace Program

def goTo (p : Program π φ σ ι ω) (place : ProgramPlace) : Program π φ σ ι ω :=
  { p with place := place }

def setLogToDebug (p : Program π φ σ ι ω) (severity : LoggingSeverity) : Program π φ σ ι ω :=
  { p with logToDebug := some severity }

def setSource (p : Program π φ σ ι ω) (source : Source π φ σ ι ω) : Program π φ σ ι ω :=
  { p with source := source }

def setClient (p : Program π φ σ ι ω) (client : Endpoint) : Program π φ σ ι ω :=
  { p with client := client }

def enter (p : Program π φ σ ι ω) (library : Library) : Program π φ σ ι ω :=
  { p with libraries := p.libraries.enter library }

def cleanup (p : Program π φ σ ι ω) : Program π φ σ ι ω :=
  { p with libraries := p.libraries.leave }

/-- `RunAppRtcCall` returns where it has neither a source nor a controller. -/
def fail (p : Program π φ σ ι ω) (code : ExitCode) : Program π φ σ ι ω :=
  p.goTo (.leaving code.toInt)

end Program

variable (H : Host π φ σ)

/-- `RunAppRtcCall`, up to the source or the call. -/
def runAppRtcCall (p : Program π φ σ ι ω) : Program π φ σ ι ω :=
  match validateConfig H.env.config, logSeverityFromConfig H.env.config with
  | .error _, _ => p.fail .invalidArgument
  | .ok _, .error _ => p.fail .invalidArgument
  | .ok _, .ok severity =>
      let p := ((p.setLogToDebug severity).enter .curl).enter .netSystem
      if H.initializeSSL = false then p.fail .initializationFailed else
      let p := p.enter .ssl
      if H.validateInputsOnly then p.goTo .validating else
      if H.hasCurrentThread then p.goTo .calling else
      if H.wrapCurrentThread = false then p.fail .initializationFailed else
      (p.enter .currentThread).goTo .calling

/-- What `RunAppRtcCall` returns after `Start` of the source. -/
def validationCode : Status → ExitCode
  | .ok _ => .success
  | .error _ => .mediaFailed

inductive ProgramLabel (ι ω : Type) where
  | runAppRtcCall
  /-- `Start` of the source returns. -/
  | startSource
  /-- The source is destroyed, or its thread goes on. -/
  | source (l : SourceLabel ι ω)
  | client (l : EndpointLabel)
  /-- `Run` returns, and the controller is destroyed. -/
  | returned
  /-- The destructor returns, of the source or of the controller. -/
  | destroyed
  /-- The next cleanup, or the end of them. -/
  | cleanup

/-- What can happen at a source that nobody else holds, once it was started. -/
def unshared : SourceLabel ι ω → Bool
  | .destructor | .joined | .thread _ => true
  | _ => false

def EndpointLabel.isDestroy : EndpointLabel → Bool
  | .call .destroy => true
  | _ => false

/-- There is a source, and `Start` was called. -/
def ProgramPlace.hasSource : ProgramPlace → Bool
  | .validated _ => true
  | _ => false

/-- There is a controller. -/
def ProgramPlace.hasController : ProgramPlace → Bool
  | .calling | .closing _ => true
  | _ => false

def programStep [DecidableEq ι] (p : Program π φ σ ι ω) :
    ProgramLabel ι ω → Option (Program π φ σ ι ω)
  | .runAppRtcCall => if p.place = .main then some (runAppRtcCall H p) else none
  | .startSource =>
      if p.place = .validating then
        (sourceStep H.ffmpeg p.source .start).map fun source =>
          (p.setSource source).goTo
            (.validated (validationCode (p.source.start H.ffmpeg).2).toInt)
      else none
  | .source l =>
      if p.place.hasSource && unshared l then (sourceStep H.ffmpeg p.source l).map p.setSource
      else none
  | .client l =>
      if p.place.hasController && !l.isDestroy then (Endpoint.step H.env p.client l).map p.setClient
      else none
  | .returned =>
      if p.place = .calling then
        (Endpoint.step H.env p.client (.call .destroy)).map fun client =>
          (p.setClient client).goTo (.closing p.client.world.ctl.exitCode)
      else none
  | .destroyed =>
      match p.place with
      | .validated code =>
          if p.source.place = .destroyed then some (p.goTo (.leaving code)) else none
      | .closing code => some (p.goTo (.leaving code))
      | _ => none
  | .cleanup =>
      match p.place with
      | .leaving code =>
          if p.libraries.cleanups.isEmpty then some (p.goTo (.exited code)) else some p.cleanup
      | _ => none

end ApprtcCli.Call
