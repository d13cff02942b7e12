import ApprtcCli.Lib.Json

/-!
# The shared vocabulary: statuses, messages, and their JSON forms

`apprtc_common.{h,cc}`. A function that reads JSON returns `none` where a JsonCpp
accessor is called outside its precondition, which ends the process, and
otherwise the status or value it returns.

An absl status that is not OK carries a code and a text, so `Status` is `Except`
with that pair as its error: an error without a code cannot be written down.
-/

namespace ApprtcCli

open Lib

/-- The absl status codes the program uses. -/
inductive ErrorCode where
  | cancelled
  | invalidArgument
  | deadlineExceeded
  | notFound
  | failedPrecondition
  | unimplemented
  | internal
  deriving DecidableEq, Repr

/-- A status that is not OK. -/
structure Error where
  code : ErrorCode
  message : Text
  deriving DecidableEq, Repr

/-- `absl::StatusOr`. -/
abbrev StatusOr := Except Error

/-- `absl::Status`. -/
abbrev Status := StatusOr Unit

/-- `absl::OkStatus()`. -/
def okStatus : Status := .ok ()

def jsonError (context details : Text) : Error :=
  ⟨.invalidArgument, context ++ ": " ++ details⟩

/-! ## Configuration and exit codes -/

inductive ExitCode where
  | success
  | invalidArgument
  | initializationFailed
  | mediaFailed
  | signalingFailed
  | peerConnectionFailed
  | timeout
  | runtimeFailed
  deriving DecidableEq, Repr

/-- The value the process exits with. -/
def ExitCode.toInt : ExitCode → Int
  | success => 0
  | invalidArgument => 2
  | initializationFailed => 3
  | mediaFailed => 4
  | signalingFailed => 5
  | peerConnectionFailed => 6
  | timeout => 7
  | runtimeFailed => 8

theorem ExitCode.toInt_injective : Function.Injective ExitCode.toInt := by
  intro a b h
  cases a <;> cases b <;> first | rfl | exact absurd h (by decide)

structure AppConfig where
  roomServerUrl : Text := "https://appr.tc"
  roomId : Text := []
  videoPath : Text := []
  logSeverity : Text := "info"
  timeoutSeconds : Int := 20
  callDurationSeconds : Int := 4
  statsIntervalSeconds : Int := 1
  audioFrequencyHz : Int := 440
  audioSampleRateHz : Int := 48000
  audioChannels : Int := 1
  deriving DecidableEq

/-- A check of `ValidateConfig`: the error where the condition holds. -/
def rejectIf (condition : Prop) [Decidable condition] (message : Text) : Status :=
  if condition then .error ⟨.invalidArgument, message⟩ else okStatus

def validateConfig (config : AppConfig) : Status := do
  rejectIf (config.roomId.isEmpty) "--room_id must not be empty"
  rejectIf (config.videoPath.isEmpty) "--video_path must not be empty"
  rejectIf (config.logSeverity ≠ "verbose" ∧ config.logSeverity ≠ "info"
      ∧ config.logSeverity ≠ "warning" ∧ config.logSeverity ≠ "error"
      ∧ config.logSeverity ≠ "none")
    "--log_severity must be one of: verbose, info, warning, error, none"
  rejectIf (config.timeoutSeconds ≤ 0) "--timeout_seconds must be > 0"
  rejectIf (config.callDurationSeconds ≤ 0) "--call_duration_seconds must be > 0"
  rejectIf (config.statsIntervalSeconds ≤ 0) "--stats_interval_seconds must be > 0"
  rejectIf (config.audioFrequencyHz ≤ 0) "--audio_frequency_hz must be > 0"
  rejectIf (config.audioSampleRateHz ≤ 0) "--audio_sample_rate_hz must be > 0"
  rejectIf (config.audioChannels ≤ 0) "--audio_channels must be > 0"
  rejectIf (config.callDurationSeconds ≥ config.timeoutSeconds)
    "--call_duration_seconds must be less than --timeout_seconds"
  okStatus

/-- What `validateConfig` accepts. -/
structure AppConfig.Valid (config : AppConfig) : Prop where
  roomId : config.roomId ≠ []
  videoPath : config.videoPath ≠ []
  logSeverity : config.logSeverity = "verbose" ∨ config.logSeverity = "info"
    ∨ config.logSeverity = "warning" ∨ config.logSeverity = "error" ∨ config.logSeverity = "none"
  statsInterval : 0 < config.statsIntervalSeconds
  callDuration : 0 < config.callDurationSeconds
  timeout : config.callDurationSeconds < config.timeoutSeconds
  audioFrequency : 0 < config.audioFrequencyHz
  audioSampleRate : 0 < config.audioSampleRateHz
  audioChannels : 0 < config.audioChannels

theorem rejectIf_then {condition : Prop} [Decidable condition] {message : Text} {rest : Status} :
    (rejectIf condition message >>= fun _ => rest) = okStatus ↔ ¬ condition ∧ rest = okStatus := by
  unfold rejectIf
  split
  · rename_i hc
    exact iff_of_false (fun h => nomatch h) (fun h => h.1 hc)
  · rename_i hc
    exact (and_iff_right hc).symm

theorem validateConfig_ok_iff {config : AppConfig} :
    validateConfig config = okStatus ↔ config.Valid := by
  unfold validateConfig
  simp only [rejectIf_then]
  constructor
  · rintro ⟨hroom, hvideo, hlog, -, hcall, hstats, hfreq, hrate, hchannels, htime, -⟩
    exact
      { roomId := fun h => hroom (by rw [h]; rfl)
        videoPath := fun h => hvideo (by rw [h]; rfl)
        logSeverity := by
          by_contra h
          simp only [not_or] at h
          exact hlog h
        statsInterval := not_le.mp hstats
        callDuration := not_le.mp hcall
        timeout := not_le.mp htime
        audioFrequency := not_le.mp hfreq
        audioSampleRate := not_le.mp hrate
        audioChannels := not_le.mp hchannels }
  · intro h
    refine ⟨fun he => h.roomId (List.isEmpty_iff.mp he),
      fun he => h.videoPath (List.isEmpty_iff.mp he), ?_, ?_, not_le.mpr h.callDuration,
      not_le.mpr h.statsInterval, not_le.mpr h.audioFrequency, not_le.mpr h.audioSampleRate,
      not_le.mpr h.audioChannels, not_le.mpr h.timeout, trivial⟩
    · rintro ⟨h1, h2, h3, h4, h5⟩
      rcases h.logSeverity with hl | hl | hl | hl | hl
      · exact h1 hl
      · exact h2 hl
      · exact h3 hl
      · exact h4 hl
      · exact h5 hl
    · -- a timeout that is longer than the call is positive because the call is
      exact not_le.mpr (lt_trans h.callDuration h.timeout)

/-- One ICE server, as WebRTC takes it. -/
structure IceServer where
  urls : List Text
  username : Text := []
  password : Text := []
  deriving DecidableEq

structure JoinResponse where
  result : Text := []
  roomId : Text := []
  clientId : Text := []
  isInitiator : Bool := false
  wssUrl : Text := []
  wssPostUrl : Text := []
  pcConfigJson : Text := []
  messages : List Text := []
  iceServers : List IceServer := []
  deriving DecidableEq

inductive SignalingMessageType where
  | offer
  | answer
  | candidate
  | bye
  | unknown
  deriving DecidableEq, Repr

structure SignalingMessage where
  type : SignalingMessageType := .unknown
  rawJson : Text := []
  sdpType : Text := []
  sdp : Text := []
  candidate : Text := []
  sdpMid : Text := []
  sdpMlineIndex : Int := 0
  deriving DecidableEq, Repr

/-! ## Reading -/

/-- One element of `iceServers`; without a string url it is dropped by the caller. -/
def parseIceServer (server : Json) : Option IceServer := do
  let urls ← server.get "urls"
  let username ← server.get "username"
  let credential ← server.get "credential"
  some
    { urls := match urls with
        | .string url => [url]
        | .array values => values.filterMap fun url =>
            match url with
            | .string s => some s
            | _ => none
        | _ => []
      username := match username with
        | .string s => s
        | _ => []
      password := match credential with
        | .string s => s
        | _ => [] }

def parseIceServers (J : JsonCpp) (pcConfigJson : Text) : Option (StatusOr (List IceServer)) :=
  match J.parse pcConfigJson with
  | .error errors => some (.error (jsonError "failed to parse pc_config" errors))
  | .ok root => do
      let iceServers ← root.get "iceServers"
      match iceServers with
      | .array values =>
          let servers ← values.mapM parseIceServer
          some (.ok (servers.filter fun server => !server.urls.isEmpty))
      | _ => some (.error ⟨.invalidArgument, "pc_config does not contain iceServers"⟩)

/-- `root[key].asString()`. -/
def stringMember (J : JsonCpp) (root : Json) (key : Text) : Option Text := do
  let value ← root.get key
  value.asString J

/-- `root[key].asInt()`. -/
def intMember (root : Json) (key : Text) : Option Int := do
  let value ← root.get key
  value.asInt

/-- The part of `ParseSignalingMessage` that reads the parsed document. -/
def readSignalingMessage (J : JsonCpp) (jsonText : Text) (root : Json) :
    Option SignalingMessage := do
  let type ← stringMember J root "type"
  if type = "offer" then
    let sdp ← stringMember J root "sdp"
    some { type := .offer, rawJson := jsonText, sdpType := type, sdp := sdp }
  else if type = "answer" then
    let sdp ← stringMember J root "sdp"
    some { type := .answer, rawJson := jsonText, sdpType := type, sdp := sdp }
  else if type = "candidate" then
    let candidate ← stringMember J root "candidate"
    let sdpMid ← stringMember J root "id"
    let sdpMlineIndex ← intMember root "label"
    some { type := .candidate, rawJson := jsonText, candidate := candidate,
           sdpMid := sdpMid, sdpMlineIndex := sdpMlineIndex }
  else if type = "bye" then
    some { type := .bye, rawJson := jsonText }
  else
    some { type := .unknown, rawJson := jsonText }

def parseSignalingMessage (J : JsonCpp) (jsonText : Text) :
    Option (StatusOr SignalingMessage) :=
  match J.parse jsonText with
  | .error errors => some (.error (jsonError "failed to parse signaling message" errors))
  | .ok root => (readSignalingMessage J jsonText root).map .ok

/-! ## Writing -/

/-- `webrtc::SdpType`. -/
inductive SdpType where
  | offer
  | prAnswer
  | answer
  | rollback
  deriving DecidableEq, Repr

def sdpTypeToString : SdpType → Text
  | .offer => "offer"
  | .prAnswer => "pranswer"
  | .answer => "answer"
  | .rollback => "rollback"

/-- A session description; `text` is what `ToString` yields, absent where it fails. -/
structure SessionDescription where
  type : SdpType
  text : Option Text
  deriving DecidableEq

/-- An ICE candidate; `text` is what `ToString` yields, absent where it fails. -/
structure IceCandidate where
  sdpMid : Text
  sdpMlineIndex : Int
  text : Option Text
  deriving DecidableEq

/-- Members are listed in key order, as JsonCpp keeps them. -/
def serializeSessionDescription (J : JsonCpp) (description : SessionDescription) :
    StatusOr Text :=
  match description.text with
  | none => .error ⟨.internal, "failed to serialize session description"⟩
  | some sdp => .ok (J.write (.object
      [("sdp", .string sdp), ("type", .string (sdpTypeToString description.type))]))

def serializeIceCandidate (J : JsonCpp) (candidate : IceCandidate) : StatusOr Text :=
  match candidate.text with
  | none => .error ⟨.internal, "failed to serialize ice candidate"⟩
  | some sdp => .ok (J.write (.object
      [("candidate", .string sdp), ("id", .string candidate.sdpMid),
       ("label", .int candidate.sdpMlineIndex), ("type", .string "candidate")]))

/-! ## Which texts can be read at all -/

/-- Every member `parseSignalingMessage` converts, for the type the root names, converts. -/
def ReadableRoot (J : JsonCpp) (root : Json) : Prop :=
  root.Indexable ∧ ∃ type, (root.member "type").asString J = some type
    ∧ (type = "offer" ∨ type = "answer" → (root.member "sdp").StringLike)
    ∧ (type = "candidate" → (root.member "candidate").StringLike
        ∧ (root.member "id").StringLike ∧ (root.member "label").IntLike)

/-- Text that is not JSON, or JSON whose shape `parseSignalingMessage` can read. -/
def ReadableMessage (J : JsonCpp) (jsonText : Text) : Prop :=
  ∀ root, J.parse jsonText = .ok root → ReadableRoot J root

theorem stringMember_eq_some_iff {J : JsonCpp} {root : Json} {key s : Text} :
    stringMember J root key = some s ↔
      root.Indexable ∧ (root.member key).asString J = some s := by
  unfold stringMember
  cases root <;> simp [Json.get, Json.Indexable, Json.member]

theorem stringMember_isSome_iff {J : JsonCpp} {root : Json} {key : Text} :
    (stringMember J root key).isSome ↔ root.Indexable ∧ (root.member key).StringLike := by
  rw [← Json.asString_isSome_iff (J := J)]
  unfold stringMember
  cases root <;> simp [Json.get, Json.Indexable, Json.member]

theorem intMember_isSome_iff {root : Json} {key : Text} :
    (intMember root key).isSome ↔ root.Indexable ∧ (root.member key).IntLike := by
  rw [← Json.asInt_isSome_iff]
  unfold intMember
  cases root <;> simp [Json.get, Json.Indexable, Json.member]

/-- A document the reader returns on has every member it converts in a convertible kind. -/
theorem readableRoot_of_read {J : JsonCpp} {text : Text} {root : Json} {m : SignalingMessage}
    (h : readSignalingMessage J text root = some m) : ReadableRoot J root := by
  have hsome : ∀ {key s : Text}, stringMember J root key = some s →
      (root.member key).StringLike := fun hs => (stringMember_isSome_iff.mp (by rw [hs]; rfl)).2
  obtain ⟨type, ht, hbody⟩ := Option.bind_eq_some_iff.mp h
  obtain ⟨hi, hs⟩ := stringMember_eq_some_iff.mp ht
  refine ⟨hi, type, hs, ?_, ?_⟩
  · rintro (rfl | rfl)
    · rw [if_pos rfl] at hbody
      obtain ⟨sdp, hsdp, _⟩ := Option.bind_eq_some_iff.mp hbody
      exact hsome hsdp
    · rw [if_neg (by decide), if_pos rfl] at hbody
      obtain ⟨sdp, hsdp, _⟩ := Option.bind_eq_some_iff.mp hbody
      exact hsome hsdp
  · rintro rfl
    rw [if_neg (by decide), if_neg (by decide), if_pos rfl] at hbody
    obtain ⟨c, hc, hbody⟩ := Option.bind_eq_some_iff.mp hbody
    obtain ⟨mid, hmid, hbody⟩ := Option.bind_eq_some_iff.mp hbody
    obtain ⟨label, hlabel, _⟩ := Option.bind_eq_some_iff.mp hbody
    exact ⟨hsome hc, hsome hmid, (intMember_isSome_iff.mp (by rw [hlabel]; rfl)).2⟩

/-- And conversely: on such a document the reader returns. -/
theorem read_of_readableRoot {J : JsonCpp} {text : Text} {root : Json}
    (h : ReadableRoot J root) : ∃ m, readSignalingMessage J text root = some m := by
  obtain ⟨hi, type, hs, hdesc, hcand⟩ := h
  have ht : stringMember J root "type" = some type := stringMember_eq_some_iff.mpr ⟨hi, hs⟩
  have hmem : ∀ key, (root.member key).StringLike → ∃ s, stringMember J root key = some s :=
    fun key h => Option.isSome_iff_exists.mp (stringMember_isSome_iff.mpr ⟨hi, h⟩)
  unfold readSignalingMessage
  rw [ht]
  simp only [Option.bind_eq_bind, Option.bind_some]
  by_cases h1 : type = "offer"
  · obtain ⟨sdp, hsdp⟩ := hmem _ (hdesc (Or.inl h1))
    rw [if_pos h1, hsdp]
    exact ⟨_, rfl⟩
  rw [if_neg h1]
  by_cases h2 : type = "answer"
  · obtain ⟨sdp, hsdp⟩ := hmem _ (hdesc (Or.inr h2))
    rw [if_pos h2, hsdp]
    exact ⟨_, rfl⟩
  rw [if_neg h2]
  by_cases h3 : type = "candidate"
  · obtain ⟨hc, hid, hl⟩ := hcand h3
    obtain ⟨c, hc⟩ := hmem _ hc
    obtain ⟨mid, hmid⟩ := hmem _ hid
    obtain ⟨label, hlabel⟩ := Option.isSome_iff_exists.mp (intMember_isSome_iff.mpr ⟨hi, hl⟩)
    rw [if_pos h3, hc, hmid, hlabel]
    exact ⟨_, rfl⟩
  rw [if_neg h3]
  split <;> exact ⟨_, rfl⟩

/-- `parseSignalingMessage` returns on exactly the readable texts. -/
theorem parseSignalingMessage_isSome_iff {J : JsonCpp} {text : Text} :
    (parseSignalingMessage J text).isSome ↔ ReadableMessage J text := by
  unfold parseSignalingMessage ReadableMessage
  cases hp : J.parse text with
  | error e => simp
  | ok root =>
      simp only [Option.isSome_map, Except.ok.injEq, forall_eq']
      constructor
      · intro h
        obtain ⟨m, hm⟩ := Option.isSome_iff_exists.mp h
        exact readableRoot_of_read hm
      · intro h
        exact Option.isSome_iff_exists.mpr (read_of_readableRoot h)

end ApprtcCli
