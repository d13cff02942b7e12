import ApprtcCli.Signaling.Client
import ApprtcCli.Lib.Url

/-!
# Talking to the room server

The HTTP half of the signaling client: the urls it builds, the two requests it
makes, and how it reads the answers. A request is made on the network thread;
its result reaches the caller as one task on the callback thread, and what has
been reported so far is an argument here, so that a result reported twice or
not at all would show.

A body is written by the server, so its text is arbitrary. As in the websocket
handler, `none` is a process that is gone. `room_responses_handled_iff` says for
which bodies that is; `refusal_named_iff` says when a refusal to join is told as
what it is, which is not always: the result is looked at only after the rest of
the response has been read.
-/

namespace ApprtcCli

open Lib

/-! ## Requests -/

inductive Method where
  | post
  | delete
  deriving DecidableEq, Repr

structure Request where
  method : Method
  url : Text
  body : Text := []
  deriving DecidableEq

/-- What performing a request may come to. -/
inductive Transfer where
  /-- `curl_easy_init` returned null. -/
  | noHandle
  /-- `curl_easy_perform` failed, for a reason `curl_easy_strerror` words. -/
  | failed (reason : Text)
  | done (responseCode : Int) (body : Text)
  deriving DecidableEq

/-- What `c_str()` shows a C function of a text: all up to the first zero byte. -/
def cString (text : Text) : Text := text.takeWhile (· ≠ 0)

namespace AppRtcSignalingClient

/-- `PostJson`, given how the transfer goes. libcurl is given the url as a C string. -/
def postJson (perform : Request → Transfer) (url body : Text) : StatusOr Text :=
  match perform { method := .post, url := cString url, body := body } with
  | .noHandle => .error ⟨.internal, "curl_easy_init failed"⟩
  | .failed reason => .error ⟨.internal, Text.ofString "HTTP POST failed" ++ ": " ++ reason⟩
  | .done responseCode response =>
      if responseCode < 200 ∨ 300 ≤ responseCode then
        .error ⟨.internal,
          Text.ofString "unexpected HTTP response code: " ++ toString responseCode⟩
      else .ok response

def postEmpty (perform : Request → Transfer) (url : Text) : StatusOr Text :=
  postJson perform url []

end AppRtcSignalingClient

open AppRtcSignalingClient

def joinUrl (base suffix : Text) : Text :=
  if base.getLast? = some slash then base.dropLast ++ suffix else base ++ suffix

/-- The url of `JoinRoomAsync`. -/
def joinRoomUrl (roomServerUrl roomId : Text) : Text :=
  joinUrl roomServerUrl (Text.ofString "/join/" ++ roomId)

/-- The url of `SendToRoomAsync`. -/
def messageUrl (roomServerUrl roomId clientId : Text) : Text :=
  joinUrl roomServerUrl (Text.ofString "/message/" ++ roomId ++ "/" ++ clientId)

/-- The url `CloseAsync` deletes. -/
def deleteUrl (joinResponse : JoinResponse) : Text :=
  joinResponse.wssPostUrl ++ "/" ++ joinResponse.roomId ++ "/" ++ joinResponse.clientId

/-! ## Joining -/

def parseInitiatorField : Json → Bool
  | .bool b => b
  | .string s => s = "true"
  | _ => false

/-- The loop over `messages`: a string is taken as it is, an object is written back. -/
def responseMessages (J : JsonCpp) : Json → List Text
  | .array values => values.filterMap fun
      | .string s => some s
      | .object members => some (J.write (.object members))
      | _ => none
  | _ => []

/-- The part of `JoinRoomAsync` that reads `params`. -/
def readJoinParams (J : JsonCpp) (result : Text) (params : Json) : Option JoinResponse := do
  let roomId ← stringMember J params "room_id"
  let clientId ← stringMember J params "client_id"
  let isInitiator ← params.get "is_initiator"
  let wssUrl ← stringMember J params "wss_url"
  let wssPostUrl ← stringMember J params "wss_post_url"
  let pcConfigJson ← stringMember J params "pc_config"
  let messages ← params.get "messages"
  some
    { result := result, roomId := roomId, clientId := clientId,
      isInitiator := parseInitiatorField isInitiator, wssUrl := wssUrl,
      wssPostUrl := wssPostUrl, pcConfigJson := pcConfigJson,
      messages := responseMessages J messages }

/-- The end of `JoinRoomAsync`: the servers are parsed first, and then the result is looked at. -/
def checkJoined (J : JsonCpp) (joinResponse : JoinResponse) : Option (StatusOr JoinResponse) := do
  match ← parseIceServers J joinResponse.pcConfigJson with
  | .error e => some (.error e)
  | .ok iceServers =>
      if joinResponse.result ≠ "SUCCESS" then
        some (.error ⟨.failedPrecondition,
          Text.ofString "join failed with result: " ++ joinResponse.result⟩)
      else some (.ok { joinResponse with iceServers := iceServers })

/-- The result `JoinRoomAsync` reports for a body. -/
def readJoinResponse (J : JsonCpp) (body : Text) : Option (StatusOr JoinResponse) :=
  match parseJson J body with
  | .error e => some (.error e)
  | .ok root => do
      let result ← stringMember J root "result"
      let params ← root.get "params"
      let joinResponse ← readJoinParams J result params
      checkJoined J joinResponse

/-- The member `JoinRoomAsync`. Each exit posts its result to the callback thread and returns. -/
def AppRtcSignalingClient.joinRoomAsync (J : JsonCpp) (perform : Request → Transfer)
    (roomServerUrl roomId : Text) (reported : List (StatusOr JoinResponse)) :
    Option (List (StatusOr JoinResponse)) :=
  match postEmpty perform (joinRoomUrl roomServerUrl roomId) with
  | .error e => some (reported ++ [.error e])
  | .ok body => do
      let result ← readJoinResponse J body
      some (reported ++ [result])

/-! ## Sending -/

/-- The part of `ParseMessageResponse` that reads the parsed document. -/
def readMessageResponse (J : JsonCpp) (root : Json) : Option Status := do
  let result ← stringMember J root "result"
  let error ← root.get "error"
  let error : Text := match error with
    | .string s => s
    | _ => []
  if result ≠ "SUCCESS" then
    some (.error ⟨.internal,
      if error.isEmpty then Text.ofString "room message failed with result: " ++ result
      else error⟩)
  else some okStatus

def parseMessageResponse (J : JsonCpp) (responseText : Text) : Option Status :=
  match parseJson J responseText with
  | .error e => some (.error e)
  | .ok root => readMessageResponse J root

/-- The member `SendToRoomAsync`. The response is read in the task that is posted back. -/
def AppRtcSignalingClient.sendToRoomAsync (J : JsonCpp) (perform : Request → Transfer)
    (roomServerUrl roomId clientId messageJson : Text) (reported : List Status) :
    Option (List Status) :=
  match postJson perform (messageUrl roomServerUrl roomId clientId) messageJson with
  | .error e => some (reported ++ [.error e])
  | .ok response => do
      let status ← parseMessageResponse J response
      some (reported ++ [status])

/-! ## Which bodies can be read -/

/-- The string urls of a server, in order. -/
def stringUrls (server : Json) : List Text :=
  match server.member "urls" with
  | .string url => [url]
  | .array values => values.filterMap fun
      | .string s => some s
      | _ => none
  | _ => []

/-- Every element of `iceServers`, where that is an array, can be looked into. -/
def ReadablePcConfig (J : JsonCpp) (text : Text) : Prop :=
  ∀ root, J.parse text = .ok root → root.Indexable
    ∧ ∀ values, root.member "iceServers" = .array values → ∀ server ∈ values, server.Indexable

/-- The members of `params` that are converted to texts. -/
def joinTextKeys : List Text := ["room_id", "client_id", "wss_url", "wss_post_url", "pc_config"]

/-- Every member `JoinRoomAsync` converts is of a kind that converts, at both levels. -/
def ReadableParams (J : JsonCpp) (params : Json) : Prop :=
  params.Indexable ∧ (∀ key ∈ joinTextKeys, (params.member key).StringLike)
    ∧ ∀ text, (params.member "pc_config").asString J = some text → ReadablePcConfig J text

/-- Text that is not JSON, or JSON whose shape `JoinRoomAsync` can read. -/
def ReadableJoinResponse (J : JsonCpp) (body : Text) : Prop :=
  ∀ root, J.parse body = .ok root → root.Indexable ∧ (root.member "result").StringLike
    ∧ ReadableParams J (root.member "params")

/-- Text that is not JSON, or JSON whose shape `ParseMessageResponse` can read. -/
def ReadableMessageResponse (J : JsonCpp) (body : Text) : Prop :=
  ∀ root, J.parse body = .ok root → root.Indexable ∧ (root.member "result").StringLike

/-- These are the servers of a configuration that have a string url, with their string urls. -/
def ListsServers (J : JsonCpp) (text : Text) (servers : List IceServer) : Prop :=
  ∃ root values, J.parse text = .ok root ∧ root.member "iceServers" = .array values
    ∧ servers.map (·.urls) = (values.map stringUrls).filter fun urls => !urls.isEmpty

/-- A body that tells of a join that succeeded, and lists these servers. -/
def TellsJoined (J : JsonCpp) (body : Text) (servers : List IceServer) : Prop :=
  ∃ root text, J.parse body = .ok root
    ∧ (root.member "result").asString J = some (Text.ofString "SUCCESS")
    ∧ ((root.member "params").member "pc_config").asString J = some text
    ∧ ListsServers J text servers

/-! ## The servers -/

/-- The text of a string; anything else counts as the empty text. -/
def textOf : Json → Text
  | .string s => s
  | _ => []

/-- What `parseIceServer` makes of a server it can look into. -/
def serverOf (server : Json) : IceServer where
  urls := stringUrls server
  username := textOf (server.member "username")
  password := textOf (server.member "credential")

theorem parseIceServer_eq_some_iff {server : Json} {s : IceServer} :
    parseIceServer server = some s ↔ server.Indexable ∧ s = serverOf server := by
  constructor
  · intro h
    obtain ⟨urls, hurls, h⟩ := Option.bind_eq_some_iff.mp h
    obtain ⟨username, huser, h⟩ := Option.bind_eq_some_iff.mp h
    obtain ⟨credential, hcred, h⟩ := Option.bind_eq_some_iff.mp h
    obtain ⟨hi, rfl⟩ := Json.get_eq_some_iff.mp hurls
    obtain ⟨_, rfl⟩ := Json.get_eq_some_iff.mp huser
    obtain ⟨_, rfl⟩ := Json.get_eq_some_iff.mp hcred
    injection h with h
    exact ⟨hi, h.symm⟩
  · rintro ⟨hi, rfl⟩
    simp only [parseIceServer, Json.get_of_indexable hi, Option.bind_eq_bind, Option.bind_some]
    rfl

theorem mapM_parseIceServer_iff {values : List Json} {servers : List IceServer} :
    values.mapM parseIceServer = some servers ↔
      (∀ server ∈ values, server.Indexable) ∧ servers = values.map serverOf := by
  induction values generalizing servers with
  | nil => simp [eq_comm]
  | cons value values ih =>
      rw [List.mapM_cons]
      constructor
      · intro h
        obtain ⟨s, hs, h⟩ := Option.bind_eq_some_iff.mp h
        obtain ⟨rest, hrest, h⟩ := Option.bind_eq_some_iff.mp h
        injection h with h
        obtain ⟨hi, rfl⟩ := parseIceServer_eq_some_iff.mp hs
        obtain ⟨hall, rfl⟩ := ih.mp hrest
        exact ⟨List.forall_mem_cons.mpr ⟨hi, hall⟩, h.symm⟩
      · rintro ⟨hall, rfl⟩
        obtain ⟨hi, hall⟩ := List.forall_mem_cons.mp hall
        have hs := parseIceServer_eq_some_iff.mpr ⟨hi, rfl⟩
        simp [hs, ih.mpr ⟨hall, rfl⟩]

/-- The servers of an array are those with a string url, if all can be looked into. -/
theorem map_urls_servers (values : List Json) :
    ((values.map serverOf).filter fun server => !server.urls.isEmpty).map (·.urls)
      = (values.map stringUrls).filter fun urls => !urls.isEmpty := by
  rw [List.filter_map, List.map_map, List.filter_map]
  rfl

/-- A configuration with an array of servers that can all be looked into. -/
def HasServers (J : JsonCpp) (text : Text) : Prop :=
  ∃ root values, J.parse text = .ok root ∧ root.member "iceServers" = .array values
    ∧ ∀ server ∈ values, server.Indexable

theorem indexable_of_member {v : Json} {key : Text} {values : List Json}
    (h : v.member key = .array values) : v.Indexable := by
  cases v <;> trivial

theorem parseIceServers_isSome_iff {J : JsonCpp} {text : Text} :
    (parseIceServers J text).isSome ↔ ReadablePcConfig J text := by
  unfold parseIceServers ReadablePcConfig
  cases hp : J.parse text with
  | error e => simp
  | ok root =>
      simp only [Except.ok.injEq, forall_eq']
      constructor
      · intro h
        obtain ⟨result, h⟩ := Option.isSome_iff_exists.mp h
        obtain ⟨iceServers, hget, hbody⟩ := Option.bind_eq_some_iff.mp h
        obtain ⟨hi, rfl⟩ := Json.get_eq_some_iff.mp hget
        refine ⟨hi, fun values hvalues => ?_⟩
        rw [hvalues] at hbody
        obtain ⟨servers, hs, _⟩ := Option.bind_eq_some_iff.mp hbody
        exact (mapM_parseIceServer_iff.mp hs).1
      · rintro ⟨hi, hall⟩
        rw [Json.get_of_indexable hi, Option.bind_eq_bind, Option.bind_some]
        split
        · rename_i values hvalues
          have hs := mapM_parseIceServer_iff.mpr ⟨hall values hvalues, rfl⟩
          simp [hs]
        · rfl

/-- What a list of servers that was parsed says about the configuration. -/
theorem parseIceServers_ok {J : JsonCpp} {text : Text} {servers : List IceServer}
    (h : parseIceServers J text = some (.ok servers)) :
    HasServers J text ∧ ListsServers J text servers := by
  unfold parseIceServers at h
  split at h
  · cases h
  · rename_i root hroot
    obtain ⟨iceServers, hget, hbody⟩ := Option.bind_eq_some_iff.mp h
    obtain ⟨_, rfl⟩ := Json.get_eq_some_iff.mp hget
    split at hbody
    · rename_i values hvalues
      obtain ⟨parsed, hs, hservers⟩ := Option.bind_eq_some_iff.mp hbody
      obtain ⟨hall, rfl⟩ := mapM_parseIceServer_iff.mp hs
      injection hservers with hservers
      injection hservers with hservers
      subst hservers
      exact ⟨⟨root, values, hroot, hvalues, hall⟩,
        root, values, hroot, hvalues, map_urls_servers values⟩
    · cases hbody

theorem parseIceServers_of_hasServers {J : JsonCpp} {text : Text} (h : HasServers J text) :
    ∃ servers, parseIceServers J text = some (.ok servers) := by
  obtain ⟨root, values, hroot, hvalues, hall⟩ := h
  have hs := mapM_parseIceServer_iff.mpr ⟨hall, rfl⟩
  refine ⟨(values.map serverOf).filter fun server => !server.urls.isEmpty, ?_⟩
  simp only [parseIceServers, hroot, Json.get_of_indexable (indexable_of_member hvalues), hvalues,
    Option.bind_eq_bind, Option.bind_some, hs]

theorem parseIceServers_error {J : JsonCpp} {text : Text} {e : Error}
    (h : parseIceServers J text = some (.error e)) : e.code = .invalidArgument := by
  unfold parseIceServers at h
  split at h
  · injection h with h
    injection h with h
    rw [← h]
    rfl
  · obtain ⟨iceServers, _, hbody⟩ := Option.bind_eq_some_iff.mp h
    split at hbody
    · obtain ⟨_, _, hservers⟩ := Option.bind_eq_some_iff.mp hbody
      injection hservers with hservers
      cases hservers
    · injection hbody with hbody
      injection hbody with hbody
      rw [← hbody]

/-! ## Reading a join response -/

/-- What the response read from `params` says about it. -/
theorem readJoinParams_some {J : JsonCpp} {result : Text} {params : Json} {r : JoinResponse}
    (h : readJoinParams J result params = some r) :
    (params.Indexable ∧ ∀ key ∈ joinTextKeys, (params.member key).StringLike)
      ∧ r.result = result
      ∧ (params.member "pc_config").asString J = some r.pcConfigJson
      ∧ r.messages = responseMessages J (params.member "messages") := by
  obtain ⟨roomId, hroom, h⟩ := Option.bind_eq_some_iff.mp h
  obtain ⟨clientId, hclient, h⟩ := Option.bind_eq_some_iff.mp h
  obtain ⟨isInitiator, _, h⟩ := Option.bind_eq_some_iff.mp h
  obtain ⟨wssUrl, hwss, h⟩ := Option.bind_eq_some_iff.mp h
  obtain ⟨wssPostUrl, hpost, h⟩ := Option.bind_eq_some_iff.mp h
  obtain ⟨pcConfigJson, hpc, h⟩ := Option.bind_eq_some_iff.mp h
  obtain ⟨messages, hmessages, h⟩ := Option.bind_eq_some_iff.mp h
  obtain ⟨_, rfl⟩ := Json.get_eq_some_iff.mp hmessages
  injection h with h
  subst h
  have hsome : ∀ {key s : Text}, stringMember J params key = some s →
      (params.member key).StringLike := fun hs => (stringMember_isSome_iff.mp (by rw [hs]; rfl)).2
  obtain ⟨hi, hpc'⟩ := stringMember_eq_some_iff.mp hpc
  refine ⟨⟨hi, ?_⟩, rfl, hpc', rfl⟩
  simp only [joinTextKeys, List.forall_mem_cons, List.not_mem_nil, false_implies, implies_true,
    and_true]
  exact ⟨hsome hroom, hsome hclient, hsome hwss, hsome hpost, hsome hpc⟩

theorem readJoinParams_of_readable {J : JsonCpp} (result : Text) {params : Json}
    (hi : params.Indexable) (hkeys : ∀ key ∈ joinTextKeys, (params.member key).StringLike) :
    ∃ r, readJoinParams J result params = some r := by
  have hmem : ∀ key ∈ joinTextKeys, ∃ s, stringMember J params key = some s := fun key hk =>
    Option.isSome_iff_exists.mp (stringMember_isSome_iff.mpr ⟨hi, hkeys key hk⟩)
  simp only [joinTextKeys, List.forall_mem_cons, List.not_mem_nil, false_implies, implies_true,
    and_true] at hmem
  obtain ⟨⟨roomId, hroom⟩, ⟨clientId, hclient⟩, ⟨wssUrl, hwss⟩, ⟨wssPostUrl, hpost⟩,
    ⟨pcConfigJson, hpc⟩⟩ := hmem
  simp only [readJoinParams, hroom, hclient, hwss, hpost, hpc, Json.get_of_indexable hi,
    Option.bind_eq_bind, Option.bind_some]
  exact ⟨_, rfl⟩

theorem checkJoined_isSome_iff {J : JsonCpp} {r : JoinResponse} :
    (checkJoined J r).isSome ↔ ReadablePcConfig J r.pcConfigJson := by
  rw [← parseIceServers_isSome_iff, checkJoined]
  cases parseIceServers J r.pcConfigJson with
  | none => simp
  | some result =>
      cases result with
      | error e => simp
      | ok servers =>
          simp only [Option.bind_eq_bind, Option.bind_some, Option.isSome_some, iff_true]
          split <;> rfl

/-- A response is reported as joined only with the result it needs, and with its servers. -/
theorem checkJoined_ok {J : JsonCpp} {r response : JoinResponse}
    (h : checkJoined J r = some (.ok response)) :
    r.result = "SUCCESS" ∧ ListsServers J r.pcConfigJson response.iceServers
      ∧ response.messages = r.messages := by
  obtain ⟨result, hresult, h⟩ := Option.bind_eq_some_iff.mp h
  cases result with
  | error e => cases h
  | ok servers =>
      dsimp only at h
      split at h
      · cases h
      · rename_i hs
        injection h with h
        injection h with h
        subst h
        exact ⟨not_not.mp hs, (parseIceServers_ok hresult).2, rfl⟩

/-- `JoinRoomAsync` gets through exactly the bodies that can be read. -/
theorem readJoinResponse_isSome_iff {J : JsonCpp} {body : Text} :
    (readJoinResponse J body).isSome ↔ ReadableJoinResponse J body := by
  unfold readJoinResponse ReadableJoinResponse parseJson
  cases hp : J.parse body with
  | error e => simp
  | ok root =>
      simp only [Except.ok.injEq, forall_eq']
      constructor
      · intro h
        obtain ⟨reported, h⟩ := Option.isSome_iff_exists.mp h
        obtain ⟨result, hresult, h⟩ := Option.bind_eq_some_iff.mp h
        obtain ⟨params, hparams, h⟩ := Option.bind_eq_some_iff.mp h
        obtain ⟨r, hr, hchecked⟩ := Option.bind_eq_some_iff.mp h
        obtain ⟨hi, hlike⟩ := stringMember_isSome_iff.mp (by rw [hresult]; rfl)
        obtain ⟨_, rfl⟩ := Json.get_eq_some_iff.mp hparams
        obtain ⟨⟨hpi, hkeys⟩, _, hpc, _⟩ := readJoinParams_some hr
        refine ⟨hi, hlike, hpi, hkeys, fun text htext => ?_⟩
        rw [hpc] at htext
        injection htext with htext
        subst htext
        exact checkJoined_isSome_iff.mp (by rw [hchecked]; rfl)
      · rintro ⟨hi, hlike, hpi, hkeys, hpc⟩
        obtain ⟨result, hresult⟩ :=
          Option.isSome_iff_exists.mp (stringMember_isSome_iff (J := J).mpr ⟨hi, hlike⟩)
        obtain ⟨r, hr⟩ := readJoinParams_of_readable (J := J) result hpi hkeys
        simp only [hresult, Json.get_of_indexable hi, hr, Option.bind_eq_bind, Option.bind_some]
        exact checkJoined_isSome_iff.mpr (hpc _ (readJoinParams_some hr).2.2.1)

/-- A body reported as joined tells of a join, and of the servers and messages reported. -/
theorem readJoinResponse_ok {J : JsonCpp} {body : Text} {response : JoinResponse}
    (h : readJoinResponse J body = some (.ok response)) :
    TellsJoined J body response.iceServers
      ∧ ∃ root, J.parse body = .ok root
        ∧ response.messages = responseMessages J ((root.member "params").member "messages") := by
  unfold readJoinResponse parseJson at h
  cases hp : J.parse body with
  | error e => rw [hp] at h; cases h
  | ok root =>
      rw [hp] at h
      obtain ⟨result, hresult, h⟩ := Option.bind_eq_some_iff.mp h
      obtain ⟨params, hparams, h⟩ := Option.bind_eq_some_iff.mp h
      obtain ⟨r, hr, hchecked⟩ := Option.bind_eq_some_iff.mp h
      obtain ⟨_, hresult⟩ := stringMember_eq_some_iff.mp hresult
      obtain ⟨_, rfl⟩ := Json.get_eq_some_iff.mp hparams
      obtain ⟨_, rfl, hpc, hmessages⟩ := readJoinParams_some hr
      obtain ⟨hs, hlists, heq⟩ := checkJoined_ok hchecked
      exact ⟨⟨root, r.pcConfigJson, hp, hs ▸ hresult, hpc, hlists⟩, root, rfl, heq.trans hmessages⟩

/-- A body that can be read and tells of a join is reported as one. -/
theorem readJoinResponse_of_tells {J : JsonCpp} {body : Text} {servers : List IceServer}
    (hreadable : ReadableJoinResponse J body) (h : TellsJoined J body servers) :
    ∃ response, readJoinResponse J body = some (.ok response) := by
  obtain ⟨root, text, hroot, hresult, hpc, config, values, hconfig, hvalues, _⟩ := h
  obtain ⟨hi, _, hpi, hkeys, hservers⟩ := hreadable root hroot
  obtain ⟨r, hr⟩ := readJoinParams_of_readable (J := J) (Text.ofString "SUCCESS") hpi hkeys
  obtain ⟨_, hs, hpc', _⟩ := readJoinParams_some hr
  rw [hpc] at hpc'
  injection hpc' with hpc'
  subst hpc'
  obtain ⟨parsed, hparsed⟩ := parseIceServers_of_hasServers
    ⟨config, values, hconfig, hvalues, (hservers _ hpc config hconfig).2 values hvalues⟩
  have hread : stringMember J root "result" = some (Text.ofString "SUCCESS") :=
    stringMember_eq_some_iff.mpr ⟨hi, hresult⟩
  have hchecked : checkJoined J r = some (.ok { r with iceServers := parsed }) := by
    simp only [checkJoined, hparsed, Option.bind_eq_bind, Option.bind_some]
    exact if_neg (not_not.mpr hs)
  refine ⟨{ r with iceServers := parsed }, ?_⟩
  simp only [readJoinResponse, parseJson, hroot, hread, Json.get_of_indexable hi, hr,
    Option.bind_eq_bind, Option.bind_some, hchecked]

/-! ## One result for each request -/

/--
The join is handled: the process survives, and exactly one result is reported. It is a
joined response only where the body tells of a join, and it has the servers the body lists.
-/
def JoinHandled (J : JsonCpp) (perform : Request → Transfer) (roomServerUrl roomId : Text)
    (reported : List (StatusOr JoinResponse)) : Prop :=
  ∃ result, joinRoomAsync J perform roomServerUrl roomId reported = some (reported ++ [result])
    ∧ ∀ response, result = .ok response →
        ∃ body, postEmpty perform (joinRoomUrl roomServerUrl roomId) = .ok body
          ∧ TellsJoined J body response.iceServers

/-- The message is handled: the process survives, and exactly one status is reported. -/
def SendHandled (J : JsonCpp) (perform : Request → Transfer)
    (roomServerUrl roomId clientId messageJson : Text) (reported : List Status) : Prop :=
  ∃ status, sendToRoomAsync J perform roomServerUrl roomId clientId messageJson reported
    = some (reported ++ [status])

theorem joinHandled_iff (J : JsonCpp) (perform : Request → Transfer) (roomServerUrl roomId : Text)
    (reported : List (StatusOr JoinResponse)) :
    JoinHandled J perform roomServerUrl roomId reported ↔
      ∀ body, postEmpty perform (joinRoomUrl roomServerUrl roomId) = .ok body →
        ReadableJoinResponse J body := by
  unfold JoinHandled joinRoomAsync
  cases hpost : postEmpty perform (joinRoomUrl roomServerUrl roomId) with
  | error e => exact ⟨fun _ _ h => (by cases h), fun _ => ⟨.error e, rfl, fun _ h => (by cases h)⟩⟩
  | ok body =>
      simp only [Except.ok.injEq, forall_eq', exists_eq_left']
      constructor
      · rintro ⟨result, h, _⟩
        obtain ⟨result', hread, _⟩ := Option.bind_eq_some_iff.mp h
        exact readJoinResponse_isSome_iff.mp (by rw [hread]; rfl)
      · intro h
        obtain ⟨result, hread⟩ :=
          Option.isSome_iff_exists.mp (readJoinResponse_isSome_iff.mpr h)
        refine ⟨result, by rw [hread]; rfl, fun response hok => ?_⟩
        subst hok
        exact (readJoinResponse_ok hread).1

theorem parseMessageResponse_isSome_iff {J : JsonCpp} {body : Text} :
    (parseMessageResponse J body).isSome ↔ ReadableMessageResponse J body := by
  unfold parseMessageResponse ReadableMessageResponse parseJson
  cases hp : J.parse body with
  | error e => simp
  | ok root =>
      simp only [Except.ok.injEq, forall_eq', readMessageResponse]
      rw [← stringMember_isSome_iff (J := J)]
      cases hresult : stringMember J root "result" with
      | none => simp
      | some result =>
          have hi : root.Indexable := (stringMember_eq_some_iff.mp hresult).1
          simp only [Json.get_of_indexable hi, Option.bind_eq_bind, Option.bind_some,
            Option.isSome_some, iff_true]
          split <;> rfl

theorem sendHandled_iff (J : JsonCpp) (perform : Request → Transfer)
    (roomServerUrl roomId clientId messageJson : Text) (reported : List Status) :
    SendHandled J perform roomServerUrl roomId clientId messageJson reported ↔
      ∀ body, postJson perform (messageUrl roomServerUrl roomId clientId) messageJson = .ok body →
        ReadableMessageResponse J body := by
  unfold SendHandled AppRtcSignalingClient.sendToRoomAsync
  cases hpost : postJson perform (messageUrl roomServerUrl roomId clientId) messageJson with
  | error e => exact ⟨fun _ _ h => (by cases h), fun _ => ⟨.error e, rfl⟩⟩
  | ok body =>
      simp only [Except.ok.injEq, forall_eq']
      rw [← parseMessageResponse_isSome_iff]
      cases parseMessageResponse J body with
      | none => simp
      | some status => simp

/--
**When a response is handled.** Both requests report exactly one result, and a join is
reported as one only as the body tells it, if and only if the body is not JSON or has
every member that is converted in a kind that converts.
-/
theorem room_responses_handled_iff (J : JsonCpp) (perform : Request → Transfer)
    (roomServerUrl roomId clientId messageJson : Text)
    (joins : List (StatusOr JoinResponse)) (sends : List Status) :
    (JoinHandled J perform roomServerUrl roomId joins ↔
      ∀ body, postEmpty perform (joinRoomUrl roomServerUrl roomId) = .ok body →
        ReadableJoinResponse J body)
    ∧ (SendHandled J perform roomServerUrl roomId clientId messageJson sends ↔
      ∀ body, postJson perform (messageUrl roomServerUrl roomId clientId) messageJson = .ok body →
        ReadableMessageResponse J body) :=
  ⟨joinHandled_iff J perform roomServerUrl roomId joins,
    sendHandled_iff J perform roomServerUrl roomId clientId messageJson sends⟩

/-- A server that answers every request with this body. -/
def answering (body : Text) : Request → Transfer := fun _ => .done 200 body

/-- A body that is an array ends the process, whichever request it answers. -/
theorem array_response_unhandled :
    ¬ JoinHandled (JsonCpp.ofTable [("[]", .array [])]) (answering "[]") "https://appr.tc" "r" []
    ∧ ¬ SendHandled (JsonCpp.ofTable [("[]", .array [])]) (answering "[]") "https://appr.tc" "r"
      "c" "m" [] := by
  constructor
  · rintro ⟨result, h, _⟩
    have hnone : joinRoomAsync (JsonCpp.ofTable [("[]", .array [])]) (answering "[]")
        "https://appr.tc" "r" [] = none := by rfl
    rw [hnone] at h
    cases h
  · rintro ⟨status, h⟩
    have hnone : AppRtcSignalingClient.sendToRoomAsync (JsonCpp.ofTable [("[]", .array [])])
        (answering "[]") "https://appr.tc" "r" "c" "m" [] = none := by rfl
    rw [hnone] at h
    cases h

/-! ## A refusal to join -/

/-- A member that is a string, or absent. -/
def isText : Json → Bool
  | .null => true
  | .string _ => true
  | _ => false

/--
A join response that refuses, with this result. Its `params` is an object or absent, and
of the members that are read as texts each is a string or absent.
-/
structure Refusal (root : Json) (result : Text) : Prop where
  object : root.isObject
  named : root.member "result" = .string result
  refused : result ≠ "SUCCESS"
  params : (root.member "params").Indexable
  texts : ∀ key ∈ joinTextKeys, isText ((root.member "params").member key)

/-- The text of `pc_config`, empty where there is none. -/
def pcConfigText (root : Json) : Text := textOf ((root.member "params").member "pc_config")

/-- The status that names the result of a refusing server. -/
def joinFailed (result : Text) : Error :=
  ⟨.failedPrecondition, Text.ofString "join failed with result: " ++ result⟩

theorem asString_of_isText {J : JsonCpp} {v : Json} (h : isText v = true) :
    v.asString J = some (textOf v) := by
  cases v <;> first | rfl | cases h

/-- The servers decide whether a refusal is named. -/
theorem checkJoined_refused {J : JsonCpp} {r : JoinResponse} (h : r.result ≠ "SUCCESS") :
    checkJoined J r = some (.error (joinFailed r.result)) ↔ HasServers J r.pcConfigJson := by
  constructor
  · intro hc
    obtain ⟨result, hresult, hc⟩ := Option.bind_eq_some_iff.mp hc
    cases result with
    | error e =>
        injection hc with hc
        injection hc with hc
        have hcode := parseIceServers_error hresult
        rw [hc] at hcode
        cases hcode
    | ok servers => exact (parseIceServers_ok hresult).1
  · intro hs
    obtain ⟨servers, hservers⟩ := parseIceServers_of_hasServers hs
    simp only [checkJoined, hservers, Option.bind_eq_bind, Option.bind_some, if_pos h]
    rfl

theorem readJoinResponse_refused {J : JsonCpp} {body result : Text} {root : Json}
    (hroot : J.parse body = .ok root) (h : Refusal root result) :
    ∃ r, r.result = result ∧ r.pcConfigJson = pcConfigText root
      ∧ readJoinResponse J body = checkJoined J r := by
  have hi : root.Indexable := by
    have hobject := h.object
    cases root <;> trivial
  have hlike : ∀ {v : Json}, isText v = true → v.StringLike := fun ht =>
    Json.asString_isSome_iff (J := J).mp (by rw [asString_of_isText ht]; rfl)
  obtain ⟨r, hr⟩ := readJoinParams_of_readable (J := J) result h.params
    fun key hk => hlike (h.texts key hk)
  obtain ⟨_, hresult, hpc, _⟩ := readJoinParams_some hr
  refine ⟨r, hresult, ?_, ?_⟩
  · rw [asString_of_isText (h.texts "pc_config" (by decide))] at hpc
    injection hpc with hpc
    exact hpc.symm
  · have hread : stringMember J root "result" = some result :=
      stringMember_eq_some_iff.mpr ⟨hi, by rw [h.named]; rfl⟩
    simp only [readJoinResponse, parseJson, hroot, hread, Json.get_of_indexable hi, hr,
      Option.bind_eq_bind, Option.bind_some]

/--
**When a refusal is named.** Asked to join by a client, a server refuses with some
result. The status reported names that result if and only if the refusal lists ice
servers as an accepted join does.
-/
theorem refusal_named_iff (J : JsonCpp) (perform : Request → Transfer) (roomServerUrl roomId : Text)
    (reported : List (StatusOr JoinResponse)) (body result : Text) (root : Json)
    (hpost : postEmpty perform (joinRoomUrl roomServerUrl roomId) = .ok body)
    (hroot : J.parse body = .ok root) (h : Refusal root result) :
    joinRoomAsync J perform roomServerUrl roomId reported
        = some (reported ++ [.error (joinFailed result)])
      ↔ HasServers J (pcConfigText root) := by
  obtain ⟨r, hresult, hpc, hread⟩ := readJoinResponse_refused hroot h
  have hchecked : checkJoined J r = some (.error (joinFailed r.result))
      ↔ HasServers J r.pcConfigJson := checkJoined_refused (by rw [hresult]; exact h.refused)
  rw [← hpc, ← hresult, ← hchecked, joinRoomAsync, hpost]
  dsimp only
  rw [hread]
  cases checkJoined J r with
  | none => simp
  | some reportedResult => simp

/-- The document of a server that is full, with these `params`. -/
def fullResponse (params : List (Text × Json)) : Json :=
  .object [("params", .object params), ("result", .string "FULL")]

theorem fullResponse_refuses {params : List (Text × Json)}
    (h : ∀ key ∈ joinTextKeys, isText (Json.lookup params key)) :
    Refusal (fullResponse params) "FULL" :=
  ⟨rfl, rfl, by decide, trivial, h⟩

/-- A refusal that lists ice servers is named. -/
theorem refusal_named_iff_listed :
    let root := fullResponse [("pc_config", .string "\x7b\"iceServers\":[]\x7d")]
    let J := JsonCpp.ofTable
      [("full", root), ("\x7b\"iceServers\":[]\x7d", .object [("iceServers", .array [])])]
    joinRoomAsync J (answering "full") "https://appr.tc" "r" [] = some [.error (joinFailed "FULL")]
    := by
  intro root J
  have hrefuses : Refusal root "FULL" := fullResponse_refuses (by decide)
  refine (refusal_named_iff J (answering "full") "https://appr.tc" "r" [] "full" "FULL" root rfl
    rfl hrefuses).mpr ⟨_, [], rfl, rfl, fun _ h => (by cases h)⟩

/-- A server that is full and says no more than that: the status is about `pc_config`. -/
theorem refusal_unnamed :
    let root := fullResponse []
    let J := JsonCpp.ofTable [("\x7b\"params\":\x7b\x7d,\"result\":\"FULL\"\x7d", root)]
    let body : Text := "\x7b\"params\":\x7b\x7d,\"result\":\"FULL\"\x7d"
    J.parse body = .ok root ∧ Refusal root "FULL"
      ∧ joinRoomAsync J (answering body) "https://appr.tc" "r" []
        = some [.error (jsonError "failed to parse pc_config" "* Line 1, Column 1")]
      ∧ joinRoomAsync J (answering body) "https://appr.tc" "r" []
        ≠ some [.error (joinFailed "FULL")] := by
  intro root J body
  have hreport : joinRoomAsync J (answering body) "https://appr.tc" "r" []
      = some [.error (jsonError "failed to parse pc_config" "* Line 1, Column 1")] := by rfl
  refine ⟨rfl, fullResponse_refuses (by decide), hreport, ?_⟩
  rw [hreport]
  intro h
  injection h with h
  injection h with h
  injection h with h
  injection h with h
  cases h

end ApprtcCli
