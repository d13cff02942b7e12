import ApprtcCli.Proof.Exchange
import ApprtcCli.Signaling.RoomServer

/-!
# A message survives its transport

A description or a candidate is written as a document. On its way to the other
side the text is carried in one of three forms: inside the envelope of a
websocket frame, as a string among the messages of a join response, or as the
document itself among those messages, which the client writes back to text.

`messages_survive` says that all three end in the message that was sent. Of
JsonCpp it assumes that it reads the document at hand back as it was written.
-/

namespace ApprtcCli.Proof

open Lib Call AppRtcSignalingClient

/-- Reading undoes writing, for this document. -/
def Rereads (J : JsonCpp) (document : Json) : Prop := J.parse (J.write document) = .ok document

/-- A frame that carries the text is posted as the message. -/
def FrameDelivers (J : JsonCpp) (text : Text) (m : SignalingMessage) : Prop :=
  ∀ frame, wraps J frame text = true → frameEvents J frame = some [.signalingMessage m]

/--
A response that can be read and tells of a join is reported as one, and an element among
its messages is, at its place among the messages reported, a text that decodes to the
message.
-/
def JoinDelivers (J : JsonCpp) (element : Json) (m : SignalingMessage) : Prop :=
  ∀ perform roomServerUrl roomId reported body root before after servers,
    postEmpty perform (joinRoomUrl roomServerUrl roomId) = .ok body → J.parse body = .ok root →
    (root.member "params").member "messages" = .array (before ++ element :: after) →
    ReadableJoinResponse J body → TellsJoined J body servers →
    ∃ response text,
      joinRoomAsync J perform roomServerUrl roomId reported = some (reported ++ [.ok response])
      ∧ response.messages
        = responseMessages J (.array before) ++ text :: responseMessages J (.array after)
      ∧ parseSignalingMessage J text = some (.ok m)

/-- Over every route, the text or the document it was written from arrives as the message. -/
structure Delivered (J : JsonCpp) (text : Text) (document : Json) (m : SignalingMessage) :
    Prop where
  frame : FrameDelivers J text m
  element : JoinDelivers J (.string text) m
  object : JoinDelivers J document m

/-- The loop over `messages` turns one element into one text, whatever stands around it. -/
theorem responseMessages_append (J : JsonCpp) (before after : List Json) {element : Json}
    {text : Text} (h : responseMessages J (.array [element]) = [text]) :
    responseMessages J (.array (before ++ element :: after))
      = responseMessages J (.array before) ++ text :: responseMessages J (.array after) := by
  have hsplit : before ++ element :: after = before ++ ([element] ++ after) := by simp
  rw [hsplit]
  simp only [responseMessages] at h ⊢
  rw [List.filterMap_append, List.filterMap_append, h]
  rfl

theorem joinDelivers_of_decodes {J : JsonCpp} {element : Json} {text : Text} {m : SignalingMessage}
    (helement : responseMessages J (.array [element]) = [text])
    (h : parseSignalingMessage J text = some (.ok m)) : JoinDelivers J element m := by
  intro perform roomServerUrl roomId reported body root before after servers hpost hroot hmem
    hreadable htells
  obtain ⟨response, hread⟩ := readJoinResponse_of_tells hreadable htells
  have hjoin : joinRoomAsync J perform roomServerUrl roomId reported
      = some (reported ++ [.ok response]) := by
    unfold joinRoomAsync
    rw [hpost]
    dsimp only
    rw [hread]
    rfl
  obtain ⟨_, root', hroot', hmessages⟩ := readJoinResponse_ok hread
  rw [hroot] at hroot'
  injection hroot' with hroot'
  subst hroot'
  rw [hmem, responseMessages_append J before after helement] at hmessages
  exact ⟨response, text, hjoin, hmessages, h⟩

/-- What decodes once decodes over every route. -/
theorem delivered_of_decodes {J : JsonCpp} {members : List (Text × Json)} {m : SignalingMessage}
    (h : parseSignalingMessage J (J.write (.object members)) = some (.ok m)) :
    Delivered J (J.write (.object members)) (.object members) m where
  frame frame hwraps := by rw [frameEvents_wraps hwraps, h]; rfl
  element := joinDelivers_of_decodes rfl h
  object := joinDelivers_of_decodes rfl h

/-! ## Decoding what was encoded -/

theorem decode_description {J : JsonCpp} {type : SdpType} {sdp : Text}
    (htype : type = .offer ∨ type = .answer) (h : Rereads J (descriptionJson type sdp)) :
    parseSignalingMessage J (J.write (descriptionJson type sdp)) = some (.ok
      { type := if type = .offer then .offer else .answer, sdpType := sdpTypeToString type,
        sdp := sdp, rawJson := J.write (descriptionJson type sdp) }) := by
  unfold parseSignalingMessage
  rw [h]
  rcases htype with rfl | rfl <;> rfl

theorem decode_candidate {J : JsonCpp} {candidate : IceCandidate} {sdp : Text}
    (hlabel : Json.InIntRange candidate.sdpMlineIndex)
    (h : Rereads J (candidateJson candidate sdp)) :
    parseSignalingMessage J (J.write (candidateJson candidate sdp)) = some (.ok
      { type := .candidate, candidate := sdp, sdpMid := candidate.sdpMid,
        sdpMlineIndex := candidate.sdpMlineIndex,
        rawJson := J.write (candidateJson candidate sdp) }) := by
  have hint : intMember (candidateJson candidate sdp) "label" = some candidate.sdpMlineIndex :=
    if_pos hlabel
  have hread : readSignalingMessage J (J.write (candidateJson candidate sdp))
      (candidateJson candidate sdp) = (intMember (candidateJson candidate sdp) "label").bind
        fun index => some
          { type := .candidate, candidate := sdp, sdpMid := candidate.sdpMid,
            sdpMlineIndex := index, rawJson := J.write (candidateJson candidate sdp) } := rfl
  unfold parseSignalingMessage
  rw [h]
  dsimp only
  rw [hread, hint]
  rfl

/--
**A message survives its transport.** A description of type offer or answer with any
text, and a candidate with any mid, text and line index, are serialized to a text that,
over each of the three routes, decodes to a message with the type and the members sent.
-/
theorem messages_survive (J : JsonCpp) :
    (∀ (type : SdpType) (sdp : Text), type = .offer ∨ type = .answer →
      Rereads J (descriptionJson type sdp) →
      ∃ text m, serializeSessionDescription J ⟨type, some sdp⟩ = .ok text
        ∧ Delivered J text (descriptionJson type sdp) m
        ∧ m.type = (if type = .offer then .offer else .answer)
        ∧ m.sdpType = sdpTypeToString type ∧ m.sdp = sdp)
    ∧ ∀ (candidate : IceCandidate) (sdp : Text), candidate.text = some sdp →
      Json.InIntRange candidate.sdpMlineIndex → Rereads J (candidateJson candidate sdp) →
      ∃ text m, serializeIceCandidate J candidate = .ok text
        ∧ Delivered J text (candidateJson candidate sdp) m
        ∧ m.type = .candidate ∧ m.candidate = sdp ∧ m.sdpMid = candidate.sdpMid
        ∧ m.sdpMlineIndex = candidate.sdpMlineIndex := by
  constructor
  · intro type sdp htype h
    exact ⟨_, _, rfl, delivered_of_decodes (decode_description htype h), rfl, rfl, rfl⟩
  · intro candidate sdp hsdp hlabel h
    have hser : serializeIceCandidate J candidate
        = .ok (J.write (candidateJson candidate sdp)) := by
      unfold serializeIceCandidate
      rw [hsdp]
      rfl
    exact ⟨_, _, hser, delivered_of_decodes (decode_candidate hlabel h), rfl, rfl, rfl, rfl⟩

/-- An SDP text with a line break and a quote in it. -/
def quotedSdp : Text := "s=\"\r\n"

def quotedCandidate : IceCandidate := ⟨"0", -1, some quotedSdp⟩

def quotedOfferText : Text := "\x7b\"sdp\":\"s=\\\"\\r\\n\",\"type\":\"offer\"\x7d"

def quotedCandidateText : Text :=
  "\x7b\"candidate\":\"s=\\\"\\r\\n\",\"id\":\"0\",\"label\":-1,\"type\":\"candidate\"\x7d"

/-- The offer's text once more quoted, as a frame and a join response have it. -/
def quotedOfferString : Text :=
  "\"\x7b\\\"sdp\\\":\\\"s=\\\\\\\"\\\\r\\\\n\\\",\\\"type\\\":\\\"offer\\\"\x7d\""

def quotedFrame : Text :=
  Text.ofString "\x7b\"error\":\"\",\"msg\":" ++ quotedOfferString ++ "\x7d"

/-- A join response that has the offer as a string and the candidate as an object. -/
def quotedJoin : Json :=
  .object
    [("params", .object
      [("messages", .array [.string quotedOfferText, candidateJson quotedCandidate quotedSdp]),
        ("pc_config", .string "\x7b\"iceServers\":[]\x7d")]),
      ("result", .string "SUCCESS")]

def quotedJoinText : Text :=
  Text.ofString "\x7b\"params\":\x7b\"messages\":[" ++ quotedOfferString ++ ","
    ++ quotedCandidateText
    ++ "],\"pc_config\":\"\x7b\\\"iceServers\\\":[]\x7d\"\x7d,\"result\":\"SUCCESS\"\x7d"

/-- JsonCpp, on the two documents and on what carries them. -/
def quotedJson : JsonCpp where
  parse := (JsonCpp.ofTable
    [(quotedJoinText, quotedJoin),
      (quotedOfferText, descriptionJson .offer quotedSdp),
      (quotedCandidateText, candidateJson quotedCandidate quotedSdp),
      (quotedFrame, .object [("error", .string []), ("msg", .string quotedOfferText)]),
      ("\x7b\"iceServers\":[]\x7d", .object [("iceServers", .array [])])]).parse
  write
    | .object [_, _] => quotedOfferText
    | _ => quotedCandidateText
  realToString _ := []

theorem quotedJson_join : quotedJson.parse quotedJoinText = .ok quotedJoin := by
  simp only [quotedJson, JsonCpp.ofTable_parse_head]

theorem quotedJoin_readable : ReadableJoinResponse quotedJson quotedJoinText := by
  apply readJoinResponse_isSome_iff.mp
  unfold readJoinResponse parseJson
  rw [quotedJson_join]
  rfl

theorem quotedJoin_tells : TellsJoined quotedJson quotedJoinText [] :=
  ⟨quotedJoin, _, quotedJson_join, rfl, rfl, _, [], rfl, rfl, rfl⟩

/--
A description and a candidate with a quote and a line break arrive as they were sent: the
offer in a frame, and both in a join response.
-/
theorem messages_survive_quoted :
    (∃ m, frameEvents quotedJson quotedFrame = some [.signalingMessage m]
      ∧ m.type = .offer ∧ m.sdp = quotedSdp)
    ∧ ∃ response,
      joinRoomAsync quotedJson (answering quotedJoinText) "https://appr.tc" "r" []
          = some [.ok response]
        ∧ response.messages = [quotedOfferText, quotedCandidateText]
        ∧ (∃ m, parseSignalingMessage quotedJson quotedOfferText = some (.ok m)
          ∧ m.type = .offer ∧ m.sdp = quotedSdp)
        ∧ ∃ m, parseSignalingMessage quotedJson quotedCandidateText = some (.ok m)
          ∧ m.candidate = quotedSdp ∧ m.sdpMlineIndex = -1 := by
  obtain ⟨text, offer, hser, hoffer, htype, _, hsdp⟩ :=
    (messages_survive quotedJson).1 .offer quotedSdp (Or.inl rfl) rfl
  injection hser with hser
  subst hser
  obtain ⟨_, candidate, _, hcandidate, _, hline, _, hindex⟩ :=
    (messages_survive quotedJson).2 quotedCandidate quotedSdp rfl (by decide) rfl
  refine ⟨⟨offer, hoffer.frame quotedFrame (by decide), htype, hsdp⟩, ?_⟩
  obtain ⟨response, text, hjoin, hmessages, hdecodes⟩ :=
    hoffer.element (answering quotedJoinText) "https://appr.tc" "r" [] quotedJoinText quotedJoin
      [] [candidateJson quotedCandidate quotedSdp] [] rfl quotedJson_join rfl
      quotedJoin_readable quotedJoin_tells
  obtain ⟨response', text', hjoin', hmessages', hdecodes'⟩ :=
    hcandidate.object (answering quotedJoinText) "https://appr.tc" "r" [] quotedJoinText quotedJoin
      [.string quotedOfferText] [] [] rfl quotedJson_join rfl
      quotedJoin_readable quotedJoin_tells
  have hsame : response' = response := by
    rw [hjoin] at hjoin'
    simpa using hjoin'.symm
  subst hsame
  -- One response, whose texts both routes name.
  have htexts : [text, quotedCandidateText] = [quotedOfferText, text'] :=
    hmessages.symm.trans hmessages'
  injection htexts with htext htail
  injection htail with htext'
  subst htext htext'
  exact ⟨response', hjoin, hmessages, ⟨offer, hdecodes, htype, hsdp⟩,
    candidate, hdecodes', hline, hindex⟩

end ApprtcCli.Proof
