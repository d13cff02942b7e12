import ApprtcCli.Lib.Decoder
import ApprtcCli.Lib.Run
import ApprtcCli.Lib.Trail

/-!
# The decoder thread

`FileVideoSource::DecodeLoop`. The thread reads packets, gives those of the video
stream to the decoder, and after each takes out and broadcasts the frames that are
ready. When the file ends it seeks to the start, flushes the decoder and goes on.

The two loops are two places the thread can be at, and a step is one round of
whichever loop it is in. The decoder is any at all; `ready` are the items it has
yielded and the thread has not received.

What a pass broadcasts is what the packets yield without a drain: the flush at the
end of the file throws away what the decoder still holds. `pass_complete_iff` says
that a pass is complete just where that is nothing.
-/

namespace ApprtcCli.Video

open Lib

/-- A packet of some stream of the file. -/
structure Packet (π : Type) where
  streamIndex : Int
  data : π

/-- What the thread did, oldest first. -/
inductive DecodeAction (φ : Type) where
  /-- `BroadcastFrame`. -/
  | broadcast (frame : φ)
  | sendFailed
  | receiveFailed
  /-- The seek and the flush, at the end of the file or after a failed read. -/
  | rewound (atEnd : Bool)
  deriving DecidableEq

/-- Which loop the thread is about to go round. -/
inductive DecodePlace where
  | reading
  | receiving
  | returned
  deriving DecidableEq, Repr

structure DecodeLoop (π φ σ : Type) where
  place : DecodePlace := .reading
  /-- What `av_read_frame` has yet to read. -/
  rest : List (Packet π)
  codec : σ
  ready : List (Option φ) := []
  stop : Bool := false
  log : List (DecodeAction φ) := []

/-- The file being played, which stream of it, and what decodes that. -/
structure Clip (π φ σ : Type) where
  file : List (Packet π)
  videoStreamIndex : Int
  decoder : Decoder π φ σ

variable {π φ σ : Type} (C : Clip π φ σ)

namespace DecodeLoop

/-- The thread as `Start` creates it. -/
def start : DecodeLoop π φ σ := { rest := C.file, codec := C.decoder.fresh }

/-- `av_seek_frame` to the start and `avcodec_flush_buffers`. -/
def rewind (s : DecodeLoop π φ σ) (atEnd : Bool) : DecodeLoop π φ σ :=
  { s with
    rest := C.file, codec := C.decoder.fresh, ready := [], log := s.log ++ [.rewound atEnd] }

/-- `avcodec_send_packet`, which refuses a packet while frames wait to be received. -/
def sendPacket (s : DecodeLoop π φ σ) (data : π) : DecodeLoop π φ σ :=
  match s.ready, C.decoder.send s.codec data with
  | [], some (codec, items) => { s with codec := codec, ready := items, place := .receiving }
  | _, _ => { s with log := s.log ++ [.sendFailed] }

/-- One round of the outer loop; `readFails` is an error of `av_read_frame` before the end. -/
def read (s : DecodeLoop π φ σ) (readFails : Bool) : DecodeLoop π φ σ :=
  if s.stop then { s with place := .returned }
  else if readFails then s.rewind C false
  else
    match s.rest with
    | [] => s.rewind C true
    | packet :: rest =>
        let s := { s with rest := rest }
        if packet.streamIndex = C.videoStreamIndex then s.sendPacket C packet.data else s

/-- One round of the inner loop: `avcodec_receive_frame`, and the broadcast of what it gives. -/
def receive (s : DecodeLoop π φ σ) : DecodeLoop π φ σ :=
  if s.stop then { s with place := .reading }
  else
    match s.ready with
    | [] => { s with place := .reading }
    | none :: ready =>
        { s with ready := ready, place := .reading, log := s.log ++ [.receiveFailed] }
    | some frame :: ready => { s with ready := ready, log := s.log ++ [.broadcast frame] }

end DecodeLoop

inductive DecodeLabel where
  /-- The decoder thread goes one round. -/
  | round (readFails : Bool)
  /-- Another thread sets `stop_`. -/
  | stop

def decodeStep (s : DecodeLoop π φ σ) : DecodeLabel → Option (DecodeLoop π φ σ)
  | .round readFails =>
      match s.place with
      | .reading => some (s.read C readFails)
      | .receiving => some s.receive
      | .returned => none
  | .stop => some { s with stop := true }

/-! ## Passes -/

/-- What was done since the thread last sought the start. -/
def currentPass (log : List (DecodeAction φ)) : List (DecodeAction φ) :=
  log.foldl (fun pass a =>
    match a with
    | .rewound _ => []
    | _ => pass ++ [a]) []

/-- A pass that got from the start of the file to its end. -/
def CompletePass (log pass : List (DecodeAction φ)) : Prop :=
  ∃ before after, log = before ++ .rewound true :: after ∧ pass = currentPass before

/-- Nothing failed to be sent or received. -/
def NoError (pass : List (DecodeAction φ)) : Prop := .sendFailed ∉ pass ∧ .receiveFailed ∉ pass

/-- The frames that were broadcast, in order. -/
def broadcasts (pass : List (DecodeAction φ)) : List φ :=
  pass.filterMap fun
    | .broadcast frame => some frame
    | _ => none

/-- The packets of the video stream. -/
def videoPackets (file : List (Packet π)) : List π :=
  (file.filter fun packet => packet.streamIndex = C.videoStreamIndex).map (·.data)

theorem currentPass_concat (log : List (DecodeAction φ)) {a : DecodeAction φ}
    (h : ∀ atEnd, a ≠ .rewound atEnd) : currentPass (log ++ [a]) = currentPass log ++ [a] := by
  rw [currentPass, List.foldl_append]
  cases a with
  | rewound atEnd => exact absurd rfl (h atEnd)
  | _ => rfl

theorem currentPass_rewound (log : List (DecodeAction φ)) (atEnd : Bool) :
    currentPass (log ++ [.rewound atEnd]) = [] := by
  rw [currentPass, List.foldl_append]
  rfl

theorem NoError.of_concat {pass : List (DecodeAction φ)} {a : DecodeAction φ}
    (h : NoError (pass ++ [a])) : NoError pass :=
  ⟨fun hm => h.1 (List.mem_append_left _ hm), fun hm => h.2 (List.mem_append_left _ hm)⟩

theorem broadcasts_concat (pass : List (DecodeAction φ)) (frame : φ) :
    broadcasts (pass ++ [.broadcast frame]) = broadcasts pass ++ [frame] := by
  simp [broadcasts]

theorem videoPackets_concat (done : List (Packet π)) (packet : Packet π) :
    videoPackets C (done ++ [packet])
      = videoPackets C done
        ++ if packet.streamIndex = C.videoStreamIndex then [packet.data] else [] := by
  unfold videoPackets
  rw [List.filter_append, List.map_append]
  by_cases h : packet.streamIndex = C.videoStreamIndex <;> simp [h]

/-! ## What a pass broadcasts -/

/-- Between two packets: all that came out of the decoder since the start was broadcast. -/
def Between (s : DecodeLoop π φ σ) : Prop :=
  s.ready = [] ∧ ∃ done, C.file = done ++ s.rest
    ∧ C.decoder.feed C.decoder.fresh (videoPackets C done)
      = some (s.codec, broadcasts (currentPass s.log))

/-- After a packet was sent: what it yielded is partly broadcast, and partly ready. -/
def Within (s : DecodeLoop π φ σ) : Prop :=
  ∃ done packet codec out front, C.file = done ++ packet :: s.rest
    ∧ packet.streamIndex = C.videoStreamIndex
    ∧ C.decoder.feed C.decoder.fresh (videoPackets C done) = some (codec, out)
    ∧ C.decoder.send codec packet.data = some (s.codec, front.map some ++ s.ready)
    ∧ broadcasts (currentPass s.log) = out ++ front

/-- Where the thread stands in a pass without errors. -/
def OnTrack (s : DecodeLoop π φ σ) : Prop :=
  NoError (currentPass s.log) →
    match s.place with
    | .reading => s.stop = true ∨ Between C s
    | .receiving => Within C s
    | .returned => True

/-- A pass that came to its end without errors broadcast what its packets yield. -/
def PassLaw : List (DecodeAction φ) → DecodeAction φ → Prop := fun before a =>
  a = .rewound true → NoError (currentPass before) →
    ∃ codec, C.decoder.feed C.decoder.fresh (videoPackets C C.file)
      = some (codec, broadcasts (currentPass before))

variable {C}

theorem onTrack_rewind (s : DecodeLoop π φ σ) (hs : s.place = .reading) (atEnd : Bool) :
    OnTrack C (s.rewind C atEnd) := by
  intro _
  show match s.place with
    | .reading => s.stop = true ∨ Between C (s.rewind C atEnd)
    | .receiving => Within C (s.rewind C atEnd)
    | .returned => True
  rw [hs]
  refine Or.inr ⟨rfl, [], rfl, ?_⟩
  rw [DecodeLoop.rewind]
  dsimp only
  rw [currentPass_rewound]
  rfl

/-- A packet that is sent is the next of the file. -/
theorem onTrack_sendPacket {s : DecodeLoop π φ σ} {packet : Packet π} {rest : List (Packet π)}
    (hvideo : packet.streamIndex = C.videoStreamIndex)
    (hrest : s.rest = packet :: rest) (hb : NoError (currentPass s.log) → Between C s) :
    OnTrack C ({ s with rest := rest }.sendPacket C packet.data) := by
  intro hno
  unfold DecodeLoop.sendPacket at hno ⊢
  dsimp only at hno ⊢
  split at hno
  · rename_i codec items hready hsend
    obtain ⟨_, done, hfile, hfeed⟩ := hb hno
    refine ⟨done, packet, s.codec, _, [], by rw [hfile, hrest], hvideo, hfeed, hsend, ?_⟩
    exact (List.append_nil _).symm
  · -- a refused packet is an error of the pass
    rw [currentPass_concat _ (fun _ h => by cases h)] at hno
    exact absurd (List.mem_append_right _ (List.mem_singleton_self _)) hno.1

theorem onTrack_read {s : DecodeLoop π φ σ} (hs : s.place = .reading) (h : OnTrack C s)
    (readFails : Bool) : OnTrack C (s.read C readFails) := by
  unfold DecodeLoop.read
  by_cases hstop : s.stop = true
  · rw [if_pos hstop]
    exact fun _ => trivial
  rw [if_neg hstop]
  have hb : NoError (currentPass s.log) → Between C s := by
    intro hno
    have hplace := h hno
    rw [hs] at hplace
    exact hplace.resolve_left hstop
  by_cases hfails : readFails = true
  · rw [if_pos hfails]
    exact onTrack_rewind s hs false
  rw [if_neg hfails]
  split
  · exact onTrack_rewind s hs true
  · rename_i packet rest hrest
    dsimp only
    by_cases hvideo : packet.streamIndex = C.videoStreamIndex
    · rw [if_pos hvideo]
      exact onTrack_sendPacket hvideo hrest hb
    · rw [if_neg hvideo]
      intro hno
      obtain ⟨hready, done, hfile, hfeed⟩ := hb hno
      show match s.place with
        | .reading => s.stop = true ∨ Between C { s with rest := rest }
        | .receiving => Within C { s with rest := rest }
        | .returned => True
      rw [hs]
      refine Or.inr ⟨hready, done ++ [packet], by rw [hfile, hrest]; simp, ?_⟩
      rw [videoPackets_concat, if_neg hvideo, List.append_nil]
      exact hfeed

theorem onTrack_receive {s : DecodeLoop π φ σ} (hs : s.place = .receiving) (h : OnTrack C s) :
    OnTrack C s.receive := by
  unfold DecodeLoop.receive
  by_cases hstop : s.stop = true
  · rw [if_pos hstop]
    exact fun _ => Or.inl hstop
  rw [if_neg hstop]
  have hw : NoError (currentPass s.log) → Within C s := by
    intro hno
    have hplace := h hno
    rw [hs] at hplace
    exact hplace
  split
  · -- all the packet yielded was received
    rename_i hready
    intro hno
    obtain ⟨done, packet, codec, out, front, hfile, hvideo, hfeed, hsend, hout⟩ := hw hno
    rw [hready, List.append_nil] at hsend
    refine Or.inr ⟨hready, done ++ [packet], by rw [hfile]; simp, ?_⟩
    rw [videoPackets_concat, if_pos hvideo, hout]
    exact C.decoder.feed_concat hfeed hsend
  · intro hno
    dsimp only at hno
    rw [currentPass_concat _ (fun _ h => by cases h)] at hno
    exact absurd (List.mem_append_right _ (List.mem_singleton_self _)) hno.2
  · rename_i frame ready hready
    intro hno
    dsimp only at hno
    rw [currentPass_concat _ (fun _ h => by cases h)] at hno
    obtain ⟨done, packet, codec, out, front, hfile, hvideo, hfeed, hsend, hout⟩ := hw hno.of_concat
    show match s.place with
      | .reading => s.stop = true ∨ Between C _
      | .receiving => Within C { s with ready := ready, log := s.log ++ [.broadcast frame] }
      | .returned => True
    rw [hs]
    refine ⟨done, packet, codec, out, front ++ [frame], hfile, hvideo, hfeed, ?_, ?_⟩
    · rw [hsend, hready]
      simp
    · dsimp only
      rw [currentPass_concat _ (fun _ h => by cases h), broadcasts_concat, hout,
        List.append_assoc]

/-- A round of the loop reads a packet or receives a frame. -/
theorem round_cases {s s' : DecodeLoop π φ σ} {readFails : Bool}
    (hs : decodeStep C s (.round readFails) = some s') :
    (s.place = .reading ∧ s' = s.read C readFails) ∨ (s.place = .receiving ∧ s' = s.receive) := by
  unfold decodeStep at hs
  dsimp only at hs
  split at hs
  · rename_i hplace
    injection hs with hs
    exact Or.inl ⟨hplace, hs.symm⟩
  · rename_i hplace
    injection hs with hs
    exact Or.inr ⟨hplace, hs.symm⟩
  · cases hs

theorem onTrack_step {s s' : DecodeLoop π φ σ} {l : DecodeLabel} (h : OnTrack C s)
    (hs : decodeStep C s l = some s') : OnTrack C s' := by
  cases l with
  | round readFails =>
      rcases round_cases hs with ⟨hplace, rfl⟩ | ⟨hplace, rfl⟩
      · exact onTrack_read hplace h readFails
      · exact onTrack_receive hplace h
  | stop =>
      injection hs with hs
      subst hs
      intro hno
      have hplace := h hno
      show match s.place with
        | .reading => true = true ∨ Between C { s with stop := true }
        | .receiving => Within C { s with stop := true }
        | .returned => True
      split
      · exact Or.inl rfl
      · rename_i hat
        rw [hat] at hplace
        exact hplace
      · trivial

/-! ## The law of a pass -/

/-- What a step adds to the history, where it does not come to the end of the file. -/
def Unrewound (s s' : DecodeLoop π φ σ) : Prop := ∃ k, s'.log = s.log ++ k ∧ .rewound true ∉ k

theorem unrewound_of_log {s s' : DecodeLoop π φ σ} (h : s'.log = s.log) : Unrewound s s' :=
  ⟨[], by rw [h, List.append_nil], by simp⟩

theorem log_read {s : DecodeLoop π φ σ} (hplace : s.place = .reading) (readFails : Bool) :
    Unrewound s (s.read C readFails)
      ∨ (s.place = .reading ∧ s.stop = false ∧ s.rest = []
        ∧ (s.read C readFails).log = s.log ++ [.rewound true]) := by
  unfold DecodeLoop.read
  by_cases hstop : s.stop = true
  · rw [if_pos hstop]
    exact Or.inl (unrewound_of_log rfl)
  rw [if_neg hstop]
  by_cases hfails : readFails = true
  · rw [if_pos hfails]
    exact Or.inl ⟨[.rewound false], rfl, by simp⟩
  rw [if_neg hfails]
  split
  · rename_i hrest
    exact Or.inr ⟨hplace, by simpa using hstop, hrest, rfl⟩
  · rename_i packet rest hrest
    dsimp only
    by_cases hvideo : packet.streamIndex = C.videoStreamIndex
    · rw [if_pos hvideo]
      unfold DecodeLoop.sendPacket
      split
      · exact Or.inl (unrewound_of_log rfl)
      · exact Or.inl ⟨[.sendFailed], rfl, by simp⟩
    · rw [if_neg hvideo]
      exact Or.inl (unrewound_of_log rfl)

theorem log_receive (s : DecodeLoop π φ σ) : Unrewound s s.receive := by
  unfold DecodeLoop.receive
  by_cases hstop : s.stop = true
  · rw [if_pos hstop]
    exact unrewound_of_log rfl
  rw [if_neg hstop]
  split
  · exact unrewound_of_log rfl
  · exact ⟨[.receiveFailed], rfl, by simp⟩
  · rename_i frame _ _
    exact ⟨[.broadcast frame], rfl, by simp⟩

/-- A step rewinds at the end of the file, or does nothing of the kind. -/
theorem log_step {s s' : DecodeLoop π φ σ} {l : DecodeLabel} (hs : decodeStep C s l = some s') :
    Unrewound s s'
      ∨ (s.place = .reading ∧ s.stop = false ∧ s.rest = []
        ∧ s'.log = s.log ++ [.rewound true]) := by
  cases l with
  | stop =>
      injection hs with hs
      exact Or.inl (unrewound_of_log (by rw [← hs]))
  | round readFails =>
      rcases round_cases hs with ⟨hplace, rfl⟩ | ⟨_, rfl⟩
      · exact log_read hplace readFails
      · exact Or.inl (log_receive s)

theorem passLaw_step {s s' : DecodeLoop π φ σ} {l : DecodeLabel}
    (h : OnTrack C s ∧ Trail (PassLaw C) s.log) (hs : decodeStep C s l = some s') :
    OnTrack C s' ∧ Trail (PassLaw C) s'.log := by
  obtain ⟨ht, hlaw⟩ := h
  refine ⟨onTrack_step ht hs, ?_⟩
  rcases log_step hs with ⟨k, hlog, hk⟩ | ⟨hplace, hstop, hrest, hlog⟩
  · rw [hlog]
    refine hlaw.append fun a ha before heq => ?_
    rw [heq] at ha
    exact absurd ha hk
  · rw [hlog]
    refine trail_concat.mpr ⟨hlaw, fun _ hno => ?_⟩
    have hat := ht hno
    rw [hplace] at hat
    obtain ⟨_, done, hfile, hfeed⟩ := hat.resolve_left (by rw [hstop]; exact Bool.noConfusion)
    rw [hrest, List.append_nil] at hfile
    exact ⟨s.codec, by rw [hfile]; exact hfeed⟩

/--
**When a pass is complete.** A pass that got from the start of the file to its end without
an error broadcast every frame its packets decode to, once and in order, if and only if
the decoder holds no frame back at the end of the file.
-/
theorem pass_complete_iff {s : DecodeLoop π φ σ}
    (h : Reachable (decodeStep C) (DecodeLoop.start C) s) {pass : List (DecodeAction φ)}
    (hpass : CompletePass s.log pass) (hno : NoError pass) :
    C.decoder.Decodes (videoPackets C C.file) (broadcasts pass)
      ↔ C.decoder.HoldsNothing (videoPackets C C.file) := by
  have h0 : OnTrack C (DecodeLoop.start C) ∧ Trail (PassLaw C) (DecodeLoop.start C).log :=
    ⟨fun _ => Or.inr ⟨rfl, [], rfl, rfl⟩, trail_nil _⟩
  have hlaw := (h.invariant (I := fun s => OnTrack C s ∧ Trail (PassLaw C) s.log) h0
    fun _ _ _ _ hi hs => passLaw_step hi hs).2
  obtain ⟨before, after, hlog, rfl⟩ := hpass
  obtain ⟨codec, hfeed⟩ := hlaw before (.rewound true) after hlog rfl hno
  exact C.decoder.decodes_iff hfeed

/-- A decoder that yields each frame at once. -/
def promptDecoder : Decoder Nat Nat Unit where
  fresh := ()
  send _ p := some ((), [some p])
  held _ := []

/-- A decoder that is one frame behind. -/
def delayingDecoder : Decoder Nat Nat (Option Nat) where
  fresh := none
  send s p := some (some p, s.toList.map some)
  held s := s.toList

/-- Two packets of the video stream, and one of another in between. -/
def mixedClip : Clip Nat Nat Unit := ⟨[⟨0, 7⟩, ⟨1, 8⟩, ⟨0, 9⟩], 0, promptDecoder⟩

/-- The thread goes round, on its own and without failed reads. -/
def rounds (n : Nat) : List DecodeLabel := List.replicate n (.round false)

/-- Of a decoder that holds nothing, both frames are broadcast. -/
theorem pass_complete_iff_prompt :
    ∃ s pass, Reachable (decodeStep mixedClip) (DecodeLoop.start mixedClip) s
      ∧ CompletePass s.log pass ∧ broadcasts pass = [7, 9]
      ∧ promptDecoder.Decodes (videoPackets mixedClip mixedClip.file) (broadcasts pass) := by
  obtain ⟨s, hs, hlog⟩ : ∃ s, exec (decodeStep mixedClip) (DecodeLoop.start mixedClip) (rounds 8)
      = some s ∧ s.log = [.broadcast 7, .broadcast 9] ++ .rewound true :: [] := ⟨_, rfl, rfl⟩
  have hpass : CompletePass s.log [.broadcast 7, .broadcast 9] := ⟨_, _, hlog, rfl⟩
  have hno : NoError ([.broadcast 7, .broadcast 9] : List (DecodeAction Nat)) := by
    constructor <;> decide
  refine ⟨s, _, Reachable.of_exec hs, hpass, rfl, ?_⟩
  exact (pass_complete_iff (Reachable.of_exec hs) hpass hno).mpr fun _ _ _ => rfl

/-- A clip of one frame, under a decoder that is one frame behind: nothing is broadcast. -/
theorem pass_loses_frame :
    let C : Clip Nat Nat (Option Nat) := ⟨[⟨0, 7⟩], 0, delayingDecoder⟩
    delayingDecoder.Decodes (videoPackets C C.file) [7]
      ∧ ∃ s pass, Reachable (decodeStep C) (DecodeLoop.start C) s ∧ CompletePass s.log pass
        ∧ NoError pass ∧ ¬ delayingDecoder.Decodes (videoPackets C C.file) (broadcasts pass) := by
  intro C
  refine ⟨⟨some 7, [], rfl, rfl⟩, ?_⟩
  obtain ⟨s, hs, hlog⟩ : ∃ s, exec (decodeStep C) (DecodeLoop.start C) (rounds 3) = some s
      ∧ s.log = [] ++ .rewound true :: [] := ⟨_, rfl, rfl⟩
  refine ⟨s, [], Reachable.of_exec hs, ⟨_, _, hlog, rfl⟩, by constructor <;> simp, ?_⟩
  rintro ⟨codec, out, hfeed, hframes⟩
  injection hfeed with hfeed
  injection hfeed with h1 h2
  subst h1; subst h2
  cases hframes

end ApprtcCli.Video
