import ApprtcCli.Lib.Owner
import ApprtcCli.Signaling.Common
import ApprtcCli.Video.Broadcast
import ApprtcCli.Video.Decode

/-!
# A file as a video source

The whole of `FileVideoSource`: what FFmpeg allocates for it, its decoder thread, and its
sinks. `Start` opens the file and creates the thread; the destructor sets `stop_`, waits in
`join` until the thread has returned, and frees what was allocated. Sinks come and go on
other threads.

A step is one call by the owner, one locked section of the sinks, or one step of the
decoder thread: a round of the loop it is in, the copy of the sinks, or a delivery. A frame
that is being broadcast keeps the thread until it was delivered to the whole copy.

Whether a call of FFmpeg succeeds is given by `Ffmpeg`. The handles it gives out, and the
data it puts into the packet, are owned by the source (`Lib/Owner.lean`).
-/

namespace ApprtcCli.Video

open Lib

/-- The members that hold what FFmpeg allocated, and the data of the packet. -/
inductive Pointer where
  | formatContext
  | codecContext
  | decodedFrame
  | packet
  | packetData
  | swsContext
  deriving DecidableEq

/-- What FFmpeg makes of the file; the index of the best stream is negative if there is none. -/
structure Ffmpeg (π φ σ : Type) extends Clip π φ σ where
  openInput : Bool := true
  findStreamInfo : Bool := true
  findDecoder : Bool := true
  allocContext3 : Bool := true
  parametersToContext : Bool := true
  open2 : Bool := true
  frameAlloc : Bool := true
  packetAlloc : Bool := true
  width : Int
  height : Int
  getContext : Bool := true

/-- What happened at the source, oldest first. -/
inductive SourceAction (φ ι : Type) where
  /-- `AddOrUpdateSink` returned. -/
  | added (sink : Option ι)
  /-- `RemoveSink` returned. -/
  | removed (sink : Option ι)
  | decoded (action : DecodeAction φ)
  /-- `BroadcastFrame` copied the sinks. -/
  | copied (frame : φ)
  /-- A call of `OnFrame` was started. -/
  | onFrame (sink : ι) (frame : φ)
  deriving DecidableEq

inductive SourceState where
  | initializing
  | live
  | ended
  deriving DecidableEq, Repr

/-- How far the owner has got. -/
inductive SourcePlace where
  | constructed
  | started
  /-- The destructor waits in `join`. -/
  | joining
  | destroyed
  deriving DecidableEq, Repr

structure Source (π φ σ ι ω : Type) where
  place : SourcePlace := .constructed
  state : SourceState := .initializing
  ffmpeg : Owner Pointer := {}
  videoStreamIndex : Int := -1
  width : Int := 0
  height : Int := 0
  sinks : FileVideoSource ι ω := {}
  /-- `decoder_thread_`, while it is joinable. -/
  decoderThread : Option (DecodeLoop π φ σ) := none
  /-- The frame `BroadcastFrame` was called with, and has not returned from. -/
  frame : Option φ := none
  log : List (SourceAction φ ι) := []

variable {π φ σ ι ω : Type} (F : Ffmpeg π φ σ)

namespace Source

def calls (s : Source π φ σ ι ω) (ops : List (HandleOp Pointer)) : Source π φ σ ι ω :=
  { s with ffmpeg := s.ffmpeg.run ops }

def setVideoStreamIndex (s : Source π φ σ ι ω) (index : Int) : Source π φ σ ι ω :=
  { s with videoStreamIndex := index }

def setDimensions (s : Source π φ σ ι ω) (width height : Int) : Source π φ σ ι ω :=
  { s with width := width, height := height }

def initializeDecoder (s : Source π φ σ ι ω) : Source π φ σ ι ω × Status :=
  if F.openInput = false then (s, .error ⟨.notFound, "avformat_open_input failed"⟩) else
  let s := s.calls [.acquire .formatContext, .use .formatContext]
  if F.findStreamInfo = false then
    (s, .error ⟨.internal, "avformat_find_stream_info failed"⟩) else
  let s := (s.calls [.use .formatContext]).setVideoStreamIndex F.videoStreamIndex
  if F.videoStreamIndex < 0 then (s, .error ⟨.notFound, "no video stream found"⟩) else
  let s := s.calls [.use .formatContext]
  if F.findDecoder = false then
    (s, .error ⟨.unimplemented, "no decoder available for input video"⟩) else
  if F.allocContext3 = false then (s, .error ⟨.internal, "avcodec_alloc_context3 failed"⟩) else
  let s := s.calls [.acquire .codecContext, .use .codecContext, .use .formatContext]
  if F.parametersToContext = false then
    (s, .error ⟨.internal, "avcodec_parameters_to_context failed"⟩) else
  let s := s.calls [.use .codecContext]
  if F.open2 = false then (s, .error ⟨.internal, "avcodec_open2 failed"⟩) else
  let s := s.calls (if F.frameAlloc then [.acquire .decodedFrame] else [])
  let s := s.calls (if F.packetAlloc then [.acquire .packet] else [])
  if F.frameAlloc = false ∨ F.packetAlloc = false then
    (s, .error ⟨.internal, "failed to allocate FFmpeg frame state"⟩) else
  let s := (s.calls [.use .codecContext]).setDimensions F.width F.height
  if F.width ≤ 0 ∨ F.height ≤ 0 then
    (s, .error ⟨.invalidArgument, "decoded dimensions are invalid"⟩) else
  let s := s.calls [.use .codecContext]
  if F.getContext = false then (s, .error ⟨.internal, "sws_getContext failed"⟩) else
  (s.calls [.acquire .swsContext, .use .formatContext], okStatus)

/-- Free what is not null, in this order. -/
def cleanupDecoder (s : Source π φ σ ι ω) : Source π φ σ ι ω :=
  s.calls (([.packet, .decodedFrame, .codecContext, .formatContext, .swsContext].filter
    s.ffmpeg.holds).map .release)

/-- `Start`, and what it returns. -/
def start (s : Source π φ σ ι ω) : Source π φ σ ι ω × Status :=
  match s.initializeDecoder F with
  | (s, .error e) => ({ s with place := .started, state := .ended }, .error e)
  | (s, .ok _) =>
      ({ s with
          place := .started, state := .live, decoderThread := some (DecodeLoop.start F.toClip) },
        okStatus)

/-- The end of the destructor. -/
def finish (s : Source π φ σ ι ω) : Source π φ σ ι ω :=
  { s.cleanupDecoder with place := .destroyed, state := .ended, decoderThread := none }

/-- The destructor, up to `join`. -/
def destroy (s : Source π φ σ ι ω) : Source π φ σ ι ω :=
  match s.decoderThread with
  | none => s.finish
  | some t => { s with place := .joining, decoderThread := some { t with stop := true } }

/-- The thread that the destructor waits for has returned. -/
def joined (s : Source π φ σ ι ω) : Option (Source π φ σ ι ω) :=
  match s.place, s.decoderThread with
  | .joining, some t => if t.place = .returned then some s.finish else none
  | _, _ => none

/-- The input dimensions of `GetStats`. -/
def getStats (s : Source π φ σ ι ω) : Int × Int := (s.width, s.height)

end Source

/-! ## The decoder thread -/

namespace DecodeLoop

/-- What a round of the outer loop asks of FFmpeg. -/
def readCalls (t : DecodeLoop π φ σ) (readFails : Bool) : List (HandleOp Pointer) :=
  if t.stop then []
  else
    [.use .formatContext, .use .packet] ++
      match readFails, t.rest with
      | true, _ | false, [] => [.use .formatContext, .use .codecContext]
      | false, packet :: _ =>
          .acquire .packetData ::
            ((if packet.streamIndex = F.videoStreamIndex then
                [.use .codecContext, .use .packetData] else [])
              ++ [.release .packetData])

/-- The frame that a round of the inner loop receives. -/
def received (t : DecodeLoop π φ σ) : Option φ :=
  match t.stop, t.ready with
  | false, some frame :: _ => some frame
  | _, _ => none

/-- What a round of the inner loop asks of FFmpeg; a frame that was received is scaled. -/
def receiveCalls (t : DecodeLoop π φ σ) : List (HandleOp Pointer) :=
  if t.stop then []
  else
    [.use .codecContext, .use .decodedFrame] ++
      if t.received.isSome then [.use .swsContext, .use .decodedFrame] else []

end DecodeLoop

namespace Source

/-- The thread has gone on to `t'`, and what it did is written down. -/
def advance (s : Source π φ σ ι ω) (t t' : DecodeLoop π φ σ) : Source π φ σ ι ω :=
  { s with
    decoderThread := some t'
    log := s.log ++ (t'.log.drop t.log.length).map .decoded }

/-- A round of the loop the thread is in. -/
def round (s : Source π φ σ ι ω) (t : DecodeLoop π φ σ) (readFails : Bool) :
    Option (Source π φ σ ι ω) :=
  match t.place with
  | .reading =>
      some ((s.calls (t.readCalls F readFails)).advance t (t.read F.toClip readFails))
  | .receiving =>
      some { (s.calls t.receiveCalls).advance t t.receive with frame := t.received }
  | .returned => none

/-- `BroadcastFrame`, up to the copy. -/
def copySinks (s : Source π φ σ ι ω) (frame : φ) : Option (Source π φ σ ι ω) :=
  s.sinks.copySinks.map fun sinks => { s with sinks := sinks, log := s.log ++ [.copied frame] }

/-- The call that the next round of the delivery loop starts. -/
def delivery (s : Source π φ σ ι ω) : List (SourceAction φ ι) :=
  match s.frame, s.sinks.broadcast with
  | some frame, some (⟨some sink, _⟩ :: _) => [.onFrame sink frame]
  | _, _ => []

/-- One round of the delivery loop, or the end of `BroadcastFrame`. -/
def deliver (s : Source π φ σ ι ω) : Option (Source π φ σ ι ω) :=
  s.sinks.deliver.map fun sinks =>
    { s with
      sinks := sinks
      frame := if sinks.broadcast.isSome then s.frame else none
      log := s.log ++ s.delivery }

/-- The decoder thread goes on. -/
def goOn (s : Source π φ σ ι ω) (t : DecodeLoop π φ σ) (readFails : Bool) :
    Option (Source π φ σ ι ω) :=
  match s.frame, s.sinks.broadcast with
  | none, _ => s.round F t readFails
  | some frame, none => s.copySinks frame
  | some _, some _ => s.deliver

end Source

/-! ## Steps -/

inductive SourceLabel (ι ω : Type) where
  /-- The owner calls `Start`, once. -/
  | start
  /-- The owner destroys the source. -/
  | destructor
  /-- `join` returns. -/
  | joined
  /-- The decoder thread goes on. -/
  | thread (readFails : Bool)
  | addOrUpdateSink (sink : Option ι) (wants : ω)
  | removeSink (sink : Option ι)

/-- The owner still holds the source, so that its functions may be called. -/
def Source.held (s : Source π φ σ ι ω) : Bool :=
  s.place = .constructed || s.place = .started

def sourceStep [DecidableEq ι] (s : Source π φ σ ι ω) :
    SourceLabel ι ω → Option (Source π φ σ ι ω)
  | .start => if s.place = .constructed then some (s.start F).1 else none
  | .destructor => if s.held then some s.destroy else none
  | .joined => s.joined
  | .thread readFails => s.decoderThread.bind fun t => s.goOn F t readFails
  | .addOrUpdateSink sink wants =>
      if s.held then
        some { s with sinks := s.sinks.addOrUpdateSink sink wants, log := s.log ++ [.added sink] }
      else none
  | .removeSink sink =>
      if s.held then
        some { s with sinks := s.sinks.removeSink sink, log := s.log ++ [.removed sink] }
      else none

/-! ## What a sink is owed -/

/-- What the actions so far come to for one sink. -/
structure Audience (φ : Type) where
  registered : Bool := false
  /-- The frames that were broadcast while it was registered. -/
  due : List φ := []
  /-- The frames it was called with. -/
  heard : List φ := []

def Audience.after [DecidableEq ι] (sink : ι) (a : Audience φ) :
    SourceAction φ ι → Audience φ
  | .added other => if other = some sink then { a with registered := true } else a
  | .removed other => if other = some sink then { a with registered := false } else a
  | .decoded _ => a
  | .copied frame => if a.registered then { a with due := a.due ++ [frame] } else a
  | .onFrame other frame => if other = sink then { a with heard := a.heard ++ [frame] } else a

def audience [DecidableEq ι] (sink : ι) (log : List (SourceAction φ ι)) : Audience φ :=
  log.foldl (Audience.after sink) {}

/-- What the decoder thread did. -/
def decodedActions (log : List (SourceAction φ ι)) : List (DecodeAction φ) :=
  log.filterMap fun
    | .decoded action => some action
    | _ => none

/-- The frames that were broadcast to the sinks of the moment. -/
def copiedFrames (log : List (SourceAction φ ι)) : List φ :=
  log.filterMap fun
    | .copied frame => some frame
    | _ => none

end ApprtcCli.Video
