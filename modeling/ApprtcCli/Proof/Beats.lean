import ApprtcCli.Proof.Queue

/-!
# The beat of a negotiation

What one client does with descriptions is a sequence of beats: create, set, report
applied, send. The stages of a negotiation step follow each other in a fixed order
and only one stage is outstanding, so each beat determines which beat came right
before it (`Follows`), whatever else the controller does in between. What the rest of
the world contributes is when a step begins, and a step begins at rest: with nothing
before it, after a description was sent, or after an answer was applied.
-/

namespace ApprtcCli.Proof

open Lib Call

variable {env : Env}

/-- What a client does with a description. -/
inductive Beat where
  | create (type : SdpType)
  | setLocal (type : SdpType)
  | localApplied (type : SdpType)
  | sent
  | setRemote (type : SdpType)
  | remoteApplied (type : SdpType)
  deriving DecidableEq, Repr

def beat : Action → Option Beat
  | .createDescription type => some (.create type)
  | .setLocalDescription description => some (.setLocal description.type)
  | .localApplied type => some (.localApplied type)
  | .send .description _ _ => some .sent
  | .setRemoteDescription type _ => some (.setRemote type)
  | .remoteApplied type => some (.remoteApplied type)
  | _ => none

def beats (l : List Action) : List Beat := l.filterMap beat

theorem beats_append (l k : List Action) : beats (l ++ k) = beats l ++ beats k :=
  List.filterMap_append

def noBeat (a : Action) : Bool := (beat a).isNone

theorem routine_noBeat : Routine noBeat :=
  ⟨fun _ => rfl, rfl, fun _ => rfl, rfl, fun _ => rfl⟩

theorem beats_quiet {l : List Action} (h : l.all noBeat = true) : beats l = [] := by
  rw [beats, List.filterMap_eq_nil_iff]
  exact fun a ha => Option.isNone_iff_eq_none.mp (List.all_eq_true.mp h a ha)

theorem beats_passActions (live : Bool) (ms : List SignalingMessage) :
    beats (passActions live ms) = [] :=
  beats_quiet (all_passActions rfl fun _ => rfl)

/-- Candidates are passed between the beats. -/
theorem beats_flush {type : SdpType} {live : Bool} {ms : List SignalingMessage}
    {l : List Action} :
    beats (.remoteApplied type :: passActions live ms ++ l)
      = .remoteApplied type :: beats l := by
  rw [← List.singleton_append, List.append_assoc, beats_append, beats_append, beats_passActions]
  rfl

/-- Between two negotiation steps. -/
def isRest : Option Beat → Bool
  | none => true
  | some .sent => true
  | some (.remoteApplied .answer) => true
  | _ => false

/-- Which beat may come right after the last one. -/
def Follows (last : Option Beat) : Beat → Prop
  | .create type => (type = .offer ∧ isRest last = true)
      ∨ (type = .answer ∧ last = some (.remoteApplied .offer))
  | .setLocal type => last = some (.create type)
  | .localApplied type => last = some (.setLocal type)
  | .sent => ∃ type, last = some (.localApplied type)
  | .setRemote type => (type = .offer ∨ type = .answer) ∧ isRest last = true
  | .remoteApplied type => last = some (.setRemote type)

/-- The last beat of the stage a task completes. -/
def awaits : Task → Option Beat
  | .safe _ (.createDescription type) => some (.create type)
  | .safe _ (.setLocalDescription description _) => some (.setLocal description.type)
  | .safe _ .setRemoteOffer => some (.setRemote .offer)
  | .safe _ .setRemoteAnswer => some (.setRemote .answer)
  | .sendComplete .description => some .sent
  | _ => none

theorem awaits_isStep {t : Task} {b : Beat} (h : awaits t = some b) :
    t.isNegotiationStep = true := by
  unfold awaits at h
  split at h <;> first | rfl | cases h

theorem remoteStep_awaits {type : SignalingMessageType} {sdpType : SdpType} {task : PeerTask}
    (h : RemoteStep type sdpType task) (flag : Nat) :
    awaits (.safe flag task) = some (.setRemote sdpType) := by
  cases h <;> rfl

theorem remoteStep_sdpType {type : SignalingMessageType} {sdpType : SdpType} {task : PeerTask}
    (h : RemoteStep type sdpType task) : sdpType = .offer ∨ sdpType = .answer := by
  cases h
  · exact Or.inl rfl
  · exact Or.inr rfl

/-- Every beat follows the one before it. -/
def InTime (l : List Beat) : Prop := Trail (fun pre b => Follows pre.getLast? b) l

/-- Beats that can come after a last one. -/
def Continues : Option Beat → List Beat → Prop
  | _, [] => True
  | last, b :: bs => Follows last b ∧ Continues (some b) bs

theorem InTime.append {l : List Beat} (h : InTime l) :
    ∀ {bs : List Beat}, Continues l.getLast? bs → InTime (l ++ bs) := by
  intro bs
  induction bs generalizing l with
  | nil => intro _; simpa using h
  | cons b bs ih =>
      rintro ⟨hb, hbs⟩
      rw [← List.singleton_append, ← List.append_assoc]
      exact ih (trail_concat.mpr ⟨h, hb⟩) (by rw [List.getLast?_concat]; exact hbs)

structure Beating (p : Phase) (w : World) : Prop where
  inTime : InTime (beats w.trace)
  /-- The outstanding stage is that of the last beat. -/
  stage : ∀ t ∈ load p w, ∀ b, awaits t = some b → (beats w.trace).getLast? = some b
  rest : w.ctl.finished = false → p.finishes = false → steps p w = 0 →
    isRest (beats w.trace).getLast? = true

/-- Moves between beats. -/
theorem Beating.quiet {p p' : Phase} {w w' : World} {l : List Action} (h : Beating p w)
    (hload : ∀ t ∈ load p' w', t.isNegotiationStep = true → t ∈ load p w)
    (hrest : w'.ctl.finished = false → p'.finishes = false → steps p' w' = 0 →
      w.ctl.finished = false ∧ p.finishes = false ∧ steps p w = 0)
    (htrace : w'.trace = w.trace ++ l) (hquiet : l.all noBeat = true) :
    Beating p' w' := by
  have hbeats : beats w'.trace = beats w.trace := by
    rw [htrace, beats_append, beats_quiet hquiet, List.append_nil]
  refine ⟨by rw [hbeats]; exact h.inTime, ?_, ?_⟩
  · intro t ht b hb
    rw [hbeats]
    exact h.stage t (hload t ht (awaits_isStep hb)) b hb
  · intro hf hp hs
    obtain ⟨h1, h2, h3⟩ := hrest hf hp hs
    rw [hbeats]
    exact h.rest h1 h2 h3

/-- Such moves, where the call goes on as it did. -/
theorem Beating.calm {p p' : Phase} {w w' : World} {l : List Action} (h : Beating p w)
    (hf : w'.ctl.finished = w.ctl.finished) (hp : p.finishes = false)
    (hload : ∀ t ∈ load p' w', t.isNegotiationStep = true → t ∈ load p w)
    (hsteps : steps p' w' = steps p w)
    (htrace : w'.trace = w.trace ++ l) (hquiet : l.all noBeat = true) :
    Beating p' w' :=
  h.quiet hload (fun hf' _ hs => ⟨hf ▸ hf', hp, hsteps ▸ hs⟩) htrace hquiet

/-- Beats after a last one, with what is started for the last of them. -/
theorem Beating.beat {p p' : Phase} {w w' : World} {last : Option Beat} (bs : List Beat)
    (started : List Task) (h : Beating p w) (hlast : (beats w.trace).getLast? = last)
    (hnone : w.pending.countP Task.isNegotiationStep = 0)
    (hbeats : beats w'.trace = beats w.trace ++ bs) (hload : load p' w' = w.pending ++ started)
    (hbs : Continues last bs)
    (hstage : ∀ t ∈ started, ∀ b, awaits t = some b → bs.getLast?.or last = some b)
    (hrest : p'.finishes = false → started.countP Task.isNegotiationStep = 0 →
      isRest (bs.getLast?.or last) = true) : Beating p' w' := by
  subst hlast
  refine ⟨by rw [hbeats]; exact h.inTime.append hbs, ?_, ?_⟩
  · intro t ht b hb
    rw [hload] at ht
    rw [hbeats, List.getLast?_append]
    rcases List.mem_append.mp ht with hmem | hmem
    · exact absurd (awaits_isStep hb) (List.countP_eq_zero.mp hnone t hmem)
    · exact hstage t hmem b hb
  · intro _ hp hs
    rw [steps, hload, List.countP_append] at hs
    rw [hbeats, List.getLast?_append]
    exact hrest hp (by omega)

/-- One stage of a step hands over to the next, or to none. -/
theorem Beating.hand {t : Task} {r : Reply} {p' : Phase} {w w' : World} (b : Beat)
    (bs : List Beat) (started : List Task) (h : Beating (.run t r) w)
    (hfl : Flight (.run t r) w) (ht : awaits t = some b)
    (hbeats : beats w'.trace = beats w.trace ++ bs) (hload : load p' w' = w.pending ++ started)
    (hbs : Continues (some b) bs)
    (hstage : ∀ t ∈ started, ∀ b', awaits t = some b' → bs.getLast?.or (some b) = some b')
    (hrest : p'.finishes = false → started.countP Task.isNegotiationStep = 0 →
      isRest (bs.getLast?.or (some b)) = true) : Beating p' w' := by
  have hnone : w.pending.countP Task.isNegotiationStep = 0 := by
    have hmost := hfl.most
    rw [steps, load, List.countP_cons_of_pos (awaits_isStep ht)] at hmost
    omega
  exact h.beat bs started (h.stage t (List.mem_cons_self ..) b ht) hnone hbeats hload hbs hstage
    hrest

theorem beating_init : Beating .idle initial where
  inTime := trail_nil _
  stage t ht b hb := by
    rcases load_initial ht with rfl | rfl <;> cases hb
  rest _ _ _ := rfl

/-- **Kept by every move.** -/
theorem beating_move {p p' : Phase} {w w' : World} (hb : Base p w) (hfl : Flight p w)
    (h : Beating p w) (hm : Move env p w p' w') : Beating p' w' := by
  cases hm with
  -- the stages, each with the beat it completed
  | @localBegun _ type text json =>
      exact h.hand (.create type) [.setLocal type]
        [.safe w.peer.safety (.setLocalDescription ⟨type, text⟩ json)] hfl rfl
        (by rw [grow_trace, beats_append]; rfl) (by simp [load]) ⟨rfl, trivial⟩
        (by simp [awaits]) (fun _ hs => by cases hs)
  | @localSet _ description json =>
      exact h.hand (.setLocal description.type)
        [.localApplied description.type, .sent] [.sendComplete .description]
        hfl rfl (by rw [grow_trace, beats_append]; rfl) (by simp [load])
        ⟨rfl, ⟨_, rfl⟩, trivial⟩ (by simp [awaits]) (fun _ hs => by cases hs)
  | remoteOfferSet =>
      refine h.hand (.setRemote .offer) [.remoteApplied .offer, .create .answer]
        [.safe w.peer.safety (.createDescription .answer)] hfl rfl ?_ (by simp [load])
        ⟨rfl, Or.inr ⟨rfl, rfl⟩, trivial⟩ (by simp [awaits]) (fun _ hs => by cases hs)
      rw [grow_trace, beats_append, beats_flush]
      rfl
  | remoteAnswerSet =>
      refine h.hand (.setRemote .answer) [.remoteApplied .answer] []
        hfl rfl ?_ (by simp [load]) ⟨rfl, trivial⟩ (by simp) (fun _ _ => rfl)
      rw [grow_trace, beats_append, beats_flush]
      rfl
  | @flushFailed _ type sdpType task front r e ht =>
      refine h.hand (.setRemote sdpType) [.remoteApplied sdpType] []
        hfl (remoteStep_awaits ht _) ?_ (by simp [load]) ⟨rfl, trivial⟩ (by simp)
        (fun h => Bool.noConfusion h)
      rw [grow_trace, beats_append, beats_flush]
      rfl
  | descriptionSent =>
      exact h.hand .sent [] [] hfl rfl (by simp) (by simp [load])
        trivial (by simp) (fun _ _ => rfl)
  -- the pump, which only begins at rest
  | offerStarted hp =>
      have hnone : steps .pump w = 0 := hfl.free hp
      refine h.beat [.create .offer]
        [.safe w.peer.safety (.createDescription .offer)] rfl hnone ?_
        (by simp [load]) ⟨Or.inl ⟨rfl, h.rest hp.unfinished rfl hnone⟩, trivial⟩
        (by simp [awaits]) (fun _ hs => by cases hs)
      rw [grow_trace, beats_append, beats_append, beats_quiet routine_noBeat.states]
      rfl
  | @remoteBegun _ m rest sdpType task hp hq hm =>
      have hnone : steps .pump w = 0 := hfl.free hp
      have hrest := h.rest hp.unfinished rfl hnone
      refine h.beat [.setRemote sdpType] [.safe w.peer.safety task] rfl hnone
        ?_ (by simp [load]) ⟨⟨remoteStep_sdpType hm, hrest⟩, trivial⟩ ?_ ?_
      · rw [grow_trace, beats_append, ← List.singleton_append, List.append_assoc, beats_append,
          beats_append, beats_quiet routine_noBeat.states]
        rfl
      · intro t ht b hb
        cases List.mem_singleton.mp ht
        rwa [remoteStep_awaits hm] at hb
      · intro _ hs
        rw [List.countP_cons_of_pos (remoteStep_isStep hm _)] at hs
        cases hs
  -- an ignored task of a call that goes on is no stage
  | @ignore _ t r hi =>
      refine h.quiet (l := []) (load_kept rfl) ?_ (by simp) rfl
      intro hf _ hs
      have ht := ignored_idle hb hi hf
      exact ⟨hf, rfl, by simpa [steps, load, ht] using hs⟩
  -- the call is over, or about to be: nothing is claimed of where it rests
  | byeSent hf =>
      refine h.quiet (load_kept (completed_pending ..)) ?_ rfl ?_
      · intro hf'
        exact Bool.noConfusion (hf.symm.trans hf')
      · rw [List.all_cons, routine_noBeat.closing]
        rfl
  | ended =>
      exact h.quiet (load_kept (ended_pending ..)) (fun h => Bool.noConfusion h) (ended_trace ..)
        (routine_noBeat.ended rfl rfl)
  | byeStarted hf hj =>
      refine h.quiet (load_started (byeSent_pending ..) rfl) (fun h => Bool.noConfusion h) rfl ?_
      rw [stopActions, List.all_append, List.all_cons, routine_noBeat.states]
      rfl
  | already hf =>
      refine h.quiet (l := []) (load_kept rfl) ?_ (by simp) rfl
      intro hf'
      exact Bool.noConfusion (hf.symm.trans hf')
  | fail | setUpFailed =>
      exact h.quiet (l := []) (load_kept rfl) (fun _ h => Bool.noConfusion h) (by simp) rfl
  | descriptionUnsent | startupTimer | durationTimer | chainFailed | byePopped | unknownPopped =>
      exact h.quiet (load_started (grow_pending ..) rfl) (fun _ h => Bool.noConfusion h) rfl rfl
  | candidateFailed =>
      refine h.quiet (load_started (grow_pending ..) rfl) (fun _ h => Bool.noConfusion h) rfl ?_
      rw [List.all_cons, all_passActions rfl fun _ => rfl]
      rfl
  | remoteUnparsed =>
      refine h.quiet (load_started (grow_pending ..) rfl) (fun _ h => Bool.noConfusion h) rfl ?_
      rw [List.all_append, List.all_cons, routine_noBeat.states]
      rfl
  -- no stage begins or ends
  | registered hf =>
      exact h.calm rfl rfl (load_started (grow_pending ..) (all_statsStarted rfl _))
        (by simp [steps, load, List.countP_append, Task.isNegotiationStep]) rfl rfl
  | stopped | drained => exact h.calm (l := []) rfl rfl (load_kept rfl) rfl (by simp) rfl
  | observed =>
      refine h.calm rfl rfl ?_ (by simp [steps, load]) rfl rfl
      intro t ht _
      simpa [load] using ht
  | joined | factoryCreated | connectionCreated | setUpDeref | videoSourceCreated | accepted
  | candidateBuffered =>
      exact h.calm rfl rfl (load_started (grow_pending ..) rfl)
        (by simp [steps, load, Task.isNegotiationStep]) rfl rfl
  | candidatePassed =>
      refine h.calm rfl rfl (load_started (grow_pending ..) rfl) (by simp [steps, load]) rfl ?_
      rw [List.all_cons, all_passActions rfl fun _ => rfl]
      rfl
  | setUpDone =>
      refine h.calm rfl rfl ?_ (by simp [steps, load, World.pending]) rfl ?_
      · intro t ht _
        simpa [load, World.pending] using ht
      · rw [List.all_cons, routine_noBeat.states]
        rfl
  | stats hs =>
      refine h.calm rfl rfl (load_started (grow_pending ..) rfl)
        (by simp [steps, load, List.countP_append, Task.isNegotiationStep]) rfl ?_
      rcases hs with rfl | ⟨_, rfl⟩ <;> rfl
  | candidateSent =>
      exact h.calm rfl rfl (load_started (grow_pending ..) rfl)
        (by simp [steps, load, List.countP_append, Task.isNegotiationStep]) rfl rfl
  | webSocketOpen =>
      exact h.calm rfl rfl (load_started (grow_pending ..) rfl)
        (by simp [steps, load, List.countP_append, Task.isNegotiationStep]) rfl
        routine_noBeat.states
  | established =>
      refine h.calm rfl rfl (load_established fun _ => rfl)
        (by simp [steps, load, List.countP_append, List.countP_cons, Task.isNegotiationStep])
        rfl ?_
      rw [List.all_cons, routine_noBeat.states]
      rfl

theorem beating_enter {p : Phase} {w w' : World} {l : Label} (h : Beating .idle w)
    (he : Enter w l p w') : Beating p w' := by
  cases he with
  | post hi =>
      exact h.calm (l := []) rfl rfl (fun _ ht _ => (load_post hi).mem_iff.mp ht)
        ((load_post hi).countP_eq _) (by simp) rfl
  | @event t hr =>
      have ht := canRaise_idle hr
      refine h.calm (l := []) rfl rfl ?_ ?_ (by simp) rfl
      · intro t' ht' hs
        rcases load_event ht' with ht' | rfl
        · exact ht'
        · rw [ht] at hs
          cases hs
      · simp only [steps, load, World.pending, List.countP_append, List.countP_singleton, ht]
        simp
  | run hq =>
      refine h.calm (l := []) rfl rfl ?_ (by rw [steps, load_run hq, steps]) (by simp) rfl
      intro t ht _
      rwa [load_run hq] at ht
  | destroy hq hf =>
      refine h.calm rfl rfl ?_ (by simp [steps, load, World.pending]) rfl routine_noBeat.close
      intro t ht _
      simpa [load, World.pending] using ht

theorem beating_visited {p : Phase} {w : World} (h : Visited env p w) : Beating p w :=
  h.invariant (I := Beating) beating_init (fun _ _ _ _ _ hi he => beating_enter hi he)
    (fun _ _ _ _ hv hi hm => beating_move (base_visited hv) (flight_visited hv) hi hm)

end ApprtcCli.Proof
