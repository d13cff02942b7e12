import ApprtcCli.Proof.Joining

/-!
# One negotiation step at a time

`signaling_action_in_flight_` is a lock taken in three branches of the pump and
released in six callbacks. What it guards is a baton: the one stage of a
negotiation step that is outstanding. Each stage hands the baton to the next, so
the load holds one stage exactly while the lock is taken, and a path that drops
the baton is a path that finishes the call.

The second half is about the pump. It leaves only when there is nothing it may do,
and whatever makes something possible again pumps.
-/

namespace ApprtcCli.Proof

open Lib Call

variable {env : Env}

/-- The stages of negotiation steps outstanding, the running task's included. -/
def steps (p : Phase) (w : World) : Nat := (load p w).countP Task.isNegotiationStep

structure Flight (p : Phase) (w : World) : Prop where
  most : steps p w ≤ 1
  /-- The lock is taken exactly while a stage is outstanding. -/
  lock : w.ctl.finished = false → p.finishes = false →
    (w.ctl.signalingActionInFlight = true ↔ steps p w = 1)

/-- A move that neither takes the baton nor drops it. -/
theorem Flight.frame {p p' : Phase} {w w' : World} (h : Flight p w)
    (hf : w'.ctl.finished = w.ctl.finished)
    (hlock : w'.ctl.signalingActionInFlight = w.ctl.signalingActionInFlight)
    (hp : w.ctl.finished = false → p'.finishes = false → p.finishes = false)
    (hload : steps p' w' = steps p w) : Flight p' w' := by
  constructor
  · rw [hload]
    exact h.most
  · rw [hf, hlock, hload]
    exact fun hf hr => h.lock hf (hp hf hr)

/-- Where the call is over or about to be, the baton may be dropped. -/
theorem Flight.over {p p' : Phase} {w w' : World} (h : Flight p w)
    (hover : w'.ctl.finished = true ∨ p'.finishes = true)
    (hload : steps p' w' ≤ steps p w) : Flight p' w' := by
  refine ⟨Nat.le_trans hload h.most, fun hf hp => ?_⟩
  rcases hover with ho | ho
  · rw [ho] at hf; cases hf
  · rw [ho] at hp; cases hp

/-- Where the pump may go on, nobody holds the baton. -/
theorem Flight.free {w : World} (h : Flight .pump w) (hp : Pumping w) : steps .pump w = 0 := by
  have hle := h.most
  have hne : steps .pump w ≠ 1 := by
    intro hs
    have hl := (h.lock hp.unfinished rfl).mpr hs
    rw [hp.unflighted] at hl
    cases hl
  omega

/-- Taking the baton at the head of the pump, where there was none. -/
theorem Flight.begin {w w' : World} (flag : Nat) (task : PeerTask) (h : Flight .pump w)
    (hp : Pumping w) (hlock : w'.ctl.signalingActionInFlight = true)
    (ht : (Task.safe flag task).isNegotiationStep = true)
    (hload : w'.pending = w.pending ++ [.safe flag task]) : Flight .idle w' := by
  have hnone : steps .pump w = 0 := h.free hp
  have hone : steps .idle w' = 1 := by
    have hsum : steps .idle w' = steps .pump w + 1 := by
      simp [steps, load, hload, List.countP_append, ht]
    omega
  exact ⟨Nat.le_of_eq hone, fun _ _ => ⟨fun _ => hone, fun _ => hlock⟩⟩

/-- Letting the baton go, with the lock. -/
theorem Flight.release {t : Task} {r : Reply} {p' : Phase} {w w' : World}
    (h : Flight (.run t r) w) (ht : t.isNegotiationStep = true)
    (hf : w'.ctl.signalingActionInFlight = false) (hp : load p' w' = w.pending) :
    Flight p' w' := by
  have hle := h.most
  have hsum : steps (.run t r) w = steps p' w' + 1 := by
    rw [steps, steps, hp]
    simp [load, ht]
  have hnone : steps p' w' = 0 := by omega
  refine ⟨by omega, fun _ _ => ?_⟩
  rw [hf, hnone]
  simp

/-- A stage that does nothing is a stage whose flag is dead, and then the call is over. -/
theorem ignored_idle {w : World} {t : Task} {r : Reply} (hb : Base (.run t r) w)
    (h : Ignored w t) (hf : w.ctl.finished = false) : t.isNegotiationStep = false := by
  cases t with
  | safe flag task =>
      -- no flag has been reset in a call that goes on
      have hflag : flag = w.peer.safety := by
        have hle := (hb.tasks _ (List.mem_cons_self ..)).1
        have hzero := hb.flag hf
        omega
      rcases h with hne | rfl
      · exact absurd hflag hne
      · rfl
  | sendComplete kind =>
      cases kind with
      | description => cases h
      | _ => rfl
  | _ => rfl

theorem remoteStep_isStep {type : SignalingMessageType} {sdpType : SdpType} {task : PeerTask}
    (h : RemoteStep type sdpType task) (flag : Nat) :
    (Task.safe flag task).isNegotiationStep = true := by
  cases h <;> rfl

/-- No event is a stage of a negotiation step. -/
theorem canRaise_idle {w : World} {t : Task} (h : canRaise w t = true) :
    t.isNegotiationStep = false := by
  cases t with
  | safe flag task => cases task <;> first | rfl | cases h
  | sendComplete kind => cases h
  | _ => rfl

/-- Only the pump of a call that goes on takes a baton where there was none. -/
theorem steps_move {p p' : Phase} {w w' : World} (hm : Move env p w p' w') :
    steps p' w' ≤ steps p w ∨ (w.ctl.finished = false ∧ p.finishes = false) := by
  cases hm with
  | offerStarted hp | remoteBegun hp => exact Or.inr ⟨hp.unfinished, rfl⟩
  | registered hf => exact Or.inr ⟨hf, rfl⟩
  | setUpDone => exact Or.inl (by simp [steps, load, World.pending])
  | _ =>
      refine Or.inl ?_
      simp [steps, load, List.countP_append, List.countP_cons, Task.isNegotiationStep]

theorem flight_init : Flight .idle initial :=
  ⟨by decide, by decide⟩

/-- **Kept by every move.** -/
theorem flight_move {p p' : Phase} {w w' : World} (hb : Base p w) (h : Flight p w)
    (hm : Move env p w p' w') : Flight p' w' := by
  cases hm with
  | @ignore _ t r hi =>
      cases hf : w.ctl.finished with
      | true =>
          refine h.over (Or.inl hf) ?_
          simp [steps, load, List.countP_cons]
      | false =>
          have ht := ignored_idle hb hi hf
          refine h.frame rfl rfl (fun _ _ => rfl) ?_
          simp [steps, load, ht]
  | fail ht hr =>
      refine h.over (Or.inr rfl) ?_
      simp [steps, load, List.countP_cons]
  -- a stage that ends its step, well or badly, lets go
  | descriptionSent => exact h.release rfl rfl (by simp [load])
  | descriptionUnsent => exact h.release rfl rfl (by simp [load])
  | @chainFailed _ task _ _ ht =>
      refine h.release ?_ rfl (by simp [load])
      cases task <;> first | rfl | exact absurd rfl ht
  | flushFailed ht hfront => exact h.release (remoteStep_isStep ht _) rfl (by simp [load])
  | remoteAnswerSet => exact h.release rfl rfl (by simp [load])
  | localBegun | localSet | remoteOfferSet =>
      -- one stage hands over to the next
      refine h.frame rfl rfl (fun _ _ => rfl) ?_
      simp [steps, load, List.countP_append, List.countP_cons, Task.isNegotiationStep]
  -- the pump takes the baton, which nobody had
  | offerStarted hp =>
      exact h.begin w.peer.safety (.createDescription .offer) hp rfl rfl (by simp)
  | @remoteBegun _ _ _ _ task hp hq hm =>
      exact h.begin w.peer.safety task hp rfl (remoteStep_isStep hm _) (by simp)
  | byeSent hf =>
      refine h.over (Or.inl hf) ?_
      simp [steps, load, Task.isNegotiationStep]
  | byeStarted hf hj =>
      refine h.over (Or.inl rfl) ?_
      simp [steps, load, List.countP_append, Task.isNegotiationStep]
  | ended hf hr =>
      refine h.over (Or.inl rfl) ?_
      simp [steps, load]
  | already hf => exact h.over (Or.inl hf) (Nat.le_refl _)
  | observed ht =>
      refine h.frame rfl rfl (fun _ _ => rfl) ?_
      simp [steps, load]
  | established ht =>
      refine h.frame rfl rfl (fun _ _ => rfl) ?_
      simp [steps, load, List.countP_cons, List.countP_append, Task.isNegotiationStep]
  | candidateFailed | byePopped | unknownPopped | remoteUnparsed | setUpFailed =>
      refine h.over (Or.inr rfl) ?_
      simp [steps, load]
  | startupTimer | durationTimer =>
      refine h.over (Or.inr rfl) ?_
      simp [steps, load, Task.isNegotiationStep]
  | registered hf =>
      refine h.frame rfl rfl (fun _ _ => rfl) ?_
      simp [steps, load, List.countP_append, Task.isNegotiationStep]
  | _ =>
      refine h.frame rfl rfl (fun _ _ => rfl) ?_
      simp [steps, load, World.pending, List.countP_append, Task.isNegotiationStep]

theorem flight_enter {p : Phase} {w w' : World} {l : Label} (h : Flight .idle w)
    (he : Enter w l p w') :
    Flight p w' := by
  cases he with
  | post hi => exact h.frame rfl rfl (fun _ _ => rfl) ((load_post hi).countP_eq _)
  | @event t hr =>
      refine h.frame rfl rfl (fun _ _ => rfl) ?_
      have ht := canRaise_idle hr
      simp only [steps, load, World.pending, List.countP_append, List.countP_singleton, ht]
      simp
  | run hq => exact h.frame rfl rfl (fun _ _ => rfl) (by rw [steps, load_run hq, steps])
  | destroy hq hf =>
      refine h.over (Or.inl hf) ?_
      simp [steps, load, World.pending]

theorem flight_visited {p : Phase} {w : World} (h : Visited env p w) : Flight p w :=
  h.invariant (I := Flight) flight_init (fun _ _ _ _ _ hi he => flight_enter hi he)
    (fun _ _ _ _ hv hi hm => flight_move (base_visited hv) hi hm)

/-! ## Nothing is stranded -/

/-- Once registered, a controller with no step in flight has nothing left to pump. -/
def Settled (p : Phase) (w : World) : Prop :=
  w.ctl.finished = false → p.finishes = false → p ≠ .pump →
    w.ctl.negotiationReady = true → w.ctl.signalingActionInFlight = false →
      w.ctl.pendingSignalingMessages = []
        ∧ ∀ joinResponse, w.ctl.joinResponse = some joinResponse →
          joinResponse.isInitiator = true → w.ctl.offerStarted = true

/-- The fields `Settled` speaks of. -/
structure SameQueue (w w' : World) : Prop where
  finished : w'.ctl.finished = w.ctl.finished
  ready : w'.ctl.negotiationReady = w.ctl.negotiationReady
  lock : w'.ctl.signalingActionInFlight = w.ctl.signalingActionInFlight
  pending : w'.ctl.pendingSignalingMessages = w.ctl.pendingSignalingMessages
  joinResponse : w'.ctl.joinResponse = w.ctl.joinResponse
  offer : w'.ctl.offerStarted = w.ctl.offerStarted

theorem Settled.frame {p p' : Phase} {w w' : World} (h : Settled p w) (hs : SameQueue w w')
    (hp : p.finishes = false) (hpump : p ≠ .pump) : Settled p' w' := by
  unfold Settled at h ⊢
  rw [hs.finished, hs.ready, hs.lock, hs.pending, hs.joinResponse, hs.offer]
  exact fun hf _ _ => h hf hp hpump

/-- **Kept by every move.** -/
theorem settled_move {p p' : Phase} {w w' : World} (hb : Base p w) (hj : Joining p w)
    (h : Settled p w) (hm : Move env p w p' w') : Settled p' w' := by
  cases hm with
  | stopped hp =>
      -- it would have pumped, were it not in flight
      intro hf _ _ hr hi
      have hjoined := hb.ready hr
      exact absurd ⟨by simp [mayPump, hf, hr, hi], hjoined⟩ hp
  | @drained _ jr hp hq hjr ho =>
      intro _ _ _ _ _
      refine ⟨hq, fun jr' hjr' hinit => ho ?_⟩
      rw [hjr] at hjr'
      cases hjr'
      exact hinit
  | offerStarted | remoteBegun =>
      intro _ _ _ _ hi
      cases hi
  | joined hf =>
      intro _ _ _ hr _
      have hjoined := hb.ready hr
      rw [hj.unjoined] at hjoined
      cases hjoined
  | setUpDone =>
      -- not registered yet, so what was queued may wait
      intro _ _ _ hr _
      have hw := hj.fresh (Or.inl ⟨_, rfl⟩)
      exact absurd hr (by simp [poppedCtl, hw.ready])
  | descriptionSent | registered | accepted | remoteAnswerSet | candidateBuffered
  | candidatePassed =>
      intro _ _ hp
      exact absurd rfl hp
  | fail | descriptionUnsent | startupTimer | durationTimer | chainFailed | flushFailed
  | setUpFailed | candidateFailed | byePopped | unknownPopped | remoteUnparsed =>
      intro _ hp
      cases hp
  | byeSent hf | already hf =>
      intro hf'
      exact absurd hf' (by simp [completed, hf])
  | byeStarted | ended =>
      intro hf
      cases hf
  | _ => exact h.frame ⟨rfl, rfl, rfl, rfl, rfl, rfl⟩ rfl (by simp)

theorem settled_visited {p : Phase} {w : World} (h : Visited env p w) : Settled p w := by
  refine h.invariant (I := Settled) ?_ ?_ ?_
  · intro _ _ _ hr
    cases hr
  · intro w l p w' hv hs he
    cases he <;> exact hs.frame ⟨rfl, rfl, rfl, rfl, rfl, rfl⟩ rfl (fun h => by cases h)
  · intro p w p' w' hv hs hm
    exact settled_move (base_visited hv) (joining_visited hv) hs hm

/-- **One negotiation step at a time, and nothing stranded**, between any two tasks. -/
theorem one_step_in_flight {w : World} (h : Reached env w) :
    w.stepsInFlight ≤ 1
      ∧ (w.ctl.finished = false →
        (w.ctl.signalingActionInFlight = true ↔ w.stepsInFlight = 1))
      ∧ (w.ctl.finished = false → w.ctl.negotiationReady = true →
        w.ctl.signalingActionInFlight = false →
          w.ctl.pendingSignalingMessages = []
            ∧ ∀ joinResponse, w.ctl.joinResponse = some joinResponse →
              joinResponse.isInitiator = true → w.ctl.offerStarted = true) := by
  have hv := reached_visited h
  have hflight := flight_visited hv
  exact ⟨hflight.most, fun hf => hflight.lock hf rfl,
    fun hf => settled_visited hv hf rfl (by simp)⟩

/-- An initiator that registered has its offer in flight. -/
theorem one_step_in_flight_initiator :
    (after (.smooth []) (joinLabels { isInitiator := true })).ctl.offerStarted = true
      ∧ (after (.smooth []) (joinLabels { isInitiator := true })).stepsInFlight = 1 :=
  ⟨by decide,
    ((one_step_in_flight (reached_after (.smooth []) rfl)).2.1 (by decide)).mp (by decide)⟩

end ApprtcCli.Proof
