import ApprtcCli.Proof.Moves

/-!
# What every phase may assume

Two things the code checks nowhere and relies on everywhere. While the call is not
over and `OnJoinComplete` is not in the middle of its work, a client that has
joined has its connection and its factory. And a completion whose safety flag is
still live was started on the connection the client still has, because `Close`
makes a new flag before it lets go of the connection.
-/

namespace ApprtcCli.Proof

open Lib Call

variable {env : Env}

/-- Not in the middle of `OnJoinComplete`, and not about to finish. -/
def Phase.atRest : Phase → Bool
  | .setUp _ => false
  | .finishing _ _ => false
  | _ => true

/-- What an outstanding task says about the world. -/
def Sound (w : World) : Task → Prop
  | .registerComplete => w.ctl.joinResponse.isSome = true
  | .sendComplete (.bye _) => w.ctl.finished = true
  | .safe flag _ => flag ≤ w.peer.safety ∧ (flag = w.peer.safety → w.peer.connection = true)
  | _ => True

structure Base (p : Phase) (w : World) : Prop where
  quit : w.quit = true → w.ctl.finished = true
  tasks : ∀ t ∈ load p w, Sound w t
  sink : w.peer.remoteFrameSink = true → w.peer.connection = true
  joined : w.peer.connection = true → w.ctl.joinResponse.isSome = true
  ready : w.ctl.negotiationReady = true → w.ctl.joinResponse.isSome = true
  setUp : ∀ joinResponse, p = .setUp joinResponse → w.ctl.joinResponse = some joinResponse
  /-- The flag is only ever reset by a controller that has finished. -/
  flag : w.ctl.finished = false → w.peer.safety = 0
  alive : w.ctl.finished = false → p.atRest = true → w.ctl.joinResponse.isSome = true →
    w.peer.connection = true ∧ w.peer.factory = true

/-- The fields `Base` speaks of. -/
structure SameBase (w w' : World) : Prop where
  quit : w'.quit = w.quit
  finished : w'.ctl.finished = w.ctl.finished
  joinResponse : w'.ctl.joinResponse = w.ctl.joinResponse
  ready : w'.ctl.negotiationReady = w.ctl.negotiationReady
  safety : w'.peer.safety = w.peer.safety
  factory : w'.peer.factory = w.peer.factory
  connection : w'.peer.connection = w.peer.connection
  sink : w'.peer.remoteFrameSink = w.peer.remoteFrameSink

/-- Nothing but `Close` makes a sound task unsound. -/
theorem Sound.mono {w w' : World} {t : Task} (h : Sound w t)
    (hj : w.ctl.joinResponse.isSome = true → w'.ctl.joinResponse.isSome = true)
    (hf : w.ctl.finished = true → w'.ctl.finished = true)
    (hs : w'.peer.safety = w.peer.safety)
    (hc : w.peer.connection = true → w'.peer.connection = true) : Sound w' t := by
  cases t with
  | registerComplete => exact hj h
  | sendComplete kind =>
      cases kind with
      | bye status => exact hf h
      | _ => trivial
  | safe flag task =>
      refine ⟨by rw [hs]; exact h.1, fun he => hc (h.2 ?_)⟩
      rw [← hs]; exact he
  | _ => trivial

/-- A move that leaves those fields alone has only its new tasks to answer for. -/
theorem Base.frame {p p' : Phase} {w w' : World} (h : Base p w) (hs : SameBase w w')
    (hrest : w.ctl.finished = false → p'.atRest = true → p.atRest = true)
    (hset : ∀ joinResponse, p' = .setUp joinResponse → p = .setUp joinResponse)
    (hload : ∀ t ∈ load p' w', t ∈ load p w ∨ Sound w t) : Base p' w' where
  quit hq := by rw [hs.finished]; exact h.quit (by rw [← hs.quit]; exact hq)
  tasks t ht := by
    have hold : Sound w t := (hload t ht).elim (h.tasks t) id
    refine hold.mono ?_ ?_ hs.safety ?_
    · rw [hs.joinResponse]; exact id
    · rw [hs.finished]; exact id
    · rw [hs.connection]; exact id
  sink := by rw [hs.sink, hs.connection]; exact h.sink
  joined := by rw [hs.connection, hs.joinResponse]; exact h.joined
  ready := by rw [hs.ready, hs.joinResponse]; exact h.ready
  setUp jr hp := by rw [hs.joinResponse]; exact h.setUp jr (hset jr hp)
  flag := by rw [hs.finished, hs.safety]; exact h.flag
  alive := by
    rw [hs.finished, hs.joinResponse, hs.connection, hs.factory]
    exact fun hf hr => h.alive hf (hrest hf hr)

/-- A move that starts a task and leaves those fields alone has that task to answer for. -/
theorem Base.frame_start {p p' : Phase} {w w' : World} {t : Task} (h : Base p w)
    (hs : SameBase w w') (hrest : w.ctl.finished = false → p'.atRest = true → p.atRest = true)
    (hset : ∀ joinResponse, p' = .setUp joinResponse → p = .setUp joinResponse)
    (hload : load p' w' = w.pending ++ [t]) (hsound : Sound w t) : Base p' w' := by
  refine h.frame hs hrest hset (fun t' ht => ?_)
  rw [hload] at ht
  rcases List.mem_append.mp ht with ht | ht
  · left
    cases p with
    | run task r => exact List.mem_cons_of_mem _ ht
    | _ => exact ht
  · cases List.mem_singleton.mp ht
    exact Or.inr hsound

/-- A flag the running task found live is that of the client's connection. -/
theorem Base.connection {task : PeerTask} {r : Reply} {w : World}
    (h : Base (.run (.safe w.peer.safety task) r) w) : w.peer.connection = true :=
  (h.tasks _ (List.mem_cons_self ..)).2 rfl

theorem Pumping.unfinished {w : World} (h : Pumping w) : w.ctl.finished = false := by
  have hm := h.1
  unfold mayPump at hm
  cases hf : w.ctl.finished
  · rfl
  · rw [hf] at hm; exact absurd hm (by simp)

theorem Pumping.ready {w : World} (h : Pumping w) : w.ctl.negotiationReady = true := by
  have hm := h.1
  unfold mayPump at hm
  simp only [Bool.and_eq_true] at hm
  exact hm.1.2

theorem Pumping.unflighted {w : World} (h : Pumping w) :
    w.ctl.signalingActionInFlight = false := by
  have hm := h.1
  unfold mayPump at hm
  simp only [Bool.and_eq_true] at hm
  simpa using hm.2

theorem Base.pumping {w : World} (h : Base .pump w) (hp : Pumping w) :
    w.peer.connection = true :=
  (h.alive hp.unfinished rfl hp.2).1

theorem base_init : Base .idle initial where
  quit h := absurd h (by decide)
  tasks t ht := by
    rcases load_initial ht with rfl | rfl <;> trivial
  sink h := absurd h (by decide)
  joined h := absurd h (by decide)
  ready h := absurd h (by decide)
  setUp jr h := by cases h
  flag _ := rfl
  alive _ _ h := absurd h (by decide)

theorem base_closed {p : Phase} {w w' : World} (h : Base p w) (hf : w'.ctl.finished = true)
    (hp : w'.peer = closedPeer w.peer) (hj : w'.ctl.joinResponse = w.ctl.joinResponse)
    (hr : w'.ctl.negotiationReady = w.ctl.negotiationReady)
    (hload : ∀ t ∈ load .idle w', t ∈ load p w) : Base .idle w' where
  quit _ := hf
  tasks t ht := by
    have hs := h.tasks t (hload t ht)
    cases t with
    | safe flag task =>
        have hlt : flag < w'.peer.safety := by rw [hp]; exact Nat.lt_succ_of_le hs.1
        exact ⟨Nat.le_of_lt hlt, fun he => absurd he (Nat.ne_of_lt hlt)⟩
    | registerComplete => unfold Sound; rw [hj]; exact hs
    | sendComplete kind => cases kind with
      | bye status => exact hf
      | _ => trivial
    | _ => trivial
  sink hs := by rw [hp] at hs; cases hs
  joined hc := by rw [hp] at hc; cases hc
  ready := by rw [hr, hj]; exact h.ready
  setUp jr hp := by cases hp
  flag h := by rw [hf] at h; cases h
  alive h := by rw [hf] at h; cases h

/-- **Kept by every move.** -/
theorem base_move {p p' : Phase} {w w' : World} (h : Base p w) (hm : Move env p w p' w') :
    Base p' w' := by
  cases hm with
  | byeSent hf =>
      refine base_closed h hf rfl rfl rfl ?_
      intro t ht
      exact List.mem_cons_of_mem _ (by simpa [load] using ht)
  | ended hf hr =>
      refine base_closed h rfl rfl rfl rfl ?_
      intro t ht
      simpa [load] using ht
  | byeStarted hf hj =>
      refine
        { quit := fun _ => rfl, tasks := ?_, sink := h.sink, joined := h.joined
          ready := h.ready, setUp := fun _ h => Phase.noConfusion h
          flag := fun h => Bool.noConfusion h, alive := fun h => Bool.noConfusion h }
      intro t ht
      simp only [load, byeSent_pending, List.mem_append, List.mem_singleton] at ht
      rcases ht with ht | rfl
      · exact (h.tasks t ht).mono id (fun _ => rfl) rfl id
      · rfl
  | @joined _ jr hf =>
      -- what later tasks take for granted is set here, and never unset
      refine
        { quit := h.quit, tasks := ?_, sink := h.sink, joined := fun _ => rfl
          ready := fun _ => rfl, setUp := fun jr' hp => by injection hp with hp; rw [hp]; rfl
          flag := h.flag, alive := fun _ h => Bool.noConfusion h }
      intro t ht
      have ht : t ∈ w.pending := by simpa [load] using ht
      exact (h.tasks t (List.mem_cons_of_mem _ ht)).mono (fun _ => rfl) id rfl id
  | factoryCreated =>
      refine
        { quit := h.quit, tasks := ?_, sink := h.sink, joined := h.joined
          ready := h.ready, setUp := h.setUp, flag := h.flag
          alive := fun _ h => Bool.noConfusion h }
      intro t ht
      exact (h.tasks t (by simpa [load] using ht)).mono id id rfl id
  | @connectionCreated _ jr =>
      refine
        { quit := h.quit, tasks := ?_, sink := fun _ => rfl, joined := fun _ => ?_
          ready := h.ready, setUp := h.setUp, flag := h.flag
          alive := fun _ h => Bool.noConfusion h }
      · intro t ht
        exact (h.tasks t (by simpa [load] using ht)).mono id id rfl (fun _ => rfl)
      · have hjr : w.ctl.joinResponse = some jr := h.setUp jr rfl
        simp [hjr]
  | setUpDone hq hf hc =>
      refine
        { quit := h.quit, tasks := ?_, sink := h.sink, joined := h.joined, ready := h.ready
          setUp := fun _ h => Phase.noConfusion h, flag := h.flag, alive := fun _ _ _ => ⟨hc, hf⟩ }
      intro t ht
      exact (h.tasks t (by simpa [load, World.pending] using ht)).mono id id rfl id
  | registered hf =>
      have hj : w.ctl.joinResponse.isSome = true := h.tasks _ (List.mem_cons_self ..)
      refine
        { quit := h.quit, tasks := ?_, sink := h.sink, joined := h.joined
          ready := fun _ => hj, setUp := fun _ h => Phase.noConfusion h, flag := h.flag
          alive := fun hf _ => h.alive hf rfl }
      intro t ht
      simp only [load, grow_pending, List.mem_append] at ht
      rcases ht with ht | ht
      · exact (h.tasks t (List.mem_cons_of_mem _ ht)).mono id id rfl id
      · have hstats : t = .stats := by
          split at ht
          · cases ht
          · simpa using ht
        subst hstats
        trivial
  | webSocketOpen hf hj =>
      exact h.frame_start ⟨rfl, rfl, rfl, rfl, rfl, rfl, rfl, rfl⟩ (fun _ _ => rfl) (by simp)
        (grow_pending ..) hj
  | localBegun | remoteOfferSet =>
      -- the chain goes on with the flag it ran under
      exact h.frame_start ⟨rfl, rfl, rfl, rfl, rfl, rfl, rfl, rfl⟩ (fun _ _ => rfl) (by simp)
        (grow_pending ..) ⟨Nat.le_refl _, fun _ => h.connection⟩
  | offerStarted hp | remoteBegun hp =>
      -- a chain begins, with the flag of the connection a pumping controller has
      exact h.frame_start ⟨rfl, rfl, rfl, rfl, rfl, rfl, rfl, rfl⟩ (fun _ _ => rfl) (by simp)
        (grow_pending ..) ⟨Nat.le_refl _, fun _ => h.pumping hp⟩
  | already hf =>
      refine h.frame ⟨rfl, rfl, rfl, rfl, rfl, rfl, rfl, rfl⟩ ?_ (by simp) (fun t ht => Or.inl ht)
      intro hf'
      rw [hf] at hf'; cases hf'
  | _ =>
      -- the other moves keep these fields, and what they start needs no more than they have
      refine h.frame ⟨rfl, rfl, rfl, rfl, rfl, rfl, rfl, rfl⟩
        (fun _ hr => by first | rfl | exact hr) (by simp) ?_
      intro t ht
      simp only [load, grow_pending, establishedNow_pending, List.mem_append, List.mem_cons,
        List.not_mem_nil, or_false] at ht ⊢
      grind [Sound]

theorem base_enter {p : Phase} {w w' : World} {l : Label} (h : Base .idle w) (he : Enter w l p w') :
    Base p w' := by
  cases he with
  | post hi =>
      refine h.frame ⟨rfl, rfl, rfl, rfl, rfl, rfl, rfl, rfl⟩ (fun _ _ => rfl) (by simp) ?_
      exact fun t ht => Or.inl ((load_post hi).mem_iff.mp ht)
  | @event t hr =>
      refine h.frame ⟨rfl, rfl, rfl, rfl, rfl, rfl, rfl, rfl⟩ (fun _ _ => rfl) (by simp) ?_
      intro t' ht
      refine (load_event ht).imp id ?_
      rintro rfl
      cases t' with
      | safe flag task =>
          cases task with
          | remoteFrame =>
              -- an attached sink posts behind the live flag
              simp only [canRaise, Bool.and_eq_true, beq_iff_eq] at hr
              exact ⟨Nat.le_of_eq hr.2, fun _ => h.sink hr.1.1⟩
          | _ => cases hr
      | registerComplete => cases hr
      | sendComplete kind => cases hr
      | _ => trivial
  | run hq =>
      refine h.frame ⟨rfl, rfl, rfl, rfl, rfl, rfl, rfl, rfl⟩ (fun _ _ => rfl) (by simp) ?_
      intro t ht
      rw [load_run hq] at ht
      exact Or.inl ht
  | destroy hq hf =>
      refine base_closed h hf rfl rfl rfl ?_
      intro t ht
      simpa [load, World.pending] using ht

theorem base_visited {p : Phase} {w : World} (h : Visited env p w) : Base p w :=
  h.invariant (I := Base) base_init (fun _ _ _ _ _ hb he => base_enter hb he)
    (fun _ _ _ _ _ hb hm => base_move hb hm)

end ApprtcCli.Proof
