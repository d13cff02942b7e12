import ApprtcCli.Proof.Ending

/-!
# Success is earned

What a call exits with is a matter of how it ends. That it ends with success says more: by
then the connection was up, and media of the other side had come over it. The controller
knows of either from one place only, the task that told it, and no other task of a run
touches what it remembers of them.
-/

namespace ApprtcCli.Proof

open Lib Call PhaseMachine

variable {env : Env}

/-! ## Who tells the controller -/

/-- What the controller knows of the connection is the same. -/
structure SameSight (w w' : World) : Prop where
  connected : w'.ctl.peerConnected = w.ctl.peerConnected
  seen : w'.ctl.remoteMediaSeen = w.ctl.remoteMediaSeen
  established : w'.ctl.callEstablished = w.ctl.callEstablished

def isObserving : Phase → Bool
  | .run t _ => observes t
  | _ => false

theorem sight_move {p p' : Phase} {w w' : World} (hm : Move env p w p' w')
    (hp : isObserving p = false) : SameSight w w' ∧ isObserving p' = false := by
  cases hm with
  | observed ht => exact Bool.noConfusion (hp.symm.trans ht)
  | established ht => exact Bool.noConfusion (hp.symm.trans ht)
  | _ => exact ⟨⟨rfl, rfl, rfl⟩, rfl⟩

/-- Only a report of WebRTC changes it. -/
theorem sight_moves {p p' : Phase} {w w' : World} (hm : Moves env p w p' w')
    (hp : isObserving p = false) : SameSight w w' := by
  refine (hm.invariant (I := fun q v => SameSight w v ∧ isObserving q = false) ?_
    ⟨⟨rfl, rfl, rfl⟩, hp⟩).1
  intro q v q' v' hbefore hm
  obtain ⟨hsame, hq⟩ := hbefore
  obtain ⟨hnext, hq'⟩ := sight_move hm hq
  exact ⟨⟨hnext.connected.trans hsame.connected, hnext.seen.trans hsame.seen,
    hnext.established.trans hsame.established⟩, hq'⟩

/-- What a task may tell the controller, and what it may conclude from that. -/
structure Informs (t : Task) (w w' : World) : Prop where
  connected : w'.ctl.peerConnected ≠ w.ctl.peerConnected →
    ∃ state, t = .connectionChange state ∧ w'.ctl.peerConnected = (state == .connected)
  seen : w'.ctl.remoteMediaSeen ≠ w.ctl.remoteMediaSeen →
    t = .safe w.peer.safety .remoteFrame ∧ w'.ctl.remoteMediaSeen = true
  established : w'.ctl.callEstablished ≠ w.ctl.callEstablished →
    w'.ctl.callEstablished = true ∧ w'.ctl.peerConnected = true ∧ w'.ctl.remoteMediaSeen = true

theorem SameSight.informs {t : Task} {w w' : World} (h : SameSight w w') : Informs t w w' where
  connected hc := absurd h.connected hc
  seen hs := absurd h.seen hs
  established he := absurd h.established he

theorem Informs.then_same {t : Task} {w w₁ w' : World} (h : Informs t w w₁) (h' : SameSight w₁ w') :
    Informs t w w' := by
  refine ⟨?_, ?_, ?_⟩
  · rw [h'.connected]
    exact h.connected
  · rw [h'.seen]
    exact h.seen
  · rw [h'.connected, h'.seen, h'.established]
    exact h.established

/-- `MaybeMarkCallEstablished` draws the conclusion. -/
theorem mark_informs (w : World) :
    (maybeMarkCallEstablished w).ctl.peerConnected = w.ctl.peerConnected
      ∧ (maybeMarkCallEstablished w).ctl.remoteMediaSeen = w.ctl.remoteMediaSeen
      ∧ ((maybeMarkCallEstablished w).ctl.callEstablished ≠ w.ctl.callEstablished →
        (maybeMarkCallEstablished w).ctl.callEstablished = true
          ∧ w.ctl.peerConnected = true ∧ w.ctl.remoteMediaSeen = true) := by
  by_cases hmark : w.ctl.callEstablished = false ∧ w.ctl.peerConnected = true
      ∧ w.ctl.remoteMediaSeen = true
  · obtain ⟨-, hconnected, hseen⟩ := hmark
    rcases maybeMarkCallEstablished_cases w with heq | ⟨-, heq⟩ <;> rw [heq]
    · exact ⟨rfl, rfl, fun he => absurd rfl he⟩
    · exact ⟨rfl, rfl, fun _ => ⟨rfl, hconnected, hseen⟩⟩
  · have hstill : maybeMarkCallEstablished w = w := by
      refine if_pos ?_
      cases hc : w.ctl.callEstablished <;> cases hp : w.ctl.peerConnected <;>
        cases hs : w.ctl.remoteMediaSeen <;> simp_all
    rw [hstill]
    exact ⟨rfl, rfl, fun he => absurd rfl he⟩

theorem peerConnectionChanged_informs {state : PeerConnectionState} (w : World) :
    Informs (.connectionChange state) w (onPeerConnectionChanged (state == .connected) w) := by
  unfold onPeerConnectionChanged
  split
  · exact SameSight.informs ⟨rfl, rfl, rfl⟩
  · obtain ⟨hconnected, hseen, hestablished⟩ :=
      mark_informs { w with ctl.peerConnected := state == .connected }
    refine ⟨fun _ => ⟨state, rfl, hconnected⟩, fun hs => absurd hseen hs, fun he => ?_⟩
    rw [hconnected, hseen]
    exact hestablished he

theorem remoteMediaSeen_informs {t : Task} (w : World)
    (ht : t = .safe w.peer.safety .remoteFrame) : Informs t w (onRemoteMediaSeen w) := by
  unfold onRemoteMediaSeen
  split
  · exact SameSight.informs ⟨rfl, rfl, rfl⟩
  · obtain ⟨hconnected, hseen, hestablished⟩ := mark_informs { w with ctl.remoteMediaSeen := true }
    refine ⟨fun hc => absurd hconnected hc, fun _ => ⟨ht, hseen⟩, fun he => ?_⟩
    rw [hconnected, hseen]
    exact hestablished he

theorem connectionError_same (e : Error) (w : World) :
    SameSight w (onPeerConnectionError (finish env) e w) := by
  unfold onPeerConnectionError
  split
  · exact ⟨rfl, rfl, rfl⟩
  · exact sight_moves (finish_moves ..) rfl

/-- `OnConnectionChange` passes on what is new, and ends the call where the connection failed. -/
theorem connectionChange_informs {state : PeerConnectionState} (w : World) :
    Informs (.connectionChange state) w
      (onConnectionChange onPeerConnectionChanged (onPeerConnectionError (finish env)) state
        w) := by
  have hpassed : Informs (.connectionChange state) w
      (if w.peer.connected ≠ (state == .connected) then
        onPeerConnectionChanged (state == .connected)
          { w with peer.connected := state == .connected }
      else w) := by
    split
    · have hinforms : Informs (.connectionChange state)
          { w with peer.connected := state == .connected } _ :=
        peerConnectionChanged_informs _
      exact ⟨hinforms.connected, hinforms.seen, hinforms.established⟩
    · exact SameSight.informs ⟨rfl, rfl, rfl⟩
  unfold onConnectionChange
  dsimp only
  split
  · exact hpassed.then_same (connectionError_same _ _)
  · exact hpassed

/-- **What a task tells the controller.** -/
theorem run_informs {w w' : World} {t : Task} {r : Reply} (hb : Base (.run t r) w)
    (hrun : runTask env w t r = some w') : Informs t w w' := by
  cases ht : observes t with
  | false => exact (sight_moves (task_moves hb hrun) ht).informs
  | true =>
      cases t with
      | connectionChange state =>
          cases r with
          | none =>
              injection hrun with hrun
              rw [← hrun]
              exact connectionChange_informs w
          | _ => cases hrun
      | track video =>
          cases r with
          | none =>
              injection hrun with hrun
              rw [← hrun]
              unfold onTrack
              split <;> exact SameSight.informs ⟨rfl, rfl, rfl⟩
          | _ => cases hrun
      | safe flag task =>
          have hlive : (if flag = w.peer.safety then runPeerTask env w task r else some w)
              = some w' := hrun
          split at hlive
          · rename_i hflag
            cases task with
            | remoteFrame =>
                cases r with
                | none =>
                    injection hlive with hlive
                    rw [← hlive]
                    unfold onRemoteFrame
                    split
                    · exact SameSight.informs ⟨rfl, rfl, rfl⟩
                    · have hinforms := remoteMediaSeen_informs
                        (t := .safe flag .remoteFrame) { w with peer.remoteMediaSeen := true }
                        (by rw [hflag])
                      exact ⟨hinforms.connected, hinforms.seen, hinforms.established⟩
                | _ => cases hlive
            | _ => cases ht
          · cases hlive
            exact SameSight.informs ⟨rfl, rfl, rfl⟩
      | _ => cases ht

/-! ## Runs -/

/-- The task that a step of a run has run. -/
def ranTask : World × Label → Option Task
  | (w, .run _) => w.queue.head?
  | _ => none

/-- What the controller learns in a step: what the task tells it that is run. -/
structure Learns (p : World × Label) (w' : World) : Prop where
  connected : w'.ctl.peerConnected ≠ p.1.ctl.peerConnected →
    ∃ state, ranTask p = some (.connectionChange state)
      ∧ w'.ctl.peerConnected = (state == .connected)
  seen : w'.ctl.remoteMediaSeen ≠ p.1.ctl.remoteMediaSeen →
    ranTask p = some (.safe p.1.peer.safety .remoteFrame) ∧ w'.ctl.remoteMediaSeen = true
  established : w'.ctl.callEstablished ≠ p.1.ctl.callEstablished →
    w'.ctl.callEstablished = true ∧ w'.ctl.peerConnected = true ∧ w'.ctl.remoteMediaSeen = true

theorem SameSight.learns {w w' : World} {l : Label} (h : SameSight w w') : Learns (w, l) w' where
  connected hc := absurd h.connected hc
  seen hs := absurd h.seen hs
  established he := absurd h.established he

/-- **Each step tells no more than the task it runs.** -/
theorem step_learns {w w' : World} {l : Label} (h : Reached env w)
    (hs : step env w l = some w') : Learns (w, l) w' := by
  have hbase := base_visited (reached_visited h)
  cases l with
  | post i =>
      obtain ⟨t, _, rfl⟩ := post_eq hbase hs
      exact SameSight.learns ⟨rfl, rfl, rfl⟩
  | event t =>
      obtain ⟨_, rfl⟩ := event_eq hbase hs
      exact SameSight.learns ⟨rfl, rfl, rfl⟩
  | destroy =>
      obtain ⟨_, rfl⟩ := destroy_eq hbase hs
      exact SameSight.learns ⟨rfl, rfl, rfl⟩
  | run r =>
      obtain ⟨t, rest, hq, hrun⟩ := run_eq hs
      have hinforms := run_informs (base_enter hbase (Enter.run (r := r) hq)) hrun
      have hran : ranTask (w, .run r) = some t := by rw [ranTask, hq]; rfl
      refine ⟨fun hc => ?_, fun hseen => ?_, hinforms.established⟩
      · obtain ⟨state, rfl, hstate⟩ := hinforms.connected hc
        exact ⟨state, hran, hstate⟩
      · obtain ⟨rfl, hset⟩ := hinforms.seen hseen
        exact ⟨hran, hset⟩

/-- What the controller remembers, it was told. -/
structure Remembers (tr : List (World × Label)) (w : World) : Prop where
  connected : w.ctl.peerConnected = true →
    ∃ p ∈ tr, ranTask p = some (.connectionChange .connected)
  seen : w.ctl.remoteMediaSeen = true →
    ∃ p ∈ tr, ranTask p = some (.safe p.1.peer.safety .remoteFrame)
  established : w.ctl.callEstablished = true →
    (∃ p ∈ tr, ranTask p = some (.connectionChange .connected))
      ∧ ∃ p ∈ tr, ranTask p = some (.safe p.1.peer.safety .remoteFrame)

theorem remembers_run {tr : List (World × Label)} {w : World}
    (h : Run (step env) initial tr w) : Remembers tr w := by
  induction h with
  | start => exact ⟨(fun h => by cases h), (fun h => by cases h), (fun h => by cases h)⟩
  | @next tr w w' l hr hs ih =>
      have hlater : ∀ {P : World × Label → Prop}, (∃ p ∈ tr, P p) → ∃ p ∈ tr ++ [(w, l)], P p :=
        fun ⟨p, hp, h⟩ => ⟨p, List.mem_append_left _ hp, h⟩
      have hlast : (w, l) ∈ tr ++ [(w, l)] := List.mem_append_right _ (List.mem_singleton_self _)
      have hlearns := step_learns hr.reachable hs
      have hconnected : w'.ctl.peerConnected = true →
          ∃ p ∈ tr ++ [(w, l)], ranTask p = some (.connectionChange .connected) := by
        intro hc
        by_cases hold : w'.ctl.peerConnected = w.ctl.peerConnected
        · exact hlater (ih.connected (hold ▸ hc))
        · obtain ⟨state, hran, hstate⟩ := hlearns.connected hold
          rw [hc] at hstate
          cases eq_of_beq hstate.symm
          exact ⟨_, hlast, hran⟩
      have hseen : w'.ctl.remoteMediaSeen = true →
          ∃ p ∈ tr ++ [(w, l)], ranTask p = some (.safe p.1.peer.safety .remoteFrame) := by
        intro hs
        by_cases hold : w'.ctl.remoteMediaSeen = w.ctl.remoteMediaSeen
        · exact hlater (ih.seen (hold ▸ hs))
        · exact ⟨_, hlast, (hlearns.seen hold).1⟩
      refine ⟨hconnected, hseen, fun he => ?_⟩
      by_cases hold : w'.ctl.callEstablished = w.ctl.callEstablished
      · have hbefore := ih.established (hold ▸ he)
        exact ⟨hlater hbefore.1, hlater hbefore.2⟩
      · obtain ⟨-, hc, hs⟩ := hlearns.established hold
        exact ⟨hconnected hc, hseen hs⟩

/-- A call that ends with success was established. -/
theorem established_of_success {w : World} (h : Reached env w)
    (hcode : w.ctl.exitCode = ExitCode.success.toInt) : w.ctl.callEstablished = true := by
  have hv := reached_visited h
  have hquit : w.quit = true := by
    refine (coded_visited hv).mpr fun heq => ?_
    rw [hcode] at heq
    exact absurd heq (by decide)
  obtain ⟨pre, reason, status, post, hd, hreason⟩ := exit_of_quit h hquit
  rw [hcode] at hreason
  have hsuccess := ExitCode.toInt_injective hreason
  rw [(deciding_visited hv).established, hd.established]
  cases hd.cause with
  | duration he | byeAfter _ he => exact List.mem_append_left _ he
  | error hkind => rcases hkind with rfl | rfl | rfl <;> cases hsuccess
  | _ => cases hsuccess

/--
**Success is earned**: a run that exits with success has established its call, and it has
run a task that told the controller of a connection, and a task that told it of a frame of
the other side over a connection that was not closed by then. No other step of a run
changes what the controller remembers of either, or of the call.
-/
theorem success_earned {tr : List (World × Label)} {w : World}
    (h : Run (step env) initial tr w) :
    (w.ctl.exitCode = ExitCode.success.toInt → w.ctl.callEstablished = true
      ∧ (∃ p ∈ tr, ranTask p = some (.connectionChange .connected))
      ∧ ∃ p ∈ tr, ranTask p = some (.safe p.1.peer.safety .remoteFrame))
    ∧ ∀ p ∈ tr, ∀ w', step env p.1 p.2 = some w' → Learns p w' := by
  constructor
  · intro hcode
    have hestablished := established_of_success h.reachable hcode
    exact ⟨hestablished, (remembers_run h).established hestablished⟩
  · intro p hp w' hs
    obtain ⟨_, hreach, -⟩ := h.passes hp
    exact step_learns hreach hs

/-- The call of `Proof/Outcome.lean` that ran its time. -/
theorem success_earned_overrun :
    ∃ tr w, Run (step (.smooth [])) initial tr w ∧ tr.map Prod.snd = overrunLabels
      ∧ w.ctl.exitCode = ExitCode.success.toInt
      ∧ (∃ p ∈ tr, ranTask p = some (.connectionChange .connected))
      ∧ ∃ p ∈ tr, ranTask p = some (.safe p.1.peer.safety .remoteFrame) := by
  obtain ⟨w, hw, hcode⟩ : ∃ w, exec (step (.smooth [])) initial overrunLabels = some w
      ∧ w.ctl.exitCode = ExitCode.success.toInt := ⟨_, rfl, rfl⟩
  obtain ⟨tr, hrun, hlabels⟩ := Run.start.exec hw
  rw [List.nil_append] at hrun
  exact ⟨tr, w, hrun, hlabels, hcode, ((success_earned hrun).1 hcode).2⟩

end ApprtcCli.Proof
