import ApprtcCli.Proof.Gathering

/-!
# Nothing is sent before the registration

The controller sends descriptions, candidates and a bye, and checks before none of them
that it is registered. It need not: the first description is handed to WebRTC by the
pump, which only a registered controller has, and until then WebRTC has nothing to
report. So there is no description to send, no candidate, and no call whose time is up.
-/

namespace ApprtcCli.Proof

open Lib Call PhaseMachine

variable {env : Env}

/-- The tasks there can be only once a description was handed to WebRTC. -/
def isLate (t : Task) : Bool := t.isNegotiationStep || observes t || isCandidate t

/-- What is true only of a controller that was registered. -/
structure Readied (p : Phase) (w : World) : Prop where
  tasks : ∀ t ∈ load p w, isLate t = true → w.ctl.negotiationReady = true
  described : ∀ a ∈ w.trace, a.isDescription = true → w.ctl.negotiationReady = true
  sent : ∀ a ∈ w.trace, isSend a = true → w.ctl.negotiationReady = true
  established : w.ctl.callEstablished = true → w.ctl.negotiationReady = true
  ending : ∀ status, p = .finishing .localDurationReached status → w.ctl.negotiationReady = true

theorem Readied.of_ready {p : Phase} {w : World} (h : w.ctl.negotiationReady = true) :
    Readied p w :=
  ⟨fun _ _ _ => h, fun _ _ _ => h, fun _ _ _ => h, fun _ => h, fun _ _ => h⟩

/-- Neither hands a description to WebRTC nor sends. -/
def noTalk (a : Action) : Bool := !a.isDescription && !isSend a

theorem routine_noTalk : Routine noTalk :=
  ⟨fun _ => rfl, rfl, fun _ => rfl, rfl, fun _ => rfl⟩

/-- A move that talks to nobody, with nothing late about it. -/
theorem Readied.quiet {p p' : Phase} {w w' : World} {started : List Task} {actions : List Action}
    (h : Readied p w) (hr : w'.ctl.negotiationReady = w.ctl.negotiationReady)
    (he : w'.ctl.callEstablished = w.ctl.callEstablished)
    (hload : load p' w' = w.pending ++ started) (htrace : w'.trace = w.trace ++ actions)
    (hs : started.all (fun t => !isLate t) = true) (ha : actions.all noTalk = true)
    (hp : ∀ status, p' = .finishing .localDurationReached status →
      w.ctl.negotiationReady = true) : Readied p' w' := by
  have htalk : ∀ a ∈ w'.trace, a.isDescription = true ∨ isSend a = true → a ∈ w.trace := by
    intro a hmem htold
    rw [htrace] at hmem
    rcases List.mem_append.mp hmem with hmem | hmem
    · exact hmem
    · have hno := List.all_eq_true.mp ha a hmem
      simp only [noTalk, Bool.and_eq_true, Bool.not_eq_true'] at hno
      rcases htold with htold | htold
      · rw [hno.1] at htold
        cases htold
      · rw [hno.2] at htold
        cases htold
  refine ⟨?_, ?_, ?_, ?_, ?_⟩
  · intro t ht hlate
    rw [hr]
    exact h.tasks t (load_started hload hs t ht hlate) hlate
  · intro a hmem hd
    rw [hr]
    exact h.described a (htalk a hmem (Or.inl hd)) hd
  · intro a hmem hsend
    rw [hr]
    exact h.sent a (htalk a hmem (Or.inr hsend)) hsend
  · rw [he, hr]
    exact h.established
  · rw [hr]
    exact hp

/-- The same, where nothing is started either. -/
theorem Readied.still {p p' : Phase} {w w' : World} {actions : List Action} (h : Readied p w)
    (hr : w'.ctl.negotiationReady = w.ctl.negotiationReady)
    (he : w'.ctl.callEstablished = w.ctl.callEstablished) (hload : load p' w' = w.pending)
    (htrace : w'.trace = w.trace ++ actions) (ha : actions.all noTalk = true)
    (hp : ∀ status, p' = .finishing .localDurationReached status →
      w.ctl.negotiationReady = true) : Readied p' w' :=
  h.quiet hr he (hload.trans (List.append_nil _).symm) htrace rfl ha hp

theorem readied_init : Readied .idle initial where
  tasks t ht hlate := by
    rcases load_initial ht with rfl | rfl <;> cases hlate
  described a ha hd := by
    cases List.mem_singleton.mp (show a ∈ [Action.state .joiningRoom] from ha)
    cases hd
  sent a ha hsend := by
    cases List.mem_singleton.mp (show a ∈ [Action.state .joiningRoom] from ha)
    cases hsend
  established h := by cases h
  ending status h := by cases h

/-- A late task runs in a registered controller. -/
theorem Readied.late {t : Task} {r : Reply} {w : World} (h : Readied (.run t r) w)
    (ht : isLate t = true) : w.ctl.negotiationReady = true :=
  h.tasks t (List.mem_cons_self ..) ht

/-- **Kept by every move.** -/
theorem readied_move {p p' : Phase} {w w' : World} (h : Readied p w)
    (hm : Move env p w p' w') : Readied p' w' := by
  cases hm with
  | registered => exact .of_ready rfl
  -- these run late, or pump
  | descriptionSent | descriptionUnsent | localBegun | localSet | remoteOfferSet
  | remoteAnswerSet | candidateSent => exact .of_ready (h.late rfl)
  | observed ht | established ht =>
      exact .of_ready (h.late (by simp [isLate, ht]))
  | @chainFailed _ task =>
      refine .of_ready (h.late ?_)
      cases task <;> rfl
  | flushFailed ht =>
      refine .of_ready (h.late ?_)
      cases ht <;> rfl
  | offerStarted hp | candidateBuffered hp | candidatePassed hp | candidateFailed hp
  | byePopped hp | unknownPopped hp | remoteBegun hp | remoteUnparsed hp | drained hp =>
      exact .of_ready hp.ready
  -- only the time of an established call runs out
  | durationTimer hlive =>
      simp only [callDurationLive, Bool.not_eq_true', Bool.or_eq_false_iff] at hlive
      exact .of_ready (h.established (by simpa using hlive.2))
  | byeStarted => exact .of_ready (h.ending _ rfl)
  -- and the rest talks to nobody
  | ignore | stopped | already =>
      exact h.still rfl rfl rfl (List.append_nil _).symm rfl (by simp)
  | fail _ hr =>
      refine h.still rfl rfl rfl (List.append_nil _).symm rfl ?_
      intro status hp
      cases hp
      rcases hr with hr | hr <;> cases hr
  | setUpFailed hr =>
      refine h.still rfl rfl rfl (List.append_nil _).symm rfl ?_
      intro status hp
      cases hp
      rcases hr with hr | hr <;> cases hr
  | startupTimer | accepted | joined | factoryCreated | connectionCreated | setUpDeref
  | videoSourceCreated =>
      exact h.quiet rfl rfl (grow_pending ..) rfl rfl rfl (by simp)
  | stats hs =>
      refine h.quiet rfl rfl (grow_pending ..) rfl rfl ?_ (by simp)
      rcases hs with rfl | ⟨_, rfl⟩ <;> rfl
  | webSocketOpen =>
      exact h.quiet rfl rfl (grow_pending ..) rfl rfl routine_noTalk.states (by simp)
  | setUpDone =>
      refine h.still rfl rfl (by simp [load, World.pending]) rfl ?_ (by simp)
      rw [List.all_cons, routine_noTalk.states]
      rfl
  | byeSent =>
      refine h.still rfl rfl (completed_pending ..) rfl ?_ (by simp)
      rw [List.all_cons, routine_noTalk.closing]
      rfl
  | ended =>
      exact h.still rfl rfl (ended_pending ..) (ended_trace ..) (routine_noTalk.ended rfl rfl)
        (by simp)

/-- **A step begins with nothing late**, where WebRTC speaks only of a described connection. -/
theorem readied_enter {p : Phase} {w w' : World} {l : Label} (h : Readied .idle w)
    (he : Enter w l p w') (hspeaks : webrtcSpeaks w l = true) : Readied p w' := by
  cases he with
  | post hi =>
      refine ⟨fun t ht hlate => ?_, h.described, h.sent, h.established, by simp⟩
      exact h.tasks t ((load_post hi).mem_iff.mp ht) hlate
  | @event t hr =>
      refine ⟨fun x hx hlate => ?_, h.described, h.sent, h.established, by simp⟩
      rcases load_event hx with hx | rfl
      · exact h.tasks x hx hlate
      · cases x with
        | signaling event => cases hlate
        | _ =>
            obtain ⟨a, ha, hd⟩ := List.any_eq_true.mp hspeaks
            exact h.described a ha hd
  | run hq =>
      refine ⟨fun t ht hlate => ?_, h.described, h.sent, h.established, by simp⟩
      rw [load_run hq] at ht
      exact h.tasks t ht hlate
  | destroy =>
      exact h.still rfl rfl (by simp [load, World.pending]) rfl routine_noTalk.close (by simp)

theorem readied_visited {p : Phase} {w : World}
    (h : ((machine env).restrict webrtcSpeaks).Visited p w) : Readied p w := by
  refine h.invariant (I := Readied) readied_init ?_ fun _ _ _ _ _ hi hm => readied_move hi hm
  intro w l p w' _ hi ⟨he, hspeaks⟩
  exact readied_enter hi he hspeaks

/-- **A message is sent by a controller that was registered.** -/
theorem ready_of_sent {w : World} (h : Reachable (restrict (step env) webrtcSpeaks) initial w)
    {kind : SendKind} {route : Route} {payload : Text}
    (hmem : .send kind route payload ∈ w.trace) : w.ctl.negotiationReady = true := by
  have hv : ((machine env).restrict webrtcSpeaks).Visited .idle w :=
    Reachable.visited_restrict (fun _ _ _ hv hs => step_cuts (base_visited hv) hs) h
  exact (readied_visited hv).sent _ hmem rfl

end ApprtcCli.Proof
