import ApprtcCli.Call.Client
import ApprtcCli.Proof.Effects

/-!
# The buffer of remote candidates

Until a remote description is applied the client keeps remote candidates in a
buffer; the flush then passes them on, one by one, and empties the buffer after
the last. It leaves at the first failure, and the buffer as it was.

So a flush that fails at its first candidate or not at all leaves exactly what was
not accepted, and any other flush leaves candidates that were (`LeavesRest`). Over a
run of the client this shows as a candidate applied twice; and since the description
counts as set even where the flush failed, a later candidate can be applied ahead of
one that still waits. `candidates_buffered` says which steps do this, and that no
others do.
-/

namespace ApprtcCli.Proof

open Lib Call

variable {env : Env}

/-! ## What is accepted -/

theorem acceptedIn_append (before l k : List Action) :
    acceptedIn env before (l ++ k)
      = acceptedIn env before l ++ acceptedIn env (before ++ l) k := by
  induction l generalizing before with
  | nil => simp [acceptedIn]
  | cons a l ih =>
      rw [List.cons_append, acceptedIn, ih, acceptedIn]
      simp

/-- Actions among which no candidate is passed accept none. -/
theorem acceptedIn_of_none (before : List Action) {l : List Action}
    (h : ∀ m, .addIceCandidate m ∉ l) : acceptedIn env before l = [] := by
  induction l generalizing before with
  | nil => rfl
  | cons a l ih =>
      rw [acceptedIn, ih (before ++ [a]) fun m hm => h m (List.mem_cons_of_mem _ hm)]
      cases a with
      | addIceCandidate m => exact absurd (List.mem_cons_self ..) (h m)
      | _ => rfl

theorem acceptedBetween_eq {w w' : World} {more : List Action} (h : w'.trace = w.trace ++ more) :
    acceptedBetween env w w' = acceptedIn env w.trace more := by
  rw [acceptedBetween, h, List.drop_left]

/-- What is accepted adds up along a history. -/
theorem acceptedBetween_trans {w₀ w w' : World} (h : w₀.trace <+: w.trace)
    (h' : w.trace <+: w'.trace) :
    acceptedBetween env w₀ w' = acceptedBetween env w₀ w ++ acceptedBetween env w w' := by
  obtain ⟨more, hw⟩ := h
  obtain ⟨more', hw'⟩ := h'
  rw [acceptedBetween_eq hw.symm, acceptedBetween_eq hw'.symm, ← hw, ← acceptedIn_append]
  exact acceptedBetween_eq (by rw [← hw', ← hw, List.append_assoc])

variable (env)

/-- Passed on now, this candidate would be accepted. -/
def wouldAccept (m : SignalingMessage) (w : World) : Bool :=
  match env.createIceCandidate m.sdpMid m.sdpMlineIndex m.candidate with
  | .error _ => false
  | .ok () => env.addIceCandidate (passed m w).trace m

/-- Passed on now in this order, these candidates would all be accepted. -/
def acceptsAll : List SignalingMessage → World → Bool
  | [], _ => true
  | m :: rest, w => wouldAccept env m w && acceptsAll rest (passed m w)

/-- The candidates that are accepted before the first that is not. -/
def acceptedFront : List SignalingMessage → World → List SignalingMessage
  | [], _ => []
  | m :: rest, w =>
      if wouldAccept env m w then m :: acceptedFront rest (passed m w) else []

variable {env}

theorem acceptedFront_isPrefix (env : Env) (ms : List SignalingMessage) (w : World) :
    acceptedFront env ms w <+: ms := by
  induction ms generalizing w with
  | nil => exact List.nil_prefix
  | cons m rest ih =>
      rw [acceptedFront]
      split
      · exact (List.prefix_cons_inj m).mpr (ih _)
      · exact List.nil_prefix

theorem acceptedFront_eq_iff {ms : List SignalingMessage} {w : World} :
    acceptedFront env ms w = ms ↔ acceptsAll env ms w = true := by
  induction ms generalizing w with
  | nil => simp [acceptedFront, acceptsAll]
  | cons m rest ih =>
      rw [acceptedFront, acceptsAll, Bool.and_eq_true, ← ih]
      split
      · rename_i h
        simp [h]
      · rename_i h
        simp [h]

/-- What passing candidates on comes to: the client is as it was, and these were accepted. -/
structure Passed (env : Env) (w : World) (accepted : List SignalingMessage) (w' : World) :
    Prop where
  peer : w'.peer = w.peer
  trace : ∃ more, w'.trace = w.trace ++ more ∧ acceptedIn env w.trace more = accepted

theorem passed_refused {m : SignalingMessage} {w : World} {accepted : List SignalingMessage}
    (h : (if env.addIceCandidate (passed m w).trace m then [m] else []) = accepted) :
    Passed env w accepted (passed m w) where
  peer := rfl
  trace := by
    refine ⟨[.deref .connection w.peer.connection, .addIceCandidate m], ?_, ?_⟩
    · simp [passed, World.act, World.deref, PeerConnectionClient.live]
    · rw [← h]
      simp [acceptedIn, acceptedAt, passed, World.act, World.deref, PeerConnectionClient.live]

/-- **What passing one candidate on comes to.** -/
theorem passCandidate_passed (env : Env) (failure : Text) (m : SignalingMessage) (w : World) :
    (wouldAccept env m w = true ∧ passCandidate env failure m w = (okStatus, passed m w)
      ∧ Passed env w [m] (passed m w))
    ∨ (wouldAccept env m w = false ∧ ∃ e w', passCandidate env failure m w = (.error e, w')
      ∧ Passed env w [] w') := by
  unfold passCandidate wouldAccept
  cases env.createIceCandidate m.sdpMid m.sdpMlineIndex m.candidate with
  | error description =>
      exact Or.inr ⟨rfl, _, w, rfl, rfl, [], (List.append_nil _).symm, rfl⟩
  | ok =>
      dsimp only
      cases ha : env.addIceCandidate (passed m w).trace m with
      | true => exact Or.inl ⟨rfl, if_pos ha, passed_refused (by rw [ha]; rfl)⟩
      | false =>
          have hno : env.addIceCandidate ((w.deref .connection).act (.addIceCandidate m)).trace m
              ≠ true := by
            rw [show ((w.deref .connection).act (.addIceCandidate m)) = passed m w from rfl, ha]
            exact Bool.noConfusion
          exact Or.inr ⟨rfl, _, passed m w, if_neg hno, passed_refused (by rw [ha]; rfl)⟩

theorem Passed.trans {w w₁ w' : World} {accepted accepted' : List SignalingMessage}
    (h : Passed env w accepted w₁) (h' : Passed env w₁ accepted' w') :
    Passed env w (accepted ++ accepted') w' := by
  obtain ⟨more, hw₁, hacc⟩ := h.trace
  obtain ⟨more', hw', hacc'⟩ := h'.trace
  refine ⟨h'.peer.trans h.peer, more ++ more', ?_, ?_⟩
  · rw [hw', hw₁, List.append_assoc]
  · rw [acceptedIn_append, hacc, ← hw₁, hacc']

/-! ## The flush -/

/-- The loop of the flush goes down the buffer as far as candidates are accepted. -/
theorem flushCandidates_passed (env : Env) (ms : List SignalingMessage) (w : World) :
    ∃ r w', flushCandidates env ms w = (r, w') ∧ Passed env w (acceptedFront env ms w) w'
      ∧ (r = okStatus ↔ acceptsAll env ms w = true) := by
  induction ms generalizing w with
  | nil => exact ⟨okStatus, w, rfl, ⟨rfl, [], (List.append_nil _).symm, rfl⟩, by simp [acceptsAll]⟩
  | cons m rest ih =>
      rw [flushCandidates, acceptedFront, acceptsAll]
      rcases passCandidate_passed env "AddIceCandidate failed while flushing" m w with
        ⟨ha, hp, hpassed⟩ | ⟨ha, e, w', hp, hpassed⟩
      · obtain ⟨r, w', hf, hrest, hr⟩ := ih (passed m w)
        refine ⟨r, w', by rw [hp]; exact hf, ?_, by rw [hr, ha, Bool.true_and]⟩
        rw [if_pos ha]
        exact hpassed.trans hrest
      · refine ⟨.error e, w', by rw [hp], ?_, ?_⟩
        · rw [if_neg (by rw [ha]; exact Bool.noConfusion)]
          exact hpassed
        · rw [ha, Bool.false_and]
          exact ⟨fun h => (by cases h), fun h => (by cases h)⟩

/-- What a flush leaves in the buffer. -/
def leftInBuffer (env : Env) (w : World) : List SignalingMessage :=
  if acceptsAll env w.peer.pendingRemoteCandidates w then [] else w.peer.pendingRemoteCandidates

/-- **What a flush comes to.** -/
theorem flush_passed (env : Env) (w : World) :
    ∃ r w', flushPendingRemoteCandidates env w = (r, w')
      ∧ w'.peer.pendingRemoteCandidates = leftInBuffer env w
      ∧ ∃ more, w'.trace = w.trace ++ more
        ∧ acceptedIn env w.trace more = acceptedFront env w.peer.pendingRemoteCandidates w := by
  obtain ⟨r, w', hf, hpassed, hr⟩ :=
    flushCandidates_passed env w.peer.pendingRemoteCandidates w
  unfold flushPendingRemoteCandidates leftInBuffer
  by_cases hempty : w.peer.pendingRemoteCandidates = []
  · rw [hempty]
    exact ⟨okStatus, w, rfl, hempty, [], (List.append_nil _).symm, rfl⟩
  · rw [if_neg (by simpa using hempty), hf]
    cases r with
    | error e =>
        have hno : ¬ acceptsAll env w.peer.pendingRemoteCandidates w = true := by
          rw [← hr]
          exact fun h => by cases h
        rw [if_neg hno]
        exact ⟨.error e, w', rfl, by rw [hpassed.peer], hpassed.trace⟩
    | ok =>
        rw [if_pos (hr.mp rfl)]
        exact ⟨okStatus, _, rfl, rfl, hpassed.trace⟩

/-- After a flush the buffer holds exactly the candidates that were not accepted. -/
def LeavesRest (env : Env) (w : World) : Prop :=
  w.peer.pendingRemoteCandidates
    = acceptedBetween env w (flushPendingRemoteCandidates env w).2
      ++ (flushPendingRemoteCandidates env w).2.peer.pendingRemoteCandidates

/-- The first candidate of the buffer is refused, or all of them are accepted. -/
def AllOrNone (env : Env) (w : World) : Prop :=
  ∀ m rest, w.peer.pendingRemoteCandidates = m :: rest → wouldAccept env m w = true →
    acceptsAll env rest (passed m w) = true

theorem allOrNone_iff {w : World} :
    AllOrNone env w ↔ acceptedFront env w.peer.pendingRemoteCandidates w = []
      ∨ acceptsAll env w.peer.pendingRemoteCandidates w = true := by
  unfold AllOrNone
  cases w.peer.pendingRemoteCandidates with
  | nil => exact ⟨fun _ => Or.inr rfl, fun _ m rest h => by cases h⟩
  | cons m rest =>
      constructor
      · intro h
        cases ha : wouldAccept env m w with
        | false => exact Or.inl (if_neg (by rw [ha]; exact Bool.noConfusion))
        | true => exact Or.inr (by rw [acceptsAll, ha, h m rest rfl ha]; rfl)
      · rintro h m' rest' heq ha
        injection heq with h1 h2
        subst h1; subst h2
        rcases h with h | h
        · rw [acceptedFront, if_pos ha] at h
          cases h
        · rw [acceptsAll, Bool.and_eq_true] at h
          exact h.2

/-- **When a flush leaves the rest**: unless it stops after it has begun. -/
theorem leavesRest_iff (w : World) : LeavesRest env w ↔ AllOrNone env w := by
  obtain ⟨r, w', hf, hleft, more, htrace, hacc⟩ := flush_passed env w
  rw [LeavesRest, hf, allOrNone_iff]
  dsimp only
  rw [hleft, acceptedBetween_eq htrace, hacc, leftInBuffer]
  by_cases hall : acceptsAll env w.peer.pendingRemoteCandidates w = true
  · rw [if_pos hall, List.append_nil, acceptedFront_eq_iff.mpr hall]
    exact ⟨fun _ => Or.inr hall, fun _ => rfl⟩
  · rw [if_neg hall]
    constructor
    · intro h
      exact Or.inl (by simpa using h)
    · rintro (h | h)
      · rw [h, List.nil_append]
      · exact absurd h hall

/-! ## What one step of a run does -/

/-- Where `ApplyRemoteDescription` flushes: the description counts as set. -/
def descriptionSet (type : SdpType) (w : World) : World :=
  { w with peer.remoteDescriptionSet := true }.act (.remoteApplied type)

/-- The world in which a step flushes the buffer, if it does. -/
def flushing (w : World) : ClientLabel → Option World
  | .complete i (.status (.ok ())) =>
      match w.ops[i]? with
      | some (.safe flag .setRemoteOffer) =>
          if flag = w.peer.safety then
            some (descriptionSet .offer { w with ops := w.ops.eraseIdx i })
          else none
      | some (.safe flag .setRemoteAnswer) =>
          if flag = w.peer.safety then
            some (descriptionSet .answer { w with ops := w.ops.eraseIdx i })
          else none
      | _ => none
  | _ => none

/--
A step that flushes all or nothing, and adds no candidate directly that is accepted
while others wait.
-/
structure KeepsOrder (env : Env) (w : World) (l : ClientLabel) : Prop where
  flush : ∀ w', flushing w l = some w' → AllOrNone env w'
  direct : ∀ m, l = .addRemoteCandidate m → w.peer.remoteDescriptionSet = true →
    wouldAccept env m w = true → w.peer.pendingRemoteCandidates = []

/-- Applied candidates come in the order they were given, each once, and before those that wait. -/
def InOrder (r : ClientRun) : Prop := (r.applied ++ r.waiting).Pairwise (· < ·)

/-- The numbers are those of the candidates in the buffer and in the history since the start. -/
structure Numbered (env : Env) (w₀ : World) (r : ClientRun) : Prop where
  waiting : r.waiting.map (r.given[·]?) = r.world.peer.pendingRemoteCandidates.map some
  applied : r.applied.map (r.given[·]?) = (acceptedBetween env w₀ r.world).map some
  grown : w₀.trace <+: r.world.trace

/-- **What one step does** to the numbers, and what that says about the order. -/
inductive Advance (env : Env) (r r' : ClientRun) (keeps : Prop) : Prop where
  | nothing : r'.given = r.given → r'.waiting = r.waiting → r'.applied = r.applied →
      r'.world.peer.pendingRemoteCandidates = r.world.peer.pendingRemoteCandidates →
      acceptedBetween env r.world r'.world = [] → keeps → Advance env r r' keeps
  /-- A candidate is put into the buffer. -/
  | buffered (m : SignalingMessage) : r'.given = r.given ++ [m] →
      r'.waiting = r.waiting ++ [r.given.length] → r'.applied = r.applied →
      r'.world.peer.pendingRemoteCandidates = r.world.peer.pendingRemoteCandidates ++ [m] →
      acceptedBetween env r.world r'.world = [] → keeps → Advance env r r' keeps
  /-- A candidate is passed on at once, and refused. -/
  | refused (m : SignalingMessage) : r'.given = r.given ++ [m] →
      r'.waiting = r.waiting → r'.applied = r.applied →
      r'.world.peer.pendingRemoteCandidates = r.world.peer.pendingRemoteCandidates →
      acceptedBetween env r.world r'.world = [] → keeps → Advance env r r' keeps
  /-- A candidate is passed on at once, and accepted. -/
  | direct (m : SignalingMessage) : r'.given = r.given ++ [m] →
      r'.waiting = r.waiting → r'.applied = r.applied ++ [r.given.length] →
      r'.world.peer.pendingRemoteCandidates = r.world.peer.pendingRemoteCandidates →
      acceptedBetween env r.world r'.world = [m] →
      (keeps ↔ r.world.peer.pendingRemoteCandidates = []) → Advance env r r' keeps
  /-- The buffer is flushed to its end. -/
  | flushed : r'.given = r.given → r'.waiting = [] → r'.applied = r.applied ++ r.waiting →
      r'.world.peer.pendingRemoteCandidates = [] →
      acceptedBetween env r.world r'.world = r.world.peer.pendingRemoteCandidates →
      keeps → Advance env r r' keeps
  /-- The flush is cut short after so many candidates. -/
  | cut (n : Nat) : n < r.waiting.length → r'.given = r.given → r'.waiting = r.waiting →
      r'.applied = r.applied ++ r.waiting.take n →
      r'.world.peer.pendingRemoteCandidates = r.world.peer.pendingRemoteCandidates →
      acceptedBetween env r.world r'.world = r.world.peer.pendingRemoteCandidates.take n →
      (keeps ↔ n = 0) → Advance env r r' keeps

/-- Code that passes no candidate on and leaves the buffer alone. -/
structure Quiet (env : Env) (w w' : World) : Prop where
  buffer : w'.peer.pendingRemoteCandidates = w.peer.pendingRemoteCandidates
  grown : w.trace <+: w'.trace
  accepted : acceptedBetween env w w' = []

theorem quiet_of_trace {w w' : World} (more : List Action)
    (hb : w'.peer.pendingRemoteCandidates = w.peer.pendingRemoteCandidates)
    (h : w'.trace = w.trace ++ more) (hmore : ∀ m, .addIceCandidate m ∉ more) :
    Quiet env w w' :=
  ⟨hb, ⟨more, h.symm⟩, by rw [acceptedBetween_eq h, acceptedIn_of_none _ hmore]⟩

theorem quiet_refl {w w' : World} (hb : w'.peer = w.peer) (h : w'.trace = w.trace) :
    Quiet env w w' :=
  quiet_of_trace [] (by rw [hb]) (by rw [h, List.append_nil]) (by simp)

theorem Quiet.trans {w w₁ w' : World} (h : Quiet env w w₁) (h' : Quiet env w₁ w') :
    Quiet env w w' where
  buffer := h'.buffer.trans h.buffer
  grown := h.grown.trans h'.grown
  accepted := by rw [acceptedBetween_trans h.grown h'.grown, h.accepted, h'.accepted]; rfl

theorem quiet_applyRemoteDescription (type : SdpType) (sdp : Text) (observer : PeerTask)
    (w : World) : Quiet env w (applyRemoteDescription type sdp observer w) :=
  quiet_of_trace [.deref .connection w.peer.connection, .setRemoteDescription type sdp] rfl
    (by simp [applyRemoteDescription, World.startSafe, World.start, World.act, World.deref,
      PeerConnectionClient.live]) (by simp)

theorem quiet_createDescription (type : SdpType) (w : World) :
    Quiet env w (createDescription type w) :=
  quiet_of_trace [.deref .connection w.peer.connection, .createDescription type] rfl
    (by simp [createDescription, World.startSafe, World.start, World.act, World.deref,
      PeerConnectionClient.live]) (by simp)

theorem quiet_onDescriptionCreated (type : SdpType) (text : StatusOr (Option Text)) (w : World) :
    Quiet env w (onDescriptionCreated env leave type text w) := by
  unfold onDescriptionCreated
  cases text with
  | error e => exact quiet_refl rfl rfl
  | ok text =>
      dsimp only
      split
      · exact quiet_refl rfl rfl
      · rename_i json _
        exact quiet_of_trace
          [.deref .connection w.peer.connection, .setLocalDescription ⟨type, text⟩] rfl
          (by simp [applyLocalDescription, World.startSafe, World.start, World.act, World.deref,
            PeerConnectionClient.live]) (by simp)

theorem quiet_onLocalDescriptionSet (description : SessionDescription) (json : Text)
    (status : Status) (w : World) :
    Quiet env w (onLocalDescriptionSet leave description json status w) := by
  unfold onLocalDescriptionSet
  cases status with
  | error e => exact quiet_refl rfl rfl
  | ok => exact quiet_of_trace [.localApplied description.type] rfl rfl (by simp)

/-- The observer of a remote description, of this type. -/
def observerOf : SdpType → Option PeerTask
  | .offer => some .setRemoteOffer
  | .answer => some .setRemoteAnswer
  | _ => none

/-- An observer that does not flush was told of an error. -/
theorem unflushed {w : World} {i : Nat} (type : SdpType) {task : PeerTask} {status : Status}
    (htask : observerOf type = some task) (hop : w.ops[i]? = some (.safe w.peer.safety task))
    (h : flushing w (.complete i (.status status)) = none) : ∃ e, status = .error e := by
  cases status with
  | error e => exact ⟨e, rfl⟩
  | ok u => cases type <;> cases htask <;> simp [flushing, hop] at h

/-- A step that neither adds a candidate nor flushes is quiet. -/
theorem quiet_step {w w' : World} {l : ClientLabel} (hadd : ∀ m, l ≠ .addRemoteCandidate m)
    (hflush : flushing w l = none) (h : clientStep env w l = some w') : Quiet env w w' := by
  cases l with
  | setRemoteOfferAndCreateAnswer m =>
      injection h with h
      subst h
      unfold setRemoteOfferAndCreateAnswer
      split
      · exact quiet_refl rfl rfl
      · exact quiet_applyRemoteDescription ..
  | setRemoteAnswer m =>
      injection h with h
      subst h
      unfold setRemoteAnswer
      split
      · exact quiet_refl rfl rfl
      · exact quiet_applyRemoteDescription ..
  | addRemoteCandidate m => exact absurd rfl (hadd m)
  | complete i reply =>
      unfold clientStep at h
      dsimp only at h
      split at h
      · rename_i flag task hop
        have herase : Quiet env w { w with ops := w.ops.eraseIdx i } := quiet_refl rfl rfl
        split at h
        · rename_i hflag
          have hflag : flag = w.peer.safety := hflag
          subst hflag
          refine herase.trans ?_
          unfold runClientTask at h
          split at h
          · injection h with h
            exact h ▸ quiet_onDescriptionCreated ..
          · injection h with h
            exact h ▸ quiet_onLocalDescriptionSet ..
          · obtain ⟨e, rfl⟩ := unflushed .offer rfl hop hflush
            injection h with h
            exact h ▸ quiet_refl rfl rfl
          · obtain ⟨e, rfl⟩ := unflushed .answer rfl hop hflush
            injection h with h
            exact h ▸ quiet_refl rfl rfl
          · cases h
        · injection h with h
          exact h ▸ herase
      · cases h

theorem quiet_onRemoteOfferSet (status : Status) (w : World) :
    Quiet env w (onRemoteOfferSet leave status w) := by
  cases status with
  | error e => exact quiet_refl rfl rfl
  | ok => exact quiet_createDescription ..

/-- What comes after the flush is left to the callback. -/
theorem quiet_after_flush {callback : Status → World → World}
    (hc : ∀ status w, Quiet env w (callback status w)) (type : SdpType) (w : World) :
    Quiet env (flushPendingRemoteCandidates env (descriptionSet type w)).2
      (onRemoteDescriptionSet env callback type okStatus w) := by
  unfold onRemoteDescriptionSet okStatus
  dsimp only
  rw [show ({ w with peer.remoteDescriptionSet := true } : World).act (.remoteApplied type)
    = descriptionSet type w from rfl]
  split <;> (rename_i hf; rw [hf]; exact hc ..)

/-- **Which steps flush**: an observer that is told its description was applied. -/
theorem flushing_cases {w w₁ : World} {l : ClientLabel} (h : flushing w l = some w₁) :
    ∃ i type task, l = .complete i (.status okStatus) ∧ observerOf type = some task
      ∧ w.ops[i]? = some (.safe w.peer.safety task)
      ∧ w₁ = descriptionSet type { w with ops := w.ops.eraseIdx i } := by
  unfold flushing at h
  split at h
  · rename_i i
    split at h
    · rename_i flag hop
      split at h
      · rename_i hflag
        injection h with h
        exact ⟨i, .offer, .setRemoteOffer, rfl, rfl, hflag ▸ hop, h.symm⟩
      · cases h
    · rename_i flag hop
      split at h
      · rename_i hflag
        injection h with h
        exact ⟨i, .answer, .setRemoteAnswer, rfl, rfl, hflag ▸ hop, h.symm⟩
      · cases h
    · cases h
  · cases h

/-- What an observer runs after the flush leaves the buffer alone. -/
theorem observer_runs (env : Env) {type : SdpType} {task : PeerTask}
    (h : observerOf type = some task) (w : World) :
    ∃ callback : Status → World → World, (∀ status w, Quiet env w (callback status w))
      ∧ runClientTask env w task (.status okStatus)
        = some (onRemoteDescriptionSet env callback type okStatus w) := by
  cases type with
  | offer =>
      cases h
      exact ⟨onRemoteOfferSet leave, quiet_onRemoteOfferSet, rfl⟩
  | answer =>
      cases h
      exact ⟨leave, fun _ _ => quiet_refl rfl rfl, rfl⟩
  | _ => cases h

/-- A step that flushes does nothing else to the buffer. -/
theorem flush_step {w w' w₁ : World} {l : ClientLabel} (hflush : flushing w l = some w₁)
    (h : clientStep env w l = some w') :
    Quiet env w w₁ ∧ Quiet env (flushPendingRemoteCandidates env w₁).2 w' := by
  obtain ⟨i, type, task, rfl, htask, hop, rfl⟩ := flushing_cases hflush
  obtain ⟨callback, hquiet, hrun⟩ := observer_runs env htask { w with ops := w.ops.eraseIdx i }
  simp only [clientStep, hop, if_true, hrun, Option.some.injEq] at h
  exact ⟨quiet_of_trace [.remoteApplied type] rfl rfl (by simp), h ▸ quiet_after_flush hquiet ..⟩

/-! ## The numbers -/

theorem Numbered.length_eq {w₀ : World} {r : ClientRun} (h : Numbered env w₀ r) :
    r.waiting.length = r.world.peer.pendingRemoteCandidates.length := by
  have := congrArg List.length h.waiting
  simpa using this

/-- Adding a candidate: the buffer takes it, or it is passed on at once. -/
theorem advance_add {r : ClientRun} (m : SignalingMessage) :
    r.world.trace <+: (addRemoteCandidate env m r.world).2.trace
      ∧ Advance env r (r.advance env (.addRemoteCandidate m) (addRemoteCandidate env m r.world).2)
        (KeepsOrder env r.world (.addRemoteCandidate m)) := by
  have hflush : ∀ w, flushing r.world (.addRemoteCandidate m) = some w → AllOrNone env w :=
    fun w hw => by cases hw
  unfold addRemoteCandidate
  cases hset : r.world.peer.remoteDescriptionSet with
  | false =>
      have hquiet : acceptedBetween env r.world (queueRemoteCandidate m r.world) = [] := by
        have hsame : (queueRemoteCandidate m r.world).trace = r.world.trace ++ [] :=
          (List.append_nil _).symm
        rw [acceptedBetween_eq hsame]
        rfl
      refine ⟨List.prefix_refl _, .buffered m rfl ?_ ?_ rfl hquiet ⟨hflush, ?_⟩⟩
      · exact if_pos (by simp [queueRemoteCandidate])
      · exact if_pos (by simpa using hquiet)
      · intro m' _ hs
        rw [hset] at hs
        cases hs
  | true =>
      rw [if_neg (by simp)]
      rcases passCandidate_passed env "AddIceCandidate failed" m r.world with
        ⟨ha, hp, hpeer, more, htrace, hacc⟩ | ⟨ha, e, w', hp, hpeer, more, htrace, hacc⟩
      · rw [hp]
        have hb : acceptedBetween env r.world (passed m r.world) = [m] := by
          rw [acceptedBetween_eq htrace, hacc]
        refine ⟨⟨more, htrace.symm⟩, .direct m rfl ?_ ?_ rfl hb ?_⟩
        · exact if_neg (by simp [passed, World.act, World.deref])
        · exact if_neg (by rw [hb]; simp)
        · exact ⟨fun h => h.direct m rfl hset ha, fun h => ⟨hflush, fun _ _ _ _ => h⟩⟩
      · rw [hp]
        have hb : acceptedBetween env r.world w' = [] := by
          rw [acceptedBetween_eq htrace, hacc]
        refine ⟨⟨more, htrace.symm⟩, .refused m rfl ?_ ?_ (congrArg _ hpeer) hb ⟨hflush, ?_⟩⟩
        · exact if_neg (by rw [hpeer]; simp)
        · exact if_pos (by rw [hb]; rfl)
        · intro m' hm _ ha'
          injection hm with hm
          rw [← hm, ha] at ha'
          cases ha'

/-- What the numbers become where no candidate is added. -/
theorem advance_eq {r : ClientRun} {l : ClientLabel} (hadd : ∀ m, l ≠ .addRemoteCandidate m)
    (w' : World) : r.advance env l w' =
      { r with
        world := w'
        waiting := if w'.peer.pendingRemoteCandidates.isEmpty then [] else r.waiting
        applied := r.applied ++ r.waiting.take (acceptedBetween env r.world w').length } := by
  cases l with
  | addRemoteCandidate m => exact absurd rfl (hadd m)
  | _ => rfl

/-- Numbers that stay where the buffer stays. -/
theorem waiting_same {w₀ w' : World} {r : ClientRun} (hn : Numbered env w₀ r)
    (h : w'.peer.pendingRemoteCandidates = r.world.peer.pendingRemoteCandidates) :
    (if w'.peer.pendingRemoteCandidates.isEmpty then [] else r.waiting) = r.waiting := by
  split
  · rename_i hempty
    have hlen := hn.length_eq
    rw [← h, List.isEmpty_iff.mp hempty] at hlen
    exact (List.length_eq_zero_iff.mp hlen).symm
  · rfl

/-- A flush goes down the buffer: to its end, or so far. -/
theorem advance_flush {w₀ w₁ w' : World} {r : ClientRun} {l : ClientLabel}
    (hn : Numbered env w₀ r) (hadd : ∀ m, l ≠ .addRemoteCandidate m)
    (hflush : flushing r.world l = some w₁) (hbefore : Quiet env r.world w₁)
    (hafter : Quiet env (flushPendingRemoteCandidates env w₁).2 w') :
    r.world.trace <+: w'.trace ∧ Advance env r (r.advance env l w')
      (KeepsOrder env r.world l) := by
  obtain ⟨status, w₂, hf, hleft, more, htrace, hacc⟩ := flush_passed env w₁
  rw [hf] at hafter
  have hgrown : r.world.trace <+: w₂.trace := hbefore.grown.trans ⟨more, htrace.symm⟩
  have haccepted : acceptedBetween env r.world w'
      = acceptedFront env r.world.peer.pendingRemoteCandidates w₁ := by
    rw [acceptedBetween_trans hgrown hafter.grown, hafter.accepted, List.append_nil,
      acceptedBetween_trans hbefore.grown ⟨more, htrace.symm⟩, hbefore.accepted,
      List.nil_append, acceptedBetween_eq htrace, hacc, hbefore.buffer]
  have hbuffer : w'.peer.pendingRemoteCandidates = leftInBuffer env w₁ :=
    hafter.buffer.trans hleft
  have hkeeps : KeepsOrder env r.world l ↔ AllOrNone env w₁ := by
    refine ⟨fun h => h.flush w₁ hflush, fun h => ⟨fun w hw => ?_, fun m hm => absurd hm (hadd m)⟩⟩
    rw [hflush] at hw
    injection hw with hw
    exact hw ▸ h
  rw [allOrNone_iff, hbefore.buffer] at hkeeps
  refine ⟨hgrown.trans hafter.grown, ?_⟩
  rw [advance_eq hadd]
  unfold leftInBuffer at hbuffer
  rw [hbefore.buffer] at hbuffer
  by_cases hall : acceptsAll env r.world.peer.pendingRemoteCandidates w₁ = true
  · rw [if_pos hall] at hbuffer
    rw [acceptedFront_eq_iff.mpr hall] at haccepted
    refine .flushed rfl (if_pos (by rw [hbuffer]; rfl)) ?_ hbuffer haccepted
      (hkeeps.mpr (Or.inr hall))
    dsimp only
    rw [haccepted, ← hn.length_eq, List.take_length]
  · rw [if_neg hall] at hbuffer
    have hfront := acceptedFront_isPrefix env r.world.peer.pendingRemoteCandidates w₁
    have hne : acceptedFront env r.world.peer.pendingRemoteCandidates w₁
        ≠ r.world.peer.pendingRemoteCandidates := fun h => hall (acceptedFront_eq_iff.mp h)
    have hlt : (acceptedFront env r.world.peer.pendingRemoteCandidates w₁).length
        < r.waiting.length := by
      rw [hn.length_eq]
      exact Nat.lt_of_le_of_ne hfront.length_le fun h => hne (hfront.eq_of_length h)
    refine .cut _ hlt rfl (waiting_same hn hbuffer) (by dsimp only; rw [haccepted]) hbuffer
      (haccepted.trans (List.prefix_iff_eq_take.mp hfront)) ?_
    rw [hkeeps, List.length_eq_zero_iff]
    exact ⟨fun h => h.resolve_right hall, Or.inl⟩

/-- **Every step does one of these things.** -/
theorem advance_of_step {w₀ : World} {r r' : ClientRun} {l : ClientLabel}
    (hn : Numbered env w₀ r) (h : clientRunStep env r l = some r') :
    r.world.trace <+: r'.world.trace ∧ Advance env r r' (KeepsOrder env r.world l) := by
  obtain ⟨w', hstep, rfl⟩ := Option.map_eq_some_iff.mp h
  have hworld : (r.advance env l w').world = w' := by cases l <;> rfl
  rw [hworld]
  by_cases hadd : ∃ m, l = .addRemoteCandidate m
  · obtain ⟨m, rfl⟩ := hadd
    injection hstep with hstep
    exact hstep ▸ advance_add m
  · replace hadd : ∀ m, l ≠ .addRemoteCandidate m := fun m hm => hadd ⟨m, hm⟩
    cases hflush : flushing r.world l with
    | none =>
        have hquiet := quiet_step hadd hflush hstep
        refine ⟨hquiet.grown, ?_⟩
        rw [advance_eq hadd]
        refine .nothing rfl (waiting_same hn hquiet.buffer) ?_ hquiet.buffer hquiet.accepted
          ⟨fun w hw => ?_, fun m hm => absurd hm (hadd m)⟩
        · dsimp only
          rw [hquiet.accepted]
          simp
        · rw [hflush] at hw
          cases hw
    | some w₁ =>
        obtain ⟨hbefore, hafter⟩ := flush_step hflush hstep
        exact advance_flush hn hadd hflush hbefore hafter

theorem lt_of_given {numbers : List Nat} {given ms : List SignalingMessage}
    (h : numbers.map (given[·]?) = ms.map some) : ∀ i ∈ numbers, i < given.length := by
  intro i hi
  have hmem : given[i]? ∈ ms.map some := h ▸ List.mem_map_of_mem hi
  obtain ⟨m, _, hm⟩ := List.mem_map.mp hmem
  exact (List.getElem?_eq_some_iff.mp hm.symm).1

/-- Old numbers keep their candidates when one more is given. -/
theorem given_append {numbers : List Nat} {given ms : List SignalingMessage}
    (h : numbers.map (given[·]?) = ms.map some) (m : SignalingMessage) :
    numbers.map ((given ++ [m])[·]?) = ms.map some := by
  rw [← h]
  exact List.map_congr_left fun i hi => List.getElem?_append_left (lt_of_given h i hi)

/-- The next number is that of the candidate given with it. -/
theorem given_concat {numbers : List Nat} {given ms : List SignalingMessage}
    (h : numbers.map (given[·]?) = ms.map some) (m : SignalingMessage) :
    (numbers ++ [given.length]).map ((given ++ [m])[·]?) = (ms ++ [m]).map some := by
  rw [List.map_append, List.map_append, given_append h m]
  simp

theorem numbered_step {w₀ : World} {r r' : ClientRun} {keeps : Prop} (hn : Numbered env w₀ r)
    (hgrown : r.world.trace <+: r'.world.trace) (h : Advance env r r' keeps) :
    Numbered env w₀ r' := by
  obtain ⟨hw, ha, hg⟩ := hn
  have htotal : acceptedBetween env w₀ r'.world = acceptedBetween env w₀ r.world
      ++ acceptedBetween env r.world r'.world := acceptedBetween_trans hg hgrown
  cases h with
  | nothing h1 h2 h3 h4 h5 _ =>
      refine ⟨?_, ?_, hg.trans hgrown⟩
      · rw [h1, h2, h4, hw]
      · rw [h1, h3, htotal, h5, List.append_nil, ha]
  | buffered m h1 h2 h3 h4 h5 _ =>
      refine ⟨?_, ?_, hg.trans hgrown⟩
      · rw [h1, h2, h4, given_concat hw m]
      · rw [h1, h3, htotal, h5, List.append_nil, given_append ha m]
  | refused m h1 h2 h3 h4 h5 _ =>
      refine ⟨?_, ?_, hg.trans hgrown⟩
      · rw [h1, h2, h4, given_append hw m]
      · rw [h1, h3, htotal, h5, List.append_nil, given_append ha m]
  | direct m h1 h2 h3 h4 h5 _ =>
      refine ⟨?_, ?_, hg.trans hgrown⟩
      · rw [h1, h2, h4, given_append hw m]
      · rw [h1, h3, htotal, h5, given_concat ha m]
  | flushed h1 h2 h3 h4 h5 _ =>
      refine ⟨?_, ?_, hg.trans hgrown⟩
      · rw [h2, h4]
        rfl
      · rw [h1, h3, htotal, h5, List.map_append, List.map_append, ha, hw]
  | cut n _ h1 h2 h3 h4 h5 _ =>
      refine ⟨?_, ?_, hg.trans hgrown⟩
      · rw [h1, h2, h4, hw]
      · rw [h1, h3, htotal, h5, List.map_append, List.map_append, ha, List.map_take, hw,
          List.map_take]

/-- **A step keeps the order** exactly where it meets the condition. -/
theorem inOrder_step {w₀ : World} {r r' : ClientRun} {keeps : Prop} (hn : Numbered env w₀ r)
    (h : Advance env r r' keeps) : InOrder r' ↔ InOrder r ∧ keeps := by
  have happlied := lt_of_given hn.applied
  have hwaiting := lt_of_given hn.waiting
  unfold InOrder
  cases h with
  | nothing _ h2 h3 _ _ hk => rw [h2, h3, and_iff_left hk]
  | refused m _ h2 h3 _ _ hk => rw [h2, h3, and_iff_left hk]
  | buffered m _ h2 h3 _ _ hk =>
      rw [h2, h3, and_iff_left hk, ← List.append_assoc, List.pairwise_append]
      refine and_iff_left ⟨List.pairwise_singleton .., fun i hi n hn => ?_⟩
      rw [List.mem_singleton.mp hn]
      rcases List.mem_append.mp hi with hi | hi
      · exact happlied i hi
      · exact hwaiting i hi
  | direct m _ h2 h3 _ _ hk =>
      -- the candidate that is applied is newer than any that waits
      rw [h2, h3, hk]
      have hempty : r.world.peer.pendingRemoteCandidates = [] ↔ r.waiting = [] := by
        rw [← List.length_eq_zero_iff, ← hn.length_eq, List.length_eq_zero_iff]
      rw [hempty]
      constructor
      · intro hp
        refine ⟨hp.sublist ((List.sublist_append_left ..).append_right _), ?_⟩
        cases hwait : r.waiting with
        | nil => rfl
        | cons i rest =>
            have hlt : r.given.length < i := (List.pairwise_append.mp hp).2.2 _
              (List.mem_append_right _ (List.mem_singleton_self _)) i (by simp [hwait])
            have := hwaiting i (by simp [hwait])
            omega
      · rintro ⟨hp, hwait⟩
        rw [hwait, List.append_nil] at hp ⊢
        refine List.pairwise_append.mpr ⟨hp, List.pairwise_singleton .., fun i hi n hn => ?_⟩
        rw [List.mem_singleton.mp hn]
        exact happlied i hi
  | flushed _ h2 h3 _ _ hk => rw [h2, h3, and_iff_left hk, List.append_nil]
  | cut n hlt _ h2 h3 _ _ hk =>
      -- what was applied of the buffer is still in it
      rw [h2, h3, hk]
      constructor
      · intro hp
        refine ⟨hp.sublist ((List.sublist_append_left ..).append_right _), ?_⟩
        cases hwait : r.waiting with
        | nil => simp [hwait] at hlt
        | cons i rest =>
            rw [hwait] at hp
            cases n with
            | zero => rfl
            | succ n =>
                have hlt : i < i := (List.pairwise_append.mp hp).2.2 i
                  (List.mem_append_right _ (by simp)) i (List.mem_cons_self ..)
                omega
      · rintro ⟨hp, rfl⟩
        rw [List.take_zero, List.append_nil]
        exact hp

/-- A client starts with an empty buffer. -/
theorem initialized_buffer {joinResponse : JoinResponse} {w w₀ : World}
    (h : peerInitialize env joinResponse w = some (okStatus, w₀)) :
    w₀.peer.pendingRemoteCandidates = [] := by
  unfold peerInitialize at h
  split at h
  · cases h
  · split at h
    · cases h
    · dsimp only at h
      split at h
      · cases h
      · cases h
      · split at h
        · cases h
        · injection h with h
          injection h with _ h
          rw [← h]
          rfl

/--
**When buffered candidates are applied once and in order.** A flush leaves exactly the
candidates that were not accepted if and only if its first candidate is refused or all
are accepted. And in a run of an initialized client, every candidate that was given is
applied at most once and no candidate ahead of one that waits, if and only if every
flush is of that kind and no candidate is accepted directly while others wait.
-/
theorem candidates_buffered (env : Env) :
    (∀ w, LeavesRest env w ↔ AllOrNone env w)
    ∧ ∀ (joinResponse : JoinResponse) (w w₀ : World) (tr : List (ClientRun × ClientLabel))
        (r : ClientRun), peerInitialize env joinResponse w = some (okStatus, w₀) →
        Run (clientRunStep env) { world := w₀ } tr r →
        Numbered env w₀ r ∧ (InOrder r ↔ ∀ p ∈ tr, KeepsOrder env p.1.world p.2) := by
  refine ⟨leavesRest_iff, fun joinResponse w w₀ tr r hinit hrun => ?_⟩
  have h0 : Numbered env w₀ { world := w₀ } := by
    refine ⟨by rw [initialized_buffer hinit]; rfl, ?_, List.prefix_refl _⟩
    simp [acceptedBetween, acceptedIn]
  refine hrun.law_iff (P := fun r l => KeepsOrder env r.world l) (I := InOrder) h0
    List.Pairwise.nil ?_ ?_
  · intro r l r' hn hstep
    obtain ⟨hgrown, hadvance⟩ := advance_of_step hn hstep
    exact numbered_step hn hgrown hadvance
  · intro r l r' hn hstep
    exact inOrder_step hn (advance_of_step hn hstep).2

/-! ## A candidate applied twice -/

def firstCandidate : SignalingMessage := { type := .candidate, candidate := "a" }

def secondCandidate : SignalingMessage := { type := .candidate, candidate := "b" }

/-- WebRTC accepts the first candidate and refuses the second. -/
def refusingEnv : Env := { Env.smooth [] with addIceCandidate := fun _ m => m = firstCandidate }

/-- A client of this environment after `Initialize`. -/
def initializedWorld : World :=
  ((peerInitialize refusingEnv { pcConfigJson := "pc_config" } {}).map (·.2)).getD {}

/-- Two candidates are buffered, and a description is applied over and over. -/
def reflushLabels (times : Nat) : List ClientLabel :=
  [.addRemoteCandidate firstCandidate, .addRemoteCandidate secondCandidate]
    ++ (List.replicate times [ClientLabel.setRemoteAnswer { type := .answer },
      .complete 0 (.status okStatus)]).flatten

/-- With one flush that is cut short, the run is no longer in order. -/
theorem candidates_buffered_cut :
    ∃ tr r, Run (clientRunStep refusingEnv) { world := initializedWorld } tr r
      ∧ r.applied = [0] ∧ r.waiting = [0, 1] ∧ ¬ InOrder r
      ∧ ¬ ∀ p ∈ tr, KeepsOrder refusingEnv p.1.world p.2 := by
  obtain ⟨r, hr, happlied, hwaiting⟩ : ∃ r, exec (clientRunStep refusingEnv)
      { world := initializedWorld } (reflushLabels 1) = some r
        ∧ r.applied = [0] ∧ r.waiting = [0, 1] := ⟨_, rfl, rfl, rfl⟩
  obtain ⟨tr, hrun, _⟩ := Run.start.exec hr
  rw [List.nil_append] at hrun
  obtain ⟨-, hiff⟩ := (candidates_buffered refusingEnv).2 { pcConfigJson := "pc_config" } {}
    initializedWorld tr r rfl hrun
  have hno : ¬ InOrder r := by
    rw [InOrder, happlied, hwaiting]
    decide
  exact ⟨tr, r, hrun, happlied, hwaiting, hno, fun hkeeps => hno (hiff.mpr hkeeps)⟩

/-- **A candidate is applied twice**: the second flush passes on what the first one passed. -/
theorem candidate_applied_twice :
    ¬ LeavesRest refusingEnv { initializedWorld with
        peer.pendingRemoteCandidates := [firstCandidate, secondCandidate] }
    ∧ peerInitialize refusingEnv { pcConfigJson := "pc_config" } {}
        = some (okStatus, initializedWorld)
    ∧ ∃ tr r, Run (clientRunStep refusingEnv) { world := initializedWorld } tr r
        ∧ r.applied = [0, 0] ∧ ¬ InOrder r := by
  refine ⟨by unfold LeavesRest; decide, rfl, ?_⟩
  obtain ⟨r, hr, happlied⟩ : ∃ r, exec (clientRunStep refusingEnv) { world := initializedWorld }
      (reflushLabels 2) = some r ∧ r.applied = [0, 0] := ⟨_, rfl, rfl⟩
  obtain ⟨tr, hrun, _⟩ := Run.start.exec hr
  refine ⟨tr, r, by simpa using hrun, happlied, fun h => ?_⟩
  have hpairs := List.Pairwise.sublist (List.sublist_append_left ..) h
  rw [happlied] at hpairs
  exact absurd hpairs (by decide)

end ApprtcCli.Proof
