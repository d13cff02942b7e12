import ApprtcCli.Lib.Run
import ApprtcCli.Lib.Trail

/-!
# Frame delivery to sinks

The sink list of `FileVideoSource`. `AddOrUpdateSink` and `RemoveSink` change it
under a mutex on their caller's thread; the decoder thread copies it under the
same mutex and then calls the copied sinks one at a time with the mutex released.

A step is one locked section or one delivery, so a run is an interleaving of the
two threads. What the owner of a sink relies on is `RemovalRespected`: once
`RemoveSink` has returned, no call on the sink is started unless it was added
again. A removal that lands between the copy and the delivery breaks it, and
`removal_respected` says that nothing else does.
-/

namespace ApprtcCli.Video

open Lib

/-- `sink` is a pointer, absent when it is null; `ω` is `VideoSinkWants`. -/
structure SinkEntry (ι ω : Type) where
  sink : Option ι
  wants : ω

/-- What happened to a sink, oldest first in a log. -/
inductive SinkAction (ι : Type) where
  /-- `AddOrUpdateSink` returned. -/
  | added (sink : Option ι)
  /-- `RemoveSink` returned. -/
  | removed (sink : Option ι)
  /-- A call of `OnFrame` was started. -/
  | onFrame (sink : ι)
  deriving DecidableEq

structure FileVideoSource (ι ω : Type) where
  sinks : List (SinkEntry ι ω) := []
  /-- The copy a broadcast in progress has still to deliver to. -/
  broadcast : Option (List (SinkEntry ι ω)) := none
  log : List (SinkAction ι) := []

variable {ι ω : Type}

/-- The loop of `AddOrUpdateSink`: a known sink gets new wants, a new one goes last. -/
def addOrUpdate [DecidableEq ι] (sink : Option ι) (wants : ω) :
    List (SinkEntry ι ω) → List (SinkEntry ι ω)
  | [] => [⟨sink, wants⟩]
  | entry :: rest =>
      if entry.sink = sink then ⟨entry.sink, wants⟩ :: rest
      else entry :: addOrUpdate sink wants rest

namespace FileVideoSource

def addOrUpdateSink [DecidableEq ι] (s : FileVideoSource ι ω) (sink : Option ι) (wants : ω) :
    FileVideoSource ι ω :=
  { s with sinks := addOrUpdate sink wants s.sinks, log := s.log ++ [.added sink] }

def removeSink [DecidableEq ι] (s : FileVideoSource ι ω) (sink : Option ι) : FileVideoSource ι ω :=
  { s with
    sinks := s.sinks.filter (fun entry => entry.sink ≠ sink)
    log := s.log ++ [.removed sink] }

/-- The locked section of `BroadcastFrame`; the decoder thread has one broadcast at a time. -/
def copySinks (s : FileVideoSource ι ω) : Option (FileVideoSource ι ω) :=
  match s.broadcast with
  | none => some { s with broadcast := some s.sinks }
  | some _ => none

/-- One round of the delivery loop, or its end. -/
def deliver (s : FileVideoSource ι ω) : Option (FileVideoSource ι ω) :=
  match s.broadcast with
  | none => none
  | some [] => some { s with broadcast := none }
  | some (entry :: rest) =>
      match entry.sink with
      | none => some { s with broadcast := some rest }
      | some sink => some { s with broadcast := some rest, log := s.log ++ [.onFrame sink] }

end FileVideoSource

/-- One atomic step of either thread. -/
inductive Label (ι ω : Type) where
  | addOrUpdateSink (sink : Option ι) (wants : ω)
  | removeSink (sink : Option ι)
  | copySinks
  | deliver

def step [DecidableEq ι] (s : FileVideoSource ι ω) : Label ι ω → Option (FileVideoSource ι ω)
  | .addOrUpdateSink sink wants => some (s.addOrUpdateSink sink wants)
  | .removeSink sink => some (s.removeSink sink)
  | .copySinks => s.copySinks
  | .deliver => s.deliver

/-! ## The guarantee, and when it holds -/

/-- The sink was removed, and not added again since. -/
def Removed (log : List (SinkAction ι)) (sink : ι) : Prop :=
  ∃ before after, log = before ++ .removed (some sink) :: after ∧ .added (some sink) ∉ after

/-- No call is started on a sink that is removed. -/
def RemovalRespected (log : List (SinkAction ι)) : Prop :=
  Trail (fun before action => ∀ sink, action = .onFrame sink → ¬ Removed before sink) log

/-- What a broadcast in progress has still to deliver to. -/
def FileVideoSource.undelivered (s : FileVideoSource ι ω) : List (SinkEntry ι ω) :=
  s.broadcast.getD []

/-- A removal waits until no broadcast in progress still holds the sink. -/
def QuietRemoval (s : FileVideoSource ι ω) (l : Label ι ω) : Prop :=
  ∀ sink, l = .removeSink (some sink) → ∀ entry ∈ s.undelivered, entry.sink ≠ some sink

theorem removed_concat {log : List (SinkAction ι)} {a : SinkAction ι} {sink : ι} :
    Removed (log ++ [a]) sink ↔
      a = .removed (some sink) ∨ (a ≠ .added (some sink) ∧ Removed log sink) := by
  constructor
  · rintro ⟨before, after, heq, hno⟩
    rcases concat_eq_append_cons heq with ⟨_, _, h⟩ | ⟨after', rfl, h⟩
    · exact Or.inl h
    · simp only [List.mem_append, List.mem_singleton, not_or] at hno
      exact Or.inr ⟨fun hc => hno.2 hc.symm, before, after', h, hno.1⟩
  · rintro (rfl | ⟨hne, before, after, rfl, hno⟩)
    · exact ⟨log, [], rfl, by simp⟩
    · refine ⟨before, after ++ [a], by simp, ?_⟩
      simp only [List.mem_append, List.mem_singleton, not_or]
      exact ⟨hno, fun h => hne h.symm⟩

theorem mem_addOrUpdate [DecidableEq ι] {sink t : Option ι} {wants : ω} :
    ∀ {l : List (SinkEntry ι ω)} {e : SinkEntry ι ω}, e ∈ addOrUpdate sink wants l →
      e.sink = t → t = sink ∨ ∃ e' ∈ l, e'.sink = t := by
  intro l
  induction l with
  | nil =>
      intro e he ht
      left
      rw [addOrUpdate, List.mem_singleton] at he
      rw [← ht, he]
  | cons x l ih =>
      intro e he ht
      rw [addOrUpdate] at he
      split at he
      · rcases List.mem_cons.mp he with rfl | he
        · exact Or.inr ⟨x, by simp, ht⟩
        · exact Or.inr ⟨e, by simp [he], ht⟩
      · rcases List.mem_cons.mp he with rfl | he
        · exact Or.inr ⟨e, by simp, ht⟩
        · rcases ih he ht with h | ⟨e', he', h⟩
          · exact Or.inl h
          · exact Or.inr ⟨e', by simp [he'], h⟩

/-- A removed sink is neither listed nor waiting in a broadcast. -/
def RemovedGone (s : FileVideoSource ι ω) : Prop :=
  ∀ sink, Removed s.log sink →
    (∀ e ∈ s.sinks, e.sink ≠ some sink) ∧ ∀ e ∈ s.undelivered, e.sink ≠ some sink

theorem removedGone_addOrUpdateSink [DecidableEq ι] {s : FileVideoSource ι ω} (h : RemovedGone s)
    (sink : Option ι) (wants : ω) : RemovedGone (s.addOrUpdateSink sink wants) := by
  intro t ht
  rcases removed_concat.mp ht with hc | ⟨hne, hrem⟩
  · exact absurd hc (by simp)
  · obtain ⟨hs, hu⟩ := h t hrem
    refine ⟨fun e he heq => ?_, hu⟩
    rcases mem_addOrUpdate he heq with h1 | ⟨e', he', h2⟩
    · exact hne (by rw [h1])
    · exact hs e' he' h2

theorem removedGone_removeSink [DecidableEq ι] {s : FileVideoSource ι ω} (h : RemovedGone s)
    (sink : Option ι) (hq : QuietRemoval s (.removeSink sink)) :
    RemovedGone (s.removeSink sink) := by
  intro t ht
  rcases removed_concat.mp ht with hc | ⟨_, hrem⟩
  · injection hc with hc
    subst hc
    exact ⟨fun e he => by simpa using (List.mem_filter.mp he).2, hq t rfl⟩
  · obtain ⟨hs, hu⟩ := h t hrem
    exact ⟨fun e he => hs e (List.mem_filter.mp he).1, hu⟩

theorem removedGone_copySinks {s s' : FileVideoSource ι ω} (h : RemovedGone s)
    (hs : s.copySinks = some s') : RemovedGone s' := by
  unfold FileVideoSource.copySinks at hs
  split at hs
  · injection hs with hs
    subst hs
    exact fun t ht => ⟨(h t ht).1, (h t ht).1⟩
  · exact absurd hs (by simp)

/-- A delivery keeps the invariant, and calls no sink that is removed. -/
theorem removedGone_deliver {s s' : FileVideoSource ι ω} (h : RemovedGone s)
    (hr : RemovalRespected s.log) (hs : s.deliver = some s') :
    RemovedGone s' ∧ RemovalRespected s'.log := by
  unfold FileVideoSource.deliver at hs
  split at hs
  · exact absurd hs (by simp)
  · injection hs with hs
    subst hs
    exact ⟨fun t ht => ⟨(h t ht).1, by simp [FileVideoSource.undelivered]⟩, hr⟩
  · rename_i entry rest hb
    have hu : s.undelivered = entry :: rest := by simp [FileVideoSource.undelivered, hb]
    have hrest : ∀ t, Removed s.log t → ∀ e ∈ rest, e.sink ≠ some t := by
      intro t ht e he
      exact (h t ht).2 e (by rw [hu]; exact List.mem_cons_of_mem _ he)
    split at hs
    · injection hs with hs
      subst hs
      exact ⟨fun t ht => ⟨(h t ht).1, hrest t ht⟩, hr⟩
    · rename_i sink hsink
      injection hs with hs
      subst hs
      have hold : ∀ {t}, Removed (s.log ++ [.onFrame sink]) t → Removed s.log t := by
        intro t ht
        rcases removed_concat.mp ht with hc | ⟨_, hc⟩
        · exact absurd hc (by simp)
        · exact hc
      refine ⟨fun t ht => ⟨(h t (hold ht)).1, hrest t (hold ht)⟩, ?_⟩
      refine trail_concat.mpr ⟨hr, fun t ht hrem => ?_⟩
      injection ht with ht
      exact (h t hrem).2 entry (by rw [hu]; exact List.mem_cons_self ..) (ht ▸ hsink)

/-- The actions that start no call are always allowed. -/
theorem removalRespected_concat {log : List (SinkAction ι)} {a : SinkAction ι}
    (h : RemovalRespected log) (ha : ∀ sink, a ≠ .onFrame sink) :
    RemovalRespected (log ++ [a]) :=
  trail_concat.mpr ⟨h, fun sink hc => absurd hc (ha sink)⟩

theorem removedGone_step [DecidableEq ι] {s s' : FileVideoSource ι ω} {l : Label ι ω}
    (hq : QuietRemoval s l) (h : RemovedGone s ∧ RemovalRespected s.log) (hs : step s l = some s') :
    RemovedGone s' ∧ RemovalRespected s'.log := by
  obtain ⟨hg, hr⟩ := h
  cases l with
  | addOrUpdateSink sink wants =>
      injection hs with hs
      subst hs
      exact ⟨removedGone_addOrUpdateSink hg sink wants, removalRespected_concat hr (by simp)⟩
  | removeSink sink =>
      injection hs with hs
      subst hs
      exact ⟨removedGone_removeSink hg sink hq, removalRespected_concat hr (by simp)⟩
  | copySinks =>
      have hlog : s'.log = s.log := by
        simp only [step, FileVideoSource.copySinks] at hs
        split at hs
        · injection hs with hs; rw [← hs]
        · exact absurd hs (by simp)
      exact ⟨removedGone_copySinks hg hs, by rw [hlog]; exact hr⟩
  | deliver => exact removedGone_deliver hg hr hs

/-! ## The condition is exact -/

/-- The next delivery, where the list is not empty: one entry fewer, and at most one call. -/
theorem deliver_cons {s : FileVideoSource ι ω} {entry : SinkEntry ι ω}
    {rest : List (SinkEntry ι ω)} (h : s.broadcast = some (entry :: rest)) :
    ∃ s', s.deliver = some s' ∧ s'.broadcast = some rest ∧
      match entry.sink with
      | none => s'.log = s.log
      | some sink => s'.log = s.log ++ [.onFrame sink] := by
  unfold FileVideoSource.deliver
  rw [h]
  dsimp only
  cases entry.sink with
  | none => exact ⟨_, rfl, rfl, rfl⟩
  | some sink => exact ⟨_, rfl, rfl, rfl⟩

/-- A broadcast gets to every sink it still holds, removed or not. -/
theorem deliver_reaches [DecidableEq ι] {sink : ι} :
    ∀ (rest : List (SinkEntry ι ω)) (s : FileVideoSource ι ω), s.broadcast = some rest →
      (∃ e ∈ rest, e.sink = some sink) → Removed s.log sink →
      ∃ n s', exec step s (List.replicate n .deliver) = some s' ∧ ¬ RemovalRespected s'.log := by
  intro rest
  induction rest with
  | nil => intro s _ ⟨e, he, _⟩; exact absurd he (by simp)
  | cons entry rest ih =>
      intro s hb ⟨e, he, hsink⟩ hrem
      obtain ⟨s', hd, hb', hlog⟩ := deliver_cons hb
      by_cases hhead : entry.sink = some sink
      · rw [hhead] at hlog
        refine ⟨1, s', by simp [exec, step, hd], fun hr => ?_⟩
        rw [RemovalRespected, hlog] at hr
        exact (trail_concat.mp hr).2 sink rfl hrem
      · have he' : ∃ e ∈ rest, e.sink = some sink := by
          rcases List.mem_cons.mp he with rfl | he
          · exact absurd hsink hhead
          · exact ⟨e, he, hsink⟩
        have hrem' : Removed s'.log sink := by
          cases hx : entry.sink with
          | none => rw [hx] at hlog; rw [hlog]; exact hrem
          | some t =>
              rw [hx] at hlog
              rw [hlog]
              exact removed_concat.mpr (Or.inr ⟨by simp, hrem⟩)
        obtain ⟨n, s'', hex, hbad⟩ := ih s' hb' he' hrem'
        exact ⟨n + 1, s'', by simp [List.replicate_succ, exec, step, hd, hex], hbad⟩

/--
**When the guarantee holds.** In every run whose removals all wait until no
broadcast in progress still holds the sink, no call is started on a removed sink.
The condition is exact: from any state, a removal that does not wait is followed,
after some deliveries, by a call on the sink it removed.
-/
theorem removal_respected [DecidableEq ι] :
    (∀ (tr : List (FileVideoSource ι ω × Label ι ω)) (s : FileVideoSource ι ω),
      Run step {} tr s → (∀ p ∈ tr, QuietRemoval p.1 p.2) → RemovalRespected s.log)
    ∧ ∀ (s : FileVideoSource ι ω) (l : Label ι ω), ¬ QuietRemoval s l →
      ∃ n s', exec step s (l :: List.replicate n .deliver) = some s'
        ∧ ¬ RemovalRespected s'.log := by
  constructor
  · intro tr s hrun hq
    have h0 : RemovedGone ({} : FileVideoSource ι ω)
        ∧ RemovalRespected ({} : FileVideoSource ι ω).log := by
      refine ⟨fun sink ⟨before, after, h, _⟩ => absurd h (by simp), trail_nil _⟩
    exact (hrun.invariant_where (I := fun s => RemovedGone s ∧ RemovalRespected s.log) h0
      (fun _ _ _ _ hok hi hs => removedGone_step hok hi hs) hq).2
  · intro s l hl
    unfold QuietRemoval at hl
    push Not at hl
    obtain ⟨sink, rfl, e, he, hsink⟩ := hl
    cases hb : s.broadcast with
    | none => simp [FileVideoSource.undelivered, hb] at he
    | some rest =>
        have hrem : Removed (s.removeSink (some sink)).log sink :=
          removed_concat.mpr (Or.inl rfl)
        have hmem : e ∈ rest := by simpa [FileVideoSource.undelivered, hb] using he
        obtain ⟨n, s', hex, hbad⟩ :=
          deliver_reaches rest (s.removeSink (some sink)) hb ⟨e, hmem, hsink⟩ hrem
        exact ⟨n, s', by simpa [exec, step] using hex, hbad⟩

/-- A removal between the copy and the delivery: the sink is called after `RemoveSink` returned. -/
theorem removal_overtaken :
    ∃ (tr : List (FileVideoSource Nat Unit × Label Nat Unit)) (s : FileVideoSource Nat Unit),
      Run step {} tr s ∧ ¬ RemovalRespected s.log := by
  have hex : exec step ({} : FileVideoSource Nat Unit)
      [.addOrUpdateSink (some 1) (), .copySinks, .removeSink (some 1), .deliver]
      = some ⟨[], some [], [.added (some 1), .removed (some 1), .onFrame 1]⟩ := by rfl
  obtain ⟨tr, hrun, _⟩ := Run.start.exec hex
  refine ⟨tr, _, hrun, fun h => ?_⟩
  exact h [.added (some 1), .removed (some 1)] (.onFrame 1) [] rfl 1 rfl
    ⟨[.added (some 1)], [], rfl, by simp⟩

end ApprtcCli.Video
