import ApprtcCli.Lib.Execution
import ApprtcCli.Proof.Outcome

/-!
# Every call ends

What the safety results leave open is whether anything happens at all. A call needs very
little from its environment for that: that an operation completes in the end, timers
being operations the clock completes, and that the signaling thread goes on running what
is posted. Nobody has to be friendly; the server may answer what it likes, WebRTC may
report what it likes, the other side may send what it likes or nothing, for as long as
they like.

The argument has three parts, and each is about one task that is outstanding: the startup
timer until the call is established, the duration timer until it is over, and the
completion of the bye until the thread quits. Such a task runs in the end, and what it
waited for has happened by then or happens now.
-/

namespace ApprtcCli.Proof

open Lib Call

variable {env : Env}

/-- How many tasks a step takes from the queue. -/
def tasksRun : Label → ℕ
  | .run _ => 1
  | _ => 0

/-! ## What runs in the end -/

/-- A task posts nothing itself. -/
theorem queue_move {p p' : Phase} {w w' : World} (hm : Move env p w p' w') :
    w'.queue = w.queue := by
  cases hm <;> rfl

theorem queue_run {w w' : World} {t : Task} {rest : List Task} {r : Reply}
    (h : Reached env w) (hq : w.queue = t :: rest)
    (hrun : runTask env { w with queue := rest } t r = some w') : w'.queue = rest := by
  have he := Enter.run (r := r) hq
  have hbase := base_enter (base_visited (reached_visited h)) he
  exact (task_moves hbase hrun).invariant (I := fun _ v => v.queue = rest)
    (fun _ _ _ _ hi hm => (queue_move hm).trans hi) rfl

/-- **The signaling thread's queue** is served from its front. -/
theorem signaling_queues :
    Execution.Queues (step env) initial World.queue fun _ l => tasksRun l := by
  intro w l w' h hs
  have hb := base_visited (reached_visited h)
  cases l with
  | post i =>
      obtain ⟨t, _, rfl⟩ := post_eq hb hs
      exact ⟨[t], rfl⟩
  | event t =>
      obtain ⟨_, rfl⟩ := event_eq hb hs
      exact ⟨[t], rfl⟩
  | destroy =>
      obtain ⟨_, rfl⟩ := destroy_eq hb hs
      exact ⟨[], (List.append_nil _).symm⟩
  | run r =>
      obtain ⟨t, rest, hq, hrun⟩ := run_eq hs
      exact ⟨[], by rw [queue_run h hq hrun, hq]; exact (List.append_nil _).symm⟩

section Fair

variable {x : Execution (step env) initial}

end Fair

/-! ## What each of the three tasks brings about -/

theorem finish_sets (reason : TerminalReason) (status : Status) (w : World) :
    (finish env reason status w).ctl.finished = true := by
  cases hf : w.ctl.finished with
  | true => rw [finish_finished hf, hf]
  | false =>
      rcases finish_cases env reason status hf with ⟨jr, _, _, he⟩ | ⟨_, he⟩ <;> rw [he] <;> rfl

/-- Neither over nor about to be. -/
def Going (p : Phase) (w : World) : Prop := w.ctl.finished = false ∧ p.finishes = false

/-- A call that goes on has gone on. -/
theorem going_move {p p' : Phase} {w w' : World} (hm : Move env p w p' w') (h : Going p' w') :
    Going p w := by
  obtain ⟨hf, hp⟩ := h
  cases hm with
  | byeSent hf' => exact Bool.noConfusion (hf'.symm.trans hf)
  | already hf' => exact Bool.noConfusion (hf'.symm.trans hf)
  | byeStarted | ended => cases hf
  | observed | established => exact ⟨hf, hp⟩
  | _ => exact ⟨hf, rfl⟩

/-- A call that goes on after a step went on before it. -/
theorem unfinished_step {w w' : World} {l : Label} (h : Reached env w)
    (hs : step env w l = some w') (hf : w'.ctl.finished = false) : w.ctl.finished = false := by
  obtain ⟨p, w₁, he, hm⟩ := step_cuts (base_visited (reached_visited h)) hs
  have hgo := hm.invariant (I := fun q v => Going q v → Going p w₁)
    (fun _ _ _ _ hi hm hgo => hi (going_move hm hgo)) id
  have hsame : w₁.ctl.finished = w.ctl.finished := by cases he <;> rfl
  exact hsame ▸ (hgo ⟨hf, rfl⟩).1

/-- Whatever became of the bye, the thread quits once that is known. -/
theorem bye_quits {w w' : World} {status : Status} {r : Reply}
    (hrun : runTask env w (.sendComplete (.bye status)) r = some w') : w'.quit = true := by
  cases r with
  | status sent =>
      injection hrun with hrun
      rw [← hrun]
      rfl
  | _ => cases hrun

theorem exitCodeForReason_written (reason : TerminalReason) :
    (exitCodeForReason reason).toInt ≠ ExitCode.runtimeFailed.toInt := by
  cases reason <;> decide

/-- `Quit` comes with an exit code other than the one the controller starts with. -/
def Coded (w : World) : Prop :=
  w.quit = true ↔ w.ctl.exitCode ≠ ExitCode.runtimeFailed.toInt

theorem coded_move {p p' : Phase} {w w' : World} (h : Coded w) (hm : Move env p w p' w') :
    Coded w' := by
  cases hm with
  | byeSent =>
      exact ⟨fun _ => exitCodeForReason_written .localDurationReached, fun _ => rfl⟩
  | @ended _ reason => exact ⟨fun _ => exitCodeForReason_written reason, fun _ => rfl⟩
  | _ => exact h

theorem coded_visited {p : Phase} {w : World} (h : Visited env p w) : Coded w := by
  refine h.invariant (I := fun _ w => Coded w) ?_ ?_ (fun _ _ _ _ _ hi hm => coded_move hi hm)
  · exact ⟨fun hc => (by cases hc), fun hc => absurd rfl hc⟩
  · intro w l p w' _ hi he
    cases he <;> exact hi

/-- A thread that has quit leaves the exit code of the one reason there is. -/
theorem exit_of_quit {w : World} (h : Reached env w) (hq : w.quit = true) :
    ∃ pre reason status post, FinishedAt w pre reason status post
      ∧ w.ctl.exitCode = (exitCodeForReason reason).toInt := by
  have hv := reached_visited h
  obtain ⟨pre, reason, status, post, hd⟩ :=
    (deciding_visited hv).after ((base_visited hv).quit hq)
  refine ⟨pre, reason, status, post, hd.toFinishedAt, ?_⟩
  rcases hd.stage with ⟨_, _, _, hcode⟩ | ⟨_, _, hcode⟩
  · exact absurd hcode ((coded_visited hv).mp hq)
  · exact hcode

/-- The one `Finish` of a call gave this reason. -/
def TerminatedBy (w : World) (reason : TerminalReason) : Prop :=
  ∃ status, .finish reason status ∈ w.trace

theorem FinishedAt.terminatedBy {w : World} {pre post : List Action} {reason : TerminalReason}
    {status : Status} (hd : FinishedAt w pre reason status post) : TerminatedBy w reason :=
  ⟨status, by rw [hd.history]; simp⟩

/-- A call that was terminated is finished, with that reason. -/
theorem TerminatedBy.finishedAt {w : World} {reason : TerminalReason} (h : TerminatedBy w reason)
    (hr : Reached env w) : ∃ pre status post, FinishedAt w pre reason status post := by
  obtain ⟨status, hmem⟩ := h
  have hd := deciding_visited (reached_visited hr)
  have hf : w.ctl.finished = true := by
    cases hf : w.ctl.finished with
    | true => rfl
    | false => cases (hd.before hf).2.2 _ hmem
  obtain ⟨pre, reason', status', post, hdecided⟩ := hd.after hf
  rw [hdecided.history] at hmem
  rcases List.mem_append.mp hmem with hmem | hmem
  · cases hdecided.first _ hmem
  · rcases List.mem_cons.mp hmem with heq | hmem
    · cases heq
      exact ⟨pre, _, post, hdecided.toFinishedAt⟩
    · exact absurd rfl ((hdecided.only _ hmem).1 _ _)

/-- A call is terminated once. -/
theorem TerminatedBy.unique {w : World} {reason reason' : TerminalReason}
    (h : TerminatedBy w reason) (h' : TerminatedBy w reason') (hr : Reached env w) :
    reason = reason' := by
  obtain ⟨pre, status, post, hd⟩ := h.finishedAt hr
  obtain ⟨pre', status', post', hd'⟩ := h'.finishedAt hr
  exact (hd'.later hd (List.prefix_refl _)).2.1

theorem quit_of_destroyed {w : World} (h : Reached env w) (hd : w.destroyed = true) :
    w.quit = true := by
  have hinv : w.destroyed = true → w.quit = true := by
    refine (reached_visited h).invariant (I := fun _ w => w.destroyed = true → w.quit = true)
      (fun hc => by cases hc) ?_ ?_
    · intro w l p w' _ hi he
      cases he with
      | destroy hq hf => exact fun _ => hq
      | _ => exact hi
    · intro p w p' w' _ hi hm
      cases hm with
      | byeSent | ended => exact fun _ => rfl
      | _ => exact hi
  exact hinv hd

theorem finished_of_destroyed {w : World} (h : Reached env w) (hd : w.destroyed = true) :
    w.ctl.finished = true :=
  (base_visited (reached_visited h)).quit (quit_of_destroyed h hd)

/-- From the one state to the next this task is run. -/
def RunsTask (env : Env) (t : Task) (w w' : World) : Prop :=
  ∃ r rest, w.queue = t :: rest ∧ runTask env { w with queue := rest } t r = some w'

section Served

variable {σ ε : Type} {move : σ → ε → Option σ} {s₀ : σ}

/-- The call in a system goes on as a call does, and what is outstanding in it runs in the end. -/
structure Served (env : Env) (x : Execution move s₀) (view : σ → World) : Prop where
  starts : view s₀ = initial
  goes : ∀ s e s', Reachable move s₀ s → move s e = some s' →
    ∃ labels, exec (step env) (view s) labels = some (view s')
  runs : ∀ n t, t ∈ (view (x.state n)).pending → ∃ m, n ≤ m
    ∧ ((view (x.state m)).destroyed = true ∨ ∃ r rest, (view (x.state m)).queue = t :: rest
      ∧ runTask env { view (x.state m) with queue := rest } t r = some (view (x.state (m + 1))))

variable {x : Execution move s₀} {view : σ → World}

theorem Served.reached (hx : Served env x view) (n : ℕ) : Reached env (view (x.state n)) := by
  refine (x.reachable n).invariant (I := fun s => Reached env (view s)) ?_ ?_
  · rw [hx.starts]
    exact Reachable.init
  · intro s e s' hs hr hmove
    obtain ⟨labels, hlabels⟩ := hx.goes s e s' hs hmove
    exact (hr.exec (I := fun _ => True) (fun _ _ _ _ _ _ => trivial) trivial hlabels).1

/-- What every step of the call keeps is kept from any time on. -/
theorem Served.stable (hx : Served env x view) {P : World → Prop}
    (hstep : ∀ w l w', Reached env w → P w → step env w l = some w' → P w') {n m : ℕ}
    (hle : n ≤ m) (h : P (view (x.state n))) : P (view (x.state m)) := by
  induction hle with
  | refl => exact h
  | @step m _ ih =>
      cases hl : x.label m with
      | none =>
          rw [x.stay_of_label hl]
          exact ih
      | some e =>
          obtain ⟨labels, hlabels⟩ := hx.goes _ e _ (x.reachable m) (x.step_of_label hl)
          exact ((hx.reached m).exec hstep ih hlabels).2

end Served

end ApprtcCli.Proof
