import ApprtcCli.Proof.Service

/-!
# The statistics

The repeating task of `StartStatsTimer` posts itself again each time it has run, so a second
one would never go away, and neither would the first if it were not stopped. One is
outstanding from the registration to the end of the call; what is left of it then does
nothing (`one_stats_task`). While it is outstanding it comes round again and again, each time
to a connection that is there (`stats_recur`).

The invariant is a count of the load, as for the watchdog (`Proof/Timers.lean`), but there
is no generation to tell an old task from a new one: that `Finish` stops the task and
nothing starts one after it is what keeps the count at one.
-/

namespace ApprtcCli.Proof

open Lib Call

variable {env : Env}

structure Repeating (p : Phase) (w : World) : Prop where
  few : (load p w).count .stats ≤ 1
  /-- Until the call is over, one is outstanding where it was started. -/
  going : w.ctl.finished = false →
    (load p w).count .stats = if w.ctl.statsRunning then 1 else 0
  /-- It is started by the registration. -/
  started : w.ctl.finished = false → w.ctl.statsRunning = w.ctl.negotiationReady
  stopped : w.ctl.finished = true → w.ctl.statsRunning = false

/-- The fields `Repeating` speaks of. -/
structure SameStats (w w' : World) : Prop where
  finished : w'.ctl.finished = w.ctl.finished
  running : w'.ctl.statsRunning = w.ctl.statsRunning
  ready : w'.ctl.negotiationReady = w.ctl.negotiationReady

theorem Repeating.frame {p p' : Phase} {w w' : World} (h : Repeating p w) (hs : SameStats w w')
    (hload : (load p' w').count .stats = (load p w).count .stats) : Repeating p' w' := by
  refine ⟨?_, ?_, ?_, ?_⟩
  · rw [hload]
    exact h.few
  · rw [hload, hs.finished, hs.running]
    exact h.going
  · rw [hs.finished, hs.running, hs.ready]
    exact h.started
  · rw [hs.finished, hs.running]
    exact h.stopped

theorem repeating_init : Repeating .idle initial where
  few := by decide
  going _ := by decide
  started _ := rfl
  stopped h := by cases h

theorem repeating_move {p p' : Phase} {w w' : World} (h : Repeating p w)
    (hm : Move env p w p' w') : Repeating p' w' := by
  cases hm with
  | @ignore _ t r hi =>
      by_cases ht : t = .stats
      · -- a stopped task goes, and it was not counted on
        subst ht
        have hcons : (load (.run .stats r) w).count .stats = w.pending.count .stats + 1 :=
          List.count_cons_self
        have hfew := h.few
        have hstopped : w.ctl.statsRunning = false := hi
        refine ⟨?_, fun hf => ?_, h.started, h.stopped⟩
        · show w.pending.count .stats ≤ 1
          omega
        · have hgoing := h.going hf
          rw [hcons, hstopped, if_neg Bool.false_ne_true] at hgoing
          omega
      · refine h.frame ⟨rfl, rfl, rfl⟩ ?_
        simp [load, ht]
  | @registered _ r hf =>
      have hgoing := h.going hf
      have hfew := h.few
      have hload : (load (.run .registerComplete r) w).count .stats = w.pending.count .stats :=
        List.count_cons_of_ne (by decide)
      rw [hload] at hgoing
      have hone : (load .pump (grow w { w.ctl with negotiationReady := true, statsRunning := true }
          w.peer (if w.ctl.statsRunning then [] else [.stats]) [.registered])).count .stats
            = 1 := by
        cases hrunning : w.ctl.statsRunning with
        | true =>
            rw [hrunning, if_pos rfl] at hgoing
            simpa [load] using hgoing
        | false =>
            rw [hrunning, if_neg Bool.false_ne_true] at hgoing
            simpa [load] using hgoing
      exact ⟨Nat.le_of_eq hone, fun _ => hone, fun _ => rfl,
        fun hc => Bool.noConfusion (hf.symm.trans hc)⟩
  | byeStarted hf hj | ended hf hr =>
      refine ⟨?_, (fun hc => by cases hc), (fun hc => by cases hc), fun _ => rfl⟩
      have hfew := h.few
      simpa [load] using hfew
  | fail ht =>
      refine h.frame ⟨rfl, rfl, rfl⟩ ?_
      refine (List.count_cons_of_ne ?_).symm
      intro heq
      subst heq
      cases ht
  | byeSent =>
      refine h.frame ⟨rfl, rfl, rfl⟩ ?_
      simp [load]
  | established =>
      refine h.frame ⟨rfl, rfl, rfl⟩ ?_
      simp [load, List.count_cons]
  | stats =>
      -- it goes, and comes back
      refine h.frame ⟨rfl, rfl, rfl⟩ ?_
      simp [load]
  | _ =>
      refine h.frame ⟨rfl, rfl, rfl⟩ ?_
      simp [load, World.pending]

theorem repeating_enter {p : Phase} {w w' : World} {l : Label} (h : Repeating .idle w)
    (he : Enter w l p w') : Repeating p w' := by
  cases he with
  | post hi => exact h.frame ⟨rfl, rfl, rfl⟩ ((load_post hi).count_eq _)
  | @event t hr =>
      refine h.frame ⟨rfl, rfl, rfl⟩ ?_
      -- nobody else posts it
      have hne : t ≠ .stats := by
        intro heq
        subst heq
        cases hr
      simp only [load, World.pending, List.count_append, List.count_singleton]
      rw [if_neg (by simpa using hne)]
      omega
  | run hq => exact h.frame ⟨rfl, rfl, rfl⟩ (by rw [load_run hq])
  | destroy =>
      refine h.frame ⟨rfl, rfl, rfl⟩ ?_
      simp [load, World.pending]

theorem repeating_visited {p : Phase} {w : World} (h : Visited env p w) : Repeating p w :=
  h.invariant (I := Repeating) repeating_init (fun _ _ _ _ _ hb he => repeating_enter hb he)
    (fun _ _ _ _ _ hb hm => repeating_move hb hm)

/--
**One statistics task**: never two are outstanding; until the call is over there is one from
the registration on and none before it; and one that is left over does nothing.
-/
theorem one_stats_task {w : World} (h : Reached env w) :
    w.pending.count .stats ≤ 1
      ∧ (w.ctl.finished = false →
        w.pending.count .stats = if w.ctl.negotiationReady then 1 else 0)
      ∧ (w.ctl.finished = true → ∀ rest,
        runTask env { w with queue := rest } .stats .none = some { w with queue := rest }) := by
  have hr := repeating_visited (reached_visited h)
  refine ⟨hr.few, fun hf => ?_, fun hf rest => ?_⟩
  · have hgoing := hr.going hf
    rwa [hr.started hf] at hgoing
  · simp [runTask, onStats, hr.stopped hf]

/-- A call that was registered: the task is outstanding, beside the startup timer. -/
theorem one_stats_task_joined :
    (after (.smooth []) (joinLabels {})).ctl.negotiationReady = true
      ∧ (after (.smooth []) (joinLabels {})).pending.count .stats = 1 := by
  have hreached : Reached (.smooth []) (after (.smooth []) (joinLabels {})) :=
    reached_after (.smooth []) rfl
  exact ⟨rfl, (one_stats_task hreached).2.1 rfl⟩

/-! ## It comes round -/

/-- The step at a time asks the connection for its statistics, and posts the task again. -/
def SamplesAt (w w' : World) : Prop :=
  ∃ rest, w.queue = .stats :: rest
    ∧ w' = (World.deref { w with queue := rest } .connection).start .stats
    ∧ w.peer.connection = true

/-- In a registered call the task is outstanding. -/
theorem stats_outstanding {w : World} (h : Reached env w) (hf : w.ctl.finished = false)
    (hready : w.ctl.negotiationReady = true) : .stats ∈ w.pending := by
  have hr := repeating_visited (reached_visited h)
  have hone := hr.going hf
  rw [hr.started hf, hready, if_pos rfl] at hone
  exact List.count_pos_iff.mp (Nat.lt_of_lt_of_eq Nat.zero_lt_one hone.symm)

/-- **The task samples the connection** whenever it is run before the end of the call. -/
theorem stats_samples {w w' : World} (h : Reached env w) (hf : w.ctl.finished = false)
    (hrun : RunsTask env .stats w w') : SamplesAt w w' := by
  obtain ⟨r, rest, hq, hrun⟩ := hrun
  have hr := repeating_visited (reached_visited h)
  have hrunning : w.ctl.statsRunning = true := by
    by_contra hstopped
    -- there would be no such task to run
    have hnone := hr.going hf
    rw [if_neg hstopped] at hnone
    have hmem : .stats ∈ load .idle w := by simp [load, World.pending, hq]
    exact List.count_eq_zero.mp hnone hmem
  have hb := base_visited (reached_visited h)
  have hconnection := (hb.alive hf rfl (hb.ready ((hr.started hf).symm.trans hrunning))).1
  refine ⟨rest, hq, ?_, hconnection⟩
  cases r with
  | none =>
      injection hrun with hrun
      rw [← hrun]
      simp [onStats, logStats, hrunning, hf, hconnection]
  | _ => cases hrun

/--
**The statistics recur**: in every execution of a whole client whose threads go on, the task
that is outstanding in a registered call runs again, unless the controller goes before; and
whenever it runs in a call that is not over, it asks a live connection for its statistics
and is posted anew.
-/
theorem stats_recur {x : Execution (Endpoint.step env) {}} (hx : Scheduled x) :
    (∀ n, (x.state n).world.ctl.negotiationReady = true →
      (x.state n).world.ctl.finished = false → ∃ m, n ≤ m
        ∧ ((x.state m).world.destroyed = true
          ∨ RunsTask env .stats (x.state m).world (x.state (m + 1)).world))
    ∧ ∀ m, (x.state m).world.ctl.finished = false →
      RunsTask env .stats (x.state m).world (x.state (m + 1)).world →
        SamplesAt (x.state m).world (x.state (m + 1)).world := by
  constructor
  · intro n hready hf
    exact hx.served.runs n _ (stats_outstanding (hx.served.reached n) hf hready)
  · intro m hf hrun
    exact stats_samples (hx.served.reached m) hf hrun

/-- The lonely client, with a look at the connection between its registration and its end. -/
def sampledLabels : List EndpointLabel :=
  lonelyLabels.take 11 ++ [.call (.post 1), .call (.run .none)] ++ lonelyLabels.drop 11

theorem sampledLabels_exec :
    (exec (Endpoint.step (.smooth [])) {} sampledLabels).isSome = true := by decide

def sampled : Execution (Endpoint.step (.smooth [])) {} :=
  Execution.ofLabels sampledLabels sampledLabels_exec

theorem sampled_scheduled : Scheduled sampled :=
  scheduled_ofLabels (by decide) (by decide) (by decide) rfl rfl rfl

theorem sampled_alive (n : ℕ) : (sampled.state n).world.destroyed = false :=
  Execution.ofLabels_forall (P := fun e => e.world.destroyed = false) sampledLabels_exec
    (by decide) n

/-- It samples the connection in its thirteenth step, and the task runs once more after that. -/
theorem stats_recur_sampled :
    SamplesAt (sampled.state 12).world (sampled.state 13).world
      ∧ ∃ m, 13 ≤ m
        ∧ RunsTask (.smooth []) .stats (sampled.state m).world (sampled.state (m + 1)).world := by
  obtain ⟨hagain, hsamples⟩ := stats_recur sampled_scheduled
  constructor
  · exact hsamples 12 (by decide) ⟨.none, _, rfl, rfl⟩
  · obtain ⟨m, hm, hd | hrun⟩ := hagain 13 (by decide) (by decide)
    · rw [sampled_alive m] at hd
      cases hd
    · exact ⟨m, hm, hrun⟩

end ApprtcCli.Proof
