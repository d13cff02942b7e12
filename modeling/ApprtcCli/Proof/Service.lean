import ApprtcCli.Proof.Ending
import ApprtcCli.Proof.Linked

/-!
# Every client ends

That every call ends (`call_ends`) takes it for granted that whatever the controller waits
for completes in the end. Part of that is the signaling client's own business: what the
controller asks of it is done on a thread that has other things to do as well, one after
the other, and that stops and starts a socket in between.

Here only that thread has to go on, as the signaling thread has to, and the rest is the
client's. Its work is an agenda of steps, each with the callback that is told when it is
done; a turn takes some from the front, calls add some at the end. So whoever waits is told,
and the call of a client ends whatever becomes of its socket (`client_ends`).
-/

namespace ApprtcCli.Proof

open Lib Call Network

/-! ## The agenda of the network thread -/

section Agenda

variable {κ : Type} {J : JsonCpp}

/-- The turns that a stage takes, each with the callback that is told in it. -/
def stageSteps : Stage κ → List (Option κ)
  | .stopToConnect => [none, none]
  | .start => [none]
  | .writeRegister _ callback => [some callback]
  | .writeSend _ callback => [some callback]
  | .stopToClose => [none]

/-- The turns that a task takes, if nothing lets it end early. -/
def taskSteps : NetworkTask κ → List (Option κ)
  | .connectWebSocket _ => [none, none, none]
  | .register _ callback => [none, some callback]
  | .sendToRoom callback => [some callback]
  | .sendWebSocketMessage _ callback => [none, some callback]
  | .close _ => [none, none]

/-- What the network thread has to do. -/
def agenda (n : Network κ) : List (Option κ) :=
  n.stage.elim [] stageSteps ++ n.tasks.flatMap taskSteps

theorem mem_agenda {n : Network κ} {callback : κ} (h : callback ∈ owes n) :
    some callback ∈ agenda n := by
  rcases List.mem_append.mp h with h | h
  · refine List.mem_append_left _ ?_
    cases hs : n.stage with
    | none => simp [hs] at h
    | some stage =>
        rw [hs] at h
        cases stage <;> simp_all [stageCallback, stageSteps]
  · obtain ⟨task, hmem, hc⟩ := List.mem_filterMap.mp h
    refine List.mem_append_right _ (List.mem_flatMap.mpr ⟨task, hmem, ?_⟩)
    cases task <;> simp_all [callbackOf, taskSteps]

/-- There is something to do. -/
def hasWork (n : Network κ) : Bool := n.stage.isSome || !n.tasks.isEmpty

theorem hasWork_of_agenda {n : Network κ} (h : agenda n ≠ []) : hasWork n = true := by
  by_contra hidle
  simp only [hasWork, Bool.or_eq_true, not_or, Bool.not_eq_true, Option.isSome_eq_false_iff,
    Option.isNone_iff_eq_none, Bool.not_eq_false', List.isEmpty_iff] at hidle
  rw [agenda, hidle.1, hidle.2] at h
  exact h rfl

/-- These steps were taken off the agenda, and whoever waited for them was told. -/
structure Done (n n' : Network κ) (front : List (Option κ)) : Prop where
  agenda : Proof.agenda n = front ++ Proof.agenda n'
  nonempty : front ≠ []
  told : ∀ callback, some callback ∈ front → ∃ status, .completion callback status ∈ n'.outbox

theorem done_begin {n : Network κ} {task : NetworkTask κ} {rest : List (NetworkTask κ)}
    (answer : Status) (hs : n.stage = none) (ht : n.tasks = task :: rest) :
    ∃ front, Done n (begin answer { n with tasks := rest } task) front := by
  have hagenda : agenda n = taskSteps task ++ rest.flatMap taskSteps := by
    rw [agenda, hs, ht]
    rfl
  have hstill : agenda ({ n with tasks := rest } : Network κ) = rest.flatMap taskSteps := by
    rw [agenda, hs]
    rfl
  cases task with
  | connectWebSocket joinResponse | close joinResponse =>
      exact ⟨[none], hagenda, by simp, by simp⟩
  | sendToRoom callback =>
      refine ⟨[some callback], hagenda.trans (congrArg _ hstill.symm), by simp, ?_⟩
      intro callback' hmem
      cases List.mem_singleton.mp hmem
      exact ⟨answer, List.mem_append_right _ (List.mem_singleton_self _)⟩
  | register joinResponse callback | sendWebSocketMessage messageJson callback =>
      unfold begin
      dsimp only
      split
      · -- a task that is refused takes no second step
        refine ⟨[none, some callback], hagenda.trans (congrArg _ hstill.symm), by simp, ?_⟩
        intro callback' hmem
        obtain rfl : callback' = callback := by simpa using hmem
        exact ⟨_, List.mem_append_right _ (List.mem_singleton_self _)⟩
      · exact ⟨[none], hagenda, by simp, by simp⟩

theorem done_write {n : Network κ} {stage : Stage κ} {callback : κ} (frame : Frame)
    (failure : Text) (answer : Status) (hs : n.stage = some stage)
    (hsteps : stageSteps stage = [some callback]) :
    ∃ front, Done n (writeAndComplete J frame failure callback answer { n with stage := none })
      front := by
  have hagenda : agenda n = [some callback] ++ n.tasks.flatMap taskSteps := by
    rw [agenda, hs, Option.elim_some, hsteps]
  refine ⟨[some callback], ?_⟩
  rcases write_cases (J := J) frame failure callback answer { n with stage := none } with
    ⟨_, _, heq⟩ | ⟨_, heq⟩
  all_goals
    rw [heq]
    refine ⟨hagenda, by simp, fun callback' hmem => ?_⟩
    cases List.mem_singleton.mp hmem
    exact ⟨_, List.mem_append_right _ (List.mem_singleton_self _)⟩

theorem done_resume {n n' : Network κ} {stage : Stage κ} {answer : Status}
    (hs : n.stage = some stage) (h : resume J answer n stage = some n') :
    ∃ front, Done n n' front := by
  have hagenda : agenda n = stageSteps stage ++ n.tasks.flatMap taskSteps := by
    rw [agenda, hs]
    rfl
  cases stage with
  | stopToConnect | stopToClose =>
      obtain ⟨n₁, hstop, h⟩ := Option.bind_eq_some_iff.mp h
      cases h
      have htasks : n₁.tasks = n.tasks := (stop_heard hstop).1.tasks
      refine ⟨[none], ?_, by simp, by simp⟩
      rw [hagenda, ← htasks]
      rfl
  | start =>
      cases h
      exact ⟨[none], hagenda, by simp, by simp⟩
  | writeRegister joinResponse callback | writeSend messageJson callback =>
      cases h
      exact done_write _ _ answer hs rfl

/-- **A turn of the network thread** does at least one step of its agenda. -/
theorem done_run {n n' : Network κ} {answer : Status} (h : run J answer n = some n') :
    ∃ front, Done n n' front := by
  simp only [run] at h
  split at h
  · rename_i stage hs
    exact done_resume hs h
  · rename_i hs
    split at h
    · cases h
    · rename_i task rest ht
      cases h
      exact done_begin answer hs ht

/-- The socket has no say in what is to be done. -/
theorem agenda_kept {n n' : Network κ} {l : NetworkLabel κ} (hcall : ∀ task, l ≠ .call task)
    (hrun : ∀ answer, l ≠ .run answer) (h : Network.step J n l = some n') :
    agenda n' = agenda n := by
  cases l with
  | call task => exact absurd rfl (hcall task)
  | run answer => exact absurd rfl (hrun answer)
  | «open» | lose | fail reason =>
      simp only [Network.step] at h
      split at h
      · cases h
        rfl
      · cases h
  | receive event =>
      simp only [Network.step] at h
      split at h
      · split at h
        · cases h
          rfl
        · cases h
      · split at h
        · cases h
          rfl
        · cases h
      · cases h
  | handle =>
      simp only [Network.step] at h
      split at h
      · cases h
      · have hheard := handle_heard h
        rw [agenda, agenda, hheard.stage, hheard.tasks]

theorem agenda_posted (calls : List (NetworkTask κ)) (n : Network κ) :
    agenda (calls.foldl post n) = agenda n ++ calls.flatMap taskSteps := by
  induction calls generalizing n with
  | nil => exact (List.append_nil _).symm
  | cons task calls ih =>
      rw [List.foldl_cons, ih, agenda, post, List.flatMap_append, ← List.append_assoc]
      simp [agenda]

end Agenda

variable {env : Env}

/-! ## Who waits is owed -/

/-- What the controller waits for, the network thread owes, as long as there is a controller. -/
def Awaited (e : Endpoint) : Prop :=
  e.world.destroyed = false →
    ∀ t, t.isNetworkDone = true → e.world.ops.count t = (owes e.net).count t

theorem not_destroyed {w w' : World} {l : Label} (hs : Call.step env w l = some w') :
    w.destroyed = false := by
  cases hd : w.destroyed with
  | false => rfl
  | true => simp [Call.step, hd] at hs

/-- A step of the signaling thread that runs no task. -/
theorem Awaited.idle {e e' : Endpoint} {l : Label} (hr : Reached env e.world) (h : Awaited e)
    (hs : Endpoint.advance env e l = some e') (hown : Endpoint.isOwn e.world l = true)
    (hl : ∀ r, l ≠ .run r) : Awaited e' := by
  obtain ⟨w', hw, rfl⟩ := endpoint_advance_eq hs
  have hstep := (restrict_eq_some.mp hw).2
  have hb := base_visited (reached_visited hr)
  have hnow := h (not_destroyed hstep)
  rw [clientCalls_idle hr hstep hl]
  intro hd t ht
  refine Eq.trans ?_ (hnow t ht)
  cases l with
  | post i =>
      obtain ⟨t', hi, rfl⟩ := post_eq hb hstep
      refine count_post hi fun heq => ?_
      have hother : t'.isNetworkDone = false := by simpa [Endpoint.isOwn, hi] using hown
      rw [heq, ht] at hother
      cases hother
  | event t' =>
      obtain ⟨_, rfl⟩ := event_eq hb hstep
      rfl
  | destroy =>
      obtain ⟨_, rfl⟩ := destroy_eq hb hstep
      simp [grow]
  | run r => exact absurd rfl (hl r)

/-- A task that starts to wait for a completion has made the call. -/
theorem Awaited.run {e e' : Endpoint} {r : Reply} {answers : List (Task × Status)}
    (hr : Reached env e.world) (h : Awaited e)
    (hs : Endpoint.advance env { e with answers := answers } (.run r) = some e') :
    Awaited e' := by
  obtain ⟨w', hw, rfl⟩ := endpoint_advance_eq hs
  have hstep := (restrict_eq_some.mp hw).2
  have hnow := h (not_destroyed hstep)
  obtain ⟨t', rest, started, actions, hq, hgrows, hcalled⟩ := run_asks hr hstep
  have hposts := posts_called hcalled e.net
  intro hd t ht
  show w'.ops.count t = (owes ((clientCalls e.world w').foldl post e.net)).count t
  rw [hgrows.ops, hposts.owes, List.count_append, List.count_append, List.count_filter (by simpa),
    ← hnow t ht]

/-- What is told is not owed any more, and not waited for. -/
theorem Awaited.told {e : Endpoint} {n' : Network Task} {callback : Task} {status : Status}
    (h : Awaited e) (hempty : e.net.outbox = []) (howes : owes e.net = callback :: owes n')
    (hout : n'.outbox = e.net.outbox ++ [.completion callback status]) :
    Awaited (Endpoint.deliver { e with net := n' }) := by
  rw [hempty, List.nil_append] at hout
  rw [deliver_completion hout]
  split
  · rename_i hd
    intro hno
    exact Bool.noConfusion (hd.symm.trans hno)
  · rename_i hd
    intro _ t ht
    have hold := h (by simpa using hd) t ht
    rw [howes, List.count_cons] at hold
    show (e.world.ops.erase callback).count t = (owes n').count t
    rw [List.count_erase, hold]
    simp only [beq_iff_eq]
    omega

theorem awaited_step {e e' : Endpoint} {l : EndpointLabel} (hlinked : Linked env e)
    (h : Awaited e) (hs : Endpoint.step env e l = some e') : Awaited e' := by
  have hr := hlinked.world.of_restrict
  rcases endpoint_step_cases hs with ⟨own, rfl, hown, hs⟩
    | ⟨task, rest, callback, status, answers, rfl, hq, ha, hdone, hs⟩
    | ⟨turn, n', rfl, hturn, hnet, rfl⟩
  · by_cases hl : ∃ r, own = .run r
    · obtain ⟨r, rfl⟩ := hl
      exact h.run hr hs
    · exact h.idle hr hs hown fun r heq => hl ⟨r, heq⟩
  · exact h.run hr hs
  · obtain ⟨-, hcase⟩ := turn_step hturn hnet
    cases hcase with
    | quiet _ howes _ posted =>
        obtain ⟨events, hout, -⟩ := posted
        rw [hlinked.outbox, List.nil_append] at hout
        obtain ⟨heard, -, heq⟩ := deliver_events hout
        rw [heq]
        intro hd t ht
        exact (h hd t ht).trans (congrArg (List.count t) howes.symm)
    | answered _ _ _ howes _ posted => exact h.told hlinked.outbox howes posted
    | registered _ _ _ _ _ howes _ posted => exact h.told hlinked.outbox howes posted
    | sent _ _ _ _ _ howes _ posted => exact h.told hlinked.outbox howes posted

theorem awaited_reachable {e : Endpoint} (h : Reachable (Endpoint.step env) {} e) :
    Linked env e ∧ Awaited e :=
  h.invariant (I := fun e => Linked env e ∧ Awaited e)
    ⟨linked_init, fun _ t ht => by cases t <;> first | rfl | cases ht⟩
    fun _ _ _ _ hi hs => ⟨linked_step hi.1 hs, awaited_step hi.1 hi.2 hs⟩

/-! ## What is delivered -/

/-- The controller does not notice that something is posted to it. -/
theorem deliver_keeps {e : Endpoint} {n : Network Task} :
    (Endpoint.deliver { e with net := n }).world.trace = e.world.trace
      ∧ (Endpoint.deliver { e with net := n }).world.ctl = e.world.ctl
      ∧ (Endpoint.deliver { e with net := n }).net = { n with outbox := [] } := by
  have hfold : ∀ (posted : List (Posted Task)) (e : Endpoint),
      (posted.foldl Endpoint.postToCallbackThread e).world.trace = e.world.trace
        ∧ (posted.foldl Endpoint.postToCallbackThread e).world.ctl = e.world.ctl
        ∧ (posted.foldl Endpoint.postToCallbackThread e).net = e.net := by
    intro posted
    induction posted with
    | nil => exact fun _ => ⟨rfl, rfl, rfl⟩
    | cons p posted ih =>
        intro e
        rw [List.foldl_cons]
        obtain ⟨htrace, hctl, hnet⟩ := ih (Endpoint.postToCallbackThread e p)
        rw [htrace, hctl, hnet]
        cases p <;> exact ⟨rfl, rfl, rfl⟩
  unfold Endpoint.deliver
  split
  · exact ⟨rfl, rfl, rfl⟩
  · exact hfold _ _

/-- Everything that is posted to a controller comes into its queue. -/
theorem deliver_queue {e : Endpoint} {n : Network Task} :
    ∃ more, (Endpoint.deliver { e with net := n }).world.queue = e.world.queue ++ more
      ∧ (e.world.destroyed = false → ∀ callback status,
        .completion callback status ∈ n.outbox → callback ∈ more) := by
  have hfold : ∀ (posted : List (Posted Task)) (e : Endpoint), ∃ more,
      (posted.foldl Endpoint.postToCallbackThread e).world.queue = e.world.queue ++ more
        ∧ ∀ callback status, .completion callback status ∈ posted → callback ∈ more := by
    intro posted
    induction posted with
    | nil => exact fun _ => ⟨[], (List.append_nil _).symm, by simp⟩
    | cons p posted ih =>
        intro e
        obtain ⟨more, hqueue, hmore⟩ := ih (Endpoint.postToCallbackThread e p)
        rw [List.foldl_cons, hqueue]
        cases p with
        | event event =>
            exact ⟨.signaling event :: more, List.append_assoc .., fun callback status hmem =>
              List.mem_cons_of_mem _ (hmore callback status (by simpa using hmem))⟩
        | completion callback status =>
            refine ⟨callback :: more, List.append_assoc .., fun callback' status' hmem => ?_⟩
            rcases List.mem_cons.mp hmem with heq | hmem
            · cases heq
              exact List.mem_cons_self ..
            · exact List.mem_cons_of_mem _ (hmore callback' status' hmem)
  unfold Endpoint.deliver
  split
  · rename_i hd
    exact ⟨[], (List.append_nil _).symm, fun hno => Bool.noConfusion (hd.symm.trans hno)⟩
  · obtain ⟨more, hqueue, hmore⟩ := hfold n.outbox { e with net := { n with outbox := [] } }
    exact ⟨more, hqueue, fun _ => hmore⟩

theorem exec_events (events : List SignalingEvent) {w : World}
    (hlive : events ≠ [] → w.webSocketStarted = true ∧ w.destroyed = false) :
    exec (Call.step env) w (events.map fun event => .event (.signaling event))
      = some { w with queue := w.queue ++ events.map .signaling } := by
  induction events generalizing w with
  | nil => simp [exec]
  | cons event events ih =>
      obtain ⟨hweb, hd⟩ := hlive (by simp)
      have hstep : Call.step env w (.event (.signaling event))
          = some { w with queue := w.queue ++ [.signaling event] } := by
        simp [Call.step, canRaise, hweb, hd]
      have hrest := ih (w := { w with queue := w.queue ++ [.signaling event] })
        fun _ => ⟨hweb, hd⟩
      rw [List.map_cons, exec, hstep, Option.bind_some, hrest]
      simp

/-- A completion that is told is a step of the call. -/
theorem told_goes {e : Endpoint} {n' : Network Task} {callback : Task} {status : Status}
    (h : Linked env e) (howes : owes e.net = callback :: owes n')
    (hout : n'.outbox = e.net.outbox ++ [.completion callback status]) :
    ∃ labels, exec (Call.step env) e.world labels
      = some (Endpoint.deliver { e with net := n' }).world := by
  rw [h.outbox, List.nil_append] at hout
  rw [deliver_completion hout]
  split
  · exact ⟨[], rfl⟩
  · rename_i hd
    have hmem : callback ∈ e.world.ops := by
      have howed := h.serving.owed callback
      rw [howes, List.count_cons_self] at howed
      exact List.count_pos_iff.mp (by omega)
    have hi : e.world.ops[e.world.ops.idxOf callback]? = some callback := by
      rw [List.getElem?_eq_getElem (List.idxOf_lt_length_of_mem hmem), List.getElem_idxOf]
    refine ⟨[.post (e.world.ops.idxOf callback)], ?_⟩
    rw [List.erase_eq_eraseIdx_of_idxOf rfl]
    simp [exec, Call.step, hd, hi]

/-- **A step of an endpoint** is some steps of its call. -/
theorem endpoint_goes {e e' : Endpoint} {l : EndpointLabel} (h : Linked env e)
    (hs : Endpoint.step env e l = some e') :
    ∃ labels, exec (Call.step env) e.world labels = some e'.world := by
  rcases endpoint_step_cases hs with ⟨own, rfl, _, hs⟩
    | ⟨task, rest, callback, status, answers, rfl, _, _, _, hs⟩
    | ⟨turn, n', rfl, hturn, hnet, rfl⟩
  · obtain ⟨w', hw, rfl⟩ := endpoint_advance_eq hs
    exact ⟨[own], by rw [exec, (restrict_eq_some.mp hw).2]; rfl⟩
  · obtain ⟨w', hw, rfl⟩ := endpoint_advance_eq hs
    exact ⟨[.run (.status status)], by rw [exec, (restrict_eq_some.mp hw).2]; rfl⟩
  · obtain ⟨-, hcase⟩ := turn_step hturn hnet
    cases hcase with
    | quiet _ _ _ posted =>
        obtain ⟨events, hout, hlive⟩ := posted
        rw [h.outbox, List.nil_append] at hout
        obtain ⟨heard, hheard, heq⟩ := deliver_events hout
        rw [heq]
        refine ⟨_, exec_events heard fun hne => ?_⟩
        obtain ⟨hevents, hd⟩ := hheard hne
        exact ⟨h.serving.involved (hlive hevents), hd⟩
    | answered _ _ _ howes _ posted => exact told_goes h howes posted
    | registered _ _ _ _ _ howes _ posted => exact told_goes h howes posted
    | sent _ _ _ _ _ howes _ posted => exact told_goes h howes posted

/--
**The client refines the call**: whatever its network thread and its socket do, the world of
its controller is one the call comes to, and each step of the client is some steps of the
call. So what holds of every run of the call holds of the client.
-/
theorem client_refines {e : Endpoint} (h : Reachable (Endpoint.step env) {} e) :
    Reached env e.world ∧ ∀ l e', Endpoint.step env e l = some e' →
      ∃ labels, exec (Call.step env) e.world labels = some e'.world :=
  ⟨endpoint_reached h, fun _ _ hs => endpoint_goes (awaited_reachable h).1 hs⟩

/-! ## The two queues -/

/-- How many tasks of the signaling thread a step runs. -/
def tasksRunBy : EndpointLabel → ℕ
  | .call l => tasksRun l
  | .complete => 1
  | .net _ => 0

theorem endpoint_queues : Execution.Queues (Endpoint.step env) {} (fun e => e.world.queue)
    fun _ l => tasksRunBy l := by
  intro e l e' h hs
  have hr := endpoint_reached h
  rcases endpoint_step_cases hs with ⟨own, rfl, _, hs⟩
    | ⟨task, rest, callback, status, answers, rfl, _, _, _, hs⟩
    | ⟨turn, n', rfl, _, _, rfl⟩
  · obtain ⟨w', hw, rfl⟩ := endpoint_advance_eq hs
    exact signaling_queues _ own _ hr (restrict_eq_some.mp hw).2
  · obtain ⟨w', hw, rfl⟩ := endpoint_advance_eq hs
    exact signaling_queues _ (.run (.status status)) _ hr (restrict_eq_some.mp hw).2
  · obtain ⟨more, hqueue, -⟩ := deliver_queue (e := e) (n := n')
    exact ⟨more, hqueue⟩

/-- A step that takes a task runs it. -/
theorem endpoint_runs {e e' : Endpoint} {l : EndpointLabel} {t : Task}
    (hs : Endpoint.step env e l = some e') (ht : t ∈ e.world.queue.take (tasksRunBy l)) :
    ∃ r rest, e.world.queue = t :: rest
      ∧ runTask env { e.world with queue := rest } t r = some e'.world := by
  have hrun : ∀ {r w'}, Call.step env e.world (.run r) = some w' →
      t ∈ e.world.queue.take 1 → ∃ r rest, e.world.queue = t :: rest
        ∧ runTask env { e.world with queue := rest } t r = some w' := by
    intro r w' hstep hmem
    obtain ⟨t', rest, hq, hrun⟩ := run_eq hstep
    rw [hq] at hmem
    cases List.mem_singleton.mp (show t ∈ [t'] from hmem)
    exact ⟨r, rest, hq, hrun⟩
  rcases endpoint_step_cases hs with ⟨own, rfl, _, hs⟩
    | ⟨task, rest, callback, status, answers, rfl, _, _, _, hs⟩
    | ⟨turn, n', rfl, _, _, rfl⟩
  · obtain ⟨w', hw, rfl⟩ := endpoint_advance_eq hs
    cases own with
    | run r => exact hrun (restrict_eq_some.mp hw).2 ht
    | _ => cases ht
  · obtain ⟨w', hw, rfl⟩ := endpoint_advance_eq hs
    exact hrun (restrict_eq_some.mp hw).2 ht
  · cases ht

/-- How many steps of the agenda a step does. -/
def agendaTaken (env : Env) (e : Endpoint) : EndpointLabel → ℕ
  | .net (.run answer) =>
      (Network.run env.json answer e.net).elim 0 fun n' =>
        (agenda e.net).length - (agenda n').length
  | _ => 0

/-- A turn of the network thread in an endpoint. -/
theorem agenda_turn {e e' : Endpoint} {answer : Status}
    (hs : Endpoint.step env e (.net (.run answer)) = some e') :
    ∃ n' front, Done e.net n' front ∧ e' = Endpoint.deliver { e with net := n' }
      ∧ agendaTaken env e (.net (.run answer)) = front.length := by
  obtain ⟨n', hnet, h⟩ := Option.bind_eq_some_iff.mp hs
  cases h
  have hrun : Network.run env.json answer e.net = some n' := hnet
  obtain ⟨front, hdone⟩ := done_run hrun
  refine ⟨n', front, hdone, rfl, ?_⟩
  rw [agendaTaken, hrun, Option.elim_some, hdone.agenda, List.length_append]
  omega

theorem agenda_delivered {e : Endpoint} {n : Network Task} :
    agenda (Endpoint.deliver { e with net := n }).net = agenda n := by
  rw [deliver_keeps.2.2]
  rfl

theorem agenda_queues : Execution.Queues (Endpoint.step env) {} (fun e => agenda e.net)
    (agendaTaken env) := by
  intro e l e' h hs
  rcases endpoint_step_cases hs with ⟨own, rfl, _, hs'⟩
    | ⟨task, rest, callback, status, answers, rfl, _, _, _, hs'⟩
    | ⟨turn, n', rfl, hturn, hnet, rfl⟩
  · obtain ⟨w', _, rfl⟩ := endpoint_advance_eq hs'
    exact ⟨_, agenda_posted ..⟩
  · obtain ⟨w', _, rfl⟩ := endpoint_advance_eq hs'
    exact ⟨_, agenda_posted ..⟩
  · by_cases hrun : ∃ answer, turn = .run answer
    · obtain ⟨answer, rfl⟩ := hrun
      obtain ⟨n'', front, hdone, heq, htaken⟩ := agenda_turn hs
      refine ⟨[], ?_⟩
      dsimp only
      rw [heq, agenda_delivered, htaken, hdone.agenda, List.drop_left, List.append_nil]
    · have hnone : agendaTaken env e (.net turn) = 0 := by
        cases turn with
        | run answer => exact absurd ⟨answer, rfl⟩ hrun
        | _ => rfl
      refine ⟨[], ?_⟩
      dsimp only
      rw [agenda_delivered, hnone, List.drop_zero, List.append_nil]
      exact agenda_kept hturn (fun answer heq => hrun ⟨answer, heq⟩) hnet

/-! ## Executions -/

/-- The threads of an execution go on as long as there is a controller. -/
structure Scheduled (x : Execution (Endpoint.step env) {}) : Prop where
  /-- What is not asked of the network thread completes in the end: a timer, WebRTC, the join. -/
  completes : ∀ n t, t ∈ (x.state n).world.ops → t.isNetworkDone = false → ∃ m, n ≤ m
    ∧ ((x.state m).world.destroyed = true
      ∨ ∃ i, x.label m = some (.call (.post i)) ∧ (x.state m).world.ops[i]? = some t)
  /-- Where tasks are posted, the signaling thread runs one in the end. -/
  runs : ∀ n, (x.state n).world.queue ≠ [] → ∃ m, n ≤ m
    ∧ ((x.state m).world.destroyed = true ∨ ∃ l, x.label m = some l ∧ 0 < tasksRunBy l)
  /-- Where the network thread has work, it goes on with it in the end. -/
  works : ∀ n, hasWork (x.state n).net = true → ∃ m, n ≤ m
    ∧ ((x.state m).world.destroyed = true ∨ ∃ answer, x.label m = some (.net (.run answer)))

variable {x : Execution (Endpoint.step env) {}}

/-- A task that is posted runs in the end. -/
theorem Scheduled.runs_posted (hx : Scheduled x) {n : ℕ} {t : Task}
    (ht : t ∈ (x.state n).world.queue) :
    ∃ m, n ≤ m ∧ ((x.state m).world.destroyed = true ∨ ∃ r rest,
      (x.state m).world.queue = t :: rest
        ∧ runTask env { (x.state m).world with queue := rest } t r
          = some (x.state (m + 1)).world) := by
  obtain ⟨m, hnm, hcase⟩ :=
    endpoint_queues.served (fun e => e.world.destroyed = true) hx.runs ht
  refine ⟨m, hnm, hcase.imp id ?_⟩
  intro hserved
  obtain ⟨l, hl, htaken⟩ := hserved
  exact endpoint_runs (x.step_of_label hl) htaken

/-- **Whoever waits for the network thread is told in the end**, whatever the socket does. -/
theorem Scheduled.told (hx : Scheduled x) {n : ℕ} {t : Task}
    (ht : t ∈ (x.state n).world.ops) (hdone : t.isNetworkDone = true) :
    ∃ m, n ≤ m ∧ ((x.state m).world.destroyed = true ∨ t ∈ (x.state m).world.queue) := by
  cases hd : (x.state n).world.destroyed with
  | true => exact ⟨n, Nat.le_refl n, Or.inl hd⟩
  | false =>
      have howed : t ∈ owes (x.state n).net := by
        have hcount := (awaited_reachable (x.reachable n)).2 hd t hdone
        exact List.count_pos_iff.mp (hcount ▸ List.count_pos_iff.mpr ht)
      have hagain : ∀ k, agenda (x.state k).net ≠ [] → ∃ m, k ≤ m
          ∧ ((x.state m).world.destroyed = true
            ∨ ∃ l, x.label m = some l ∧ 0 < agendaTaken env (x.state m) l) := by
        intro k hk
        obtain ⟨m, hkm, hcase⟩ := hx.works k (hasWork_of_agenda hk)
        refine ⟨m, hkm, hcase.imp id ?_⟩
        intro hanswer
        obtain ⟨answer, hl⟩ := hanswer
        obtain ⟨n', front, hfront, -, htaken⟩ := agenda_turn (x.step_of_label hl)
        exact ⟨_, hl, htaken ▸ List.length_pos_iff.mpr hfront.nonempty⟩
      obtain ⟨m, hnm, hd' | ⟨l, hl, hmem⟩⟩ :=
        agenda_queues.served (fun e => e.world.destroyed = true) hagain (mem_agenda howed)
      · exact ⟨m, hnm, Or.inl hd'⟩
      cases hd' : (x.state m).world.destroyed with
      | true => exact ⟨m, hnm, Or.inl hd'⟩
      | false =>
          -- the turn that takes the step tells, and there is a controller to be told
          have hturn : ∃ answer, l = .net (.run answer) := by
            cases l with
            | net turn =>
                cases turn with
                | run answer => exact ⟨answer, rfl⟩
                | _ => cases hmem
            | _ => cases hmem
          obtain ⟨answer, rfl⟩ := hturn
          obtain ⟨n', front, hfront, heq, htaken⟩ := agenda_turn (x.step_of_label hl)
          dsimp only at hmem
          rw [htaken, hfront.agenda, List.take_left] at hmem
          obtain ⟨status, hstatus⟩ := hfront.told t hmem
          obtain ⟨more, hqueue, hmore⟩ := deliver_queue (e := x.state m) (n := n')
          refine ⟨m + 1, by omega, Or.inr ?_⟩
          rw [heq, hqueue]
          exact List.mem_append_right _ (hmore hd' t status hstatus)

/-- The call of a client is served. -/
theorem Scheduled.served (hx : Scheduled x) : Served env x Endpoint.world where
  starts := rfl
  goes e l e' h hs := endpoint_goes (awaited_reachable h).1 hs
  runs n t ht := by
    have hlater : ∀ {k}, n ≤ k → t ∈ (x.state k).world.queue → ∃ m, n ≤ m
        ∧ ((x.state m).world.destroyed = true ∨ ∃ r rest, (x.state m).world.queue = t :: rest
          ∧ runTask env { (x.state m).world with queue := rest } t r
            = some (x.state (m + 1)).world) := by
      intro k hnk hmem
      obtain ⟨m, hkm, hcase⟩ := hx.runs_posted hmem
      exact ⟨m, by omega, hcase⟩
    rcases List.mem_append.mp ht with hmem | hmem
    · exact hlater (Nat.le_refl n) hmem
    cases hdone : t.isNetworkDone with
    | true =>
        obtain ⟨m, hnm, hd | hmem'⟩ := hx.told hmem hdone
        · exact ⟨m, hnm, Or.inl hd⟩
        · exact hlater hnm hmem'
    | false =>
        obtain ⟨m, hnm, hd | ⟨i, hl, hi⟩⟩ := hx.completes n t hmem hdone
        · exact ⟨m, hnm, Or.inl hd⟩
        · -- the step that posts it leaves it in the queue
          refine hlater (k := m + 1) (by omega) ?_
          rcases endpoint_step_cases (x.step_of_label hl) with ⟨own, heq, _, hs⟩
            | ⟨_, _, _, _, _, heq, _⟩ | ⟨_, _, heq, _⟩
          · cases heq
            obtain ⟨w', hw, hs⟩ := endpoint_advance_eq hs
            obtain ⟨t', hi', hpost⟩ :=
              post_eq (base_visited (reached_visited (endpoint_reached (x.reachable m))))
                (restrict_eq_some.mp hw).2
            rw [hi] at hi'
            cases hi'
            rw [hs, hpost]
            simp
          · cases heq
          · cases heq

section Finite

variable {labels : List EndpointLabel}
  {h : (exec (Endpoint.step env) {} labels).isSome = true}

/-- Whether the step at a time posts this task, whether it runs one, whether it is a turn. -/
def postsIn (labels : List EndpointLabel) (e : Endpoint) (t : Task) (m : ℕ) : Bool :=
  match labels[m]? with
  | some (.call (.post i)) => e.world.ops[i]? == some t
  | _ => false

def runsIn (labels : List EndpointLabel) (m : ℕ) : Bool :=
  labels[m]?.any fun l => 0 < tasksRunBy l

def turnsIn (labels : List EndpointLabel) (m : ℕ) : Bool :=
  match labels[m]? with
  | some (.net (.run _)) => true
  | _ => false

/-- Everything that is outstanding at some time is dealt with by the end. -/
theorem scheduled_ofLabels
    (hposts : ∀ n < labels.length, ∀ t ∈ ((Execution.ofLabels labels h).state n).world.ops,
      t.isNetworkDone = false → ∃ m < labels.length, n ≤ m
        ∧ postsIn labels ((Execution.ofLabels labels h).state m) t m = true)
    (hruns : ∀ n < labels.length, ((Execution.ofLabels labels h).state n).world.queue ≠ [] →
      ∃ m < labels.length, n ≤ m ∧ runsIn labels m = true)
    (hturns : ∀ n < labels.length, hasWork ((Execution.ofLabels labels h).state n).net = true →
      ∃ m < labels.length, n ≤ m ∧ turnsIn labels m = true)
    (hops : ((Execution.ofLabels labels h).state labels.length).world.ops = [])
    (hqueue : ((Execution.ofLabels labels h).state labels.length).world.queue = [])
    (hwork : hasWork ((Execution.ofLabels labels h).state labels.length).net = false) :
    Scheduled (Execution.ofLabels labels h) where
  completes n t ht hdone := by
    by_cases hn : n < labels.length
    · obtain ⟨m, _, hnm, hm⟩ := hposts n hn t ht hdone
      refine ⟨m, hnm, Or.inr ?_⟩
      unfold postsIn at hm
      split at hm
      · rename_i i hl
        exact ⟨i, hl, by simpa using hm⟩
      · cases hm
    · rw [Execution.ofLabels_end h (Nat.not_lt.mp hn), hops] at ht
      cases ht
  runs n hne := by
    by_cases hn : n < labels.length
    · obtain ⟨m, _, hnm, hm⟩ := hruns n hn hne
      obtain ⟨l, hl, hpos⟩ := (Option.any_eq_true ..).mp hm
      exact ⟨m, hnm, Or.inr ⟨l, hl, by simpa using hpos⟩⟩
    · rw [Execution.ofLabels_end h (Nat.not_lt.mp hn), hqueue] at hne
      exact absurd rfl hne
  works n hhas := by
    by_cases hn : n < labels.length
    · obtain ⟨m, _, hnm, hm⟩ := hturns n hn hhas
      refine ⟨m, hnm, Or.inr ?_⟩
      unfold turnsIn at hm
      split at hm
      · rename_i answer hl
        exact ⟨answer, hl⟩
      · cases hm
    · rw [Execution.ofLabels_end h (Nat.not_lt.mp hn), hwork] at hhas
      cases hhas

end Finite

/-- A client that nobody calls: it connects and registers, and closes when its time is up. -/
def lonelyLabels : List EndpointLabel :=
  [.call (.post 1), .call (.run (.join (.ok { pcConfigJson := "pc_config" }))),
    .net (.run okStatus), .net (.run okStatus), .net (.run okStatus), .net .open, .net .handle,
    .call (.run .none), .net (.run okStatus), .net (.run okStatus), .complete,
    .call (.post 0), .call (.run .none), .net (.run okStatus), .net (.run okStatus),
    .call (.post 0), .call (.run .none)]

theorem lonely_exec : (exec (Endpoint.step (.smooth [])) {} lonelyLabels).isSome = true := by
  decide

def lonely : Execution (Endpoint.step (.smooth [])) {} :=
  Execution.ofLabels lonelyLabels lonely_exec

/-- It has come to a world of the call in which the thread has quit, by steps of the call. -/
theorem client_refines_lonely :
    Reachable (Endpoint.step (.smooth [])) {} (lonely.state 17)
      ∧ Reached (.smooth []) (lonely.state 17).world ∧ (lonely.state 17).world.quit = true
      ∧ ∃ labels, exec (Call.step (.smooth [])) (lonely.state 10).world labels
        = some (lonely.state 11).world := by
  have hstep := lonely.step_of_label (n := 10) (e := .complete) rfl
  exact ⟨lonely.reachable 17, (client_refines (lonely.reachable 17)).1, by decide,
    (client_refines (lonely.reachable 10)).2 _ _ hstep⟩

end ApprtcCli.Proof
