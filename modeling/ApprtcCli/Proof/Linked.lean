import ApprtcCli.Proof.Turns
import ApprtcCli.Proof.Asking
import ApprtcCli.Proof.Ready

/-!
# The client and its network thread

What the two halves of an `Endpoint` may rely on. Seen from either side, the other is
one of the things its model allows: the world of an endpoint is a world of the call
(`Linked.world`), because what the network thread owes is among the operations that
world waits for.

A registration that succeeded left its frame in the log, and the status it was told is
what makes the controller ready; so a controller that is ready has a frame to show.
-/

namespace ApprtcCli.Proof

open Lib Call Network

variable {env : Env}

/-- The connection a 'register' frame was written to. -/
def registeredOn : SocketAction → Option Nat
  | .written connection (.register _ _) _ => some connection
  | _ => none

/-- The connections that got a 'register' frame, in order. -/
def registrations (log : List SocketAction) : List Nat := log.filterMap registeredOn

/-- A 'register' frame of the log. -/
def RegisterIn (log : List SocketAction) (connection : Nat) (roomId clientId : Text) : Prop :=
  ∃ text, .written connection (.register roomId clientId) text ∈ log

/-- What the log of the network thread says of the controller. -/
structure Logged (e : Endpoint) : Prop where
  /-- A registration that was told it succeeded, and has not been heard yet. -/
  answered : (.registerComplete, okStatus) ∈ e.answers → registrations e.net.log ≠ []
  ready : e.world.ctl.negotiationReady = true → registrations e.net.log ≠ []
  opened : ∀ connection ∈ registrations e.net.log, connection ≤ e.net.socket.opened
  latest : ∀ connection ∈ registrations e.net.log, ∀ last,
    (registrations e.net.log).getLast? = some last → connection ≤ last
  client : ∀ connection roomId clientId, RegisterIn e.net.log connection roomId clientId →
    ∃ joinResponse, e.world.ctl.joinResponse = some joinResponse
      ∧ roomId = joinResponse.roomId ∧ clientId = joinResponse.clientId

/-- What the network thread has still to do for the controller. -/
structure Serving (w : World) (n : Network Task) : Prop where
  /-- What it owes, the controller waits for. -/
  owed : ∀ t, (owes n).count t ≤ w.ops.count t
  done : ∀ t ∈ owes n, t.isNetworkDone = true
  involved : Involved n → w.webSocketStarted = true
  room : .sendToRoom .registerComplete ∉ n.tasks
  registers : ∀ joinResponse callback, .writeRegister joinResponse callback ∈ ahead n →
    w.ctl.joinResponse = some joinResponse
  sends : ∀ messageJson callback, .writeSend messageJson callback ∈ ahead n →
    callback ≠ .registerComplete ∧ w.ctl.negotiationReady = true

structure Linked (env : Env) (e : Endpoint) : Prop where
  world : Reachable (restrict (Call.step env) webrtcSpeaks) initial e.world
  outbox : e.net.outbox = []
  answers : e.answers.map Prod.fst = e.world.queue.filter Task.isNetworkDone
  serving : Serving e.world e.net
  logged : Logged e

theorem linked_init : Linked env {} where
  world := Reachable.init
  outbox := rfl
  answers := rfl
  serving :=
    { owed := fun t => Nat.zero_le _
      done := by simp [owes]
      involved := by simp [Involved, Lives, ahead]
      room := by simp
      registers := by simp [ahead]
      sends := by simp [ahead] }
  logged :=
    { answered := by simp
      ready := fun h => by cases h
      opened := by simp [registrations]
      latest := by simp [registrations]
      client := by simp [RegisterIn] }

/-! ## Calling the client -/

/-- What the calls of one step add to the work of the network thread. -/
structure Posts (w' : World) (owed : List Task) (n n' : Network Task) : Prop where
  owes : Proof.owes n' = Proof.owes n ++ owed
  socket : n'.socket = n.socket
  outbox : n'.outbox = n.outbox
  log : n'.log = n.log
  involved : Involved n' → Involved n ∨ w'.webSocketStarted = true
  room : .sendToRoom .registerComplete ∈ n'.tasks → .sendToRoom .registerComplete ∈ n.tasks
  registers : ∀ joinResponse callback, .writeRegister joinResponse callback ∈ ahead n' →
    .writeRegister joinResponse callback ∈ ahead n ∨ w'.ctl.joinResponse = some joinResponse
  sends : ∀ messageJson callback, .writeSend messageJson callback ∈ ahead n' →
    .writeSend messageJson callback ∈ ahead n
      ∨ (callback ≠ .registerComplete ∧ ∃ kind route, .send kind route messageJson ∈ w'.trace)

theorem posts_nothing (w' : World) (n : Network Task) : Posts w' [] n n where
  owes := (List.append_nil _).symm
  socket := rfl
  outbox := rfl
  log := rfl
  involved := Or.inl
  room := id
  registers _ _ := Or.inl
  sends _ _ := Or.inl

theorem owes_post (n : Network Task) (task : NetworkTask Task) :
    owes (n.post task) = owes n ++ (callbackOf task).toList := by
  unfold owes post
  rw [List.filterMap_append, List.append_assoc]
  cases task <;> rfl

theorem ahead_post (n : Network Task) (task : NetworkTask Task) :
    ahead (n.post task) = ahead n ++ (stageOf task).toList := by
  unfold ahead post
  rw [List.filterMap_append, List.append_assoc]
  cases task <;> rfl

/-- One call: what it comes to is at the end of the work. -/
theorem posts_one {w' : World} {owed : List Task} {n : Network Task} {task : NetworkTask Task}
    (howed : (callbackOf task).toList = owed)
    (hconnect : ∀ stage, stageOf task = some stage → connects stage = true →
      w'.webSocketStarted = true) (hroom : task ≠ .sendToRoom .registerComplete)
    (hregister : ∀ joinResponse callback, task = .register joinResponse callback →
      w'.ctl.joinResponse = some joinResponse)
    (hsend : ∀ messageJson callback, task = .sendWebSocketMessage messageJson callback →
      callback ≠ .registerComplete ∧ ∃ kind route, .send kind route messageJson ∈ w'.trace) :
    Posts w' owed n (n.post task) where
  owes := by rw [owes_post, howed]
  socket := rfl
  outbox := rfl
  log := rfl
  involved := by
    unfold Involved
    rw [ahead_post, List.any_append, Bool.or_eq_true]
    intro h
    rcases h with h | h | h
    · exact Or.inl (Or.inl h)
    · exact Or.inl (Or.inr h)
    · obtain ⟨stage, hstage, hc⟩ := List.any_eq_true.mp h
      exact Or.inr (hconnect stage (by simpa using hstage) hc)
  room h := by
    rcases List.mem_append.mp h with h | h
    · exact h
    · exact absurd (List.mem_singleton.mp h).symm hroom
  registers joinResponse callback h := by
    rw [ahead_post] at h
    refine (List.mem_append.mp h).imp id fun h => hregister joinResponse callback ?_
    cases task <;> simp_all [stageOf]
  sends messageJson callback h := by
    rw [ahead_post] at h
    refine (List.mem_append.mp h).imp id fun h => hsend messageJson callback ?_
    cases task <;> simp_all [stageOf]

/-- **The calls of a step.** -/
theorem posts_called {w' : World} {owed : List Task} {calls : List (NetworkTask Task)}
    (h : Called w' owed calls) (n : Network Task) : Posts w' owed n (calls.foldl post n) := by
  cases h with
  | nothing => exact posts_nothing w' n
  | connect hweb =>
      exact posts_one rfl (fun _ _ _ => hweb) (by simp) (by simp) (by simp)
  | register hj =>
      refine posts_one rfl (by simp [stageOf, connects]) (by simp) ?_ (by simp)
      intro joinResponse callback heq
      cases heq
      exact hj
  | sendToRoom =>
      exact posts_one rfl (by simp [stageOf, connects]) (by simp) (by simp) (by simp)
  | sendWebSocketMessage hmem =>
      refine posts_one rfl (by simp [stageOf, connects]) (by simp) (by simp) ?_
      intro messageJson callback heq
      cases heq
      exact ⟨by simp, _, _, hmem⟩
  | close =>
      exact posts_one rfl (by simp [stageOf, connects]) (by simp) (by simp) (by simp)

/-- **The network thread serves the world after a step as it served the one before.** -/
theorem Serving.call {w w' : World} {n n' : Network Task} (started : List Task)
    {owed : List Task} (h : Serving w n) (hp : Posts w' owed n n')
    (hops : ∀ t, t.isNetworkDone = true → w.ops.count t + started.count t ≤ w'.ops.count t)
    (howed : owed = started.filter Task.isNetworkDone)
    (hj : ∀ joinResponse, w.ctl.joinResponse = some joinResponse →
      w'.ctl.joinResponse = some joinResponse)
    (hready : w.ctl.negotiationReady = true → w'.ctl.negotiationReady = true)
    (hsent : ∀ kind route payload, .send kind route payload ∈ w'.trace →
      w'.ctl.negotiationReady = true)
    (hweb : w.webSocketStarted = true → w'.webSocketStarted = true) : Serving w' n' := by
  have hdone : ∀ t ∈ owes n', t.isNetworkDone = true := by
    intro t ht
    rw [hp.owes, howed] at ht
    rcases List.mem_append.mp ht with ht | ht
    · exact h.done t ht
    · exact (List.mem_filter.mp ht).2
  refine
    { owed := fun t => ?_, done := hdone, involved := fun hinv => ?_
      room := fun hroom => h.room (hp.room hroom), registers := ?_, sends := ?_ }
  · by_cases ht : t ∈ owes n'
    · have hold := h.owed t
      have hnew : (started.filter Task.isNetworkDone).count t ≤ started.count t :=
        List.Sublist.count_le t List.filter_sublist
      have hgrown := hops t (hdone t ht)
      rw [hp.owes, howed, List.count_append]
      omega
    · rw [List.count_eq_zero.mpr ht]
      exact Nat.zero_le _
  · rcases hp.involved hinv with hinv | hnew
    · exact hweb (h.involved hinv)
    · exact hnew
  · intro joinResponse callback hmem
    rcases hp.registers joinResponse callback hmem with hmem | hnew
    · exact hj joinResponse (h.registers joinResponse callback hmem)
    · exact hnew
  · intro messageJson callback hmem
    rcases hp.sends messageJson callback hmem with hmem | ⟨hne, kind, route, hnew⟩
    · obtain ⟨hne, hr⟩ := h.sends messageJson callback hmem
      exact ⟨hne, hready hr⟩
    · exact ⟨hne, hsent kind route messageJson hnew⟩

/-! ## A step of the signaling thread -/

theorem endpoint_advance_eq {e e' : Endpoint} {l : Label} (h : Endpoint.advance env e l = some e') :
    ∃ w', restrict (Call.step env) webrtcSpeaks e.world l = some w'
      ∧ e' = { e with world := w', net := (clientCalls e.world w').foldl post e.net } := by
  obtain ⟨w', hs, h⟩ := Option.bind_eq_some_iff.mp h
  cases h
  exact ⟨w', hs, rfl⟩

/-- Where no 'register' frame is written, the controller is as well informed as before. -/
theorem Logged.keep {e e' : Endpoint} (h : Logged e)
    (hregs : registrations e'.net.log = registrations e.net.log)
    (hlog : ∀ connection roomId clientId, RegisterIn e'.net.log connection roomId clientId →
      RegisterIn e.net.log connection roomId clientId)
    (hopened : e.net.socket.opened ≤ e'.net.socket.opened)
    (hanswers : (.registerComplete, okStatus) ∈ e'.answers →
      (.registerComplete, okStatus) ∈ e.answers)
    (hready : e'.world.ctl.negotiationReady = true →
      e.world.ctl.negotiationReady = true ∨ (.registerComplete, okStatus) ∈ e.answers)
    (hj : ∀ joinResponse, e.world.ctl.joinResponse = some joinResponse →
      e'.world.ctl.joinResponse = some joinResponse) : Logged e' where
  answered ha := by
    rw [hregs]
    exact h.answered (hanswers ha)
  ready hr := by
    rw [hregs]
    exact (hready hr).elim h.ready h.answered
  opened connection hmem := by
    rw [hregs] at hmem
    exact Nat.le_trans (h.opened connection hmem) hopened
  latest := by
    rw [hregs]
    exact h.latest
  client connection roomId clientId hmem := by
    obtain ⟨jr, hjr, hids⟩ := h.client connection roomId clientId (hlog _ _ _ hmem)
    exact ⟨jr, hj jr hjr, hids⟩

/-- An operation that is not the network thread's is posted. -/
theorem count_post {w : World} {i : Nat} {t x : Task} (hi : w.ops[i]? = some t)
    (hne : t ≠ x) : (w.ops.eraseIdx i).count x = w.ops.count x := by
  obtain ⟨hlt, hget⟩ := List.getElem?_eq_some_iff.mp hi
  have hperm : (t :: w.ops.eraseIdx i).Perm w.ops := by
    rw [← hget]
    exact List.getElem_cons_eraseIdx_perm hlt
  rw [← hperm.count_eq, List.count_cons_of_ne hne]

/-- A step that runs no task asks for nothing, and its queue gets no completion of ours. -/
theorem linked_idle {e e' : Endpoint} {l : Label} (h : Linked env e)
    (hs : Endpoint.advance env e l = some e') (hown : Endpoint.isOwn e.world l = true)
    (hl : ∀ r, l ≠ .run r) : Linked env e' := by
  obtain ⟨w', hw, rfl⟩ := endpoint_advance_eq hs
  have hreach := h.world.of_restrict
  have hstep := (restrict_eq_some.mp hw).2
  have hb := base_visited (reached_visited hreach)
  have hcalls := clientCalls_idle hreach hstep hl
  have hnext : Reachable (restrict (Call.step env) webrtcSpeaks) initial w' := h.world.next hw
  rw [hcalls]
  -- what such a step leaves alone
  have hsame : w'.ctl = e.world.ctl ∧ w'.webSocketStarted = e.world.webSocketStarted
      ∧ w'.queue.filter Task.isNetworkDone = e.world.queue.filter Task.isNetworkDone
      ∧ ∀ t, t.isNetworkDone = true → e.world.ops.count t ≤ w'.ops.count t := by
    cases l with
    | post i =>
        obtain ⟨t, hi, rfl⟩ := post_eq hb hstep
        have ht : t.isNetworkDone = false := by simpa [Endpoint.isOwn, hi] using hown
        refine ⟨rfl, rfl, ?_, fun x hx => Nat.le_of_eq (count_post hi ?_).symm⟩
        · simp [ht]
        · intro heq
          rw [heq, hx] at ht
          cases ht
    | event t =>
        obtain ⟨hr, rfl⟩ := event_eq hb hstep
        have ht : t.isNetworkDone = false := by cases t <;> first | rfl | cases hr
        exact ⟨rfl, rfl, by simp [ht], fun _ _ => Nat.le_refl _⟩
    | destroy =>
        obtain ⟨_, rfl⟩ := destroy_eq hb hstep
        exact ⟨rfl, rfl, rfl, fun _ _ => by simp [grow]⟩
    | run r => exact absurd rfl (hl r)
  obtain ⟨hctl, hweb, hqueue, hops⟩ := hsame
  refine ⟨hnext, h.outbox, h.answers.trans hqueue.symm, ?_, ?_⟩
  · exact h.serving.call [] (posts_nothing w' e.net) (by simpa using hops) rfl
      (fun _ hj => hctl ▸ hj) (fun hr => hctl ▸ hr)
      (fun _ _ _ hmem => ready_of_sent hnext hmem) (fun hstarted => hweb.trans hstarted)
  · exact h.logged.keep rfl (fun _ _ _ hmem => hmem) (Nat.le_refl _) id
      (fun hr => Or.inl (hctl ▸ hr)) (fun _ hj => hctl ▸ hj)

/-- **A task runs**, a completion with the answer it was posted with. -/
theorem linked_run {e e' : Endpoint} {r : Reply} {answers : List (Task × Status)}
    (h : Linked env e) (hs : Endpoint.advance env { e with answers := answers } (.run r) = some e')
    (hhead : ∀ t rest, e.world.queue = t :: rest →
      answers.map Prod.fst = rest.filter Task.isNetworkDone
        ∧ (∀ answer ∈ answers, answer ∈ e.answers)
        ∧ (t.isNetworkDone = true → ∀ status, r = .status status → (t, status) ∈ e.answers)) :
    Linked env e' := by
  obtain ⟨w', hw, rfl⟩ := endpoint_advance_eq hs
  have hreach := h.world.of_restrict
  have hstep := (restrict_eq_some.mp hw).2
  have hnext : Reachable (restrict (Call.step env) webrtcSpeaks) initial w' := h.world.next hw
  obtain ⟨t, rest, started, actions, hq, hgrows, hcalled⟩ := run_asks hreach hstep
  obtain ⟨hanswers, hsub, htold⟩ := hhead t rest hq
  have hposts := posts_called hcalled e.net
  refine ⟨hnext, hposts.outbox.trans h.outbox, ?_, ?_, ?_⟩
  · have hqueue : w'.queue = rest := hgrows.queue
    rw [hqueue]
    exact hanswers
  · refine h.serving.call started hposts (fun t _ => ?_) rfl hgrows.joined hgrows.ready
      (fun _ _ _ hmem => ready_of_sent hnext hmem) hgrows.connected
    rw [hgrows.ops, List.count_append]
  · refine h.logged.keep (by rw [hposts.log]) (fun _ _ _ hmem => hposts.log ▸ hmem)
      (by rw [hposts.socket]) (hsub _) (fun hr => ?_) hgrows.joined
    -- who becomes ready has just been told so
    by_cases hready : e.world.ctl.negotiationReady = true
    · exact Or.inl hready
    · obtain ⟨hfirst, hreply⟩ := ready_run hreach hstep (by simpa using hready) hr
      rw [hq] at hfirst
      cases hfirst
      exact Or.inr (htold rfl okStatus hreply)

/-! ## A turn of the network thread or the socket -/

theorem fold_events (e : Endpoint) (events : List SignalingEvent) :
    (events.map Posted.event).foldl Endpoint.postToCallbackThread e
      = { e with world.queue := e.world.queue ++ events.map .signaling } := by
  induction events generalizing e with
  | nil => simp
  | cons event events ih =>
      rw [List.map_cons, List.foldl_cons, ih]
      simp [Endpoint.postToCallbackThread]

/-- What a turn without a completion leaves: a destroyed controller gets no events. -/
theorem deliver_events {e : Endpoint} {n : Network Task} {events : List SignalingEvent}
    (hout : n.outbox = events.map .event) :
    ∃ heard : List SignalingEvent, (heard ≠ [] → events ≠ [] ∧ e.world.destroyed = false)
      ∧ Endpoint.deliver { e with net := n }
        = { e with
          world.queue := e.world.queue ++ heard.map .signaling
          net := { n with outbox := [] } } := by
  unfold Endpoint.deliver
  cases hd : e.world.destroyed with
  | true => exact ⟨[], by simp, by simp⟩
  | false =>
      refine ⟨events, fun hne => ⟨hne, rfl⟩, ?_⟩
      dsimp only
      rw [hout, fold_events]
      simp

theorem deliver_completion {e : Endpoint} {n : Network Task} {callback : Task} {status : Status}
    (hout : n.outbox = [.completion callback status]) :
    Endpoint.deliver { e with net := n }
      = if e.world.destroyed then { e with net := { n with outbox := [] } }
        else
          { e with
            world.ops := e.world.ops.erase callback
            world.queue := e.world.queue ++ [callback]
            net := { n with outbox := [] }
            answers := e.answers ++ [(callback, status)] } := by
  unfold Endpoint.deliver
  dsimp only
  rw [hout]
  rfl

/-- Events of a socket that was started are events of the world. -/
theorem reachable_events {w : World} (events : List SignalingEvent)
    (h : Reachable (restrict (Call.step env) webrtcSpeaks) initial w)
    (hlive : events ≠ [] → w.webSocketStarted = true ∧ w.destroyed = false) :
    Reachable (restrict (Call.step env) webrtcSpeaks) initial
      { w with queue := w.queue ++ events.map .signaling } := by
  induction events generalizing w with
  | nil => simpa using h
  | cons event events ih =>
      obtain ⟨hweb, hd⟩ := hlive (by simp)
      have hstep : restrict (Call.step env) webrtcSpeaks w (.event (.signaling event))
          = some { w with queue := w.queue ++ [.signaling event] } := by
        simp [restrict, webrtcSpeaks, Call.step, canRaise, hweb, hd]
      have hrest := ih (h.next hstep) (fun _ => ⟨hweb, hd⟩)
      simpa using hrest

/-- A completion that is owed is an operation of the world. -/
theorem reachable_completion {w : World} {callback : Task}
    (h : Reachable (restrict (Call.step env) webrtcSpeaks) initial w)
    (hmem : callback ∈ w.ops) (hd : w.destroyed = false) :
    Reachable (restrict (Call.step env) webrtcSpeaks) initial
      { w with ops := w.ops.erase callback, queue := w.queue ++ [callback] } := by
  have hi : w.ops[w.ops.idxOf callback]? = some callback := by
    rw [List.getElem?_eq_getElem (List.idxOf_lt_length_of_mem hmem), List.getElem_idxOf]
  have hstep : restrict (Call.step env) webrtcSpeaks w (.post (w.ops.idxOf callback))
      = some { w with ops := w.ops.erase callback, queue := w.queue ++ [callback] } := by
    rw [List.erase_eq_eraseIdx_of_idxOf rfl]
    simp [restrict, webrtcSpeaks, Call.step, hd, hi]
  exact h.next hstep

/-- The work that is left after a turn is served as the work before it was. -/
theorem Serving.turned {w w' : World} {n n' : Network Task} (h : Serving w n)
    (ht : Turned n n') (howed : ∀ t, (owes n').count t ≤ w'.ops.count t)
    (hsub : ∀ t ∈ owes n', t ∈ owes n) (hctl : w'.ctl = w.ctl)
    (hweb : w'.webSocketStarted = w.webSocketStarted) : Serving w' n' where
  owed := howed
  done t hmem := h.done t (hsub t hmem)
  involved hinv := hweb.trans (h.involved (ht.involved hinv))
  room hroom := h.room (ht.tasks _ hroom)
  registers joinResponse callback hmem := by
    rw [hctl]
    rcases ht.ahead _ hmem with hmem | heq
    · exact h.registers joinResponse callback hmem
    · cases heq
  sends messageJson callback hmem := by
    rw [hctl]
    rcases ht.ahead _ hmem with hmem | heq
    · exact h.sends messageJson callback hmem
    · cases heq

/-- `deliver` empties the outbox, which the rest does not look at. -/
theorem Serving.delivered {w : World} {n : Network Task} (h : Serving w n) :
    Serving w { n with outbox := [] } :=
  ⟨h.owed, h.done, h.involved, h.room, h.registers, h.sends⟩

/-- A turn that posts a completion. -/
theorem linked_answered {e : Endpoint} {n' : Network Task} {callback : Task} {status : Status}
    (h : Linked env e) (ht : Turned e.net n') (howes : owes e.net = callback :: owes n')
    (hout : n'.outbox = e.net.outbox ++ [.completion callback status])
    (hlogged : ∀ e' : Endpoint, e'.net.log = n'.log → e'.net.socket = n'.socket →
      e'.world.ctl = e.world.ctl →
      (∀ answer ∈ e'.answers, answer ∈ e.answers ∨ answer = (callback, status)) → Logged e') :
    Linked env (Endpoint.deliver { e with net := n' }) := by
  rw [h.outbox, List.nil_append] at hout
  have hsub : ∀ t ∈ owes n', t ∈ owes e.net := by
    intro t hmem
    rw [howes]
    exact List.mem_cons_of_mem _ hmem
  have howed : ∀ t, (owes n').count t + (if callback = t then 1 else 0)
      ≤ e.world.ops.count t := by
    intro t
    have hold := h.serving.owed t
    rw [howes, List.count_cons] at hold
    simpa using hold
  rw [deliver_completion hout]
  split
  · refine ⟨h.world, rfl, h.answers, ?_, hlogged _ rfl rfl rfl fun answer ha => Or.inl ha⟩
    refine Serving.delivered (h.serving.turned ht (fun t => ?_) hsub rfl rfl)
    exact Nat.le_trans (Nat.le_add_right _ _) (howed t)
  · rename_i hd
    have hdone : callback.isNetworkDone = true :=
      h.serving.done callback (by rw [howes]; exact List.mem_cons_self ..)
    have hmem : callback ∈ e.world.ops := by
      have hpos := howed callback
      rw [if_pos rfl] at hpos
      exact List.count_pos_iff.mp (by omega)
    refine ⟨reachable_completion h.world hmem (by simpa using hd), rfl, ?_, ?_, ?_⟩
    · simp [hdone, h.answers]
    · refine Serving.delivered (h.serving.turned ht (fun t => ?_) hsub rfl rfl)
      have hpos := howed t
      rw [List.count_erase]
      simp only [beq_iff_eq]
      omega
    · refine hlogged _ rfl rfl rfl fun answer ha => ?_
      simpa using ha

/-- A 'register' frame is written to the newest connection, for the client that joined. -/
theorem Logged.registered {e e' : Endpoint} {joinResponse : JoinResponse} {text : Text}
    (h : Logged e)
    (hlog : e'.net.log = e.net.log ++ [.written e.net.socket.opened
      (.register joinResponse.roomId joinResponse.clientId) text])
    (hopened : e.net.socket.opened ≤ e'.net.socket.opened)
    (hctl : e'.world.ctl = e.world.ctl)
    (hj : e.world.ctl.joinResponse = some joinResponse) : Logged e' := by
  have hregs : registrations e'.net.log
      = registrations e.net.log ++ [e.net.socket.opened] := by
    unfold registrations
    rw [hlog, List.filterMap_append]
    rfl
  have hne : registrations e'.net.log ≠ [] := by
    rw [hregs]
    simp
  have hnewest : ∀ connection ∈ registrations e'.net.log,
      connection ≤ e.net.socket.opened := by
    intro connection hmem
    rw [hregs] at hmem
    rcases List.mem_append.mp hmem with hmem | hmem
    · exact h.opened connection hmem
    · exact Nat.le_of_eq (List.mem_singleton.mp hmem)
  refine ⟨fun _ => hne, fun _ => hne,
    fun connection hmem => Nat.le_trans (hnewest connection hmem) hopened, ?_, ?_⟩
  · intro connection hmem last hlast
    rw [hregs, List.getLast?_concat] at hlast
    cases hlast
    exact hnewest connection hmem
  · intro connection roomId clientId ⟨text', hmem⟩
    rw [hctl]
    rw [hlog] at hmem
    rcases List.mem_append.mp hmem with hmem | hmem
    · exact h.client connection roomId clientId ⟨text', hmem⟩
    · cases List.mem_singleton.mp hmem
      exact ⟨joinResponse, hj, rfl, rfl⟩

theorem registrations_quiet {l actions : List SocketAction}
    (h : actions.all (fun a => !isFrame a) = true) :
    registrations (l ++ actions) = registrations l := by
  have hnone : actions.filterMap registeredOn = [] := by
    refine List.filterMap_eq_nil_iff.mpr fun a ha => ?_
    have hno := List.all_eq_true.mp h a ha
    cases a <;> first | rfl | cases hno
  unfold registrations
  rw [List.filterMap_append, hnone, List.append_nil]

theorem registerIn_quiet {l actions : List SocketAction}
    (h : actions.all (fun a => !isFrame a) = true) {connection : Nat} {roomId clientId : Text}
    (hin : RegisterIn (l ++ actions) connection roomId clientId) :
    RegisterIn l connection roomId clientId := by
  obtain ⟨text, hmem⟩ := hin
  rcases List.mem_append.mp hmem with hmem | hmem
  · exact ⟨text, hmem⟩
  · cases List.all_eq_true.mp h _ hmem

/-- Events are no completions. -/
theorem heard_undone {events : List SignalingEvent} :
    (events.map Task.signaling).filter Task.isNetworkDone = [] := by
  rw [List.filter_eq_nil_iff]
  intro t ht
  obtain ⟨event, _, rfl⟩ := List.mem_map.mp ht
  simp [Task.isNetworkDone]

/-- **A turn of the network thread or the socket.** -/
theorem linked_net {e : Endpoint} {n' : Network Task} {l : NetworkLabel Task}
    (h : Linked env e) (hl : ∀ task, l ≠ .call task)
    (hs : Network.step env.json e.net l = some n') :
    Linked env (Endpoint.deliver { e with net := n' }) := by
  obtain ⟨hturned, hturn⟩ := turn_step hl hs
  cases hturn with
  | quiet _ howes heard posted =>
      obtain ⟨events, hout, hlive⟩ := posted
      rw [h.outbox, List.nil_append] at hout
      obtain ⟨heardEvents, hheard, heq⟩ := deliver_events hout
      rw [heq]
      obtain ⟨actions, hlog, hall⟩ := heard
      refine ⟨reachable_events heardEvents h.world fun hne => ?_, rfl, ?_, ?_, ?_⟩
      · obtain ⟨hevents, hd⟩ := hheard hne
        exact ⟨h.serving.involved (hlive hevents), hd⟩
      · rw [List.filter_append, heard_undone, List.append_nil]
        exact h.answers
      · refine Serving.delivered (h.serving.turned hturned (fun t => ?_) ?_ rfl rfl)
        · rw [howes]
          exact h.serving.owed t
        · rw [howes]
          exact fun t ht => ht
      · refine h.logged.keep ?_ ?_ hturned.opened id Or.inl fun _ hj => hj
        · show registrations n'.log = registrations e.net.log
          rw [hlog, registrations_quiet hall]
        · intro connection roomId clientId hmem
          have hmem : RegisterIn n'.log connection roomId clientId := hmem
          rw [hlog] at hmem
          exact registerIn_quiet hall hmem
  | answered _ callback status howes hlog posted room =>
      refine linked_answered h hturned howes posted fun e' hl hsocket hctl hanswers => ?_
      refine h.logged.keep (by rw [hl, hlog]) (fun _ _ _ hmem => ?_) ?_ (fun ha => ?_)
        (fun hr => Or.inl (hctl ▸ hr)) (fun _ hj => hctl ▸ hj)
      · rw [hl, hlog] at hmem
        exact hmem
      · rw [hsocket]
        exact hturned.opened
      · rcases hanswers _ ha with ha | heq
        · exact ha
        · -- a registration is not told it succeeded before its frame is written
          injection heq with hcallback hstatus
          rw [← hcallback] at room
          exact absurd (room hstatus.symm) h.serving.room
  | registered _ jr callback text hstage howes hlog posted =>
      refine linked_answered h hturned howes posted fun e' hl hsocket hctl _ => ?_
      have hj := h.serving.registers jr callback (mem_ahead hstage)
      refine h.logged.registered (by rw [hl, hlog]) ?_ hctl hj
      rw [hsocket]
      exact hturned.opened
  | sent _ messageJson callback text hstage howes hlog posted =>
      refine linked_answered h hturned howes posted fun e' hl hsocket hctl hanswers => ?_
      refine h.logged.keep ?_ ?_ ?_ (fun ha => ?_) (fun hr => Or.inl (hctl ▸ hr))
        (fun _ hj => hctl ▸ hj)
      · unfold registrations
        rw [hl, hlog, List.filterMap_append]
        simp [registeredOn]
      · intro connection roomId clientId ⟨text', hmem⟩
        rw [hl, hlog] at hmem
        exact ⟨text', by simpa using hmem⟩
      · rw [hsocket]
        exact hturned.opened
      · rcases hanswers _ ha with ha | heq
        · exact ha
        · injection heq with hcallback _
          exact absurd hcallback.symm (h.serving.sends _ _ (mem_ahead hstage)).1

/-! ## Every step -/

/-- **What each label of an endpoint does.** -/
theorem endpoint_step_cases {e e' : Endpoint} {l : EndpointLabel}
    (h : Endpoint.step env e l = some e') :
    (∃ own, l = .call own ∧ Endpoint.isOwn e.world own = true
        ∧ Endpoint.advance env e own = some e')
      ∨ (∃ task rest callback status answers, l = .complete ∧ e.world.queue = task :: rest
        ∧ e.answers = (callback, status) :: answers ∧ task.isNetworkDone = true
        ∧ Endpoint.advance env { e with answers := answers } (.run (.status status)) = some e')
      ∨ ∃ turn n', l = .net turn ∧ (∀ task, turn ≠ .call task)
        ∧ Network.step env.json e.net turn = some n'
        ∧ e' = Endpoint.deliver { e with net := n' } := by
  cases l with
  | call own =>
      simp only [Endpoint.step] at h
      split at h
      · rename_i hown
        exact Or.inl ⟨own, rfl, hown, h⟩
      · cases h
  | complete =>
      simp only [Endpoint.step] at h
      split at h
      · rename_i task rest callback status answers hq ha
        split at h
        · rename_i hdone
          exact Or.inr (Or.inl ⟨task, rest, callback, status, answers, rfl, hq, ha, hdone, h⟩)
        · cases h
      · cases h
  | net turn =>
      cases turn with
      | call task => cases h
      | _ =>
          obtain ⟨n', hnet, h⟩ := Option.bind_eq_some_iff.mp h
          cases h
          exact Or.inr (Or.inr ⟨_, n', rfl, by simp, hnet, rfl⟩)

/-- **The two halves of an endpoint stay in step.** -/
theorem linked_step {e e' : Endpoint} {l : EndpointLabel} (h : Linked env e)
    (hs : Endpoint.step env e l = some e') : Linked env e' := by
  rcases endpoint_step_cases hs with ⟨own, rfl, hown, hs⟩
    | ⟨task, rest, callback, status, answers, rfl, hq, ha, hdone, hs⟩
    | ⟨turn, n', rfl, hturn, hnet, rfl⟩
  · by_cases hl : ∃ r, own = .run r
    · obtain ⟨r, rfl⟩ := hl
      refine linked_run h hs fun t rest hq => ?_
      have ht : t.isNetworkDone = false := by simpa [Endpoint.isOwn, hq] using hown
      refine ⟨?_, fun _ ha => ha, fun hdone => ?_⟩
      · rw [h.answers, hq, List.filter_cons_of_neg (by simp [ht])]
      · rw [ht] at hdone
        cases hdone
    · exact linked_idle h hs hown fun r hr => hl ⟨r, hr⟩
  · -- the first answer is that of the first completion
    have hall := h.answers
    rw [ha, hq, List.filter_cons_of_pos hdone] at hall
    injection hall with hcallback hrest
    refine linked_run h hs fun t rest' hq' => ?_
    rw [hq] at hq'
    cases hq'
    refine ⟨hrest, fun answer hmem => ?_, fun _ status' hr => ?_⟩
    · rw [ha]
      exact List.mem_cons_of_mem _ hmem
    · cases hr
      rw [ha, ← hcallback]
      exact List.mem_cons_self ..
  · exact linked_net h hturn hnet

/-- **An endpoint refines the call**: its world is one the call reaches by itself. -/
theorem endpoint_reached {e : Endpoint} (h : Reachable (Endpoint.step env) {} e) :
    Reached env e.world :=
  (h.invariant (I := Linked env) linked_init
    fun _ _ _ _ hi hs => linked_step hi hs).world.of_restrict

end ApprtcCli.Proof
