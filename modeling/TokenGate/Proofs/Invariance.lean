import TokenGate.Proofs.Answers
/-!
# `TokenGate.Proofs.Invariance`: what every move of a run keeps

`Reachable.serving` walks the tasks and the caller's actions for one fact, the server's
invariant. This module walks them once for every fact `K` that survives the moves a run
is made of (`Exchange.Keeps`), so that a new invariant is proved by its own step lemmas
only:

* calm moves (`Exchange.Calm`): quiet ones (`Exchange.Quiet`) that also leave the
  server's counters and its closing flag, and never take back a stop once asked for.
  The caller's actions, the client's tasks, the waits of the consume loops and the ticks
  of the sweep task are calm;
* a handler's run;
* `dispatch`, which a consume loop reaches only while no stop was asked for;
* the sweep, and its stop (`abandonInFlight`), which comes only once a stop was asked for.

The last two rest on `Reachable.stopUnseen`: the consume loops and the sweep task
compare the stop's version with the first one and end as soon as it moves, so the
version each of them has seen is always the first. `Step.cases_calm` says once what a
step of a run can be besides a calm move: a poll of a task, or a sweep the caller runs
itself.
-/

set_option autoImplicit false

namespace TokenGate

open Sched

/-- Whether a stop was asked for depends on the version and the closing only. -/
theorem Sched.Watch.stopRequested_congr {w w' : Watch} (hv : w'.version = w.version)
    (hc : w'.closed = w.closed) (seen : Nat) : w'.stopRequested seen = w.stopRequested seen := by
  simp only [Watch.stopRequested, hv, hc]

/-- A loop of the server that watches its stop has seen no stop yet: it compares the
stop's version with the first one. -/
def Task.NoStopSeen : Task → Prop
  | .consume l => l.seen = 0
  | .sweep p => p.seen = 0
  | _ => True

theorem Task.IsNew.noStopSeen {t : Task} (h : t.IsNew) : t.NoStopSeen := by
  cases t with
  | consume l => exact h.1
  | sweep p =>
    show p.seen = 0
    rw [show p = ⟨0, none, none⟩ from h]
  | handler _ => trivial
  | listen _ => trivial
  | evict _ => trivial

namespace Exchange

/-- The caller's waits and requests record only their own events, which are quiet. -/
theorem Event.OfCaller.quiet {e : Event} (he : Event.OfCaller e) : e.Quiet := by
  cases e <;> first | exact he.elim | trivial

/-- From `x` to `y` the server's counters and its closing flag stay, and a stop once asked
for stays asked for. -/
structure Steady (x y : Exchange) : Prop where
  counters : y.server.counters = x.server.counters
  closing : y.server.closing = x.server.closing
  stop : x.stop.stopRequested 0 = true → y.stop.stopRequested 0 = true

/-- A quiet move that is also steady. -/
structure Calm (x y : Exchange) : Prop extends Quiet x y, Steady x y

namespace Steady

variable {x y z : Exchange}

theorem refl (x : Exchange) : Steady x x := ⟨rfl, rfl, id⟩

theorem trans (h₁ : Steady x y) (h₂ : Steady y z) : Steady x z :=
  ⟨h₂.counters.trans h₁.counters, h₂.closing.trans h₁.closing, fun h => h₂.stop (h₁.stop h)⟩

/-- The counters, the closing flag and the stop's version and closing stay. -/
theorem of_eq (hn : y.server.counters = x.server.counters) (hcl : y.server.closing = x.server.closing)
    (hv : y.stop.version = x.stop.version) (hc : y.stop.closed = x.stop.closed) : Steady x y :=
  ⟨hn, hcl, fun h => by rw [Watch.stopRequested_congr hv hc]; exact h⟩

/-- A listener is steady: it touches neither the server nor its stop. -/
theorem listenRun (id n : Nat) (l : Listener) : Steady x (Exchange.listenRun id n l x).2 := by
  have hturn : ∀ (l' : Listener) y, Steady y (listenTurn id l' y).exchange := by
    intro l' y
    obtain ⟨hs, -, hw, -⟩ := listenTurn_frame y id l'
    exact .of_eq (by rw [hs]) (by rw [hs]) (by rw [hw]) (by rw [hw])
  unfold Exchange.listenRun
  exact (runTurns_frame (R := Steady) (S := fun _ _ => True) Steady.trans (fun _ _ => trivial)
    (fun l' y => ⟨hturn l' y, fun _ _ => trivial⟩) n l x (.refl x) trivial).1

/-- The evictor is steady: it changes the client only. -/
theorem evictRun (id : Nat) (p : PeriodicLoop) : Steady x (Exchange.evictRun id p x).2 := by
  have hturn : ∀ (p' : PeriodicLoop) y, Steady y (periodicTurn id x.pollInterval true
      (fun x => x.client.map (·.stop)) setClientStop evictWaiters (fun x => x) p' y).exchange :=
    fun p' y => (periodicTurn_frame id x.pollInterval true (fun x => x.client.map (·.stop))
      setClientStop evictWaiters (fun x => x) (R := Steady) Steady.trans Steady.refl
      (fun _ _ => .of_eq (by simp) (by simp) (by simp) (by simp))
      (fun _ _ => .of_eq rfl rfl rfl rfl)
      (fun _ => .of_eq (by simp) (by simp) (by simp) (by simp)) Steady.refl p' y).1
  unfold Exchange.evictRun periodicRun
  exact (runTurns_frame (R := Steady) (S := fun _ _ => True) Steady.trans (fun _ _ => trivial)
    (fun p' y => ⟨hturn p' y, fun _ _ => trivial⟩) 10000 p x (.refl x) trivial).1

/-- Starting a task leaves the server and the stop. -/
theorem spawn (hy : Steady x y) (t : Task) : Steady x (y.spawn t).2 :=
  hy.trans (.of_eq rfl rfl rfl rfl)

/-- Recording an event leaves the server and the stop. -/
theorem note (hy : Steady x y) (e : Event) : Steady x (y.note e) :=
  hy.trans (.of_eq rfl rfl rfl rfl)

/-- Starting the client is steady: it starts listeners and the evictor. -/
theorem startClient (replyTopic : String) (timeout : Nat) :
    Steady x (x.startClient replyTopic timeout) := by
  unfold Exchange.startClient
  dsimp only
  refine spawn ?_ _
  apply List.foldlRecOn (motive := Steady x)
  · exact .of_eq rfl rfl rfl rfl
  · intro y hy p _
    split
    · refine spawn ?_ _
      exact hy.trans (.of_eq rfl rfl rfl rfl)
    · exact hy

/-- Starting the server is steady: it marks the server started and starts its tasks. -/
theorem startServer : Steady x x.startServer.2 := by
  unfold Exchange.startServer
  dsimp only
  refine spawn ?_ _
  apply List.foldlRecOn (motive := fun acc : List Nat × Exchange => Steady x acc.2)
  · exact .of_eq rfl rfl rfl rfl
  · intro acc hacc p _
    split
    · refine note (spawn ?_ _) _
      exact hacc.trans (.of_eq rfl rfl rfl rfl)
    · exact hacc

end Steady

/-- A consume loop's wait changes only the registrations on the stop: the version and the
closing stay. -/
theorem consumeWait_stop (x : Exchange) (id : Nat) (l : ConsumeLoop) (iv : Interval)
    (reg : Option Nat) (fw : Option FetchWait) :
    (consumeWait id l iv reg fw x).exchange.stop.version = x.stop.version ∧
      (consumeWait id l iv reg fw x).exchange.stop.closed = x.stop.closed := by
  -- split each tuple with its equation, as `consumeWait_frame` does
  rw [consumeWait]
  split
  next _ chg seen reg' w hpoll =>
  obtain ⟨hv, hc⟩ : w.version = x.stop.version ∧ w.closed = x.stop.closed := by
    simpa [hpoll] using Watch.poll_state x.stop l.seen reg (.task id)
  extract_lets y₁ l₁
  split
  · simp +zetaDelta [hv, hc]
  · split
    next _ ready iv' core hiv =>
    extract_lets y₂ l₂
    split
    · simp +zetaDelta [hv, hc]
    · split
      · simp +zetaDelta [hv, hc]
      · split
        next _ st y₃ hfetch =>
        obtain rfl : (y₂.fetch l₂.consumer 1 y₂.pollInterval fw (.task id)).2 = y₃ :=
          congrArg Prod.snd hfetch
        extract_lets l₃
        split
        · simp +zetaDelta [hv, hc]
        · split <;> simp +zetaDelta [hv, hc]

namespace Calm

variable {x y z : Exchange}

theorem refl (x : Exchange) : Calm x x := ⟨.refl x, rfl, rfl, id⟩

theorem trans (h₁ : Calm x y) (h₂ : Calm y z) : Calm x z :=
  ⟨h₁.toQuiet.trans h₂.toQuiet, h₂.counters.trans h₁.counters, h₂.closing.trans h₁.closing,
    fun h => h₂.stop (h₁.stop h)⟩

/-- The server and the tasks stay, a stop asked for stays, and the history grows by quiet
events. -/
theorem of_eq (hs : y.server = x.server) (ht : y.tasks = x.tasks)
    (hw : x.stop.stopRequested 0 = true → y.stop.stopRequested 0 = true)
    (hh : GrowsBy Event.Quiet x.history y.history) : Calm x y :=
  ⟨.of_eq hs ht hh, by rw [hs], by rw [hs], hw⟩

/-- A quiet move that leaves the whole server and the stop's version and closing. -/
theorem of_quiet (hq : Quiet x y) (hs : y.server = x.server) (hv : y.stop.version = x.stop.version)
    (hc : y.stop.closed = x.stop.closed) : Calm x y :=
  ⟨hq, by rw [hs], by rw [hs], fun h => by rw [Watch.stopRequested_congr hv hc]; exact h⟩

/-- Changing the slots, the stop's registrations, the clock or the hub is calm. -/
theorem of_slots (hs : y.server = { x.server with slots := y.server.slots })
    (ht : y.tasks = x.tasks) (hv : y.stop.version = x.stop.version)
    (hc : y.stop.closed = x.stop.closed) (hh : y.history = x.history) : Calm x y :=
  ⟨⟨by rw [hs], by rw [hs], by rw [hs], fun _ _ h => ht ▸ h, .of_eq hh⟩, by rw [hs],
    by rw [hs], fun h => by rw [Watch.stopRequested_congr hv hc]; exact h⟩

/-- Recording a quiet event is calm. -/
theorem note (hy : Calm x y) {e : Event} (he : e.Quiet) : Calm x (y.note e) :=
  ⟨hy.toQuiet.note he, hy.counters, hy.closing, hy.stop⟩

/-- Starting a task other than a handler is calm. -/
theorem spawn (hy : Calm x y) {t : Task} (ht : ∀ h, t ≠ .handler h) : Calm x (y.spawn t).2 :=
  ⟨hy.toQuiet.spawn ht, by simpa using hy.counters, by simpa using hy.closing,
    fun h => by simpa using hy.stop h⟩

/-- A quiet move that is steady is calm. -/
theorem of (hq : Quiet x y) (hs : Steady x y) : Calm x y := ⟨hq, hs.counters, hs.closing, hs.stop⟩

theorem listenRun (id n : Nat) (l : Listener) : Calm x (Exchange.listenRun id n l x).2 :=
  .of (.listenRun id n l) (.listenRun id n l)

theorem evictRun (id : Nat) (p : PeriodicLoop) : Calm x (Exchange.evictRun id p x).2 :=
  .of (.evictRun id p) (.evictRun id p)

theorem startClient (replyTopic : String) (timeout : Nat) :
    Calm x (x.startClient replyTopic timeout) :=
  .of (.startClient replyTopic timeout) (.startClient replyTopic timeout)

theorem startServer : Calm x x.startServer.2 := .of .startServer .startServer

/-- Storing a task's state leaves the server, the stop and the history. -/
theorem setTask {n : Nat} {t : Task} (ht : ∀ h, t ≠ .handler h) : Calm x (x.setTask n t) := by
  refine ⟨⟨rfl, rfl, rfl, fun id' h hm => ?_, .refl _ _⟩, rfl, rfl, id⟩
  -- a handler after the change was there before: the stored state is none
  simp only [Exchange.setTask, List.mem_map] at hm
  obtain ⟨⟨id₀, t₀⟩, hm₀, heq⟩ := hm
  by_cases hid : id₀ = n
  · simp only [hid, beq_self_eq_true, ite_true, Prod.mk.injEq] at heq
    exact absurd heq.2 (ht h)
  · simp only [beq_iff_eq, hid, ite_false] at heq
    rwa [heq] at hm₀

/-- Ending a task is calm. -/
theorem endTask (id : Nat) : Calm x (x.endTask id) :=
  ⟨⟨by simp, by simp, by simp, fun _ _ hm => by simp only [endTask_tasks, List.mem_filter] at hm; exact hm.1,
    by simp⟩, by simp, by simp, fun h => by simpa using h⟩

/-- Returning a slot is calm. -/
theorem releaseSlot : Calm x x.releaseSlot := .of_slots rfl rfl rfl rfl rfl

/-- Asking the server to stop is calm: the stop stays asked for. -/
theorem requestStop : Calm x x.requestStop :=
  ⟨.of_eq rfl rfl (.refl _ _), rfl, rfl, fun _ => Watch.stopRequested_send x.stop⟩

/-- Dropping the server's stop sender is calm. -/
theorem dropStop : Calm x x.dropStop :=
  ⟨.of_eq rfl rfl (.refl _ _), rfl, rfl, fun _ => Watch.stopRequested_close x.stop⟩

/-- Leaving a consume loop at most commits. -/
theorem leaveConsume (id : Nat) (l : ConsumeLoop) : Calm x (Exchange.leaveConsume x id l) :=
  .of (.leaveConsume id l) (.of_eq (by simp) (by simp) (by simp) (by simp))

/-- A consume loop's wait is calm: it polls the stop, commits, or takes a record. -/
theorem consumeWait (id : Nat) (l : ConsumeLoop) (iv : Interval) (reg : Option Nat)
    (fw : Option FetchWait) : Calm x (Exchange.consumeWait id l iv reg fw x).exchange := by
  obtain ⟨hs, ht, hh⟩ := consumeWait_frame x id l iv reg fw
  obtain ⟨hv, hc⟩ := consumeWait_stop x id l iv reg fw
  exact .of_quiet (.of_eq hs ht (hh.mono fun e he => by cases e <;> first | exact he.elim | trivial))
    hs hv hc

/-- An operation of the caller that leaves the server, the tasks and the stop, and
records only quiet events, is calm. -/
theorem of_offstage {P : Event → Prop} (hP : ∀ e, P e → e.Quiet) (h : Offstage x y)
    (hr : Records P x y) : Calm x y :=
  .of_quiet (h.quiet hP hr) h.1 (by rw [hr.stop]) (by rw [hr.stop])

/-- Polling the caller's wait is calm: it records the caller's own events only. -/
theorem pollMain : Calm x ({ x with core := { x.core with mainWoken := false } } : Exchange).pollMain.2 :=
  (Calm.of_eq (x := x) (y := { x with core := { x.core with mainWoken := false } }) rfl rfl (fun h => h)
    (.refl _ _)).trans (.of_offstage (fun _ he => Event.OfCaller.quiet he) (pollMain_offstage _) (pollMain_records _))

end Calm

/-! ### The server's loops have seen no stop -/

/-- Every loop of the server still running has seen no stop. -/
def StopUnseen (x : Exchange) : Prop := ∀ p ∈ x.tasks, p.2.NoStopSeen

/-- The task polled is the first of its number. -/
theorem mem_tasks_of_task? {x : Exchange} {id : Nat} {t : Task} (h : x.task? id = some t) :
    (id, t) ∈ x.tasks := by
  obtain ⟨p, hp, hpt⟩ := Option.map_eq_some_iff.1 h
  have hid : p.1 = id := by simpa using List.find?_some hp
  rw [← hid, ← hpt]
  exact List.mem_of_find?_eq_some hp

namespace StopUnseen

variable {x : Exchange}

theorem of_tasksFrom {y : Exchange} (hx : x.StopUnseen) (h : TasksFrom x y) : y.StopUnseen := by
  intro p hp
  rcases h p hp with hp | hn
  · exact hx p hp
  · exact hn.noStopSeen

/-- Storing a task's new state keeps the loops unwarned, when the stored state has seen
no stop. -/
theorem storeAs {β : Type} {id : Nat} {wrap : β → Task} {r : Option β × Exchange}
    (hr : r.2.StopUnseen) (hw : ∀ b ∈ r.1, (wrap b).NoStopSeen) :
    (Exchange.storeAs id wrap r).StopUnseen := by
  obtain ⟨_ | b, y⟩ := r
  · intro p hp
    simp only [Exchange.storeAs, endTask_tasks, List.mem_filter] at hp
    exact hr p hp.1
  · intro p hp
    simp only [Exchange.storeAs, Exchange.setTask, List.mem_map] at hp
    obtain ⟨q, hq, rfl⟩ := hp
    split
    · exact hw b rfl
    · exact hr q hq

/-- Polling a task keeps the loops unwarned: a loop goes on only as long as it has seen no
stop. -/
theorem pollTask (hx : x.StopUnseen) (id : Nat) : (x.pollTask id).StopUnseen := by
  cases ht : x.task? id with
  | none =>
    rw [pollTask_none ht]
    exact hx
  | some t =>
    have hm := mem_tasks_of_task? ht
    cases t with
    | consume l =>
      rw [pollTask_consume ht]
      obtain ⟨hf, hs⟩ := consumeRun_frame id x l 10000
      refine storeAs (hx.of_tasksFrom hf) fun b hb => ?_
      show b.seen = 0
      rw [hs b hb]
      exact hx _ hm
    | sweep p =>
      rw [pollTask_sweep ht]
      obtain ⟨hf, hs⟩ := sweepRun_frame id p x
      refine storeAs (hx.of_tasksFrom hf) fun b hb => ?_
      show b.seen = 0
      rw [hs b hb]
      exact hx _ hm
    | handler h =>
      rw [pollTask_handler ht]
      exact storeAs (hx.of_tasksFrom (handlerRun_records x id h).tasks) fun _ _ => trivial
    | listen l =>
      rw [pollTask_listen ht]
      exact storeAs (hx.of_tasksFrom (listenRun_records id 10000 l x).tasks) fun _ _ => trivial
    | evict p =>
      rw [pollTask_evict ht]
      exact storeAs (hx.of_tasksFrom (evictRun_records id p x).tasks) fun _ _ => trivial

/-- Every step keeps the loops unwarned. -/
theorem step {y : Exchange} (hx : x.StopUnseen) (hs : Step x y) : y.StopUnseen := by
  cases hs with
  | poll id =>
    apply StopUnseen.pollTask
    exact hx
  | main => exact hx.of_tasksFrom (pollMain_records _).tasks
  | tick t => exact hx
  | sleep ms => exact hx
  | join ids => exact hx
  | idle => exact hx
  | send topic key value => exact hx.of_tasksFrom (send_records x topic key value).tasks
  | startServer => exact hx.of_tasksFrom (startServer_records x).tasks
  | startClient replyTopic timeout _ =>
    exact hx.of_tasksFrom (startClient_records x replyTopic timeout).tasks
  | sends reqs =>
    have hr := (beginSends_records x reqs).tasks
    dsimp only
    split
    · exact hx.of_tasksFrom hr
    · exact hx.of_tasksFrom hr
  | stopClient => exact hx.of_tasksFrom (stopClient_records x).tasks
  | requestStop => exact hx
  | dropStop => exact hx
  | close => exact hx
  | sweep => exact hx.of_tasksFrom (.of_subset (sweep_tasks_subset x))
  | backend b => exact hx
  | directory d => exact hx
  | createTopic name n => exact hx
  | partitions name => exact hx

end StopUnseen

/-- No loop of the server has seen a stop while it runs: a consume loop or the sweep that
sees one ends. -/
theorem Reachable.stopUnseen {x : Exchange} (hx : x.Reachable) : x.StopUnseen := by
  induction hx with
  | create => intro p hp; cases hp
  | step _ hs ih => exact ih.step hs

/-! ### What one step can do -/

/-- A step polls a task, is a sweep the caller runs itself, or is calm: the caller's
other actions, its wait and the clock touch neither the table nor the counters, and
record quiet events only. -/
theorem Step.cases_calm {x y : Exchange} (hs : Step x y) :
    (∃ id, y = ({ x with core := { x.core with queue := x.core.queue.erase id } } : Exchange).pollTask id) ∨
      y = x.sweep.2 ∨ Calm x y := by
  -- a move of the clock, of the caller's wait, of the registry or of the hub
  have hkeep : ∀ {z : Exchange}, z.server = x.server → z.tasks = x.tasks → z.stop = x.stop →
      z.history = x.history → Calm x z := fun hs ht hw hh =>
    .of_eq hs ht (fun h => hw ▸ h) (.of_eq hh)
  cases hs with
  | poll id => exact .inl ⟨id, rfl⟩
  | sweep => exact .inr (.inl rfl)
  | main => exact .inr (.inr .pollMain)
  | tick t => exact .inr (.inr (hkeep rfl rfl rfl rfl))
  | sleep ms => exact .inr (.inr (hkeep rfl rfl rfl rfl))
  | join ids => exact .inr (.inr (hkeep rfl rfl rfl rfl))
  | idle => exact .inr (.inr (hkeep rfl rfl rfl rfl))
  | send topic key value =>
    have hsend : (x.send topic key value).2 =
        (x.publish topic key value).2.note (.sent topic key value) := rfl
    rw [hsend]
    refine .inr (.inr (.note ?_ ?_))
    · exact .of_eq rfl rfl (fun h => by simpa using h) (.refl _ _)
    · trivial
  | startServer => exact .inr (.inr .startServer)
  | startClient replyTopic timeout _ => exact .inr (.inr (.startClient replyTopic timeout))
  | sends reqs =>
    have hc : Calm x (x.beginSends reqs).2 :=
      .of_offstage (fun _ he => Event.OfCaller.quiet he) (beginSends_offstage x reqs) (beginSends_records x reqs)
    refine .inr (.inr ?_)
    dsimp only
    split
    · exact hc
    · exact hc.trans (.of_eq rfl rfl (fun h => h) (.refl _ _))
  | stopClient =>
    refine .inr (.inr ?_)
    unfold Exchange.stopClient
    split
    · exact .refl x
    · exact .of_eq rfl rfl (fun h => h) (.refl _ _)
  | requestStop => exact .inr (.inr .requestStop)
  | dropStop => exact .inr (.inr .dropStop)
  | close => exact .inr (.inr (hkeep rfl rfl rfl rfl))
  | backend b => exact .inr (.inr (hkeep rfl rfl rfl rfl))
  | directory d => exact .inr (.inr (hkeep rfl rfl rfl rfl))
  | createTopic name n => exact .inr (.inr (hkeep rfl rfl rfl rfl))
  | partitions name => exact .inr (.inr (hkeep rfl rfl rfl rfl))

/-- A move of the machine polls a task or is calm. -/
theorem SchedStep.cases_calm {x y : Exchange} (hs : SchedStep x y) :
    (∃ id, y = ({ x with core := { x.core with queue := x.core.queue.erase id } } : Exchange).pollTask id) ∨
      Calm x y := by
  cases hs with
  | poll id => exact .inl ⟨id, rfl⟩
  | main => exact .inr .pollMain
  | tick t => exact .inr (.of_eq rfl rfl (fun h => h) (.refl _ _))

/-! ### Invariants of every run -/

/-- What a fact `K` about exchanges must survive to hold along every run: it holds of a
new exchange, and the calm moves, a handler's run, `dispatch` while no stop was asked
for, the sweep, and the sweep's stop once one was asked for, keep it. -/
structure Keeps (K : Exchange → Prop) : Prop where
  create : ∀ config group partitions retention backend,
    K (create config group (Broker.withRetention partitions retention) backend)
  calm : ∀ {x y}, K x → Calm x y → K y
  handler : ∀ {x id h}, K x → (id, Task.handler h) ∈ x.tasks →
    K (storeAs id Task.handler (handlerRun id h x))
  dispatch : ∀ {x} task rec, K x → x.stop.stopRequested 0 = false →
    K ((x.dispatch rec).2.note (.dispatched task rec (x.dispatch rec).1))
  sweep : ∀ {x}, K x → K x.sweep.2
  abandon : ∀ {x}, K x → x.stop.stopRequested 0 = true → K x.abandonInFlight

namespace Keeps

variable {K : Exchange → Prop} {x : Exchange}

/-- Storing the state of a task other than a handler keeps `K`. -/
theorem storeAs (hK : Keeps K) {β : Type} {id : Nat} {wrap : β → Task}
    (hw : ∀ b h, wrap b ≠ .handler h) {r : Option β × Exchange} (hr : K r.2) :
    K (Exchange.storeAs id wrap r) := by
  obtain ⟨_ | b, y⟩ := r
  · exact hK.calm hr (.endTask id)
  · exact hK.calm hr (.setTask (hw b))

/-- A consume loop that has seen no stop and holds a record keeps `K`, whether it stops,
waits for a slot, or hands the record to `dispatch`: it does the last only when the stop
still shows no change. -/
theorem consumeAcquire (hK : Keeps K) (hx : K x) (id : Nat) (l : ConsumeLoop) (hl : l.seen = 0)
    (record : BusRecord) (reg slot : Option Nat) :
    K (Exchange.consumeAcquire id l record reg slot x).exchange := by
  rw [Exchange.consumeAcquire]
  split
  next _ chg seen reg' w hpoll =>
  -- the poll changes the registrations only, and keeps what the loop has seen
  obtain ⟨hv, hc⟩ : w.version = x.stop.version ∧ w.closed = x.stop.closed := by
    simpa [hpoll] using Watch.poll_state x.stop l.seen reg (.task id)
  have hseen : chg = none → seen = l.seen := by
    simpa [hpoll] using (Watch.poll_change x.stop l.seen reg (.task id)).2
  extract_lets y₁ l₁
  have h₁ : K y₁ := hK.calm hx (.of_slots rfl rfl hv hc rfl)
  split
  · split
    refine hK.calm ?_ (Calm.leaveConsume _ _)
    exact hK.calm h₁ (.of_slots rfl rfl rfl rfl rfl)
  · next hchg =>
    have hs : seen = 0 := (hseen (by simpa using hchg)).trans hl
    split
    next _ ok slot' slots hslot =>
    extract_lets y₂
    have h₂ : K y₂ := hK.calm h₁ (.of_slots rfl rfl rfl rfl rfl)
    split
    · have h₃ : K (y₂.forgetStop reg') :=
        hK.calm h₂ (.of_slots rfl rfl (Watch.forget_version _ _) (Watch.forget_closed _ _) rfl)
      split
      · exact hK.calm (hK.calm h₃ .releaseSlot) (.leaveConsume _ _)
      · next hreq =>
        split
        next adm y₄ hdisp =>
        -- the stop the loop looks at is the one it has seen from the start
        have hfree : (y₂.forgetStop reg').stop.stopRequested 0 = false := by
          have h : ¬(y₂.forgetStop reg').stop.stopRequested seen = true := hreq
          rw [hs] at h
          exact Bool.eq_false_iff.2 h
        -- the record goes to `dispatch`, which records what became of it
        have hd := hK.dispatch id record h₃ hfree
        rw [hdisp] at hd
        split
        · -- a deadline past the clock's range stops the loop
          dsimp only [Turn.exchange] at hd ⊢
          exact hK.calm hd (.leaveConsume _ _)
        · exact hd
    · exact h₂

/-- A turn of a consume loop that has seen no stop keeps `K`. -/
theorem consumeTurn (hK : Keeps K) (hx : K x) (id : Nat) (l : ConsumeLoop) (hl : l.seen = 0) :
    K (Exchange.consumeTurn id l x).exchange := by
  unfold Exchange.consumeTurn
  split
  · exact hx
  · split
    · -- resting changes the clock only
      next s _ =>
      rw [consumePause]
      rcases s.poll x.core (.task id) with ⟨elapsed, s', core⟩
      split <;> exact hK.calm hx (.of_eq rfl rfl (fun h => h) (.refl _ _))
    · exact hK.calm hx (.consumeWait id l _ _ _)
    · exact hK.consumeAcquire hx id l hl _ _ _

/-- A consume loop's run keeps `K`: its loop goes on having seen no stop. -/
theorem consumeRun (hK : Keeps K) (hx : K x) (id n : Nat) (l : ConsumeLoop) (hl : l.seen = 0) :
    K (Exchange.consumeRun id n l x).2 := by
  refine runTurns_keeps (P := fun l y => l.seen = 0 ∧ K y) (Q := fun _ y => K y)
    (fun _ _ h => h.2) (fun l' y hy => ?_) n ⟨hl, hx⟩
  have hk := hK.consumeTurn hy.2 id l' hy.1
  have hs := (consumeTurn_frame id y l').2
  revert hk hs
  cases Exchange.consumeTurn id l' y with
  | next c y' => exact fun hk hs => ⟨(hs c rfl).trans hy.1, hk⟩
  | stop c y' => exact fun hk _ => hk

/-- A turn of a loop on the server's stop that has seen no stop keeps `K`, when its action
keeps `K` and its last action keeps `K` once a stop was asked for: it acts on a tick, and
ends only when the stop moved. -/
theorem stopTurn (hK : Keeps K) (hx : K x) (id period : Nat) (keep : Bool)
    {act finish : Exchange → Exchange} (hact : ∀ {y}, K y → K (act y))
    (hfinish : ∀ {y}, K y → y.stop.stopRequested 0 = true → K (finish y))
    (p : PeriodicLoop) (hp : p.seen = 0) :
    K (periodicTurn id period keep (fun x => some x.stop) (fun x w => { x with stop := w })
      act finish p x).exchange := by
  unfold periodicTurn
  split
  · next h => cases h
  next w hw =>
  obtain rfl : x.stop = w := Option.some.inj hw
  -- unfolded, not rewritten: the rewrite's motive sends the kernel through the whole turn
  unfold periodicTick
  extract_lets owner
  split
  next _ chg seen reg w' hpoll =>
  obtain ⟨hv, hc⟩ : w'.version = x.stop.version ∧ w'.closed = x.stop.closed := by
    simpa [hpoll] using Watch.poll_state x.stop p.seen p.stopReg owner
  have hchg : chg.isSome = x.stop.stopRequested p.seen := by
    simpa [hpoll] using (Watch.poll_change x.stop p.seen p.stopReg owner).1
  extract_lets y₁
  have h₁ : K y₁ := hK.calm hx (.of_slots rfl rfl hv hc rfl)
  split
  · -- the stop moved: the loop ends
    next hsome =>
    refine hfinish h₁ ?_
    show w'.stopRequested 0 = true
    rw [Watch.stopRequested_congr hv hc, ← hp, ← hchg]
    exact hsome
  · split
    next _ ready iv' core hiv =>
    extract_lets y₂
    have h₂ : K y₂ := hK.calm h₁ (.of_eq rfl rfl (fun h => h) (.refl _ _))
    split
    · split
      next y₃ reg₃ hkeep =>
      -- with `keep` the wait for a stop stays registered, otherwise it is forgotten
      have h₃ : K y₃ := by
        cases keep
        · obtain ⟨rfl, -⟩ := Prod.mk.inj hkeep.symm
          exact hK.calm h₂
            (.of_slots rfl rfl (Watch.forget_version _ _) (Watch.forget_closed _ _) rfl)
        · obtain ⟨rfl, -⟩ := Prod.mk.inj hkeep.symm
          exact h₂
      exact hact h₃
    · exact h₂

/-- The sweep task's run keeps `K`: it goes on having seen no stop. -/
theorem sweepRun (hK : Keeps K) (hx : K x) (id : Nat) (p : PeriodicLoop) (hp : p.seen = 0) :
    K (Exchange.sweepRun id p x).2 := by
  unfold Exchange.sweepRun periodicRun
  refine runTurns_keeps (P := fun p y => p.seen = 0 ∧ K y) (Q := fun _ y => K y)
    (fun _ _ h => h.2) (fun p' y hy => ?_) 10000 ⟨hp, hx⟩
  have hk := hK.stopTurn hy.2 id x.pollInterval false hK.sweep hK.abandon p' hy.1
  have hs := (periodicTurn_frame id x.pollInterval false (fun x => some x.stop)
    (fun x w => { x with stop := w }) (fun x => x.sweep.2) abandonInFlight
    (R := fun _ _ => True) (fun _ _ => trivial) (fun _ => trivial) (fun _ _ => trivial)
    (fun _ _ => trivial) (fun _ => trivial) (fun _ => trivial) p' y).2
  revert hk hs
  cases periodicTurn id x.pollInterval false (fun x => some x.stop)
      (fun x w => { x with stop := w }) (fun x => x.sweep.2) abandonInFlight p' y with
  | next c y' => exact fun hk hs => ⟨(hs c rfl).trans hy.1, hk⟩
  | stop c y' => exact fun hk _ => hk

/-- Polling any task keeps `K`, while the loops have seen no stop. -/
theorem pollTask (hK : Keeps K) (hx : K x) (hu : x.StopUnseen) (id : Nat) : K (x.pollTask id) := by
  cases ht : x.task? id with
  | none =>
    rw [pollTask_none ht]
    exact hx
  | some t =>
    have hm := mem_tasks_of_task? ht
    cases t with
    | consume l =>
      rw [pollTask_consume ht]
      exact hK.storeAs (fun _ _ h => by cases h) (hK.consumeRun hx id 10000 l (hu _ hm))
    | sweep p =>
      rw [pollTask_sweep ht]
      exact hK.storeAs (fun _ _ h => by cases h) (hK.sweepRun hx id p (hu _ hm))
    | handler h =>
      rw [pollTask_handler ht]
      exact hK.handler hx hm
    | listen l =>
      rw [pollTask_listen ht]
      exact hK.storeAs (fun _ _ h => by cases h) (hK.calm hx (.listenRun id 10000 l))
    | evict p =>
      rw [pollTask_evict ht]
      exact hK.storeAs (fun _ _ h => by cases h) (hK.calm hx (.evictRun id p))

/-- Every step of a run keeps `K`, while the loops have seen no stop. -/
theorem step (hK : Keeps K) {y : Exchange} (hx : K x) (hu : x.StopUnseen) (hs : Step x y) :
    K y := by
  rcases hs.cases_calm with ⟨id, rfl⟩ | rfl | hc
  · -- taking the task off the queue moves the clock's queue only
    exact hK.pollTask (x := { x with core := { x.core with queue := x.core.queue.erase id } })
      (hK.calm hx (.of_eq rfl rfl (fun h => h) (.refl _ _))) hu id
  · exact hK.sweep hx
  · exact hK.calm hx hc

end Keeps

/-- A fact that a new exchange has and every move of a run keeps holds of every reachable
exchange. -/
theorem Reachable.keeps {K : Exchange → Prop} (hK : Keeps K) {x : Exchange} (hx : x.Reachable) :
    K x := by
  -- the loops' unseen stop is carried along, as `step` needs it
  suffices h : K x ∧ x.StopUnseen from h.1
  induction hx with
  | create config group partitions retention backend =>
    exact ⟨hK.create config group partitions retention backend, fun _ hp => nomatch hp⟩
  | step _ hs ih => exact ⟨hK.step ih.1 ih.2 hs, ih.2.step hs⟩

end Exchange

end TokenGate
