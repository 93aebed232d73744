import TokenGate.Proofs.Pending
/-!
# `TokenGate.Proofs.Shutdown`: the server once a stop was asked for

The server's stop is a watch: the caller sends on it, or drops its sender, and every
consume loop and the sweep task compare its version with the first one on each turn.
Nothing records the stop itself, so what follows it is stated from a reachable exchange
where it was asked for (`stopRequested 0 = true`).

* `consumeRun_of_stop`: a consume loop's next poll ends it, with one last commit unless it
  holds a record it has not dispatched (`EndsAfterStop`); a loop resting after a failed
  fetch rests on, recording nothing, until its sleep is over (`RestsAfterStop`);
* `sweepRun_of_stop`: the sweep task's next poll ends it, through `abandonInFlight`: the
  server is marked closing, and every request in flight is dropped with its handler and
  recorded;
* `pollTask_of_stop`: no task hands a record to `dispatch` or publishes an answer
  (`Event.Serves`). Of the caller's actions only a sweep it runs itself still serves
  (`Step.serves_nothing_of_stop`), and the machine's own moves serve nothing
  (`Reachable.schedSteps_of_stop`), so neither does stopping a node;
* `Reachable.closed`: once the sweep stopped nothing is in flight, the slots come back,
  and the only handlers left running are those whose dispatch overflowed the clock.

`stop_ends_serving` gathers them.
-/

set_option autoImplicit false

namespace TokenGate

open Sched

/-- Polling a watch that says stop, by a poller that has seen no stop, reports the change,
and the watch polled still says stop. -/
theorem Sched.Watch.poll_of_stop {w w' : Watch} {seen seen' : Nat} {reg reg' : Option Nat} {o : Waker}
    {chg : Option Change} (hs : seen = 0) (hstop : w.stopRequested 0 = true)
    (hpoll : w.poll seen reg o = ((chg, seen', reg'), w')) :
    chg.isSome = true ∧ w'.stopRequested 0 = true := by
  have hchg := (Watch.poll_change w seen reg o).1
  obtain ⟨hv, hc⟩ := Watch.poll_state w seen reg o
  rw [hpoll, hs] at hchg
  rw [hpoll] at hv hc
  exact ⟨hchg.trans hstop, by rw [Watch.stopRequested_congr hv hc]; exact hstop⟩

namespace Exchange

/-- The events of serving a request: a record handed to `dispatch`, an answer published. -/
def Event.Serves : Event → Prop
  | .dispatched .. | .answered .. => True
  | _ => False

namespace Event

variable {e : Event}

theorem Quiet.not_serves (he : e.Quiet) : ¬ Event.Serves e := by
  cases e <;> first | exact he.elim | exact fun h => h

theorem OfHandler.not_serves (he : Event.OfHandler e) : ¬ Event.Serves e := by
  cases e <;> first | exact he.elim | exact fun h => h

theorem OfListen.not_serves {id : Nat} (he : Event.OfListen id e) : ¬ Event.Serves e := by
  cases e <;> first | exact he.elim | exact fun h => h

end Event

/-- A run whose events do not serve keeps a stop asked for and serves nothing. -/
theorem Records.serves_nothing {P : Event → Prop} {x y : Exchange} (hP : ∀ e, P e → ¬ Event.Serves e)
    (hr : Records P x y) (hstop : x.stop.stopRequested 0 = true) :
    GrowsBy (fun e => ¬ Event.Serves e) x.history y.history ∧ y.stop.stopRequested 0 = true :=
  ⟨hr.history.mono hP, hr.stop ▸ hstop⟩

/-- How a consume loop `l` of task `id` ends in `y`, from the history `h`, once a stop was
asked for: the stop stays asked for, and the loop commits its position one last time unless
it holds a record it has not dispatched. -/
structure EndsAfterStop (h : History) (id : Nat) (l : ConsumeLoop) (y : Exchange) : Prop where
  stop : y.stop.stopRequested 0 = true
  commit : ∃ t, y.history = h ++ if l.held then [] else [(t, .committed id l.consumer)]

/-- How a consume loop `l`, resting after a failed fetch, rests on as `l'` in `y`, from the
history `h`, once a stop was asked for: nothing is recorded, the stop stays asked for, and
the loop keeps what it holds, what it has seen and its consumer. -/
structure RestsAfterStop (h : History) (l l' : ConsumeLoop) (y : Exchange) : Prop where
  history : y.history = h
  stop : y.stop.stopRequested 0 = true
  held : l'.held = l.held
  seen : l'.seen = l.seen
  consumer : l'.consumer = l.consumer
  pausing : ∃ s, l'.phase = .pausing s

section Loops

variable {x : Exchange} {l : ConsumeLoop}

/-- A loop that ends after a move that recorded nothing, holding what it held and with its
consumer, ends as it would have from the start. -/
theorem EndsAfterStop.of_eq {id : Nat} {z : Exchange} {l' : ConsumeLoop}
    (h : EndsAfterStop x.history id l' z) (hheld : l'.held = l.held) (hc : l'.consumer = l.consumer) :
    EndsAfterStop x.history id l z := by
  obtain ⟨t, ht⟩ := h.commit
  exact ⟨h.stop, t, ht.trans (by rw [hheld, hc])⟩

/-- A consume loop waiting for a record ends at its turn once a stop was asked for that it
has not seen. -/
theorem consumeWait_of_stop (hl : l.seen = 0) (hstop : x.stop.stopRequested 0 = true)
    (id : Nat) (iv : Interval) (reg : Option Nat) (fw : Option FetchWait) :
    ∃ y, consumeWait id l iv reg fw x = .stop none y ∧ EndsAfterStop x.history id l y := by
  rw [consumeWait]
  split
  next _ chg seen reg' w hpoll =>
  obtain ⟨hchg, hw⟩ := Watch.poll_of_stop hl hstop hpoll
  extract_lets y₁ l₁
  rw [if_pos hchg]
  refine ⟨_, rfl, ?_, ?_⟩
  · simpa [y₁] using hw
  · rw [leaveConsume_history]
    exact ⟨_, rfl⟩

/-- A consume loop waiting for a slot ends at its turn once a stop was asked for that it
has not seen: it gives back what the semaphore holds for it, and does not commit, as it
holds a record. -/
theorem consumeAcquire_of_stop (hl : l.seen = 0) (hstop : x.stop.stopRequested 0 = true)
    (id : Nat) (record : BusRecord) (reg slot : Option Nat) :
    ∃ y, consumeAcquire id l record reg slot x = .stop none y ∧ EndsAfterStop x.history id l y := by
  rw [consumeAcquire]
  split
  next _ chg seen reg' w hpoll =>
  obtain ⟨hchg, hw⟩ := Watch.poll_of_stop hl hstop hpoll
  extract_lets y₁ l₁
  rw [if_pos hchg]
  split
  next slots ws habandon =>
  refine ⟨_, rfl, ?_, ?_⟩
  · simpa [y₁] using hw
  · rw [leaveConsume_history]
    exact ⟨_, rfl⟩

/-- Once a stop was asked for that a consume loop has not seen, a turn that is not a rest
ends it. -/
theorem consumeTurn_of_stop (hl : l.seen = 0) (hstop : x.stop.stopRequested 0 = true) (id : Nat)
    {iv : Interval} (hc : l.commitTick = some iv) (hp : ∀ s, l.phase ≠ .pausing s) :
    ∃ y, consumeTurn id l x = .stop none y ∧ EndsAfterStop x.history id l y := by
  unfold consumeTurn
  rw [hc]
  dsimp only
  cases hph : l.phase with
  | pausing s => exact absurd hph (hp s)
  | waiting reg fw => exact consumeWait_of_stop hl hstop id iv reg fw
  | acquiring record reg slot => exact consumeAcquire_of_stop hl hstop id record reg slot

/-- A rest moves the clock only: the loop waits again once its sleep is over, and rests on
otherwise. -/
theorem consumePause_cases (id : Nat) (s : Sleep) :
    ∃ c : Core,
      consumePause id l s x = .next { l with phase := .waiting none none } { x with core := c } ∨
        ∃ s', consumePause id l s x =
          .stop (some { l with phase := .pausing s' }) { x with core := c } := by
  unfold consumePause
  extract_lets polled y
  split
  · exact ⟨_, .inl rfl⟩
  · exact ⟨_, .inr ⟨_, rfl⟩⟩

/-- The run of a consume loop that has made its commit tick, once a stop was asked for that
it has not seen: it ends, or it rests on, recording nothing. -/
theorem consumeRun_of_stop_ticking (hl : l.seen = 0) (hstop : x.stop.stopRequested 0 = true)
    (id : Nat) {iv : Interval} (hc : l.commitTick = some iv) (n : Nat) :
    (∃ y, consumeRun id (n + 2) l x = (none, y) ∧ EndsAfterStop x.history id l y) ∨
      (∃ s, l.phase = .pausing s) ∧
        ∃ l' y, consumeRun id (n + 2) l x = (some l', y) ∧ y.tasks = x.tasks ∧
          RestsAfterStop x.history l l' y := by
  unfold consumeRun
  rw [runTurns]
  by_cases hp : ∃ s, l.phase = .pausing s
  · obtain ⟨s, hs⟩ := hp
    have hturn : consumeTurn id l x = consumePause id l s x := by
      unfold consumeTurn
      rw [hc]
      dsimp only
      rw [hs]
    rw [hturn]
    obtain ⟨c, hwake | ⟨s', hrest⟩⟩ := consumePause_cases (l := l) (x := x) id s
    · -- the sleep is over: the loop waits again, and sees the stop at once
      rw [hwake]
      dsimp only
      obtain ⟨y, hy, hend⟩ := consumeTurn_of_stop (x := { x with core := c })
        (l := { l with phase := .waiting none none }) hl hstop id hc (fun _ h => by cases h)
      rw [runTurns, hy]
      exact .inl ⟨y, rfl, hend.of_eq rfl rfl⟩
    · rw [hrest]
      exact .inr ⟨⟨s, hs⟩, _, _, rfl, rfl, rfl, hstop, rfl, rfl, rfl, ⟨s', rfl⟩⟩
  · obtain ⟨y, hy, hend⟩ := consumeTurn_of_stop hl hstop id hc (fun s h => hp ⟨s, h⟩)
    rw [hy]
    exact .inl ⟨y, rfl, hend⟩

/-- Once a stop was asked for that a consume loop has not seen, its run ends it, with one
last commit unless it holds a record; or, resting after a failed fetch, it rests on and
records nothing. -/
theorem consumeRun_of_stop (hl : l.seen = 0) (hstop : x.stop.stopRequested 0 = true) (id n : Nat) :
    (∃ y, consumeRun id (n + 3) l x = (none, y) ∧ EndsAfterStop x.history id l y) ∨
      (∃ s, l.phase = .pausing s) ∧
        ∃ l' y, consumeRun id (n + 3) l x = (some l', y) ∧ y.tasks = x.tasks ∧
          RestsAfterStop x.history l l' y := by
  cases hc : l.commitTick with
  | some iv => exact consumeRun_of_stop_ticking hl hstop id hc (n + 1)
  | none =>
    -- the first turn makes the commit tick, and changes nothing else
    have hfirst : consumeRun id (n + 3) l x = consumeRun id (n + 2)
        { l with
          commitTick := some (Interval.create x.core.now x.server.config.commitInterval.nanos) } x := by
      unfold consumeRun
      rw [runTurns]
      unfold consumeTurn
      rw [hc]
    rw [hfirst]
    rcases consumeRun_of_stop_ticking (l := { l with commitTick := some _ }) hl hstop id rfl n with
      ⟨y, hy, hend⟩ | ⟨hp, l', y, hy, ht, hrest⟩
    · exact .inl ⟨y, hy, hend.of_eq rfl rfl⟩
    · exact .inr ⟨hp, l', y, hy, ht, ⟨hrest.history, hrest.stop, hrest.held, hrest.seen,
        hrest.consumer, hrest.pausing⟩⟩

/-- Once a stop was asked for that a consume loop has not seen, polling it ends it, with one
last commit unless it holds a record; or it rests on after a failed fetch, recording
nothing. -/
theorem pollTask_consume_of_stop {id : Nat} (ht : x.task? id = some (.consume l)) (hl : l.seen = 0)
    (hstop : x.stop.stopRequested 0 = true) :
    (EndsAfterStop x.history id l (x.pollTask id) ∧ ∀ t, (id, t) ∉ (x.pollTask id).tasks) ∨
      (∃ s, l.phase = .pausing s) ∧
        ∃ l', (id, Task.consume l') ∈ (x.pollTask id).tasks ∧
          RestsAfterStop x.history l l' (x.pollTask id) := by
  rw [pollTask_consume ht, show (10000 : Nat) = 9997 + 3 from rfl]
  rcases consumeRun_of_stop hl hstop id 9997 with ⟨y, hy, hend⟩ | ⟨hp, l', y, hy, htasks, hrest⟩
  · rw [hy]
    refine .inl ⟨⟨by simpa [storeAs] using hend.stop, by simpa [storeAs] using hend.commit⟩, ?_⟩
    intro t hm
    simp [storeAs] at hm
  · rw [hy]
    refine .inr ⟨hp, l', ?_, ⟨by simpa using hrest.history, by simpa using hrest.stop, hrest.held,
      hrest.seen, hrest.consumer, hrest.pausing⟩⟩
    -- the loop is stored back under its number
    have hm : (id, Task.consume l) ∈ y.tasks := htasks ▸ mem_tasks_of_task? ht
    simp only [storeAs, setTask, List.mem_map]
    exact ⟨_, hm, by simp⟩

end Loops

section Sweep

variable {x : Exchange}

/-- A loop on the server's stop that has not seen a stop asked for ends at its first turn,
with its last action on the stop as it polled it. -/
theorem periodicTurn_of_stop {p : PeriodicLoop} (hp : p.seen = 0)
    (hstop : x.stop.stopRequested 0 = true) (id period : Nat) (keep : Bool)
    (act finish : Exchange → Exchange) :
    ∃ w : Watch, w.stopRequested 0 = true ∧
      periodicTurn id period keep (fun x => some x.stop) (fun x w => { x with stop := w }) act finish
        p x = .stop none (finish { x with stop := w }) := by
  unfold periodicTurn
  dsimp only
  unfold periodicTick
  extract_lets owner
  split
  next _ chg seen reg w hpoll =>
  obtain ⟨hchg, hw⟩ := Watch.poll_of_stop hp hstop hpoll
  refine ⟨w, hw, ?_⟩
  rw [if_pos hchg]

/-- Once a stop was asked for that the sweep task has not seen, its run ends at its first
turn, through `abandonInFlight`, on the stop as it polled it. -/
theorem sweepRun_of_stop {p : PeriodicLoop} (hp : p.seen = 0) (hstop : x.stop.stopRequested 0 = true)
    (id : Nat) :
    ∃ w : Watch, w.stopRequested 0 = true ∧
      sweepRun id p x = (none, ({ x with stop := w } : Exchange).abandonInFlight) := by
  obtain ⟨w, hw, hturn⟩ := periodicTurn_of_stop hp hstop id x.pollInterval false
    (fun x => x.sweep.2) abandonInFlight
  refine ⟨w, hw, ?_⟩
  unfold sweepRun periodicRun
  rw [show (10000 : Nat) = 9999 + 1 from rfl, runTurns, hturn]

/-- The sweep's stop marks the server closing, empties the table, ends the handlers of the
requests in flight and records them; the stop stays. -/
theorem abandonInFlight_spec (x : Exchange) :
    x.abandonInFlight.server.closing = true ∧ x.abandonInFlight.server.inFlight = [] ∧
      x.abandonInFlight.tasks = x.tasks.filter (fun q => q.1 ∉ x.server.inFlight.map (·.task)) ∧
      x.abandonInFlight.stop = x.stop ∧
      ∃ t, x.abandonInFlight.history = x.history ++ [(t, .cleared x.server.inFlight)] := by
  obtain ⟨core, -, heq⟩ := abandonInFlight_eq x
  obtain ⟨core', -, heq'⟩ := foldl_releaseSlot x.server.inFlight
    { x with
      server := { x.server with closing := true, inFlight := [] }
      tasks := x.tasks.filter (fun p => p.1 ∉ x.server.inFlight.map InFlight.task)
      core }
  rw [heq, heq']
  exact ⟨rfl, rfl, rfl, rfl, _, rfl⟩

/-- Once a stop was asked for that the sweep task has not seen, polling it ends it: the
server is marked closing, and every request in flight is dropped with its handler and
recorded. -/
theorem pollTask_sweep_of_stop {id : Nat} {p : PeriodicLoop} (ht : x.task? id = some (.sweep p))
    (hp : p.seen = 0) (hstop : x.stop.stopRequested 0 = true) :
    (x.pollTask id).tasks = x.tasks.filter (fun q => q.1 ∉ id :: x.server.inFlight.map (·.task)) ∧
      (x.pollTask id).server.closing = true ∧ (x.pollTask id).server.inFlight = [] ∧
      (x.pollTask id).stop.stopRequested 0 = true ∧
      ∃ t, (x.pollTask id).history = x.history ++ [(t, .cleared x.server.inFlight)] := by
  obtain ⟨w, hw, hrun⟩ := sweepRun_of_stop hp hstop id
  obtain ⟨hc, hi, htasks, hst, hh⟩ := abandonInFlight_spec ({ x with stop := w } : Exchange)
  rw [pollTask_sweep ht, hrun]
  simp only [storeAs, endTask_tasks, endTask_server, endTask_stop, endTask_history]
  refine ⟨?_, hc, hi, hst ▸ hw, hh⟩
  rw [htasks, List.filter_filter]
  congr 1
  funext q
  simp [and_comm, bne]

end Sweep

section Serving

variable {x y : Exchange}

/-- Once a stop was asked for, polling any task serves nothing and leaves the stop asked
for: the consume loops and the sweep task end or rest, the handlers answer on their
channels, the client's tasks deliver. -/
theorem pollTask_of_stop (hu : x.StopUnseen) (hstop : x.stop.stopRequested 0 = true) (id : Nat) :
    GrowsBy (fun e => ¬ Event.Serves e) x.history (x.pollTask id).history ∧
      (x.pollTask id).stop.stopRequested 0 = true := by
  cases ht : x.task? id with
  | none =>
    rw [pollTask_none ht]
    exact ⟨.refl _ _, hstop⟩
  | some t =>
    have hm := mem_tasks_of_task? ht
    cases t with
    | consume l =>
      rcases pollTask_consume_of_stop ht (hu _ hm) hstop with ⟨hend, -⟩ | ⟨-, l', -, hrest⟩
      · -- the loop's last commit serves nothing
        obtain ⟨t, hh⟩ := hend.commit
        refine ⟨?_, hend.stop⟩
        rw [hh]
        split
        · exact .of_eq (List.append_nil _)
        · exact (GrowsBy.refl _ _).snoc t fun h => h
      · exact ⟨.of_eq hrest.history, hrest.stop⟩
    | sweep p =>
      obtain ⟨-, -, -, hst, t, hh⟩ := pollTask_sweep_of_stop ht (hu _ hm) hstop
      rw [hh]
      exact ⟨(GrowsBy.refl _ _).snoc t fun h => h, hst⟩
    | handler h =>
      rw [pollTask_handler ht, storeAs_history, storeAs_stop]
      exact (handlerRun_records x id h).serves_nothing (fun _ he => Event.OfHandler.not_serves he)
        hstop
    | listen l =>
      rw [pollTask_listen ht, storeAs_history, storeAs_stop]
      exact (listenRun_records id 10000 l x).serves_nothing
        (fun _ he => Event.OfListen.not_serves he) hstop
    | evict p =>
      rw [pollTask_evict ht, storeAs_history, storeAs_stop]
      exact (evictRun_records id p x).serves_nothing (fun _ he => he.elim) hstop

/-- Once a stop was asked for, a step serves nothing, unless it is a sweep the caller runs
itself. -/
theorem Step.serves_nothing_of_stop (hu : x.StopUnseen) (hstop : x.stop.stopRequested 0 = true)
    (hs : Step x y) : GrowsBy (fun e => ¬ Event.Serves e) x.history y.history ∨ y = x.sweep.2 := by
  rcases hs.cases_calm with ⟨id, rfl⟩ | rfl | hc
  · exact .inl (pollTask_of_stop
      (x := { x with core := { x.core with queue := x.core.queue.erase id } }) hu hstop id).1
  · exact .inr rfl
  · exact .inl (hc.history.mono fun _ he => Event.Quiet.not_serves he)

/-- Once a stop was asked for, a move of the machine serves nothing and leaves the stop
asked for. -/
theorem SchedStep.of_stop (hu : x.StopUnseen) (hstop : x.stop.stopRequested 0 = true)
    (hs : SchedStep x y) :
    GrowsBy (fun e => ¬ Event.Serves e) x.history y.history ∧ y.stop.stopRequested 0 = true := by
  rcases hs.cases_calm with ⟨id, rfl⟩ | hc
  · exact pollTask_of_stop (x := { x with core := { x.core with queue := x.core.queue.erase id } })
      hu hstop id
  · exact ⟨hc.history.mono fun _ he => Event.Quiet.not_serves he, hc.stop hstop⟩

/-- Once a stop was asked for, the machine's own moves serve nothing. -/
theorem Reachable.schedSteps_of_stop (hx : x.Reachable) (hstop : x.stop.stopRequested 0 = true)
    (hr : Relation.ReflTransGen SchedStep x y) :
    GrowsBy (fun e => ¬ Event.Serves e) x.history y.history ∧ y.stop.stopRequested 0 = true := by
  -- each move starts from a reachable exchange, whose loops have seen no stop
  induction hr with
  | refl => exact ⟨.refl _ _, hstop⟩
  | tail hr' hs ih =>
    obtain ⟨h₁, h₂⟩ := hs.of_stop (hx.schedSteps hr').stopUnseen ih.2
    exact ⟨ih.1.trans h₁, h₂⟩

/-- Stopping a node serves nothing more: it asks for the stop, then lets the tasks run
until the serving ones ended. -/
theorem Reachable.nodeShutdown_of_stop {r : NodeRuntime} (h : r.exchange.Reachable) :
    GrowsBy (fun e => ¬ Event.Serves e) r.exchange.history r.shutdown.2.history := by
  have h₁ : GrowsBy (fun e => ¬ Event.Serves e) r.exchange.history r.exchange.requestStop.history :=
    Calm.requestStop.history.mono fun _ he => Event.Quiet.not_serves he
  have hj := (h.step (.requestStop _)).step (.join _ r.serving)
  exact h₁.trans (hj.schedSteps_of_stop (Watch.stopRequested_send _) (run_schedSteps _ _)).1

end Serving

/-- Once the sweep stopped, nothing is in flight: every slot is free or handed to a loop
waiting for one, all of them free once every task is idle, and every handler still running
was left so by a dispatch whose deadline fell past the clock's range. -/
theorem Reachable.closed {x : Exchange} (hx : x.Reachable) (hc : x.server.closing = true) :
    x.server.inFlight = [] ∧
      x.server.slots.permits + x.server.slots.handed = x.server.config.maxPending ∧
      (x.core.queue = [] → x.server.slots.permits = x.server.config.maxPending) ∧
      ∀ id h, (id, Task.handler h) ∈ x.tasks →
        ∃ t task rec, (t, Event.dispatched task rec (.overflowed id h.result)) ∈ x.history := by
  have hb := hx.slots.pendingBound_of_serving hx.serving
  obtain ⟨hnil, hidle⟩ := hb.stopped hc
  refine ⟨hnil, ?_, hidle, fun id h hm => ?_⟩
  · have htotal := hb.total
    rw [hnil, List.length_nil] at htotal
    omega
  · rcases hb.handlers id h hm with ⟨e, he, -⟩ | ho
    · rw [hnil] at he
      cases he
    · exact ho

/-- What a stop asked for of the server's tasks brings, from every reachable exchange. After
it a step serves nothing (it hands no record to `dispatch` and publishes no answer) unless
it is a sweep the caller runs itself; the machine's own moves serve nothing, and neither
does stopping a node. The sweep task's next poll ends it and the handlers of the requests
in flight, marks the server closing and records what it dropped; from then on nothing is
in flight, every slot is free or handed to a waiting loop and all are free once every task
is idle, and a handler still running is one whose dispatch overflowed the clock. A consume
loop's next poll ends it, with one last commit unless it holds a record it has not
dispatched, or, resting after a failed fetch, it rests on and records nothing. -/
theorem stop_ends_serving :
    (∀ x y : Exchange, x.Reachable → x.stop.stopRequested 0 = true → Step x y →
      GrowsBy (fun e => ¬ Event.Serves e) x.history y.history ∨ y = x.sweep.2) ∧
    (∀ x y : Exchange, x.Reachable → x.stop.stopRequested 0 = true →
      Relation.ReflTransGen SchedStep x y →
        GrowsBy (fun e => ¬ Event.Serves e) x.history y.history) ∧
    (∀ r : NodeRuntime, r.exchange.Reachable →
      GrowsBy (fun e => ¬ Event.Serves e) r.exchange.history r.shutdown.2.history) ∧
    (∀ (x : Exchange) (id : Nat) (p : PeriodicLoop), x.Reachable → x.stop.stopRequested 0 = true →
      (id, Task.sweep p) ∈ x.tasks →
      let y := ({ x with core := { x.core with queue := x.core.queue.erase id } } : Exchange).pollTask id
      y.tasks = x.tasks.filter (fun q => q.1 ∉ id :: x.server.inFlight.map (·.task)) ∧
        y.server.closing = true ∧ y.server.inFlight = [] ∧
        ∃ t, y.history = x.history ++ [(t, .cleared x.server.inFlight)]) ∧
    (∀ x : Exchange, x.Reachable → x.server.closing = true →
      x.server.inFlight = [] ∧
        x.server.slots.permits + x.server.slots.handed = x.server.config.maxPending ∧
        (x.core.queue = [] → x.server.slots.permits = x.server.config.maxPending) ∧
        ∀ id h, (id, Task.handler h) ∈ x.tasks →
          ∃ t task rec, (t, Event.dispatched task rec (.overflowed id h.result)) ∈ x.history) ∧
    (∀ (x : Exchange) (id : Nat) (l : ConsumeLoop), x.Reachable → x.stop.stopRequested 0 = true →
      (id, Task.consume l) ∈ x.tasks →
      let y := ({ x with core := { x.core with queue := x.core.queue.erase id } } : Exchange).pollTask id
      (EndsAfterStop x.history id l y ∧ ∀ t, (id, t) ∉ y.tasks) ∨
        (∃ s, l.phase = .pausing s) ∧
          ∃ l', (id, Task.consume l') ∈ y.tasks ∧ RestsAfterStop x.history l l' y) := by
  refine ⟨fun x y hx hstop hs => hs.serves_nothing_of_stop hx.stopUnseen hstop,
    fun x y hx hstop hr => (hx.schedSteps_of_stop hstop hr).1,
    fun r h => h.nodeShutdown_of_stop, fun x id p hx hstop hm => ?_, fun x hx hc => hx.closed hc,
    fun x id l hx hstop hm => ?_⟩
  · obtain ⟨ht, hc, hi, -, hh⟩ := pollTask_sweep_of_stop
      (x := { x with core := { x.core with queue := x.core.queue.erase id } })
      (hx.slots.ids.task?_eq_some_iff.2 hm) (hx.stopUnseen _ hm) hstop
    exact ⟨ht, hc, hi, hh⟩
  · exact pollTask_consume_of_stop
      (x := { x with core := { x.core with queue := x.core.queue.erase id } })
      (hx.slots.ids.task?_eq_some_iff.2 hm) (hx.stopUnseen _ hm) hstop

/-- After a request was dispatched and the stop asked for, polling the sweep task (task 1)
ends it with the request's handler and empties the table, every slot coming back once
every task is idle, and polling the consume loop (task 0), which holds no record, ends it
with one last commit. -/
theorem stop_ends_serving_after_dispatch :
    ∃ x : Exchange, x.Reachable ∧ x.stop.stopRequested 0 = true ∧ x.server.inFlight.length = 1 ∧
      (∃ p, (1, Task.sweep p) ∈ x.tasks ∧
        let y := ({ x with core := { x.core with queue := x.core.queue.erase 1 } } : Exchange).pollTask 1
        y.tasks = x.tasks.filter (fun q => q.1 ∉ 1 :: x.server.inFlight.map (·.task)) ∧
          y.server.closing = true ∧ y.server.inFlight = [] ∧
          (y.core.queue = [] → y.server.slots.permits = y.server.config.maxPending)) ∧
      ∃ l, (0, Task.consume l) ∈ x.tasks ∧ l.held = false ∧
        EndsAfterStop x.history 0 l
          (({ x with core := { x.core with queue := x.core.queue.erase 0 } } : Exchange).pollTask 0) := by
  -- the consume loop (task 0) dispatches the request to its handler (task 2), then the stop
  obtain ⟨x, hx, hxdef⟩ := (⟨_, ((((Reachable.create ⟨"requests", "responses", 4, .ofMillis 10000,
      .ofMillis 10, .ofMillis 50⟩ "group" 1 100 (Backend.ofRegistry Registry.empty)).step
      (.startServer _)).step (.send _ "requests" none (Envelope.encode Request.toValue
        (Envelope.request ⟨0, 1⟩ (.validateDeviceToken "a") "replies" 0)))).step (.poll _ 0)).step
      (.requestStop _), rfl⟩ : ∃ x : Exchange, x.Reachable ∧ x = _)
  -- what the run leaves: the stop asked for, one request in flight, the sweep under 1, and
  -- the loop under 0 holding nothing and not resting
  obtain ⟨hstop, hlen, hsweep, hwait⟩ : x.stop.stopRequested 0 = true ∧ x.server.inFlight.length = 1 ∧
      (x.task? 1).map (fun t => match t with | .sweep _ => true | _ => false) = some true ∧
      (x.consumeLoop? 0).map (fun l => (l.held, match l.phase with | .pausing _ => true | _ => false)) =
        some (false, false) := by
    rw [hxdef]
    decide +kernel
  obtain ⟨t, hp, hts⟩ := Option.map_eq_some_iff.1 hsweep
  obtain ⟨p, rfl⟩ : ∃ p, t = .sweep p := by
    cases t with
    | sweep p => exact ⟨p, rfl⟩
    | _ => cases hts
  obtain ⟨l, hl, hlw⟩ := Option.map_eq_some_iff.1 hwait
  obtain ⟨hheld, hnp⟩ := Prod.mk.inj hlw
  have hm := hx.slots.ids.consumeLoop?_eq_some_iff.1 hl
  have hsw := hx.slots.ids.task?_eq_some_iff.1 hp
  obtain ⟨ht, hc, hi, -⟩ := stop_ends_serving.2.2.2.1 x 1 p hx hstop hsw
  refine ⟨x, hx, hstop, hlen, ⟨p, hsw, ht, hc, hi,
    (stop_ends_serving.2.2.2.2.1 _ (hx.step (.poll _ 1)) hc).2.2.1⟩, l, hm, hheld, ?_⟩
  rcases stop_ends_serving.2.2.2.2.2 x 0 l hx hstop hm with ⟨hend, -⟩ | ⟨⟨s, hs⟩, -⟩
  · exact hend
  · rw [hs] at hnp
    cases hnp

/-- The stop does not stop a sweep the caller runs itself: after the handler of a
request dispatched before the stop answered, such a sweep publishes the answer. -/
theorem sweep_answers_after_stop : ∃ x y : Exchange, x.Reachable ∧ x.stop.stopRequested 0 = true ∧
    Step x y ∧ (answeredOf x.history).length = 0 ∧ (answeredOf y.history).length = 1 := by
  -- the consume loop (task 0) dispatches the request, its handler (task 2) answers
  obtain ⟨x, hx, hxdef⟩ := (⟨_, (((((Reachable.create ⟨"requests", "responses", 4, .ofMillis 10000,
      .ofMillis 10, .ofMillis 50⟩ "group" 1 100 (Backend.ofRegistry Registry.empty)).step
      (.startServer _)).step (.send _ "requests" none (Envelope.encode Request.toValue
        (Envelope.request ⟨0, 1⟩ (.validateDeviceToken "a") "replies" 0)))).step (.poll _ 0)).step
      (.poll _ 2)).step (.requestStop _), rfl⟩ : ∃ x : Exchange, x.Reachable ∧ x = _)
  obtain ⟨hstop, hbefore, hafter⟩ : x.stop.stopRequested 0 = true ∧
      (answeredOf x.history).length = 0 ∧ (answeredOf x.sweep.2.history).length = 1 := by
    rw [hxdef]
    decide +kernel
  exact ⟨x, _, hx, hstop, .sweep x, hbefore, hafter⟩

end Exchange

end TokenGate
