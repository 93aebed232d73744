import Mathlib
import TokenGate.Proofs.Sync
import TokenGate.Proofs.Frame
import TokenGate.Proofs.Ledger
/-!
# `TokenGate.Proofs.Table`: what the server's operations do to its table

One equation per operation of the server, so that the invariants of `Proofs.Serving`
never unfold an operation again:

* `dispatch_cases`: a record is skipped (undecodable, or its identifier in flight, with
  its slot released), left with its handler running and nothing in flight (its deadline
  past the clock's range: `orphan`), dropped (the sweep stopped), or admitted as
  `entryFor`, with a new channel and a new handler task woken at once.
* `settle_eq`: settling an entry removes it, counts it (`ServeCounters.record`), closes
  its channel, stops its handler if it timed out, frees its slot, and records the
  answer published for it.
* `sweep_eq`: the sweep reads each entry's channel once (`readOf`), then settles those
  found ready, in order.
* `abandonInFlight_eq`: the sweep stopping empties the table, stops the handlers, and
  frees one slot per entry.

Each equation names the clock's new queue only through `Core.QueueGrows`: tasks may be
woken, none is forgotten, and the time stays.
-/

set_option autoImplicit false

namespace TokenGate

open Sched

@[simp] theorem Sched.Core.wake_now (c : Core) (w : Waker) : (c.wake w).now = c.now := by
  cases w with
  | main => rfl
  | task id => simp only [Core.wake]; split <;> rfl

/-- Whether settling as `s` stops the handler. -/
def Settled.aborts : Settled → Bool
  | .timedOut => true
  | _ => false

/-- The counters after settling a request as `s`, its answer published (`sent`) or not. -/
def ServeCounters.record (c : ServeCounters) (s : Settled) (sent : Bool) : ServeCounters :=
  let c := match s with
    | .completed _ => { c with completed := c.completed + 1 }
    | .timedOut => { c with timedOut := c.timedOut + 1 }
    | .failed => { c with failed := c.failed + 1 }
  if sent then c else { c with publishErrors := c.publishErrors + 1 }

namespace Exchange

/-- Stopping a task removes it; its timer goes and the caller may be woken. -/
theorem abortHandler_eq (x : Exchange) (id : Nat) :
    ∃ core, Core.QueueGrows x.core core ∧
      x.abortHandler id = { x with tasks := x.tasks.filter (·.1 != id), core } := by
  -- ending the task may wake the caller, whatever clock it starts from
  have hend : ∀ c, Core.QueueGrows x.core c → ∃ core, Core.QueueGrows x.core core ∧
      ({ x with core := c } : Exchange).endTask id =
        { x with tasks := x.tasks.filter (·.1 != id), core } := by
    intro c hc
    unfold endTask
    dsimp only
    split
    · split
      · exact ⟨_, hc.trans (Core.queueGrows_wake _ _), rfl⟩
      · exact ⟨_, hc, rfl⟩
    · exact ⟨_, hc, rfl⟩
  unfold abortHandler
  apply hend
  -- the handler's timer goes, if it was waiting for the directory
  split
  · exact Sleep.queueGrows_drop _ _
  · exact .refl _

/-- The state after `dispatch` skipped a record: counted as received and skipped, its
slot released. -/
def skipped (x : Exchange) : Exchange :=
  ((x.count fun c => { c with received := c.received + 1 }).count
    fun c => { c with skipped := c.skipped + 1 }).releaseSlot

/-- The entry `dispatch` puts in flight for the request `env`. -/
def entryFor (x : Exchange) (env : Envelope Request) : InFlight :=
  ⟨env.requestId, env.responseTopic.getD x.server.config.responsesTopic, x.core.now,
    x.core.now + x.server.config.requestTimeout.nanos, x.server.results.next, x.nextTask⟩

/-- The state in which `dispatch` stops at a deadline past the clock's range, before the
slot goes back: the record counted as received, the handler of `env` started on a new
channel whose receiver is gone. -/
def orphan (x : Exchange) (env : Envelope Request) : Exchange :=
  { x with
    server := { x.server with
      results := x.server.results.openChannel.2.dropReceiver x.server.results.next
      counters := { x.server.counters with received := x.server.counters.received + 1 } }
    tasks := x.tasks ++ [(x.nextTask, .handler ⟨x.server.results.next, .fresh env.payload⟩)]
    nextTask := x.nextTask + 1
    core := x.core.wake (.task x.nextTask) }

/-- Stopping a task changes the tasks and the clock's queue only. -/
theorem abortHandler_core (x : Exchange) (id : Nat) :
    x.abortHandler id = { x with tasks := x.tasks.filter (·.1 != id), core := (x.abortHandler id).core } := by
  obtain ⟨core, -, h⟩ := abortHandler_eq x id
  rw [h]

theorem queueGrows_abortHandler (x : Exchange) (id : Nat) :
    Core.QueueGrows x.core (x.abortHandler id).core := by
  obtain ⟨core, hcore, h⟩ := abortHandler_eq x id
  rw [h]
  exact hcore

@[simp] theorem abortHandler_now (x : Exchange) (id : Nat) : (x.abortHandler id).core.now = x.core.now :=
  (queueGrows_abortHandler x id).now

/-- What `dispatch` does with a record: skips an unreadable one or a duplicate, leaves the
handler of a request whose deadline is past the clock's range running with nothing in
flight, drops a request arriving after the sweep stopped, and otherwise puts it in flight
with a new channel and a new handler task. -/
theorem dispatch_cases (x : Exchange) (rec : BusRecord) :
    ((∀ env, Envelope.decode Request.reader rec.value ≠ .ok env) ∧
      x.dispatch rec = (.undecodable, x.skipped)) ∨
    ∃ env, Envelope.decode Request.reader rec.value = .ok env ∧
      ((env.requestId ∈ x.server.inFlight.map (·.id) ∧ x.dispatch rec = (.duplicate, x.skipped)) ∨
       (env.requestId ∉ x.server.inFlight.map (·.id) ∧
        addInstant? x.core.now x.server.config.requestTimeout.nanos = none ∧
        x.dispatch rec = (.overflowed x.nextTask x.server.results.next, (x.orphan env).releaseSlot)) ∨
       (env.requestId ∉ x.server.inFlight.map (·.id) ∧
        addInstant? x.core.now x.server.config.requestTimeout.nanos ≠ none ∧
        x.server.closing = true ∧ (x.dispatch rec).1 = .dropped) ∨
       (env.requestId ∉ x.server.inFlight.map (·.id) ∧
        addInstant? x.core.now x.server.config.requestTimeout.nanos ≠ none ∧
        x.server.closing = false ∧
        x.dispatch rec = (.admitted (x.entryFor env),
          { x with
            server := { x.server with
              inFlight := x.server.inFlight ++ [x.entryFor env]
              results := x.server.results.openChannel.2
              counters := { x.server.counters with
                received := x.server.counters.received + 1
                dispatched := x.server.counters.dispatched + 1 } }
            tasks := x.tasks ++ [(x.nextTask, .handler ⟨x.server.results.next, .fresh env.payload⟩)]
            nextTask := x.nextTask + 1
            core := x.core.wake (.task x.nextTask) }))) := by
  unfold dispatch
  split
  · rename_i err hdec
    refine .inl ⟨fun env h => by simp [hdec] at h, rfl⟩
  · rename_i env hdec
    refine .inr ⟨env, hdec, ?_⟩
    simp only [List.any_eq_true, beq_iff_eq, List.mem_map]
    split
    · rename_i hdup
      exact .inl ⟨hdup, rfl⟩
    · rename_i hdup
      simp only [count, spawn, Channels.openChannel, Core.wake_now] at hdup ⊢
      refine .inr ?_
      split
      · rename_i hrange
        exact .inl ⟨hdup, hrange, rfl⟩
      · rename_i deadline hrange
        have hin : addInstant? x.core.now x.server.config.requestTimeout.nanos ≠ none := by
          simp [hrange]
        refine .inr ?_
        split
        · rename_i hclosing
          exact .inl ⟨hdup, hin, hclosing, rfl⟩
        · rename_i hclosing
          refine .inr ⟨hdup, hin, by simpa using hclosing, ?_⟩
          -- the deadline is the sum itself, as in `entryFor`
          obtain ⟨-, rfl⟩ := addInstant?_eq_some_iff.1 hrange
          rfl

/-- Publishing an answer: the record goes to the request's topic under its identifier,
a failure is counted, and the answer is recorded either way. -/
theorem respond_def (x : Exchange) (e : InFlight) (s : Settled) (r : Response) :
    x.respond e s r =
      let bytes := Envelope.encode Response.toValue (Envelope.response e.id r 0)
      let p := x.hub.publish x.core e.responseTopic (some e.id.display) bytes
      { x with
        server := { x.server with counters := if p.1.toBool then x.server.counters
          else { x.server.counters with publishErrors := x.server.counters.publishErrors + 1 } }
        hub := p.2.1
        core := p.2.2
        history := x.history ++
          [(x.core.now, .answered e s e.responseTopic (some e.id.display) bytes p.1.toBool)] } := by
  -- name the outcome of the publish
  rcases hP : x.hub.publish x.core e.responseTopic (some e.id.display)
      (Envelope.encode Response.toValue (Envelope.response e.id r 0)) with ⟨res, hub, core⟩
  have hnow : core.now = x.core.now := by
    have hpub := Hub.queueGrows_publish x.hub x.core e.responseTopic (some e.id.display)
      (Envelope.encode Response.toValue (Envelope.response e.id r 0))
    rw [hP] at hpub
    exact hpub.now
  have hpub : x.publish e.responseTopic (some e.id.display)
      (Envelope.encode Response.toValue (Envelope.response e.id r 0)) =
      (res, { x with hub, core }) := by
    unfold publish
    rw [hP]
  unfold respond
  dsimp only
  rw [hpub]
  cases res with
  | ok m => simp only [note, hP, hnow, Except.toBool, ite_true]
  | error err => simp only [note, count, hP, hnow, Except.toBool]; rfl

theorem settle_eq (x : Exchange) (e : InFlight) (s : Settled)
    (he : e.id ∈ x.server.inFlight.map (·.id)) :
    ∃ sent hub core, Core.QueueGrows x.core core ∧ x.settle e s =
      { x with
        server := { x.server with
          inFlight := x.server.inFlight.filter (·.id != e.id)
          counters := x.server.counters.record s sent
          results := x.server.results.dropReceiver e.result
          slots := x.server.slots.release.1 }
        tasks := if s.aborts then x.tasks.filter (·.1 != e.task) else x.tasks
        hub
        core := core.wakeAll x.server.slots.release.2
        history := x.history ++ [(x.core.now, .answered e s e.responseTopic (some e.id.display)
          (Envelope.encode Response.toValue (Envelope.response e.id s.response 0)) sent)] } := by
  have hany : x.server.inFlight.any (·.id == e.id) = true := by simpa using he
  unfold settle
  rw [if_neg (by simp [hany])]
  cases s with
  | completed r =>
    dsimp only
    rw [respond_def]
    refine ⟨_, _, _, Hub.queueGrows_publish _ _ _ _ _, rfl⟩
  | failed =>
    dsimp only
    rw [respond_def]
    refine ⟨_, _, _, Hub.queueGrows_publish _ _ _ _ _, rfl⟩
  | timedOut =>
    dsimp only
    rw [abortHandler_core, respond_def]
    simp only [count, abortHandler_now]
    refine ⟨_, _, _, ?_, rfl⟩
    have habort := queueGrows_abortHandler
      { x with server := { x.server with inFlight := x.server.inFlight.filter (·.id != e.id) } } e.task
    exact habort.trans (Hub.queueGrows_publish _ _ _ _ _)

/-- What the sweep reads on the channel of `e` in the table `chs` at time `now`: the
handler's answer, its end without one, its deadline passed, or nothing to settle. -/
def readOf (chs : Channels Response) (now : Nat) (e : InFlight) : Option Settled :=
  match (chs.tryRecv e.result).1 with
  | .value r => some (.completed r)
  | .closed => some .failed
  | .empty => if now ≥ e.deadline then some .timedOut else none

/-- The channel table after the sweep read the channels of `l`. -/
def readAll (chs : Channels Response) (l : List InFlight) : Channels Response :=
  l.foldl (fun chs e => (chs.tryRecv e.result).2) chs

theorem readOf_tryRecv {chs : Channels Response} {n : Nat} (now : Nat) {e : InFlight}
    (hne : e.result ≠ n) : readOf (chs.tryRecv n).2 now e = readOf chs now e := by
  simp only [readOf, Channels.tryRecv_fst, Channels.get?_tryRecv, hne, ite_false]

/-- The sweep's look at the entries in flight, as a fold whose step reads one entry's
channel: entries on pairwise different channels are each read on the table as it was. -/
theorem foldl_reads (now : Nat)
    {F : List (InFlight × Settled) × Channels Response → InFlight →
      List (InFlight × Settled) × Channels Response}
    (hF : ∀ acc chs e, F (acc, chs) e =
      (acc ++ ((readOf chs now e).map (e, ·)).toList, (chs.tryRecv e.result).2))
    (l : List InFlight) (hl : (l.map (·.result)).Nodup) (acc : List (InFlight × Settled))
    (chs : Channels Response) :
    l.foldl F (acc, chs) = (acc ++ l.filterMap (fun e => (readOf chs now e).map (e, ·)), readAll chs l) := by
  induction l generalizing acc chs with
  | nil => simp [readAll]
  | cons e es ih =>
    simp only [List.map_cons, List.nodup_cons, List.mem_map] at hl
    -- the later entries' channels are untouched by reading this one
    have hrest : es.filterMap (fun e' => (readOf (chs.tryRecv e.result).2 now e').map (e', ·)) =
        es.filterMap (fun e' => (readOf chs now e').map (e', ·)) := by
      refine List.filterMap_congr fun e' he' => ?_
      rw [readOf_tryRecv now fun h => hl.1 ⟨e', he', h⟩]
    rw [List.foldl_cons, hF, ih hl.2, hrest, List.filterMap_cons]
    cases readOf chs now e <;> simp [readAll]

/-- The sweep's look: every entry in flight, on pairwise different channels, read once. -/
theorem collectSettled_eq (x : Exchange) (hch : (x.server.inFlight.map (·.result)).Nodup) :
    x.collectSettled =
      (x.server.inFlight.filterMap (fun e => (readOf x.server.results x.core.now e).map (e, ·)),
        { x with server := { x.server with results := readAll x.server.results x.server.inFlight } }) := by
  unfold collectSettled
  dsimp only
  rw [foldl_reads x.core.now ?step _ hch]
  · rfl
  · -- one step of the look: the three outcomes of the channel's receive
    intro acc chs e
    simp only [readOf]
    split <;> simp_all
    split <;> simp_all

/-- The sweep: read every entry in flight, then settle those found ready, in order. -/
theorem sweep_eq (x : Exchange) (hch : (x.server.inFlight.map (·.result)).Nodup) :
    x.sweep =
      let found := x.server.inFlight.filterMap (fun e => (readOf x.server.results x.core.now e).map (e, ·))
      (found.length, found.foldl (fun y p => y.settle p.1 p.2)
        { x with server := { x.server with results := readAll x.server.results x.server.inFlight } }) := by
  unfold sweep
  rw [collectSettled_eq x hch]

/-- The entries the sweep finds ready come from the table, in its order. -/
theorem found_sublist (chs : Channels Response) (now : Nat) (l : List InFlight) :
    ((l.filterMap fun e => (readOf chs now e).map (e, ·)).map (·.1)).Sublist l := by
  induction l with
  | nil => simp
  | cons e l ih =>
    simp only [List.filterMap_cons]
    cases readOf chs now e with
    | none => exact ih.cons e
    | some s => exact ih.cons_cons e

/-- Stopping the handlers of a list of entries, one after the other. -/
theorem foldl_abortHandler (l : List InFlight) (x : Exchange) :
    ∃ core, Core.QueueGrows x.core core ∧
      l.foldl (fun x e => x.abortHandler e.task) x =
        { x with tasks := x.tasks.filter (fun p => p.1 ∉ l.map (·.task)), core } := by
  induction l generalizing x with
  | nil => exact ⟨x.core, .refl _, by simp⟩
  | cons e es ih =>
    obtain ⟨c₁, h₁, heq₁⟩ := abortHandler_eq x e.task
    obtain ⟨c₂, h₂, heq₂⟩ := ih { x with tasks := x.tasks.filter (·.1 != e.task), core := c₁ }
    refine ⟨c₂, h₁.trans h₂, ?_⟩
    rw [List.foldl_cons, heq₁, heq₂]
    simp only [List.filter_filter, List.map_cons, List.mem_cons, not_or]
    congr 2
    funext p
    by_cases hp : p.1 = e.task <;> simp [hp]

/-- The sweep stopping: it marks the server closing, stops the handler of every entry in
flight, empties the table, frees the entries' slots, and records what it dropped. -/
theorem abandonInFlight_eq (x : Exchange) :
    ∃ core, Core.QueueGrows x.core core ∧ x.abandonInFlight =
      (x.server.inFlight.foldl (fun (y : Exchange) _ => y.releaseSlot)
        { x with
          server := { x.server with closing := true, inFlight := [] }
          tasks := x.tasks.filter (fun p => p.1 ∉ x.server.inFlight.map InFlight.task)
          core }).note (.cleared x.server.inFlight) := by
  obtain ⟨core, hcore, heq⟩ := foldl_abortHandler x.server.inFlight
    { x with server := { x.server with closing := true } }
  refine ⟨core, hcore, ?_⟩
  unfold abandonInFlight
  dsimp only
  rw [heq]

end Exchange

end TokenGate
