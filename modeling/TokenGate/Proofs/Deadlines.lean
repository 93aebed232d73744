import TokenGate.Proofs.Settings
import TokenGate.Proofs.Effects
import TokenGate.Proofs.Codec
/-!
# `TokenGate.Proofs.Deadlines`: deadlines past the clock's range

The clock's instants count their seconds in a signed 64-bit word (`instantSecsMax`), and a
sum past it aborts the computation that asks for it (`addInstant?`). The server adds two of
its settings to the clock: `dispatch` adds the request timeout for a request's deadline,
and a consume loop adds the poll interval for its next poll's deadline. Validation bounds
neither from above, nor the pending limit:

* `dispatch_overflowed_iff`: `dispatch` stops at a fresh request exactly when the
  request's deadline is past the range: the record is counted as received, its handler
  runs on with its channel's receiver gone, nothing is put in flight, and the slot goes
  back;
* `consumeWait_takes_nothing`: a consume loop whose next poll's deadline is past the range
  takes no record: it stops, or commits on its tick and waits on;
* `setUp_deadlines_of_validate`: what settings that pass validation promise, and what
  they do not;
* `validate_admits_aborts`: settings that pass validation and abort the set-up, and
  settings that pass it and stop the first request's dispatch along a run.
-/

set_option autoImplicit false

namespace TokenGate

open Sched

namespace Exchange

/-- `dispatch` stops at a fresh request, after starting its handler, exactly when the
request's deadline is past the clock's range. -/
theorem dispatch_overflowed_iff (x : Exchange) {rec : BusRecord} {env : Envelope Request}
    (hdec : Envelope.decode Request.reader rec.value = .ok env)
    (hnot : env.requestId ∉ x.server.inFlight.map (·.id)) :
    x.dispatch rec = (.overflowed x.nextTask x.server.results.next, (x.orphan env).releaseSlot) ↔
      instantSecsMax < (x.core.now + x.server.config.requestTimeout.nanos) / 1000000000 := by
  rw [← addInstant?_eq_none_iff]
  rcases x.dispatch_cases rec with ⟨hno, -⟩ | ⟨env', hdec', hcase⟩
  · exact absurd hdec (hno env)
  obtain rfl : env' = env := by
    rw [hdec] at hdec'
    exact (Except.ok.inj hdec').symm
  rcases hcase with ⟨hdup, -⟩ | ⟨-, hr, hd⟩ | ⟨-, hr, -, hd⟩ | ⟨-, hr, -, hd⟩
  · exact absurd hdup hnot
  · exact ⟨fun _ => hr, fun _ => hd⟩
  · -- dropped: a deadline in range
    refine ⟨fun h => ?_, fun h => absurd h hr⟩
    have h₁ := congrArg Prod.fst h
    rw [hd] at h₁
    cases h₁
  · -- admitted: a deadline in range
    refine ⟨fun h => ?_, fun h => absurd h hr⟩
    rw [hd] at h
    simp at h

/-- A consume loop with no poll under way, whose next poll's deadline is past the clock's
range, takes no record: it stops, or commits on its tick and waits on. -/
theorem consumeWait_takes_nothing (x : Exchange) (id : Nat) (l : ConsumeLoop) (iv : Interval)
    (reg : Option Nat) (hfar : instantSecsMax < (x.core.now + x.pollInterval) / 1000000000) :
    ∀ l' ∈ (consumeWait id l iv reg none x).state?, l'.phase = .waiting none none := by
  rw [consumeWait]
  split
  next _ chg seen reg' w hpoll =>
  extract_lets y₁ l₁
  split
  · simp [Turn.state?]
  · split
    next _ ready iv' core hiv =>
    extract_lets y₂ l₂
    split
    · simp [Turn.state?]
    · -- the tick's poll does not move the clock, so the deadline is still past the range
      have hnow : core.now = x.core.now := by
        have := Interval.queueGrows_poll iv y₁.core (.task id)
        rw [hiv] at this
        exact this.now
      have hnone : addInstant? y₂.core.now y₂.pollInterval = none :=
        addInstant?_eq_none_iff.2 (by simpa [y₂, y₁, hnow, pollInterval] using hfar)
      rw [if_pos (by simp [hnone])]
      simp [Turn.state?]

end Exchange

/-- What settings that pass validation promise. The set-up succeeds exactly when the
pending limit fits a semaphore, with that many free slots, and otherwise aborts with the
semaphore's message, for a node as for its server. The deadlines are not bounded: on
every exchange, `dispatch` stops at a fresh request exactly when the clock plus the
request timeout is past the clock's range, and a consume loop whose next poll's deadline
is past it takes no record. -/
theorem setUp_deadlines_of_validate :
    (∀ (c : TransportConfig) (group : String) (broker : Broker) (backend : Backend),
      c.validate = .ok () →
        ((∃ x, Exchange.setUp c group broker backend = .ok x ∧
            x.server.slots = Semaphore.create c.maxPending ∧ 0 < x.server.slots.permits) ↔
          c.maxPending ≤ Semaphore.maxPermits) ∧
        (Exchange.setUp c group broker backend = .error Semaphore.tooManyPermits ↔
          Semaphore.maxPermits < c.maxPending)) ∧
    (∀ (c : NodeConfig) (broker : Broker), c.validate = .ok () →
        ((∃ r, NodeRuntime.setUp c broker = .ok r ∧
            r.exchange.server.slots = Semaphore.create c.transportApi.maxPending ∧
            0 < r.exchange.server.slots.permits) ↔
          c.transportApi.maxPending ≤ Semaphore.maxPermits) ∧
        (NodeRuntime.setUp c broker = .error Semaphore.tooManyPermits ↔
          Semaphore.maxPermits < c.transportApi.maxPending)) ∧
    (∀ (x : Exchange) (rec : BusRecord) (env : Envelope Request),
      Envelope.decode Request.reader rec.value = .ok env →
      env.requestId ∉ x.server.inFlight.map (·.id) →
      (x.dispatch rec = (.overflowed x.nextTask x.server.results.next, (x.orphan env).releaseSlot) ↔
        instantSecsMax < (x.core.now + x.server.config.requestTimeout.nanos) / 1000000000)) ∧
    (∀ (x : Exchange) (id : Nat) (l : ConsumeLoop) (iv : Interval) (reg : Option Nat),
      instantSecsMax < (x.core.now + x.pollInterval) / 1000000000 →
      ∀ l' ∈ (Exchange.consumeWait id l iv reg none x).state?, l'.phase = .waiting none none) :=
  ⟨setUp_of_validate.1, setUp_of_validate.2,
    fun x _ _ hdec hnot => x.dispatch_overflowed_iff hdec hnot,
    fun x id l iv reg hfar => x.consumeWait_takes_nothing id l iv reg hfar⟩

/-- Settings with a limit of four and a request timeout of three hundred billion years pass
validation and set up a server with four free slots, whose first dispatch of a fresh
request stops at its deadline. -/
theorem setUp_deadlines_of_validate_far :
    let c : TransportConfig := ⟨"requests", "responses", 4,
      .ofMillis (300000000000 * 31557600 * 1000), .ofMillis 10, .ofMillis 50⟩
    let x := Exchange.create c "group" (Broker.withPartitions 1) (Backend.ofRegistry Registry.empty)
    let r : BusRecord := ⟨"requests", 0, 0, none, Envelope.encode Request.toValue
      (Envelope.request ⟨0, 1⟩ (.validateDeviceToken "a") "replies" 0)⟩
    c.validate = .ok () ∧
      (∃ y, Exchange.setUp c "group" (Broker.withPartitions 1) (Backend.ofRegistry Registry.empty) =
        .ok y ∧ y.server.slots = Semaphore.create 4 ∧ 0 < y.server.slots.permits) ∧
      (x.dispatch r).1 = .overflowed 0 0 := by
  intro c x r
  have hvalid : c.validate = .ok () := (TransportConfig.validate_eq_ok_iff _).2
    ⟨by decide, by decide, by decide, by decide, by decide, by decide, by decide, by decide⟩
  refine ⟨hvalid, ((setUp_deadlines_of_validate.1 c "group" _ _ hvalid).1).2 (by decide), ?_⟩
  have hdisp := (setUp_deadlines_of_validate.2.2.1 x r
    (Envelope.request ⟨0, 1⟩ (.validateDeviceToken "a") "replies" 0)
    ((Envelope.decode_encode_cases (by decide) _ ⟨by decide, by decide⟩
      (Request.reads_toValue _)).1 rfl rfl)
    (by simp [x, Exchange.create])).2 (by decide)
  rw [hdisp]
  rfl

/-- Validation bounds neither the pending limit nor the deadlines: settings with a limit
one past the largest a semaphore takes pass it and abort the set-up, and settings with a
request timeout of three hundred billion years pass it, and the first request a consume
loop of their server hands on stops its dispatch. -/
theorem validate_admits_aborts :
    let c₁ : TransportConfig :=
      ⟨"a", "b", Semaphore.maxPermits + 1, .ofMillis 10000, .ofMillis 25, .ofMillis 100⟩
    let c₂ : TransportConfig := ⟨"requests", "responses", 4,
      .ofMillis (300000000000 * 31557600 * 1000), .ofMillis 10, .ofMillis 50⟩
    c₁.validate = .ok () ∧
      Exchange.setUp c₁ "tb-node" (Broker.withPartitions 1) (Backend.ofRegistry Registry.empty) =
        .error Semaphore.tooManyPermits ∧
      c₂.validate = .ok () ∧
      ∃ x : Exchange, x.Reachable ∧ x.server.config = c₂ ∧ (overflowsOf x.history).length = 1 := by
  intro c₁ c₂
  -- the consume loop (task 0) takes the request and hands it to `dispatch`
  have hx := ((((Exchange.Reachable.create c₂ "group" 1 100
      (Backend.ofRegistry Registry.empty)).step (.startServer _)).step
    (.send _ "requests" none (Envelope.encode Request.toValue
      (Envelope.request ⟨0, 1⟩ (.validateDeviceToken "a") "replies" 0)))).step (.poll _ 0))
  refine ⟨setUp_aborts_of_validate.1, setUp_aborts_of_validate.2, ?_, _, hx, ?_, ?_⟩
  · exact (TransportConfig.validate_eq_ok_iff _).2
      ⟨by decide, by decide, by decide, by decide, by decide, by decide, by decide, by decide⟩
  · decide +kernel
  · decide +kernel

end TokenGate
