import TokenGate.Exchange.Node
/-!
# `TokenGate.Proofs.Settings`: what validated settings guarantee the server

`TransportConfig.validate` checks that neither topic is blank, that the topics differ, that
the pending limit is positive, that no span is zero, and that the timeout is not shorter than
the poll interval; `validate_eq_ok_iff` states these rules as the structure
`TransportConfig.Valid`. Nothing is bounded from above.

The server's free slots are a semaphore, and a semaphore is made with at most
`Semaphore.maxPermits` permits (the counter keeps three bits for itself). So validation alone
does not make the set-up succeed:

* `setUp_of_validate`: settings that pass validation set up a server exactly when the pending
  limit fits a semaphore, with that many free slots and at least one; otherwise the set-up
  aborts with the semaphore's message. The same holds of a node whose settings pass
  `NodeConfig.validate`, as every settings `NodeConfig.parse` accepts do
  (`NodeConfig.validate_of_parse`).
* `setUp_aborts_of_validate`: settings with a limit one past the largest pass validation and
  abort the set-up.

Time is kept as unbounded counts of nanoseconds, so a deadline `now + span` is always the
exact sum; whether such a sum fits a machine clock is not a question of this model.
-/

set_option autoImplicit false

namespace TokenGate

open Sched

namespace TransportConfig

/-- The rules that validated settings keep. -/
structure Valid (c : TransportConfig) : Prop where
  requestsTopic : (Space.trim c.requestsTopic).isEmpty = false
  responsesTopic : (Space.trim c.responsesTopic).isEmpty = false
  distinct : c.requestsTopic ≠ c.responsesTopic
  limit : 0 < c.maxPending
  timeout : 0 < c.requestTimeout.nanos
  poll : 0 < c.pollInterval.nanos
  commit : 0 < c.commitInterval.nanos
  order : c.pollInterval.nanos ≤ c.requestTimeout.nanos

theorem zeroSpan_eq_none_iff (c : TransportConfig) :
    c.zeroSpan = none ↔
      0 < c.requestTimeout.nanos ∧ 0 < c.pollInterval.nanos ∧ 0 < c.commitInterval.nanos := by
  unfold zeroSpan
  by_cases ht : c.requestTimeout.nanos = 0
  · simp [ht]
  by_cases hp : c.pollInterval.nanos = 0
  · simp [ht, hp]
  by_cases hc : c.commitInterval.nanos = 0
  · simp [ht, hp, hc]
  simp [ht, hp, hc, Nat.pos_of_ne_zero]

/-- Validation accepts exactly the settings that keep its rules. -/
theorem validate_eq_ok_iff (c : TransportConfig) : c.validate = .ok () ↔ c.Valid := by
  constructor
  · intro h
    unfold validate at h
    -- each broken rule ends in an error, so every test along the way passed
    split at h
    · cases h
    rename_i hreq
    split at h
    · cases h
    rename_i hresp
    split at h
    · cases h
    rename_i hdist
    split at h
    · cases h
    rename_i hlim
    split at h
    · cases h
    rename_i hz
    split at h
    · cases h
    rename_i hord
    obtain ⟨ht, hp, hc⟩ := (zeroSpan_eq_none_iff c).1 hz
    exact ⟨Bool.eq_false_iff.2 hreq, Bool.eq_false_iff.2 hresp, by simpa using hdist,
      Nat.pos_of_ne_zero (by simpa using hlim), ht, hp, hc, Nat.le_of_not_lt hord⟩
  · intro h
    have hz : c.zeroSpan = none := (zeroSpan_eq_none_iff c).2 ⟨h.timeout, h.poll, h.commit⟩
    simp [validate, h.requestsTopic, h.responsesTopic, h.distinct, Nat.pos_iff_ne_zero.1 h.limit,
      hz, Nat.not_lt.2 h.order]

end TransportConfig

namespace Exchange

variable (c : TransportConfig) (group : String) (broker : Broker) (backend : Backend)

@[simp] theorem create_slots : (create c group broker backend).server.slots = Semaphore.create c.maxPending :=
  rfl

theorem setUp_eq_ok_iff (x : Exchange) :
    setUp c group broker backend = .ok x ↔
      c.maxPending ≤ Semaphore.maxPermits ∧ x = create c group broker backend := by
  unfold setUp
  split
  · next h => simp [Nat.not_le.2 h]
  · next h => simp [Nat.le_of_not_lt h, eq_comm]

theorem setUp_eq_error_iff (m : String) :
    setUp c group broker backend = .error m ↔
      Semaphore.maxPermits < c.maxPending ∧ m = Semaphore.tooManyPermits := by
  unfold setUp
  split
  · next h => simp [h, eq_comm]
  · next h => simp [h]

/-- Settings that pass validation set up a server exactly when the pending limit fits a
semaphore, and then with at least one free slot. -/
theorem setUp_fits (hc : c.validate = .ok ()) :
    ((∃ x, setUp c group broker backend = .ok x ∧
        x.server.slots = Semaphore.create c.maxPending ∧ 0 < x.server.slots.permits) ↔
      c.maxPending ≤ Semaphore.maxPermits) ∧
    (setUp c group broker backend = .error Semaphore.tooManyPermits ↔
      Semaphore.maxPermits < c.maxPending) := by
  -- the one rule of validation that matters here: the limit is positive
  have hpos := ((TransportConfig.validate_eq_ok_iff c).1 hc).limit
  refine ⟨⟨?_, ?_⟩, ?_⟩
  · rintro ⟨x, hx, -, -⟩
    exact ((setUp_eq_ok_iff c group broker backend x).1 hx).1
  · intro hle
    exact ⟨_, (setUp_eq_ok_iff c group broker backend _).2 ⟨hle, rfl⟩,
      create_slots c group broker backend, hpos⟩
  · simp [setUp_eq_error_iff]

end Exchange

namespace NodeRuntime

/-- A node is set up exactly as its server is, over empty registry stores. -/
theorem setUp_eq_map (config : NodeConfig) (broker : Broker) :
    setUp config broker =
      (fun x => ⟨config, x, []⟩) <$> Exchange.setUp config.transportApi config.node.groupId
        broker (Backend.ofRegistry Registry.empty) := by
  unfold setUp Exchange.setUp
  split <;> rfl

end NodeRuntime

namespace NodeConfig

/-- Settings that `parse` accepts pass validation. -/
theorem validate_of_parse {text : String} {c : NodeConfig} (h : parse text = .ok c) :
    c.validate = .ok () := by
  unfold parse at h
  split at h
  · cases h
  · next c' _ =>
    split at h
    · next hv => cases h; exact hv
    · cases h

/-- Node settings pass validation exactly when the node's name and group are not blank and
the server's settings pass. -/
theorem validate_eq_ok_iff (c : NodeConfig) :
    c.validate = .ok () ↔ (Space.trim c.node.id).isEmpty = false ∧
      (Space.trim c.node.groupId).isEmpty = false ∧ c.transportApi.Valid := by
  rw [← TransportConfig.validate_eq_ok_iff]
  unfold validate
  by_cases hid : (Space.trim c.node.id).isEmpty = true
  · simp [hid]
  by_cases hg : (Space.trim c.node.groupId).isEmpty = true
  · simp [hid, hg]
  cases hv : c.transportApi.validate <;> simp [hid, hg]

end NodeConfig

/-- Settings that pass validation set up a server exactly when the pending limit fits a
semaphore, with that many free slots, at least one; otherwise the set-up aborts with the
semaphore's message. A node whose settings pass validation is set up in the same way. -/
theorem setUp_of_validate :
    (∀ (c : TransportConfig) (group : String) (broker : Broker) (backend : Backend),
      c.validate = .ok () →
        ((∃ x, Exchange.setUp c group broker backend = .ok x ∧
            x.server.slots = Semaphore.create c.maxPending ∧ 0 < x.server.slots.permits) ↔
          c.maxPending ≤ Semaphore.maxPermits) ∧
        (Exchange.setUp c group broker backend = .error Semaphore.tooManyPermits ↔
          Semaphore.maxPermits < c.maxPending)) ∧
    (∀ (c : NodeConfig) (broker : Broker), c.validate = .ok () →
        ((∃ r, NodeRuntime.setUp c broker = .ok r ∧
            r.exchange.server.slots = Semaphore.create c.transportApi.maxPending ∧
            0 < r.exchange.server.slots.permits) ↔
          c.transportApi.maxPending ≤ Semaphore.maxPermits) ∧
        (NodeRuntime.setUp c broker = .error Semaphore.tooManyPermits ↔
          Semaphore.maxPermits < c.transportApi.maxPending)) := by
  refine ⟨fun c group broker backend hc => Exchange.setUp_fits c group broker backend hc, ?_⟩
  intro c broker hc
  -- a node's set-up is its server's, with the result wrapped
  obtain ⟨hok, herr⟩ := Exchange.setUp_fits c.transportApi c.node.groupId broker
    (Backend.ofRegistry Registry.empty)
    ((TransportConfig.validate_eq_ok_iff _).2 ((NodeConfig.validate_eq_ok_iff c).1 hc).2.2)
  rw [NodeRuntime.setUp_eq_map]
  cases h : Exchange.setUp c.transportApi c.node.groupId broker (Backend.ofRegistry Registry.empty) with
  | ok x =>
    rw [h] at hok herr
    simpa [Functor.map, Except.map] using And.intro hok herr
  | error m =>
    rw [h] at hok herr
    simpa [Functor.map, Except.map] using And.intro hok herr

/-- Validation does not bound the pending limit from above: settings with a limit one past
the largest a semaphore takes pass validation, and setting up their server aborts. -/
theorem setUp_aborts_of_validate :
    let c : TransportConfig :=
      ⟨"a", "b", Semaphore.maxPermits + 1, .ofMillis 10000, .ofMillis 25, .ofMillis 100⟩
    c.validate = .ok () ∧
      Exchange.setUp c "tb-node" (Broker.withPartitions 1) (Backend.ofRegistry Registry.empty) =
        .error Semaphore.tooManyPermits := by
  intro c
  have hvalid : c.Valid :=
    ⟨by decide, by decide, by decide, by decide, by decide, by decide, by decide, by decide⟩
  exact ⟨(TransportConfig.validate_eq_ok_iff c).2 hvalid,
    (Exchange.setUp_eq_error_iff _ _ _ _ _).2 ⟨by decide, rfl⟩⟩

end TokenGate
