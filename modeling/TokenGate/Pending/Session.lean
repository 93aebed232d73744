import TokenGate.Pending.Store
/-!
# `TokenGate.Pending.Session`: a table of waiting requests on the virtual clock

A `PendingSession` is the caller side of request/response exchanges run step by step:
the table of waiters (`PendingStore`), the caller's end of each request's channel (the
latest one per identifier), and eviction tasks that sweep expired waiters periodically.

The caller's steps (`register`, `deliver`, `cancel`, `evict`, `recv`, ...) take no time
and let no task run. Only `advance` waits: the caller sleeps, and the machine runs the
eviction tasks and moves the clock until the sleep is over.

An eviction task starts its periodic tick the first time it runs, so its first sweep
happens at that moment, and then one sweep per period (late ticks are skipped, not
made up). Stopping a task drops it with its tick; only the latest task started can be
stopped.
-/

set_option autoImplicit false

namespace TokenGate

open Sched

/-- A task sweeping expired waiters every `period` nanoseconds. -/
structure Evictor where
  id : Nat
  period : Nat
  /-- The periodic tick, once the task has first run. -/
  tick : Option Interval

/-- What the caller may find on a request's channel. -/
inductive PendingReceipt where
  | reply (r : Reply String)
  | empty
  | closed
  | noReceiver

/-- The caller side of request/response exchanges on the virtual clock. -/
structure PendingSession where
  core : Core
  store : PendingStore String
  /-- The caller's channel for each identifier, the latest registration's. -/
  receivers : List (Uuid × Nat)
  evictors : List Evictor
  /-- The latest eviction task started and not stopped. -/
  handle : Option Nat
  nextTask : Nat
  /-- The caller's sleep while it advances the clock. -/
  sleep : Option Sleep

namespace PendingSession

/-- An empty table at time zero. -/
def start : PendingSession := ⟨Core.start, PendingStore.empty, [], [], none, 0, none⟩

/-- Apply a store operation's wake-ups. -/
def woken (s : PendingSession) (ws : List Waker) : PendingSession :=
  { s with core := s.core.wakeAll ws }

/-- The caller's channel for an identifier. -/
def receiver? (s : PendingSession) (id : Uuid) : Option Nat :=
  (s.receivers.find? (·.1 == id)).map (·.2)

/-- Register a request expiring `timeoutMs` from now; the number of waiters. -/
def register (s : PendingSession) (id : Uuid) (kind : String) (timeoutMs : Nat) :
    Nat × PendingSession :=
  let (ch, store, ws) := s.store.register id kind s.core.now (timeoutMs * nanosPerMilli)
  let store := match s.receiver? id with
    | some old => { store with channels := store.channels.dropReceiver old }
    | none => store
  let receivers := (s.receivers.filter (·.1 != id)) ++ [(id, ch)]
  let s := { s with store, receivers }
  (store.len, s.woken ws)

/-- Deliver a response. -/
def deliver (s : PendingSession) (id : Uuid) (payload : String) : Delivery × PendingSession :=
  let (d, store, ws) := s.store.deliver id payload s.core.now
  (d, { s with store }.woken ws)

/-- Cancel a request. -/
def cancel (s : PendingSession) (id : Uuid) : Bool × PendingSession :=
  let (b, store, ws) := s.store.cancel id
  (b, { s with store }.woken ws)

/-- Evict the expired requests now; how many went. -/
def evict (s : PendingSession) : Nat × PendingSession :=
  let (n, store, ws) := s.store.evictExpired s.core.now
  (n, { s with store }.woken ws)

/-- Drop the caller's channel for an identifier; whether there was one. -/
def dropReceiver (s : PendingSession) (id : Uuid) : Bool × PendingSession :=
  match s.receiver? id with
  | some ch =>
    (true, { s with receivers := s.receivers.filter (·.1 != id),
                    store := { s.store with channels := s.store.channels.dropReceiver ch } })
  | none => (false, s)

/-- Look at the caller's channel for an identifier without waiting. -/
def recv (s : PendingSession) (id : Uuid) : PendingReceipt × PendingSession :=
  match s.receiver? id with
  | none => (.noReceiver, s)
  | some ch =>
    let (r, channels) := s.store.channels.tryRecv ch
    let s := { s with store := { s.store with channels } }
    match r with
    | .value v => (.reply v, s)
    | .empty => (.empty, s)
    | .closed => (.closed, s)

/-- Start an eviction task sweeping every `intervalMs`; it first runs when the caller
next waits. -/
def runEviction (s : PendingSession) (intervalMs : Nat) : PendingSession :=
  let id := s.nextTask
  { s with evictors := s.evictors ++ [⟨id, intervalMs * nanosPerMilli, none⟩], handle := some id,
           nextTask := id + 1, core := s.core.wake (.task id) }

/-- Stop the latest eviction task; whether there was one. -/
def stopEviction (s : PendingSession) : Bool × PendingSession :=
  match s.handle with
  | none => (false, s)
  | some id =>
    let core := match s.evictors.find? (·.id == id) with
      | some e => match e.tick with
        | some iv => iv.drop s.core
        | none => s.core
      | none => s.core
    (true, { s with core, handle := none, evictors := s.evictors.filter (·.id != id) })

/-- Run an eviction task: sweep at every tick due, then wait for the next. -/
def sweepLoop (owner : Waker) : Nat → Interval → PendingSession → Interval × PendingSession
  | 0, iv, s => (iv, s)
  | fuel + 1, iv, s =>
    let (ready, iv, core) := iv.poll s.core owner
    let s := { s with core }
    if ready then
      let (_, s) := s.evict
      sweepLoop owner fuel iv s
    else (iv, s)

/-- Poll the task `id`. -/
def pollTask (id : Nat) (s : PendingSession) : PendingSession :=
  match s.evictors.find? (·.id == id) with
  | none => s
  | some e =>
    let iv := e.tick.getD (Interval.create s.core.now e.period)
    let (iv, s) := sweepLoop (.task id) 1000 iv s
    { s with evictors := s.evictors.map fun x => if x.id == id then { x with tick := some iv } else x }

/-- Poll the caller's sleep: done when it is over. -/
def pollMain (s : PendingSession) : Bool × PendingSession :=
  match s.sleep with
  | none => (true, s)
  | some sl =>
    let (elapsed, sl, core) := sl.poll s.core .main
    (elapsed, { s with core, sleep := if elapsed then none else some sl })

/-- The machine running a session's tasks. -/
def machine : Machine PendingSession :=
  ⟨PendingSession.core, fun s c => { s with core := c }, pollTask, pollMain⟩

/-- The caller sleeps `ms` milliseconds while the tasks run. -/
def advance (s : PendingSession) (ms : Nat) : PendingSession :=
  let s := { s with sleep := some (Sleep.ofDeadline (s.core.now + ms * nanosPerMilli)),
                    core := { s.core with mainWoken := true } }
  machine.run Machine.defaultFuel s

end PendingSession

end TokenGate
