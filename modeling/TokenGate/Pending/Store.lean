import TokenGate.Sched.Sync
import TokenGate.Uuid
/-!
# `TokenGate.Pending.Store`: requests waiting for their responses

The caller side of a request/response exchange keeps one *waiter* per request it has
sent: the request's identifier, a one-shot channel to its caller, when it was
registered and when it expires.

* `register` adds a waiter (replacing one with the same identifier, whose caller then
  sees its channel closed) and hands back the caller's end of the channel.
* `deliver` removes the waiter and sends the response with its round-trip time:
  `delivered`, or `callerGone` when the caller stopped listening, or `unknown` when no
  waiter has that identifier.
* `evictExpired` drops every waiter whose deadline is not after now.
* `cancel` drops a waiter whose caller gave up.

Counters record registrations, deliveries, expiries, and abandonments (cancelled, or
delivered after the caller left). Every operation also reports whom to wake: the
callers whose channels it closed or filled.
-/

set_option autoImplicit false

namespace TokenGate

open Sched

/-- A response handed to the waiting caller. -/
structure Reply (α : Type) where
  correlationId : Uuid
  payload : α
  /-- Nanoseconds from registration to delivery. -/
  roundTrip : Nat

/-- How a delivery went. -/
inductive Delivery where
  | delivered
  | unknown
  | callerGone
  deriving DecidableEq

/-- The name of a delivery outcome. -/
def Delivery.name : Delivery → String
  | .delivered => "Delivered"
  | .unknown => "Unknown"
  | .callerGone => "CallerGone"

/-- One request waiting for its response. -/
structure Waiter where
  id : Uuid
  channel : Nat
  registeredAt : Nat
  deadline : Nat
  kind : String

/-- What happened to waiters so far. -/
structure PendingCounters where
  registered : Nat
  delivered : Nat
  expired : Nat
  abandoned : Nat
  deriving DecidableEq

/-- The table of waiting requests, and the channels to their callers. -/
structure PendingStore (α : Type) where
  waiters : List Waiter
  counters : PendingCounters
  channels : Channels (Reply α)

namespace PendingStore

variable {α : Type}

/-- No waiters. -/
def empty : PendingStore α := ⟨[], ⟨0, 0, 0, 0⟩, Channels.empty⟩

/-- The waiter of an identifier. -/
def find? (s : PendingStore α) (id : Uuid) : Option Waiter := s.waiters.find? (·.id == id)

/-- Take out the waiter of an identifier. -/
def take (s : PendingStore α) (id : Uuid) : Option Waiter × PendingStore α :=
  (s.find? id, { s with waiters := s.waiters.filter (·.id != id) })

/-- Add a waiter expiring `timeout` after `now`; the caller's channel, and whom to wake. -/
def register (s : PendingStore α) (id : Uuid) (kind : String) (now timeout : Nat) :
    Nat × PendingStore α × List Waker :=
  let (ch, channels) := s.channels.openChannel
  let w : Waiter := ⟨id, ch, now, now + timeout, kind⟩
  let (channels, wakes, waiters) := match s.find? id with
    | some old =>
      let (channels, wakes) := channels.dropSender old.channel
      (channels, wakes, s.waiters.map fun x => if x.id == id then w else x)
    | none => (channels, [], s.waiters ++ [w])
  let counters := { s.counters with registered := s.counters.registered + 1 }
  (ch, ⟨waiters, counters, channels⟩, wakes)

/-- Hand `payload` to the caller waiting on `id`. -/
def deliver (s : PendingStore α) (id : Uuid) (payload : α) (now : Nat) :
    Delivery × PendingStore α × List Waker :=
  match s.take id with
  | (none, _) => (.unknown, s, [])
  | (some w, s) =>
    let (ok, channels, wakes) := s.channels.send w.channel ⟨id, payload, now - w.registeredAt⟩
    let s := { s with channels }
    if ok then (.delivered, { s with counters := { s.counters with delivered := s.counters.delivered + 1 } }, wakes)
    else (.callerGone, { s with counters := { s.counters with abandoned := s.counters.abandoned + 1 } }, wakes)

/-- Drop every waiter whose deadline is not after `now`; how many went. -/
def evictExpired (s : PendingStore α) (now : Nat) : Nat × PendingStore α × List Waker :=
  let gone := s.waiters.filter (·.deadline ≤ now)
  let kept := s.waiters.filter (·.deadline > now)
  let (channels, wakes) := gone.foldl (fun (acc : Channels (Reply α) × List Waker) w =>
    let (chs, ws) := acc.1.dropSender w.channel
    (chs, acc.2 ++ ws)) (s.channels, [])
  (gone.length, ⟨kept, { s.counters with expired := s.counters.expired + gone.length }, channels⟩,
    wakes)

/-- Drop the waiter of a caller that gave up; whether there was one. -/
def cancel (s : PendingStore α) (id : Uuid) : Bool × PendingStore α × List Waker :=
  match s.take id with
  | (none, _) => (false, s, [])
  | (some w, s) =>
    let (channels, wakes) := s.channels.dropSender w.channel
    (true, { s with channels, counters := { s.counters with abandoned := s.counters.abandoned + 1 } },
      wakes)

/-- Whether a request is waiting. -/
def contains (s : PendingStore α) (id : Uuid) : Bool := (s.find? id).isSome

/-- How many requests are waiting. -/
def len (s : PendingStore α) : Nat := s.waiters.length

end PendingStore

end TokenGate
