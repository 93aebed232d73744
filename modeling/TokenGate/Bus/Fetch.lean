import TokenGate.Bus.Broker
import TokenGate.Sched.Sync
/-!
# `TokenGate.Bus.Fetch`: waiting for records

A consumer that finds no records waits until something is published or the broker
closes, but never past a deadline. `Hub` is a broker together with the waiters it
wakes: every successful send and the closing of the broker wake all of them.

A fetch runs in attempts. Each attempt first registers for the next wake-up, then
checks the broker: closed is a failure, records present are the result (at most the
number asked for), and otherwise the fetch waits. A waiting fetch that is woken starts
a new attempt; one that reaches its deadline ends with no records.
-/

set_option autoImplicit false

namespace TokenGate

open Sched

/-- A broker and the waiters woken when it changes. -/
structure Hub where
  broker : Broker
  arrivals : Notify

/-- A fetch waiting for its deadline or a wake-up. -/
structure FetchWait where
  deadline : Nat
  key : Nat
  sleep : Sleep

/-- How a fetch ended: records (none at the deadline), or a failure. -/
abbrev Fetched := Except BusError (List BusRecord)

/-- The state of a fetch after it was polled. -/
structure FetchStep where
  result : Option Fetched
  wait : Option FetchWait
  consumer : Consumer
  hub : Hub
  core : Core

namespace Hub

/-- A hub over a broker, nobody waiting. -/
def ofBroker (b : Broker) : Hub := ⟨b, Notify.fresh⟩

/-- Publish a record; on success every waiter is woken. -/
def publish (h : Hub) (c : Core) (topic : String) (key : Option String) (value : List UInt8) :
    Except BusError RecordMetadata × Hub × Core :=
  match h.broker.send topic key value with
  | .error e => (.error e, h, c)
  | .ok (m, broker) =>
    let (arrivals, ws) := h.arrivals.notifyWaiters
    (.ok m, ⟨broker, arrivals⟩, c.wakeAll ws)

/-- Close the broker; every waiter is woken. -/
def close (h : Hub) (c : Core) : Hub × Core :=
  let (arrivals, ws) := h.arrivals.notifyWaiters
  (⟨h.broker.close, arrivals⟩, c.wakeAll ws)

/-- Stop waiting under a registration. -/
def forget (h : Hub) (key : Nat) : Hub := { h with arrivals := h.arrivals.forget key }

end Hub

namespace FetchWait

/-- Give up a waiting fetch: its registration and its timer go. -/
def drop (w : FetchWait) (h : Hub) (c : Core) : Hub × Core := (h.forget w.key, w.sleep.drop c)

end FetchWait

/-- Give up a fetch, if one is waiting. -/
def FetchWait.drop? : Option FetchWait → Hub → Core → Hub × Core
  | some w, h, c => w.drop h c
  | none, h, c => (h, c)

namespace Fetch

/-- One attempt: register for wake-ups, then fail, take records, or wait. -/
def attempt (h : Hub) (c : Core) (cons : Consumer) (max deadline : Nat) (owner : Waker) :
    FetchStep :=
  let (key, arrivals) := h.arrivals.enable owner
  let h := { h with arrivals }
  if h.broker.closed then ⟨some (.error .closed), none, cons, h.forget key, c⟩
  else
    match cons.take h.broker max with
    | .error e => ⟨some (.error e), none, cons, h.forget key, c⟩
    | .ok (rs, cons') =>
      if !rs.isEmpty then ⟨some (.ok rs), none, cons', h.forget key, c⟩
      else
        let (elapsed, sl, c) := (Sleep.ofDeadline deadline).poll c owner
        if elapsed then ⟨some (.ok []), none, cons, h.forget key, c⟩
        else ⟨none, some ⟨deadline, key, sl⟩, cons, h, c⟩

/-- Start a fetch that waits at most `timeout`. -/
def start (h : Hub) (c : Core) (cons : Consumer) (max timeout : Nat) (owner : Waker) : FetchStep :=
  attempt h c cons max (c.now + timeout) owner

/-- Poll a waiting fetch: woken, it tries again; at its deadline it ends empty. -/
def resume (h : Hub) (c : Core) (cons : Consumer) (max : Nat) (w : FetchWait) (owner : Waker) :
    FetchStep :=
  if h.arrivals.isNotified w.key then
    let (h, c) := w.drop h c
    attempt h c cons max w.deadline owner
  else
    let (elapsed, sl, c) := w.sleep.poll c owner
    if elapsed then ⟨some (.ok []), none, cons, h.forget w.key, c⟩
    else ⟨none, some { w with sleep := sl }, cons, h, c⟩

/-- Poll a fetch: start it, or resume it. -/
def poll (h : Hub) (c : Core) (cons : Consumer) (max timeout : Nat) (w : Option FetchWait)
    (owner : Waker) : FetchStep :=
  match w with
  | none => start h c cons max timeout owner
  | some w => resume h c cons max w owner

end Fetch

end TokenGate
