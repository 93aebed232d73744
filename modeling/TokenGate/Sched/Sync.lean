import TokenGate.Sched.Core
/-!
# `TokenGate.Sched.Sync`: what tasks wait on

The waiting primitives of the machine, each a plain value that an operation changes
and that reports whom to wake:

* `Sleep`: over at its deadline; registered as a timer the first time it is polled.
* `Interval`: a periodic tick. The first tick is due at once; after a tick the next
  is one period later, or, when the tick came more than 5 ms late, the next multiple
  of the period after now (missed ticks are skipped).
* `Oneshot`: a channel for one value. The receiver sees the value, or that the sender
  is gone, or nothing yet; after it has seen either, it only sees that the channel is
  closed.
* `Watch`: a versioned value. A receiver has seen some version; it is woken when a new
  version is sent or the sender is dropped.
* `Semaphore`: permits handed out first come, first served. A released permit goes to
  the oldest waiter; a waiter that gives up returns a permit it was handed.
* `Notify`: wakes every registered waiter at once.

Waiters are woken in the order they registered.
-/

set_option autoImplicit false

namespace TokenGate.Sched

/-- A sleep until a deadline (nanoseconds), with its timer once registered. -/
structure Sleep where
  deadline : Nat
  timer : Option Nat

namespace Sleep

/-- A sleep not yet polled. -/
def ofDeadline (deadline : Nat) : Sleep := ⟨deadline, none⟩

/-- Poll a sleep for `owner`: `true` when it is over. -/
def poll (s : Sleep) (c : Core) (owner : Waker) : Bool × Sleep × Core :=
  if c.due s.deadline then (true, { s with timer := none }, c.cancel? s.timer)
  else
    match s.timer with
    | some _ => (false, s, c)
    | none =>
      let (seq, c) := c.register s.deadline owner
      (false, { s with timer := some seq }, c)

/-- Drop a sleep: its timer goes. -/
def drop (s : Sleep) (c : Core) : Core := c.cancel? s.timer

end Sleep

/-- A periodic tick. -/
structure Interval where
  period : Nat
  deadline : Nat
  timer : Option Nat

namespace Interval

/-- An interval whose first tick is due at `now`. -/
def create (now period : Nat) : Interval := ⟨period, now, none⟩

/-- The deadline after a tick scheduled at `timeout` and taken at `now`. -/
def following (period timeout now : Nat) : Nat :=
  if now > timeout + 5 * nanosPerMilli then now + period - (now - timeout) % period
  else timeout + period

/-- Poll for a tick, for `owner`: `true`, with the interval moved on, when it is due. -/
def poll (iv : Interval) (c : Core) (owner : Waker) : Bool × Interval × Core :=
  if c.due iv.deadline then
    (true, { iv with deadline := following iv.period iv.deadline c.now, timer := none },
      c.cancel? iv.timer)
  else
    match iv.timer with
    | some _ => (false, iv, c)
    | none =>
      let (seq, c) := c.register iv.deadline owner
      (false, { iv with timer := some seq }, c)

/-- Drop an interval: its timer goes. -/
def drop (iv : Interval) (c : Core) : Core := c.cancel? iv.timer

end Interval

/-- A channel for one value. -/
structure Oneshot (α : Type) where
  value : Option α
  senderLive : Bool
  receiverLive : Bool
  spent : Bool
  waker : Option Waker

/-- What a receiver finds. -/
inductive Received (α : Type) where
  | value (a : α)
  | empty
  | closed

namespace Oneshot

variable {α : Type}

/-- A new channel, both ends held. -/
def fresh : Oneshot α := ⟨none, true, true, false, none⟩

/-- Look without waiting. -/
def tryRecv (ch : Oneshot α) : Received α × Oneshot α :=
  if ch.spent then (.closed, ch)
  else
    match ch.value with
    | some a => (.value a, { ch with value := none, spent := true })
    | none => if ch.senderLive then (.empty, ch) else (.closed, { ch with spent := true })

/-- Send the value: `false` (and the value lost) when the receiver is gone. Returns whom
to wake. -/
def send (ch : Oneshot α) (a : α) : Bool × Oneshot α × List Waker :=
  if ch.receiverLive then
    (true, { ch with value := some a, senderLive := false }, ch.waker.toList)
  else (false, { ch with senderLive := false }, [])

/-- The sender goes without sending; the receiver is woken. -/
def dropSender (ch : Oneshot α) : Oneshot α × List Waker :=
  if ch.senderLive then ({ ch with senderLive := false }, ch.waker.toList) else (ch, [])

/-- The receiver goes. -/
def dropReceiver (ch : Oneshot α) : Oneshot α := { ch with receiverLive := false, waker := none }

end Oneshot

/-- A table of one-shot channels by number. -/
structure Channels (α : Type) where
  next : Nat
  items : List (Nat × Oneshot α)

namespace Channels

variable {α : Type}

/-- No channels. -/
def empty : Channels α := ⟨0, []⟩

/-- Open a channel; its number. -/
def openChannel (t : Channels α) : Nat × Channels α :=
  (t.next, ⟨t.next + 1, t.items ++ [(t.next, Oneshot.fresh)]⟩)

/-- A channel by number. -/
def get? (t : Channels α) (n : Nat) : Option (Oneshot α) :=
  (t.items.find? (·.1 == n)).map (·.2)

/-- Change a channel. -/
def update (t : Channels α) (n : Nat) (f : Oneshot α → Oneshot α) : Channels α :=
  { t with items := t.items.map fun e => if e.1 == n then (e.1, f e.2) else e }

/-- Send on a channel. -/
def send (t : Channels α) (n : Nat) (a : α) : Bool × Channels α × List Waker :=
  match t.get? n with
  | some ch =>
    let (ok, ch, ws) := ch.send a
    (ok, t.update n fun _ => ch, ws)
  | none => (false, t, [])

/-- Drop the sender of a channel. -/
def dropSender (t : Channels α) (n : Nat) : Channels α × List Waker :=
  match t.get? n with
  | some ch =>
    let (ch, ws) := ch.dropSender
    (t.update n fun _ => ch, ws)
  | none => (t, [])

/-- Drop the receiver of a channel. -/
def dropReceiver (t : Channels α) (n : Nat) : Channels α := t.update n Oneshot.dropReceiver

/-- Look at a channel without waiting. -/
def tryRecv (t : Channels α) (n : Nat) : Received α × Channels α :=
  match t.get? n with
  | some ch =>
    let (r, ch) := ch.tryRecv
    (r, t.update n fun _ => ch)
  | none => (.closed, t)

/-- Register the receiver's waker. -/
def listen (t : Channels α) (n : Nat) (w : Waker) : Channels α :=
  t.update n fun ch => { ch with waker := some w }

end Channels

/-- A versioned value's shared state. -/
structure Watch where
  version : Nat
  closed : Bool
  waiters : List (Nat × Waker)
  nextKey : Nat

/-- How a wait for a change ended. -/
inductive Change where
  | changed
  | senderGone

namespace Watch

/-- A channel at version zero. -/
def fresh : Watch := ⟨0, false, [], 0⟩

/-- Drop a waiter. -/
def forget (w : Watch) : Option Nat → Watch
  | some k => { w with waiters := w.waiters.filter (·.1 != k) }
  | none => w

/-- Register a new waiter. -/
def join (w : Watch) (seen : Nat) (owner : Waker) : (Option Change × Nat × Option Nat) × Watch :=
  let ws := w.waiters ++ [(w.nextKey, owner)]
  ((none, seen, some w.nextKey), { w with waiters := ws, nextKey := w.nextKey + 1 })

/-- Poll a wait for a change by a receiver that has seen `seen`, registered as `reg`:
the outcome and the version now seen, or the registration to keep. -/
def poll (w : Watch) (seen : Nat) (reg : Option Nat) (owner : Waker) :
    (Option Change × Nat × Option Nat) × Watch :=
  if w.version != seen then ((some .changed, w.version, none), w.forget reg)
  else if w.closed then ((some .senderGone, seen, none), w.forget reg)
  else
    match reg with
    | some k => if w.waiters.any (·.1 == k) then ((none, seen, reg), w) else w.join seen owner
    | none => w.join seen owner

/-- Whether a receiver that has seen `seen` should stop: a new version, or no sender. -/
def stopRequested (w : Watch) (seen : Nat) : Bool := w.closed || w.version != seen

/-- Send a new version; every waiter is woken. -/
def send (w : Watch) : Watch × List Waker :=
  ({ w with version := w.version + 1, waiters := [] }, w.waiters.map (·.2))

/-- Drop the sender; every waiter is woken. -/
def close (w : Watch) : Watch × List Waker :=
  ({ w with closed := true, waiters := [] }, w.waiters.map (·.2))

end Watch

/-- A counting semaphore with a first-come, first-served queue. -/
structure Semaphore where
  permits : Nat
  waiters : List (Nat × Waker × Bool)
  nextKey : Nat

namespace Semaphore

/-- A semaphore with `n` permits. -/
def create (n : Nat) : Semaphore := ⟨n, [], 0⟩

/-- The most permits a semaphore may be made with: the counter keeps three bits for
itself. -/
def maxPermits : Nat := 2305843009213693951

/-- The abort of making a semaphore with more than `maxPermits` permits. -/
def tooManyPermits : String :=
  "a semaphore may not have more than MAX_PERMITS permits (2305843009213693951)"

/-- Poll an acquisition registered as `reg`: `true` with a permit, else the registration
to keep. -/
def poll (s : Semaphore) (reg : Option Nat) (owner : Waker) : (Bool × Option Nat) × Semaphore :=
  match reg with
  | some k =>
    if s.waiters.any (fun e => e.1 == k && e.2.2) then
      ((true, none), { s with waiters := s.waiters.filter (·.1 != k) })
    else ((false, reg), s)
  | none =>
    if s.permits > 0 then ((true, none), { s with permits := s.permits - 1 })
    else
      let ws := s.waiters ++ [(s.nextKey, owner, false)]
      ((false, some s.nextKey), { s with waiters := ws, nextKey := s.nextKey + 1 })

/-- Return one permit: it goes to the oldest waiter still waiting, who is woken. -/
def release (s : Semaphore) : Semaphore × List Waker :=
  match s.waiters.find? (fun e => !e.2.2) with
  | some (k, owner, _) =>
    ({ s with waiters := s.waiters.map fun e => if e.1 == k then (e.1, e.2.1, true) else e },
      [owner])
  | none => ({ s with permits := s.permits + 1 }, [])

/-- Give up an acquisition; a permit it was handed goes back. -/
def abandon (s : Semaphore) : Option Nat → Semaphore × List Waker
  | some k =>
    let handed := s.waiters.any (fun e => e.1 == k && e.2.2)
    let s := { s with waiters := s.waiters.filter (·.1 != k) }
    if handed then s.release else (s, [])
  | none => (s, [])

end Semaphore

/-- Waiters woken all at once. -/
structure Notify where
  waiters : List (Nat × Waker)
  notified : List Nat
  nextKey : Nat

namespace Notify

/-- Nobody waiting. -/
def fresh : Notify := ⟨[], [], 0⟩

/-- Register a waiter. -/
def enable (n : Notify) (owner : Waker) : Nat × Notify :=
  let ws := n.waiters ++ [(n.nextKey, owner)]
  (n.nextKey, { n with waiters := ws, nextKey := n.nextKey + 1 })

/-- Whether a waiter has been notified. -/
def isNotified (n : Notify) (k : Nat) : Bool := n.notified.contains k

/-- Drop a waiter. -/
def forget (n : Notify) (k : Nat) : Notify :=
  { n with waiters := n.waiters.filter (·.1 != k), notified := n.notified.filter (· != k) }

/-- Notify every waiter; whom to wake. -/
def notifyWaiters (n : Notify) : Notify × List Waker :=
  ({ n with waiters := [], notified := n.notified ++ n.waiters.map (·.1) }, n.waiters.map (·.2))

end Notify

end TokenGate.Sched
