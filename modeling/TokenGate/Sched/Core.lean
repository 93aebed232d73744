/-!
# `TokenGate.Sched.Core`: cooperative tasks on a virtual clock

The services of this library run as cooperative tasks on one thread, with a clock that
only moves when every task is waiting. `Core` is the shared part of that machine:

* the clock, in nanoseconds (it only ever moves to whole milliseconds), counted from the
  machine's start; an instant holds at most `instantSecsMax` whole seconds, and adding a
  duration that reaches past that stops the program (`addInstant?`);
* the timers: each fires at a whole-millisecond *tick*, the deadline rounded up; timers
  of one tick fire in the order they were registered;
* the run queue of woken tasks, first in first out, a task at most once;
* whether the *main* computation (the caller driving the machine) has been woken.

`Core.run` is the machine's loop:

1. if the main computation was woken, poll it first; stop when it is done;
2. run queued tasks until the queue is empty;
3. if the main computation was woken meanwhile, go back to 1 without moving the clock;
   otherwise move the clock to the next timer's tick, fire every timer due, and go back
   to 1.

A sleep is over exactly when its deadline's tick is not after the clock's tick; a sleep
registered when it is already over completes at once, without a timer.

Every run of this machine is a run on one thread: a task's turn is never interleaved with
another's, as on the current-thread runtime the services' tests use. The results proved
of these runs, about concurrency (the slot bound, the counters, the answers, the shutdown),
are about such runs only. The services' specification names a multi-thread runtime, under
which two turns can overlap: there, for instance, a request being admitted can meet the
sweep's stop half-way (the server's `dispatch` checks for it after admitting), which no run
here does.
-/

set_option autoImplicit false

namespace TokenGate.Sched

/-- Who a wake-up goes to. -/
inductive Waker where
  | main
  | task (id : Nat)
  deriving DecidableEq, Inhabited

/-- A registered timer. -/
structure Timer where
  seq : Nat
  tick : Nat
  owner : Waker

/-- Nanoseconds per millisecond. -/
def nanosPerMilli : Nat := 1000000

/-- The tick at which a deadline (in nanoseconds) fires: rounded up to a millisecond. -/
def tickOf (deadline : Nat) : Nat := (deadline + nanosPerMilli - 1) / nanosPerMilli

/-- The most whole seconds an instant can hold: instants keep their seconds in a signed
64-bit count. -/
def instantSecsMax : Nat := 9223372036854775807

/-- The instant `d` nanoseconds after the instant `t`, unless its whole seconds pass
`instantSecsMax`: adding the duration then stops the program. -/
def addInstant? (t d : Nat) : Option Nat :=
  if (t + d) / 1000000000 ≤ instantSecsMax then some (t + d) else none

theorem addInstant?_eq_none_iff {t d : Nat} :
    addInstant? t d = none ↔ instantSecsMax < (t + d) / 1000000000 := by
  unfold addInstant?
  split <;> simp_all

theorem addInstant?_eq_some_iff {t d r : Nat} :
    addInstant? t d = some r ↔ (t + d) / 1000000000 ≤ instantSecsMax ∧ t + d = r := by
  unfold addInstant?
  split
  · simp_all
  · simp only [reduceCtorEq, false_iff, not_and]
    omega

/-- The shared state of the machine. -/
structure Core where
  now : Nat
  timers : List Timer
  nextSeq : Nat
  queue : List Nat
  mainWoken : Bool

namespace Core

/-- The machine at time zero, idle. -/
def start : Core := ⟨0, [], 0, [], false⟩

/-- The current tick. -/
def nowTick (c : Core) : Nat := c.now / nanosPerMilli

/-- Wake the main computation or a task (queued at the back, unless queued already). -/
def wake (c : Core) : Waker → Core
  | .main => { c with mainWoken := true }
  | .task id => if c.queue.contains id then c else { c with queue := c.queue ++ [id] }

/-- Wake several, in order. -/
def wakeAll (c : Core) (ws : List Waker) : Core := ws.foldl wake c

/-- Whether a sleep until `deadline` is over. -/
def due (c : Core) (deadline : Nat) : Bool := tickOf deadline ≤ c.nowTick

/-- Register a timer for `deadline` waking `owner`; its number. -/
def register (c : Core) (deadline : Nat) (owner : Waker) : Nat × Core :=
  let t : Timer := ⟨c.nextSeq, tickOf deadline, owner⟩
  (c.nextSeq, { c with timers := c.timers ++ [t], nextSeq := c.nextSeq + 1 })

/-- Remove a timer. -/
def cancel (c : Core) (seq : Nat) : Core := { c with timers := c.timers.filter (·.seq != seq) }

/-- Remove a timer if there is one. -/
def cancel? (c : Core) : Option Nat → Core
  | some seq => c.cancel seq
  | none => c

/-- The earliest tick of a registered timer. -/
def nextTick? (c : Core) : Option Nat :=
  c.timers.foldl (fun acc t => match acc with
    | some m => some (min m t.tick)
    | none => some t.tick) none

/-- Fire every timer due: remove them and wake their owners, in registration order. -/
def fire (c : Core) : Core :=
  let dueNow := c.timers.filter fun (t : Timer) => t.tick ≤ c.nowTick
  let rest := c.timers.filter fun (t : Timer) => t.tick > c.nowTick
  Core.wakeAll { c with timers := rest } (dueNow.map Timer.owner)

/-- Move the clock forward to a tick. -/
def advanceTo (c : Core) (tick : Nat) : Core := { c with now := max c.now (tick * nanosPerMilli) }

/-- Take the task at the head of the queue. -/
def pop (c : Core) : Option (Nat × Core) :=
  match c.queue with
  | id :: rest => some (id, { c with queue := rest })
  | [] => none

end Core

/-- How a machine over a world `W` is run: where its core is, how a task is polled, and
how the main computation is polled (`true` when it is done). -/
structure Machine (W : Type) where
  core : W → Core
  setCore : W → Core → W
  pollTask : Nat → W → W
  pollMain : W → Bool × W

namespace Machine

variable {W : Type}

/-- Run queued tasks until the queue is empty (at most `fuel` of them). -/
def drain (m : Machine W) : Nat → W → W
  | 0, w => w
  | fuel + 1, w =>
    match (m.core w).pop with
    | none => w
    | some (id, c) => m.drain fuel (m.pollTask id (m.setCore w c))

/-- Run the machine until the main computation is done or nothing can happen any more
(at most `fuel` rounds). -/
def run (m : Machine W) : Nat → W → W
  | 0, w => w
  | fuel + 1, w =>
    let (finished, w) :=
      if (m.core w).mainWoken then m.pollMain (m.setCore w { m.core w with mainWoken := false })
      else (false, w)
    if finished then w
    else
      let w := m.drain 100000 w
      let c := m.core w
      if c.mainWoken then m.run fuel w
      else
        match c.nextTick? with
        | none => w
        | some t => m.run fuel (m.setCore w (c.advanceTo t).fire)

/-- Rounds enough for any scenario of this library. -/
def defaultFuel : Nat := 1000000000

end Machine

end TokenGate.Sched
