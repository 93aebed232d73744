import TokenGate.Exchange.Client
/-!
# `TokenGate.Exchange.Run`: driving an exchange

The caller drives an exchange step by step. Most steps take no time and let no task
run: sending a record, changing the registry or the directory, reading counters,
asking for a stop. Two steps wait, and only while they wait do the tasks run and the
clock move:

* `advance` sleeps for a number of milliseconds;
* `clientSend` sends requests through the client and waits until each one has its
  answer, its timeout, or its failure.

The machine polls the caller first whenever it was woken, then the queued tasks in
order, and moves the clock only when nothing is left to run.
-/

set_option autoImplicit false

namespace TokenGate

open Sched

/-- The server's counters and occupancy. -/
structure ServeStats where
  counters : ServeCounters
  inFlight : Nat
  freeSlots : Nat

/-- A record of an answer topic, read back. -/
inductive AnswerRecord where
  | answer (partition : Nat) (key : Option String) (env : Envelope Response)
  | undecodable (partition : Nat) (key : Option String) (error : MessageError) (raw : List UInt8)

/-- Every retained record of a topic, partition by partition. -/
def Broker.retained (b : Broker) (topic : String) : List BusRecord :=
  match b.topic? topic with
  | none => []
  | some t => t.partitions.toList.flatMap (·.records)

namespace Exchange

/-- Run one task until it waits or ends. -/
def pollTask (id : Nat) (x : Exchange) : Exchange :=
  let store {α : Type} (wrap : α → Task) : Option α × Exchange → Exchange
    | (some s, x) => x.setTask id (wrap s)
    | (none, x) => x.endTask id
  match x.task? id with
  | none => x
  | some (.consume l) => store Task.consume (consumeRun id 10000 l x)
  | some (.sweep p) => store Task.sweep (sweepRun id p x)
  | some (.handler h) => store Task.handler (handlerRun id h x)
  | some (.listen l) => store Task.listen (listenRun id 10000 l x)
  | some (.evict p) => store Task.evict (evictRun id p x)

/-- How long a stopping task is waited for. -/
def stopGrace : Nat := 2000 * nanosPerMilli

/-- Wait once for the end of one task, for at most `stopGrace` from the first wait: the
sleep still to wait, or `none` once the wait is over (the task ended, or its grace ran
out). -/
def joinWait (x : Exchange) (id : Nat) (grace : Option Sleep) : Option Sleep × Exchange :=
  if (x.task? id).isNone then
    (none, { x with core := match grace with
      | some s => s.drop x.core
      | none => x.core })
  else
    let s := grace.getD (Sleep.ofDeadline (x.core.now + stopGrace))
    let polled := s.poll x.core .main
    (if polled.1 then none else some polled.2.1, { x with core := polled.2.2 })

/-- Wait for the end of each task in turn, each for at most `stopGrace`: `true` when
every wait is over. -/
def pollJoin (x : Exchange) : List Nat → Option Sleep → Bool × Exchange
  | [], _ => (true, { x with main := .idle })
  | id :: rest, grace =>
    match x.joinWait id grace with
    | (none, x) => pollJoin x rest none
    | (some s, x) => (false, { x with main := .join (id :: rest) (some s) })

/-- Poll the caller's sleep: `true` when it is over. -/
def pollSleep (x : Exchange) (s : Sleep) : Bool × Exchange :=
  let polled := s.poll x.core .main
  (polled.1, { x with core := polled.2.2, main := if polled.1 then .idle else .sleep polled.2.1 })

/-- Poll the caller's wait: `true` when it is over. -/
def pollMain (x : Exchange) : Bool × Exchange :=
  match x.main with
  | .idle => (true, x)
  | .join ids grace => x.pollJoin ids grace
  | .sleep s => x.pollSleep s
  | .sends items =>
    let (items, x) := x.pollSends items
    (items.all SendState.isFinished, { x with main := .sends items })

/-- The machine running an exchange. -/
def machine : Machine Exchange :=
  ⟨Exchange.core, fun x c => { x with core := c }, pollTask, pollMain⟩

/-- Let the tasks run until the caller's wait is over. -/
def runUntilDone (x : Exchange) : Exchange := machine.run Machine.defaultFuel x

/-- Sleep `ms` milliseconds while the tasks run. -/
def advance (x : Exchange) (ms : Nat) : Exchange :=
  runUntilDone { x with main := .sleep (Sleep.ofDeadline (x.core.now + ms * nanosPerMilli)),
                        core := { x.core with mainWoken := true } }

/-- The outcome of a finished wait. -/
def SendState.outcome : SendState → SendOutcome
  | .finished o => o
  | .waiting .. => .cancelled

/-- Send requests through the client (made on first use, replying on `replyTopic` and
waiting `timeoutMs`), and wait for all of them: their outcomes, and how many waiters
the client still holds. -/
def clientSend (x : Exchange) (replyTopic : String) (timeoutMs : Nat) (reqs : List Request) :
    (List SendOutcome × Nat) × Exchange :=
  let x := match x.client with
    | some _ => x
    | none => x.startClient replyTopic (timeoutMs * nanosPerMilli)
  let (items, x) := x.beginSends reqs
  let (items, x) :=
    if items.all SendState.isFinished then (items, x)
    else
      let x := runUntilDone { x with main := .sends items }
      match x.main with
      | .sends items => (items, { x with main := .idle })
      | _ => (items, x)
  let waiting := match x.client with
    | some cl => cl.store.len
    | none => 0
  ((items.map SendState.outcome, waiting), x)

/-- The client's timeout, in nanoseconds, once it exists. -/
def clientTimeout (x : Exchange) : Nat :=
  match x.client with
  | some cl => cl.timeout
  | none => 0

/-- Ask the server's tasks to stop. -/
def requestStop (x : Exchange) : Exchange :=
  let (stop, ws) := x.stop.send
  { x with stop }.wakeAll ws

/-- Drop the server's stop sender; the tasks take it as a stop. -/
def dropStop (x : Exchange) : Exchange :=
  let (stop, ws) := x.stop.close
  { x with stop }.wakeAll ws

/-- Whether any of the client's tasks is still running. -/
def clientRunning (x : Exchange) : Bool :=
  x.tasks.any fun e => match e.2 with
    | .listen _ | .evict _ => true
    | _ => false

/-- Ask the client's tasks to stop: `none` without a client, else whether any task
was still there to hear it. -/
def stopClient (x : Exchange) : Option Bool × Exchange :=
  match x.client with
  | none => (none, x)
  | some cl =>
    let heard := x.clientRunning
    let (stop, ws) := cl.stop.send
    (some heard, { x with client := some { cl with stop } }.wakeAll ws)

/-- Start the server's tasks, unless they were started: how many started. -/
def start (x : Exchange) : Option Nat × Exchange :=
  if x.server.started then (none, x)
  else
    let (ids, x) := x.startServer
    (some ids.length, x)

/-- The server's counters and occupancy. -/
def stats (x : Exchange) : ServeStats :=
  ⟨x.server.counters, x.server.inFlight.length, x.server.slots.permits⟩

/-- Publish a record as the caller. -/
def send (x : Exchange) (topic : String) (key : Option String) (value : List UInt8) :
    Except BusError RecordMetadata × Exchange :=
  let (r, x) := x.publish topic key value
  (r, x.note (.sent topic key value))

/-- Every retained record of an answer topic, read back as answers. -/
def answers (x : Exchange) (topic : String) : List AnswerRecord :=
  (x.hub.broker.retained topic).map fun r =>
    match Envelope.decode Response.reader r.value with
    | .ok env => .answer r.partition r.key env
    | .error e => .undecodable r.partition r.key e r.value

end Exchange

end TokenGate
