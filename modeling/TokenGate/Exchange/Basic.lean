import TokenGate.Bus.Fetch
import TokenGate.Config.Transport
import TokenGate.Pending.Store
import TokenGate.Validation.Service
import TokenGate.Message.Envelope
/-!
# `TokenGate.Exchange.Basic`: requests and responses over the bus

An *exchange* is a validation server and, optionally, a client, talking through one
broker on the virtual clock. This module holds the state of every part; the server's
and the client's behaviour are in `Exchange.Server` and `Exchange.Client`, and the
machine that runs them in `Exchange.Run`.

The server reads each partition of the request topic with its own *consume loop*,
hands every request to a *handler task*, and keeps the requests in flight, each with a
slot from a semaphore, a deadline and the channel on which its handler answers. A
*sweep* runs every poll interval: it publishes the answers that are ready, a default
answer for those past their deadline or whose handler died, and frees their slots.

The client publishes requests with its own reply topic and waits for the matching
answers, which its *listeners* take from the reply topic; an *evictor* drops waiters
whose deadline passed.

Each task is a value saying where it stands, and each wait is a registration with the
clock (a timer), a watch, the semaphore, or the hub's wake-up list.
-/

set_option autoImplicit false

namespace TokenGate

open Sched

/-- How the device directory is set to behave: how long a lookup takes, and whether
it then hangs or crashes instead of answering. -/
structure DirectoryMode where
  delayMs : Nat
  stall : Bool
  crash : Bool

/-- A directory that answers at once. -/
def DirectoryMode.prompt : DirectoryMode := ⟨0, false, false⟩

/-- What the server did so far. -/
structure ServeCounters where
  received : Nat
  dispatched : Nat
  completed : Nat
  timedOut : Nat
  failed : Nat
  skipped : Nat
  publishErrors : Nat

/-- All counters at zero. -/
def ServeCounters.zero : ServeCounters := ⟨0, 0, 0, 0, 0, 0, 0⟩

/-- A request handed to a handler and not yet answered. -/
structure InFlight where
  id : Uuid
  responseTopic : String
  dispatchedAt : Nat
  deadline : Nat
  /-- The channel on which the handler answers. -/
  result : Nat
  task : Nat

/-- The server's state. -/
structure Server where
  config : TransportConfig
  group : String
  slots : Semaphore
  inFlight : List InFlight
  /-- Set when the sweep stops: requests still arriving are dropped. -/
  closing : Bool
  counters : ServeCounters
  results : Channels Response
  started : Bool

/-- A loop that acts on every tick until told to stop. -/
structure PeriodicLoop where
  seen : Nat
  tick : Option Interval
  stopReg : Option Nat

/-- How a request in flight was settled. -/
inductive Settled where
  | completed (r : Response)
  | timedOut
  | failed

/-- What became of a record handed to `dispatch`. -/
inductive Admission where
  /-- Not a request frame that can be read. -/
  | undecodable
  /-- Its identifier was already in flight. -/
  | duplicate
  /-- In flight as this entry, with its handler started. -/
  | admitted (entry : InFlight)
  /-- Arrived after the sweep stopped: its handler was stopped at once. -/
  | dropped
  /-- Its deadline was past the clock's range: its handler started as task `task` on
  channel `result` and runs on with nobody to read its answer. Nothing was put in flight,
  its slot was given back, and the loop that handed it on stopped. -/
  | overflowed (task result : Nat)

/-- Where a consume loop stands. -/
inductive ConsumePhase where
  /-- Waiting for a stop, the commit tick, or a record. -/
  | waiting (stopReg : Option Nat) (fetch : Option FetchWait)
  /-- Holding a record, waiting for a slot or a stop. -/
  | acquiring (record : BusRecord) (stopReg : Option Nat) (slotReg : Option Nat)
  /-- Resting after a failed fetch. -/
  | pausing (s : Sleep)

/-- A consume loop of one request partition. -/
structure ConsumeLoop where
  consumer : Consumer
  seen : Nat
  commitTick : Option Interval
  /-- Whether a record was taken and not yet dispatched. -/
  held : Bool
  phase : ConsumePhase

/-- Where a reply listener stands. -/
inductive ListenPhase where
  | waiting (stopReg : Option Nat) (fetch : Option FetchWait)
  | pausing (s : Sleep)

/-- A listener of one reply partition. -/
structure Listener where
  consumer : Consumer
  seen : Nat
  phase : ListenPhase

/-- Where a handler stands. -/
inductive HandlerPhase where
  | fresh (request : Request)
  /-- Waiting for the directory to answer about a device. -/
  | looking (deviceId : Uuid) (mode : DirectoryMode) (s : Sleep)
  /-- The directory hangs. -/
  | stalled

/-- A handler task and its answer channel. -/
structure Handler where
  result : Nat
  phase : HandlerPhase

/-- A task of the exchange. -/
inductive Task where
  | consume (l : ConsumeLoop)
  | sweep (p : PeriodicLoop)
  | handler (h : Handler)
  | listen (l : Listener)
  | evict (p : PeriodicLoop)

/-- The client's state. -/
structure Client where
  requestsTopic : String
  replyTopic : String
  /-- How long a request is waited for, in nanoseconds. -/
  timeout : Nat
  store : PendingStore Response
  stop : Watch

/-- How a client request ended. -/
inductive SendOutcome where
  | ok (r : Response)
  | timeout
  | cancelled
  | bus (e : BusError)

/-- A client request being waited for. -/
inductive SendState where
  | waiting (id : Uuid) (channel : Nat) (deadline : Nat) (sleep : Sleep)
  | finished (o : SendOutcome)

/-- What the exchange did, as the statements about its runs see it. -/
inductive Event where
  /-- A consume loop started reading through this consumer. -/
  | consuming (task : Nat) (consumer : Consumer)
  /-- A consume loop's poll returned this record. -/
  | took (task : Nat) (record : BusRecord)
  /-- A consume loop handed a record to `dispatch`, which did this with it. -/
  | dispatched (task : Nat) (record : BusRecord) (admission : Admission)
  /-- A consume loop or a listener committed its consumer's position. -/
  | committed (task : Nat) (consumer : Consumer)
  /-- A handler's answer reached its channel. -/
  | returned (channel : Nat) (response : Response)
  /-- The sweep settled an entry and published this record for it (`sent` when the
  broker took it). -/
  | answered (entry : InFlight) (outcome : Settled) (topic : String) (key : Option String)
      (value : List UInt8) (sent : Bool)
  /-- The sweep stopped and dropped these requests, still in flight, with their handlers. -/
  | cleared (entries : List InFlight)
  /-- The client registered a request and publishes this frame for it. -/
  | requested (envelope : Envelope Request)
  /-- A listener handed an answer to the waiter of an identifier. -/
  | delivered (id : Uuid) (payload : Response) (delivery : Delivery)
  /-- A client request ended. -/
  | concluded (id : Uuid) (outcome : SendOutcome)
  /-- The caller published a record of its own. -/
  | sent (topic : String) (key : Option String) (value : List UInt8)

/-- What the driving caller waits for. -/
inductive MainWait where
  | idle
  | sleep (s : Sleep)
  | sends (items : List SendState)
  /-- The end of each task in turn, giving each a grace period (the sleep of the first). -/
  | join (tasks : List Nat) (grace : Option Sleep)

/-- A server, maybe a client, and their tasks, over one broker. -/
structure Exchange where
  core : Core
  hub : Hub
  backend : Backend
  directory : DirectoryMode
  server : Server
  stop : Watch
  client : Option Client
  tasks : List (Nat × Task)
  nextTask : Nat
  nextRequest : Nat
  main : MainWait
  /-- Every event so far, oldest first, each with the time it happened at. -/
  history : List (Nat × Event)

namespace Exchange

/-- What one turn of a task's loop leads to. -/
inductive Turn (α : Type) where
  /-- Another turn, from this state. -/
  | next (a : α) (x : Exchange)
  /-- The task stops for now: it waits in state `a`, or it ends (`none`). -/
  | stop (a : Option α) (x : Exchange)

/-- Take turns until the task waits or ends (at most `fuel` of them). -/
def runTurns {α : Type} (turn : α → Exchange → Turn α) : Nat → α → Exchange → Option α × Exchange
  | 0, a, x => (some a, x)
  | fuel + 1, a, x =>
    match turn a x with
    | .next a x => runTurns turn fuel a x
    | .stop a x => (a, x)

/-- A new exchange: the server set up but not started. -/
def create (config : TransportConfig) (group : String) (broker : Broker) (backend : Backend) :
    Exchange :=
  { core := Core.start, hub := Hub.ofBroker broker, backend, directory := .prompt,
    server := ⟨config, group, Semaphore.create config.maxPending, [], false, .zero,
      Channels.empty, false⟩,
    stop := Watch.fresh, client := none, tasks := [], nextTask := 0, nextRequest := 0,
    main := .idle, history := [] }

/-- A new exchange, or the abort of a pending limit too large for a semaphore. -/
def setUp (config : TransportConfig) (group : String) (broker : Broker) (backend : Backend) :
    Except String Exchange :=
  if config.maxPending > Semaphore.maxPermits then .error Semaphore.tooManyPermits
  else .ok (create config group broker backend)

/-- Record an event at the current time. -/
def note (x : Exchange) (e : Event) : Exchange := { x with history := x.history ++ [(x.core.now, e)] }

/-- Apply wake-ups. -/
def wakeAll (x : Exchange) (ws : List Waker) : Exchange := { x with core := x.core.wakeAll ws }

/-- Start a task; it first runs when its turn in the queue comes. -/
def spawn (x : Exchange) (t : Task) : Nat × Exchange :=
  let id := x.nextTask
  (id, { x with tasks := x.tasks ++ [(id, t)], nextTask := id + 1, core := x.core.wake (.task id) })

/-- A task by number. -/
def task? (x : Exchange) (id : Nat) : Option Task := (x.tasks.find? (·.1 == id)).map (·.2)

/-- Store a task's new state. -/
def setTask (x : Exchange) (id : Nat) (t : Task) : Exchange :=
  { x with tasks := x.tasks.map fun e => if e.1 == id then (id, t) else e }

/-- Remove a finished task; a caller waiting for its end is woken. -/
def endTask (x : Exchange) (id : Nat) : Exchange :=
  let x := { x with tasks := x.tasks.filter (·.1 != id) }
  match x.main with
  | .join ids _ => if ids.contains id then { x with core := x.core.wake .main } else x
  | _ => x

/-- Change the server's counters. -/
def count (x : Exchange) (f : ServeCounters → ServeCounters) : Exchange :=
  { x with server := { x.server with counters := f x.server.counters } }

/-- Return a slot to the server's pool. -/
def releaseSlot (x : Exchange) : Exchange :=
  let (slots, ws) := x.server.slots.release
  { x with server := { x.server with slots } }.wakeAll ws

/-- Publish a record through the hub. -/
def publish (x : Exchange) (topic : String) (key : Option String) (value : List UInt8) :
    Except BusError RecordMetadata × Exchange :=
  let (r, hub, core) := x.hub.publish x.core topic key value
  (r, { x with hub, core })

/-- Close the broker. -/
def closeBroker (x : Exchange) : Exchange :=
  let (hub, core) := x.hub.close x.core
  { x with hub, core }

/-- Stop a handler task at once: its timer goes, and its answer is never sent. -/
def abortHandler (x : Exchange) (id : Nat) : Exchange :=
  let core := match x.task? id with
    | some (.handler ⟨_, .looking _ _ s⟩) => s.drop x.core
    | _ => x.core
  { x with core }.endTask id

/-- Give up a fetch, if one is waiting. -/
def dropFetch (x : Exchange) (w : Option FetchWait) : Exchange :=
  let (hub, core) := FetchWait.drop? w x.hub x.core
  { x with hub, core }

/-- Run a fetch step and keep its effects on the hub and the clock. -/
def fetch (x : Exchange) (cons : Consumer) (max timeout : Nat) (w : Option FetchWait)
    (owner : Waker) : FetchStep × Exchange :=
  let st := Fetch.poll x.hub x.core cons max timeout w owner
  (st, { x with hub := st.hub, core := st.core })

end Exchange

end TokenGate
