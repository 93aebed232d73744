import TokenGate.Exchange.Server
import TokenGate.Time.Duration
/-!
# `TokenGate.Exchange.Client`: asking the server and waiting for answers

The client publishes each request to the request topic in an envelope naming the
client's reply topic, keyed by the request's identifier, and registers a waiter for it
that expires after the client's timeout (fixed when the client is made).

* A *listener* per reply partition takes up to 64 records at a time and hands every
  decodable answer to its waiter; after a non-empty batch it commits.
* The *evictor* drops the expired waiters every poll interval.
* A request's caller waits for its answer or its deadline, whichever comes first. A
  waiter dropped before an answer means a timeout when the deadline has passed (the
  evictor got it) and a cancellation otherwise; a caller reaching its deadline first
  cancels its waiter and reports a timeout. A publish that fails ends the request at
  once with the bus error.

Stopping the client stops its listeners and evictor; later requests can only time out.
-/

set_option autoImplicit false

namespace TokenGate

open Sched

/-- The text of a failed request, naming the request by `id` and the client's timeout
(nanoseconds); `none` for an answered one. -/
def SendOutcome.describe (id : String) (timeout : Nat) : SendOutcome → Option String
  | .ok _ => none
  | .timeout => some ("Request " ++ id ++ " timed out after " ++ (Duration.mk timeout).debugText)
  | .cancelled => some ("Request " ++ id ++ " was cancelled")
  | .bus e => some ("Bus error: " ++ e.message)

namespace Exchange

/-- Records a listener takes at a time. -/
def replyBatch : Nat := 64

/-- The consumer group of the client's listeners. -/
def clientGroup : String := "__client"

/-- Change the client, if there is one. -/
def withClient (x : Exchange) (f : Client → Client) : Exchange :=
  { x with client := x.client.map f }

/-- Apply a change to the client's waiters. -/
def withWaiters (x : Exchange) (f : PendingStore Response → PendingStore Response × List Waker) :
    Exchange :=
  match x.client with
  | none => x
  | some cl =>
    let (store, ws) := f cl.store
    { x with client := some { cl with store } }.wakeAll ws

/-- Hand every decodable answer among `records` to its waiter. -/
def deliverAll (x : Exchange) (records : List BusRecord) : Exchange :=
  records.foldl (fun (x : Exchange) (r : BusRecord) =>
    match Envelope.decode Response.reader r.value with
    | .ok env =>
      match x.client with
      | none => x
      | some cl =>
        let (d, store, ws) := cl.store.deliver env.requestId env.payload x.core.now
        ({ x with client := some { cl with store } }.wakeAll ws).note
          (.delivered env.requestId env.payload d)
    | .error _ => x) x

/-- Set the client's stop watch. -/
def setClientStop (x : Exchange) (w : Watch) : Exchange := x.withClient fun cl => { cl with stop := w }

/-- Forget a stop registration on the client's watch. -/
def forgetClientStop (x : Exchange) (reg : Option Nat) : Exchange :=
  x.withClient fun cl => { cl with stop := cl.stop.forget reg }

/-- A listener waiting for a stop or for records, with the client's stop watch `stop`. -/
def listenWait (id : Nat) (l : Listener) (stop : Watch) (reg : Option Nat)
    (fetch : Option FetchWait) (x : Exchange) : Turn Listener :=
  let owner := Waker.task id
  let ((chg, seen, reg), stop) := stop.poll l.seen reg owner
  let x := x.setClientStop stop
  let l := { l with seen }
  if chg.isSome then .stop none (x.dropFetch fetch)
  else if fetch.isNone && (addInstant? x.core.now x.pollInterval).isNone then
    -- a new poll's deadline is past the clock's range: the listener stops before it polls
    .stop none (x.forgetClientStop reg)
  else
    let (st, x) := x.fetch l.consumer replyBatch x.pollInterval fetch owner
    let l := { l with consumer := st.consumer }
    match st.result with
    | none => .stop (some { l with phase := .waiting reg st.wait }) x
    | some r =>
      let x := x.forgetClientStop reg
      match r with
      | .ok [] => .next { l with phase := .waiting none none } x
      | .ok records =>
        .next { l with phase := .waiting none none } ((x.deliverAll records).commitAs id l.consumer)
      | .error .closed => .stop none x
      | .error _ =>
        .next { l with phase := .pausing (Sleep.ofDeadline (x.core.now + x.pollInterval)) } x

/-- A listener resting after a failed fetch, until its sleep is over. -/
def listenPause (id : Nat) (l : Listener) (s : Sleep) (x : Exchange) : Turn Listener :=
  let polled := s.poll x.core (.task id)
  let x := { x with core := polled.2.2 }
  if polled.1 then .next { l with phase := .waiting none none } x
  else .stop (some { l with phase := .pausing polled.2.1 }) x

/-- One turn of a listener: it ends once there is no client. -/
def listenTurn (id : Nat) (l : Listener) (x : Exchange) : Turn Listener :=
  match x.client with
  | none => .stop none x
  | some cl =>
    match l.phase with
    | .pausing s => listenPause id l s x
    | .waiting reg fetch => listenWait id l cl.stop reg fetch x

/-- Run a listener until it waits or ends. -/
def listenRun (id : Nat) : Nat → Listener → Exchange → Option Listener × Exchange :=
  runTurns (listenTurn id)

/-- Drop the client's expired waiters. -/
def evictWaiters (x : Exchange) : Exchange :=
  x.withWaiters fun st =>
    let (_, st, ws) := st.evictExpired x.core.now
    (st, ws)

/-- The evictor task. -/
def evictRun (id : Nat) (p : PeriodicLoop) (x : Exchange) : Option PeriodicLoop × Exchange :=
  periodicRun id x.pollInterval true (fun x => x.client.map (·.stop)) setClientStop evictWaiters
    (fun x => x) 10000 p x

/-- Make the client, replying on `replyTopic` and waiting `timeout` nanoseconds, and
start its listeners and evictor. -/
def startClient (x : Exchange) (replyTopic : String) (timeout : Nat) : Exchange :=
  let cl : Client := ⟨x.server.config.requestsTopic, replyTopic, timeout, PendingStore.empty,
    Watch.fresh⟩
  let (n, broker) := x.hub.broker.partitions replyTopic
  let x := { x with client := some cl, hub := { x.hub with broker } }
  let x := (List.range n).foldl (fun x p =>
    match x.hub.broker.consumer clientGroup replyTopic p with
    | (.ok cons, broker) =>
      let x := { x with hub := { x.hub with broker } }
      (x.spawn (.listen ⟨cons, 0, .waiting none none⟩)).2
    | (.error _, _) => x) x
  (x.spawn (.evict ⟨0, none, none⟩)).2

/-- A request with no answer yet: the caller listens on its channel `ch` and sleeps
until its deadline; at the deadline it cancels the waiter and reports a timeout. -/
def awaitReply (x : Exchange) (cl : Client) (id : Uuid) (ch deadline : Nat) (sl : Sleep) :
    SendState × Exchange :=
  let store := { cl.store with channels := cl.store.channels.listen ch .main }
  let x := { x with client := some { cl with store } }
  let polled := sl.poll x.core .main
  let x := { x with core := polled.2.2 }
  if polled.1 then
    let x := x.withWaiters fun st =>
      let (_, st, ws) := st.cancel id
      (st, ws)
    (.finished .timeout, x.note (.concluded id .timeout))
  else (.waiting id ch deadline polled.2.1, x)

/-- Poll a request's wait: its answer, its waiter gone, or its deadline. -/
def pollSend (x : Exchange) : SendState → SendState × Exchange
  | .finished o => (.finished o, x)
  | .waiting id ch deadline sl =>
    match x.client with
    | none => (.finished .cancelled, x)
    | some cl =>
      let (r, channels) := cl.store.channels.tryRecv ch
      let cl := { cl with store := { cl.store with channels } }
      let x := { x with client := some cl }
      match r with
      | .value reply => (.finished (.ok reply.payload), x.note (.concluded id (.ok reply.payload)))
      | .closed =>
        let o := if x.core.now ≥ deadline then SendOutcome.timeout else .cancelled
        (.finished o, x.note (.concluded id o))
      | .empty => x.awaitReply cl id ch deadline sl

/-- Send one request: register its waiter, publish it, and poll its wait once. -/
def beginSend (x : Exchange) (req : Request) : SendState × Exchange :=
  match x.client with
  | none => (.finished .cancelled, x)
  | some cl =>
    let id := Uuid.fresh x.nextRequest
    let x := { x with nextRequest := x.nextRequest + 1 }
    let env := Envelope.request id req cl.replyTopic 0
    let bytes := Envelope.encode Request.toValue env
    let deadline := x.core.now + cl.timeout
    let (ch, store, ws) := cl.store.register id req.kind x.core.now cl.timeout
    let x := ({ x with client := some { cl with store } }.wakeAll ws).note (.requested env)
    match x.publish cl.requestsTopic (some id.display) bytes with
    | (.error e, x) =>
      let x := x.withWaiters fun st =>
        let (_, st, ws) := st.cancel id
        (st, ws)
      (.finished (.bus e), x.note (.concluded id (.bus e)))
    | (.ok _, x) => x.pollSend (.waiting id ch deadline (Sleep.ofDeadline deadline))

/-- Whether every request's wait is over. -/
def SendState.isFinished : SendState → Bool
  | .finished _ => true
  | .waiting .. => false

/-- Poll every unfinished wait, in order. -/
def pollSends (x : Exchange) (items : List SendState) : List SendState × Exchange :=
  items.foldl (fun (acc : List SendState × Exchange) s =>
    let (s, x) := acc.2.pollSend s
    (acc.1 ++ [s], x)) ([], x)

/-- Start every request, in order. -/
def beginSends (x : Exchange) (reqs : List Request) : List SendState × Exchange :=
  reqs.foldl (fun (acc : List SendState × Exchange) r =>
    let (s, x) := acc.2.beginSend r
    (acc.1 ++ [s], x)) ([], x)

end Exchange

end TokenGate
