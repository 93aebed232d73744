import TokenGate.Exchange.Basic
/-!
# `TokenGate.Exchange.Server`: serving requests from the bus

The server's behaviour, one task kind at a time.

* A *consume loop* waits, in this order of preference, for a stop, for its commit tick
  (then it commits its position), or for one record. Holding a record, it waits for a
  free slot or a stop; with a slot it dispatches the record. When it stops it commits,
  unless it stopped holding a record it had not dispatched.
* `dispatch` counts the record as received and decodes it. An undecodable record, or a
  request whose identifier is already in flight, is skipped and its slot freed;
  otherwise a handler task starts and the request is in flight until the sweep settles
  it. A request arriving after the sweep stopped is dropped at once. A request whose
  deadline is past the clock's range stops `dispatch` after its handler started: the
  handler runs on, its answer unread, the slot is freed, and the loop stops.
* A consume loop whose next poll's deadline is past the clock's range stops too, before
  it polls; a loop stopped so never commits again.
* A *handler* asks the credential store at its start and the directory after the
  directory's delay, then answers on its channel; a crashing directory kills it without
  an answer, a hanging one keeps it forever.
* The *sweep* settles what is ready: an answer is published as it is, a request past
  its deadline (its handler is stopped) or whose handler died gets the empty answer.
  Answers go to the request's own topic, keyed by its identifier; a failed publish is
  counted. Each settled request frees its slot. When the sweep stops, every request
  still in flight is dropped with its handler.
-/

set_option autoImplicit false

namespace TokenGate

open Sched

namespace Exchange

/-- The server's configured poll interval, in nanoseconds. -/
def pollInterval (x : Exchange) : Nat := x.server.config.pollInterval.nanos

/-- Hand a record to a handler; the caller holds a slot for it. What became of the
record is returned with the new state. -/
def dispatch (x : Exchange) (record : BusRecord) : Admission × Exchange :=
  let x := x.count fun c => { c with received := c.received + 1 }
  let skip (x : Exchange) : Exchange :=
    (x.count fun c => { c with skipped := c.skipped + 1 }).releaseSlot
  match Envelope.decode Request.reader record.value with
  | .error _ => (.undecodable, skip x)
  | .ok env =>
    let topic := env.responseTopic.getD x.server.config.responsesTopic
    if x.server.inFlight.any (·.id == env.requestId) then (.duplicate, skip x)
    else
      let (ch, results) := x.server.results.openChannel
      let x := { x with server := { x.server with results } }
      let (tid, x) := x.spawn (.handler ⟨ch, .fresh env.payload⟩)
      let now := x.core.now
      match addInstant? now x.server.config.requestTimeout.nanos with
      | none =>
        -- the deadline is past the clock's range: `dispatch` stops here, its handler
        -- running on; the receiver and the slot it held are let go
        (.overflowed tid ch,
          { x with server := { x.server with results := x.server.results.dropReceiver ch } }.releaseSlot)
      | some deadline =>
        let entry : InFlight := ⟨env.requestId, topic, now, deadline, ch, tid⟩
        if x.server.closing then (.dropped, (x.abortHandler tid).releaseSlot)
        else
          let x := { x with server := { x.server with inFlight := x.server.inFlight ++ [entry] } }
          (.admitted entry, x.count fun c => { c with dispatched := c.dispatched + 1 })

/-- Look at every request in flight: answered, handler gone, or past its deadline. -/
def collectSettled (x : Exchange) : List (InFlight × Settled) × Exchange :=
  let now := x.core.now
  let (found, results) := x.server.inFlight.foldl
    (fun (acc : List (InFlight × Settled) × Channels Response) e =>
      let (r, chs) := acc.2.tryRecv e.result
      match r with
      | .value resp => (acc.1 ++ [(e, .completed resp)], chs)
      | .closed => (acc.1 ++ [(e, .failed)], chs)
      | .empty => if now ≥ e.deadline then (acc.1 ++ [(e, .timedOut)], chs) else (acc.1, chs))
    ([], x.server.results)
  (found, { x with server := { x.server with results } })

/-- Publish the answer `r` to a request settled as `s`: to the request's topic, keyed by
its identifier; a failure is counted. -/
def respond (x : Exchange) (e : InFlight) (s : Settled) (r : Response) : Exchange :=
  let key := some e.id.display
  let bytes := Envelope.encode Response.toValue (Envelope.response e.id r 0)
  match x.publish e.responseTopic key bytes with
  | (.ok _, x) => x.note (.answered e s e.responseTopic key bytes true)
  | (.error _, x) =>
    (x.count fun c => { c with publishErrors := c.publishErrors + 1 }).note
      (.answered e s e.responseTopic key bytes false)

/-- Settle one request: publish its answer and free its slot. -/
def settle (x : Exchange) (e : InFlight) (s : Settled) : Exchange :=
  if !x.server.inFlight.any (·.id == e.id) then x
  else
    let x := { x with server := { x.server with inFlight := x.server.inFlight.filter (·.id != e.id) } }
    let (x, r) := match s with
      | .completed r => (x.count fun c => { c with completed := c.completed + 1 }, r)
      | .timedOut =>
        ((x.abortHandler e.task).count fun c => { c with timedOut := c.timedOut + 1 }, Response.empty)
      | .failed => (x.count fun c => { c with failed := c.failed + 1 }, Response.empty)
    let x := { x with server := { x.server with
      results := x.server.results.dropReceiver e.result } }
    (x.respond e s r).releaseSlot

/-- Settle every request that is ready; how many were settled. -/
def sweep (x : Exchange) : Nat × Exchange :=
  let (found, x) := x.collectSettled
  (found.length, found.foldl (fun x (e, s) => x.settle e s) x)

/-- The sweep stopped: drop every request in flight with its handler. -/
def abandonInFlight (x : Exchange) : Exchange :=
  let x := { x with server := { x.server with closing := true } }
  let entries := x.server.inFlight
  let x := entries.foldl (fun x e => x.abortHandler e.task) x
  let x := { x with server := { x.server with inFlight := [] } }
  (entries.foldl (fun x _ => x.releaseSlot) x).note (.cleared entries)

/-- One turn of a loop that acts on every tick until its watch `w` says stop: `act` on a
tick, `finish` when stopping. With `keep`, the wait for a stop outlives the ticks;
otherwise it is registered anew after each. -/
def periodicTick (id period : Nat) (keep : Bool) (setWatch : Exchange → Watch → Exchange)
    (act finish : Exchange → Exchange) (p : PeriodicLoop) (w : Watch) (x : Exchange) :
    Turn PeriodicLoop :=
  let owner := Waker.task id
  let ((chg, seen, reg), w) := w.poll p.seen p.stopReg owner
  let x := setWatch x w
  if chg.isSome then .stop none (finish x)
  else
    let iv := p.tick.getD (Interval.create x.core.now period)
    let (ready, iv, core) := iv.poll x.core owner
    let x := { x with core }
    if ready then
      let (x, reg) := if keep then (x, reg) else (setWatch x (w.forget reg), none)
      .next ⟨seen, some iv, reg⟩ (act x)
    else .stop (some ⟨seen, some iv, reg⟩) x

/-- One turn of a periodic loop; it ends once its watch is gone. -/
def periodicTurn (id period : Nat) (keep : Bool) (watch : Exchange → Option Watch)
    (setWatch : Exchange → Watch → Exchange) (act finish : Exchange → Exchange)
    (p : PeriodicLoop) (x : Exchange) : Turn PeriodicLoop :=
  match watch x with
  | none => .stop none x
  | some w => periodicTick id period keep setWatch act finish p w x

/-- Run a loop that acts on every tick until its watch says stop. -/
def periodicRun (id period : Nat) (keep : Bool) (watch : Exchange → Option Watch)
    (setWatch : Exchange → Watch → Exchange) (act finish : Exchange → Exchange) :
    Nat → PeriodicLoop → Exchange → Option PeriodicLoop × Exchange :=
  runTurns (periodicTurn id period keep watch setWatch act finish)

/-- The sweep task. -/
def sweepRun (id : Nat) (p : PeriodicLoop) (x : Exchange) : Option PeriodicLoop × Exchange :=
  periodicRun id x.pollInterval false (fun x => some x.stop) (fun x w => { x with stop := w })
    (fun x => (x.sweep).2) abandonInFlight 10000 p x

/-- Commit a task's consumer position. -/
def commitAs (x : Exchange) (task : Nat) (c : Consumer) : Exchange :=
  { x with hub := { x.hub with broker := c.commit x.hub.broker } }.note (.committed task c)

/-- Leave a consume loop: commit unless a record is held undispatched. -/
def leaveConsume (x : Exchange) (task : Nat) (l : ConsumeLoop) : Exchange :=
  let core := match l.commitTick with
    | some iv => iv.drop x.core
    | none => x.core
  let x := { x with core }
  if l.held then x
  else x.commitAs task l.consumer

/-- Forget a stop registration on the server's watch. -/
def forgetStop (x : Exchange) (reg : Option Nat) : Exchange := { x with stop := x.stop.forget reg }

/-- A consume loop resting after a failed fetch, until its sleep is over. -/
def consumePause (id : Nat) (l : ConsumeLoop) (s : Sleep) (x : Exchange) : Turn ConsumeLoop :=
  let polled := s.poll x.core (.task id)
  let x := { x with core := polled.2.2 }
  if polled.1 then .next { l with phase := .waiting none none } x
  else .stop (some { l with phase := .pausing polled.2.1 }) x

/-- A consume loop waiting, in this order of preference, for a stop, for its commit
tick `iv`, or for one record. -/
def consumeWait (id : Nat) (l : ConsumeLoop) (iv : Interval) (reg : Option Nat)
    (fetch : Option FetchWait) (x : Exchange) : Turn ConsumeLoop :=
  let owner := Waker.task id
  let ((chg, seen, reg), stop) := x.stop.poll l.seen reg owner
  let x := { x with stop }
  let l := { l with seen }
  if chg.isSome then .stop none (leaveConsume (x.dropFetch fetch) id l)
  else
    let (ready, iv, core) := iv.poll x.core owner
    let x := { x with core }
    let l := { l with commitTick := some iv }
    if ready then
      .next { l with phase := .waiting none none }
        (((x.dropFetch fetch).forgetStop reg).commitAs id l.consumer)
    else if fetch.isNone && (addInstant? x.core.now x.pollInterval).isNone then
      -- a new poll's deadline is past the clock's range: the loop stops where it stands,
      -- without a last commit
      .stop none (leaveConsume (x.forgetStop reg) id { l with held := true })
    else
      let (st, x) := x.fetch l.consumer 1 x.pollInterval fetch owner
      let l := { l with consumer := st.consumer }
      match st.result with
      | none => .stop (some { l with phase := .waiting reg st.wait }) x
      | some r =>
        let x := x.forgetStop reg
        match r with
        | .ok [] => .next { l with phase := .waiting none none } x
        | .ok (record :: _) =>
          .next { l with held := true, phase := .acquiring record none none } (x.note (.took id record))
        | .error .closed => .stop none (leaveConsume x id l)
        | .error _ =>
          .next { l with phase := .pausing (Sleep.ofDeadline (x.core.now + x.pollInterval)) } x

/-- A consume loop holding `record`, waiting for a slot or a stop; with a slot it
dispatches the record. -/
def consumeAcquire (id : Nat) (l : ConsumeLoop) (record : BusRecord) (reg slot : Option Nat)
    (x : Exchange) : Turn ConsumeLoop :=
  let owner := Waker.task id
  let ((chg, seen, reg), stop) := x.stop.poll l.seen reg owner
  let x := { x with stop }
  let l := { l with seen }
  if chg.isSome then
    let (slots, ws) := x.server.slots.abandon slot
    .stop none (leaveConsume ({ x with server := { x.server with slots } }.wakeAll ws) id l)
  else
    let ((ok, slot), slots) := x.server.slots.poll slot owner
    let x := { x with server := { x.server with slots } }
    if ok then
      let x := x.forgetStop reg
      if x.stop.stopRequested l.seen then .stop none (leaveConsume x.releaseSlot id l)
      else
        let (adm, x) := x.dispatch record
        let x := x.note (.dispatched id record adm)
        match adm with
        | .overflowed .. =>
          -- `dispatch` stopped the loop: it ends holding the record, without a last commit
          .stop none (leaveConsume x id { l with held := true })
        | _ => .next { l with held := false, phase := .waiting none none } x
    else .stop (some { l with phase := .acquiring record reg slot }) x

/-- One turn of a consume loop; its commit tick is made on its first turn. -/
def consumeTurn (id : Nat) (l : ConsumeLoop) (x : Exchange) : Turn ConsumeLoop :=
  match l.commitTick with
  | none =>
    .next { l with commitTick := some (Interval.create x.core.now x.server.config.commitInterval.nanos) } x
  | some iv =>
    match l.phase with
    | .pausing s => consumePause id l s x
    | .waiting reg fetch => consumeWait id l iv reg fetch x
    | .acquiring record reg slot => consumeAcquire id l record reg slot x

/-- Run a consume loop until it waits or ends. -/
def consumeRun (id : Nat) : Nat → ConsumeLoop → Exchange → Option ConsumeLoop × Exchange :=
  runTurns (consumeTurn id)

/-- A handler ends with the answer `r` on its channel `c`, waking whoever waits there. An
answer whose receiver is gone is lost: only one that reached its channel is recorded. -/
def answerOn (x : Exchange) (c : Nat) (r : Response) : Exchange :=
  let (sent, results, ws) := x.server.results.send c r
  let x := { x with server := { x.server with results } }.wakeAll ws
  if sent then x.note (.returned c r) else x

/-- What the directory answers about a device now, and the handler's end. -/
def answerLookup (x : Exchange) (h : Handler) (deviceId : Uuid) (mode : DirectoryMode) :
    Option Handler × Exchange :=
  if mode.stall then (some ⟨h.result, .stalled⟩, x)
  else if mode.crash then
    let (results, ws) := x.server.results.dropSender h.result
    (none, { x with server := { x.server with results } }.wakeAll ws)
  else
    let r := x.backend.finish deviceId (x.backend.lookupDevice deviceId)
    (none, x.answerOn h.result r.toResponse)

/-- A handler waiting for the directory: its answer once the sleep `s` is over. -/
def awaitLookup (id : Nat) (h : Handler) (deviceId : Uuid) (mode : DirectoryMode) (s : Sleep)
    (x : Exchange) : Option Handler × Exchange :=
  let polled := s.poll x.core (.task id)
  let x := { x with core := polled.2.2 }
  if polled.1 then x.answerLookup h deviceId mode
  else (some ⟨h.result, .looking deviceId mode polled.2.1⟩, x)

/-- Run a handler until it waits or ends. -/
def handlerRun (id : Nat) (h : Handler) (x : Exchange) : Option Handler × Exchange :=
  match h.phase with
  | .fresh req =>
    match x.backend.start req with
    | .done r => (none, x.answerOn h.result r.toResponse)
    | .lookupDevice deviceId =>
      let mode := x.directory
      if mode.delayMs == 0 then x.answerLookup h deviceId mode
      else
        awaitLookup id h deviceId mode (Sleep.ofDeadline (x.core.now + mode.delayMs * nanosPerMilli)) x
  | .looking deviceId mode s => awaitLookup id h deviceId mode s x
  | .stalled => (some h, x)

/-- Start the server: one consume loop per request partition, then the sweep; the
tasks started. -/
def startServer (x : Exchange) : List Nat × Exchange :=
  let topic := x.server.config.requestsTopic
  let (n, broker) := x.hub.broker.partitions topic
  let x := { x with hub := { x.hub with broker }, server := { x.server with started := true } }
  let (ids, x) := (List.range n).foldl (fun (acc : List Nat × Exchange) p =>
    let x := acc.2
    match x.hub.broker.consumer x.server.group topic p with
    | (.ok cons, broker) =>
      let x := { x with hub := { x.hub with broker } }
      let (id, x) := x.spawn (.consume ⟨cons, 0, none, false, .waiting none none⟩)
      (acc.1 ++ [id], x.note (.consuming id cons))
    | (.error _, _) => acc) ([], x)
  let (id, x) := x.spawn (.sweep ⟨0, none, none⟩)
  (ids ++ [id], x)

end Exchange

end TokenGate
