import TokenGate.Proofs.Invariance
import TokenGate.Proofs.Sweep
/-!
# `TokenGate.Proofs.Counters`: the server's counters tally its history

The server counts what it does in `ServeCounters`: every record handed to `dispatch`
(`received`) and, of those, the ones put in flight (`dispatched`) or skipped; every request
settled, by how (`completed`, `timedOut`, `failed`); and every answer whose record the
broker refused (`publishErrors`). This module shows that the counters are the tallies of
the server's history, and derives the balances between them.

* `ServeCounters.intake`, `Event.tally`, `tallyOf`: what each event adds to the counters, and
  what a history adds up to.
* `published_balance`: in every history, each settled request has one answer, whose record
  the broker took (`publishedOf`) or which is counted as a publish error.
* `Counted`: the counters are the tally of the history, every record received was put in
  flight, skipped, or ended its dispatch at a deadline past the clock's range (the
  history's `overflowsOf`), and until the sweep stops every request put in flight was
  settled or is still in flight. `dispatch` drops a record only once the sweep stopped,
  the sweep stops only once a stop was asked for, and a consume loop hands on a record
  only while no stop was asked for: so no record is ever dropped. Every move of a run
  keeps `Counted` (`counted_keeps`).
* `Reachable.balanced`: the balances for every reachable exchange;
  `received_exceeds_admissions` shows that the overflows are needed in the first.
-/

set_option autoImplicit false

namespace TokenGate

open Sched

namespace ServeCounters

/-- The requests settled, however they were settled. -/
def settled (c : ServeCounters) : Nat := c.completed + c.timedOut + c.failed

/-- The counters after `dispatch` did `a` with a record: the record is received, and put in
flight or skipped unless it was dropped or its deadline fell past the clock's range. -/
def intake (c : ServeCounters) : Admission → ServeCounters
  | .undecodable | .duplicate => { c with received := c.received + 1, skipped := c.skipped + 1 }
  | .admitted _ => { c with received := c.received + 1, dispatched := c.dispatched + 1 }
  | .dropped | .overflowed _ _ => { c with received := c.received + 1 }

section Record

variable (c : ServeCounters) (s : Settled) (sent : Bool)

@[simp] theorem record_received : (c.record s sent).received = c.received := by
  cases s <;> cases sent <;> rfl

@[simp] theorem record_dispatched : (c.record s sent).dispatched = c.dispatched := by
  cases s <;> cases sent <;> rfl

@[simp] theorem record_skipped : (c.record s sent).skipped = c.skipped := by
  cases s <;> cases sent <;> rfl

/-- Settling a request counts it once, as completed, timed out or failed. -/
@[simp] theorem record_settled : (c.record s sent).settled = c.settled + 1 := by
  cases s <;> cases sent <;> simp [record, settled] <;> omega

/-- An answer whose record the broker refused is a publish error. -/
@[simp] theorem record_publishErrors :
    (c.record s sent).publishErrors = c.publishErrors + if sent then 0 else 1 := by
  cases s <;> cases sent <;> rfl

end Record

/-- Settling one request after another keeps what `dispatch` counted, and counts each. -/
theorem foldl_record {α : Type} (qs : List ((α × Settled) × Bool)) (c : ServeCounters) :
    (qs.foldl (fun c q => c.record q.1.2 q.2) c).received = c.received ∧
      (qs.foldl (fun c q => c.record q.1.2 q.2) c).dispatched = c.dispatched ∧
      (qs.foldl (fun c q => c.record q.1.2 q.2) c).skipped = c.skipped ∧
      (qs.foldl (fun c q => c.record q.1.2 q.2) c).settled = c.settled + qs.length := by
  induction qs generalizing c with
  | nil => simp
  | cons q qs ih =>
    obtain ⟨h₁, h₂, h₃, h₄⟩ := ih (c.record q.1.2 q.2)
    rw [List.foldl_cons]
    refine ⟨?_, ?_, ?_, ?_⟩
    · rw [h₁, record_received]
    · rw [h₂, record_dispatched]
    · rw [h₃, record_skipped]
    · rw [h₄, record_settled, List.length_cons]
      omega

end ServeCounters

namespace Event

/-- What an event adds to the server's counters: a record handed to `dispatch` counts as
`dispatch` counted it, an answer as its settling and its publish counted it, and nothing
else counts. -/
def tally : Event → ServeCounters → ServeCounters
  | .dispatched _ _ a, c => c.intake a
  | .answered _ s _ _ _ ok, c => c.record s ok
  | _, c => c

/-- The entry an event answered with a record the broker took. -/
def published? : Event → Option InFlight
  | .answered e _ _ _ _ true => some e
  | _ => none

theorem Quiet.tally {e : Event} (he : e.Quiet) (c : ServeCounters) : e.tally c = c := by
  cases e <;> first | rfl | exact he.elim

theorem Quiet.published? {e : Event} (he : e.Quiet) : e.published? = none := by
  cases e <;> first | rfl | exact he.elim

/-- One event keeps the balance of the settled requests: a new answer is either taken by
the broker or counted as a publish error. -/
theorem tally_published (e : Event) {c : ServeCounters} {k : Nat}
    (hk : k + c.publishErrors = c.settled) :
    k + e.published?.toList.length + (e.tally c).publishErrors = (e.tally c).settled := by
  cases e with
  | dispatched task rec a =>
    cases a <;> simp only [tally, ServeCounters.intake, published?, Option.toList, List.length_nil,
      ServeCounters.settled] at hk ⊢ <;> omega
  | answered e s topic key value ok =>
    cases ok <;> simp only [tally, published?, Option.toList, List.length_nil,
      List.length_cons, ServeCounters.record_publishErrors, ServeCounters.record_settled] <;>
      simp <;> omega
  | _ => simpa [tally, published?] using hk

end Event

section History

variable {h evs : History} {n : Nat × Event}

/-- The counters a history adds up to. -/
def tallyOf (h : History) : ServeCounters := h.foldl (fun c n => n.2.tally c) .zero

/-- The entries answered in a history with a record the broker took, in order. -/
def publishedOf (h : History) : List InFlight := h.filterMap (·.2.published?)

@[simp] theorem tallyOf_nil : tallyOf [] = .zero := rfl

theorem tallyOf_append : tallyOf (h ++ evs) = evs.foldl (fun c n => n.2.tally c) (tallyOf h) :=
  List.foldl_append

@[simp] theorem tallyOf_append_singleton : tallyOf (h ++ [n]) = n.2.tally (tallyOf h) :=
  tallyOf_append

@[simp] theorem publishedOf_append_singleton :
    publishedOf (h ++ [n]) = publishedOf h ++ n.2.published?.toList := by
  simp only [publishedOf, List.filterMap_append, List.filterMap_cons, List.filterMap_nil]
  cases n.2.published? <;> rfl

/-- Quiet events count nothing. -/
theorem tallyOf_append_quiet (hq : ∀ n ∈ evs, n.2.Quiet) : tallyOf (h ++ evs) = tallyOf h := by
  induction evs using List.reverseRecOn with
  | nil => simp
  | append_singleton evs n ih =>
    rw [← List.append_assoc, tallyOf_append_singleton, (hq n (by simp)).tally,
      ih fun m hm => hq m (by simp [hm])]

theorem tallyOf_growsBy {h' : History} (hg : GrowsBy Event.Quiet h h') : tallyOf h' = tallyOf h := by
  obtain ⟨evs, rfl, hq⟩ := hg
  exact tallyOf_append_quiet hq

/-- Quiet events record no overflow. -/
theorem overflowsOf_growsBy {h' : History} (hg : GrowsBy Event.Quiet h h') :
    overflowsOf h' = overflowsOf h := by
  obtain ⟨evs, rfl, hq⟩ := hg
  have hnil : evs.filterMap (·.2.overflowed?) = [] :=
    List.filterMap_eq_nil_iff.2 fun n hn => Event.Quiet.overflowed? (hq n hn)
  simp only [overflowsOf, List.filterMap_append, hnil, List.append_nil]

/-- Each settled request of a history has one answer, whose record the broker took or
which is counted as a publish error. -/
theorem published_balance (h : History) :
    (publishedOf h).length + (tallyOf h).publishErrors = (tallyOf h).settled := by
  -- the balance holds of the empty history, and each event keeps it
  induction h using List.reverseRecOn with
  | nil => rfl
  | append_singleton h n ih =>
    rw [publishedOf_append_singleton, tallyOf_append_singleton, List.length_append]
    exact n.2.tally_published ih

end History

namespace Exchange

/-- The answers a sweep records count as the sweep's settling counted them. -/
theorem foldl_tally_answerEvents (now : Nat) (l : List (InFlight × Settled)) (sent : List Bool)
    (c : ServeCounters) :
    (List.zipWith (answerEvent now) l sent).foldl (fun c n => n.2.tally c) c =
      (l.zip sent).foldl (fun c q => c.record q.1.2 q.2) c := by
  induction l generalizing sent c with
  | nil => rfl
  | cons p l ih =>
    cases sent with
    | nil => rfl
    | cons b sent =>
      rw [List.zipWith_cons_cons, List.zip_cons_cons, List.foldl_cons, List.foldl_cons]
      exact ih sent _

/-- The answers a sweep records are no overflows. -/
theorem overflowsOf_append_answerEvents (h : History) (now : Nat) (l : List (InFlight × Settled))
    (sent : List Bool) : overflowsOf (h ++ List.zipWith (answerEvent now) l sent) = overflowsOf h := by
  induction l generalizing h sent with
  | nil => simp
  | cons p l ih =>
    cases sent with
    | nil => simp
    | cons b sent =>
      rw [List.zipWith_cons_cons, ← List.singleton_append, ← List.append_assoc, ih,
        overflowsOf_append_singleton]
      simp [answerEvent, Event.overflowed?]

/-- The entries a sweep finds ready and those it passes over make up the table. -/
theorem length_settledBy {chs : Channels Response} {now : Nat} (l : List InFlight) :
    (settledBy chs now l).length + (l.filter fun e => (readOf chs now e).isNone).length =
      l.length := by
  induction l with
  | nil => rfl
  | cons e l ih =>
    simp only [settledBy, List.filterMap_cons, List.filter_cons] at ih ⊢
    cases readOf chs now e <;> simp <;> omega

/-- Settling a request leaves the closing flag and the stop. -/
theorem settle_closing_stop (x : Exchange) (e : InFlight) (s : Settled) :
    (x.settle e s).server.closing = x.server.closing ∧ (x.settle e s).stop = x.stop := by
  by_cases he : e.id ∈ x.server.inFlight.map (·.id)
  · obtain ⟨sent, hub, core, -, heq⟩ := settle_eq x e s he
    rw [heq]
    exact ⟨rfl, rfl⟩
  · -- an entry no longer in flight is left alone
    have hany : x.server.inFlight.any (·.id == e.id) = false := by simpa using he
    unfold settle
    rw [if_pos (by simp [hany])]
    exact ⟨rfl, rfl⟩

theorem foldl_settle_closing_stop (l : List (InFlight × Settled)) (y : Exchange) :
    (l.foldl (fun y p => y.settle p.1 p.2) y).server.closing = y.server.closing ∧
      (l.foldl (fun y p => y.settle p.1 p.2) y).stop = y.stop := by
  induction l generalizing y with
  | nil => exact ⟨rfl, rfl⟩
  | cons p l ih =>
    obtain ⟨h₁, h₂⟩ := ih (y.settle p.1 p.2)
    obtain ⟨h₃, h₄⟩ := settle_closing_stop y p.1 p.2
    exact ⟨h₁.trans h₃, h₂.trans h₄⟩

/-- A sweep as the counters see it: some entries leave the table, and each is counted and
has its answer recorded once; the closing flag and the stop stay. -/
theorem Serving.sweep_counts {x : Exchange} (hx : x.Serving) :
    ∃ (l : List (InFlight × Settled)) (sent : List Bool), sent.length = l.length ∧
      x.sweep.2.server.inFlight.length + l.length = x.server.inFlight.length ∧
      x.sweep.2.server.counters =
        (l.zip sent).foldl (fun c q => c.record q.1.2 q.2) x.server.counters ∧
      x.sweep.2.history = x.history ++ List.zipWith (answerEvent x.core.now) l sent ∧
      x.sweep.2.server.closing = x.server.closing ∧ x.sweep.2.stop = x.stop := by
  -- the entries the sweep finds ready, as `sweep_eq` lists them
  have hfound : ∀ p ∈ settledBy x.server.results x.core.now x.server.inFlight,
      p.1.id ∈ x.server.inFlight.map (·.id) := fun p hp =>
    List.mem_map_of_mem (mem_settledBy.1 hp).1
  have hnd : ((settledBy x.server.results x.core.now x.server.inFlight).map (·.1.id)).Nodup := by
    rw [map_id_settledBy]
    exact hx.ids_nodup.sublist (List.filter_sublist.map _)
  obtain ⟨sent, hlen, hfl, hcnt, -, -, hhist⟩ :=
    settleAll_eq (settledBy x.server.results x.core.now x.server.inFlight)
      { x with server := { x.server with results := Exchange.readAll x.server.results x.server.inFlight } }
      hfound hnd
  obtain ⟨hcl, hst⟩ := foldl_settle_closing_stop (settledBy x.server.results x.core.now x.server.inFlight)
    { x with server := { x.server with results := Exchange.readAll x.server.results x.server.inFlight } }
  have hsweep : x.sweep = ((settledBy x.server.results x.core.now x.server.inFlight).length,
      (settledBy x.server.results x.core.now x.server.inFlight).foldl
        (fun y p => y.settle p.1 p.2)
        { x with server := { x.server with results := Exchange.readAll x.server.results x.server.inFlight } }) :=
    sweep_eq x hx.channels_nodup
  rw [hsweep]
  refine ⟨_, sent, hlen, ?_, hcnt, hhist, hcl, hst⟩
  rw [hfl, filter_not_mem_settledBy hx.ids_nodup, Nat.add_comm]
  exact length_settledBy x.server.inFlight

/-- The server's counters agree with its history and its table. -/
structure Counted (x : Exchange) : Prop where
  /-- The counters are the tally of the history. -/
  counters : x.server.counters = tallyOf x.history
  /-- Every record received was put in flight, skipped, or stopped its dispatch at a deadline
  past the clock's range. -/
  received : x.server.counters.received =
    x.server.counters.dispatched + x.server.counters.skipped + (overflowsOf x.history).length
  /-- Until the sweep stops, every request put in flight was settled or is still in flight. -/
  dispatched : x.server.closing = false →
    x.server.counters.dispatched = x.server.counters.settled + x.server.inFlight.length
  /-- The sweep stops only once a stop was asked for. -/
  closing : x.server.closing = true → x.stop.stopRequested 0 = true

namespace Counted

variable {x y : Exchange}

/-- A move that leaves the counters, the closing flag and the table, counts nothing in the
history, and never takes back a stop keeps the counters' agreement. -/
theorem of_frame (hx : x.Counted) (hc : y.server.counters = x.server.counters)
    (hcl : y.server.closing = x.server.closing) (hi : y.server.inFlight = x.server.inFlight)
    (hh : tallyOf y.history = tallyOf x.history) (ho : overflowsOf y.history = overflowsOf x.history)
    (hs : x.stop.stopRequested 0 = true → y.stop.stopRequested 0 = true) : y.Counted where
  counters := by rw [hc, hh, hx.counters]
  received := by rw [hc, ho]; exact hx.received
  dispatched h := by rw [hc, hi]; exact hx.dispatched (hcl ▸ h)
  closing h := hs (hx.closing (hcl ▸ h))

/-- Before a stop is asked for, the sweep has not stopped. -/
theorem not_closing (hx : x.Counted) (hs : x.stop.stopRequested 0 = false) :
    x.server.closing = false := by
  cases h : x.server.closing with
  | false => rfl
  | true => simpa [hs] using hx.closing h

theorem calm (hx : x.Counted) (h : Calm x y) : y.Counted :=
  hx.of_frame h.counters h.closing h.inFlight (tallyOf_growsBy h.history)
    (overflowsOf_growsBy h.history) h.stop

/-- A handler's run changes its channel only, and records at most its answer. -/
theorem handler (hx : x.Counted) (id : Nat) (h : Handler) :
    (storeAs id Task.handler (handlerRun id h x)).Counted := by
  rcases handlerRun_ends x id h with ⟨ph, core, hr⟩ | ⟨core, hr⟩ | ⟨core, a, hr⟩ <;> rw [hr]
  · exact hx.of_frame (by simp) (by simp) (by simp) (by simp) (by simp) (fun h => by simpa using h)
  · exact hx.of_frame (by simp) (by simp) (by simp) (by simp) (by simp) (fun h => by simpa using h)
  · -- the answer reaches its channel, or nothing is recorded
    obtain ⟨core', -, heq⟩ := answerOn_eq { x with core } h.result a
    rw [heq]
    exact hx.of_frame (by simp) (by simp) (by simp) (by split <;> simp [Event.tally])
      (by split <;> simp [Event.overflowed?]) (fun h => by simpa using h)

/-- A record `dispatch` skipped is received and skipped, with nothing put in flight. -/
theorem skipped (hx : x.Counted) (task : Nat) (rec : BusRecord) {a : Admission}
    (ha : a = .undecodable ∨ a = .duplicate) : (x.skipped.note (.dispatched task rec a)).Counted := by
  have hc : x.skipped.server.counters = x.server.counters.intake a := by
    rcases ha with rfl | rfl <;> rfl
  have hr := hx.received
  refine ⟨?_, ?_, fun h => ?_, fun h => ?_⟩
  · simp only [note_server, note_history, tallyOf_append_singleton, hc, hx.counters]
    rfl
  · rw [note_server, hc, note_history, overflowsOf_append_singleton,
      show x.skipped.history = x.history from rfl]
    rcases ha with rfl | rfl <;>
      simp only [ServeCounters.intake, Event.overflowed?, Option.toList, List.append_nil] <;> omega
  · rw [note_server, hc]
    have hd := hx.dispatched h
    rcases ha with rfl | rfl <;> exact hd
  · exact hx.closing h

/-- A request put in flight is received and dispatched, and joins the table. -/
theorem admitted (hx : x.Counted) (task : Nat) (rec : BusRecord) (env : Envelope Request) :
    ({ x with
        server := { x.server with
          inFlight := x.server.inFlight ++ [x.entryFor env]
          results := x.server.results.openChannel.2
          counters := { x.server.counters with
            received := x.server.counters.received + 1
            dispatched := x.server.counters.dispatched + 1 } }
        tasks := x.tasks ++ [(x.nextTask, .handler ⟨x.server.results.next, .fresh env.payload⟩)]
        nextTask := x.nextTask + 1
        core := x.core.wake (.task x.nextTask) } : Exchange).note
      (.dispatched task rec (.admitted (x.entryFor env))) |>.Counted := by
  have hr := hx.received
  refine ⟨?_, ?_, fun h => ?_, fun h => ?_⟩
  · simp only [note_server, note_history, tallyOf_append_singleton, ← hx.counters]
    rfl
  · simp only [note_server, note_history, overflowsOf_append_singleton, Event.overflowed?,
      Option.toList, List.append_nil]
    omega
  · have hd := hx.dispatched h
    simp only [note_server, List.length_append, List.length_singleton]
    simp only [ServeCounters.settled] at hd ⊢
    omega
  · exact hx.closing h

/-- A record whose deadline fell past the clock's range is received and recorded as an
overflow; nothing is put in flight, and its slot goes back. -/
theorem overflowed (hx : x.Counted) (task : Nat) (rec : BusRecord) (env : Envelope Request) :
    ((x.orphan env).releaseSlot.note
      (.dispatched task rec (.overflowed x.nextTask x.server.results.next))).Counted := by
  have hr := hx.received
  have hh : (x.orphan env).releaseSlot.history = x.history := rfl
  have hc : (x.orphan env).releaseSlot.server.counters =
      { x.server.counters with received := x.server.counters.received + 1 } := rfl
  refine ⟨?_, ?_, fun h => ?_, fun h => ?_⟩
  · rw [note_server, hc, note_history, hh, tallyOf_append_singleton, ← hx.counters]
    rfl
  · rw [note_server, hc, note_history, hh, overflowsOf_append_singleton]
    simp only [Event.overflowed?, Option.toList, List.length_append, List.length_singleton]
    omega
  · exact hx.dispatched h
  · exact hx.closing h

/-- A record handed to `dispatch` before the sweep stopped is put in flight or skipped,
and counted as the event recording it says. -/
theorem dispatch (hx : x.Counted) (hcl : x.server.closing = false) (task : Nat)
    (rec : BusRecord) : ((x.dispatch rec).2.note (.dispatched task rec (x.dispatch rec).1)).Counted := by
  rcases dispatch_cases x rec with
    ⟨-, hd⟩ | ⟨env, -, ⟨-, hd⟩ | ⟨-, -, hd⟩ | ⟨-, -, hc, -⟩ | ⟨-, -, -, hd⟩⟩
  · rw [hd]
    exact hx.skipped task rec (.inl rfl)
  · rw [hd]
    exact hx.skipped task rec (.inr rfl)
  · rw [hd]
    exact hx.overflowed task rec env
  · -- `dispatch` drops a record only once the sweep stopped
    rw [hcl] at hc
    cases hc
  · rw [hd]
    exact hx.admitted task rec env

/-- A sweep counts each request it settles and records its answer; the requests leave the
table as they are counted. -/
theorem sweep (hx : x.Counted) (hs : x.Serving) : x.sweep.2.Counted := by
  obtain ⟨l, sent, hlen, hfl, hcnt, hhist, hcl, hst⟩ := hs.sweep_counts
  obtain ⟨h₁, h₂, h₃, h₄⟩ := ServeCounters.foldl_record (l.zip sent) x.server.counters
  have hzip : (l.zip sent).length = l.length := by simp [List.length_zip, hlen]
  refine ⟨?_, ?_, fun h => ?_, fun h => ?_⟩
  · rw [hcnt, hhist, tallyOf_append, foldl_tally_answerEvents, hx.counters]
  · rw [hcnt, h₁, h₂, h₃, hhist, overflowsOf_append_answerEvents]
    exact hx.received
  · have hd := hx.dispatched (hcl ▸ h)
    rw [hcnt, h₂, h₄, hzip]
    omega
  · rw [hst]
    exact hx.closing (hcl ▸ h)

/-- The sweep stops only once a stop was asked for; it then marks the server closing and
empties the table, counting nothing. -/
theorem abandon (hx : x.Counted) (hs : x.stop.stopRequested 0 = true) :
    x.abandonInFlight.Counted := by
  obtain ⟨core, -, heq⟩ := abandonInFlight_eq x
  obtain ⟨core', -, heq'⟩ := foldl_releaseSlot x.server.inFlight
    { x with
      server := { x.server with closing := true, inFlight := [] }
      tasks := x.tasks.filter (fun p => p.1 ∉ x.server.inFlight.map InFlight.task)
      core }
  rw [heq, heq']
  refine ⟨?_, ?_, fun h => ?_, fun _ => hs⟩
  · simp [hx.counters, Event.tally]
  · simpa [Event.overflowed?] using hx.received
  · cases h

theorem create (config : TransportConfig) (group : String) (broker : Broker)
    (backend : Backend) : (Exchange.create config group broker backend).Counted :=
  ⟨rfl, rfl, fun _ => rfl, fun h => by cases h⟩

end Counted

/-- Every move of a run keeps the server's invariant and its counters' agreement. -/
theorem counted_keeps : Keeps fun x => x.Serving ∧ x.Counted where
  create config group _ _ backend := ⟨serving_create config group _ backend, .create config group _ backend⟩
  calm hx h := ⟨hx.1.quiet h.toQuiet, hx.2.calm h⟩
  handler hx hm := ⟨hx.1.handlerRun hm, hx.2.handler _ _⟩
  dispatch task rec hx hs := ⟨hx.1.dispatch task rec, hx.2.dispatch (hx.2.not_closing hs) task rec⟩
  sweep hx := ⟨hx.1.sweep, hx.2.sweep hx.1⟩
  abandon hx hs := ⟨hx.1.abandonInFlight, hx.2.abandon hs⟩

/-- The balances between the server's counters. -/
structure Balanced (x : Exchange) : Prop where
  /-- Every record received was put in flight, skipped, or ended its dispatch at a deadline
  past the clock's range, as the history records: none was dropped. -/
  received : x.server.counters.received =
    x.server.counters.dispatched + x.server.counters.skipped + (overflowsOf x.history).length
  /-- Before a stop is asked for, the sweep has not stopped. -/
  open_of_running : x.stop.stopRequested 0 = false → x.server.closing = false
  /-- Until the sweep stops, every request put in flight was completed, timed out, failed,
  or is still in flight. -/
  dispatched : x.server.closing = false →
    x.server.counters.dispatched = x.server.counters.completed + x.server.counters.timedOut +
      x.server.counters.failed + x.server.inFlight.length
  /-- The answers whose record the broker took are the settled requests less the publish
  errors. -/
  published : (publishedOf x.history).length = x.server.counters.completed +
    x.server.counters.timedOut + x.server.counters.failed - x.server.counters.publishErrors
  /-- Each publish error is an answer to a settled request. -/
  publishErrors_le : x.server.counters.publishErrors ≤
    x.server.counters.completed + x.server.counters.timedOut + x.server.counters.failed

/-- At every point of every run the server's counters balance: every record received was
put in flight, skipped, or ended its dispatch at a deadline past the clock's range (the
history records each such dispatch), since `dispatch` never runs once the sweep has
stopped; before a stop is asked for, and until the sweep stops, every request put in
flight was completed, timed out, failed or is still in flight; and the answers the
template published number the settled requests less the publish errors. -/
theorem Reachable.balanced {x : Exchange} (hx : x.Reachable) : x.Balanced := by
  obtain ⟨-, hc⟩ := hx.keeps counted_keeps
  -- the answers published and the publish errors add up to the settled requests
  have hp := published_balance x.history
  rw [← hc.counters] at hp
  simp only [ServeCounters.settled] at hp
  exact ⟨hc.received, hc.not_closing, hc.dispatched, by omega, by omega⟩

/-- A server that has answered a request has balanced counters, the request counted as
completed. -/
theorem balanced_after_answer :
    ∃ x : Exchange, x.Reachable ∧ x.Balanced ∧ x.server.counters.completed = 1 := by
  -- the consume loop (task 0) dispatches the request, its handler (task 2) answers, and
  -- the sweep (task 1) publishes the answer
  have hx := ((((((Reachable.create ⟨"requests", "responses", 4, .ofMillis 10000, .ofMillis 10,
      .ofMillis 50⟩ "group" 1 100 (Backend.ofRegistry Registry.empty)).step (.startServer _)).step
    (.send _ "requests" none (Envelope.encode Request.toValue
      (Envelope.request ⟨0, 1⟩ (.validateDeviceToken "a") "replies" 0)))).step (.poll _ 0)).step
    (.poll _ 2)).step (.poll _ 1))
  exact ⟨_, hx, Reachable.balanced hx, by decide +kernel⟩

/-- Without the overflows the first balance fails: with a request timeout of three hundred
billion years, past the clock's range from its start, the first request a consume loop
hands on is received, and neither put in flight nor skipped. -/
theorem received_exceeds_admissions : ∃ x : Exchange, x.Reachable ∧
    x.server.counters.dispatched + x.server.counters.skipped < x.server.counters.received := by
  have hx := ((((Reachable.create ⟨"requests", "responses", 4,
      .ofMillis (300000000000 * 31557600 * 1000), .ofMillis 10, .ofMillis 50⟩ "group" 1 100
      (Backend.ofRegistry Registry.empty)).step (.startServer _)).step
    (.send _ "requests" none (Envelope.encode Request.toValue
      (Envelope.request ⟨0, 1⟩ (.validateDeviceToken "a") "replies" 0)))).step (.poll _ 0))
  exact ⟨_, hx, by decide +kernel⟩

end Exchange

end TokenGate
