import TokenGate.Proofs.Answers
/-!
# `TokenGate.Proofs.Sweep`: what one sweep settles

The sweep looks once at the channel of every request in flight, at the time `now` of its
clock (`readOf`): a value waiting is the handler's answer, a closed channel is a handler
that ended without one, and an empty channel is a request still waiting, settled as timed
out once its deadline has come. `settledBy` lists what it finds ready, in the order of
the table; the sweep then settles those one after the other (`Exchange.settle`).

* `settleAll_eq`: settling entries in flight with pairwise different identifiers removes
  them from the table, counts each by its outcome, records one answer each at the time
  the settling started, and stops the handlers of those that timed out.
* `filter_not_mem_settledBy`: with pairwise different identifiers in the table, what
  stays is exactly what the sweep passes over: an entry whose channel is empty and whose
  deadline is still ahead (`readOf_eq_none_iff`).
* `Serving.answered_once`: once an entry is answered, no later answer is recorded on its
  channel, so its handler's late result is never published.
* `Serving.settling`: `Exchange.Settling` holds of every exchange that keeps the server's
  invariant, so of every reachable one (`Reachable.serving`) and of every state the sweep
  task sweeps (`Serving.sweepRun`): a request dispatched at `t0` is due at
  `t0 + requestTimeout`, and a sweep settles exactly what it finds ready, as above.
-/

set_option autoImplicit false

namespace TokenGate

open Sched

namespace Exchange

/-- The record of the answer to an entry settled as `p.2` at time `now`, published or not
(`sent`). -/
def answerEvent (now : Nat) (p : InFlight × Settled) (sent : Bool) : Nat × Event :=
  (now, .answered p.1 p.2 p.1.responseTopic (some p.1.id.display)
    (Envelope.encode Response.toValue (Envelope.response p.1.id p.2.response 0)) sent)

/-- Settling entries in flight with pairwise different identifiers, one after the other:
each leaves the table, is counted, has its answer recorded at the time the settling
started, and has its handler stopped if it timed out. -/
theorem settleAll_eq (l : List (InFlight × Settled)) (y : Exchange)
    (hin : ∀ p ∈ l, p.1.id ∈ y.server.inFlight.map (·.id)) (hnd : (l.map (·.1.id)).Nodup) :
    ∃ sent : List Bool, sent.length = l.length ∧
      (l.foldl (fun y p => y.settle p.1 p.2) y).server.inFlight =
        y.server.inFlight.filter (fun e => e.id ∉ l.map (·.1.id)) ∧
      (l.foldl (fun y p => y.settle p.1 p.2) y).server.counters =
        (l.zip sent).foldl (fun c q => c.record q.1.2 q.2) y.server.counters ∧
      (l.foldl (fun y p => y.settle p.1 p.2) y).tasks =
        y.tasks.filter (fun t => t.1 ∉ (l.filter (·.2.aborts)).map (·.1.task)) ∧
      (l.foldl (fun y p => y.settle p.1 p.2) y).core.now = y.core.now ∧
      (l.foldl (fun y p => y.settle p.1 p.2) y).history =
        y.history ++ List.zipWith (answerEvent y.core.now) l sent := by
  induction l generalizing y with
  | nil => exact ⟨[], rfl, by simp, rfl, by simp, rfl, by simp⟩
  | cons p l ih =>
    obtain ⟨e, s⟩ := p
    simp only [List.map_cons, List.nodup_cons, List.mem_map] at hnd
    obtain ⟨sent, hub, core, hcore, heq⟩ := settle_eq y e s (hin (e, s) (by simp))
    -- the later entries are still in flight once this one is settled
    have hin' : ∀ p ∈ l, p.1.id ∈ (y.settle e s).server.inFlight.map (·.id) := by
      intro p hp
      obtain ⟨e', he', hid⟩ := List.mem_map.1 (hin p (List.mem_cons_of_mem _ hp))
      have hne : p.1.id ≠ e.id := fun h => hnd.1 ⟨p, hp, h⟩
      rw [heq]
      exact List.mem_map.2 ⟨e', List.mem_filter.2 ⟨he', by simpa [hid] using hne⟩, hid⟩
    obtain ⟨sents, hlen, hfl, hcnt, htasks, hnow, hhist⟩ := ih (y.settle e s) hin' hnd.2
    have hnow₁ : (y.settle e s).core.now = y.core.now := by
      rw [heq]
      exact (Core.queueGrows_wakeAll _ _).now.trans hcore.now
    refine ⟨sent :: sents, by simp [hlen], ?_, ?_, ?_, ?_, ?_⟩
    · rw [List.foldl_cons, hfl, heq]
      simp only [List.filter_filter, List.map_cons, List.mem_cons, not_or]
      congr 1
      funext e'
      by_cases h : e'.id = e.id <;> simp [h]
    · rw [List.foldl_cons, hcnt, heq]
      rfl
    · rw [List.foldl_cons, htasks, heq]
      dsimp only
      cases hab : s.aborts
      · rw [List.filter_cons_of_neg (by simpa using hab)]
        simp
      · simp only [List.filter_cons, hab, ite_true, List.map_cons, List.filter_filter,
          List.mem_cons, not_or]
        congr 1
        funext t
        by_cases h : t.1 = e.task <;> simp [h]
    · rw [List.foldl_cons, hnow, hnow₁]
    · rw [List.foldl_cons, hhist, hnow₁, heq]
      simp [answerEvent]

/-- The entries a sweep at time `now` finds ready on the channels `chs`, in the order of
the table, each with how it is settled. -/
def settledBy (chs : Channels Response) (now : Nat) (l : List InFlight) :
    List (InFlight × Settled) :=
  l.filterMap fun e => (readOf chs now e).map (e, ·)

section SettledBy

variable {chs : Channels Response} {now : Nat}

theorem mem_settledBy {l : List InFlight} {e : InFlight} {s : Settled} :
    (e, s) ∈ settledBy chs now l ↔ e ∈ l ∧ readOf chs now e = some s := by
  simp [settledBy]

/-- The entries found ready are those of the table the sweep does not pass over. -/
theorem map_fst_settledBy (l : List InFlight) :
    (settledBy chs now l).map (·.1) = l.filter fun e => (readOf chs now e).isSome := by
  induction l with
  | nil => rfl
  | cons e l ih =>
    simp only [settledBy, List.filterMap_cons] at ih ⊢
    cases h : readOf chs now e <;> simp [h, ih]

/-- The sweep passes over an entry exactly when nothing is waiting on its channel, its
handler still holds the sender, and its deadline is still ahead. -/
theorem readOf_eq_none_iff {e : InFlight} :
    readOf chs now e = none ↔ (chs.tryRecv e.result).1 = .empty ∧ now < e.deadline := by
  unfold readOf
  -- a value or a closed channel settles the entry; an empty one waits for the deadline
  split <;> simp_all

/-- An entry is settled as timed out only once its deadline has come. -/
theorem deadline_le_of_readOf {e : InFlight} (h : readOf chs now e = some .timedOut) :
    e.deadline ≤ now := by
  unfold readOf at h
  split at h
  · cases h
  · cases h
  · split at h
    · assumption
    · cases h

theorem map_id_settledBy (l : List InFlight) :
    (settledBy chs now l).map (·.1.id) =
      (l.filter fun e => (readOf chs now e).isSome).map (·.id) := by
  rw [← map_fst_settledBy, List.map_map]
  rfl

/-- With pairwise different identifiers in the table, leaving out the identifiers of the
entries found ready leaves exactly the entries the sweep passes over. -/
theorem filter_not_mem_settledBy {l : List InFlight} (hnd : (l.map (·.id)).Nodup) :
    l.filter (fun e => e.id ∉ (settledBy chs now l).map (·.1.id)) =
      l.filter (fun e => (readOf chs now e).isNone) := by
  refine List.filter_congr fun e he => ?_
  have hfound : e.id ∈ (settledBy chs now l).map (·.1.id) ↔ (readOf chs now e).isSome := by
    rw [map_id_settledBy]
    constructor
    · intro h
      obtain ⟨e', he', hid⟩ := List.mem_map.1 h
      rw [List.mem_filter] at he'
      rw [List.inj_on_of_nodup_map hnd he he'.1 hid.symm]
      exact he'.2
    · intro h
      exact List.mem_map.2 ⟨e, List.mem_filter.2 ⟨he, h⟩, rfl⟩
  simp only [hfound, decide_not]
  cases readOf chs now e <;> rfl

end SettledBy

/-- Once an entry is answered, no later answer is recorded on its channel. -/
theorem Serving.answered_once {y : Exchange} (hy : y.Serving) {p q : History} {t : Nat}
    {e : InFlight} {s : Settled} {topic : String} {key : Option String} {value : List UInt8}
    {sent : Bool} (h : y.history = p ++ (t, .answered e s topic key value sent) :: q) :
    ∀ e' ∈ answeredOf q, e'.result ≠ e.result := by
  have hnd := hy.settles.answers
  rw [h, answeredOf, List.filterMap_append, List.filterMap_cons] at hnd
  simp only [Event.answered?, List.map_append, List.map_cons, List.nodup_append, List.nodup_cons,
    List.mem_map] at hnd
  intro e' he' hre
  exact hnd.2.1.1 ⟨e', he', hre⟩

/-- What the server does with the deadlines of its requests, in the exchange `x`: a request
`dispatch` admits now is due `requestTimeout` later, and a sweep now settles exactly the
entries it finds ready (`found`). -/
structure Settling (x : Exchange) : Prop where
  /-- A request admitted now is due `requestTimeout` from now. -/
  due : ∀ rec e, (x.dispatch rec).1 = .admitted e →
    e.dispatchedAt = x.core.now ∧ e.deadline = x.core.now + x.server.config.requestTimeout.nanos
  /-- The sweep returns how many entries it settled. -/
  count : x.sweep.1 = (settledBy x.server.results x.core.now x.server.inFlight).length
  /-- Its clock stays. -/
  now : x.sweep.2.core.now = x.core.now
  /-- Exactly the entries found ready leave the table; the others stay, as they were. -/
  inFlight : x.sweep.2.server.inFlight =
    x.server.inFlight.filter (fun e => (readOf x.server.results x.core.now e).isNone)
  /-- The handlers of the entries that timed out are stopped, and no other task. -/
  tasks : x.sweep.2.tasks = x.tasks.filter (fun t => t.1 ∉
    ((settledBy x.server.results x.core.now x.server.inFlight).filter (·.2.aborts)).map
      (·.1.task))
  /-- One answer is recorded for each entry found ready, in the order of the table and at
  `now`: what its handler returned if it completed, the empty answer otherwise; each is
  counted by its outcome, and a publish that failed is counted too. -/
  answers : ∃ sent : List Bool,
    sent.length = (settledBy x.server.results x.core.now x.server.inFlight).length ∧
    x.sweep.2.history = x.history ++
      List.zipWith (answerEvent x.core.now) (settledBy x.server.results x.core.now x.server.inFlight) sent ∧
    x.sweep.2.server.counters =
      ((settledBy x.server.results x.core.now x.server.inFlight).zip sent).foldl
        (fun c q => c.record q.1.2 q.2) x.server.counters
  /-- After the sweep no entry in flight is due at or before `now`. -/
  ahead : ∀ e ∈ x.sweep.2.server.inFlight, x.core.now < e.deadline
  /-- An entry is answered as timed out only once its deadline has come. -/
  timedOut_due : ∀ e, (e, Settled.timedOut) ∈ settledBy x.server.results x.core.now x.server.inFlight →
    e.deadline ≤ x.core.now
  /-- Once an entry is answered, no later answer is recorded on its channel. -/
  answered_once : ∀ p t e s topic key value sent q,
    x.sweep.2.history = p ++ (t, .answered e s topic key value sent) :: q →
    ∀ e' ∈ answeredOf q, e'.result ≠ e.result

/-- A request `dispatch` admits carries the time it was admitted and is due
`requestTimeout` later. -/
theorem dispatch_due (x : Exchange) (rec : BusRecord) {e : InFlight}
    (h : (x.dispatch rec).1 = .admitted e) :
    e.dispatchedAt = x.core.now ∧ e.deadline = x.core.now + x.server.config.requestTimeout.nanos := by
  rcases dispatch_cases x rec with
    ⟨-, hd⟩ | ⟨env, -, ⟨-, hd⟩ | ⟨-, -, hd⟩ | ⟨-, -, -, hd⟩ | ⟨-, -, -, hd⟩⟩
  · rw [hd] at h
    cases h
  · rw [hd] at h
    cases h
  · rw [hd] at h
    cases h
  · rw [hd] at h
    cases h
  · rw [hd] at h
    cases h
    exact ⟨rfl, rfl⟩

/-- Every exchange that keeps the server's invariant settles its requests as `Settling`
says: a request is due `requestTimeout` after its admission, and a sweep at `now` settles
exactly the entries in flight whose channel holds their handler's answer (completed, with
that answer), whose handler ended without one (failed), or whose deadline has come with
nothing waiting (timed out, their handler stopped); every other entry stays in flight as
it was. The sweep returns how many it settled and records one answer for each, at `now`,
so a timed-out answer never comes before the deadline, no entry left in flight is due,
and once an entry is answered its handler's late result is never published. -/
theorem Serving.settling {x : Exchange} (hx : x.Serving) : x.Settling := by
  -- the entries the sweep finds ready, as `sweep_eq` lists them
  have hfound : ∀ p ∈ settledBy x.server.results x.core.now x.server.inFlight,
      p.1.id ∈ x.server.inFlight.map (·.id) := fun p hp =>
    List.mem_map_of_mem (mem_settledBy.1 hp).1
  have hnd : ((settledBy x.server.results x.core.now x.server.inFlight).map (·.1.id)).Nodup := by
    rw [map_id_settledBy]
    exact hx.ids_nodup.sublist (List.filter_sublist.map _)
  obtain ⟨sent, hlen, hfl, hcnt, htasks, hnow, hhist⟩ :=
    settleAll_eq (settledBy x.server.results x.core.now x.server.inFlight)
      { x with server := { x.server with results := Exchange.readAll x.server.results x.server.inFlight } }
      hfound hnd
  have hsweep : x.sweep = ((settledBy x.server.results x.core.now x.server.inFlight).length,
      (settledBy x.server.results x.core.now x.server.inFlight).foldl
        (fun y p => y.settle p.1 p.2)
        { x with server := { x.server with results := Exchange.readAll x.server.results x.server.inFlight } }) :=
    sweep_eq x hx.channels_nodup
  -- the table after the sweep: the entries passed over
  have hleft : x.sweep.2.server.inFlight =
      x.server.inFlight.filter (fun e => (readOf x.server.results x.core.now e).isNone) := by
    rw [hsweep, hfl]
    exact filter_not_mem_settledBy hx.ids_nodup
  refine ⟨fun rec e h => dispatch_due x rec h, by rw [hsweep], by rw [hsweep]; exact hnow, hleft,
    by rw [hsweep]; exact htasks, ⟨sent, hlen, by rw [hsweep]; exact hhist, by rw [hsweep]; exact hcnt⟩,
    ?_, fun e he => deadline_le_of_readOf (mem_settledBy.1 he).2, ?_⟩
  · -- an entry passed over has its deadline still ahead
    intro e he
    rw [hleft, List.mem_filter, Option.isNone_iff_eq_none] at he
    exact (readOf_eq_none_iff.1 he.2).2
  · intro p t e s topic key value sent q h
    exact hx.sweep.answered_once h

/-- A server whose handler has answered a request in flight settles as `Settling` says, a
sweep there settling that one request. -/
theorem settling_with_answer : ∃ x : Exchange, x.Serving ∧ x.Settling ∧ x.sweep.1 = 1 := by
  -- the consume loop (task 0) dispatches the request and its handler (task 2) answers
  have hx := (((((Reachable.create ⟨"requests", "responses", 4, .ofMillis 10000, .ofMillis 10,
      .ofMillis 50⟩ "group" 1 100 (Backend.ofRegistry Registry.empty)).step (.startServer _)).step
    (.send _ "requests" none (Envelope.encode Request.toValue
      (Envelope.request ⟨0, 1⟩ (.validateDeviceToken "a") "replies" 0)))).step (.poll _ 0)).step
    (.poll _ 2)).serving
  exact ⟨_, hx, Serving.settling hx, by decide +kernel⟩

end Exchange

end TokenGate
