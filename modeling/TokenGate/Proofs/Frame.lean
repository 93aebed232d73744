import TokenGate.Exchange.Node
/-!
# `TokenGate.Proofs.Frame`: what each operation of an exchange changes

The statements about the server look at three parts of an exchange: the server's own state,
the tasks, and the history of events. Most operations touch none of them, or only one
field. This module says so once per operation, so that the proofs about runs never
unfold an operation again:

* for the small operations (`note`, `spawn`, `releaseSlot`, `publish`, ...), `@[simp]`
  equations for `server`, `tasks` and `history`;
* for the turns of the consume loops, the listeners and the periodic loops, and for the
  caller's steps, a frame statement: the server and the tasks are as they were, and the
  history grew by events of a stated kind only.
-/

set_option autoImplicit false

namespace TokenGate

open Sched

/-- A history grew by events that satisfy `P` only. -/
def GrowsBy (P : Event → Prop) (h h' : List (Nat × Event)) : Prop :=
  ∃ evs, h' = h ++ evs ∧ ∀ n ∈ evs, P n.2

section GrowsBy

variable {P Q : Event → Prop} {h h' h'' : List (Nat × Event)}

theorem GrowsBy.refl (P : Event → Prop) (h : List (Nat × Event)) : GrowsBy P h h :=
  ⟨[], by simp, by simp⟩

theorem GrowsBy.trans (h₁ : GrowsBy P h h') (h₂ : GrowsBy P h' h'') : GrowsBy P h h'' := by
  obtain ⟨evs, rfl, hevs⟩ := h₁
  obtain ⟨evs', rfl, hevs'⟩ := h₂
  refine ⟨evs ++ evs', by simp, ?_⟩
  intro n hn
  rcases List.mem_append.1 hn with hn | hn
  · exact hevs n hn
  · exact hevs' n hn

theorem GrowsBy.mono (hPQ : ∀ e, P e → Q e) (hg : GrowsBy P h h') : GrowsBy Q h h' := by
  obtain ⟨evs, rfl, hevs⟩ := hg
  exact ⟨evs, rfl, fun n hn => hPQ _ (hevs n hn)⟩

theorem GrowsBy.of_eq (hh : h' = h) : GrowsBy P h h' := hh ▸ GrowsBy.refl P h

theorem GrowsBy.snoc (hg : GrowsBy P h h') (t : Nat) {e : Event} (he : P e) :
    GrowsBy P h (h' ++ [(t, e)]) :=
  hg.trans ⟨[(t, e)], rfl, by simpa using he⟩

end GrowsBy

@[simp] theorem growsBy_self (P : Event → Prop) (h : List (Nat × Event)) : GrowsBy P h h :=
  GrowsBy.refl P h

@[simp] theorem growsBy_append_iff {P : Event → Prop} {h evs : List (Nat × Event)} :
    GrowsBy P h (h ++ evs) ↔ ∀ n ∈ evs, P n.2 := by
  constructor
  · rintro ⟨evs', heq, hevs⟩
    rw [List.append_cancel_left heq]
    exact hevs
  · intro hevs
    exact ⟨evs, rfl, hevs⟩

/-- What a consume loop's wait records: records it took and positions it committed. -/
def Event.OfWait (id : Nat) : Event → Prop
  | .took task _ => task = id
  | .committed task _ => task = id
  | _ => False

@[simp] theorem Event.ofWait_took (id task : Nat) (r : BusRecord) :
    (Event.took task r).OfWait id ↔ task = id := Iff.rfl
@[simp] theorem Event.ofWait_committed (id task : Nat) (c : Consumer) :
    (Event.committed task c).OfWait id ↔ task = id := Iff.rfl

namespace Exchange

variable (x : Exchange)

section Primitive

@[simp] theorem note_server (e : Event) : (x.note e).server = x.server := rfl
@[simp] theorem note_tasks (e : Event) : (x.note e).tasks = x.tasks := rfl
@[simp] theorem note_history (e : Event) : (x.note e).history = x.history ++ [(x.core.now, e)] := rfl
@[simp] theorem note_core (e : Event) : (x.note e).core = x.core := rfl
@[simp] theorem note_stop (e : Event) : (x.note e).stop = x.stop := rfl

@[simp] theorem wakeAll_server (ws : List Waker) : (x.wakeAll ws).server = x.server := rfl
@[simp] theorem wakeAll_tasks (ws : List Waker) : (x.wakeAll ws).tasks = x.tasks := rfl
@[simp] theorem wakeAll_history (ws : List Waker) : (x.wakeAll ws).history = x.history := rfl
@[simp] theorem wakeAll_stop (ws : List Waker) : (x.wakeAll ws).stop = x.stop := rfl

@[simp] theorem spawn_fst (t : Task) : (x.spawn t).1 = x.nextTask := rfl
@[simp] theorem spawn_server (t : Task) : (x.spawn t).2.server = x.server := rfl
@[simp] theorem spawn_tasks (t : Task) : (x.spawn t).2.tasks = x.tasks ++ [(x.nextTask, t)] := rfl
@[simp] theorem spawn_history (t : Task) : (x.spawn t).2.history = x.history := rfl
@[simp] theorem spawn_stop (t : Task) : (x.spawn t).2.stop = x.stop := rfl

@[simp] theorem setTask_server (id : Nat) (t : Task) : (x.setTask id t).server = x.server := rfl
@[simp] theorem setTask_history (id : Nat) (t : Task) : (x.setTask id t).history = x.history := rfl
@[simp] theorem setTask_stop (id : Nat) (t : Task) : (x.setTask id t).stop = x.stop := rfl

/-- Ending a task removes it and at most wakes the caller. -/
theorem endTask_eq (id : Nat) :
    ∃ core, x.endTask id = { x with tasks := x.tasks.filter (·.1 != id), core } := by
  unfold endTask
  dsimp only
  split
  · split
    · exact ⟨_, rfl⟩
    · exact ⟨_, rfl⟩
  · exact ⟨_, rfl⟩

@[simp] theorem endTask_server (id : Nat) : (x.endTask id).server = x.server := by
  obtain ⟨core, h⟩ := x.endTask_eq id
  rw [h]

@[simp] theorem endTask_history (id : Nat) : (x.endTask id).history = x.history := by
  obtain ⟨core, h⟩ := x.endTask_eq id
  rw [h]

@[simp] theorem endTask_tasks (id : Nat) : (x.endTask id).tasks = x.tasks.filter (·.1 != id) := by
  obtain ⟨core, h⟩ := x.endTask_eq id
  rw [h]

@[simp] theorem endTask_stop (id : Nat) : (x.endTask id).stop = x.stop := by
  obtain ⟨core, h⟩ := x.endTask_eq id
  rw [h]

@[simp] theorem count_server (f : ServeCounters → ServeCounters) :
    (x.count f).server = { x.server with counters := f x.server.counters } := rfl
@[simp] theorem count_tasks (f : ServeCounters → ServeCounters) : (x.count f).tasks = x.tasks := rfl
@[simp] theorem count_history (f : ServeCounters → ServeCounters) :
    (x.count f).history = x.history := rfl
@[simp] theorem count_stop (f : ServeCounters → ServeCounters) : (x.count f).stop = x.stop := rfl

@[simp] theorem releaseSlot_server :
    x.releaseSlot.server = { x.server with slots := x.server.slots.release.1 } := rfl
@[simp] theorem releaseSlot_tasks : x.releaseSlot.tasks = x.tasks := rfl
@[simp] theorem releaseSlot_history : x.releaseSlot.history = x.history := rfl
@[simp] theorem releaseSlot_stop : x.releaseSlot.stop = x.stop := rfl

@[simp] theorem publish_server (t : String) (k : Option String) (v : List UInt8) :
    (x.publish t k v).2.server = x.server := rfl
@[simp] theorem publish_tasks (t : String) (k : Option String) (v : List UInt8) :
    (x.publish t k v).2.tasks = x.tasks := rfl
@[simp] theorem publish_history (t : String) (k : Option String) (v : List UInt8) :
    (x.publish t k v).2.history = x.history := rfl
@[simp] theorem publish_stop (t : String) (k : Option String) (v : List UInt8) :
    (x.publish t k v).2.stop = x.stop := rfl

@[simp] theorem closeBroker_server : x.closeBroker.server = x.server := rfl
@[simp] theorem closeBroker_tasks : x.closeBroker.tasks = x.tasks := rfl
@[simp] theorem closeBroker_history : x.closeBroker.history = x.history := rfl
@[simp] theorem closeBroker_stop : x.closeBroker.stop = x.stop := rfl

@[simp] theorem dropFetch_server (w : Option FetchWait) : (x.dropFetch w).server = x.server := rfl
@[simp] theorem dropFetch_tasks (w : Option FetchWait) : (x.dropFetch w).tasks = x.tasks := rfl
@[simp] theorem dropFetch_history (w : Option FetchWait) : (x.dropFetch w).history = x.history :=
  rfl
@[simp] theorem dropFetch_stop (w : Option FetchWait) : (x.dropFetch w).stop = x.stop := rfl

@[simp] theorem fetch_server (c : Consumer) (max timeout : Nat) (w : Option FetchWait)
    (owner : Waker) : (x.fetch c max timeout w owner).2.server = x.server := rfl
@[simp] theorem fetch_tasks (c : Consumer) (max timeout : Nat) (w : Option FetchWait)
    (owner : Waker) : (x.fetch c max timeout w owner).2.tasks = x.tasks := rfl
@[simp] theorem fetch_history (c : Consumer) (max timeout : Nat) (w : Option FetchWait)
    (owner : Waker) : (x.fetch c max timeout w owner).2.history = x.history := rfl
@[simp] theorem fetch_stop (c : Consumer) (max timeout : Nat) (w : Option FetchWait)
    (owner : Waker) : (x.fetch c max timeout w owner).2.stop = x.stop := rfl

@[simp] theorem abortHandler_server (id : Nat) : (x.abortHandler id).server = x.server := by
  simp [abortHandler]
@[simp] theorem abortHandler_tasks (id : Nat) :
    (x.abortHandler id).tasks = x.tasks.filter (·.1 != id) := by
  simp [abortHandler]
@[simp] theorem abortHandler_history (id : Nat) : (x.abortHandler id).history = x.history := by
  simp [abortHandler]
@[simp] theorem abortHandler_stop (id : Nat) : (x.abortHandler id).stop = x.stop := by
  simp [abortHandler]

@[simp] theorem forgetStop_server (reg : Option Nat) : (x.forgetStop reg).server = x.server := rfl
@[simp] theorem forgetStop_tasks (reg : Option Nat) : (x.forgetStop reg).tasks = x.tasks := rfl
@[simp] theorem forgetStop_history (reg : Option Nat) : (x.forgetStop reg).history = x.history :=
  rfl
@[simp] theorem forgetStop_stop (reg : Option Nat) : (x.forgetStop reg).stop = x.stop.forget reg :=
  rfl

@[simp] theorem commitAs_server (id : Nat) (c : Consumer) : (x.commitAs id c).server = x.server :=
  rfl
@[simp] theorem commitAs_tasks (id : Nat) (c : Consumer) : (x.commitAs id c).tasks = x.tasks := rfl
@[simp] theorem commitAs_history (id : Nat) (c : Consumer) :
    (x.commitAs id c).history = x.history ++ [(x.core.now, .committed id c)] := rfl
@[simp] theorem commitAs_stop (id : Nat) (c : Consumer) : (x.commitAs id c).stop = x.stop := rfl

end Primitive

/-- The state a turn leads to. -/
def Turn.exchange {α : Type} : Turn α → Exchange
  | .next _ x => x
  | .stop _ x => x

@[simp] theorem Turn.exchange_next {α : Type} (a : α) : (Turn.next a x).exchange = x := rfl
@[simp] theorem Turn.exchange_stop {α : Type} (a : Option α) : (Turn.stop a x).exchange = x := rfl

@[simp] theorem Core.cancel?_now (c : Core) (t : Option Nat) : (c.cancel? t).now = c.now := by
  cases t <;> rfl

@[simp] theorem leaveConsume_server (id : Nat) (l : ConsumeLoop) :
    (leaveConsume x id l).server = x.server := by
  unfold leaveConsume
  dsimp only
  split <;> rfl

@[simp] theorem leaveConsume_tasks (id : Nat) (l : ConsumeLoop) :
    (leaveConsume x id l).tasks = x.tasks := by
  unfold leaveConsume
  dsimp only
  split <;> rfl

@[simp] theorem leaveConsume_stop (id : Nat) (l : ConsumeLoop) :
    (leaveConsume x id l).stop = x.stop := by
  unfold leaveConsume
  dsimp only
  split <;> rfl

/-- Leaving a consume loop commits its position, unless it holds a record. -/
@[simp] theorem leaveConsume_history (id : Nat) (l : ConsumeLoop) :
    (leaveConsume x id l).history =
      x.history ++ if l.held then [] else [(x.core.now, .committed id l.consumer)] := by
  unfold leaveConsume
  dsimp only
  split
  · simp [*]
  · cases l.commitTick <;> simp [*, Interval.drop]

/-- A consume loop's wait touches neither the server nor the tasks; it records only what
it took and what it committed. -/
theorem consumeWait_frame (id : Nat) (l : ConsumeLoop) (iv : Interval)
    (reg : Option Nat) (fw : Option FetchWait) :
    (consumeWait id l iv reg fw x).exchange.server = x.server ∧
      (consumeWait id l iv reg fw x).exchange.tasks = x.tasks ∧
      GrowsBy (Event.OfWait id) x.history (consumeWait id l iv reg fw x).exchange.history := by
  -- Each tuple is split with its equation: simplifying the matches instead would make the
  -- kernel evaluate the clock's deadline tests on open terms.
  rw [consumeWait]
  split
  next _ chg seen reg' w hpoll =>
  extract_lets y₁ l₁
  split
  · simp +zetaDelta
  · split
    next _ ready iv' core hiv =>
    extract_lets y₂ l₂
    split
    · simp +zetaDelta
    split
    · -- a poll past the clock's range: the loop stops without a commit
      simp +zetaDelta
    · split
      next _ st y₃ hfetch =>
      obtain rfl : (y₂.fetch l₂.consumer 1 y₂.pollInterval fw (.task id)).2 = y₃ :=
        congrArg Prod.snd hfetch
      extract_lets l₃
      split
      · simp +zetaDelta
      · split <;> simp +zetaDelta

/-- What a listener records: answers it handed on and positions it committed. -/
def Event.OfListen (id : Nat) : Event → Prop
  | .delivered .. => True
  | .committed task _ => task = id
  | _ => False

/-- What the caller's waits and sends record. -/
def Event.OfCaller : Event → Prop
  | .requested _ => True
  | .concluded .. => True
  | _ => False

section Client

@[simp] theorem withWaiters_server (f : PendingStore Response → PendingStore Response × List Waker) :
    (x.withWaiters f).server = x.server := by
  unfold withWaiters
  split <;> rfl
@[simp] theorem withWaiters_tasks (f : PendingStore Response → PendingStore Response × List Waker) :
    (x.withWaiters f).tasks = x.tasks := by
  unfold withWaiters
  split <;> rfl
@[simp] theorem withWaiters_history (f : PendingStore Response → PendingStore Response × List Waker) :
    (x.withWaiters f).history = x.history := by
  unfold withWaiters
  split <;> rfl
@[simp] theorem withWaiters_stop (f : PendingStore Response → PendingStore Response × List Waker) :
    (x.withWaiters f).stop = x.stop := by
  unfold withWaiters
  split <;> rfl

@[simp] theorem withClient_server (f : Client → Client) : (x.withClient f).server = x.server := rfl
@[simp] theorem withClient_tasks (f : Client → Client) : (x.withClient f).tasks = x.tasks := rfl
@[simp] theorem withClient_history (f : Client → Client) : (x.withClient f).history = x.history :=
  rfl
@[simp] theorem withClient_stop (f : Client → Client) : (x.withClient f).stop = x.stop := rfl

@[simp] theorem setClientStop_server (w : Watch) : (x.setClientStop w).server = x.server := rfl
@[simp] theorem setClientStop_tasks (w : Watch) : (x.setClientStop w).tasks = x.tasks := rfl
@[simp] theorem setClientStop_history (w : Watch) : (x.setClientStop w).history = x.history := rfl
@[simp] theorem setClientStop_stop (w : Watch) : (x.setClientStop w).stop = x.stop := rfl

@[simp] theorem forgetClientStop_server (reg : Option Nat) :
    (x.forgetClientStop reg).server = x.server := rfl
@[simp] theorem forgetClientStop_tasks (reg : Option Nat) :
    (x.forgetClientStop reg).tasks = x.tasks := rfl
@[simp] theorem forgetClientStop_history (reg : Option Nat) :
    (x.forgetClientStop reg).history = x.history := rfl
@[simp] theorem forgetClientStop_stop (reg : Option Nat) :
    (x.forgetClientStop reg).stop = x.stop := rfl

@[simp] theorem evictWaiters_server : x.evictWaiters.server = x.server := by simp [evictWaiters]
@[simp] theorem evictWaiters_tasks : x.evictWaiters.tasks = x.tasks := by simp [evictWaiters]
@[simp] theorem evictWaiters_history : x.evictWaiters.history = x.history := by
  simp [evictWaiters]
@[simp] theorem evictWaiters_stop : x.evictWaiters.stop = x.stop := by simp [evictWaiters]

/-- Handing answers to their waiters touches neither the server nor the tasks, and
records each answer handed on. -/
theorem deliverAll_frame (records : List BusRecord) :
    (x.deliverAll records).server = x.server ∧ (x.deliverAll records).tasks = x.tasks ∧
      (x.deliverAll records).stop = x.stop ∧
      GrowsBy (fun e => ∃ id r d, e = .delivered id r d) x.history (x.deliverAll records).history := by
  unfold deliverAll
  apply List.foldlRecOn (motive := fun (y : Exchange) => y.server = x.server ∧ y.tasks = x.tasks ∧
    y.stop = x.stop ∧ GrowsBy (fun e => ∃ id r d, e = .delivered id r d) x.history y.history)
  · exact ⟨rfl, rfl, rfl, .refl _ _⟩
  · rintro y ⟨hs, ht, hw, hh⟩ r -
    dsimp only
    split
    · split
      · exact ⟨hs, ht, hw, hh⟩
      · exact ⟨by simp [hs], by simp [ht], by simp [hw], hh.snoc _ ⟨_, _, _, rfl⟩⟩
    · exact ⟨hs, ht, hw, hh⟩

@[simp] theorem deliverAll_server (records : List BusRecord) :
    (x.deliverAll records).server = x.server := (x.deliverAll_frame records).1
@[simp] theorem deliverAll_tasks (records : List BusRecord) :
    (x.deliverAll records).tasks = x.tasks := (x.deliverAll_frame records).2.1
@[simp] theorem deliverAll_stop (records : List BusRecord) :
    (x.deliverAll records).stop = x.stop := (x.deliverAll_frame records).2.2.1

/-- A listener's wait touches neither the server, its stop, nor the tasks; it records only
the answers it handed on and its own commits. -/
theorem listenWait_frame (id : Nat) (l : Listener) (stop : Watch) (reg : Option Nat)
    (fw : Option FetchWait) :
    (listenWait id l stop reg fw x).exchange.server = x.server ∧
      (listenWait id l stop reg fw x).exchange.tasks = x.tasks ∧
      (listenWait id l stop reg fw x).exchange.stop = x.stop ∧
      GrowsBy (Event.OfListen id) x.history (listenWait id l stop reg fw x).exchange.history := by
  rw [listenWait]
  split
  next _ chg seen reg' w hpoll =>
  extract_lets y₁ l₁
  split
  · simp +zetaDelta
  split
  · -- a poll past the clock's range: the listener stops
    simp +zetaDelta
  · split
    next _ st y₂ hfetch =>
    obtain rfl : (y₁.fetch l₁.consumer replyBatch y₁.pollInterval fw (.task id)).2 = y₂ :=
      congrArg Prod.snd hfetch
    extract_lets l₂
    split
    · simp +zetaDelta
    · split
      · simp +zetaDelta
      · rename_i y₂ _ _ records _ _
        obtain ⟨hs, ht, hw, hh⟩ := deliverAll_frame y₂ records
        refine ⟨by simp +zetaDelta, by simp +zetaDelta, by simp +zetaDelta, ?_⟩
        simp only [Turn.exchange_next, commitAs_history]
        refine GrowsBy.snoc ?_ _ rfl
        simpa +zetaDelta using hh.mono fun e ⟨_, _, _, he⟩ => by subst he; trivial
      · simp +zetaDelta
      · simp +zetaDelta

/-- A listener's pause changes the clock only. -/
theorem listenPause_frame (id : Nat) (l : Listener) (s : Sleep) :
    (listenPause id l s x).exchange.server = x.server ∧
      (listenPause id l s x).exchange.tasks = x.tasks ∧
      (listenPause id l s x).exchange.stop = x.stop ∧
      (listenPause id l s x).exchange.history = x.history := by
  rw [listenPause]
  -- name the parts of the poll, so that no later check has to evaluate it
  rcases s.poll x.core (.task id) with ⟨elapsed, s', core⟩
  split <;> exact ⟨rfl, rfl, rfl, rfl⟩

/-- A listener's turn touches neither the server, its stop, nor the tasks; it records only
the answers it handed on and its own commits. -/
theorem listenTurn_frame (id : Nat) (l : Listener) :
    (listenTurn id l x).exchange.server = x.server ∧ (listenTurn id l x).exchange.tasks = x.tasks ∧
      (listenTurn id l x).exchange.stop = x.stop ∧
      GrowsBy (Event.OfListen id) x.history (listenTurn id l x).exchange.history := by
  rw [listenTurn]
  split
  · exact ⟨rfl, rfl, rfl, .refl _ _⟩
  · split
    · obtain ⟨hs, ht, hw, hh⟩ := listenPause_frame x id l _
      exact ⟨hs, ht, hw, .of_eq hh⟩
    · exact listenWait_frame x id l _ _ _

end Client

end Exchange

end TokenGate
