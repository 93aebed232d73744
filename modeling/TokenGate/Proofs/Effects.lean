import Mathlib
import TokenGate.Proofs.Table
import TokenGate.Proofs.Runs
/-!
# `TokenGate.Proofs.Effects`: what the tasks and the caller leave behind

The statements about runs of an exchange look at every step of `Exchange.Step`: a poll of
any task, a poll of the caller's wait, a tick, or an action of the caller. This module
says, once per kind of step, which tasks it leaves and which events it records, so that
the invariants of the server are proved one step at a time without unfolding a task's
loop again:

* `runTurns_keeps`: a fact kept by every turn of a task is kept by its whole run
  (`Turn.Keeps` says what one turn must keep);
* `pollTask_consume` and its siblings: polling a task runs it and stores its new state,
  or removes it once it ended (`storeAs`);
* `TasksFrom`: every task after an operation was there before or is a handler the
  operation started; `consumeRun_tasksFrom`, `sweepRun_tasksFrom` and the frames of the
  other tasks and of the caller's actions;
* `Event.Serves`: a record handed to `dispatch` or an answer published. Handlers,
  listeners, the evictor, the caller's wait and the caller's own actions never record
  one (`handlerRun_history`, `listenRun_history`, `evictRun_history`, `pollMain_frame`,
  `startServer_frame`, `startClient_frame`, `beginSends_frame`).
-/

set_option autoImplicit false

namespace TokenGate

open Sched

/-- A task as it is started: a consume loop or a listener that has seen no stop and
waits, holding nothing; a sweep or an evictor before its first tick; a handler with its
request. -/
def Task.IsNew : Task → Prop
  | .consume l => l.seen = 0 ∧ l.commitTick = none ∧ l.held = false ∧ l.phase = .waiting none none
  | .sweep p => p = ⟨0, none, none⟩
  | .handler h => ∃ req, h.phase = .fresh req
  | .listen l => l.seen = 0 ∧ l.phase = .waiting none none
  | .evict p => p = ⟨0, none, none⟩

namespace Exchange

section Turns

variable {α : Type}

/-- A turn keeps `P` of the task's state and the exchange when the task goes on, and ends
in `Q` of the state it waits in (`none` once it ended) and the exchange when it stops. -/
def Turn.Keeps (P : α → Exchange → Prop) (Q : Option α → Exchange → Prop) : Turn α → Prop
  | .next a x => P a x
  | .stop a x => Q a x

/-- What every turn keeps, the whole run keeps: a run that starts in `P` ends in `Q`, when
`Q` also holds of a task that goes on from `P` but has no fuel left. -/
theorem runTurns_keeps {turn : α → Exchange → Turn α} {P : α → Exchange → Prop}
    {Q : Option α → Exchange → Prop} (hPQ : ∀ a x, P a x → Q (some a) x)
    (hturn : ∀ a x, P a x → (turn a x).Keeps P Q) (n : Nat) {a : α} {x : Exchange}
    (h : P a x) : Q (runTurns turn n a x).1 (runTurns turn n a x).2 := by
  -- the induction is on the fuel; each turn hands its state to the rest of the run
  induction n generalizing a x with
  | zero => exact hPQ a x h
  | succ n ih =>
    have hk := hturn a x h
    rw [runTurns]
    split
    · next a' x' heq =>
      rw [heq] at hk
      exact ih hk
    · next a' x' heq =>
      rw [heq] at hk
      exact hk

/-- The state a turn goes on or waits in. -/
def Turn.state? : Turn α → Option α
  | .next a _ => some a
  | .stop a _ => a

/-- A relation `R` between exchanges that every turn moves along, and a relation `S`
between the task's states that every turn moves along, hold from the start of a run to
its end. -/
theorem runTurns_frame {turn : α → Exchange → Turn α} {R : Exchange → Exchange → Prop}
    {S : α → α → Prop} (hR : ∀ {x y z}, R x y → R y z → R x z)
    (hS : ∀ {a b c}, S a b → S b c → S a c)
    (hturn : ∀ a x, R x (turn a x).exchange ∧ ∀ b ∈ (turn a x).state?, S a b)
    (n : Nat) (a : α) (x : Exchange) (hx : R x x) (ha : S a a) :
    R x (runTurns turn n a x).2 ∧ ∀ b ∈ (runTurns turn n a x).1, S a b := by
  have hkeep : ∀ b y, R x y ∧ S a b → (turn b y).Keeps (fun c y' => R x y' ∧ S a c)
      (fun c y' => R x y' ∧ ∀ d ∈ c, S a d) := by
    rintro b y ⟨hxy, hab⟩
    obtain ⟨hy, hb⟩ := hturn b y
    revert hy hb
    cases turn b y with
    | next c y' => exact fun hy hb => ⟨hR hxy hy, hS hab (hb c rfl)⟩
    | stop c y' => exact fun hy hb => ⟨hR hxy hy, fun d hd => hS hab (hb d hd)⟩
  exact runTurns_keeps (fun _ _ h => ⟨h.1, fun _ hb => by cases hb; exact h.2⟩) hkeep n ⟨hx, ha⟩

end Turns

/-- Keep a task's state after its run, or remove the task once it ended. -/
def storeAs {β : Type} (id : Nat) (wrap : β → Task) : Option β × Exchange → Exchange
  | (some s, x) => x.setTask id (wrap s)
  | (none, x) => x.endTask id

section Poll

variable {x : Exchange} {id : Nat}

theorem pollTask_none (h : x.task? id = none) : x.pollTask id = x := by
  unfold pollTask
  rw [h]

theorem pollTask_consume {l : ConsumeLoop} (h : x.task? id = some (.consume l)) :
    x.pollTask id = storeAs id Task.consume (consumeRun id 10000 l x) := by
  unfold pollTask
  rw [h]
  rfl

theorem pollTask_sweep {p : PeriodicLoop} (h : x.task? id = some (.sweep p)) :
    x.pollTask id = storeAs id Task.sweep (sweepRun id p x) := by
  unfold pollTask
  rw [h]
  rfl

theorem pollTask_handler {hd : Handler} (h : x.task? id = some (.handler hd)) :
    x.pollTask id = storeAs id Task.handler (handlerRun id hd x) := by
  unfold pollTask
  rw [h]
  rfl

theorem pollTask_listen {l : Listener} (h : x.task? id = some (.listen l)) :
    x.pollTask id = storeAs id Task.listen (listenRun id 10000 l x) := by
  unfold pollTask
  rw [h]
  rfl

theorem pollTask_evict {p : PeriodicLoop} (h : x.task? id = some (.evict p)) :
    x.pollTask id = storeAs id Task.evict (evictRun id p x) := by
  unfold pollTask
  rw [h]
  rfl

@[simp] theorem storeAs_history {β : Type} (wrap : β → Task) (r : Option β × Exchange) :
    (storeAs id wrap r).history = r.2.history := by
  obtain ⟨_ | s, y⟩ := r <;> simp [storeAs, setTask]

@[simp] theorem storeAs_server {β : Type} (wrap : β → Task) (r : Option β × Exchange) :
    (storeAs id wrap r).server = r.2.server := by
  obtain ⟨_ | s, y⟩ := r <;> simp [storeAs, setTask]

@[simp] theorem storeAs_stop {β : Type} (wrap : β → Task) (r : Option β × Exchange) :
    (storeAs id wrap r).stop = r.2.stop := by
  obtain ⟨_ | s, y⟩ := r
  · obtain ⟨core, h⟩ := y.endTask_eq id
    simp [storeAs, h]
  · rfl

end Poll

/-- Every task of `x'` was a task of `x` or is new: all that the operations of an exchange
do to its tasks, the task being polled apart. -/
def TasksFrom (x x' : Exchange) : Prop := ∀ e ∈ x'.tasks, e ∈ x.tasks ∨ e.2.IsNew

namespace TasksFrom

variable {x y z : Exchange}

theorem refl (x : Exchange) : TasksFrom x x := fun _ he => .inl he

theorem of_subset (h : y.tasks ⊆ x.tasks) : TasksFrom x y := fun _ he => .inl (h he)

theorem of_eq (h : y.tasks = x.tasks) : TasksFrom x y := of_subset (h ▸ List.Subset.refl _)

theorem trans (h₁ : TasksFrom x y) (h₂ : TasksFrom y z) : TasksFrom x z := fun e he =>
  (h₂ e he).elim (h₁ e) .inr

/-- The tasks grown by one new task. -/
theorem of_snoc {id : Nat} {t : Task} (h : y.tasks ⊆ x.tasks ++ [(id, t)]) (ht : t.IsNew) :
    TasksFrom x y := by
  intro e he
  rcases List.mem_append.1 (h he) with he | he
  · exact .inl he
  · rw [List.mem_singleton.1 he]
    exact .inr ht

theorem spawn {t : Task} (h : TasksFrom x y) (ht : t.IsNew) : TasksFrom x (y.spawn t).2 :=
  h.trans (of_snoc (show (y.spawn t).2.tasks ⊆ y.tasks ++ [(y.nextTask, t)] from
    List.Subset.refl _) ht)

end TasksFrom

section Tasks

variable (x : Exchange)

/-- `dispatch` adds at most the handler it starts. -/
theorem dispatch_tasksFrom (r : BusRecord) : TasksFrom x (x.dispatch r).2 := by
  unfold dispatch
  dsimp only
  split
  · exact .of_eq (by simp)
  · split
    · exact .of_eq (by simp)
    · next env _ _ =>
      simp only [count, spawn, Channels.openChannel]
      split
      · -- a deadline past the clock's range: the handler runs on
        exact @TasksFrom.of_snoc x _ x.nextTask (.handler ⟨x.server.results.next, .fresh env.payload⟩)
          (by simp) ⟨_, rfl⟩
      by_cases hc : x.server.closing = true
      · -- arriving after the sweep stopped: the handler is started and stopped at once
        simp only [hc, ↓reduceIte]
        refine @TasksFrom.of_snoc x _ x.nextTask (.handler ⟨x.server.results.next, .fresh env.payload⟩)
          ?_ ⟨_, rfl⟩
        simp only [releaseSlot_tasks, abortHandler_tasks]
        exact List.filter_sublist.subset
      · simp only [hc, Bool.false_eq_true, ↓reduceIte]
        exact @TasksFrom.of_snoc x _ x.nextTask (.handler ⟨x.server.results.next, .fresh env.payload⟩)
          (by simp) ⟨_, rfl⟩

section Consume

variable (id : Nat) (x : Exchange) (l : ConsumeLoop)

/-- A consume loop's wait goes on only as long as it has seen no stop. -/
theorem consumeWait_seen (iv : Interval) (reg : Option Nat) (fw : Option FetchWait) :
    ∀ l' ∈ (consumeWait id l iv reg fw x).state?, l'.seen = l.seen := by
  rw [consumeWait]
  split
  next _ chg seen reg' w hpoll =>
  have hseen : chg = none → seen = l.seen := by
    have := (Watch.poll_change x.stop l.seen reg (.task id)).2
    rwa [hpoll] at this
  extract_lets y₁ l₁
  split
  · simp [Turn.state?]
  · next hchg =>
    -- every state below is the loop with the version it had seen
    have hl₁ : l₁.seen = l.seen := hseen (by simpa using hchg)
    split
    next _ ready iv' core hiv =>
    extract_lets y₂ l₂
    split
    · simpa [Turn.state?, l₂] using hl₁
    split
    · simp [Turn.state?]
    · split
      next _ st y₃ hfetch =>
      extract_lets l₃
      split
      · simpa [Turn.state?, l₃, l₂] using hl₁
      · split <;> simp [Turn.state?, l₃, l₂, hl₁]

/-- A consume loop holding a record leaves the tasks of the exchange, and those of the
handler it starts if it dispatches; it goes on only as long as it has seen no stop. -/
theorem consumeAcquire_frame (record : BusRecord) (reg slot : Option Nat) :
    TasksFrom x (consumeAcquire id l record reg slot x).exchange ∧
      ∀ l' ∈ (consumeAcquire id l record reg slot x).state?, l'.seen = l.seen := by
  rw [consumeAcquire]
  split
  next _ chg seen reg' w hpoll =>
  have hseen : chg = none → seen = l.seen := by
    have := (Watch.poll_change x.stop l.seen reg (.task id)).2
    rwa [hpoll] at this
  extract_lets y₁ l₁
  split
  · split
    exact ⟨.of_eq (by simp +zetaDelta), by simp [Turn.state?]⟩
  · next hchg =>
    have hl₁ : seen = l.seen := hseen (by simpa using hchg)
    split
    next _ ok slot' slots hslot =>
    extract_lets y₂
    split
    · split
      · exact ⟨.of_eq (by simp +zetaDelta), by simp [Turn.state?]⟩
      · split
        next adm y₄ hdisp =>
        -- the record goes to `dispatch`, which may start a handler
        have hd := dispatch_tasksFrom (y₂.forgetStop reg') record
        rw [hdisp] at hd
        have hfrom : TasksFrom x y₄ := (TasksFrom.of_eq (by simp +zetaDelta)).trans hd
        split
        · -- a deadline past the clock's range stops the loop
          exact ⟨hfrom.trans (.of_eq (by simp)), by simp [Turn.state?]⟩
        · exact ⟨hfrom.trans (.of_eq (by simp)), by simp [Turn.state?, l₁, hl₁]⟩
    · exact ⟨.of_eq (by simp +zetaDelta), by simp [Turn.state?, l₁, hl₁]⟩

/-- A consume loop's pause changes the clock only. -/
theorem consumePause_frame (s : Sleep) :
    (consumePause id l s x).exchange.tasks = x.tasks ∧
      ∀ l' ∈ (consumePause id l s x).state?, l'.seen = l.seen := by
  rw [consumePause]
  -- name the parts of the poll, so that no later check has to evaluate it
  rcases s.poll x.core (.task id) with ⟨elapsed, s', core⟩
  split <;> simp [Turn.state?]

/-- A consume loop's turn leaves the tasks of the exchange and the handlers it starts; the
loop goes on only as long as it has seen no stop. -/
theorem consumeTurn_frame :
    TasksFrom x (consumeTurn id l x).exchange ∧
      ∀ l' ∈ (consumeTurn id l x).state?, l'.seen = l.seen := by
  unfold consumeTurn
  split
  · exact ⟨.refl _, by simp [Turn.state?]⟩
  · split
    · exact ⟨.of_eq (consumePause_frame id x l _).1, (consumePause_frame id x l _).2⟩
    · exact ⟨.of_eq (consumeWait_frame x id l _ _ _).2.1, consumeWait_seen id x l _ _ _⟩
    · exact consumeAcquire_frame id x l _ _ _

/-- A consume loop's run leaves the tasks of the exchange and the handlers it starts; the
loop waits, if it does, having seen no stop. -/
theorem consumeRun_frame (n : Nat) :
    TasksFrom x (consumeRun id n l x).2 ∧ ∀ l' ∈ (consumeRun id n l x).1, l'.seen = l.seen :=
  runTurns_frame (R := TasksFrom) (S := fun l₁ l₂ : ConsumeLoop => l₂.seen = l₁.seen)
    TasksFrom.trans (fun h₁ h₂ => h₂.trans h₁) (fun l' y => consumeTurn_frame id y l') n l x
    (.refl x) rfl

end Consume

section Sweep

variable (x : Exchange)

/-- Settling a request at most stops its handler. -/
theorem settle_tasks_subset (e : InFlight) (s : Settled) : (x.settle e s).tasks ⊆ x.tasks := by
  by_cases he : e.id ∈ x.server.inFlight.map (·.id)
  · obtain ⟨sent, hub, core, -, heq⟩ := settle_eq x e s he
    rw [heq]
    dsimp only
    split
    · exact List.filter_sublist.subset
    · exact List.Subset.refl _
  · have hany : x.server.inFlight.any (·.id == e.id) = false := by simpa using he
    unfold settle
    rw [if_pos (by simp [hany])]
    exact List.Subset.refl _

/-- A sweep at most stops the handlers of the requests it settles. -/
theorem sweep_tasks_subset : x.sweep.2.tasks ⊆ x.tasks := by
  -- the settled requests are taken one after the other
  have hfold : ∀ (l : List (InFlight × Settled)) (y : Exchange),
      (l.foldl (fun y (p : InFlight × Settled) => y.settle p.1 p.2) y).tasks ⊆ y.tasks := by
    intro l
    induction l with
    | nil => exact fun y => List.Subset.refl _
    | cons p ps ih => exact fun y => List.Subset.trans (ih _) (settle_tasks_subset _ _ _)
  exact hfold _ _

/-- Releasing slots one after the other changes the semaphore, and the clock's queue
only by wake-ups. -/
theorem foldl_releaseSlot {β : Type} (l : List β) (y : Exchange) :
    ∃ core, Core.QueueGrows y.core core ∧ l.foldl (fun (y : Exchange) _ => y.releaseSlot) y =
      { y with server := { y.server with
        slots := Nat.iterate (fun s : Semaphore => s.release.1) l.length y.server.slots }, core } := by
  induction l generalizing y with
  | nil => exact ⟨y.core, .refl _, rfl⟩
  | cons b bs ih =>
    obtain ⟨core, hcore, heq⟩ := ih y.releaseSlot
    refine ⟨core, (Core.queueGrows_wakeAll _ _).trans hcore, ?_⟩
    rw [List.foldl_cons, heq, List.length_cons, Function.iterate_succ_apply]
    rfl

/-- The sweep stopping at most stops handlers. -/
theorem abandonInFlight_tasks_subset : x.abandonInFlight.tasks ⊆ x.tasks := by
  obtain ⟨core, -, heq⟩ := abandonInFlight_eq x
  obtain ⟨core', -, heq'⟩ := foldl_releaseSlot x.server.inFlight
    { x with
      server := { x.server with closing := true, inFlight := [] }
      tasks := x.tasks.filter (fun p => p.1 ∉ x.server.inFlight.map InFlight.task)
      core }
  rw [heq, heq']
  exact List.filter_sublist.subset

end Sweep

section Periodic

variable (id period : Nat) (keep : Bool) (watch : Exchange → Option Watch)
  (setWatch : Exchange → Watch → Exchange) (act finish : Exchange → Exchange)
  {R : Exchange → Exchange → Prop}

/-- A periodic loop's turn moves along every relation that changing its watch, moving the
clock without losing a queued task, its action and its last action move along; the loop
goes on only as long as it has seen no stop. -/
theorem periodicTurn_frame_of_queue (hR : ∀ {x y z}, R x y → R y z → R x z)
    (hrefl : ∀ x, R x x) (hset : ∀ x w, R x (setWatch x w))
    (hcore : ∀ x (c : Core), Core.QueueGrows x.core c → R x { x with core := c })
    (hact : ∀ x, R x (act x)) (hfinish : ∀ x, R x (finish x)) (p : PeriodicLoop) (x : Exchange) :
    R x (periodicTurn id period keep watch setWatch act finish p x).exchange ∧
      ∀ p' ∈ (periodicTurn id period keep watch setWatch act finish p x).state?,
        p'.seen = p.seen := by
  unfold periodicTurn
  split
  · exact ⟨hrefl x, by simp [Turn.state?]⟩
  · next w _ =>
    rw [periodicTick]
    split
    next _ chg seen reg w' hpoll =>
    have hseen : chg = none → seen = p.seen := by
      have := (Watch.poll_change w p.seen p.stopReg (.task id)).2
      rwa [hpoll] at this
    extract_lets y₁
    split
    · exact ⟨hR (hset x w') (hfinish _), by simp [Turn.state?]⟩
    · next hchg =>
      have hs : seen = p.seen := hseen (by simpa using hchg)
      split
      next _ ready iv' core hiv =>
      extract_lets y₂
      -- the tick's poll only registers or cancels the loop's timer
      have hq : Core.QueueGrows y₁.core core := by
        have := Interval.queueGrows_poll (p.tick.getD (Interval.create y₁.core.now period))
          y₁.core (.task id)
        rwa [hiv] at this
      have hy₂ : R x y₂ := hR (hset x w') (hcore _ _ hq)
      split
      · split
        next y₃ reg₃ hkeep =>
        -- with `keep` the wait for a stop stays registered, otherwise it is forgotten
        have hy₃ : R y₂ y₃ := by
          cases keep
          · obtain ⟨rfl, -⟩ := Prod.mk.inj hkeep.symm
            exact hset _ _
          · obtain ⟨rfl, -⟩ := Prod.mk.inj hkeep.symm
            exact hrefl _
        exact ⟨hR hy₂ (hR hy₃ (hact _)), by simp [Turn.state?, hs]⟩
      · exact ⟨hy₂, by simp [Turn.state?, hs]⟩

/-- A periodic loop's turn moves along every relation that changing its watch or the
clock, its action and its last action move along; the loop goes on only as long as it
has seen no stop. -/
theorem periodicTurn_frame (hR : ∀ {x y z}, R x y → R y z → R x z) (hrefl : ∀ x, R x x)
    (hset : ∀ x w, R x (setWatch x w)) (hcore : ∀ x (c : Core), R x { x with core := c })
    (hact : ∀ x, R x (act x)) (hfinish : ∀ x, R x (finish x)) (p : PeriodicLoop) (x : Exchange) :
    R x (periodicTurn id period keep watch setWatch act finish p x).exchange ∧
      ∀ p' ∈ (periodicTurn id period keep watch setWatch act finish p x).state?,
        p'.seen = p.seen :=
  periodicTurn_frame_of_queue id period keep watch setWatch act finish @hR hrefl hset
    (fun x c _ => hcore x c) hact hfinish p x

end Periodic

/-- The sweep task at most stops handlers; it goes on only as long as it has seen no
stop. -/
theorem sweepRun_frame (id : Nat) (p : PeriodicLoop) (x : Exchange) :
    TasksFrom x (sweepRun id p x).2 ∧ ∀ p' ∈ (sweepRun id p x).1, p'.seen = p.seen := by
  unfold sweepRun periodicRun
  exact runTurns_frame (R := TasksFrom) (S := fun p₁ p₂ : PeriodicLoop => p₂.seen = p₁.seen)
    TasksFrom.trans (fun h₁ h₂ => h₂.trans h₁)
    (periodicTurn_frame id x.pollInterval false (fun x => some x.stop)
      (fun x w => { x with stop := w }) _ _ TasksFrom.trans TasksFrom.refl
      (fun _ _ => .of_eq rfl) (fun _ _ => .of_eq rfl)
      (fun y => .of_subset (sweep_tasks_subset y))
      (fun y => .of_subset (abandonInFlight_tasks_subset y))) 10000 p x (.refl x) rfl


/-- What a handler records: its answer. -/
def Event.OfHandler : Event → Prop
  | .returned .. => True
  | _ => False

/-- From `x` to `x'` only new tasks come, the server's stop stays, and the history grows
by events satisfying `P` only: what the handlers, the client's tasks, the caller's wait
and most of the caller's actions do. -/
structure Records (P : Event → Prop) (x x' : Exchange) : Prop where
  tasks : TasksFrom x x'
  stop : x'.stop = x.stop
  history : GrowsBy P x.history x'.history

namespace Records

variable {P Q : Event → Prop} {x y z : Exchange}

theorem refl (P : Event → Prop) (x : Exchange) : Records P x x := ⟨.refl x, rfl, .refl _ _⟩

theorem trans (h₁ : Records P x y) (h₂ : Records P y z) : Records P x z :=
  ⟨h₁.tasks.trans h₂.tasks, h₂.stop.trans h₁.stop, h₁.history.trans h₂.history⟩

theorem mono (hPQ : ∀ e, P e → Q e) (h : Records P x y) : Records Q x y :=
  ⟨h.tasks, h.stop, h.history.mono hPQ⟩

theorem of_eq (ht : y.tasks = x.tasks) (hs : y.stop = x.stop) (hh : y.history = x.history) :
    Records P x y :=
  ⟨.of_eq ht, hs, .of_eq hh⟩

/-- A new task started after the rest. -/
theorem spawn {t : Task} (h : Records P x y) (ht : t.IsNew) : Records P x (y.spawn t).2 :=
  ⟨h.tasks.spawn ht, h.stop, h.history⟩

end Records

section Handler

variable (x : Exchange) (id : Nat) (h : Handler)

/-- An answer on a channel changes the channels and wakes whoever waits there; it is
recorded when it reached the channel. -/
theorem answerOn_eq (c : Nat) (r : Response) :
    ∃ core, Core.QueueGrows x.core core ∧ x.answerOn c r =
      { x with
        server := { x.server with results := (x.server.results.send c r).2.1 }
        history := x.history ++
          if (x.server.results.send c r).1 then [(x.core.now, .returned c r)] else []
        core } := by
  unfold answerOn
  -- name the send, so that no later check has to evaluate it
  rcases x.server.results.send c r with ⟨sent, results, ws⟩
  refine ⟨x.core.wakeAll ws, Core.queueGrows_wakeAll _ _, ?_⟩
  cases sent
  · simp only [wakeAll, Bool.false_eq_true, ite_false, List.append_nil]
  · simp only [note, wakeAll, ite_true, (Core.queueGrows_wakeAll x.core ws).now]

theorem answerOn_records (c : Nat) (r : Response) : Records Event.OfHandler x (x.answerOn c r) := by
  obtain ⟨core, -, heq⟩ := answerOn_eq x c r
  rw [heq]
  refine ⟨.of_eq rfl, rfl, ⟨_, rfl, ?_⟩⟩
  split <;> simp [Event.OfHandler]

theorem answerLookup_records (deviceId : Uuid) (mode : DirectoryMode) :
    Records Event.OfHandler x (x.answerLookup h deviceId mode).2 := by
  unfold answerLookup
  split
  · exact .refl _ _
  · split
    · -- a crashing directory: the channel closes without an answer
      split
      exact .of_eq rfl rfl rfl
    · exact answerOn_records _ _ _

theorem awaitLookup_records (deviceId : Uuid) (mode : DirectoryMode) (s : Sleep) :
    Records Event.OfHandler x (awaitLookup id h deviceId mode s x).2 := by
  rw [awaitLookup]
  -- name the parts of the poll, so that no later check has to evaluate it
  rcases s.poll x.core (.task id) with ⟨ready, s', core⟩
  dsimp only
  split
  · exact Records.trans (y := { x with core }) (.of_eq rfl rfl rfl) (answerLookup_records _ _ _ _)
  · exact .of_eq rfl rfl rfl

/-- A handler keeps the tasks and the server's stop, and records only its answer. -/
theorem handlerRun_records : Records Event.OfHandler x (handlerRun id h x).2 := by
  unfold handlerRun
  split
  · split
    · exact answerOn_records _ _ _
    · dsimp only
      split
      · exact answerLookup_records _ _ _ _
      · exact awaitLookup_records _ _ _ _ _ _
  · exact awaitLookup_records _ _ _ _ _ _
  · exact .refl _ _

end Handler

/-- A listener keeps the tasks and the server's stop, and records only the answers it
handed on and its own commits. -/
theorem listenRun_records (id n : Nat) (l : Listener) (x : Exchange) :
    Records (Event.OfListen id) x (listenRun id n l x).2 := by
  have hturn : ∀ (l' : Listener) y, Records (Event.OfListen id) y (listenTurn id l' y).exchange ∧
      ∀ l'' ∈ (listenTurn id l' y).state?, True := by
    intro l' y
    obtain ⟨-, ht, hs, hh⟩ := listenTurn_frame y id l'
    exact ⟨⟨.of_eq ht, hs, hh⟩, fun _ _ => trivial⟩
  unfold listenRun
  exact (runTurns_frame (R := Records (Event.OfListen id)) (S := fun _ _ => True) Records.trans (fun _ _ => trivial) hturn n l x
    (.refl _ _) trivial).1

/-- The evictor keeps the tasks, the server's stop and the history. -/
theorem evictRun_records (id : Nat) (p : PeriodicLoop) (x : Exchange) :
    Records (fun _ => False) x (evictRun id p x).2 := by
  unfold evictRun periodicRun
  exact (runTurns_frame (R := Records (fun _ => False))
    (S := fun p₁ p₂ : PeriodicLoop => p₂.seen = p₁.seen) Records.trans (fun h₁ h₂ => h₂.trans h₁)
    (periodicTurn_frame id x.pollInterval true (fun x => x.client.map (·.stop)) setClientStop
      evictWaiters (fun x => x) Records.trans (Records.refl _)
      (fun _ _ => .of_eq rfl rfl rfl) (fun _ _ => .of_eq rfl rfl rfl)
      (fun _ => .of_eq (by simp) (by simp) (by simp)) (fun _ => .refl _ _)) 10000 p x
    (.refl _ _) rfl).1

section Caller

variable (x : Exchange)

theorem awaitReply_records (cl : Client) (rid : Uuid) (ch deadline : Nat) (sl : Sleep) :
    Records Event.OfCaller x (x.awaitReply cl rid ch deadline sl).2 := by
  rw [awaitReply]
  dsimp only
  -- name the parts of the poll, so that no later check has to evaluate it
  rcases sl.poll x.core .main with ⟨ready, sl', core⟩
  dsimp only
  split
  · exact ⟨.of_eq (by simp), by simp, by simp [Event.OfCaller]⟩
  · exact .of_eq rfl rfl rfl

theorem pollSend_records (st : SendState) : Records Event.OfCaller x (x.pollSend st).2 := by
  unfold pollSend
  split
  · exact .refl _ _
  · split
    · exact .refl _ _
    · dsimp only
      split
      · exact ⟨.of_eq rfl, rfl, by simp [Event.OfCaller]⟩
      · exact ⟨.of_eq rfl, rfl, by simp [Event.OfCaller]⟩
      · refine Records.trans ?_ (awaitReply_records _ _ _ _ _ _)
        exact .of_eq rfl rfl rfl

theorem pollSends_records (items : List SendState) :
    Records Event.OfCaller x (x.pollSends items).2 := by
  unfold pollSends
  apply List.foldlRecOn
    (motive := fun (acc : List SendState × Exchange) => Records Event.OfCaller x acc.2)
  · exact .refl _ _
  · intro acc hacc st _
    exact hacc.trans (pollSend_records _ _)

/-- Waiting once for a task's end changes the clock only. -/
theorem joinWait_records (id : Nat) (grace : Option Sleep) :
    Records (fun _ => False) x (x.joinWait id grace).2 := by
  rw [joinWait.eq_def]
  split
  · exact .of_eq rfl rfl rfl
  · dsimp only
    -- name the parts of the poll, so that no later check has to evaluate it
    rcases (grace.getD (Sleep.ofDeadline (x.core.now + stopGrace))).poll x.core .main with
      ⟨ready, s', core⟩
    exact .of_eq rfl rfl rfl

theorem pollJoin_records (ids : List Nat) :
    ∀ (x : Exchange) (grace : Option Sleep), Records (fun _ => False) x (x.pollJoin ids grace).2 := by
  -- the caller waits for the tasks one after the other
  induction ids with
  | nil => exact fun x grace => .of_eq rfl rfl rfl
  | cons id rest ih =>
    intro x grace
    have hw := joinWait_records x id grace
    rw [pollJoin]
    rcases hj : x.joinWait id grace with ⟨_ | s, y⟩
    · -- this task's wait is over: on to the next
      rw [hj] at hw
      exact hw.trans (ih _ _)
    · rw [hj] at hw
      exact hw.trans (.of_eq rfl rfl rfl)

/-- The caller's wait keeps the tasks and the server's stop; it records only the ends of
its requests. -/
theorem pollMain_records : Records Event.OfCaller x x.pollMain.2 := by
  rw [pollMain.eq_def]
  split
  · exact .refl _ _
  · exact (pollJoin_records _ _ _).mono fun _ h => h.elim
  · next s _ =>
    rw [pollSleep]
    -- name the parts of the poll, so that no later check has to evaluate it
    rcases s.poll x.core .main with ⟨ready, s', core⟩
    exact .of_eq rfl rfl rfl
  · exact (pollSends_records x _).trans (.of_eq rfl rfl rfl)

theorem beginSend_records (req : Request) : Records Event.OfCaller x (x.beginSend req).2 := by
  unfold beginSend
  split
  · exact .refl _ _
  · next cl _ =>
    dsimp only
    split
    · next e y heq =>
      -- the publish failed: the waiter goes again and the request ends at once
      have hy := congrArg Prod.snd heq
      dsimp only at hy
      subst hy
      exact ⟨.of_eq (by simp), by simp, by simp [Event.OfCaller]⟩
    · next m y heq =>
      have hy := congrArg Prod.snd heq
      dsimp only at hy
      subst hy
      refine Records.trans ?_ (pollSend_records _ _)
      exact ⟨.of_eq (by simp), by simp, by simp [Event.OfCaller]⟩

/-- Starting requests keeps the tasks and the server's stop; it records only the requests
and the ends of those that end at once. -/
theorem beginSends_records (reqs : List Request) :
    Records Event.OfCaller x (x.beginSends reqs).2 := by
  unfold beginSends
  apply List.foldlRecOn
    (motive := fun (acc : List SendState × Exchange) => Records Event.OfCaller x acc.2)
  · exact .refl _ _
  · intro acc hacc req _
    exact hacc.trans (beginSend_records _ _)

/-- The caller's own publish records only itself. -/
theorem send_records (topic : String) (key : Option String) (value : List UInt8) :
    Records (fun e => e = .sent topic key value) x (x.send topic key value).2 :=
  ⟨.of_eq rfl, rfl, by simp [send]⟩

theorem stopClient_records : Records (fun _ => False) x x.stopClient.2 := by
  unfold stopClient
  split
  · exact .refl _ _
  · exact .of_eq rfl rfl rfl

/-- Starting the client adds its listeners and its evictor, new, and keeps the server's
stop and the history. -/
theorem startClient_records (replyTopic : String) (timeout : Nat) :
    Records (fun _ => False) x (x.startClient replyTopic timeout) := by
  unfold startClient
  dsimp only
  -- the evictor comes last
  refine Records.spawn ?_ (by exact rfl)
  -- one listener per partition of the reply topic, started or skipped
  apply List.foldlRecOn (motive := Records (fun _ => False) x)
  · exact .of_eq rfl rfl rfl
  · intro y hy p _
    split
    · exact Records.spawn (hy.trans (.of_eq rfl rfl rfl)) ⟨rfl, rfl⟩
    · exact hy

/-- Starting the server adds one consume loop per partition of the request topic and the
sweep, all new; it keeps the server's stop and records only the consume loops it
started. -/
theorem startServer_records :
    Records (fun e => ∃ id c, e = .consuming id c) x x.startServer.2 := by
  unfold startServer
  dsimp only
  -- the sweep comes last
  refine Records.spawn ?_ (by exact rfl)
  -- one consume loop per partition of the request topic, started or skipped
  apply List.foldlRecOn
    (motive := fun acc : List Nat × Exchange => Records (fun e => ∃ id c, e = .consuming id c) x acc.2)
  · exact .of_eq rfl rfl rfl
  · intro acc hacc p _
    split
    · next cons _ _ =>
      refine (Records.spawn (t := .consume ⟨cons, 0, none, false, .waiting none none⟩)
        (hacc.trans (.of_eq rfl rfl rfl)) ⟨rfl, rfl, rfl, rfl⟩).trans ?_
      exact ⟨.refl _, rfl, (GrowsBy.refl _ _).snoc _ ⟨_, _, rfl⟩⟩
    · exact hacc

end Caller

end Tasks

end Exchange

end TokenGate
