import Mathlib
import TokenGate.Proofs.Slots
/-!
# `TokenGate.Proofs.Pending`: the pending limit over every run

`Exchange.Slots` is the accounting of the server's permits for the consume loops an
exchange stores (`TokenGate.Proofs.Slots`). This module walks it through every step of a
run (`Reachable.slots`):

* a poll of a consume loop runs it as the accounting of `Exchange.Runs` says, then stores
  it (`Slots.pollConsume`); a poll of the sweep settles requests and gives their permits
  back, or drops them all when it stops (`Slots.sweepRun`);
* the other tasks and the caller's actions leave the slots and the table, only add to the
  run queue and start their tasks under new numbers (`Slots.aside`, `Slots.spawn`).

From it, `Reachable.pendingBound` reads what the limit means for a run: the requests in
flight never exceed it, nor do the handlers running for them; with every task idle the
free permits and the requests in flight make it up exactly; a loop waits for a permit
only while it holds a record, and while no permit is free for it, its poll reads nothing
more from the bus; once the sweep stopped, nothing is in flight and, every task idle,
every permit is free. A handler runs without a request in flight only when its dispatch
stopped at a deadline past the clock's range, and `handlers_exceed_limit` shows that such
handlers can outnumber the limit.
-/

set_option autoImplicit false

namespace TokenGate

open Sched

namespace Exchange

/-! ### Starting and storing tasks -/

namespace TaskIds

variable {x : Exchange}

/-- A task started takes the next number. -/
theorem spawn (hx : x.TaskIds) (t : Task) :
    (x.spawn t).2.TaskIds ∧
      (x.spawn t).2.consumeLoop? = Function.update x.consumeLoop? x.nextTask t.consume? := by
  have hy : (x.spawn t).2.TaskIds := hx.of_append rfl (by simp) (by simp [Exchange.spawn]) (Nat.le_succ _)
  refine ⟨hy, funext fun i => ?_⟩
  by_cases hi : i = x.nextTask
  · subst hi
    rw [Function.update_self, consumeLoop?, (hy.task?_eq_some_iff (t := t)).2 (by simp [Exchange.spawn])]
    rfl
  · rw [Function.update_of_ne hi]
    exact hx.consumeLoop?_congr hy (i := i) fun l => by simp [Exchange.spawn, hi]

/-- Storing the state of a task that runs no consume loop, under a number that runs none,
changes no loop. -/
theorem consumeLoop?_setTask_of_none (hx : x.TaskIds) {id : Nat} (hid : x.consumeLoop? id = none)
    {t : Task} (ht : t.consume? = none) : (x.setTask id t).consumeLoop? = x.consumeLoop? := by
  funext i
  refine hx.consumeLoop?_congr (hx.setTask id t) (i := i) fun l => ⟨fun hm => ?_, fun hm => ?_⟩
  · obtain ⟨p, hp, hpe⟩ := List.mem_map.1 hm
    by_cases hp₁ : p.1 = id
    · simp only [hp₁, beq_self_eq_true, ite_true, Prod.mk.injEq] at hpe
      rw [hpe.2] at ht
      simp [Task.consume?] at ht
    · simp only [beq_iff_eq, hp₁, ite_false] at hpe
      rwa [hpe] at hp
  · by_cases hi : i = id
    · subst hi
      rw [hx.consumeLoop?_eq_some_iff.2 hm] at hid
      cases hid
    · exact List.mem_map.2 ⟨(i, .consume l), hm, by simp [hi]⟩

end TaskIds

namespace SlotsBy

variable {x : Exchange} {L : Nat → Option ConsumeLoop} {r : Nat → Prop} {k : Nat}

/-- A number that runs no loop has no waiter. -/
theorem noWaiter_of_none (h : x.SlotsBy L r k) {id : Nat} (hid : L id = none) :
    ∀ w ∈ x.server.slots.waiters, w.2.1 ≠ .task id := by
  intro w hw ho
  obtain ⟨i, l, -, -, hi, hl, -⟩ := h.owned w hw
  obtain rfl : i = id := Waker.task.inj (hi.symm.trans ho)
  rw [hid] at hl
  cases hl

/-- A task started under the next number, a loop holding nothing if it is one. -/
theorem spawn (h : x.SlotsBy L r k) (t : Task) (ht : ∀ l ∈ t.consume?, l.Holding) :
    (x.spawn t).2.SlotsBy (Function.update L x.nextTask t.consume?) r k where
  keyed := h.keyed
  total := h.total
  owned w hw := by
    obtain ⟨id, l, record, reg, hid, hl, hph⟩ := h.owned w hw
    -- a waiting loop runs under a number given out before
    have hne : id ≠ x.nextTask := fun he => by
      rw [h.fresh id he.ge] at hl
      cases hl
    exact ⟨id, l, record, reg, hid, by rwa [Function.update_of_ne hne], hph⟩
  woken w hw hh id ho :=
    (h.woken w hw hh id ho).imp_left fun hq => (Core.queueGrows_wake x.core _).queue hq
  holding i l hl := by
    by_cases hi : i = x.nextTask
    · subst hi
      rw [Function.update_self] at hl
      exact ht l hl
    · rw [Function.update_of_ne hi] at hl
      exact h.holding i l hl
  entries e he := by
    obtain ⟨hn, hlt⟩ := h.entries e he
    rw [Function.update_of_ne hlt.ne]
    exact ⟨hn, Nat.lt_succ_of_lt hlt⟩
  fresh i hi := by
    have hi' : x.nextTask + 1 ≤ i := hi
    rw [Function.update_of_ne (by omega)]
    exact h.fresh i (by omega)
  cleared := h.cleared

end SlotsBy

namespace Slots

variable {x y : Exchange}

/-- A move that leaves the slots, the table, the limit, the closing flag and the tasks,
only adds to the run queue and only moves the task numbers on keeps the accounting. -/
theorem aside (h : x.Slots) (hs : y.server.slots = x.server.slots)
    (hi : y.server.inFlight = x.server.inFlight)
    (hm : y.server.config.maxPending = x.server.config.maxPending)
    (hc : y.server.closing = x.server.closing) (ht : y.tasks = x.tasks)
    (hq : x.core.queue ⊆ y.core.queue) (hn : x.nextTask ≤ y.nextTask) : y.Slots := by
  refine ⟨h.ids.of_tasks_eq ht hn, ?_⟩
  rw [consumeLoop?_of_tasks ht]
  exact h.slots.frame hs hi hm hc hq hn

/-- A move that leaves the server and the tasks and goes onward keeps the accounting. -/
theorem offstage (h : x.Slots) (ho : Offstage x y) (hw : Onward x y) : y.Slots :=
  h.aside (by rw [ho.1]) (by rw [ho.1]) (by rw [ho.1]) (by rw [ho.1]) ho.2 hw.queue.queue hw.next

/-- A task started under the next number, a loop holding nothing if it is one. -/
theorem spawn (h : x.Slots) {t : Task} (ht : ∀ l ∈ t.consume?, l.Holding) : (x.spawn t).2.Slots := by
  obtain ⟨hi, hl⟩ := h.ids.spawn t
  refine ⟨hi, ?_⟩
  rw [hl]
  exact h.slots.spawn t ht

/-- The scheduler takes a task that runs no loop off the queue: no permit waits for it. -/
theorem erase (h : x.Slots) {id : Nat} (hid : x.consumeLoop? id = none) :
    ({ x with core := { x.core with queue := x.core.queue.erase id } } : Exchange).Slots := by
  refine ⟨h.ids.of_tasks_eq rfl le_rfl, ?_⟩
  rw [consumeLoop?_of_tasks rfl]
  exact (h.slots.erase id).unhanded fun w hw _ => (h.slots.erase id).noWaiter_of_none hid w hw

/-- Storing the state of a task that runs no loop, or removing it once it ended. -/
theorem storeAs {β : Type} (h : x.Slots) {id : Nat} (hid : x.consumeLoop? id = none)
    (wrap : β → Task) (hw : ∀ b, (wrap b).consume? = none) (b? : Option β) :
    (Exchange.storeAs id wrap (b?, x)).Slots := by
  cases b? with
  | none =>
    show (x.endTask id).Slots
    refine ⟨h.ids.endTask id, ?_⟩
    rw [h.ids.consumeLoop?_endTask, Function.update_eq_self_iff.2 hid.symm]
    exact h.slots.onward (by simp) (onward_endTask x (.refl x) id)
  | some b =>
    show (x.setTask id (wrap b)).Slots
    refine ⟨h.ids.setTask id _, ?_⟩
    rw [h.ids.consumeLoop?_setTask_of_none hid (hw b)]
    exact h.slots.onward rfl (onward_setTask x (.refl x) id _)

/-- A move that stops tasks other than consume loops keeps the accounting of the loops. -/
theorem drop (h : x.Slots) (hsub : y.tasks.Sublist x.tasks)
    (hkeep : ∀ i l, (i, Task.consume l) ∈ x.tasks → (i, Task.consume l) ∈ y.tasks)
    (hs : y.SlotsBy x.consumeLoop? (fun _ => False) 0) (hn : x.nextTask ≤ y.nextTask) :
    y.Slots ∧ y.consumeLoop? = x.consumeLoop? := by
  have hy := h.ids.of_sublist hsub hn
  have hl : y.consumeLoop? = x.consumeLoop? := funext fun i =>
    h.ids.consumeLoop?_congr hy (i := i) fun l => ⟨fun hm => hsub.subset hm, hkeep i l⟩
  exact ⟨⟨hy, hl ▸ hs⟩, hl⟩

/-- Recording an event keeps the accounting. -/
theorem note (h : x.Slots) (e : Event) : (x.note e).Slots :=
  h.aside rfl rfl rfl rfl rfl (List.Subset.refl _) le_rfl

/-! ### The sweep -/

/-- Settling a request in flight stops at most its handler, which runs no loop. -/
theorem settle (h : x.Slots) (hnd : (x.server.inFlight.map (·.id)).Nodup) {e : InFlight}
    (he : e ∈ x.server.inFlight) (s : Settled) :
    (x.settle e s).Slots ∧ (x.settle e s).consumeLoop? = x.consumeLoop? := by
  have hs := h.slots.settle hnd e s
  obtain ⟨sent, hub, core, -, heq⟩ := settle_eq x e s (List.mem_map_of_mem he)
  rw [heq] at hs ⊢
  refine h.drop ?_ (fun i l hm => ?_) hs le_rfl
  · split
    · exact List.filter_sublist
    · exact List.Sublist.refl _
  · split
    · -- the stopped handler runs no loop
      have hn := (h.slots.entries e he).1
      have hne : i ≠ e.task := by
        rintro rfl
        rw [h.ids.consumeLoop?_eq_some_iff.2 hm] at hn
        cases hn
      exact List.mem_filter.2 ⟨hm, by simpa using hne⟩
    · exact hm

/-- Settling the requests the sweep found, one after the other: each is still in flight
when its turn comes, as they carry pairwise different identifiers. -/
theorem settleAll (l : List (InFlight × Settled)) : ∀ y : Exchange, y.Slots →
    (y.server.inFlight.map (·.id)).Nodup → (∀ p ∈ l, p.1 ∈ y.server.inFlight) →
    (l.map (·.1.id)).Nodup →
    (l.foldl (fun y p => y.settle p.1 p.2) y).Slots ∧
      (l.foldl (fun y p => y.settle p.1 p.2) y).consumeLoop? = y.consumeLoop? := by
  induction l with
  | nil => exact fun y hy _ _ _ => ⟨hy, rfl⟩
  | cons p l ih =>
    intro y hy hnd hl hlnd
    simp only [List.map_cons, List.nodup_cons, List.mem_map] at hlnd
    have hp : p.1 ∈ y.server.inFlight := hl p (by simp)
    obtain ⟨hy', hl'⟩ := hy.settle hnd hp p.2
    refine (ih _ hy' (hnd.sublist ((settle_inFlight_sublist y p.1 p.2).map _)) (fun q hq => ?_)
      hlnd.2).imp_right fun h' => h'.trans hl'
    -- a later request, under another identifier, is still in flight
    have hid : q.1.id ≠ p.1.id := fun h' => hlnd.1 ⟨q, hq, h'⟩
    obtain ⟨sent, hub, core, -, heq⟩ := settle_eq y p.1 p.2 (List.mem_map_of_mem hp)
    rw [heq]
    exact List.mem_filter.2 ⟨hl q (by simp [hq]), by simpa using hid⟩

/-- The sweep keeps the accounting and the loops. -/
theorem sweep (h : x.Slots) (hx : x.Serving) :
    x.sweep.2.Slots ∧ x.sweep.2.consumeLoop? = x.consumeLoop? := by
  rw [sweep_eq x hx.channels_nodup]
  refine settleAll _ _ (h.aside rfl rfl rfl rfl rfl (List.Subset.refl _) le_rfl) hx.ids_nodup ?_ ?_
  · intro p hp
    obtain ⟨e, he, hep⟩ := List.mem_filterMap.1 hp
    obtain ⟨s, -, rfl⟩ := Option.map_eq_some_iff.1 hep
    exact he
  · -- the entries found ready, in the order of the table
    have hsub := (found_sublist x.server.results x.core.now x.server.inFlight).map InFlight.id
    rw [List.map_map] at hsub
    exact hx.ids_nodup.sublist hsub

/-- The tasks and the next number after the sweep's stop: the handlers of the requests in
flight go. -/
theorem abandonInFlight_tasks (x : Exchange) :
    x.abandonInFlight.tasks = x.tasks.filter (fun p => p.1 ∉ x.server.inFlight.map InFlight.task) ∧
      x.abandonInFlight.nextTask = x.nextTask := by
  obtain ⟨core, -, heq⟩ := abandonInFlight_eq x
  obtain ⟨core', -, heq'⟩ := foldl_releaseSlot x.server.inFlight
    { x with
      server := { x.server with closing := true, inFlight := [] }
      tasks := x.tasks.filter (fun p => p.1 ∉ x.server.inFlight.map InFlight.task)
      core }
  rw [heq, heq']
  exact ⟨rfl, rfl⟩

/-- The sweep's stop drops every request in flight with its handler, which runs no loop. -/
theorem abandonInFlight (h : x.Slots) :
    x.abandonInFlight.Slots ∧ x.abandonInFlight.consumeLoop? = x.consumeLoop? := by
  obtain ⟨ht, hn⟩ := abandonInFlight_tasks x
  refine h.drop (ht ▸ List.filter_sublist) (fun i l hm => ?_) h.slots.abandonInFlight hn.ge
  -- no request in flight runs under the number of a loop
  have hnot : i ∉ x.server.inFlight.map InFlight.task := by
    intro hi
    obtain ⟨e, he, rfl⟩ := List.mem_map.1 hi
    have hn' := (h.slots.entries e he).1
    rw [h.ids.consumeLoop?_eq_some_iff.2 hm] at hn'
    cases hn'
  rw [ht]
  exact List.mem_filter.2 ⟨hm, by simpa using hnot⟩

/-- The sweep task keeps the accounting and the loops, on every tick and when it stops. -/
theorem sweepRun (h : x.Slots) (hx : x.Serving) (id : Nat) (p : PeriodicLoop) :
    (Exchange.sweepRun id p x).2.Slots ∧ (Exchange.sweepRun id p x).2.consumeLoop? = x.consumeLoop? := by
  unfold Exchange.sweepRun periodicRun
  -- the relation every turn moves along: the server's invariant, the accounting, the loops
  have hrun := runTurns_frame (S := fun _ _ => True) (n := 10000) (a := p) (x := x)
    (R := fun x y => x.Serving ∧ x.Slots → y.Serving ∧ y.Slots ∧ y.consumeLoop? = x.consumeLoop?)
    (fun h₁ h₂ h => (h₂ ⟨(h₁ h).1, (h₁ h).2.1⟩).imp_right fun h' =>
      h'.imp_right fun h'' => h''.trans (h₁ h).2.2)
    (fun _ _ => trivial)
    (fun p' y => ⟨(periodicTurn_frame_of_queue id x.pollInterval false (fun x => some x.stop)
      (fun x w => { x with stop := w }) (fun x => x.sweep.2) Exchange.abandonInFlight
      (R := fun x y => x.Serving ∧ x.Slots → y.Serving ∧ y.Slots ∧ y.consumeLoop? = x.consumeLoop?)
      (fun h₁ h₂ h => (h₂ ⟨(h₁ h).1, (h₁ h).2.1⟩).imp_right fun h' =>
        h'.imp_right fun h'' => h''.trans (h₁ h).2.2)
      (fun _ h => ⟨h.1, h.2, rfl⟩)
      (fun _ _ h => ⟨h.1.quiet (.of_server_eq rfl rfl rfl rfl rfl),
        h.2.aside rfl rfl rfl rfl rfl (List.Subset.refl _) le_rfl, rfl⟩)
      (fun _ c hc h => ⟨h.1.core c, h.2.aside rfl rfl rfl rfl rfl hc.queue le_rfl, rfl⟩)
      (fun _ h => ⟨h.1.sweep, h.2.sweep h.1⟩)
      (fun _ h => ⟨h.1.abandonInFlight, h.2.abandonInFlight⟩) p' y).1, fun _ _ => trivial⟩)
    (fun h => ⟨h.1, h.2, rfl⟩) trivial
  exact (hrun.1 ⟨hx, h⟩).2

/-! ### The other tasks -/

/-- A handler changes its channel and the clock only. -/
theorem handlerRun (h : x.Slots) (id : Nat) (hd : Handler) :
    (Exchange.handlerRun id hd x).2.Slots ∧
      (Exchange.handlerRun id hd x).2.consumeLoop? = x.consumeLoop? := by
  have ho := onward_handlerRun x id hd (.refl x)
  rcases handlerRun_ends x id hd with ⟨ph, core, hr⟩ | ⟨core, hr⟩ | ⟨core, a, hr⟩ <;> rw [hr] at ho ⊢
  · exact ⟨h.aside rfl rfl rfl rfl rfl ho.queue.queue ho.next, consumeLoop?_of_tasks rfl⟩
  · exact ⟨h.aside rfl rfl rfl rfl rfl ho.queue.queue ho.next, consumeLoop?_of_tasks rfl⟩
  · -- the answer goes to its channel
    obtain ⟨core', -, heq⟩ := answerOn_eq { x with core } hd.result a
    rw [heq] at ho ⊢
    exact ⟨h.aside rfl rfl rfl rfl rfl ho.queue.queue ho.next, consumeLoop?_of_tasks rfl⟩

/-- A listener leaves the server and the tasks. -/
theorem listenRun (h : x.Slots) (id n : Nat) (l : Listener) :
    (Exchange.listenRun id n l x).2.Slots ∧
      (Exchange.listenRun id n l x).2.consumeLoop? = x.consumeLoop? := by
  have hoff : Offstage x (Exchange.listenRun id n l x).2 := by
    unfold Exchange.listenRun
    exact (runTurns_frame (R := Offstage) (S := fun _ _ => True) Offstage.trans (fun _ _ => trivial)
      (fun l' y => ⟨⟨(listenTurn_frame y id l').1, (listenTurn_frame y id l').2.1⟩, fun _ _ => trivial⟩)
      n l x .refl trivial).1
  exact ⟨h.offstage hoff (onward_listenRun x (.refl x) id n l), consumeLoop?_of_tasks hoff.2⟩

/-- The evictor leaves the server and the tasks. -/
theorem evictRun (h : x.Slots) (id : Nat) (p : PeriodicLoop) :
    (Exchange.evictRun id p x).2.Slots ∧
      (Exchange.evictRun id p x).2.consumeLoop? = x.consumeLoop? := by
  have hoff : Offstage x (Exchange.evictRun id p x).2 := by
    unfold Exchange.evictRun periodicRun
    exact (runTurns_frame (R := Offstage) (S := fun _ _ => True) Offstage.trans (fun _ _ => trivial)
      (fun p' y => ⟨(periodicTurn_frame id x.pollInterval true (fun x => x.client.map (·.stop))
        setClientStop evictWaiters (fun x => x) (R := Offstage) Offstage.trans (fun _ => .refl)
        (fun _ _ => ⟨by simp, by simp⟩) (fun _ _ => ⟨rfl, rfl⟩) (fun _ => ⟨by simp, by simp⟩)
        (fun _ => .refl) p' y).1, fun _ _ => trivial⟩) 10000 p x .refl trivial).1
  exact ⟨h.offstage hoff (onward_evictRun x (.refl x) id p), consumeLoop?_of_tasks hoff.2⟩

/-- A poll of the scheduler: a consume loop runs as `Exchange.Runs` says and is stored;
every other task keeps the accounting and the loops. -/
theorem pollTask (h : x.Slots) (hx : x.Serving) (id : Nat) :
    (({ x with core := { x.core with queue := x.core.queue.erase id } } : Exchange).pollTask id).Slots := by
  have hs := h.slots.erase id
  have hx' := hx.core { x.core with queue := x.core.queue.erase id }
  generalize hy : ({ x with core := { x.core with queue := x.core.queue.erase id } } : Exchange) = y
    at hs hx' ⊢
  have hty : y.tasks = x.tasks := by rw [← hy]
  have hyl : y.consumeLoop? = x.consumeLoop? := consumeLoop?_of_tasks hty
  have hyi : y.TaskIds := h.ids.of_tasks_eq hty (by rw [← hy])
  -- every task but a consume loop leaves no permit waiting for it
  have hother : y.consumeLoop? id = none → y.Slots := fun hid => by
    rw [← hy] at hid ⊢
    exact h.erase (hyl ▸ hid)
  cases ht : y.task? id with
  | none =>
    rw [pollTask_none ht]
    exact hother (by simp [consumeLoop?, ht])
  | some t =>
    have hid : y.consumeLoop? id = t.consume? := by simp [consumeLoop?, ht]
    cases t with
    | consume l =>
      rw [pollTask_consume ht]
      have hr : y.Runs y.consumeLoop? id (some l) (· = id) := by
        refine ⟨hyi, rfl, ?_⟩
        rw [Function.update_eq_self_iff.2 hid.symm, hyl]
        exact hs
      exact (hr.run 9999).store hid
    | sweep p =>
      rw [pollTask_sweep ht]
      obtain ⟨hs', hl⟩ := (hother hid).sweepRun hx' id p
      exact hs'.storeAs ((congrFun hl id).trans hid) Task.sweep (fun _ => rfl) _
    | handler hd =>
      rw [pollTask_handler ht]
      obtain ⟨hs', hl⟩ := (hother hid).handlerRun id hd
      exact hs'.storeAs ((congrFun hl id).trans hid) Task.handler (fun _ => rfl) _
    | listen l =>
      rw [pollTask_listen ht]
      obtain ⟨hs', hl⟩ := (hother hid).listenRun id 10000 l
      exact hs'.storeAs ((congrFun hl id).trans hid) Task.listen (fun _ => rfl) _
    | evict p =>
      rw [pollTask_evict ht]
      obtain ⟨hs', hl⟩ := (hother hid).evictRun id p
      exact hs'.storeAs ((congrFun hl id).trans hid) Task.evict (fun _ => rfl) _

/-! ### The caller's actions -/

/-- Starting the server starts consume loops holding nothing, and the sweep. -/
theorem startServer (h : x.Slots) : x.startServer.2.Slots := by
  unfold Exchange.startServer
  dsimp only
  refine Slots.spawn ?_ (by simp [Task.consume?])
  apply List.foldlRecOn (motive := fun acc : List Nat × Exchange => acc.2.Slots)
  · exact h.aside rfl rfl rfl rfl rfl (List.Subset.refl _) le_rfl
  · intro acc hacc p _
    split
    · refine Slots.note (Slots.spawn ?_ ?_) _
      · exact hacc.aside rfl rfl rfl rfl rfl (List.Subset.refl _) le_rfl
      · intro l hl
        obtain rfl := Option.mem_some_iff.1 hl
        rfl
    · exact hacc

/-- Starting the client starts its listeners and its evictor. -/
theorem startClient (h : x.Slots) (replyTopic : String) (timeout : Nat) :
    (x.startClient replyTopic timeout).Slots := by
  unfold Exchange.startClient
  dsimp only
  refine Slots.spawn ?_ (by simp [Task.consume?])
  apply List.foldlRecOn (motive := Slots)
  · exact h.aside rfl rfl rfl rfl rfl (List.Subset.refl _) le_rfl
  · intro y hy p _
    split
    · refine Slots.spawn ?_ ?_
      · exact hy.aside rfl rfl rfl rfl rfl (List.Subset.refl _) le_rfl
      · simp [Task.consume?]
    · exact hy

/-- Every step of a run keeps the accounting. -/
theorem step (h : x.Slots) (hx : x.Serving) (hs : Step x y) : y.Slots := by
  -- the caller's moves that touch neither the server, the tasks nor the run queue
  have hrest : ∀ z : Exchange, z.server = x.server → z.tasks = x.tasks →
      z.core.queue = x.core.queue → z.nextTask = x.nextTask → z.Slots := fun z hs ht hq hn =>
    h.aside (by rw [hs]) (by rw [hs]) (by rw [hs]) (by rw [hs]) ht (hq ▸ List.Subset.refl _) hn.ge
  cases hs with
  | poll id => exact h.pollTask hx id
  | main =>
    have hm := hrest { x with core := { x.core with mainWoken := false } } rfl rfl rfl rfl
    exact hm.offstage (pollMain_offstage _) (onward_pollMain _ (.refl _))
  | tick t => exact h.aside rfl rfl rfl rfl rfl (Core.queueGrows_fire (x.core.advanceTo t)).queue le_rfl
  | sleep ms => exact hrest _ rfl rfl rfl rfl
  | join ids => exact hrest _ rfl rfl rfl rfl
  | idle => exact hrest _ rfl rfl rfl rfl
  | send topic key value =>
    have hsend : (x.send topic key value).2 =
        (x.publish topic key value).2.note (.sent topic key value) := rfl
    rw [hsend]
    exact h.aside rfl rfl rfl rfl rfl (Hub.queueGrows_publish x.hub x.core topic key value).queue le_rfl
  | startServer => exact h.startServer
  | startClient replyTopic timeout _ => exact h.startClient replyTopic timeout
  | sends reqs =>
    have hb := h.offstage (beginSends_offstage x reqs) (onward_beginSends x (.refl x) reqs)
    dsimp only
    split
    · exact hb
    · exact hb.aside rfl rfl rfl rfl rfl (List.Subset.refl _) le_rfl
  | stopClient =>
    have ho := onward_stopClient x (.refl x)
    unfold Exchange.stopClient at ho ⊢
    split
    · exact h
    · exact h.aside rfl rfl rfl rfl rfl (Core.queueGrows_wakeAll _ _).queue le_rfl
  | requestStop =>
    unfold Exchange.requestStop
    generalize x.stop.send = p
    obtain ⟨stop, ws⟩ := p
    exact h.aside rfl rfl rfl rfl rfl (Core.queueGrows_wakeAll x.core ws).queue le_rfl
  | dropStop =>
    unfold Exchange.dropStop
    generalize x.stop.close = p
    obtain ⟨stop, ws⟩ := p
    exact h.aside rfl rfl rfl rfl rfl (Core.queueGrows_wakeAll x.core ws).queue le_rfl
  | close =>
    unfold Exchange.closeBroker
    have hq := Hub.queueGrows_close x.hub x.core
    generalize x.hub.close x.core = p at hq
    obtain ⟨hub, core⟩ := p
    exact h.aside rfl rfl rfl rfl rfl hq.queue le_rfl
  | sweep => exact (h.sweep hx).1
  | backend b => exact hrest _ rfl rfl rfl rfl
  | directory d => exact hrest _ rfl rfl rfl rfl
  | createTopic name n => exact hrest _ rfl rfl rfl rfl
  | partitions name => exact hrest _ rfl rfl rfl rfl

end Slots

/-- A new exchange has every permit free and runs no task. -/
theorem slots_create (config : TransportConfig) (group : String) (broker : Broker)
    (backend : Backend) : (create config group broker backend).Slots where
  ids := ⟨by simp [create], by simp [create]⟩
  slots :=
    { keyed := ⟨by simp [create, Semaphore.create], by simp [create, Semaphore.create]⟩
      total := by simp [create, Semaphore.create, Semaphore.handed]
      owned := by simp [create, Semaphore.create]
      woken := by simp [create, Semaphore.create]
      holding := fun id l hl => by simp [consumeLoop?, task?, create] at hl
      entries := by simp [create]
      fresh := fun id _ => by simp [consumeLoop?, task?, create]
      cleared := by simp [create] }

/-- Every reachable exchange has its slots accounted for. -/
theorem Reachable.slots {x : Exchange} (hx : x.Reachable) : x.Slots := by
  induction hx with
  | create config group partitions retention backend => exact slots_create _ _ _ _
  | step hr hs ih => exact ih.step hr.serving hs

/-! ### What the limit means for a run -/

/-- A loop holding a record, when the semaphore has no permit for it and no stop was
asked for, waits on: it keeps its record and its commit tick. -/
theorem consumeAcquire_waits {x : Exchange} {id : Nat} {l : ConsumeLoop} (record : BusRecord)
    (reg : Option Nat) {slot : Option Nat} (hno : (x.server.slots.poll slot (.task id)).1.1 = false)
    (hstop : x.stop.stopRequested l.seen = false) :
    ∃ seen reg' slot' stop s, consumeAcquire id l record reg slot x =
      .stop (some { l with seen, phase := .acquiring record reg' slot' })
        { x with stop, server := { x.server with slots := s } } := by
  rw [consumeAcquire]
  split
  next _ chg seen reg' st hpoll =>
  -- no stop: the watch reports no change
  have hchg : chg = none := by
    have := (Watch.poll_change x.stop l.seen reg (.task id)).1
    rw [hpoll, hstop] at this
    simpa using this
  subst hchg
  rw [if_neg (by simp)]
  split
  next _ ok slot' slots hsem =>
  have hok : ok = false := by
    rw [hsem] at hno
    exact hno
  subst hok
  exact ⟨seen, reg', slot', st, slots, rfl⟩

/-- A loop holding a record, polled while the semaphore has no permit for it and no stop
was asked for, reads nothing from the bus and records nothing: it still holds its record,
waiting for a slot. -/
theorem pollTask_acquiring {x : Exchange} (hx : x.TaskIds) {id : Nat} {l : ConsumeLoop}
    (hm : (id, Task.consume l) ∈ x.tasks) (hl : l.Holding) {record : BusRecord}
    {reg slot : Option Nat} (hp : l.phase = .acquiring record reg slot)
    (hno : (x.server.slots.poll slot (.task id)).1.1 = false)
    (hstop : x.stop.stopRequested l.seen = false) :
    let y := ({ x with core := { x.core with queue := x.core.queue.erase id } } : Exchange).pollTask id
    y.hub = x.hub ∧ y.history = x.history ∧
      ∃ l', (id, Task.consume l') ∈ y.tasks ∧ l'.held = true ∧
        ∃ reg' slot', l'.phase = .acquiring record reg' slot' := by
  -- holding a record, the loop has made its commit tick
  have hhold := hl
  simp only [ConsumeLoop.Holding, hp] at hhold
  obtain ⟨iv, hiv⟩ := Option.isSome_iff_exists.1 hhold.2
  set z : Exchange := { x with core := { x.core with queue := x.core.queue.erase id } } with hz
  have ht : z.task? id = some (.consume l) := (hx.of_tasks_eq rfl le_rfl).task?_eq_some_iff.2 hm
  obtain ⟨seen, reg', slot', st, s, heq⟩ := consumeAcquire_waits (x := z) record reg hno hstop
  have hturn : consumeTurn id l z = consumeAcquire id l record reg slot z := by
    unfold consumeTurn
    simp only [hiv, hp]
  rw [pollTask_consume ht, consumeRun, show (10000 : Nat) = 9999 + 1 from rfl, runTurns, hturn, heq]
  refine ⟨rfl, rfl, { l with seen, phase := .acquiring record reg' slot' }, ?_, hhold.1, reg', slot', rfl⟩
  exact List.mem_map.2 ⟨(id, .consume l), hm, by simp⟩

/-- What the pending limit `maxPending` means for an exchange. -/
structure PendingBound (x : Exchange) : Prop where
  /-- At most `maxPending` requests are in flight. -/
  inFlight_le : x.server.inFlight.length ≤ x.server.config.maxPending
  /-- Free permits, permits handed to waiting loops and requests in flight make up the
  limit: no loop keeps a permit past the turn it took it in. -/
  total : x.server.slots.permits + x.server.slots.handed + x.server.inFlight.length =
    x.server.config.maxPending
  /-- Every handler task runs for a request in flight, on its channel, or was left running
  with no request by a dispatch whose deadline fell past the clock's range. -/
  handlers : ∀ id h, (id, Task.handler h) ∈ x.tasks →
    (∃ e ∈ x.server.inFlight, e.task = id ∧ e.result = h.result) ∨
      ∃ t task rec, (t, Event.dispatched task rec (.overflowed id h.result)) ∈ x.history
  /-- So at most `maxPending` handlers run at once, besides those left running so. -/
  handlers_le : (x.tasks.filter (·.2.isHandler)).length ≤
    x.server.config.maxPending + (overflowsOf x.history).length
  /-- With every task idle, the free permits and the requests in flight make up the
  limit. -/
  idle : x.core.queue = [] →
    x.server.slots.permits + x.server.inFlight.length = x.server.config.maxPending
  /-- A loop holds a record exactly while it waits for a slot. -/
  holding : ∀ id l, (id, Task.consume l) ∈ x.tasks → l.Holding
  /-- Every wait for a slot is that of a loop holding a record, under the key its phase
  names. -/
  waiters : ∀ w ∈ x.server.slots.waiters, ∃ id l record reg, (id, Task.consume l) ∈ x.tasks ∧
    w.2.1 = .task id ∧ l.phase = .acquiring record reg (some w.1)
  /-- A loop holding a record, polled while the semaphore has no permit for it and no stop
  was asked for, reads nothing from the bus and records nothing: it still holds its
  record. -/
  polls : ∀ id l record reg slot, (id, Task.consume l) ∈ x.tasks →
    l.phase = .acquiring record reg slot → (x.server.slots.poll slot (.task id)).1.1 = false →
    x.stop.stopRequested l.seen = false →
    let y := ({ x with core := { x.core with queue := x.core.queue.erase id } } : Exchange).pollTask id
    y.hub = x.hub ∧ y.history = x.history ∧
      ∃ l', (id, Task.consume l') ∈ y.tasks ∧ l'.held = true ∧
        ∃ reg' slot', l'.phase = .acquiring record reg' slot'
  /-- Once the sweep stopped, nothing is in flight, and with every task idle every permit
  is free. -/
  stopped : x.server.closing = true → x.server.inFlight = [] ∧
    (x.core.queue = [] → x.server.slots.permits = x.server.config.maxPending)

namespace Slots

variable {x : Exchange}

/-- With every task idle no permit is handed to a waiter: its loop would be queued. -/
theorem handed_of_idle (h : x.Slots) (hq : x.core.queue = []) : x.server.slots.handed = 0 := by
  refine List.countP_eq_zero.2 fun w hw hh => ?_
  obtain ⟨id, -, -, -, ho, -, -⟩ := h.slots.owned w hw
  rcases h.slots.woken w hw (by simpa using hh) id ho with hid | hf
  · rw [hq] at hid
    cases hid
  · exact hf

/-- No more handlers run than requests are in flight and dispatches stopped at a deadline
past the clock's range: each runs under the number of its own request, or the history
records it left running. -/
theorem handlers_le (h : x.Slots) (hx : x.Serving) :
    (x.tasks.filter (·.2.isHandler)).length ≤
      x.server.inFlight.length + (overflowsOf x.history).length := by
  have hsub : (x.tasks.filter (·.2.isHandler)).map (·.1) ⊆
      x.server.inFlight.map (·.task) ++ overflowsOf x.history := by
    intro i hi
    obtain ⟨⟨id, t⟩, hp, rfl⟩ := List.mem_map.1 hi
    obtain ⟨hp, hh⟩ := List.mem_filter.1 hp
    cases t with
    | handler hd =>
      rcases hx.handlers id hd hp with hl | ho
      · obtain ⟨e, he, -, het⟩ := hl.entry
        exact List.mem_append_left _ (List.mem_map.2 ⟨e, he, het⟩)
      · obtain ⟨t, task, rec, hm⟩ := ho.overflowed
        exact List.mem_append_right _ (List.mem_filterMap.2 ⟨_, hm, rfl⟩)
    | _ => simp [Task.isHandler] at hh
  have hnd : ((x.tasks.filter (·.2.isHandler)).map (·.1)).Nodup :=
    h.ids.nodup.sublist (List.filter_sublist.map _)
  calc (x.tasks.filter (·.2.isHandler)).length
      = ((x.tasks.filter (·.2.isHandler)).map (·.1)).length := (List.length_map _).symm
    _ ≤ (x.server.inFlight.map (·.task) ++ overflowsOf x.history).length :=
      hnd.length_le_of_subset hsub
    _ = x.server.inFlight.length + (overflowsOf x.history).length := by simp

/-- The accounting of a serving exchange bounds what is pending. -/
theorem pendingBound_of_serving (h : x.Slots) (hx : x.Serving) : x.PendingBound where
  inFlight_le := by
    have := h.slots.total
    omega
  total := by simpa using h.slots.total
  handlers id hd hm := by
    rcases hx.handlers id hd hm with hl | ho
    · obtain ⟨e, he, hr, ht⟩ := hl.entry
      exact .inl ⟨e, he, ht, hr⟩
    · exact .inr ho.overflowed
  handlers_le := by
    have := h.slots.total
    have := h.handlers_le hx
    omega
  idle hq := by
    have := h.slots.total
    have := h.handed_of_idle hq
    omega
  holding id l hm := h.slots.holding id l (h.ids.consumeLoop?_eq_some_iff.2 hm)
  waiters w hw := by
    obtain ⟨id, l, record, reg, ho, hl, hph⟩ := h.slots.owned w hw
    exact ⟨id, l, record, reg, h.ids.consumeLoop?_eq_some_iff.1 hl, ho, hph⟩
  polls id l record reg slot hm hp hno hstop :=
    pollTask_acquiring h.ids hm (h.slots.holding id l (h.ids.consumeLoop?_eq_some_iff.2 hm)) hp hno hstop
  stopped hc := by
    have hnil := h.slots.cleared hc
    refine ⟨hnil, fun hq => ?_⟩
    have htotal := h.slots.total
    have hh := h.handed_of_idle hq
    rw [hnil, List.length_nil] at htotal
    omega

end Slots

/-- Every reachable exchange keeps within its pending limit. -/
theorem Reachable.pendingBound {x : Exchange} (hx : x.Reachable) : x.PendingBound :=
  hx.slots.pendingBound_of_serving hx.serving

/-- A server with a request in flight keeps within its limit of one, which the request
takes. -/
theorem pendingBound_in_flight : ∃ x : Exchange, x.Reachable ∧ x.PendingBound ∧
    x.server.inFlight.length = 1 ∧ x.server.config.maxPending = 1 := by
  -- the consume loop (task 0) dispatches the request, whose handler has not run yet
  have hx := ((((Reachable.create ⟨"requests", "responses", 1, .ofMillis 10000, .ofMillis 10,
      .ofMillis 50⟩ "group" 1 100 (Backend.ofRegistry Registry.empty)).step (.startServer _)).step
    (.send _ "requests" none (Envelope.encode Request.toValue
      (Envelope.request ⟨0, 1⟩ (.validateDeviceToken "a") "replies" 0)))).step (.poll _ 0))
  exact ⟨_, hx, Reachable.pendingBound hx, by decide +kernel, by decide +kernel⟩

/-- Without the overflows the handlers' bound fails: with a limit of one, two partitions
and a request timeout of three hundred billion years, past the clock's range from its
start, each consume loop starts a handler for its request, and neither request is in
flight. -/
theorem handlers_exceed_limit : ∃ x : Exchange, x.Reachable ∧ x.server.inFlight = [] ∧
    x.server.config.maxPending < (x.tasks.filter (·.2.isHandler)).length := by
  -- the requests go to partitions 1 and 0, read by the consume loops 1 and 0
  have hx := ((((((Reachable.create ⟨"requests", "responses", 1,
      .ofMillis (300000000000 * 31557600 * 1000), .ofMillis 10, .ofMillis 50⟩ "group" 2 100
      (Backend.ofRegistry Registry.empty)).step (.startServer _)).step
    (.send _ "requests" (some "a") (Envelope.encode Request.toValue
      (Envelope.request ⟨0, 1⟩ (.validateDeviceToken "a") "replies" 0)))).step
    (.send _ "requests" (some "b") (Envelope.encode Request.toValue
      (Envelope.request ⟨0, 2⟩ (.validateDeviceToken "a") "replies" 0)))).step (.poll _ 0)).step
    (.poll _ 1))
  exact ⟨_, hx, by decide +kernel, by decide +kernel⟩

end Exchange

end TokenGate
