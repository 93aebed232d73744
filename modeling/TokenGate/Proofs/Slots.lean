import Mathlib
import TokenGate.Proofs.Invariance
import TokenGate.Proofs.Wakeups
/-!
# `TokenGate.Proofs.Slots`: the permits of the pending limit

The server admits at most `maxPending` requests at once. A consume loop holding a record
takes a permit of the semaphore `slots` and hands the record to `dispatch` in the same
turn; the permit then stays with the request in flight until the sweep settles or drops
it, or goes back at once when `dispatch` skips or drops the record. A permit released
while loops wait goes straight to the oldest waiter, whose loop is woken.

`Exchange.SlotsBy` is the accounting of the permits at one moment, for a view `loop` of
the consume loops (the loop each task number runs):

* free permits, permits handed to waiting loops, requests in flight and the `held` permits
  a running loop took for a record it has not yet handed on add up to the limit;
* every waiter is the wait of a loop holding a record, under the key its phase names;
* a waiter handed a permit has its loop queued to run, unless that loop is running now;
* a consume loop holds a record exactly while it waits for a slot (`ConsumeLoop.Holding`);
* no request in flight runs under the number of a consume loop, and the numbers not yet
  given out run no loop;
* once the sweep stopped, nothing is in flight.

`Exchange.Slots` is that accounting for the loops the exchange stores, with its task
numbers pairwise different (`Exchange.TaskIds`). This module proves what each operation
of the server does to the accounting: returning a permit, taking one, waiting for one,
giving up the wait, `dispatch`, settling, the sweep and its stop.
-/

set_option autoImplicit false

namespace TokenGate

open Sched

/-- After giving up the wait under key `k`, every waiter was a waiter before under another
key, with its owner; one that now holds a permit held it before or was just woken. -/
theorem Sched.Semaphore.mem_abandon {s : Semaphore} (hk : s.Keyed) {k : Nat}
    {w : Nat × Waker × Bool} (hw : w ∈ (s.abandon (some k)).1.waiters) :
    ∃ w₀ ∈ s.waiters, w₀.1 ≠ k ∧ w.1 = w₀.1 ∧ w.2.1 = w₀.2.1 ∧
      (w.2.2 = true → w₀.2.2 = true ∨ w.2.1 ∈ (s.abandon (some k)).2) := by
  rw [Semaphore.abandon_eq] at hw ⊢
  by_cases hany : s.waiters.any (fun e => e.1 == k && e.2.2) = true
  · -- the permit it was handed goes on to the next waiter
    simp only [hany, ite_true] at hw ⊢
    obtain ⟨w₁, hw₁, h₁, h₂, h₃⟩ := Semaphore.mem_release (hk.filter k) hw
    obtain ⟨hw₁, hne⟩ := List.mem_filter.1 hw₁
    exact ⟨w₁, hw₁, by simpa using hne, h₁, h₂, h₃⟩
  · simp only [hany, Bool.false_eq_true, ite_false] at hw ⊢
    obtain ⟨hw', hne⟩ := List.mem_filter.1 hw
    exact ⟨w, hw', by simpa using hne, rfl, rfl, fun h => .inl h⟩

/-- The consume loop a task runs, if it is one. -/
def Task.consume? : Task → Option ConsumeLoop
  | .consume l => some l
  | _ => none

/-- Whether a task is a handler. -/
def Task.isHandler : Task → Bool
  | .handler _ => true
  | _ => false

/-- A consume loop holds a record exactly while it waits for a slot, and it waits for one
only once its first turn made its commit tick. -/
def ConsumeLoop.Holding (l : ConsumeLoop) : Prop :=
  match l.phase with
  | .acquiring .. => l.held = true ∧ l.commitTick.isSome = true
  | _ => l.held = false

/-- The key a loop waits for a slot under, if it waits under one. -/
def ConsumePhase.slotReg : ConsumePhase → Option Nat
  | .acquiring _ _ slot => slot
  | _ => none

namespace Exchange

/-- The consume loop task `id` runs, if it runs one. -/
def consumeLoop? (x : Exchange) (id : Nat) : Option ConsumeLoop := (x.task? id).bind Task.consume?

/-- Tasks carry pairwise different numbers, each below the next number to give out. -/
structure TaskIds (x : Exchange) : Prop where
  nodup : (x.tasks.map (·.1)).Nodup
  lt : ∀ p ∈ x.tasks, p.1 < x.nextTask

/-- The consume loops only depend on the tasks. -/
theorem consumeLoop?_of_tasks {x y : Exchange} (h : y.tasks = x.tasks) :
    y.consumeLoop? = x.consumeLoop? := by
  funext i
  simp only [consumeLoop?, task?, h]

namespace TaskIds

variable {x y : Exchange}

/-- With pairwise different numbers, the task found under a number is the one stored
under it. -/
theorem task?_eq_some_iff (hx : x.TaskIds) {id : Nat} {t : Task} :
    x.task? id = some t ↔ (id, t) ∈ x.tasks := by
  refine ⟨mem_tasks_of_task?, fun hm => ?_⟩
  -- the first task stored under `id` is this one, as no other has its number
  cases hp : x.tasks.find? (·.1 == id) with
  | none => exact absurd (List.find?_eq_none.1 hp (id, t) hm) (by simp)
  | some p =>
    have hp₁ : p.1 = id := by simpa using List.find?_some hp
    have : p = (id, t) := List.inj_on_of_nodup_map hx.nodup (List.mem_of_find?_eq_some hp) hm hp₁
    simp [task?, hp, this]

theorem consumeLoop?_eq_some_iff (hx : x.TaskIds) {id : Nat} {l : ConsumeLoop} :
    x.consumeLoop? id = some l ↔ (id, .consume l) ∈ x.tasks := by
  rw [← hx.task?_eq_some_iff]
  unfold consumeLoop?
  cases x.task? id with
  | none => simp
  | some t => cases t <;> simp [Task.consume?]

/-- Two exchanges storing the same consume loops under a number agree on that number. -/
theorem consumeLoop?_congr (hx : x.TaskIds) (hy : y.TaskIds) {i : Nat}
    (h : ∀ l, (i, Task.consume l) ∈ y.tasks ↔ (i, Task.consume l) ∈ x.tasks) :
    y.consumeLoop? i = x.consumeLoop? i := by
  cases hxi : x.consumeLoop? i with
  | some l => exact hy.consumeLoop?_eq_some_iff.2 ((h l).2 (hx.consumeLoop?_eq_some_iff.1 hxi))
  | none =>
    cases hyi : y.consumeLoop? i with
    | none => rfl
    | some l =>
      have := hx.consumeLoop?_eq_some_iff.2 ((h l).1 (hy.consumeLoop?_eq_some_iff.1 hyi))
      rw [hxi] at this
      cases this

/-- Dropping tasks keeps the numbers apart. -/
theorem of_sublist (hx : x.TaskIds) (h : y.tasks.Sublist x.tasks) (hn : x.nextTask ≤ y.nextTask) :
    y.TaskIds :=
  ⟨hx.nodup.sublist (h.map _), fun p hp => lt_of_lt_of_le (hx.lt p (h.subset hp)) hn⟩

/-- Tasks started under new numbers, pairwise different, keep the numbers apart. -/
theorem of_append (hx : x.TaskIds) {new : List (Nat × Task)} (ht : y.tasks = x.tasks ++ new)
    (hnd : (new.map (·.1)).Nodup) (hnew : ∀ p ∈ new, x.nextTask ≤ p.1 ∧ p.1 < y.nextTask)
    (hn : x.nextTask ≤ y.nextTask) : y.TaskIds := by
  refine ⟨?_, fun p hp => ?_⟩
  · rw [ht, List.map_append, List.nodup_append]
    refine ⟨hx.nodup, hnd, fun a ha b hb hab => ?_⟩
    obtain ⟨p, hp, rfl⟩ := List.mem_map.1 ha
    obtain ⟨q, hq, rfl⟩ := List.mem_map.1 hb
    have := hx.lt p hp
    have := (hnew q hq).1
    omega
  · rw [ht] at hp
    rcases List.mem_append.1 hp with hp | hp
    · exact lt_of_lt_of_le (hx.lt p hp) hn
    · exact (hnew p hp).2

/-- Storing a task's state keeps the numbers. -/
theorem setTask_ids (x : Exchange) (id : Nat) (t : Task) :
    (x.setTask id t).tasks.map (·.1) = x.tasks.map (·.1) := by
  simp only [setTask, List.map_map]
  refine List.map_congr_left fun p _ => ?_
  simp only [Function.comp_apply]
  split
  · rename_i h
    exact (beq_iff_eq.1 h).symm
  · rfl

theorem setTask (hx : x.TaskIds) (id : Nat) (t : Task) : (x.setTask id t).TaskIds := by
  refine ⟨by rw [setTask_ids]; exact hx.nodup, fun p hp => ?_⟩
  have : p.1 ∈ x.tasks.map (·.1) := by
    rw [← setTask_ids x id t]
    exact List.mem_map_of_mem hp
  obtain ⟨q, hq, hqp⟩ := List.mem_map.1 this
  rw [← hqp]
  exact hx.lt q hq

theorem endTask (hx : x.TaskIds) (id : Nat) : (x.endTask id).TaskIds :=
  hx.of_sublist (by simp) (by
    obtain ⟨core, h⟩ := x.endTask_eq id
    rw [h])

theorem of_tasks_eq (hx : x.TaskIds) (ht : y.tasks = x.tasks) (hn : x.nextTask ≤ y.nextTask) :
    y.TaskIds :=
  hx.of_sublist (ht ▸ List.Sublist.refl _) hn

/-- Storing task `id`'s state changes the loop under `id` only. -/
theorem consumeLoop?_setTask (hx : x.TaskIds) {id : Nat} {t₀ : Task} (hid : (id, t₀) ∈ x.tasks)
    (t : Task) : (x.setTask id t).consumeLoop? = Function.update x.consumeLoop? id t.consume? := by
  have hy := hx.setTask id t
  funext i
  by_cases hi : i = id
  · subst hi
    -- the entry under `id` now holds `t`
    have hm : (i, t) ∈ (x.setTask i t).tasks :=
      List.mem_map.2 ⟨(i, t₀), hid, by simp⟩
    rw [Function.update_self, consumeLoop?, hy.task?_eq_some_iff.2 hm]
    rfl
  · rw [Function.update_of_ne hi]
    refine hx.consumeLoop?_congr hy (i := i) fun l => ⟨fun hm => ?_, fun hm => ?_⟩
    · obtain ⟨p, hp, hpe⟩ := List.mem_map.1 hm
      by_cases hp₁ : p.1 = id
      · simp only [hp₁, beq_self_eq_true, ite_true, Prod.mk.injEq] at hpe
        exact absurd hpe.1.symm hi
      · simp only [beq_iff_eq, hp₁, ite_false] at hpe
        rwa [hpe] at hp
    · exact List.mem_map.2 ⟨(i, .consume l), hm, by simp [hi]⟩

/-- Ending task `id` removes the loop under `id` only. -/
theorem consumeLoop?_endTask (hx : x.TaskIds) (id : Nat) :
    (x.endTask id).consumeLoop? = Function.update x.consumeLoop? id none := by
  have hy := hx.endTask id
  funext i
  by_cases hi : i = id
  · subst hi
    rw [Function.update_self]
    cases h : (x.endTask i).consumeLoop? i with
    | none => rfl
    | some l =>
      have := hy.consumeLoop?_eq_some_iff.1 h
      simp at this
  · rw [Function.update_of_ne hi]
    exact hx.consumeLoop?_congr hy (i := i) fun l => by simp [hi]

/-- `dispatch` keeps the task numbers apart and the consume loops as they are: the handler
it starts takes the next number, and one it stops at once leaves nothing behind. -/
theorem dispatch (hx : x.TaskIds) (rec : BusRecord) :
    (x.dispatch rec).2.TaskIds ∧ (x.dispatch rec).2.consumeLoop? = x.consumeLoop? := by
  have hsame : ∀ z : Exchange, z.tasks = x.tasks → x.nextTask ≤ z.nextTask →
      z.TaskIds ∧ z.consumeLoop? = x.consumeLoop? :=
    fun z ht hn => ⟨hx.of_tasks_eq ht hn, consumeLoop?_of_tasks ht⟩
  have hgrow : ∀ (z : Exchange) (t : Task), t.consume? = none →
      z.tasks = x.tasks ++ [(x.nextTask, t)] → x.nextTask < z.nextTask →
      z.TaskIds ∧ z.consumeLoop? = x.consumeLoop? := by
    intro z t hc ht hn
    have hz : z.TaskIds := hx.of_append ht (by simp) (by simpa using hn) hn.le
    refine ⟨hz, funext fun i => hx.consumeLoop?_congr hz fun l => ?_⟩
    rw [ht, List.mem_append, List.mem_singleton]
    refine ⟨fun hm => hm.resolve_right fun hm => ?_, .inl⟩
    -- the new task runs no loop
    simp only [Prod.mk.injEq] at hm
    rw [← hm.2] at hc
    cases hc
  rcases x.dispatch_cases rec with
    ⟨-, hd⟩ | ⟨env, hdec, ⟨-, hd⟩ | ⟨-, -, hd⟩ | ⟨hnot, hin, hcl, -⟩ | ⟨hnot, -, hcl, hd⟩⟩
  · rw [hd]
    exact hsame _ rfl le_rfl
  · rw [hd]
    exact hsame _ rfl le_rfl
  · -- overflowed: the handler started under the next number runs on
    rw [hd]
    exact hgrow _ (.handler _) rfl rfl (Nat.lt_succ_self _)
  · -- dropped: the handler started under the next number is stopped at once
    unfold Exchange.dispatch
    rw [hdec]
    dsimp only
    rw [if_neg (by simpa using hnot)]
    simp only [count, spawn]
    split
    · next hnone => exact absurd (by simpa using hnone) hin
    simp only [hcl, ite_true]
    apply hsame
    · simp only [releaseSlot_tasks, abortHandler_tasks, List.filter_append]
      rw [List.filter_eq_self.2 fun p hp => by simpa using (hx.lt p hp).ne]
      simp
    · rw [abortHandler_core]
      exact Nat.le_succ _
  · rw [hd]
    exact hgrow _ (.handler _) rfl rfl (Nat.lt_succ_self _)

end TaskIds

/-! ### The accounting -/

/-- The accounting of the server's slots, for the view `loop` of the consume loops (the
loop each task number runs), with the tasks `running` exempt from being queued and `held`
permits taken by a running loop for a record it has not yet handed on. -/
structure SlotsBy (x : Exchange) (loop : Nat → Option ConsumeLoop) (running : Nat → Prop)
    (held : Nat) : Prop where
  keyed : x.server.slots.Keyed
  /-- Free permits, permits handed to waiters, requests in flight and held permits make the
  limit. -/
  total : x.server.slots.permits + x.server.slots.handed + x.server.inFlight.length + held =
    x.server.config.maxPending
  /-- Every waiter is the wait of a loop holding a record, under the key its phase names. -/
  owned : ∀ w ∈ x.server.slots.waiters, ∃ id l record reg, w.2.1 = .task id ∧
    loop id = some l ∧ l.phase = .acquiring record reg (some w.1)
  /-- A waiter handed a permit has its loop queued, or running. -/
  woken : ∀ w ∈ x.server.slots.waiters, w.2.2 = true → ∀ id, w.2.1 = .task id →
    id ∈ x.core.queue ∨ running id
  holding : ∀ id l, loop id = some l → l.Holding
  /-- No request in flight runs under the number of a consume loop. -/
  entries : ∀ e ∈ x.server.inFlight, loop e.task = none ∧ e.task < x.nextTask
  fresh : ∀ id, x.nextTask ≤ id → loop id = none
  /-- Once the sweep stopped, nothing is in flight. -/
  cleared : x.server.closing = true → x.server.inFlight = []

/-- No waiter of task `id` was handed a permit. -/
def Unhanded (x : Exchange) (id : Nat) : Prop :=
  ∀ w ∈ x.server.slots.waiters, w.2.2 = true → w.2.1 ≠ .task id

/-- What every reachable exchange keeps of its slots: the accounting for the consume loops
it stores, no running loop holding a permit, and its task numbers pairwise different. -/
structure Slots (x : Exchange) : Prop where
  ids : x.TaskIds
  slots : x.SlotsBy x.consumeLoop? (fun _ => False) 0

/-- Taking the one request of an identifier off a table of pairwise different identifiers
shortens it by one. -/
theorem length_filter_entry {l : List InFlight} (hnd : (l.map (·.id)).Nodup) {e : InFlight}
    (he : e.id ∈ l.map (·.id)) : (l.filter (·.id != e.id)).length + 1 = l.length := by
  have hone : (l.map (·.id)).count e.id = 1 := List.count_eq_one_of_mem hnd he
  rw [List.count, List.countP_map, List.countP_eq_length_filter] at hone
  rw [List.length_eq_length_filter_add (l := l) (fun f : InFlight => f.id != e.id), ← hone]
  congr 2
  exact List.filter_congr fun f _ => by simp [bne]

/-- Settling leaves at most the requests that were in flight. -/
theorem settle_inFlight_sublist (x : Exchange) (e : InFlight) (s : Settled) :
    (x.settle e s).server.inFlight.Sublist x.server.inFlight := by
  by_cases he : e.id ∈ x.server.inFlight.map (·.id)
  · obtain ⟨sent, hub, core, -, heq⟩ := settle_eq x e s he
    rw [heq]
    exact List.filter_sublist
  · unfold Exchange.settle
    rw [if_pos (by simpa using he)]

namespace SlotsBy

variable {x y : Exchange} {L : Nat → Option ConsumeLoop} {r : Nat → Prop} {k : Nat}

/-- The accounting across a move: a semaphore whose waiters all waited before, under their
keys and owners, each handed a permit only if it held one before or is woken now; requests
only leaving the table; the free, handed, in-flight and held permits still making the same
sum; the run queue only growing, with the woken tasks on it; the task numbers moving on. -/
theorem move (h : x.SlotsBy L r k) {s : Semaphore} {ws : List Waker} {k' : Nat}
    (hs : y.server.slots = s) (hkeyed : s.Keyed)
    (hfrom : ∀ w ∈ s.waiters, ∃ w₀ ∈ x.server.slots.waiters, w.1 = w₀.1 ∧ w.2.1 = w₀.2.1 ∧
      (w.2.2 = true → w₀.2.2 = true ∨ w.2.1 ∈ ws))
    (hi : y.server.inFlight ⊆ x.server.inFlight)
    (htotal : s.permits + s.handed + y.server.inFlight.length + k' =
      x.server.slots.permits + x.server.slots.handed + x.server.inFlight.length + k)
    (hm : y.server.config.maxPending = x.server.config.maxPending)
    (hc : y.server.closing = true → x.server.closing = true ∨ y.server.inFlight = [])
    (hq : x.core.queue ⊆ y.core.queue) (hws : ∀ i, Waker.task i ∈ ws → i ∈ y.core.queue)
    (hn : x.nextTask ≤ y.nextTask) : y.SlotsBy L r k' where
  keyed := hs ▸ hkeyed
  total := by
    have := h.total
    rw [hs, hm]
    omega
  owned w hw := by
    rw [hs] at hw
    obtain ⟨w₀, hw₀, hk, ho, -⟩ := hfrom w hw
    obtain ⟨id, l, record, reg, hid, hl, hph⟩ := h.owned w₀ hw₀
    exact ⟨id, l, record, reg, ho.trans hid, hl, hk ▸ hph⟩
  woken w hw hh id ho := by
    rw [hs] at hw
    obtain ⟨w₀, hw₀, -, ho', hh'⟩ := hfrom w hw
    rcases hh' hh with hh₀ | hws'
    · exact (h.woken w₀ hw₀ hh₀ id (ho'.symm.trans ho)).imp_left fun hq' => hq hq'
    · -- the waiter handed a permit now is woken with it
      exact .inl (hws id (ho ▸ hws'))
  holding := h.holding
  entries e he := ⟨(h.entries e (hi he)).1, lt_of_lt_of_le (h.entries e (hi he)).2 hn⟩
  fresh i hi' := h.fresh i (le_trans hn hi')
  cleared hcl := by
    rcases hc hcl with hx | hy
    · exact List.eq_nil_of_subset_nil (h.cleared hx ▸ hi)
    · exact hy

/-- A move that leaves the slots, the table, the limit and the closing flag, only adds to
the run queue and only moves the task numbers on keeps the accounting. -/
theorem frame (h : x.SlotsBy L r k) (hs : y.server.slots = x.server.slots)
    (hi : y.server.inFlight = x.server.inFlight)
    (hm : y.server.config.maxPending = x.server.config.maxPending)
    (hc : y.server.closing = x.server.closing) (hq : x.core.queue ⊆ y.core.queue)
    (hn : x.nextTask ≤ y.nextTask) : y.SlotsBy L r k :=
  h.move hs h.keyed (fun w hw => ⟨w, hw, rfl, rfl, fun hh => .inl hh⟩)
    (hi ▸ List.Subset.refl _) (by rw [hi]) hm (fun hcl => .inl (hc ▸ hcl)) hq
    (fun _ (hw : _ ∈ ([] : List Waker)) => absurd hw List.not_mem_nil) hn

/-- A move that leaves the server and goes onward keeps the accounting. -/
theorem onward (h : x.SlotsBy L r k) (hs : y.server = x.server) (ho : Onward x y) :
    y.SlotsBy L r k :=
  h.frame (by rw [hs]) (by rw [hs]) (by rw [hs]) (by rw [hs]) ho.queue.queue ho.next

/-- Changing the semaphore keeps the accounting, when its free and handed permits and the
held ones still make the same sum, and every waiter after was a waiter before, under its
key and owner, handed a permit only if it was handed one before or is woken now. -/
theorem semaphore (h : x.SlotsBy L r k) (s : Semaphore) (ws : List Waker) (k' : Nat)
    (hkeyed : s.Keyed)
    (htotal : s.permits + s.handed + k' = x.server.slots.permits + x.server.slots.handed + k)
    (hfrom : ∀ w ∈ s.waiters, ∃ w₀ ∈ x.server.slots.waiters, w.1 = w₀.1 ∧ w.2.1 = w₀.2.1 ∧
      (w.2.2 = true → w₀.2.2 = true ∨ w.2.1 ∈ ws)) :
    ({ x with server := { x.server with slots := s } }.wakeAll ws).SlotsBy L r k' :=
  h.move rfl hkeyed hfrom (List.Subset.refl _) (by simp only [wakeAll_server]; omega) rfl
    (fun hcl => .inl hcl) (Core.queueGrows_wakeAll _ _).queue
    (fun i hw => Core.mem_queue_wakeAll _ _ _ hw) le_rfl

/-- A permit given back goes to the oldest waiter, who is woken, or to the free ones. -/
theorem releaseSlot (h : x.SlotsBy L r (k + 1)) : x.releaseSlot.SlotsBy L r k := by
  have htotal := Semaphore.release_total h.keyed
  exact h.semaphore x.server.slots.release.1 x.server.slots.release.2 k h.keyed.release (by omega)
    fun w hw => Semaphore.mem_release h.keyed hw

/-- The running loop `id` may be seen anew, as `l?`, when each waiter of `id` is under the
key the new phase names and the new loop holds a record exactly while it waits. -/
theorem relabel {id : Nat} {l : ConsumeLoop} (h : x.SlotsBy (Function.update L id (some l)) r k)
    (l? : Option ConsumeLoop)
    (hown : ∀ w ∈ x.server.slots.waiters, w.2.1 = .task id →
      ∃ l' record reg, l? = some l' ∧ l'.phase = .acquiring record reg (some w.1))
    (hhold : ∀ l' ∈ l?, l'.Holding) : x.SlotsBy (Function.update L id l?) r k where
  keyed := h.keyed
  total := h.total
  owned w hw := by
    obtain ⟨i, l₀, record, reg, hi, hl₀, hph⟩ := h.owned w hw
    by_cases hid : i = id
    · subst hid
      obtain ⟨l', record', reg', rfl, hph'⟩ := hown w hw hi
      exact ⟨i, l', record', reg', hi, by simp, hph'⟩
    · exact ⟨i, l₀, record, reg, hi, by rwa [Function.update_of_ne hid] at hl₀ ⊢, hph⟩
  woken := h.woken
  holding i l' hl' := by
    by_cases hid : i = id
    · subst hid
      exact hhold l' (by simpa using hl')
    · exact h.holding i l' (by rwa [Function.update_of_ne hid] at hl' ⊢)
  entries e he := by
    obtain ⟨hn, hlt⟩ := h.entries e he
    -- the running loop is not a request in flight
    have hne : e.task ≠ id := by
      rintro rfl
      simp at hn
    exact ⟨by rwa [Function.update_of_ne hne] at hn ⊢, hlt⟩
  fresh i hi := by
    have hne : i ≠ id := by
      rintro rfl
      simpa using h.fresh i hi
    rw [Function.update_of_ne hne]
    simpa [Function.update_of_ne hne] using h.fresh i hi
  cleared := h.cleared

/-- The waiters of the running loop `id` wait under the key its phase names. -/
theorem key_of_owner {id : Nat} {l : ConsumeLoop} (h : x.SlotsBy (Function.update L id (some l)) r k)
    {record : BusRecord} {reg slot : Option Nat} (hl : l.phase = .acquiring record reg slot)
    {w : Nat × Waker × Bool} (hw : w ∈ x.server.slots.waiters) (ho : w.2.1 = .task id) :
    slot = some w.1 := by
  obtain ⟨i, l₀, record', reg', hi, hl₀, hph⟩ := h.owned w hw
  obtain rfl : i = id := Waker.task.inj (hi.symm.trans ho)
  obtain rfl : l₀ = l := by simpa using hl₀.symm
  rw [hl] at hph
  exact (ConsumePhase.acquiring.inj hph).2.2

/-- A loop that stops while it waits for a slot gives up its wait: its waiter goes, and a
permit it was handed goes on to the next waiter or back to the free ones. The loop, gone,
leaves no waiter. -/
theorem abandon {id : Nat} {l : ConsumeLoop} (h : x.SlotsBy (Function.update L id (some l)) r k)
    {record : BusRecord} {reg slot : Option Nat} (hl : l.phase = .acquiring record reg slot) :
    ({ x with server := { x.server with slots := (x.server.slots.abandon slot).1 } }.wakeAll
        (x.server.slots.abandon slot).2).SlotsBy (Function.update L id none) r k ∧
      ∀ w ∈ (x.server.slots.abandon slot).1.waiters, w.2.1 ≠ .task id := by
  have hnone : ∀ w ∈ (x.server.slots.abandon slot).1.waiters, w.2.1 ≠ .task id := by
    intro w hw ho
    cases slot with
    | none => exact absurd (h.key_of_owner hl hw ho) (by simp)
    | some k' =>
      obtain ⟨w₀, hw₀, hne, -, ho', -⟩ := Semaphore.mem_abandon h.keyed hw
      exact hne (Option.some.inj (h.key_of_owner hl hw₀ (ho'.symm.trans ho))).symm
  have hfrom : ∀ w ∈ (x.server.slots.abandon slot).1.waiters, ∃ w₀ ∈ x.server.slots.waiters,
      w.1 = w₀.1 ∧ w.2.1 = w₀.2.1 ∧ (w.2.2 = true → w₀.2.2 = true ∨ w.2.1 ∈ (x.server.slots.abandon slot).2) := by
    intro w hw
    cases slot with
    | none => exact ⟨w, hw, rfl, rfl, fun h => .inl h⟩
    | some k' =>
      obtain ⟨w₀, hw₀, -, h₁, h₂, h₃⟩ := Semaphore.mem_abandon h.keyed hw
      exact ⟨w₀, hw₀, h₁, h₂, h₃⟩
  have htotal := Semaphore.abandon_total h.keyed slot
  have hs := h.semaphore _ _ k (h.keyed.abandon slot) (by omega) hfrom
  exact ⟨hs.relabel none (fun w hw ho => absurd ho (hnone w hw)) (by simp), hnone⟩

/-- A new waiter at the back of the queue, under the next key, for a loop whose phase
names that key, keeps the accounting. -/
theorem register (h : x.SlotsBy L r k) {id : Nat} {l : ConsumeLoop} (hl : L id = some l)
    {record : BusRecord} {reg : Option Nat}
    (hph : l.phase = .acquiring record reg (some x.server.slots.nextKey)) :
    { x with server := { x.server with slots := { x.server.slots with
        waiters := x.server.slots.waiters ++ [(x.server.slots.nextKey, Waker.task id, false)],
        nextKey := x.server.slots.nextKey + 1 } } }.SlotsBy L r k where
  keyed := by
    refine ⟨?_, fun w hw => ?_⟩
    · rw [List.map_append, List.nodup_append]
      refine ⟨h.keyed.nodup, by simp, fun a ha b hb hab => ?_⟩
      obtain ⟨w, hw, rfl⟩ := List.mem_map.1 ha
      simp only [List.map_cons, List.map_nil, List.mem_singleton] at hb
      have := h.keyed.lt w hw
      omega
    · rcases List.mem_append.1 hw with hw | hw
      · exact Nat.lt_succ_of_lt (h.keyed.lt w hw)
      · simp only [List.mem_singleton] at hw
        subst hw
        exact Nat.lt_succ_self _
  total := by
    have := h.total
    simp only [Semaphore.handed, List.countP_append] at this ⊢
    simp only [List.countP_singleton]
    simpa using this
  owned w hw := by
    rcases List.mem_append.1 hw with hw | hw
    · exact h.owned w hw
    · simp only [List.mem_singleton] at hw
      subst hw
      exact ⟨id, l, record, reg, rfl, hl, hph⟩
  woken w hw hh := by
    rcases List.mem_append.1 hw with hw | hw
    · exact h.woken w hw hh
    · simp only [List.mem_singleton] at hw
      subst hw
      cases hh
  holding := h.holding
  entries := h.entries
  fresh := h.fresh
  cleared := h.cleared

/-- A loop handed its permit, or finding a free one, takes it and holds it until it hands
its record on. The loop has no waiter left. -/
theorem take {id : Nat} {l : ConsumeLoop} (h : x.SlotsBy (Function.update L id (some l)) r k)
    {record : BusRecord} {reg slot slot' : Option Nat} (hl : l.phase = .acquiring record reg slot)
    {s : Semaphore} (hpoll : x.server.slots.poll slot (.task id) = ((true, slot'), s)) :
    { x with server := { x.server with slots := s } }.SlotsBy (Function.update L id (some l)) r (k + 1) ∧
      ∀ w ∈ s.waiters, w.2.1 ≠ .task id := by
  rcases Semaphore.poll_cases x.server.slots slot (.task id) with
    ⟨k₀, rfl, hany, hpoll'⟩ | ⟨rfl, hpos, hpoll'⟩ | ⟨k₀, rfl, -, hpoll'⟩ | ⟨rfl, -, hpoll'⟩
  · -- the waiter under `k₀` was handed a permit: it goes, and the loop holds the permit
    obtain rfl : s = { x.server.slots with waiters := x.server.slots.waiters.filter (·.1 != k₀) } :=
      (congrArg Prod.snd (hpoll.symm.trans hpoll'))
    have hcount := Semaphore.countP_filter_key h.keyed.nodup k₀
    simp only [hany, ite_true] at hcount
    refine ⟨h.semaphore _ [] (k + 1) (h.keyed.filter k₀) (by simp only [Semaphore.handed]; omega)
      fun w hw => ⟨w, (List.mem_filter.1 hw).1, rfl, rfl, fun h => .inl h⟩, ?_⟩
    intro w hw ho
    obtain ⟨hw', hne⟩ := List.mem_filter.1 hw
    have := Option.some.inj (h.key_of_owner hl hw' ho)
    simp [this] at hne
  · -- a free permit: the loop has no waiter
    obtain rfl : s = { x.server.slots with permits := x.server.slots.permits - 1 } :=
      (congrArg Prod.snd (hpoll.symm.trans hpoll'))
    refine ⟨h.semaphore { x.server.slots with permits := x.server.slots.permits - 1 } [] (k + 1)
      ⟨h.keyed.nodup, h.keyed.lt⟩ (by simp only [Semaphore.handed]; omega)
      fun w hw => ⟨w, hw, rfl, rfl, fun h => .inl h⟩, ?_⟩
    intro w hw ho
    exact absurd (h.key_of_owner hl hw ho) (by simp)
  · cases congrArg (·.1.1) (hpoll.symm.trans hpoll')
  · cases congrArg (·.1.1) (hpoll.symm.trans hpoll')

/-- A loop that finds no permit for it waits: under the key it waited under, or under a
new key at the back of the queue. Its waiter holds no permit. -/
theorem wait {id : Nat} {l : ConsumeLoop} (h : x.SlotsBy (Function.update L id (some l)) r k)
    {record : BusRecord} {reg slot slot' : Option Nat} (hl : l.phase = .acquiring record reg slot)
    {s : Semaphore} (hpoll : x.server.slots.poll slot (.task id) = ((false, slot'), s))
    (seen : Nat) (reg' : Option Nat) :
    { x with server := { x.server with slots := s } }.SlotsBy
        (Function.update L id (some { l with seen, phase := .acquiring record reg' slot' })) r k ∧
      { x with server := { x.server with slots := s } }.Unhanded id := by
  -- the loop still holds its record, with its commit tick
  have hhold : ({ l with seen, phase := .acquiring record reg' slot' } : ConsumeLoop).Holding := by
    have := h.holding id l (by simp)
    simp only [ConsumeLoop.Holding, hl] at this
    exact this
  rcases Semaphore.poll_cases x.server.slots slot (.task id) with
    ⟨k₀, rfl, -, hpoll'⟩ | ⟨rfl, -, hpoll'⟩ | ⟨k₀, rfl, hany, hpoll'⟩ | ⟨rfl, -, hpoll'⟩
  · cases congrArg (·.1.1) (hpoll.symm.trans hpoll')
  · cases congrArg (·.1.1) (hpoll.symm.trans hpoll')
  · -- still waiting under `k₀`, not handed a permit yet
    obtain ⟨rfl, rfl⟩ : slot' = some k₀ ∧ s = x.server.slots := by
      have := hpoll.symm.trans hpoll'
      simp only [Prod.mk.injEq] at this
      exact ⟨this.1.2, this.2⟩
    refine ⟨(h.relabel _ (fun w hw ho => ⟨_, record, reg', rfl, by
      rw [h.key_of_owner hl hw ho]⟩) (by simpa using hhold)).frame rfl rfl rfl rfl
        (List.Subset.refl _) le_rfl, ?_⟩
    intro w hw hh ho
    have hk := Option.some.inj (h.key_of_owner hl hw ho)
    have := List.any_eq_false.1 hany w hw
    simp [hk, hh] at this
  · -- a new waiter under the next key, at the back of the queue
    obtain ⟨rfl, rfl⟩ : slot' = some x.server.slots.nextKey ∧
        s = { x.server.slots with
          waiters := x.server.slots.waiters ++ [(x.server.slots.nextKey, Waker.task id, false)],
          nextKey := x.server.slots.nextKey + 1 } := by
      have := hpoll.symm.trans hpoll'
      simp only [Prod.mk.injEq] at this
      exact ⟨this.1.2, this.2⟩
    have hnone : ∀ w ∈ x.server.slots.waiters, w.2.1 ≠ .task id := fun w hw ho =>
      absurd (h.key_of_owner hl hw ho) (by simp)
    refine ⟨(h.relabel _ (fun w hw ho => absurd ho (hnone w hw)) (by simpa using hhold)).register
      (l := { l with seen, phase := .acquiring record reg' (some x.server.slots.nextKey) }) (by simp) rfl, ?_⟩
    intro w hw hh ho
    rcases List.mem_append.1 hw with hw | hw
    · exact hnone w hw ho
    · simp only [List.mem_singleton] at hw
      subst hw
      cases hh

/-- `dispatch` hands on the permit held for its record: to the request it puts in flight,
or back to the semaphore when it skips the record or drops it after the sweep stopped. -/
theorem dispatch (h : x.SlotsBy L r (k + 1)) (rec : BusRecord) : (x.dispatch rec).2.SlotsBy L r k := by
  have hskip : x.skipped.SlotsBy L r k := by
    unfold skipped
    exact SlotsBy.releaseSlot (h.frame rfl rfl rfl rfl (List.Subset.refl _) le_rfl)
  rcases x.dispatch_cases rec with
    ⟨-, hd⟩ | ⟨env, hdec, ⟨-, hd⟩ | ⟨-, -, hd⟩ | ⟨hnot, hin, hcl, -⟩ | ⟨hnot, -, hcl, hd⟩⟩
  · rw [hd]
    exact hskip
  · rw [hd]
    exact hskip
  · -- overflowed: the permit goes back, nothing is in flight
    rw [hd]
    refine SlotsBy.releaseSlot (h.frame rfl rfl rfl rfl ?_ (Nat.le_succ _))
    exact (Core.queueGrows_wake x.core _).queue
  · -- dropped: its handler starts under the next number and stops at once
    unfold Exchange.dispatch
    rw [hdec]
    dsimp only
    rw [if_neg (by simpa using hnot)]
    simp only [count, spawn]
    split
    · next hnone => exact absurd (by simpa using hnone) hin
    simp only [hcl, ite_true]
    refine SlotsBy.releaseSlot (h.frame (by simp) (by simp) (by simp) (by simp [hcl]) ?_ ?_)
    · have hq : ∀ (y : Exchange) n, y.core = x.core.wake (.task x.nextTask) →
          x.core.queue ⊆ (y.abortHandler n).core.queue := fun y n hy =>
        ((Core.queueGrows_wake x.core _).trans (hy ▸ queueGrows_abortHandler y n)).queue
      exact hq _ _ rfl
    · rw [abortHandler_core]
      exact Nat.le_succ _
  · -- admitted: the permit goes with the request, whose handler takes the next number
    rw [hd]
    exact {
      keyed := h.keyed
      total := by
        have := h.total
        simp only [List.length_append, List.length_singleton]
        omega
      owned := h.owned
      woken := fun w hw hh id ho =>
        (h.woken w hw hh id ho).imp_left fun hq => (Core.queueGrows_wake _ _).queue hq
      holding := h.holding
      entries := fun e he => by
        rcases List.mem_append.1 he with he | he
        · exact ⟨(h.entries e he).1, Nat.lt_succ_of_lt (h.entries e he).2⟩
        · simp only [List.mem_singleton] at he
          subst he
          exact ⟨h.fresh _ le_rfl, Nat.lt_succ_self _⟩
      fresh := fun i hi => h.fresh i (Nat.le_of_succ_le hi)
      cleared := fun hc => by simp [hcl] at hc }

/-- A loop whose phase names no key has no waiter. -/
theorem noWaiter {id : Nat} {l? : Option ConsumeLoop} (h : x.SlotsBy (Function.update L id l?) r k)
    (hl : ∀ l ∈ l?, l.phase.slotReg = none) : ∀ w ∈ x.server.slots.waiters, w.2.1 ≠ .task id := by
  intro w hw ho
  obtain ⟨i, l, record, reg, hi, hl', hph⟩ := h.owned w hw
  obtain rfl : i = id := Waker.task.inj (hi.symm.trans ho)
  rw [Function.update_self] at hl'
  have := hl l hl'
  rw [hph] at this
  cases this

/-- A running loop none of whose waiters was handed a permit may stop running. -/
theorem unhanded {id : Nat} (h : x.SlotsBy L (· = id) k) (hu : x.Unhanded id) :
    x.SlotsBy L (fun _ => False) k :=
  { h with
    woken := fun w hw hh i ho => (h.woken w hw hh i ho).imp_right fun (hi : i = id) =>
      hu w hw hh (hi ▸ ho) }

/-- The scheduler takes task `id` off the queue to run it: a permit handed to `id` is now
waiting for `id`'s run. -/
theorem erase (h : x.SlotsBy L (fun _ => False) k) (id : Nat) :
    ({ x with core := { x.core with queue := x.core.queue.erase id } } : Exchange).SlotsBy L (· = id) k :=
  { h with
    woken := fun w hw hh i ho => by
      rcases h.woken w hw hh i ho with hq | hf
      · by_cases hi : i = id
        · exact .inr hi
        · exact .inl ((List.mem_erase_of_ne hi).2 hq)
      · exact hf.elim }

/-- Settling a request in flight takes it off the table and gives its permit back. -/
theorem settle (h : x.SlotsBy L r k) (hnd : (x.server.inFlight.map (·.id)).Nodup) (e : InFlight)
    (s : Settled) : (x.settle e s).SlotsBy L r k := by
  by_cases he : e.id ∈ x.server.inFlight.map (·.id)
  · obtain ⟨sent, hub, core, hcore, heq⟩ := settle_eq x e s he
    have hlen := length_filter_entry hnd he
    have htotal := Semaphore.release_total h.keyed
    rw [heq]
    exact h.move rfl h.keyed.release (fun w hw => Semaphore.mem_release h.keyed hw)
      List.filter_sublist.subset (by simp only; omega) rfl (fun hcl => .inl hcl)
      (List.Subset.trans hcore.queue (Core.queueGrows_wakeAll core _).queue)
      (fun i hw => Core.mem_queue_wakeAll core _ i hw) le_rfl
  · unfold Exchange.settle
    rw [if_pos (by simpa using he)]
    exact h

/-- Permits given back one after the other. -/
theorem releaseAll {β : Type} (l : List β) : ∀ y : Exchange, y.SlotsBy L r (k + l.length) →
    (l.foldl (fun y _ => y.releaseSlot) y).SlotsBy L r k := by
  induction l with
  | nil => exact fun y hy => hy
  | cons b l ih =>
    intro y hy
    rw [List.length_cons, ← Nat.add_assoc] at hy
    exact ih _ hy.releaseSlot

/-- The sweep stopping drops every request in flight and gives all their permits back. -/
theorem abandonInFlight (h : x.SlotsBy L r k) : x.abandonInFlight.SlotsBy L r k := by
  obtain ⟨core, hcore, heq⟩ := abandonInFlight_eq x
  rw [heq]
  refine SlotsBy.onward ?_ ?hs ((Onward.refl _).note _)
  case hs => rfl
  apply releaseAll
  -- the requests leave the table first, their permits held
  exact h.move rfl h.keyed (fun w hw => ⟨w, hw, rfl, rfl, fun hh => .inl hh⟩)
    (List.nil_subset _) (by simp only [List.length_nil]; omega) rfl (fun _ => .inr rfl) hcore.queue
    (fun _ (hw : _ ∈ ([] : List Waker)) => absurd hw List.not_mem_nil) le_rfl

end SlotsBy

/-- A consume loop's wait, from a loop holding nothing, leaves a loop that holds a record
only while it waits for a slot, and then under no key. -/
theorem consumeWait_holding {x : Exchange} {id : Nat} {l : ConsumeLoop} (hl : l.held = false)
    (iv : Interval) (reg : Option Nat) (fw : Option FetchWait) :
    ∀ l' ∈ (consumeWait id l iv reg fw x).state?, l'.Holding ∧ l'.phase.slotReg = none := by
  rw [consumeWait]
  split
  next _ chg seen reg' w hpoll =>
  extract_lets y₁ l₁
  split
  · simp [Turn.state?]
  · split
    next _ ready iv' core hiv =>
    extract_lets y₂ l₂
    split
    · simp [Turn.state?, ConsumeLoop.Holding, ConsumePhase.slotReg, l₂, l₁, hl]
    · split
      · simp [Turn.state?]
      · split
        next _ st y₃ hfetch =>
        extract_lets l₃
        split
        · simp [Turn.state?, ConsumeLoop.Holding, ConsumePhase.slotReg, l₃, l₂, l₁, hl]
        · split <;> simp [Turn.state?, ConsumeLoop.Holding, ConsumePhase.slotReg, l₃, l₂, l₁, hl]

/-! ### A consume loop's run -/

/-- Loop `id` runs, now as `l?` (`none` once it ended), while the exchange still stores the
loops `L`; the tasks `running` are exempt from being queued. -/
structure Runs (x : Exchange) (L : Nat → Option ConsumeLoop) (id : Nat) (l? : Option ConsumeLoop)
    (running : Nat → Prop) : Prop where
  ids : x.TaskIds
  loops : x.consumeLoop? = L
  slots : x.SlotsBy (Function.update L id l?) running 0

/-- What a turn of loop `id` keeps: going on as `l`, the loop runs and waits for a slot
under no key; stopping, it no longer runs. -/
def TurnRuns (L : Nat → Option ConsumeLoop) (id : Nat) (t : Turn ConsumeLoop) : Prop :=
  t.Keeps (fun l y => y.Runs L id (some l) (· = id) ∧ l.phase.slotReg = none)
    (fun l? y => y.Runs L id l? (fun _ => False))

namespace Runs

variable {x y : Exchange} {L : Nat → Option ConsumeLoop} {id : Nat} {l : ConsumeLoop}
  {l? : Option ConsumeLoop} {r : Nat → Prop}

/-- A move that leaves the server and the tasks and goes onward keeps the run. -/
theorem quiet (h : x.Runs L id l? r) (hs : y.server = x.server) (ht : y.tasks = x.tasks)
    (ho : Onward x y) : y.Runs L id l? r where
  ids := h.ids.of_tasks_eq ht ho.next
  loops := (consumeLoop?_of_tasks ht).trans h.loops
  slots := h.slots.onward hs ho

/-- A loop without waiters may take any state that holds a record only while it waits. -/
theorem relabel (h : x.Runs L id (some l) r) (hw : ∀ w ∈ x.server.slots.waiters, w.2.1 ≠ .task id)
    (l' : Option ConsumeLoop) (hl : ∀ l₁ ∈ l', l₁.Holding) : x.Runs L id l' r :=
  ⟨h.ids, h.loops, h.slots.relabel l' (fun w hw' ho => absurd ho (hw w hw')) hl⟩

/-- A loop none of whose waiters was handed a permit stops running. -/
theorem yield (h : x.Runs L id l? (· = id)) (hu : x.Unhanded id) : x.Runs L id l? (fun _ => False) :=
  ⟨h.ids, h.loops, h.slots.unhanded hu⟩

/-- A running loop waiting under no key may stop running. -/
theorem yield_of_slotReg (h : x.Runs L id l? (· = id)) (hl : ∀ l₁ ∈ l?, l₁.phase.slotReg = none) :
    x.Runs L id l? (fun _ => False) :=
  h.yield fun w hw _ => h.slots.noWaiter hl w hw

/-- A turn that leaves the server and the tasks and goes onward, from a loop waiting under
no key to states that hold a record only while they wait, under no key, keeps the run. -/
theorem calm (h : x.Runs L id (some l) (· = id)) (hslot : l.phase.slotReg = none)
    {t : Turn ConsumeLoop} (hs : t.exchange.server = x.server) (ht : t.exchange.tasks = x.tasks)
    (ho : Onward x t.exchange) (hl : ∀ l' ∈ t.state?, l'.Holding ∧ l'.phase.slotReg = none) :
    TurnRuns L id t := by
  have hy := h.quiet hs ht ho
  have hw := hy.slots.noWaiter (by simpa using hslot)
  cases t with
  | next l' y =>
    have hl' := hl l' rfl
    exact ⟨hy.relabel hw (some l') (by simpa using hl'.1), hl'.2⟩
  | stop l' y =>
    exact (hy.relabel hw l' fun l₁ h₁ => (hl l₁ h₁).1).yield_of_slotReg fun l₁ h₁ => (hl l₁ h₁).2

/-- On its first turn the loop makes its commit tick; it held nothing before. -/
theorem firstTurn (h : x.Runs L id (some l) (· = id)) (hc : l.commitTick = none) (iv : Interval) :
    TurnRuns L id (.next { l with commitTick := some iv } x) := by
  -- without its commit tick the loop cannot be waiting for a slot
  have hl : ({ l with commitTick := some iv } : ConsumeLoop).Holding ∧ l.phase.slotReg = none := by
    have := h.slots.holding id l (by simp)
    cases hp : l.phase with
    | acquiring record reg slot => simp [ConsumeLoop.Holding, hp, hc] at this
    | waiting reg fw => simpa [ConsumeLoop.Holding, hp, ConsumePhase.slotReg] using this
    | pausing s => simpa [ConsumeLoop.Holding, hp, ConsumePhase.slotReg] using this
  exact h.calm hl.2 rfl rfl (.refl x) fun l' hl' => by
    cases hl'
    exact hl

/-- A loop resting after a failed fetch holds nothing and keeps the run. -/
theorem pauseTurn (h : x.Runs L id (some l) (· = id)) {s : Sleep} (hp : l.phase = .pausing s) :
    TurnRuns L id (consumePause id l s x) := by
  have hheld : l.held = false := by
    have := h.slots.holding id l (by simp)
    simpa [ConsumeLoop.Holding, hp] using this
  have hslot : l.phase.slotReg = none := by rw [hp]; rfl
  have hpoll := Sleep.queueGrows_poll s x.core (.task id)
  rw [consumePause]
  -- name the parts of the poll, so that no later check has to evaluate it
  generalize s.poll x.core (.task id) = r at hpoll ⊢
  obtain ⟨elapsed, s', core⟩ := r
  have ho := (Onward.refl x).of_core hpoll
  split
  · exact h.calm hslot rfl rfl ho (by simp [Turn.state?, ConsumeLoop.Holding, ConsumePhase.slotReg, hheld])
  · exact h.calm hslot rfl rfl ho (by simp [Turn.state?, ConsumeLoop.Holding, ConsumePhase.slotReg, hheld])

/-- A loop waiting for a stop, a tick or a record keeps the run: it takes at most a record,
with no slot yet. -/
theorem waitTurn (h : x.Runs L id (some l) (· = id)) {reg : Option Nat} {fw : Option FetchWait}
    (hp : l.phase = .waiting reg fw) (iv : Interval) : TurnRuns L id (consumeWait id l iv reg fw x) := by
  have hheld : l.held = false := by
    have := h.slots.holding id l (by simp)
    simpa [ConsumeLoop.Holding, hp] using this
  have hslot : l.phase.slotReg = none := by rw [hp]; rfl
  obtain ⟨hs, ht, -⟩ := consumeWait_frame x id l iv reg fw
  exact h.calm hslot hs ht (onward_consumeWait x id l (.refl x) iv reg fw)
    (consumeWait_holding hheld iv reg fw)

/-- A loop holding a record, when it runs: stopped, it gives up its wait for a slot, and a
permit it was handed goes on; handed a permit or finding a free one, it hands the record to
`dispatch` with the permit, or gives the permit back if a stop came meanwhile; otherwise it
waits on, its waiter holding no permit. -/
theorem acquireTurn (h : x.Runs L id (some l) (· = id)) {record : BusRecord} {reg slot : Option Nat}
    (hp : l.phase = .acquiring record reg slot) :
    TurnRuns L id (consumeAcquire id l record reg slot x) := by
  rw [consumeAcquire]
  split
  next _ chg seen reg' st hpoll =>
  extract_lets y₁ l₁
  have hy₁ : y₁.Runs L id (some l) (· = id) := h.quiet rfl rfl ⟨.refl _, le_rfl⟩
  split
  · -- a stop: the wait for a slot goes, and the loop ends
    split
    next slots ws hab =>
    obtain ⟨hs, -⟩ := hy₁.slots.abandon hp
    simp only [hab] at hs
    have hz : Runs ({ y₁ with server := { y₁.server with slots } }.wakeAll ws) L id none (· = id) :=
      ⟨hy₁.ids.of_tasks_eq rfl le_rfl, (consumeLoop?_of_tasks rfl).trans hy₁.loops, hs⟩
    exact (hz.quiet (by simp) (by simp) (onward_leaveConsume _ id l₁ (.refl _))).yield_of_slotReg
      (by simp)
  · split
    next _ ok slot' slots hpoll' =>
    extract_lets y₂ y₃
    split
    · next hok =>
      subst hok
      obtain ⟨hs, hnone⟩ := hy₁.slots.take hp hpoll'
      have hi₃ : y₃.TaskIds := hy₁.ids.of_tasks_eq rfl le_rfl
      have hl₃ : y₃.consumeLoop? = L := (consumeLoop?_of_tasks rfl).trans hy₁.loops
      split
      · -- a stop came meanwhile: the permit goes back
        have h₃ : y₃.SlotsBy (Function.update L id none) (· = id) 1 :=
          (hs.relabel none (fun w hw ho => absurd ho (hnone w hw)) (by simp)).frame rfl rfl rfl rfl
            (List.Subset.refl _) le_rfl
        have hz : y₃.releaseSlot.Runs L id none (· = id) :=
          ⟨hi₃.of_tasks_eq rfl le_rfl, (consumeLoop?_of_tasks rfl).trans hl₃, h₃.releaseSlot⟩
        exact (hz.quiet (by simp) (by simp) (onward_leaveConsume _ id l₁ (.refl _))).yield_of_slotReg
          (by simp)
      · -- the record goes to `dispatch`, with the permit
        split
        next adm y₄ hdisp =>
        have h₃ : y₃.SlotsBy
            (Function.update L id (some { l₁ with held := false, phase := .waiting none none }))
            (· = id) 1 :=
          (hs.relabel _ (fun w hw ho => absurd ho (hnone w hw))
            (by simp [ConsumeLoop.Holding])).frame rfl rfl rfl rfl (List.Subset.refl _) le_rfl
        have h₄ := h₃.dispatch record
        obtain ⟨hi₄, hl₄⟩ := hi₃.dispatch record
        rw [hdisp] at h₄ hi₄ hl₄
        have hr₄ : (y₄.note (.dispatched id record adm)).Runs L id
            (some { l₁ with held := false, phase := .waiting none none }) (· = id) :=
          ⟨hi₄.of_tasks_eq rfl le_rfl, (consumeLoop?_of_tasks rfl).trans (hl₄.trans hl₃),
            h₄.onward rfl ((Onward.refl y₄).note _)⟩
        split
        · -- a deadline past the clock's range: the loop stops, its permit given back
          have hw := hr₄.slots.noWaiter (by simp [ConsumePhase.slotReg])
          exact ((hr₄.relabel hw none (by simp)).quiet (by simp) (by simp)
            (onward_leaveConsume _ id _ (.refl _))).yield_of_slotReg (by simp)
        · exact ⟨hr₄, rfl⟩
    · next hok =>
      -- no permit yet: the loop waits on
      obtain rfl : ok = false := by simpa using hok
      obtain ⟨hs, hu⟩ := hy₁.slots.wait hp hpoll' seen reg'
      exact Runs.yield ⟨hy₁.ids.of_tasks_eq rfl le_rfl, (consumeLoop?_of_tasks rfl).trans hy₁.loops, hs⟩ hu

/-- Every turn of a consume loop keeps the run. -/
theorem turn (h : x.Runs L id (some l) (· = id)) : TurnRuns L id (consumeTurn id l x) := by
  unfold consumeTurn
  split
  · next hc => exact h.firstTurn hc _
  · next iv hc =>
    split
    · next s hp => exact h.pauseTurn hp
    · next reg fw hp => exact h.waitTurn hp iv
    · next record reg slot hp => exact h.acquireTurn hp

/-- A whole run of a loop leaves it no longer running: its first turn may take a permit
handed to it, and every later turn starts from a loop waiting under no key. -/
theorem run (h : x.Runs L id (some l) (· = id)) (n : Nat) :
    (consumeRun id (n + 1) l x).2.Runs L id (consumeRun id (n + 1) l x).1 (fun _ => False) := by
  have ht := h.turn
  unfold consumeRun
  rw [runTurns]
  split
  · next l' y heq =>
    rw [heq] at ht
    exact runTurns_keeps (P := fun l y => y.Runs L id (some l) (· = id) ∧ l.phase.slotReg = none)
      (Q := fun l? y => y.Runs L id l? (fun _ => False))
      (fun _ _ h₁ => h₁.1.yield_of_slotReg (by simpa using h₁.2)) (fun _ _ h₁ => h₁.1.turn) n ht
  · next l' y heq =>
    rw [heq] at ht
    exact ht

/-- Storing the loop's state after its run, or removing the loop once it ended, leaves the
exchange with its slots accounted for. -/
theorem store (h : x.Runs L id l? (fun _ => False)) {l₀ : ConsumeLoop} (hid : L id = some l₀) :
    (storeAs id Task.consume (l?, x)).Slots := by
  have hm : (id, Task.consume l₀) ∈ x.tasks := h.ids.consumeLoop?_eq_some_iff.1 (h.loops ▸ hid)
  cases l? with
  | none =>
    show (x.endTask id).Slots
    refine ⟨h.ids.endTask id, ?_⟩
    rw [h.ids.consumeLoop?_endTask, h.loops]
    exact h.slots.onward (by simp) (onward_endTask x (.refl x) id)
  | some l' =>
    show (x.setTask id (.consume l')).Slots
    refine ⟨h.ids.setTask id _, ?_⟩
    rw [h.ids.consumeLoop?_setTask hm, h.loops]
    exact h.slots.onward rfl (onward_setTask x (.refl x) id _)

end Runs

end Exchange

end TokenGate
