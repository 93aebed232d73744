import Mathlib
import TokenGate.Proofs.Sync
import TokenGate.Pending.Store
/-!
# `TokenGate.Proofs.Waiters`: what a table of waiting requests keeps

A caller registers a waiter for each request it sends; a response listener delivers the
response to it; the caller cancels it when it gives up; an eviction drops it once its
deadline has come. `PendingStore.Op` lists these operations, with the times they are made
at, together with a caller dropping its end of a channel, and `PendingStore.run` applies a
sequence of them to a table.

* `PendingStore.Sound`: one waiter per identifier, each on its own channel, opened before
  the table's next one. Every operation keeps it (`Sound.step`).
* `find?_run_of_some`: the waiter under an identifier stays, through operations that do
  not register the identifier again, until the first one that ends its wait
  (`Op.Closes`: a delivery or a cancellation for it, or an eviction at or after its
  deadline); `contains_run_iff` reads this back as a statement about the history.
* `get?_run_of_find?`: meanwhile its caller's channel stays as the registration opened it,
  but for the caller dropping its end.
* `deliver_run_of_find?`: so the first delivery after a registration hands its payload on,
  unless the wait has ended, and a second one finds nothing.
* `balanced_run`: the counters account for every registration, as long as no identifier
  is registered while it is waiting.
* `run_waiters` gathers these laws along every run.
-/

set_option autoImplicit false

namespace TokenGate

open Sched

namespace PendingStore

variable {α : Type}

/-- What happens to a table of waiting requests: its four operations, at the times they
are made, and a caller dropping its end of a channel. -/
inductive Op (α : Type) where
  | register (id : Uuid) (kind : String) (now timeout : Nat)
  | deliver (id : Uuid) (payload : α) (now : Nat)
  | cancel (id : Uuid)
  | evict (now : Nat)
  | hangUp (channel : Nat)

/-- The table after one operation. -/
def step (s : PendingStore α) : Op α → PendingStore α
  | .register id kind now timeout => (s.register id kind now timeout).2.1
  | .deliver id payload now => (s.deliver id payload now).2.1
  | .cancel id => (s.cancel id).2.1
  | .evict now => (s.evictExpired now).2.1
  | .hangUp ch => { s with channels := s.channels.dropReceiver ch }

/-- The table after a sequence of operations. -/
def run (s : PendingStore α) (ops : List (Op α)) : PendingStore α := ops.foldl step s

@[simp] theorem run_nil (s : PendingStore α) : run s [] = s := rfl

@[simp] theorem run_append_singleton (s : PendingStore α) (ops : List (Op α)) (op : Op α) :
    run s (ops ++ [op]) = (run s ops).step op := by
  simp [run]

namespace Op

/-- The time an operation is made at, for those that read the clock. -/
def time? : Op α → Option Nat
  | .register _ _ now _ | .deliver _ _ now | .evict now => some now
  | .cancel _ | .hangUp _ => none

/-- Whether an operation registers `id`. -/
def Registers (id : Uuid) : Op α → Prop
  | .register id' .. => id' = id
  | _ => False

/-- Whether an operation ends the wait of a registration of `id` expiring at `deadline`:
a delivery or a cancellation for `id`, or an eviction at or after the deadline. -/
def Closes (id : Uuid) (deadline : Nat) : Op α → Prop
  | .deliver id' .. | .cancel id' => id' = id
  | .evict now => deadline ≤ now
  | .register .. | .hangUp _ => False

instance (id : Uuid) (op : Op α) : Decidable (op.Registers id) :=
  match op with
  | .register id' .. => inferInstanceAs (Decidable (id' = id))
  | .deliver .. | .cancel _ | .evict _ | .hangUp _ => isFalse fun h => h.elim

instance (id : Uuid) (deadline : Nat) (op : Op α) : Decidable (op.Closes id deadline) :=
  match op with
  | .deliver id' .. | .cancel id' => inferInstanceAs (Decidable (id' = id))
  | .evict now => inferInstanceAs (Decidable (deadline ≤ now))
  | .register .. | .hangUp _ => isFalse fun h => h.elim

end Op

/-! ### What each operation does to the waiters, the channels and the counters -/

section Operations

variable (s : PendingStore α)

theorem find?_eq_none_iff (id : Uuid) : s.find? id = none ↔ ∀ w ∈ s.waiters, w.id ≠ id := by
  simp [find?, List.find?_eq_none]

theorem mem_of_find? {id : Uuid} {w : Waiter} (h : s.find? id = some w) :
    w ∈ s.waiters ∧ w.id = id :=
  ⟨List.mem_of_find?_eq_some h, by simpa using List.find?_some h⟩

theorem mem_register (id : Uuid) (kind : String) (now timeout : Nat) (w : Waiter) :
    w ∈ (s.register id kind now timeout).2.1.waiters ↔
      w = ⟨id, s.channels.next, now, now + timeout, kind⟩ ∨ (w ∈ s.waiters ∧ w.id ≠ id) := by
  simp only [register, Channels.openChannel]
  split
  · next old hold =>
    -- the waiter under `id` is replaced in place
    have hmem := mem_of_find? s hold
    simp only [List.mem_map]
    constructor
    · rintro ⟨x, hx, rfl⟩
      by_cases hxid : x.id = id
      · exact .inl (by simp [hxid])
      · exact .inr (by simp [hxid, hx])
    · rintro (rfl | ⟨hw, hwid⟩)
      · exact ⟨old, hmem.1, by simp [hmem.2]⟩
      · exact ⟨w, hw, by simp [hwid]⟩
  · next hnone =>
    simp only [find?, List.find?_eq_none, beq_iff_eq] at hnone
    simp only [List.mem_append, List.mem_singleton]
    constructor
    · rintro (hw | rfl)
      · exact .inr ⟨hw, hnone w hw⟩
      · exact .inl rfl
    · rintro (rfl | ⟨hw, -⟩)
      · exact .inr rfl
      · exact .inl hw

/-- Registering under a fresh identifier adds its waiter at the end. -/
theorem register_waiters_of_none {id : Uuid} (h : s.find? id = none) (kind : String)
    (now timeout : Nat) :
    (s.register id kind now timeout).2.1.waiters =
      s.waiters ++ [⟨id, s.channels.next, now, now + timeout, kind⟩] := by
  simp only [register, Channels.openChannel, h]

/-- Registering replaces the waiter of the same identifier, whose caller's channel then
closes. -/
theorem register_channels (id : Uuid) (kind : String) (now timeout : Nat) :
    (s.register id kind now timeout).2.1.channels = match s.find? id with
      | some old => (s.channels.openChannel.2.dropSender old.channel).1
      | none => s.channels.openChannel.2 := by
  cases h : s.find? id <;> simp [register, h]

@[simp] theorem register_fst (id : Uuid) (kind : String) (now timeout : Nat) :
    (s.register id kind now timeout).1 = s.channels.next := rfl

@[simp] theorem register_counters (id : Uuid) (kind : String) (now timeout : Nat) :
    (s.register id kind now timeout).2.1.counters =
      { s.counters with registered := s.counters.registered + 1 } := by
  simp only [register]

theorem register_next (id : Uuid) (kind : String) (now timeout : Nat) :
    (s.register id kind now timeout).2.1.channels.next = s.channels.next + 1 := by
  rw [register_channels]
  split <;> simp

theorem filter_id_eq_self {id : Uuid} (h : s.find? id = none) :
    s.waiters.filter (·.id != id) = s.waiters := by
  rw [List.filter_eq_self]
  intro w hw
  simpa using (find?_eq_none_iff s id).1 h w hw

section Deliver

variable {id : Uuid} (payload : α) (now : Nat)

theorem deliver_of_find?_none (h : s.find? id = none) :
    s.deliver id payload now = (.unknown, s, []) := by
  unfold deliver take
  rw [h]

theorem deliver_of_find?_some {w : Waiter} (h : s.find? id = some w) :
    (s.deliver id payload now).1 =
        (if (s.channels.send w.channel ⟨id, payload, now - w.registeredAt⟩).1 then .delivered
          else .callerGone) ∧
      (s.deliver id payload now).2.1.channels =
        (s.channels.send w.channel ⟨id, payload, now - w.registeredAt⟩).2.1 ∧
      (s.deliver id payload now).2.1.counters =
        if (s.channels.send w.channel ⟨id, payload, now - w.registeredAt⟩).1 then
          { s.counters with delivered := s.counters.delivered + 1 }
        else { s.counters with abandoned := s.counters.abandoned + 1 } := by
  unfold deliver take
  rw [h]
  dsimp only
  split <;> simp_all

theorem deliver_waiters : (s.deliver id payload now).2.1.waiters = s.waiters.filter (·.id != id) := by
  cases h : s.find? id with
  | none => rw [deliver_of_find?_none s payload now h, filter_id_eq_self s h]
  | some w =>
    unfold deliver take
    rw [h]
    dsimp only
    split <;> rfl

end Deliver

section Cancel

variable {id : Uuid}

theorem cancel_of_find?_none (h : s.find? id = none) : s.cancel id = (false, s, []) := by
  unfold cancel take
  rw [h]

theorem cancel_of_find?_some {w : Waiter} (h : s.find? id = some w) :
    (s.cancel id).2.1 = ⟨s.waiters.filter (·.id != id),
      { s.counters with abandoned := s.counters.abandoned + 1 },
      (s.channels.dropSender w.channel).1⟩ := by
  unfold cancel take
  rw [h]

theorem cancel_waiters : (s.cancel id).2.1.waiters = s.waiters.filter (·.id != id) := by
  cases h : s.find? id with
  | none => rw [cancel_of_find?_none s h, filter_id_eq_self s h]
  | some w => rw [cancel_of_find?_some s h]

end Cancel

section Evict

variable (now : Nat)

/-- The channels of the evicted waiters lose their senders, one after the other. -/
theorem evictExpired_channels :
    (s.evictExpired now).2.1.channels =
      (s.waiters.filter (·.deadline ≤ now)).foldl (fun c w => (c.dropSender w.channel).1)
        s.channels := by
  -- the fold also gathers whom to wake, which the channels do not depend on
  have key : ∀ (l : List Waiter) (acc : Channels (Reply α) × List Waker),
      (l.foldl (fun (acc : Channels (Reply α) × List Waker) w =>
        ((acc.1.dropSender w.channel).1, acc.2 ++ (acc.1.dropSender w.channel).2)) acc).1 =
        l.foldl (fun c w => (c.dropSender w.channel).1) acc.1 := by
    intro l
    induction l with
    | nil => exact fun _ => rfl
    | cons w ws ih => exact fun acc => ih _
  exact key _ _

@[simp] theorem evictExpired_fst :
    (s.evictExpired now).1 = (s.waiters.filter (·.deadline ≤ now)).length := rfl

@[simp] theorem evictExpired_waiters :
    (s.evictExpired now).2.1.waiters = s.waiters.filter (fun w => now < w.deadline) := rfl

@[simp] theorem evictExpired_counters :
    (s.evictExpired now).2.1.counters =
      { s.counters with expired := s.counters.expired + (s.evictExpired now).1 } := rfl

end Evict

end Operations

/-! ### The shape every reachable table keeps -/

/-- A table as its operations leave it: one waiter per identifier, each on its own
channel, numbered before the next channel to open, in a table of numbered channels. -/
structure Sound (s : PendingStore α) : Prop where
  ids : (s.waiters.map (·.id)).Nodup
  channels : (s.waiters.map (·.channel)).Nodup
  below : ∀ w ∈ s.waiters, w.channel < s.channels.next
  numbered : s.channels.Numbered

theorem sound_empty : (empty : PendingStore α).Sound :=
  ⟨List.nodup_nil, List.nodup_nil, fun _ h => absurd h List.not_mem_nil, fun _ h => absurd h List.not_mem_nil⟩

namespace Sound

variable {s : PendingStore α} (hs : s.Sound)
include hs

theorem eq_of_id {w w' : Waiter} (hw : w ∈ s.waiters) (hw' : w' ∈ s.waiters) (h : w.id = w'.id) :
    w = w' :=
  List.inj_on_of_nodup_map hs.ids hw hw' h

theorem eq_of_channel {w w' : Waiter} (hw : w ∈ s.waiters) (hw' : w' ∈ s.waiters)
    (h : w.channel = w'.channel) : w = w' :=
  List.inj_on_of_nodup_map hs.channels hw hw' h

/-- In a sound table the waiter found under an identifier is the one waiter with it. -/
theorem find?_eq_some_iff {id : Uuid} {w : Waiter} :
    s.find? id = some w ↔ w ∈ s.waiters ∧ w.id = id := by
  constructor
  · exact mem_of_find? s
  · rintro ⟨hw, rfl⟩
    cases h : s.find? w.id with
    | none => exact absurd rfl ((find?_eq_none_iff s w.id).1 h w hw)
    | some w' =>
      obtain ⟨hw', hid⟩ := mem_of_find? s h
      rw [hs.eq_of_id hw' hw hid]

end Sound

section Channels

variable {β : Type}

/-- Dropping the senders of a list of waiters' channels, one after the other. -/
theorem foldl_dropSender_next (l : List Waiter) (c : Channels β) :
    (l.foldl (fun c w => (c.dropSender w.channel).1) c).next = c.next := by
  induction l generalizing c with
  | nil => rfl
  | cons w ws ih => rw [List.foldl_cons, ih, Channels.dropSender_next]

theorem numbered_foldl_dropSender (l : List Waiter) {c : Channels β} (hc : c.Numbered) :
    (l.foldl (fun c w => (c.dropSender w.channel).1) c).Numbered := by
  induction l generalizing c with
  | nil => exact hc
  | cons w ws ih => exact ih (hc.dropSender _)

theorem get?_foldl_dropSender {l : List Waiter} {m : Nat} (hl : ∀ w ∈ l, w.channel ≠ m)
    (c : Channels β) : (l.foldl (fun c w => (c.dropSender w.channel).1) c).get? m = c.get? m := by
  induction l generalizing c with
  | nil => rfl
  | cons w ws ih =>
    rw [List.foldl_cons, ih (fun w' hw' => hl w' (List.mem_cons_of_mem _ hw')),
      Channels.get?_dropSender, if_neg (Ne.symm (hl w (List.mem_cons_self ..)))]

end Channels

namespace Sound

variable {s : PendingStore α} (hs : s.Sound)
include hs

/-- Waiters leaving the table, and the table's channels changing in place, keep it sound. -/
theorem of_sublist {s' : PendingStore α} (hw : s'.waiters.Sublist s.waiters)
    (hnext : s'.channels.next = s.channels.next) (hnum : s'.channels.Numbered) : s'.Sound where
  ids := (hw.map _).nodup hs.ids
  channels := (hw.map _).nodup hs.channels
  below w h := hnext ▸ hs.below w (hw.subset h)
  numbered := hnum

theorem register (id : Uuid) (kind : String) (now timeout : Nat) :
    (s.register id kind now timeout).2.1.Sound := by
  have hnum : (s.register id kind now timeout).2.1.channels.Numbered := by
    rw [register_channels]
    split
    · exact hs.numbered.openChannel.dropSender _
    · exact hs.numbered.openChannel
  have hbelow : ∀ w ∈ (s.register id kind now timeout).2.1.waiters,
      w.channel < (s.register id kind now timeout).2.1.channels.next := by
    intro w hw
    rw [register_next]
    rcases (mem_register s id kind now timeout w).1 hw with rfl | ⟨hw, -⟩
    · exact Nat.lt_succ_self _
    · exact Nat.lt_succ_of_lt (hs.below w hw)
  cases h : s.find? id with
  | none =>
    -- a new identifier: its waiter goes at the end, on the newest channel
    have hids : ∀ w ∈ s.waiters, w.id ≠ id := (find?_eq_none_iff s id).1 h
    refine ⟨?_, ?_, hbelow, hnum⟩ <;> rw [register_waiters_of_none s h]
    · rw [List.map_append, List.nodup_append]
      exact ⟨hs.ids, List.nodup_singleton _, by simpa using fun w hw => hids w hw⟩
    · rw [List.map_append, List.nodup_append]
      exact ⟨hs.channels, List.nodup_singleton _,
        by simpa using fun w hw => Nat.ne_of_lt (hs.below w hw)⟩
  | some old =>
    -- the waiter under `id` is replaced: same identifiers, its channel by the newest
    have hold := mem_of_find? s h
    have hwaiters : (s.register id kind now timeout).2.1.waiters =
        s.waiters.map fun x => if x.id == id then ⟨id, s.channels.next, now, now + timeout, kind⟩
          else x := by
      simp only [PendingStore.register, h, Channels.openChannel]
    refine ⟨?_, ?_, hbelow, hnum⟩ <;> rw [hwaiters, List.map_map]
    · convert hs.ids using 1
      refine List.map_congr_left fun x _ => ?_
      by_cases hx : x.id = id <;> simp [hx]
    · refine List.Nodup.map_on ?_ (List.Nodup.of_map _ hs.ids)
      intro x hx y hy hxy
      by_cases hxi : x.id = id <;> by_cases hyi : y.id = id <;>
        simp only [Function.comp, hxi, hyi, beq_self_eq_true, ↓reduceIte, beq_iff_eq] at hxy
      · exact hs.eq_of_id hx hy (hxi.trans hyi.symm)
      · exact absurd hxy (Nat.ne_of_lt (hs.below y hy)).symm
      · exact absurd hxy (Nat.ne_of_lt (hs.below x hx))
      · exact hs.eq_of_channel hx hy hxy

theorem deliver (id : Uuid) (payload : α) (now : Nat) : (s.deliver id payload now).2.1.Sound := by
  cases h : s.find? id with
  | none => rwa [deliver_of_find?_none s payload now h]
  | some w =>
    obtain ⟨-, hch, -⟩ := deliver_of_find?_some s payload now h
    refine hs.of_sublist ?_ ?_ ?_
    · rw [deliver_waiters]
      exact List.filter_sublist
    · rw [hch, Channels.send_next]
    · rw [hch]
      exact hs.numbered.send _ _

theorem cancel (id : Uuid) : (s.cancel id).2.1.Sound := by
  cases h : s.find? id with
  | none => rwa [cancel_of_find?_none s h]
  | some w =>
    rw [cancel_of_find?_some s h]
    exact hs.of_sublist List.filter_sublist (Channels.dropSender_next _ _)
      (hs.numbered.dropSender _)

theorem evictExpired (now : Nat) : (s.evictExpired now).2.1.Sound := by
  refine hs.of_sublist List.filter_sublist ?_ ?_ <;> rw [evictExpired_channels]
  · exact foldl_dropSender_next _ _
  · exact numbered_foldl_dropSender _ hs.numbered

theorem step (op : Op α) : (s.step op).Sound := by
  cases op with
  | register id kind now timeout => exact hs.register id kind now timeout
  | deliver id payload now => exact hs.deliver id payload now
  | cancel id => exact hs.cancel id
  | evict now => exact hs.evictExpired now
  | hangUp ch => exact hs.of_sublist (List.Sublist.refl _) rfl (hs.numbered.dropReceiver ch)

theorem run (ops : List (Op α)) : (s.run ops).Sound := by
  induction ops generalizing s with
  | nil => exact hs
  | cons op ops ih => exact ih (hs.step op)

end Sound

/-! ### One identifier along a run -/

section Step

variable (s : PendingStore α)

/-- An operation that does not register a waiter's identifier keeps the waiter exactly when
it does not end its wait. -/
theorem mem_step {op : Op α} {w : Waiter} (hr : ¬op.Registers w.id) :
    w ∈ (s.step op).waiters ↔ w ∈ s.waiters ∧ ¬op.Closes w.id w.deadline := by
  cases op with
  | register id kind now timeout =>
    have hne : w.id ≠ id := fun h => hr h.symm
    simp only [step, mem_register, Op.Closes, not_false_eq_true, and_true]
    constructor
    · rintro (rfl | ⟨hw, -⟩)
      · exact absurd rfl hne
      · exact hw
    · exact fun hw => .inr ⟨hw, hne⟩
  | deliver id payload now =>
    simp only [step, deliver_waiters, List.mem_filter, bne_iff_ne, Op.Closes]
    exact and_congr_right fun _ => ⟨fun h h' => h h'.symm, fun h h' => h h'.symm⟩
  | cancel id =>
    simp only [step, cancel_waiters, List.mem_filter, bne_iff_ne, Op.Closes]
    exact and_congr_right fun _ => ⟨fun h h' => h h'.symm, fun h h' => h h'.symm⟩
  | evict now => simp [step, Op.Closes]
  | hangUp ch => simp [step, Op.Closes]

variable {s} (hs : s.Sound)
include hs

/-- Through an operation that does not register `id`, the waiter under `id` stays until an
operation ends its wait. -/
theorem find?_step_of_some {op : Op α} {id : Uuid} {w : Waiter} (hr : ¬op.Registers id)
    (h : s.find? id = some w) :
    (s.step op).find? id = if op.Closes id w.deadline then none else some w := by
  obtain ⟨hw, rfl⟩ := mem_of_find? s h
  have hs' := hs.step op
  split
  · next hc =>
    -- any waiter left under the identifier would be `w`, whose wait just ended
    cases h' : (s.step op).find? w.id with
    | none => rfl
    | some w' =>
      obtain ⟨hw', hid⟩ := hs'.find?_eq_some_iff.1 h'
      obtain ⟨hw'', hc'⟩ := (mem_step s (hid ▸ hr : ¬op.Registers w'.id)).1 hw'
      obtain rfl := hs.eq_of_id hw'' hw hid
      exact absurd hc hc'
  · next hc => exact hs'.find?_eq_some_iff.2 ⟨(mem_step s hr).2 ⟨hw, hc⟩, rfl⟩

theorem find?_step_of_none {op : Op α} {id : Uuid} (hr : ¬op.Registers id)
    (h : s.find? id = none) : (s.step op).find? id = none := by
  cases h' : (s.step op).find? id with
  | none => rfl
  | some w =>
    obtain ⟨hw, rfl⟩ := (hs.step op).find?_eq_some_iff.1 h'
    exact absurd rfl ((find?_eq_none_iff s _).1 h w ((mem_step s hr).1 hw).1)

end Step

theorem run_append (s : PendingStore α) (ops ops' : List (Op α)) :
    s.run (ops ++ ops') = (s.run ops).run ops' := List.foldl_append ..

theorem run_cons (s : PendingStore α) (op : Op α) (ops : List (Op α)) :
    s.run (op :: ops) = (s.step op).run ops := rfl

section Run

variable {s : PendingStore α} (hs : s.Sound)
include hs

/-- With no registration of `id`, a table without a waiter under `id` never gets one. -/
theorem find?_run_of_none {id : Uuid} {ops : List (Op α)} (hops : ∀ op ∈ ops, ¬op.Registers id)
    (h : s.find? id = none) : (s.run ops).find? id = none := by
  induction ops generalizing s with
  | nil => exact h
  | cons op ops ih =>
    rw [run_cons]
    exact ih (hs.step op) (fun op' h' => hops op' (List.mem_cons_of_mem _ h'))
      (find?_step_of_none hs (hops op (List.mem_cons_self ..)) h)

/-- With no registration of `id`, the waiter under `id` stays until the first operation
that ends its wait. -/
theorem find?_run_of_some {id : Uuid} {w : Waiter} {ops : List (Op α)}
    (hops : ∀ op ∈ ops, ¬op.Registers id) (h : s.find? id = some w) :
    (s.run ops).find? id = if ∃ op ∈ ops, op.Closes id w.deadline then none else some w := by
  induction ops generalizing s with
  | nil => simp [h]
  | cons op ops ih =>
    have hops' : ∀ op' ∈ ops, ¬op'.Registers id := fun op' h' => hops op' (List.mem_cons_of_mem _ h')
    rw [run_cons]
    have hstep := find?_step_of_some hs (hops op (List.mem_cons_self ..)) h
    by_cases hc : op.Closes id w.deadline
    · rw [if_pos hc] at hstep
      rw [find?_run_of_none (hs.step op) hops' hstep, if_pos ⟨op, List.mem_cons_self .., hc⟩]
    · rw [if_neg hc] at hstep
      rw [ih (hs.step op) hops' hstep]
      simp [hc]

/-- A registration puts its waiter under its identifier, on the newest channel. -/
theorem find?_register_self (id : Uuid) (kind : String) (now timeout : Nat) :
    (s.register id kind now timeout).2.1.find? id =
      some ⟨id, s.channels.next, now, now + timeout, kind⟩ :=
  (hs.register id kind now timeout).find?_eq_some_iff.2
    ⟨(mem_register s id kind now timeout _).2 (.inl rfl), rfl⟩

end Run

/-- A list either has no element with `P` or ends with its last element with `P` and a tail
without one. -/
theorem eq_append_last {β : Type} (P : β → Prop) [DecidablePred P] (l : List β) :
    (∀ x ∈ l, ¬P x) ∨ ∃ pre a post, l = pre ++ a :: post ∧ P a ∧ ∀ x ∈ post, ¬P x := by
  induction l using List.reverseRecOn with
  | nil => exact .inl fun _ h => absurd h List.not_mem_nil
  | append_singleton l a ih =>
    by_cases ha : P a
    · exact .inr ⟨l, a, [], rfl, ha, fun _ h => absurd h List.not_mem_nil⟩
    · rcases ih with h | ⟨pre, b, post, rfl, hb, hpost⟩
      · exact .inl fun x hx => (List.mem_append.1 hx).elim (h x) fun hx' => by
          rw [List.mem_singleton.1 hx']
          exact ha
      · refine .inr ⟨pre, b, post ++ [a], by simp, hb, fun x hx => ?_⟩
        exact (List.mem_append.1 hx).elim (hpost x) fun hx' => by
          rw [List.mem_singleton.1 hx']
          exact ha

/-- A request is waiting exactly while the latest registration of its identifier has been
neither delivered, cancelled nor evicted. -/
theorem contains_run_iff (ops : List (Op α)) (id : Uuid) :
    (empty.run ops).contains id = true ↔
      ∃ pre kind now timeout post, ops = pre ++ .register id kind now timeout :: post ∧
        ∀ op ∈ post, ¬op.Registers id ∧ ¬op.Closes id (now + timeout) := by
  constructor
  · intro hc
    rcases eq_append_last (Op.Registers id) ops with hops | ⟨pre, reg, post, rfl, hreg, hpost⟩
    · -- never registered: nothing is ever waiting under the identifier
      have := find?_run_of_none sound_empty hops rfl
      simp [contains, this] at hc
    · cases reg with
      | register id' kind now timeout =>
        obtain rfl : id' = id := hreg
        have hs := sound_empty.run (α := α) pre
        rw [run_append, run_cons] at hc
        have hfind := find?_run_of_some (hs.step (.register id' kind now timeout)) hpost
          (find?_register_self hs id' kind now timeout)
        refine ⟨pre, kind, now, timeout, post, rfl, fun op hop => ⟨hpost op hop, fun hcl => ?_⟩⟩
        rw [if_pos ⟨op, hop, hcl⟩] at hfind
        simp [contains, hfind] at hc
      | _ => exact hreg.elim
  · rintro ⟨pre, kind, now, timeout, post, rfl, hpost⟩
    have hs := sound_empty.run (α := α) pre
    rw [run_append, run_cons]
    have hfind := find?_run_of_some (hs.step (.register id kind now timeout)) (fun op h => (hpost op h).1)
      (find?_register_self hs id kind now timeout)
    rw [if_neg (fun ⟨op, hop, hcl⟩ => (hpost op hop).2 hcl)] at hfind
    simp [contains, hfind]

/-! ### The channel of a registration -/

section Channel

variable {s : PendingStore α} (hs : s.Sound)
include hs

/-- A registration opens a fresh channel for its caller. -/
theorem get?_register_self (id : Uuid) (kind : String) (now timeout : Nat) :
    (s.register id kind now timeout).2.1.channels.get? s.channels.next = some Oneshot.fresh := by
  rw [register_channels]
  split
  · next old hold =>
    -- the replaced waiter's channel is an older one
    have hlt := hs.below old (mem_of_find? s hold).1
    rw [Channels.get?_dropSender, if_neg (Nat.ne_of_gt hlt), Channels.get?_openChannel _ hs.numbered,
      if_pos rfl]
  · rw [Channels.get?_openChannel _ hs.numbered, if_pos rfl]

/-- An operation that leaves a waiter in place changes its channel only when it is the
caller dropping its end. -/
theorem get?_step_of_find? {op : Op α} {id : Uuid} {w : Waiter} (h : s.find? id = some w)
    (hr : ¬op.Registers id) (hc : ¬op.Closes id w.deadline)
    (hh : ∀ c, op = .hangUp c → c ≠ w.channel) :
    (s.step op).channels.get? w.channel = s.channels.get? w.channel := by
  obtain ⟨hw, rfl⟩ := mem_of_find? s h
  -- another waiter's channel is never this one
  have hother : ∀ w' ∈ s.waiters, w'.id ≠ w.id → w.channel ≠ w'.channel := fun w' hw' hid hch =>
    hid (hs.eq_of_channel hw hw' hch ▸ rfl)
  cases op with
  | register id' kind now timeout =>
    have hne : id' ≠ w.id := hr
    simp only [step]
    rw [register_channels]
    split
    · next old hold =>
      obtain ⟨hmem, rfl⟩ := mem_of_find? s hold
      rw [Channels.get?_dropSender, if_neg (hother old hmem hne), Channels.get?_openChannel _ hs.numbered,
        if_neg (Nat.ne_of_lt (hs.below w hw))]
    · rw [Channels.get?_openChannel _ hs.numbered, if_neg (Nat.ne_of_lt (hs.below w hw))]
  | deliver id' payload now =>
    have hne : id' ≠ w.id := hc
    simp only [step]
    cases h' : s.find? id' with
    | none => rw [deliver_of_find?_none s payload now h']
    | some w' =>
      obtain ⟨hw', rfl⟩ := mem_of_find? s h'
      rw [(deliver_of_find?_some s payload now h').2.1, Channels.get?_send,
        if_neg (hother w' hw' hne)]
  | cancel id' =>
    have hne : id' ≠ w.id := hc
    simp only [step]
    cases h' : s.find? id' with
    | none => rw [cancel_of_find?_none s h']
    | some w' =>
      obtain ⟨hw', rfl⟩ := mem_of_find? s h'
      rw [cancel_of_find?_some s h']
      exact (Channels.get?_dropSender _ _ _).trans (if_neg (hother w' hw' hne))
  | evict now =>
    have hlive : now < w.deadline := Nat.lt_of_not_le hc
    simp only [step]
    rw [evictExpired_channels]
    -- the evicted waiters are others, on other channels
    refine get?_foldl_dropSender (fun g hg hch => ?_) _
    obtain ⟨hg, hdue⟩ := List.mem_filter.1 hg
    obtain rfl := hs.eq_of_channel hg hw hch
    exact absurd (of_decide_eq_true hdue) (Nat.not_le.2 hlive)
  | hangUp c =>
    exact (Channels.get?_dropReceiver _ _ _).trans (if_neg (Ne.symm (hh c rfl)))

/-- Along operations that neither register `id` again nor end its wait, the channel of the
waiter under `id` keeps its value and its sender; its receiver is alive exactly when it was
and no operation dropped it. -/
theorem get?_run_of_find? {id : Uuid} {w : Waiter} {ops : List (Op α)}
    (h : s.find? id = some w) (hops : ∀ op ∈ ops, ¬op.Registers id ∧ ¬op.Closes id w.deadline)
    {o : Oneshot (Reply α)} (ho : s.channels.get? w.channel = some o) :
    ∃ o', (s.run ops).channels.get? w.channel = some o' ∧ o'.value = o.value ∧
      o'.senderLive = o.senderLive ∧
      (o'.receiverLive = true ↔ o.receiverLive = true ∧ .hangUp w.channel ∉ ops) := by
  induction ops generalizing s o with
  | nil => exact ⟨o, ho, rfl, rfl, by simp⟩
  | cons op ops ih =>
    obtain ⟨hr, hc⟩ := hops op (List.mem_cons_self ..)
    have hops' := fun op' h' => hops op' (List.mem_cons_of_mem op h')
    have hstep : (s.step op).find? id = some w := by
      rw [find?_step_of_some hs hr h, if_neg hc]
    rw [run_cons]
    by_cases hop : op = .hangUp w.channel
    · -- the caller drops its end: the receiver is gone for good
      subst hop
      have ho' : (s.step (.hangUp w.channel)).channels.get? w.channel = some o.dropReceiver := by
        simp [step, ho]
      obtain ⟨o', h', hv, hsl, hrl⟩ := ih (hs.step _) hstep hops' ho'
      exact ⟨o', h', hv, hsl, by simp [hrl, Oneshot.dropReceiver]⟩
    · have ho' : (s.step op).channels.get? w.channel = some o := by
        rw [get?_step_of_find? hs h hr hc fun c hc' hcw => hop (hcw ▸ hc'), ho]
      obtain ⟨o', h', hv, hsl, hrl⟩ := ih (hs.step op) hstep hops' ho'
      refine ⟨o', h', hv, hsl, hrl.trans (and_congr_right fun _ => ?_)⟩
      simp [Ne.symm hop]

end Channel

/-! ### Handing a response on -/

section Deliver

variable (s : PendingStore α) {id : Uuid} (payload : α) (now : Nat)

/-- A delivery to a waiter goes through when its caller still listens, and then leaves the
reply in the caller's channel. -/
theorem deliver_of_channel {w : Waiter} (h : s.find? id = some w) {o : Oneshot (Reply α)}
    (ho : s.channels.get? w.channel = some o) :
    (s.deliver id payload now).1 = (if o.receiverLive then .delivered else .callerGone) ∧
      (o.receiverLive = true → ((s.deliver id payload now).2.1.channels.get? w.channel).bind (·.value) =
        some ⟨id, payload, now - w.registeredAt⟩) := by
  obtain ⟨hd, hch, -⟩ := deliver_of_find?_some s payload now h
  have hsend := Channels.send_eq s.channels w.channel ⟨id, payload, now - w.registeredAt⟩
  rw [ho] at hsend
  refine ⟨?_, fun hlive => ?_⟩
  · rw [hd, hsend]
    cases hl : o.receiverLive <;> simp [Oneshot.send, hl]
  rw [hch, Channels.get?_send, if_pos rfl, ho]
  simp [Oneshot.send, hlive]

end Deliver

section AfterRegister

variable {s : PendingStore α} (hs : s.Sound)
include hs

/-- After a fresh waiter under `id`, and operations that do not register `id` again: the
first delivery finds nothing once an operation has ended the wait, and otherwise hands the
reply to the caller unless the caller dropped its end of the channel. -/
theorem deliver_run_of_find? {id : Uuid} {w : Waiter} {mid : List (Op α)} (payload : α) (now : Nat)
    (h : s.find? id = some w) (hfresh : s.channels.get? w.channel = some Oneshot.fresh)
    (hmid : ∀ op ∈ mid, ¬op.Registers id) :
    (((s.run mid).deliver id payload now).1 = .unknown ↔ ∃ op ∈ mid, op.Closes id w.deadline) ∧
    (((s.run mid).deliver id payload now).1 = .delivered ↔
      (∀ op ∈ mid, ¬op.Closes id w.deadline) ∧ .hangUp w.channel ∉ mid) ∧
    (((s.run mid).deliver id payload now).1 = .callerGone ↔
      (∀ op ∈ mid, ¬op.Closes id w.deadline) ∧ .hangUp w.channel ∈ mid) ∧
    (((s.run mid).deliver id payload now).1 = .delivered →
      (((s.run mid).deliver id payload now).2.1.channels.get? w.channel).bind (·.value) =
        some ⟨id, payload, now - w.registeredAt⟩) := by
  have hrun := find?_run_of_some hs hmid h
  by_cases hcl : ∃ op ∈ mid, op.Closes id w.deadline
  · -- the wait ended: the delivery finds no waiter
    rw [if_pos hcl] at hrun
    rw [deliver_of_find?_none _ payload now hrun]
    simp [hcl]
  · -- the waiter is still there, on the channel as the registration opened it
    have hall : ∀ op ∈ mid, ¬op.Closes id w.deadline := fun op hop hc => hcl ⟨op, hop, hc⟩
    rw [if_neg hcl] at hrun
    obtain ⟨o, ho, -, -, hrl⟩ :=
      get?_run_of_find? hs h (fun op hop => ⟨hmid op hop, hall op hop⟩) hfresh
    simp only [Oneshot.fresh, true_and] at hrl
    obtain ⟨hd, hreply⟩ := deliver_of_channel _ payload now hrun ho
    by_cases hlive : o.receiverLive = true
    · rw [hd, if_pos hlive]
      exact ⟨iff_of_false (by simp) hcl, iff_of_true rfl ⟨hall, hrl.1 hlive⟩,
        iff_of_false (by simp) fun h => hrl.1 hlive h.2, fun _ => hreply hlive⟩
    · -- the caller dropped its end: the reply is lost
      have hhang : .hangUp w.channel ∈ mid := by
        by_contra hn
        exact hlive (hrl.2 hn)
      rw [hd, if_neg hlive]
      exact ⟨iff_of_false (by simp) hcl, iff_of_false (by simp) fun h => h.2 hhang,
        iff_of_true rfl ⟨hall, hhang⟩, fun h => absurd h (by simp)⟩

end AfterRegister

/-! ### Eviction and the counters -/

section Counting

variable (s : PendingStore α)

/-- Eviction keeps exactly the waiters whose deadline is still ahead. -/
theorem mem_evictExpired (now : Nat) (w : Waiter) :
    w ∈ (s.evictExpired now).2.1.waiters ↔ w ∈ s.waiters ∧ now < w.deadline := by
  simp

/-- Eviction reports how many waiters left the table. -/
theorem len_evictExpired (now : Nat) :
    (s.evictExpired now).2.1.len + (s.evictExpired now).1 = s.len := by
  simp only [len, evictExpired_waiters, evictExpired_fst]
  rw [List.length_eq_length_filter_add (l := s.waiters) (fun w : Waiter => decide (now < w.deadline))]
  congr 2
  exact List.filter_congr fun w _ => by simp only [← decide_not, Nat.not_lt]

/-- Taking out the one waiter of an identifier shortens the table by one. -/
theorem length_filter_id {id : Uuid} {w : Waiter} (hs : s.Sound) (h : s.find? id = some w) :
    (s.waiters.filter (·.id != id)).length + 1 = s.waiters.length := by
  obtain ⟨hw, rfl⟩ := mem_of_find? s h
  have hone : (s.waiters.map (·.id)).count w.id = 1 :=
    List.count_eq_one_of_mem hs.ids (List.mem_map_of_mem hw)
  rw [List.count, List.countP_map, List.countP_eq_length_filter] at hone
  rw [List.length_eq_length_filter_add (l := s.waiters) (fun x : Waiter => x.id != w.id), ← hone]
  congr 2
  exact List.filter_congr fun x _ => by simp [bne]

end Counting

/-- Every registration is accounted for: delivered, abandoned, expired, or still waiting. -/
def Balanced (s : PendingStore α) : Prop :=
  s.counters.registered = s.counters.delivered + s.counters.abandoned + s.counters.expired + s.len

/-- No operation registers an identifier while a request under it is still waiting. -/
def Fresh (ops : List (Op α)) : Prop :=
  ∀ pre id kind now timeout post, ops = pre ++ .register id kind now timeout :: post →
    (empty.run pre).contains id = false

namespace Balanced

variable {s : PendingStore α} (hs : s.Sound) (hb : s.Balanced)
include hs hb

/-- Every operation keeps the count balanced, but a registration under an identifier that
is still waiting: it replaces a waiter without accounting for it. -/
theorem step (op : Op α) (hfresh : ∀ id kind now timeout, op = .register id kind now timeout →
    s.contains id = false) : (s.step op).Balanced := by
  unfold Balanced at hb ⊢
  cases op with
  | register id kind now timeout =>
    have hnone : s.find? id = none := by
      simpa [contains] using hfresh id kind now timeout rfl
    simp only [PendingStore.step, register_counters, len, register_waiters_of_none s hnone, List.length_append,
      List.length_singleton]
    simp only [len] at hb
    omega
  | deliver id payload now =>
    cases h : s.find? id with
    | none => rwa [PendingStore.step, deliver_of_find?_none s payload now h]
    | some w =>
      obtain ⟨-, -, hcounters⟩ := deliver_of_find?_some s payload now h
      have hlen := length_filter_id s hs h
      simp only [PendingStore.step, hcounters, len, deliver_waiters]
      simp only [len] at hb
      split <;> simp only <;> omega
  | cancel id =>
    cases h : s.find? id with
    | none => rwa [PendingStore.step, cancel_of_find?_none s h]
    | some w =>
      have hlen := length_filter_id s hs h
      simp only [PendingStore.step, cancel_of_find?_some s h, len]
      simp only [len] at hb
      omega
  | evict now =>
    have hlen := len_evictExpired s now
    simp only [PendingStore.step, evictExpired_counters]
    omega
  | hangUp ch => exact hb

end Balanced

theorem Fresh.of_append {ops ops' : List (Op α)} (h : Fresh (ops ++ ops')) : Fresh ops :=
  fun pre id kind now timeout post hops => h pre id kind now timeout (post ++ ops') (by simp [hops])

/-- As long as no registration comes while its identifier is waiting, every registration
is delivered, abandoned, expired or still waiting. -/
theorem balanced_run {ops : List (Op α)} (h : Fresh ops) : (empty.run ops).Balanced := by
  induction ops using List.reverseRecOn with
  | nil => rfl
  | append_singleton ops op ih =>
    rw [run_append_singleton]
    refine (ih h.of_append).step (sound_empty.run ops) op fun id kind now timeout hop => ?_
    exact h ops id kind now timeout [] (by rw [hop])

/-- The operations that read the clock read it in order. -/
def Chronological (ops : List (Op α)) : Prop := (ops.filterMap Op.time?).Pairwise (· ≤ ·)

/-- In a chronological sequence a registration comes no later than any delivery after it. -/
theorem Chronological.registered_le {pre mid : List (Op α)} {id id' : Uuid} {kind : String}
    {registeredAt timeout now : Nat} {payload : α}
    (h : Chronological (pre ++ .register id kind registeredAt timeout :: mid ++
      [.deliver id' payload now])) : registeredAt ≤ now := by
  simp only [Chronological, List.filterMap_append, List.filterMap_cons, Op.time?,
    List.filterMap_nil, List.pairwise_append, List.pairwise_cons] at h
  exact h.2.2 registeredAt (by simp) now (List.mem_singleton_self _)

/-- The laws of a table of waiting requests along every sequence of its operations:

* the first delivery after a registration hands its payload on, to a caller still
  listening, with the time since the registration; a later one finds nothing;
* eviction removes exactly the waiters whose deadline has come, and reports how many;
* a request is waiting exactly while its latest registration has been neither delivered,
  cancelled nor evicted;
* as long as no registration comes while its identifier is waiting, every registration is
  delivered, abandoned, expired or still waiting. -/
theorem run_waiters :
    (∀ (pre mid : List (Op α)) (id : Uuid) (kind : String) (registeredAt timeout : Nat)
        (payload : α) (now : Nat),
      (∀ op ∈ mid, ¬op.Registers id) →
      Chronological (pre ++ .register id kind registeredAt timeout :: mid ++
        [.deliver id payload now]) →
      let s := empty.run (pre ++ .register id kind registeredAt timeout :: mid)
      let ch := ((empty.run pre).register id kind registeredAt timeout).1
      ((s.deliver id payload now).1 = .unknown ↔
        ∃ op ∈ mid, op.Closes id (registeredAt + timeout)) ∧
      ((s.deliver id payload now).1 = .delivered ↔
        (∀ op ∈ mid, ¬op.Closes id (registeredAt + timeout)) ∧ .hangUp ch ∉ mid) ∧
      ((s.deliver id payload now).1 = .callerGone ↔
        (∀ op ∈ mid, ¬op.Closes id (registeredAt + timeout)) ∧ .hangUp ch ∈ mid) ∧
      ((s.deliver id payload now).1 = .delivered →
        ∃ r : Reply α, ((s.deliver id payload now).2.1.channels.get? ch).bind (·.value) = some r ∧
          r.correlationId = id ∧ r.payload = payload ∧ registeredAt + r.roundTrip = now)) ∧
    (∀ (s : PendingStore α) (now : Nat),
      (∀ w, w ∈ (s.evictExpired now).2.1.waiters ↔ w ∈ s.waiters ∧ now < w.deadline) ∧
      (s.evictExpired now).2.1.len + (s.evictExpired now).1 = s.len) ∧
    (∀ (ops : List (Op α)) (id : Uuid), (empty.run ops).contains id = true ↔
      ∃ pre kind now timeout post, ops = pre ++ .register id kind now timeout :: post ∧
        ∀ op ∈ post, ¬op.Registers id ∧ ¬op.Closes id (now + timeout)) ∧
    (∀ ops : List (Op α), Fresh ops →
      (empty.run ops).counters.registered = (empty.run ops).counters.delivered +
        (empty.run ops).counters.abandoned + (empty.run ops).counters.expired + (empty.run ops).len) := by
  refine ⟨?_, fun s now => ⟨mem_evictExpired s now, len_evictExpired s now⟩, contains_run_iff,
    fun ops h => balanced_run h⟩
  intro pre mid id kind registeredAt timeout payload now hmid hchron s ch
  have hs₁ := sound_empty.run (α := α) pre
  have hs : s = ((empty.run pre).step (.register id kind registeredAt timeout)).run mid := by
    simp only [s, run_append, run_cons]
  obtain ⟨hu, hd, hg, hr⟩ := deliver_run_of_find? (hs₁.step (.register id kind registeredAt timeout))
    payload now (find?_register_self hs₁ id kind registeredAt timeout)
    (get?_register_self hs₁ id kind registeredAt timeout) hmid
  rw [hs]
  refine ⟨hu, hd, hg, fun hdel => ⟨_, hr hdel, rfl, rfl, ?_⟩⟩
  -- the round trip is the time since the registration, which came first
  have hle := hchron.registered_le
  dsimp only
  omega

/-- One request registered, then answered five nanoseconds later: the caller gets the
reply, and the registration is accounted for as delivered. -/
theorem run_waiters_answered :
    (Chronological [Op.register ⟨0, 1⟩ "validate_device_token" 0 10, .deliver ⟨0, 1⟩ "ok" 5] ∧
      Fresh [Op.register ⟨0, 1⟩ "validate_device_token" 0 10, .deliver ⟨0, 1⟩ "ok" 5]) ∧
    ((empty.run [Op.register ⟨0, 1⟩ "validate_device_token" 0 10]).deliver ⟨0, 1⟩ "ok" 5).1 =
        .delivered ∧
      (empty.run [Op.register ⟨0, 1⟩ "validate_device_token" 0 10, .deliver ⟨0, 1⟩ "ok" 5]).Balanced := by
  have hchron : Chronological [Op.register ⟨0, 1⟩ "validate_device_token" 0 10, .deliver ⟨0, 1⟩ "ok" 5] := by
    simp [Chronological, Op.time?]
  have hfresh : Fresh [Op.register ⟨0, 1⟩ "validate_device_token" 0 10, .deliver ⟨0, 1⟩ "ok" 5] := by
    intro pre id kind now timeout post h
    rcases pre with _ | ⟨a, _ | ⟨b, rest⟩⟩
    · rfl
    · simp at h
    · simp at h
  refine ⟨⟨hchron, hfresh⟩, ?_, (run_waiters (α := String)).2.2.2 _ hfresh⟩
  have h := ((run_waiters (α := String)).1 [] [] ⟨0, 1⟩ "validate_device_token" 0 10 "ok" 5
    (fun _ h => absurd h List.not_mem_nil) hchron).2.1
  exact h.2 ⟨fun _ h => absurd h List.not_mem_nil, List.not_mem_nil⟩

end PendingStore

end TokenGate
