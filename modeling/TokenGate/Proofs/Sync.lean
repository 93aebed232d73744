import Mathlib
import TokenGate.Bus.Fetch
/-!
# `TokenGate.Proofs.Sync`: what the waiting primitives keep

The properties of the server rest on a few facts about the machine's primitives, each
said here once:

* `Core.QueueGrows`: the run queue only grows, and the clock stands still, under every
  operation of a task (only the scheduler takes a task off the queue or moves the
  clock): a task once woken stays queued until it is polled;
* a table of one-shot channels (`Channels`) is read through `get?`: opening a channel
  adds one under a fresh number (`Channels.Numbered`), and every other operation changes
  the one channel it names;
* a semaphore keeps its free permits and the permits it handed to waiters together
  (`Semaphore.release_total`, `Semaphore.abandon_total`, `Semaphore.poll_cases`), and
  a waiter handed a permit was woken (`Semaphore.mem_release`);
* a stop watch only moves forward: a poll changes registrations only, and reports a
  change exactly when its receiver should stop (`Watch.poll_change`).
-/

set_option autoImplicit false

namespace TokenGate.Sched

/-! ### The run queue and the clock -/

namespace Core

/-- `c'` holds every task queued in `c`, at the same time. -/
structure QueueGrows (c c' : Core) : Prop where
  queue : c.queue ⊆ c'.queue
  now : c'.now = c.now

variable {c c' c'' : Core}

@[refl] theorem QueueGrows.refl (c : Core) : QueueGrows c c := ⟨List.Subset.refl _, rfl⟩

@[trans] theorem QueueGrows.trans (h : QueueGrows c c') (h' : QueueGrows c' c'') :
    QueueGrows c c'' :=
  ⟨fun _ hx => h'.queue (h.queue hx), h'.now.trans h.now⟩

theorem QueueGrows.of_queue (hq : c'.queue = c.queue) (hn : c'.now = c.now) : QueueGrows c c' :=
  ⟨hq ▸ List.Subset.refl _, hn⟩

theorem queueGrows_wake (c : Core) (w : Waker) : QueueGrows c (c.wake w) := by
  cases w with
  | main => exact .of_queue rfl rfl
  | task id =>
    simp only [wake]
    split
    · exact .refl _
    · exact ⟨List.subset_append_left _ _, rfl⟩

theorem mem_queue_wake (c : Core) (id : Nat) : id ∈ (c.wake (.task id)).queue := by
  simp only [wake]
  split
  · rename_i h
    exact List.contains_iff_mem.1 h
  · simp

theorem queueGrows_wakeAll (c : Core) (ws : List Waker) : QueueGrows c (c.wakeAll ws) := by
  induction ws generalizing c with
  | nil => exact .refl _
  | cons w ws ih => exact (queueGrows_wake c w).trans (ih _)

/-- Every task among the woken is queued afterwards. -/
theorem mem_queue_wakeAll (c : Core) (ws : List Waker) (id : Nat) (h : Waker.task id ∈ ws) :
    id ∈ (c.wakeAll ws).queue := by
  induction ws generalizing c with
  | nil => simp at h
  | cons w ws ih =>
    simp only [wakeAll, List.foldl_cons] at ih ⊢
    rcases List.mem_cons.1 h with rfl | h
    · exact (queueGrows_wakeAll _ ws).queue (mem_queue_wake c id)
    · exact ih _ h

@[simp] theorem cancel?_queue (c : Core) (t : Option Nat) : (c.cancel? t).queue = c.queue := by
  cases t <;> rfl

theorem queueGrows_register (c : Core) (d : Nat) (w : Waker) : QueueGrows c (c.register d w).2 :=
  .of_queue rfl rfl
theorem queueGrows_cancel? (c : Core) (t : Option Nat) : QueueGrows c (c.cancel? t) := by
  cases t <;> exact .of_queue rfl rfl

theorem queueGrows_fire (c : Core) : QueueGrows c c.fire := by
  -- Firing drops the timers due, then wakes their owners.
  have hdrop : QueueGrows c { c with timers := c.timers.filter fun t => t.tick > c.nowTick } :=
    .of_queue rfl rfl
  exact hdrop.trans (queueGrows_wakeAll _ _)

end Core

namespace Sleep

theorem queueGrows_poll (s : Sleep) (c : Core) (w : Waker) : Core.QueueGrows c (s.poll c w).2.2 := by
  unfold poll
  split
  · exact Core.queueGrows_cancel? _ _
  · split
    · exact .refl _
    · exact Core.queueGrows_register _ _ _

theorem queueGrows_drop (s : Sleep) (c : Core) : Core.QueueGrows c (s.drop c) :=
  Core.queueGrows_cancel? _ _

end Sleep

namespace Interval

theorem queueGrows_poll (iv : Interval) (c : Core) (w : Waker) :
    Core.QueueGrows c (iv.poll c w).2.2 := by
  unfold poll
  split
  · exact Core.queueGrows_cancel? _ _
  · split
    · exact .refl _
    · exact Core.queueGrows_register _ _ _

theorem queueGrows_drop (iv : Interval) (c : Core) : Core.QueueGrows c (iv.drop c) :=
  Core.queueGrows_cancel? _ _

end Interval

/-! ### Tables of one-shot channels -/

namespace Channels

variable {α : Type} (t : Channels α)

/-- Every channel of the table was numbered before `next`. -/
def Numbered : Prop := ∀ i ∈ t.items, i.1 < t.next

@[simp] theorem get?_update (n m : Nat) (f : Oneshot α → Oneshot α) :
    (t.update n f).get? m = if m = n then (t.get? m).map f else t.get? m := by
  obtain ⟨next, items⟩ := t
  simp only [get?, update]
  by_cases hmn : m = n
  · subst hmn
    induction items with
    | nil => simp
    | cons e es ih => by_cases he : e.1 = m <;> simp_all
  · induction items with
    | nil => simp
    | cons e es ih => by_cases he : e.1 = m <;> by_cases hn : e.1 = n <;> simp_all

theorem get?_openChannel (ht : t.Numbered) (m : Nat) :
    t.openChannel.2.get? m = if m = t.next then some Oneshot.fresh else t.get? m := by
  obtain ⟨next, items⟩ := t
  simp only [openChannel, get?, List.find?_append]
  split
  · rename_i hm
    obtain rfl := hm
    have hnone : items.find? (fun i : Nat × Oneshot α => i.1 == m) = none := by
      rw [List.find?_eq_none]
      intro i hi
      have hlt : i.1 < m := ht i hi
      simp only [beq_iff_eq]
      omega
    simp [hnone]
  · rename_i hm
    cases hf : items.find? (fun i : Nat × Oneshot α => i.1 == m) with
    | none => simp [Ne.symm hm]
    | some i => simp


@[simp] theorem update_next (n : Nat) (f : Oneshot α → Oneshot α) : (t.update n f).next = t.next :=
  rfl

theorem Numbered.update {t : Channels α} (ht : t.Numbered) (n : Nat) (f : Oneshot α → Oneshot α) :
    (t.update n f).Numbered := by
  intro i hi
  simp only [Channels.update, List.mem_map] at hi
  obtain ⟨j, hj, rfl⟩ := hi
  split <;> exact ht j hj

@[simp] theorem openChannel_fst : t.openChannel.1 = t.next := rfl
@[simp] theorem openChannel_next : t.openChannel.2.next = t.next + 1 := rfl

theorem Numbered.openChannel {t : Channels α} (ht : t.Numbered) : t.openChannel.2.Numbered := by
  intro i hi
  simp only [Channels.openChannel, List.mem_append, List.mem_singleton] at hi
  rcases hi with hi | rfl
  · exact Nat.lt_succ_of_lt (ht i hi)
  · exact Nat.lt_succ_self _

/-- Changing the channel `n`, if it exists, through `f`. -/
theorem get?_modify (n m : Nat) (f : Oneshot α → Oneshot α) :
    (match t.get? n with
      | some ch => t.update n fun _ => f ch
      | none => t).get? m = if m = n then (t.get? m).map f else t.get? m := by
  split
  · rename_i ch hch
    rw [get?_update]
    split
    · rename_i hm
      subst hm
      simp [hch]
    · rfl
  · rename_i hch
    split
    · rename_i hm
      subst hm
      simp [hch]
    · rfl

theorem send_eq (n : Nat) (a : α) :
    t.send n a = match t.get? n with
      | some ch => ((ch.send a).1, t.update n (fun _ => (ch.send a).2.1), (ch.send a).2.2)
      | none => (false, t, []) := by
  unfold send
  cases t.get? n <;> rfl

@[simp] theorem get?_send (n m : Nat) (a : α) :
    (t.send n a).2.1.get? m =
      if m = n then (t.get? m).map (fun ch => (ch.send a).2.1) else t.get? m := by
  rw [send_eq, ← get?_modify t n m (fun ch => (ch.send a).2.1)]
  split <;> rfl

@[simp] theorem send_next (n : Nat) (a : α) : (t.send n a).2.1.next = t.next := by
  rw [send_eq]
  split <;> rfl

theorem Numbered.send {t : Channels α} (ht : t.Numbered) (n : Nat) (a : α) :
    (t.send n a).2.1.Numbered := by
  rw [send_eq]
  split
  · exact ht.update _ _
  · exact ht

theorem dropSender_eq (n : Nat) :
    t.dropSender n = match t.get? n with
      | some ch => (t.update n (fun _ => ch.dropSender.1), ch.dropSender.2)
      | none => (t, []) := by
  unfold dropSender
  cases t.get? n <;> rfl

@[simp] theorem get?_dropSender (n m : Nat) :
    (t.dropSender n).1.get? m = if m = n then (t.get? m).map (·.dropSender.1) else t.get? m := by
  rw [dropSender_eq, ← get?_modify t n m (·.dropSender.1)]
  split <;> rfl

@[simp] theorem dropSender_next (n : Nat) : (t.dropSender n).1.next = t.next := by
  rw [dropSender_eq]
  split <;> rfl

theorem Numbered.dropSender {t : Channels α} (ht : t.Numbered) (n : Nat) :
    (t.dropSender n).1.Numbered := by
  rw [dropSender_eq]
  split
  · exact ht.update _ _
  · exact ht

theorem tryRecv_eq (n : Nat) :
    t.tryRecv n = match t.get? n with
      | some ch => (ch.tryRecv.1, t.update n (fun _ => ch.tryRecv.2))
      | none => (.closed, t) := by
  unfold tryRecv
  cases t.get? n <;> rfl

@[simp] theorem tryRecv_fst (n : Nat) :
    (t.tryRecv n).1 = ((t.get? n).map (·.tryRecv.1)).getD .closed := by
  rw [tryRecv_eq]
  split <;> simp [*]

@[simp] theorem get?_tryRecv (n m : Nat) :
    (t.tryRecv n).2.get? m = if m = n then (t.get? m).map (·.tryRecv.2) else t.get? m := by
  rw [tryRecv_eq, ← get?_modify t n m (·.tryRecv.2)]
  split <;> rfl

@[simp] theorem tryRecv_next (n : Nat) : (t.tryRecv n).2.next = t.next := by
  rw [tryRecv_eq]
  split <;> rfl

theorem Numbered.tryRecv {t : Channels α} (ht : t.Numbered) (n : Nat) : (t.tryRecv n).2.Numbered := by
  rw [tryRecv_eq]
  split
  · exact ht.update _ _
  · exact ht

@[simp] theorem get?_dropReceiver (n m : Nat) :
    (t.dropReceiver n).get? m = if m = n then (t.get? m).map Oneshot.dropReceiver else t.get? m :=
  get?_update t n m _

@[simp] theorem dropReceiver_next (n : Nat) : (t.dropReceiver n).next = t.next := rfl

theorem Numbered.dropReceiver {t : Channels α} (ht : t.Numbered) (n : Nat) :
    (t.dropReceiver n).Numbered :=
  ht.update _ _

end Channels

/-! ### Semaphores and watches -/

namespace Semaphore

/-- The permits handed to waiters and not yet taken. -/
def handed (s : Semaphore) : Nat := s.waiters.countP (·.2.2)

/-- The waiters' keys are pairwise different and below `nextKey`. -/
structure Keyed (s : Semaphore) : Prop where
  nodup : (s.waiters.map (·.1)).Nodup
  lt : ∀ w ∈ s.waiters, w.1 < s.nextKey

/-- Marking the one waiter of key `k`, not yet handed a permit, hands out one more. -/
theorem countP_map_mark {ws : List (Nat × Waker × Bool)} (hk : (ws.map (·.1)).Nodup) {k : Nat}
    {o : Waker} (hw : (k, o, false) ∈ ws) :
    (ws.map fun e => if e.1 == k then (e.1, e.2.1, true) else e).countP (·.2.2) = ws.countP (·.2.2) + 1 := by
  induction ws with
  | nil => simp at hw
  | cons e es ih =>
    simp only [List.map_cons, List.nodup_cons, List.mem_map] at hk
    rcases List.mem_cons.1 hw with rfl | hw
    · -- the waiter is the head; no other waiter has its key
      have hrest : (es.map fun e => if e.1 == k then (e.1, e.2.1, true) else e) = es.map id := by
        refine List.map_congr_left fun e he => ?_
        simp only [beq_iff_eq, id_eq]
        split
        · rename_i hek
          exact absurd ⟨e, he, hek⟩ hk.1
        · rfl
      rw [List.map_id] at hrest
      rw [List.map_cons, List.countP_cons, List.countP_cons, hrest]
      simp
    · have hne : e.1 ≠ k := fun hek => hk.1 ⟨(k, o, false), hw, hek.symm ▸ rfl⟩
      have hb : (e.1 == k) = false := by simpa using hne
      rw [List.map_cons, List.countP_cons, List.countP_cons, ih hk.2 hw]
      simp only [hb, Bool.false_eq_true, ite_false]
      omega

/-- Dropping the waiter of key `k` takes back the permit it was handed, if any. -/
theorem countP_filter_key {ws : List (Nat × Waker × Bool)} (hk : (ws.map (·.1)).Nodup) (k : Nat) :
    (ws.filter (·.1 != k)).countP (·.2.2) + (if ws.any (fun e => e.1 == k && e.2.2) then 1 else 0) =
      ws.countP (·.2.2) := by
  induction ws with
  | nil => simp
  | cons e es ih =>
    simp only [List.map_cons, List.nodup_cons, List.mem_map] at hk
    by_cases hek : e.1 = k
    · -- the head is the waiter of key `k`: no other waiter has its key
      have hnone : es.any (fun e => e.1 == k && e.2.2) = false := by
        rw [List.any_eq_false]
        intro e' he'
        simp only [Bool.and_eq_true, beq_iff_eq, not_and]
        intro he'k
        exact absurd ⟨e', he', he'k.trans hek.symm⟩ hk.1
      have hkeep : es.filter (·.1 != k) = es := by
        rw [List.filter_eq_self]
        intro e' he'
        simp only [bne_iff_ne, ne_eq]
        intro he'k
        exact hk.1 ⟨e', he', he'k.trans hek.symm⟩
      cases h2 : e.2.2 <;> simp [hek, hnone, hkeep, h2]
    · have hb : (e.1 == k) = false := by simpa using hek
      have hrec := ih hk.2
      cases h2 : e.2.2 <;> simp only [List.filter_cons, List.any_cons, hb, Bool.false_and,
        Bool.false_or, bne_iff_ne, ne_eq, hek, not_false_eq_true, ite_true,
        List.countP_cons, h2] <;> omega

theorem release_nextKey (s : Semaphore) : s.release.1.nextKey = s.nextKey := by
  unfold release
  split <;> rfl

/-- A release adds one permit: to the free ones, or handed to the oldest waiter. -/
theorem release_total {s : Semaphore} (hk : s.Keyed) :
    s.release.1.permits + s.release.1.handed = s.permits + s.handed + 1 := by
  unfold release
  split
  · rename_i k o b hfind
    have hb : b = false := by simpa using List.find?_some hfind
    subst hb
    have hmem := List.mem_of_find?_eq_some hfind
    have hcount := countP_map_mark hk.nodup hmem
    simp only [handed] at hcount ⊢
    omega
  · simp only [handed]
    omega

theorem Keyed.release {s : Semaphore} (hk : s.Keyed) : s.release.1.Keyed := by
  unfold Semaphore.release
  split
  · constructor
    · simpa [List.map_map, Function.comp_def, apply_ite] using hk.nodup
    · intro w hw
      simp only [List.mem_map] at hw
      obtain ⟨w₀, hw₀, rfl⟩ := hw
      split <;> exact hk.lt w₀ hw₀
  · exact ⟨hk.nodup, hk.lt⟩

/-- After a release, every waiter was a waiter before, with its key and owner; one that
now holds a permit held it before or was just woken. -/
theorem mem_release {s : Semaphore} (hk : s.Keyed) {w : Nat × Waker × Bool}
    (hw : w ∈ s.release.1.waiters) :
    ∃ w₀ ∈ s.waiters, w.1 = w₀.1 ∧ w.2.1 = w₀.2.1 ∧
      (w.2.2 = true → w₀.2.2 = true ∨ w.2.1 ∈ s.release.2) := by
  unfold release at hw ⊢
  split at hw
  · rename_i k o b hfind
    simp only [List.mem_map] at hw
    obtain ⟨w₀, hw₀, rfl⟩ := hw
    refine ⟨w₀, hw₀, ?_⟩
    split
    · rename_i hkey
      -- the marked waiter is the one found, whose owner is woken
      have hfound := List.mem_of_find?_eq_some hfind
      have hsame : w₀ = (k, o, b) :=
        List.inj_on_of_nodup_map hk.nodup hw₀ hfound (by simpa using hkey)
      subst hsame
      exact ⟨rfl, rfl, fun _ => Or.inr (List.mem_singleton_self _)⟩
    · exact ⟨rfl, rfl, fun h => Or.inl h⟩
  · exact ⟨w, hw, rfl, rfl, fun h => Or.inl h⟩

/-- What a poll of an acquisition does: it takes the permit it was handed (its waiter
goes) or a free one, or it keeps waiting, registering a new waiter the first time. -/
theorem poll_cases (s : Semaphore) (reg : Option Nat) (o : Waker) :
    (∃ k, reg = some k ∧ s.waiters.any (fun e => e.1 == k && e.2.2) = true ∧
      s.poll reg o = ((true, none), { s with waiters := s.waiters.filter (·.1 != k) })) ∨
    (reg = none ∧ 0 < s.permits ∧
      s.poll reg o = ((true, none), { s with permits := s.permits - 1 })) ∨
    (∃ k, reg = some k ∧ s.waiters.any (fun e => e.1 == k && e.2.2) = false ∧
      s.poll reg o = ((false, reg), s)) ∨
    (reg = none ∧ s.permits = 0 ∧ s.poll reg o = ((false, some s.nextKey),
      { s with waiters := s.waiters ++ [(s.nextKey, o, false)], nextKey := s.nextKey + 1 })) := by
  cases reg with
  | some k =>
    cases h : s.waiters.any (fun e => e.1 == k && e.2.2)
    · exact .inr (.inr (.inl ⟨k, rfl, h, by simp [poll, h]⟩))
    · exact .inl ⟨k, rfl, h, by simp [poll, h]⟩
  | none =>
    by_cases h : 0 < s.permits
    · exact .inr (.inl ⟨rfl, h, by simp [poll, h]⟩)
    · exact .inr (.inr (.inr ⟨rfl, by omega, by simp [poll, h]⟩))

/-- What giving up an acquisition does: its waiter goes, and a permit it was handed is
released again. -/
theorem abandon_eq (s : Semaphore) (k : Nat) :
    s.abandon (some k) =
      if s.waiters.any (fun e => e.1 == k && e.2.2) then
        ({ s with waiters := s.waiters.filter (·.1 != k) } : Semaphore).release
      else ({ s with waiters := s.waiters.filter (·.1 != k) }, []) := rfl

theorem Keyed.filter {s : Semaphore} (hk : s.Keyed) (k : Nat) :
    ({ s with waiters := s.waiters.filter (·.1 != k) } : Semaphore).Keyed :=
  ⟨by simpa [List.map_filter] using hk.nodup.sublist ((List.filter_sublist).map _),
    fun w hw => hk.lt w (List.mem_of_mem_filter hw)⟩

/-- Giving up an acquisition keeps the permits, free and handed, together. -/
theorem abandon_total {s : Semaphore} (hk : s.Keyed) (reg : Option Nat) :
    (s.abandon reg).1.permits + (s.abandon reg).1.handed = s.permits + s.handed := by
  cases reg with
  | none => rfl
  | some k =>
    have hcount := countP_filter_key hk.nodup k
    rw [abandon_eq]
    split
    · rename_i hany
      have hrel := release_total (hk.filter k)
      simp only [handed, hany, ite_true] at hrel hcount ⊢
      omega
    · rename_i hany
      simp only [handed, hany, Bool.false_eq_true, ite_false] at hcount ⊢
      omega

theorem Keyed.abandon {s : Semaphore} (hk : s.Keyed) (reg : Option Nat) : (s.abandon reg).1.Keyed := by
  cases reg with
  | none => exact hk
  | some k =>
    rw [abandon_eq]
    split
    · exact (hk.filter k).release
    · exact hk.filter k

end Semaphore

namespace Watch

variable (w : Watch)

@[simp] theorem forget_version (r : Option Nat) : (w.forget r).version = w.version := by
  cases r <;> rfl
@[simp] theorem forget_closed (r : Option Nat) : (w.forget r).closed = w.closed := by
  cases r <;> rfl

/-- A poll changes the registrations only. -/
theorem poll_state (seen : Nat) (reg : Option Nat) (o : Waker) :
    (w.poll seen reg o).2.version = w.version ∧ (w.poll seen reg o).2.closed = w.closed := by
  unfold poll
  split
  · simp
  · split
    · simp
    · split
      · split <;> simp [join]
      · simp [join]

/-- A poll reports a change exactly when the receiver should stop, and otherwise keeps
what the receiver has seen. -/
theorem poll_change (seen : Nat) (reg : Option Nat) (o : Waker) :
    (w.poll seen reg o).1.1.isSome = w.stopRequested seen ∧
      ((w.poll seen reg o).1.1 = none → (w.poll seen reg o).1.2.1 = seen) := by
  unfold poll stopRequested
  split
  · rename_i h
    simp [h]
  · rename_i h
    have hv : w.version = seen := by simpa using h
    split
    · rename_i hc
      simp [hc]
    · rename_i hc
      have hc' : w.closed = false := by simpa using hc
      split
      · split <;> simp [join, hc', hv]
      · simp [join, hc', hv]

/-- Once a receiver that has seen nothing should stop, a new version or a dropped sender
keeps it so. -/
theorem stopRequested_send : w.send.1.stopRequested 0 = true := by
  simp [send, stopRequested]

theorem stopRequested_close : w.close.1.stopRequested 0 = true := by
  simp [close, stopRequested]

end Watch

end TokenGate.Sched

namespace TokenGate

open Sched

/-! ### The hub and fetches -/

namespace Hub

theorem queueGrows_publish (h : Hub) (c : Core) (topic : String) (key : Option String)
    (value : List UInt8) : Core.QueueGrows c (h.publish c topic key value).2.2 := by
  unfold publish
  split
  · exact .refl _
  · exact Core.queueGrows_wakeAll _ _

theorem queueGrows_close (h : Hub) (c : Core) : Core.QueueGrows c (h.close c).2 :=
  Core.queueGrows_wakeAll _ _

end Hub

theorem FetchWait.queueGrows_drop? (w : Option FetchWait) (h : Hub) (c : Core) :
    Core.QueueGrows c (FetchWait.drop? w h c).2 := by
  cases w with
  | none => exact .refl _
  | some w => exact Sleep.queueGrows_drop _ _

namespace Fetch

theorem queueGrows_attempt (h : Hub) (c : Core) (cons : Consumer) (max deadline : Nat)
    (owner : Waker) : Core.QueueGrows c (attempt h c cons max deadline owner).core := by
  unfold attempt
  split
  next key arrivals _ =>
  extract_lets h'
  split
  · exact .refl _
  · split
    · exact .refl _
    · split
      · exact .refl _
      · -- name the parts of the sleep's poll, so that nothing evaluates it
        split
        next elapsed sl c' hp =>
        have hg : Core.QueueGrows c c' := by
          have hpoll := Sleep.queueGrows_poll (Sleep.ofDeadline deadline) c owner
          rw [hp] at hpoll
          exact hpoll
        split <;> exact hg

theorem queueGrows_resume (h : Hub) (c : Core) (cons : Consumer) (max : Nat) (w : FetchWait)
    (owner : Waker) : Core.QueueGrows c (resume h c cons max w owner).core := by
  unfold resume
  split
  · exact (Sleep.queueGrows_drop _ _).trans (queueGrows_attempt _ _ _ _ _ _)
  · split
    next elapsed sl c' hp =>
    have hg : Core.QueueGrows c c' := by
      have hpoll := Sleep.queueGrows_poll w.sleep c owner
      rw [hp] at hpoll
      exact hpoll
    split <;> exact hg

theorem queueGrows_poll (h : Hub) (c : Core) (cons : Consumer) (max timeout : Nat)
    (w : Option FetchWait) (owner : Waker) : Core.QueueGrows c (poll h c cons max timeout w owner).core := by
  cases w with
  | none => exact queueGrows_attempt _ _ _ _ _ _
  | some w => exact queueGrows_resume _ _ _ _ _ _

end Fetch

end TokenGate
