import TokenGate.Proofs.LoopMoves
import TokenGate.Proofs.Pending
import TokenGate.Proofs.Commits
/-!
# `TokenGate.Proofs.LoopTurns`: a consume loop's run, move by move

A consume loop stands, at each moment, at its consumer and the record it holds
(`ConsumeLoop.Stands`). This module follows one run of a loop (`consumeRun_tracks`) and
shows it records moves of its own only, each possible where the loop stood, leading to the
stand its next state stands at (`Exchange.Advances`), and that the tasks it starts take new
numbers (`Exchange.Spawns`). One turn at a time:

* a wait (`consumeWait_tracks`) commits the consumer as it stands, or takes one record; a
  poll on a sound broker hands over a record at or past the consumer's position and moves
  the position one past it (`Exchange.fetch_one`), and short of a record leaves it;
* a loop holding a record (`consumeAcquire_tracks`) hands it to `dispatch`, or leaves or
  waits on holding it, with no commit;
* a pause and the first turn, which makes the commit tick, move nothing.
-/

set_option autoImplicit false

namespace TokenGate

open Sched

/-! ### What a poll takes -/

/-- A look for one record that takes one moves the position one past it. -/
theorem Consumer.take_one {b : Broker} (hs : b.Sound) {c c' : Consumer} {r : BusRecord}
    {rs : List BusRecord} (h : c.take b 1 = .ok (r :: rs, c')) :
    c.position ≤ r.offset ∧ c' = { c with position := r.offset + 1 } := by
  cases hlog : b.log? c.topic c.partition with
  | none =>
    -- no such partition: the look takes nothing, or fails
    simp only [Consumer.take, Broker.fetch] at h
    simp only [Broker.log?, Option.bind_eq_none_iff] at hlog
    split at h
    · simp [bind, Except.bind, pure, Except.pure] at h
    · next t ht =>
      split at h
      · cases h
      · next log hp => exact absurd hp (by simp [hlog t ht])
  | some log =>
    obtain ⟨rs', htake, hoff, -⟩ := Consumer.take_spec (hs.log?_sound hlog) hlog 1
    rw [htake, Except.ok.injEq, Prod.mk.injEq] at h
    obtain ⟨rfl, hc'⟩ := h
    -- one record at most: its offset is the first the window holds
    have hk : min 1 (log.endOffset - max c.position log.base) = 1 := by
      have := congrArg List.length hoff
      simp only [List.length_map, List.length_cons, List.length_range'] at this
      omega
    rw [hk, List.map_cons, List.range'_one, List.cons.injEq] at hoff
    rw [if_neg (by omega)] at hc'
    refine ⟨by omega, ?_⟩
    rw [← hc', hoff.1, hk]

namespace Fetch

/-- What a poll of a fetch hands its consumer: records only from one look at the broker,
with the consumer that look leaves; short of records, the consumer as it was. -/
theorem poll_consumer (h : Hub) (c : Sched.Core) (cons : Consumer) (limit timeout : Nat)
    (w : Option FetchWait) (owner : Sched.Waker) :
    (∀ rs, (poll h c cons limit timeout w owner).result = some (.ok rs) → rs ≠ [] →
      cons.take h.broker limit = .ok (rs, (poll h c cons limit timeout w owner).consumer)) ∧
    ((∀ rs, (poll h c cons limit timeout w owner).result = some (.ok rs) → rs = []) →
      (poll h c cons limit timeout w owner).consumer = cons) := by
  -- an attempt on a hub over broker `b`
  have hattempt : ∀ (h' : Hub) (c' : Sched.Core) (deadline : Nat), h'.broker = h.broker →
      (∀ rs, (attempt h' c' cons limit deadline owner).result = some (.ok rs) → rs ≠ [] →
        cons.take h.broker limit = .ok (rs, (attempt h' c' cons limit deadline owner).consumer)) ∧
      ((∀ rs, (attempt h' c' cons limit deadline owner).result = some (.ok rs) → rs = []) →
        (attempt h' c' cons limit deadline owner).consumer = cons) := by
    intro h' c' deadline hb
    obtain ⟨-, -, hrs, hnil, hwait, herr⟩ := attempt_spec h' c' cons limit owner deadline
    refine ⟨fun rs hr hne => hb ▸ (hrs rs hr hne).2, fun hno => ?_⟩
    cases hres : (attempt h' c' cons limit deadline owner).result with
    | none => exact (hwait hres).1
    | some f =>
      cases f with
      | ok rs =>
        obtain rfl := hno rs hres
        exact (hnil hres).1
      | error e => exact herr e hres
  cases w with
  | none => exact hattempt h c (c.now + timeout) rfl
  | some w =>
    obtain ⟨hwoken, hquiet⟩ := resume_spec h c cons limit owner w
    cases hn : h.arrivals.isNotified w.key with
    | true =>
      -- woken: a new attempt on the same broker
      have hp : poll h c cons limit timeout (some w) owner =
          attempt (h.forget w.key) (w.sleep.drop c) cons limit w.deadline owner := hwoken hn
      rw [hp]
      exact hattempt _ _ _ rfl
    | false =>
      -- not woken: no look, the consumer as it was
      obtain ⟨hc, ⟨hr, -⟩ | ⟨hr, -⟩⟩ := hquiet hn
      · refine ⟨fun rs h' hne => ?_, fun _ => hc⟩
        simp only [poll] at h'
        rw [hr, Option.some.injEq, Except.ok.injEq] at h'
        exact absurd h'.symm hne
      · refine ⟨fun rs h' => ?_, fun _ => hc⟩
        simp only [poll] at h'
        rw [hr] at h'
        cases h'

end Fetch

namespace Exchange

variable {x y z : Exchange}

/-- A poll for one record on a sound broker: a record comes at or past the consumer's
position, which moves one past it; short of a record, the consumer stays. -/
theorem fetch_one (hs : x.hub.broker.Sound) (cons : Consumer) (timeout : Nat)
    (w : Option FetchWait) (owner : Sched.Waker) :
    (∀ r rs, (x.fetch cons 1 timeout w owner).1.result = some (.ok (r :: rs)) →
      cons.position ≤ r.offset ∧
        (x.fetch cons 1 timeout w owner).1.consumer = { cons with position := r.offset + 1 }) ∧
    ((∀ r rs, (x.fetch cons 1 timeout w owner).1.result ≠ some (.ok (r :: rs))) →
      (x.fetch cons 1 timeout w owner).1.consumer = cons) := by
  obtain ⟨hrs, hnil⟩ := Fetch.poll_consumer x.hub x.core cons 1 timeout w owner
  refine ⟨fun r rs hr => Consumer.take_one hs (hrs _ hr (List.cons_ne_nil _ _)), fun hno => hnil ?_⟩
  intro rs hr
  cases rs with
  | nil => rfl
  | cons r rs => exact absurd hr (hno r rs)

end Exchange

/-- The record a consume loop's phase holds, if it holds one. -/
def ConsumePhase.record? : ConsumePhase → Option BusRecord
  | .acquiring r _ _ => some r
  | _ => none

/-- A consume loop stands at `s`: its consumer is the stand's, and it holds a record,
waiting for a slot, exactly when the stand holds that record. -/
structure ConsumeLoop.Stands (l : ConsumeLoop) (s : LoopStand) : Prop where
  consumer : l.consumer = s.consumer
  record : l.phase.record? = s.held
  held : l.held = s.held.isSome

/-- A loop stands at one place only. -/
theorem ConsumeLoop.Stands.unique {l : ConsumeLoop} {s s' : LoopStand} (h : l.Stands s)
    (h' : l.Stands s') : s = s' := by
  obtain ⟨c, held⟩ := s
  obtain ⟨c', held'⟩ := s'
  have hc : c = c' := h.consumer.symm.trans h'.consumer
  have hh : held = held' := h.record.symm.trans h'.record
  rw [hc, hh]

namespace Exchange

variable {x y z : Exchange}

/-- From `x` to `y` the tasks of `x` stay or end, and every new one takes a number not given
out before. -/
structure Spawns (x y : Exchange) : Prop where
  next : x.nextTask ≤ y.nextTask
  tasks : ∀ p ∈ y.tasks, p ∈ x.tasks ∨ x.nextTask ≤ p.1

namespace Spawns

theorem refl (x : Exchange) : Spawns x x := ⟨le_rfl, fun _ hp => .inl hp⟩

theorem of_subset (ht : y.tasks ⊆ x.tasks) (hn : x.nextTask ≤ y.nextTask) : Spawns x y :=
  ⟨hn, fun _ hp => .inl (ht hp)⟩

theorem trans (h₁ : Spawns x y) (h₂ : Spawns y z) : Spawns x z := by
  refine ⟨h₁.next.trans h₂.next, fun p hp => ?_⟩
  rcases h₂.tasks p hp with hy | hn
  · exact h₁.tasks p hy
  · exact .inr (h₁.next.trans hn)

/-- A task started takes the next number. -/
theorem spawn (x : Exchange) (t : Task) : Spawns x (x.spawn t).2 := by
  refine ⟨Nat.le_succ _, fun p hp => ?_⟩
  rcases List.mem_append.1 hp with hp | hp
  · exact .inl hp
  · rw [List.mem_singleton.1 hp]
    exact .inr le_rfl

/-- `dispatch` starts at most a handler. -/
theorem dispatch (x : Exchange) (r : BusRecord) : Spawns x (x.dispatch r).2 := by
  have hgrow : ∀ z : Exchange, ∀ t : Task, z.tasks = x.tasks ++ [(x.nextTask, t)] →
      x.nextTask ≤ z.nextTask → Spawns x z := by
    intro z t ht hn
    refine ⟨hn, fun p hp => ?_⟩
    rw [ht] at hp
    rcases List.mem_append.1 hp with hp | hp
    · exact .inl hp
    · rw [List.mem_singleton.1 hp]
      exact .inr le_rfl
  rcases x.dispatch_cases r with
    ⟨-, hd⟩ | ⟨env, hdec, ⟨-, hd⟩ | ⟨-, -, hd⟩ | ⟨hnot, hin, hcl, -⟩ | ⟨-, -, -, hd⟩⟩
  · rw [hd]
    exact .of_subset (by simp [skipped]) le_rfl
  · rw [hd]
    exact .of_subset (by simp [skipped]) le_rfl
  · -- overflowed: the handler started runs on
    rw [hd]
    exact hgrow _ _ rfl (Nat.le_succ _)
  · -- dropped: the handler started is stopped at once
    unfold Exchange.dispatch
    rw [hdec]
    dsimp only
    rw [if_neg (by simpa using hnot)]
    simp only [count, Exchange.spawn]
    split
    · next hnone => exact absurd (by simpa using hnone) hin
    simp only [hcl, ite_true]
    refine .of_subset ?_ ?_
    · simp only [releaseSlot_tasks, abortHandler_tasks]
      intro p hp
      obtain ⟨hp, hne⟩ := List.mem_filter.1 hp
      rcases List.mem_append.1 hp with hp | hp
      · exact hp
      · rw [List.mem_singleton.1 hp] at hne
        simp at hne
    · rw [abortHandler_core]
      exact Nat.le_succ _
  · rw [hd]
    exact hgrow _ _ rfl (Nat.le_succ _)

end Spawns

/-- From `x` to `y` loop `id` records moves of its own only, which lead from stand `s` to
stand `s'`. -/
def Advances (id : Nat) (x : Exchange) (s : LoopStand) (y : Exchange) (s' : LoopStand) : Prop :=
  ∃ evs, y.history = x.history ++ evs ∧
    (∀ e ∈ evs, e.2.task? = some id ∧ ∀ t c, e.2 ≠ .consuming t c) ∧
    s.follow (loopMoves id evs) = some s'

namespace Advances

variable {id : Nat} {s s' s'' : LoopStand}

theorem of_history (hh : y.history = x.history) : Advances id x s y s :=
  ⟨[], by simp [hh], by simp, rfl⟩

theorem trans (h₁ : Advances id x s y s') (h₂ : Advances id y s' z s'') : Advances id x s z s'' := by
  obtain ⟨evs₁, hh₁, ho₁, hf₁⟩ := h₁
  obtain ⟨evs₂, hh₂, ho₂, hf₂⟩ := h₂
  refine ⟨evs₁ ++ evs₂, by rw [hh₂, hh₁, List.append_assoc], fun e he => ?_, ?_⟩
  · rcases List.mem_append.1 he with he | he
    · exact ho₁ e he
    · exact ho₂ e he
  · rw [loopMoves_append, LoopStand.follow_append, hf₁]
    exact hf₂

/-- One event of the loop's own, a move possible from `s`. -/
theorem snoc {t : Nat} {e : Event} (hh : y.history = x.history ++ [(t, e)]) (he : e.task? = some id)
    (hc : ∀ t c, e ≠ .consuming t c) (hm : s.follow (loopMoves id [(t, e)]) = some s') :
    Advances id x s y s' :=
  ⟨[(t, e)], hh, by simpa using ⟨he, hc⟩, hm⟩

/-- A commit of the consumer as it stands, holding nothing, leaves the stand. -/
theorem commit {t : Nat} (hh : y.history = x.history ++ [(t, .committed id s.consumer)])
    (hs : s.held = none) : Advances id x s y s := by
  refine snoc hh rfl (fun _ _ h => by cases h) ?_
  obtain ⟨c, held⟩ := s
  simp only at hs
  subst hs
  simp [LoopStand.follow, LoopStand.move]

/-- A record taken while nothing is held, at or past the consumer's position: the loop holds it
and stands past it. -/
theorem took {t : Nat} {r : BusRecord} (hh : y.history = x.history ++ [(t, .took id r)])
    (hs : s.held = none) (hle : s.consumer.position ≤ r.offset) :
    Advances id x s y ⟨{ s.consumer with position := r.offset + 1 }, some r⟩ := by
  refine snoc hh rfl (fun _ _ h => by cases h) ?_
  obtain ⟨c, held⟩ := s
  simp only at hs hle
  subst hs
  simp [LoopStand.follow, LoopStand.move, hle]

/-- Leaving the loop commits the consumer as it stands, unless a record is held. -/
theorem leaveConsume {l : ConsumeLoop} (hc : l.consumer = s.consumer)
    (hh : l.held = false → s.held = none) : Advances id x s (Exchange.leaveConsume x id l) s := by
  cases hl : l.held with
  | true => exact of_history (by simp [hl])
  | false => exact commit (t := x.core.now) (by simp [hl, hc]) (hh hl)

/-- A commit of the consumer as it stands, holding nothing. -/
theorem commitAs (hh : y.history = x.history) (hs : s.held = none) :
    Advances id x s (y.commitAs id s.consumer) s :=
  commit (t := y.core.now) (by simp [hh]) hs

/-- The record held handed to `dispatch`: the loop holds nothing more. -/
theorem dispatched {t : Nat} {r : BusRecord} {a : Admission}
    (hh : y.history = x.history ++ [(t, .dispatched id r a)]) (hs : s.held = some r) :
    Advances id x s y ⟨s.consumer, none⟩ := by
  refine snoc hh rfl (fun _ _ h => by cases h) ?_
  obtain ⟨c, held⟩ := s
  simp only at hs
  subst hs
  simp [LoopStand.follow, LoopStand.move]

end Advances

end Exchange

namespace Exchange

section NextTask

variable (x : Exchange)

@[simp] theorem note_nextTask (e : Event) : (x.note e).nextTask = x.nextTask := rfl
@[simp] theorem wakeAll_nextTask (ws : List Sched.Waker) : (x.wakeAll ws).nextTask = x.nextTask := rfl
@[simp] theorem dropFetch_nextTask (w : Option FetchWait) : (x.dropFetch w).nextTask = x.nextTask := rfl
@[simp] theorem forgetStop_nextTask (reg : Option Nat) : (x.forgetStop reg).nextTask = x.nextTask := rfl
@[simp] theorem commitAs_nextTask (id : Nat) (c : Consumer) : (x.commitAs id c).nextTask = x.nextTask := rfl
@[simp] theorem releaseSlot_nextTask : x.releaseSlot.nextTask = x.nextTask := rfl
@[simp] theorem fetch_nextTask (c : Consumer) (max timeout : Nat) (w : Option FetchWait) (o : Sched.Waker) :
    (x.fetch c max timeout w o).2.nextTask = x.nextTask := rfl
@[simp] theorem leaveConsume_nextTask (id : Nat) (l : ConsumeLoop) :
    (leaveConsume x id l).nextTask = x.nextTask := by
  unfold leaveConsume
  dsimp only
  split <;> rfl

end NextTask

variable {x : Exchange} {s : LoopStand}

/-- A consume loop's wait, holding nothing: it commits its consumer as it stands, or takes
one record at or past its position and holds it, or records nothing. -/
theorem consumeWait_tracks (hs : x.hub.broker.Sound) (id : Nat) {l : ConsumeLoop}
    (hl : l.Stands s) (hheld : s.held = none) (iv : Interval) (reg : Option Nat)
    (fw : Option FetchWait) :
    ∃ s', Advances id x s (consumeWait id l iv reg fw x).exchange s' ∧
      ∀ l' ∈ (consumeWait id l iv reg fw x).state?, l'.Stands s' := by
  have hlh : l.held = false := by simpa [hheld] using hl.held
  -- the loop waits on as it stands, or as it stands after a poll that took nothing
  have hwait : ∀ (l' : ConsumeLoop), l'.consumer = l.consumer → l'.held = false →
      l'.phase.record? = none → l'.Stands s := fun l' hc hh hr =>
    ⟨hc.trans hl.consumer, by rw [hr, hheld], by rw [hh, hheld]; rfl⟩
  rw [consumeWait]
  split
  next _ chg seen reg' w hpoll =>
  extract_lets y₁ l₁
  split
  · -- a stop: the loop leaves with a last commit
    exact ⟨s, (Advances.of_history (by simp +zetaDelta)).trans
      (.leaveConsume (l := l₁) hl.consumer fun _ => hheld), fun _ h => by cases h⟩
  · split
    next _ ready iv' core hiv =>
    extract_lets y₂ l₂
    split
    · -- the commit tick: the consumer is committed as it stands
      refine ⟨s, ?_, fun l' hl' => ?_⟩
      · simp only [Turn.exchange_next]
        rw [show l₂.consumer = s.consumer from hl.consumer]
        exact .commitAs (by simp +zetaDelta) hheld
      · obtain rfl : _ = l' := Option.some.inj hl'
        exact hwait _ rfl hlh rfl
    split
    · -- a poll past the clock's range: the loop stops, with no commit
      exact ⟨s, (Advances.of_history (y := y₂.forgetStop reg') (by simp +zetaDelta)).trans
        (.leaveConsume (l := { l₂ with held := true }) hl.consumer fun h => by cases h),
        fun _ h => by cases h⟩
    · split
      next _ st y₃ hfetch =>
      have hf := fetch_one (x := y₂) (by simpa +zetaDelta using hs) l₂.consumer y₂.pollInterval fw
        (.task id)
      rw [hfetch] at hf
      simp only at hf
      have hh₃ : y₃.history = x.history := by
        have := fetch_history y₂ l₂.consumer 1 y₂.pollInterval fw (.task id)
        rw [hfetch] at this
        simpa +zetaDelta using this
      -- short of a record, the consumer is as it was
      have hsame : (∀ r rs, st.result ≠ some (.ok (r :: rs))) → st.consumer = l.consumer := hf.2
      extract_lets l₃
      split
      · next hnone =>
        -- still waiting
        refine ⟨s, .of_history hh₃, fun l' hl' => ?_⟩
        obtain rfl : _ = l' := Option.some.inj hl'
        exact hwait _ (hsame fun r rs h => by rw [hnone] at h; cases h) hlh rfl
      · split
        · -- nothing came
          next hr =>
          refine ⟨s, .of_history (by simp +zetaDelta [hh₃]), fun l' hl' => ?_⟩
          obtain rfl : _ = l' := Option.some.inj hl'
          exact hwait _ (hsame fun r rs h => by rw [hr] at h; simp at h) hlh rfl
        · -- a record came: the loop takes it and holds it
          next record rest hr =>
          obtain ⟨hle, hc⟩ := hf.1 record rest hr
          refine ⟨⟨{ s.consumer with position := record.offset + 1 }, some record⟩, ?_,
            fun l' hl' => ?_⟩
          · exact .took (t := (y₃.forgetStop reg').core.now) (by simp +zetaDelta [hh₃]) hheld
              (by simpa +zetaDelta [hl.consumer] using hle)
          · obtain rfl : _ = l' := Option.some.inj hl'
            exact ⟨by simp +zetaDelta [hc, hl.consumer], rfl, rfl⟩
        · -- the topic closed: the loop leaves with a last commit
          next hr =>
          have hc := hsame fun r rs h => by rw [hr] at h; simp at h
          exact ⟨s, (Advances.of_history (by simp +zetaDelta [hh₃])).trans
            (.leaveConsume (l := l₃) (by simpa +zetaDelta [hc] using hl.consumer) fun _ => hheld),
            fun _ h => by cases h⟩
        · -- a failed poll: the loop rests, the consumer as it was
          next e _ hr =>
          refine ⟨s, .of_history (by simp +zetaDelta [hh₃]), fun l' hl' => ?_⟩
          obtain rfl : _ = l' := Option.some.inj hl'
          exact hwait _ (hsame fun r rs h => by rw [hr] at h; simp at h) hlh rfl

/-- A consume loop's turn holding a record: it leaves holding it, with no commit, or waits
on holding it, or hands it to `dispatch` and holds nothing more. -/
theorem consumeAcquire_tracks (id : Nat) {l : ConsumeLoop} (hl : l.Stands s) {record : BusRecord}
    (hheld : s.held = some record) (reg slot : Option Nat) :
    ∃ s', Advances id x s (consumeAcquire id l record reg slot x).exchange s' ∧
      Spawns x (consumeAcquire id l record reg slot x).exchange ∧
      ∀ l' ∈ (consumeAcquire id l record reg slot x).state?, l'.Stands s' := by
  have hlh : l.held = true := by simpa [hheld] using hl.held
  rw [consumeAcquire]
  split
  next _ chg seen reg' w hpoll =>
  extract_lets y₁ l₁
  split
  · -- a stop: the loop leaves holding the record, with no commit
    split
    exact ⟨s, (Advances.of_history (by simp +zetaDelta)).trans
      (.leaveConsume (l := l₁) hl.consumer fun h => by simp [l₁, hlh] at h),
      .of_subset (by simp +zetaDelta) (by simp +zetaDelta), fun _ h => by cases h⟩
  · split
    next _ ok slot' slots hslot =>
    extract_lets y₂
    split
    · split
      · -- a stop seen once the slot came: the loop leaves holding the record
        exact ⟨s, (Advances.of_history (by simp +zetaDelta)).trans
          (.leaveConsume (l := l₁) hl.consumer fun h => by simp [l₁, hlh] at h),
          .of_subset (by simp +zetaDelta) (by simp +zetaDelta), fun _ h => by cases h⟩
      · split
        next adm y₄ hdisp =>
        have hsp : Spawns x y₄ := by
          have h₄ := Spawns.dispatch (y₂.forgetStop reg') record
          rw [hdisp] at h₄
          exact (Spawns.of_subset (by simp +zetaDelta) (by simp +zetaDelta)).trans h₄
        have hh₄ : y₄.history = x.history := by
          have h₄ := (dispatch_hub_history (x := y₂.forgetStop reg') record).2
          rw [hdisp] at h₄
          simpa +zetaDelta using h₄
        -- the record goes to `dispatch`: the loop holds nothing more
        have hadv : Advances id x s (y₄.note (.dispatched id record adm)) ⟨s.consumer, none⟩ :=
          .dispatched (t := y₄.core.now) (a := adm) (by simp [hh₄]) hheld
        split
        · -- a deadline past the clock's range stops the loop, with no commit
          exact ⟨_, hadv.trans (.leaveConsume (l := { l₁ with held := true })
            (by simpa +zetaDelta using hl.consumer) fun h => by cases h),
            hsp.trans (.of_subset (by simp) (by simp)), fun _ h => by cases h⟩
        · refine ⟨_, hadv, hsp.trans (.of_subset (by simp) (by simp)), fun l' hl' => ?_⟩
          obtain rfl : _ = l' := Option.some.inj hl'
          exact ⟨by simpa +zetaDelta using hl.consumer, rfl, rfl⟩
    · -- no slot yet: the loop waits on holding the record
      refine ⟨s, .of_history (by simp +zetaDelta), .of_subset (by simp +zetaDelta) (by simp +zetaDelta),
        fun l' hl' => ?_⟩
      obtain rfl : _ = l' := Option.some.inj hl'
      exact ⟨by simpa +zetaDelta using hl.consumer, by simp [ConsumePhase.record?, hheld],
        by simp +zetaDelta [hlh, hheld]⟩

/-- A loop that holds a record exactly while it waits for a slot stands at its consumer
and the record its phase holds. -/
theorem ConsumeLoop.Holding.stands {l : ConsumeLoop} (h : l.Holding) :
    l.Stands ⟨l.consumer, l.phase.record?⟩ := by
  refine ⟨rfl, rfl, ?_⟩
  unfold ConsumeLoop.Holding at h
  cases hp : l.phase <;> rw [hp] at h <;> simp [ConsumePhase.record?, h]

/-- One turn of a consume loop from stand `s`: its moves lead to the stand its next state
stands at, and the tasks it starts are new. -/
theorem consumeTurn_tracks (hs : x.hub.broker.Sound) (id : Nat) {l : ConsumeLoop} (hl : l.Stands s) :
    ∃ s', Advances id x s (consumeTurn id l x).exchange s' ∧ Spawns x (consumeTurn id l x).exchange ∧
      ∀ l' ∈ (consumeTurn id l x).state?, l'.Stands s' := by
  unfold consumeTurn
  split
  · -- the first turn makes the commit tick
    refine ⟨s, .of_history rfl, .refl x, fun l' hl' => ?_⟩
    obtain rfl : _ = l' := Option.some.inj hl'
    exact ⟨hl.consumer, hl.record, hl.held⟩
  · split
    · next sl hp =>
      -- a pause moves the clock only
      have hheld : s.held = none := by rw [← hl.record, hp]; rfl
      rw [consumePause]
      rcases sl.poll x.core (.task id) with ⟨elapsed, sl', core⟩
      split
      · refine ⟨s, .of_history rfl, .of_subset (fun _ h => h) le_rfl, fun l' hl' => ?_⟩
        obtain rfl : _ = l' := Option.some.inj hl'
        exact ⟨hl.consumer, hheld.symm, by simp [hl.held, hheld]⟩
      · refine ⟨s, .of_history rfl, .of_subset (fun _ h => h) le_rfl, fun l' hl' => ?_⟩
        obtain rfl : _ = l' := Option.some.inj hl'
        exact ⟨hl.consumer, hheld.symm, by simp [hl.held, hheld]⟩
    · next reg fw hp =>
      have hheld : s.held = none := by rw [← hl.record, hp]; rfl
      obtain ⟨s', hadv, hst⟩ := consumeWait_tracks hs id hl hheld _ reg fw
      refine ⟨s', hadv, .of_subset ?_ (onward_consumeWait x id l (.refl x) _ reg fw).next, hst⟩
      rw [(consumeWait_frame x id l _ reg fw).2.1]
      exact fun _ h => h
    · next record reg slot hp =>
      exact consumeAcquire_tracks id hl (by rw [← hl.record, hp]; rfl) reg slot

/-- A consume loop's run from stand `s`: its moves lead to the stand it waits at, if it
waits, and the tasks it starts are new. -/
theorem consumeRun_tracks (h : x.CommitLog) (id n : Nat) {l : ConsumeLoop} (hl : l.Stands s) :
    ∃ s', Advances id x s (consumeRun id n l x).2 s' ∧ Spawns x (consumeRun id n l x).2 ∧
      ∀ l' ∈ (consumeRun id n l x).1, l'.Stands s' := by
  unfold consumeRun
  -- every turn goes on from the stand the one before reached, on a broker the log keeps sound
  refine runTurns_keeps
    (P := fun (l' : ConsumeLoop) y => y.CommitLog ∧ ∃ s', Advances id x s y s' ∧ Spawns x y ∧ l'.Stands s')
    (Q := fun (l? : Option ConsumeLoop) y =>
      ∃ s', Advances id x s y s' ∧ Spawns x y ∧ ∀ l' ∈ l?, l'.Stands s')
    (fun l' y ⟨_, s', ha, hsp, hst⟩ => ⟨s', ha, hsp, fun _ h => Option.some.inj h ▸ hst⟩)
    ?_ n ⟨h, s, .of_history rfl, .refl x, hl⟩
  intro l' y ⟨hy, s', ha, hsp, hst⟩
  obtain ⟨s'', ha', hsp', hst'⟩ := consumeTurn_tracks hy.sound id hst
  have hlog := hy.consumeTurn id l'
  revert ha' hsp' hst' hlog
  cases consumeTurn id l' y with
  | next l'' z =>
    exact fun ha' hsp' hst' hlog => ⟨hlog, s'', ha.trans ha', hsp.trans hsp', hst' l'' rfl⟩
  | stop l? z => exact fun ha' hsp' hst' _ => ⟨s'', ha.trans ha', hsp.trans hsp', hst'⟩

end Exchange

end TokenGate
