import Mathlib
import TokenGate.Proofs.Positions
import TokenGate.Proofs.Answers
/-!
# `TokenGate.Proofs.Commits`: the broker's commits along a run

The consume loops and the listeners commit their positions through `Exchange.commitAs`,
which records each commit in the history as it makes it. Nothing else touches the
broker's committed offsets; the other moves of a run send records, make topics, or close
the broker. This module follows the broker along every run (`Reachable.commitLog`):

* the broker stays sound (`Broker.Sound`), so that every look of a consumer reads the
  records from its position on, in order;
* the offset it has committed for a group on a partition is the last one the history
  records for them (`lastCommit`);
* every consume loop started at the offset committed for its group and partition when it
  started, zero when there was none.

The per-move lemmas come in layers: the small operations of an exchange (`CommitLog.congr`,
`publish`, `commitAs`, `leaveConsume`, ...), then one lemma per task's turn and per
caller's action, then `CommitLog.step`.
-/

set_option autoImplicit false

namespace TokenGate

open Sched

/-! ### What a history says about commits -/

/-- The offset a commit event sets for group `g` on partition `p` of topic `t`, if it is
one. -/
def Event.commitFor? (g t : String) (p : Nat) : Event → Option Nat
  | .committed _ c => if c.group = g ∧ c.topic = t ∧ c.partition = p then some c.position else none
  | _ => none

/-- The offset a history last committed for group `g` on partition `p` of topic `t`. -/
def lastCommit (h : List (Nat × Event)) (g t : String) (p : Nat) : Option Nat :=
  (h.filterMap fun e => e.2.commitFor? g t p).getLast?

/-- The events the broker's ledger follows: a consume loop starting, and a commit. -/
def Event.OnBus : Event → Prop
  | .consuming .. | .committed .. => True
  | _ => False

theorem Event.commitFor?_of_not_onBus {e : Event} (he : ¬ e.OnBus) (g t : String) (p : Nat) :
    e.commitFor? g t p = none := by
  cases e <;> first | rfl | exact absurd trivial he

section History

variable (h : List (Nat × Event)) (g t : String) (p : Nat)

@[simp] theorem lastCommit_nil : lastCommit [] g t p = none := rfl

theorem lastCommit_append (evs : List (Nat × Event)) :
    lastCommit (h ++ evs) g t p = (lastCommit evs g t p).or (lastCommit h g t p) := by
  simp only [lastCommit, List.filterMap_append, List.getLast?_append]

/-- Events off the bus leave the last commits. -/
theorem lastCommit_append_of {evs : List (Nat × Event)} (hevs : ∀ e ∈ evs, ¬ e.2.OnBus) :
    lastCommit (h ++ evs) g t p = lastCommit h g t p := by
  have hnil : lastCommit evs g t p = none := by
    rw [lastCommit, List.getLast?_eq_none_iff, List.filterMap_eq_nil_iff]
    exact fun e he => Event.commitFor?_of_not_onBus (hevs e he) g t p
  rw [lastCommit_append, hnil, Option.none_or]

/-- A commit event sets the last commit of its own group and partition only. -/
theorem lastCommit_committed (tm id : Nat) (c : Consumer) :
    lastCommit (h ++ [(tm, .committed id c)]) g t p =
      if c.group = g ∧ c.topic = t ∧ c.partition = p then some c.position
      else lastCommit h g t p := by
  have hone : lastCommit [(tm, .committed id c)] g t p =
      if c.group = g ∧ c.topic = t ∧ c.partition = p then some c.position else none := by
    by_cases hc : c.group = g ∧ c.topic = t ∧ c.partition = p <;>
      simp [lastCommit, Event.commitFor?, hc]
  rw [lastCommit_append, hone]
  split <;> rfl

end History

/-- In a history grown by events that start no consume loop, every start of a loop lies in
the history before. -/
theorem eq_append_cons_of_append {α : Type} {h evs pre post : List α} {a : α}
    (heq : h ++ evs = pre ++ a :: post) (ha : a ∉ evs) : ∃ post', h = pre ++ a :: post' := by
  rcases List.append_eq_append_iff.1 heq with ⟨a', rfl, hevs⟩ | ⟨c', rfl, hc'⟩
  · exact absurd (hevs ▸ List.mem_append_right a' List.mem_cons_self) ha
  · cases c' with
    | nil =>
      rw [List.nil_append] at hc'
      exact absurd (hc' ▸ List.mem_cons_self) ha
    | cons b c'' =>
      rw [List.cons_append, List.cons.injEq] at hc'
      obtain ⟨rfl, -⟩ := hc'
      exact ⟨c'', rfl⟩

/-- In a history grown by one event, every event lies in the history before or is the new
one. -/
theorem eq_append_cons_of_snoc {α : Type} {h pre post : List α} {a e : α}
    (heq : h ++ [e] = pre ++ a :: post) : (∃ post', h = pre ++ a :: post') ∨ (pre = h ∧ a = e) := by
  rcases List.append_eq_append_iff.1 heq with ⟨a', rfl, he⟩ | ⟨c', rfl, hc'⟩
  · cases a' with
    | nil =>
      simp only [List.nil_append, List.cons.injEq] at he
      exact .inr ⟨by simp, he.1.symm⟩
    | cons b a'' => simp at he
  · cases c' with
    | nil =>
      simp only [List.nil_append, List.cons.injEq] at hc'
      exact .inr ⟨by simp, hc'.1⟩
    | cons b c'' =>
      rw [List.cons_append, List.cons.injEq] at hc'
      obtain ⟨rfl, -⟩ := hc'
      exact .inl ⟨c'', rfl⟩

namespace Broker

variable {b b' : Broker}

theorem committed_congr (h : b'.commits = b.commits) : b'.committed = b.committed := by
  funext g t p
  simp only [committed, h]

/-- A send keeps the commits. -/
theorem send_commits {topic : String} {key : Option String} {value : List UInt8}
    {m : RecordMetadata} (h : b.send topic key value = .ok (m, b')) : b'.commits = b.commits := by
  obtain ⟨-, c, t₀, nu, rfl, -, -, -, -, rfl⟩ := send_ok h
  simp [updateTopic]

/-- A commit sets the committed offset of its own group and partition only. -/
theorem committed_commit (g t : String) (p off : Nat) (g' t' : String) (p' : Nat) :
    (b.commit g t p off).committed g' t' p' =
      if g = g' ∧ t = t' ∧ p = p' then some off else b.committed g' t' p' := by
  -- a commit changes offsets only: which commits name a partition stays as it was
  have hkey : ∀ cm : Commit,
      ((if (cm.group == g && cm.topic == t && cm.partition == p) = true then
        { cm with offset := off } else cm).group == g' &&
      (if (cm.group == g && cm.topic == t && cm.partition == p) = true then
        { cm with offset := off } else cm).topic == t' &&
      (if (cm.group == g && cm.topic == t && cm.partition == p) = true then
        { cm with offset := off } else cm).partition == p') =
      (cm.group == g' && cm.topic == t' && cm.partition == p') := by
    intro cm
    split <;> rfl
  unfold commit committed
  dsimp only
  split
  · next hany =>
    simp only [List.find?_map, Function.comp_def, hkey, Option.map_map]
    by_cases hsame : g = g' ∧ t = t' ∧ p = p'
    · obtain ⟨rfl, rfl, rfl⟩ := hsame
      -- the partition's first commit is found, now with the new offset
      obtain ⟨cm, hcm, hs⟩ := List.any_eq_true.1 hany
      have hsome : (b.commits.find? fun cm => cm.group == g && cm.topic == t &&
          cm.partition == p).isSome := List.find?_isSome.2 ⟨cm, hcm, hs⟩
      obtain ⟨cm₁, hfind⟩ := Option.isSome_iff_exists.1 hsome
      have hs₁ := List.find?_some hfind
      simp only [Bool.and_eq_true, beq_iff_eq] at hs₁
      simp [hfind, hs₁]
    · cases hfind : b.commits.find? (fun cm => cm.group == g' && cm.topic == t' && cm.partition == p') with
      | none => simp [hsame]
      | some cm =>
        have hs := List.find?_some hfind
        simp only [Bool.and_eq_true, beq_iff_eq] at hs
        have hns : ¬((cm.group = g ∧ cm.topic = t) ∧ cm.partition = p) := by
          rintro ⟨⟨h₁, h₂⟩, h₃⟩
          exact hsame ⟨h₁ ▸ hs.1.1, h₂ ▸ hs.1.2, h₃ ▸ hs.2⟩
        simp [hsame, hns]
  · next hany =>
    rw [List.find?_append]
    by_cases hsame : g = g' ∧ t = t' ∧ p = p'
    · obtain ⟨rfl, rfl, rfl⟩ := hsame
      -- no commit named the partition before
      have hnone : b.commits.find? (fun cm => cm.group == g && cm.topic == t && cm.partition == p) =
          none := by
        rw [List.find?_eq_none]
        intro cm hcm hs
        exact hany (List.any_eq_true.2 ⟨cm, hcm, by simpa using hs⟩)
      simp [hnone]
    · rw [if_neg hsame]
      cases b.commits.find? (fun cm => cm.group == g' && cm.topic == t' && cm.partition == p') with
      | some cm => rfl
      | none =>
        simp only [Option.none_or, List.find?_singleton]
        split
        · next hs =>
          simp only [Bool.and_eq_true, beq_iff_eq] at hs
          exact absurd ⟨hs.1.1, hs.1.2, hs.2⟩ hsame
        · rfl

end Broker

/-- A fetch only registers for wake-ups and moves the clock: the broker stays. -/
theorem Fetch.poll_broker (h : Hub) (c : Core) (cons : Consumer) (limit timeout : Nat)
    (w : Option FetchWait) (owner : Waker) :
    (Fetch.poll h c cons limit timeout w owner).hub.broker = h.broker := by
  cases w with
  | none => exact (Fetch.attempt_spec h c cons limit owner _).1
  | some w =>
    show (Fetch.resume h c cons limit w owner).hub.broker = h.broker
    unfold Fetch.resume
    split
    · -- woken: a new attempt, once the wait is given up
      show (Fetch.attempt (w.drop h c).1 (w.drop h c).2 cons limit w.deadline owner).hub.broker = _
      exact (Fetch.attempt_spec _ _ cons limit owner _).1
    · rcases w.sleep.poll c owner with ⟨elapsed, sl, c'⟩
      dsimp only
      split <;> rfl

namespace Exchange

variable (x : Exchange)

@[simp] theorem fetch_broker (c : Consumer) (limit timeout : Nat) (w : Option FetchWait)
    (owner : Waker) : (x.fetch c limit timeout w owner).2.hub.broker = x.hub.broker :=
  Fetch.poll_broker _ _ _ _ _ _ _

@[simp] theorem dropFetch_broker (w : Option FetchWait) : (x.dropFetch w).hub.broker = x.hub.broker := by
  cases w <;> rfl

@[simp] theorem endTask_hub (id : Nat) : (x.endTask id).hub = x.hub := by
  obtain ⟨core, h⟩ := x.endTask_eq id
  rw [h]

@[simp] theorem note_hub (e : Event) : (x.note e).hub = x.hub := rfl

@[simp] theorem wakeAll_hub (ws : List Waker) : (x.wakeAll ws).hub = x.hub := rfl

@[simp] theorem releaseSlot_hub : x.releaseSlot.hub = x.hub := rfl

@[simp] theorem count_hub (f : ServeCounters → ServeCounters) : (x.count f).hub = x.hub := rfl

@[simp] theorem spawn_hub (t : Task) : (x.spawn t).2.hub = x.hub := rfl

@[simp] theorem abortHandler_hub (id : Nat) : (x.abortHandler id).hub = x.hub := by
  simp [abortHandler]

/-- `dispatch` starts a handler and changes the server: the broker and the history stay. -/
theorem dispatch_hub_history (r : BusRecord) :
    (x.dispatch r).2.hub = x.hub ∧ (x.dispatch r).2.history = x.history := by
  unfold dispatch
  dsimp only
  split
  · exact ⟨rfl, rfl⟩
  · split
    · exact ⟨rfl, rfl⟩
    · split
      · exact ⟨rfl, rfl⟩
      · split
        · simp
        · exact ⟨rfl, rfl⟩

/-- The broker along a run: sound, with the committed offsets the history records last,
and every consume loop started at the offset committed for its group and partition then. -/
structure CommitLog (x : Exchange) : Prop where
  sound : x.hub.broker.Sound
  committed : ∀ g t p, x.hub.broker.committed g t p = lastCommit x.history g t p
  started : ∀ pre tm id c post, x.history = pre ++ (tm, .consuming id c) :: post →
    c.position = (lastCommit pre c.group c.topic c.partition).getD 0

namespace CommitLog

variable {x} {y : Exchange}

/-- The log reads the broker and the history only. -/
theorem congr (h : x.CommitLog) (hb : y.hub.broker = x.hub.broker) (hh : y.history = x.history) :
    y.CommitLog where
  sound := hb ▸ h.sound
  committed g t p := by rw [hb, hh, h.committed]
  started := hh ▸ h.started

/-- A move that keeps the broker and records neither a commit nor a start keeps the log. -/
theorem frame (h : x.CommitLog) (hb : y.hub.broker = x.hub.broker)
    (hh : GrowsBy (fun e => ¬ e.OnBus) x.history y.history) : y.CommitLog := by
  obtain ⟨evs, heq, hevs⟩ := hh
  refine ⟨hb ▸ h.sound, fun g t p => ?_, fun pre tm id c post hpre => ?_⟩
  · rw [hb, h.committed, heq, lastCommit_append_of _ _ _ _ hevs]
  · -- the start lies in the history before the move
    rw [heq] at hpre
    obtain ⟨post', hx⟩ := eq_append_cons_of_append hpre fun hm => hevs _ hm trivial
    exact h.started pre tm id c post' hx

theorem note (h : x.CommitLog) {e : Event} (he : ¬ e.OnBus) : (x.note e).CommitLog :=
  h.frame rfl ((GrowsBy.refl _ _).snoc _ he)

/-- A send keeps the broker sound and its commits. -/
theorem publish (h : x.CommitLog) (t : String) (k : Option String) (v : List UInt8) :
    (x.publish t k v).2.CommitLog := by
  unfold Exchange.publish Hub.publish
  rcases hs : x.hub.broker.send t k v with e | ⟨m, b'⟩
  · exact h.congr rfl rfl
  · refine ⟨h.sound.send hs, fun g t' p => ?_, h.started⟩
    rw [← h.committed, Broker.committed_congr (Broker.send_commits hs)]

/-- A commit is recorded as it is made. -/
theorem commitAs (h : x.CommitLog) (id : Nat) (c : Consumer) : (x.commitAs id c).CommitLog := by
  refine ⟨(h.sound.step (.commit c)).1, fun g t p => ?_, fun pre tm id' c' post hpre => ?_⟩
  · show (x.hub.broker.commit c.group c.topic c.partition c.position).committed g t p = _
    rw [Broker.committed_commit, commitAs_history, lastCommit_committed, h.committed]
  · rw [commitAs_history] at hpre
    obtain ⟨post', hx⟩ := eq_append_cons_of_append hpre (by simp)
    exact h.started pre tm id' c' post' hx

/-- Making a topic keeps the broker sound and its commits. -/
theorem createTopic (h : x.CommitLog) {name : String} {n : Nat} (hb : y.hub.broker = x.hub.broker.createTopic name n)
    (hh : y.history = x.history) : y.CommitLog := by
  refine ⟨hb ▸ h.sound.createTopic name n, fun g t p => ?_, hh ▸ h.started⟩
  rw [hb, hh, Broker.committed_createTopic, h.committed]

theorem closeBroker (h : x.CommitLog) : x.closeBroker.CommitLog :=
  ⟨(h.sound.step .close).1, h.committed, h.started⟩

theorem leaveConsume (h : x.CommitLog) (id : Nat) (l : ConsumeLoop) :
    (Exchange.leaveConsume x id l).CommitLog := by
  unfold Exchange.leaveConsume
  dsimp only
  split
  · exact h.congr rfl rfl
  · refine CommitLog.commitAs ?_ id l.consumer
    exact h.congr rfl rfl

theorem dispatch (h : x.CommitLog) (r : BusRecord) : (x.dispatch r).2.CommitLog :=
  h.congr (by rw [(x.dispatch_hub_history r).1]) (x.dispatch_hub_history r).2

theorem forgetStop (h : x.CommitLog) (reg : Option Nat) : (x.forgetStop reg).CommitLog :=
  h.congr rfl rfl

theorem releaseSlot (h : x.CommitLog) : x.releaseSlot.CommitLog := h.congr rfl rfl

theorem dropFetch (h : x.CommitLog) (w : Option FetchWait) : (x.dropFetch w).CommitLog :=
  h.congr (dropFetch_broker x w) (dropFetch_history x w)

theorem fetch (h : x.CommitLog) (c : Consumer) (limit timeout : Nat) (w : Option FetchWait)
    (owner : Waker) : (x.fetch c limit timeout w owner).2.CommitLog :=
  h.congr (fetch_broker x c limit timeout w owner) (fetch_history x c limit timeout w owner)

end CommitLog

/-- A move that keeps the log: the relation every turn of a task moves along. -/
def KeepsLog (x y : Exchange) : Prop := x.CommitLog → y.CommitLog

namespace KeepsLog

theorem refl (x : Exchange) : KeepsLog x x := id

theorem trans {x y z : Exchange} (h₁ : KeepsLog x y) (h₂ : KeepsLog y z) : KeepsLog x z :=
  fun h => h₂ (h₁ h)

theorem congr {x y : Exchange} (hb : y.hub.broker = x.hub.broker) (hh : y.history = x.history) :
    KeepsLog x y := fun h => h.congr hb hh

end KeepsLog

namespace CommitLog

variable {x}

/-! ### The consume loops -/

/-- A consume loop's wait keeps the log: it commits through `commitAs`, and a fetch leaves
the broker. -/
theorem consumeWait (h : x.CommitLog) (id : Nat) (l : ConsumeLoop) (iv : Interval)
    (reg : Option Nat) (fw : Option FetchWait) :
    (Exchange.consumeWait id l iv reg fw x).exchange.CommitLog := by
  rw [Exchange.consumeWait]
  split
  next _ chg seen reg' w hpoll =>
  extract_lets y₁ l₁
  have h₁ : y₁.CommitLog := h.congr rfl rfl
  split
  · exact (h₁.dropFetch fw).leaveConsume id l₁
  · split
    next _ ready iv' core hiv =>
    extract_lets y₂ l₂
    have h₂ : y₂.CommitLog := h₁.congr rfl rfl
    split
    · exact ((h₂.dropFetch fw).forgetStop reg').commitAs id l₂.consumer
    · split
      · -- a poll's deadline past the clock's range stops the loop, with no commit
        dsimp only [Turn.exchange]
        exact (h₂.forgetStop reg').leaveConsume id _
      · split
        next _ st y₃ hfetch =>
        have h₃ : y₃.CommitLog := by
          have := h₂.fetch l₂.consumer 1 y₂.pollInterval fw (.task id)
          rwa [hfetch] at this
        extract_lets l₃
        split
        · exact h₃
        · split
          · exact h₃.forgetStop reg'
          · exact (h₃.forgetStop reg').note (by simp [Event.OnBus])
          · exact (h₃.forgetStop reg').leaveConsume id l₃
          · exact h₃.forgetStop reg'

/-- A consume loop holding a record keeps the log: it hands the record to `dispatch`,
which leaves the broker, or leaves the loop. -/
theorem consumeAcquire (h : x.CommitLog) (id : Nat) (l : ConsumeLoop) (record : BusRecord)
    (reg slot : Option Nat) : (Exchange.consumeAcquire id l record reg slot x).exchange.CommitLog := by
  rw [Exchange.consumeAcquire]
  split
  next _ chg seen reg' w hpoll =>
  extract_lets y₁ l₁
  have h₁ : y₁.CommitLog := h.congr rfl rfl
  split
  · split
    refine CommitLog.leaveConsume ?_ id l₁
    exact h₁.congr rfl rfl
  · split
    next _ ok slot' slots hpoll' =>
    extract_lets y₂ y₃
    have h₃ : y₃.CommitLog := h₁.congr rfl rfl
    split
    · split
      · exact h₃.releaseSlot.leaveConsume id l₁
      · split
        next adm y₄ hdisp =>
        have h₄ := h₃.dispatch record
        rw [hdisp] at h₄
        have h₅ := h₄.note (e := .dispatched id record adm) (by simp [Event.OnBus])
        split
        · -- a deadline past the clock's range stops the loop, with no commit
          dsimp only [Turn.exchange] at h₅ ⊢
          exact h₅.leaveConsume id _
        · exact h₅
    · exact h₁.congr rfl rfl

theorem consumeTurn (h : x.CommitLog) (id : Nat) (l : ConsumeLoop) :
    (Exchange.consumeTurn id l x).exchange.CommitLog := by
  unfold Exchange.consumeTurn
  split
  · exact h
  · split
    · next s _ =>
      rw [consumePause]
      -- name the parts of the poll, so that no later check has to evaluate it
      rcases s.poll x.core (.task id) with ⟨elapsed, s', core⟩
      split <;> exact h.congr rfl rfl
    · exact h.consumeWait id l _ _ _
    · exact h.consumeAcquire id l _ _ _

theorem consumeRun (h : x.CommitLog) (id n : Nat) (l : ConsumeLoop) :
    (Exchange.consumeRun id n l x).2.CommitLog :=
  (runTurns_frame (R := KeepsLog) (S := fun _ _ => True) KeepsLog.trans (fun _ _ => trivial)
    (fun l' _ => ⟨fun hy => hy.consumeTurn id l', fun _ _ => trivial⟩) n l x (.refl x) trivial).1 h

/-! ### The sweep, the handlers, the listeners and the evictor -/

/-- Publishing an answer keeps the log. -/
theorem respond (h : x.CommitLog) (e : InFlight) (s : Settled) (r : Response) :
    (x.respond e s r).CommitLog := by
  rw [respond_def]
  exact (h.publish e.responseTopic (some e.id.display) _).frame rfl
    ((GrowsBy.refl _ _).snoc _ (by simp [Event.OnBus]))

theorem settle (h : x.CommitLog) (e : InFlight) (s : Settled) : (x.settle e s).CommitLog := by
  unfold Exchange.settle
  split
  · exact h
  · dsimp only
    cases s <;> exact (CommitLog.respond (h.congr (by simp) (by simp)) _ _ _).releaseSlot

/-- The sweep publishes the answers of what it settles, one after the other. -/
theorem sweep (h : x.CommitLog) : x.sweep.2.CommitLog := by
  unfold Exchange.sweep
  rcases hc : x.collectSettled with ⟨found, y⟩
  -- looking at the channels changes the server only
  have hy : y.CommitLog := by
    have hy := congrArg Prod.snd hc
    unfold collectSettled at hy
    dsimp only at hy
    rw [← hy]
    exact h.congr rfl rfl
  apply List.foldlRecOn (motive := CommitLog)
  · exact hy
  · intro z hz p _
    exact hz.settle p.1 p.2

/-- Giving permits back leaves the broker and the history. -/
theorem foldl_releaseSlot {β : Type} (l : List β) {y : Exchange} (h : y.CommitLog) :
    (l.foldl (fun y _ => y.releaseSlot) y).CommitLog := by
  induction l generalizing y with
  | nil => exact h
  | cons b bs ih => exact ih h.releaseSlot

/-- The sweep's stop drops what is in flight and records it. -/
theorem abandonInFlight (h : x.CommitLog) : x.abandonInFlight.CommitLog := by
  obtain ⟨core, -, heq⟩ := abandonInFlight_eq x
  rw [heq]
  refine CommitLog.note (CommitLog.foldl_releaseSlot _ ?_) (by simp [Event.OnBus])
  exact h.congr rfl rfl

theorem sweepRun (h : x.CommitLog) (id : Nat) (p : PeriodicLoop) :
    (Exchange.sweepRun id p x).2.CommitLog := by
  unfold Exchange.sweepRun periodicRun
  exact (runTurns_frame (R := KeepsLog) (S := fun _ _ => True) KeepsLog.trans (fun _ _ => trivial)
    (fun p' y => ⟨(periodicTurn_frame id x.pollInterval false (fun x => some x.stop)
      (fun x w => { x with stop := w }) (fun x => x.sweep.2) Exchange.abandonInFlight
      (R := KeepsLog) KeepsLog.trans KeepsLog.refl (fun _ _ => .congr rfl rfl)
      (fun _ _ => .congr rfl rfl) (fun _ hy => hy.sweep) (fun _ hy => hy.abandonInFlight) p' y).1,
      fun _ _ => trivial⟩) 10000 p x (.refl x) trivial).1 h

/-- An answer reaching its channel leaves the broker. -/
theorem answerOn (h : x.CommitLog) (c : Nat) (r : Response) : (x.answerOn c r).CommitLog := by
  obtain ⟨core, -, heq⟩ := answerOn_eq x c r
  rw [heq]
  refine h.frame rfl ⟨_, rfl, ?_⟩
  split <;> simp [Event.OnBus]

/-- A handler answers on its channel: the broker stays. -/
theorem handlerRun (h : x.CommitLog) (id : Nat) (hd : Handler) :
    (Exchange.handlerRun id hd x).2.CommitLog := by
  rcases handlerRun_ends x id hd with ⟨ph, core, hr⟩ | ⟨core, hr⟩ | ⟨core, a, hr⟩ <;> rw [hr]
  · exact h.congr rfl rfl
  · exact h.congr rfl rfl
  · exact CommitLog.answerOn (h.congr (y := { x with core }) rfl rfl) _ _

end CommitLog

@[simp] theorem withWaiters_hub (f : PendingStore Response → PendingStore Response × List Waker) :
    (x.withWaiters f).hub = x.hub := by
  unfold withWaiters
  split <;> rfl

@[simp] theorem deliverAll_hub (records : List BusRecord) : (x.deliverAll records).hub = x.hub := by
  unfold deliverAll
  apply List.foldlRecOn (motive := fun y : Exchange => y.hub = x.hub)
  · rfl
  · intro y hy r _
    dsimp only
    split
    · split
      · exact hy
      · exact hy
    · exact hy

namespace CommitLog

variable {x}

/-- Handing answers to their waiters keeps the broker and records deliveries only. -/
theorem deliverAll (h : x.CommitLog) (records : List BusRecord) : (x.deliverAll records).CommitLog :=
  h.frame (by rw [deliverAll_hub]) ((deliverAll_frame x records).2.2.2.mono
    fun e ⟨_, _, _, he⟩ => by subst he; simp [Event.OnBus])

theorem forgetClientStop (h : x.CommitLog) (reg : Option Nat) : (x.forgetClientStop reg).CommitLog :=
  h.congr rfl rfl

/-- A listener's wait keeps the log: it commits through `commitAs`. -/
theorem listenWait (h : x.CommitLog) (id : Nat) (l : Listener) (stop : Watch) (reg : Option Nat)
    (fw : Option FetchWait) : (Exchange.listenWait id l stop reg fw x).exchange.CommitLog := by
  rw [Exchange.listenWait]
  split
  next _ chg seen reg' w hpoll =>
  extract_lets y₁ l₁
  have h₁ : y₁.CommitLog := h.congr rfl rfl
  split
  · exact h₁.dropFetch fw
  · split
    · exact h₁.forgetClientStop reg'
    · split
      next _ st y₂ hfetch =>
      have h₂ : y₂.CommitLog := by
        have := h₁.fetch l₁.consumer replyBatch y₁.pollInterval fw (.task id)
        rwa [hfetch] at this
      extract_lets l₂
      split
      · exact h₂
      · split
        · exact h₂.forgetClientStop reg'
        · exact ((h₂.forgetClientStop reg').deliverAll _).commitAs id l₂.consumer
        · exact h₂.forgetClientStop reg'
        · exact h₂.forgetClientStop reg'

theorem listenTurn (h : x.CommitLog) (id : Nat) (l : Listener) :
    (Exchange.listenTurn id l x).exchange.CommitLog := by
  rw [Exchange.listenTurn]
  split
  · exact h
  · split
    · next s _ =>
      rw [listenPause]
      -- name the parts of the poll, so that no later check has to evaluate it
      rcases s.poll x.core (.task id) with ⟨elapsed, s', core⟩
      split <;> exact h.congr rfl rfl
    · exact h.listenWait id l _ _ _

theorem listenRun (h : x.CommitLog) (id n : Nat) (l : Listener) :
    (Exchange.listenRun id n l x).2.CommitLog :=
  (runTurns_frame (R := KeepsLog) (S := fun _ _ => True) KeepsLog.trans (fun _ _ => trivial)
    (fun l' _ => ⟨fun hy => hy.listenTurn id l', fun _ _ => trivial⟩) n l x (.refl x) trivial).1 h

/-- The evictor changes the client only. -/
theorem evictRun (h : x.CommitLog) (id : Nat) (p : PeriodicLoop) :
    (Exchange.evictRun id p x).2.CommitLog := by
  unfold Exchange.evictRun periodicRun
  exact (runTurns_frame (R := KeepsLog) (S := fun _ _ => True) KeepsLog.trans (fun _ _ => trivial)
    (fun p' y => ⟨(periodicTurn_frame id x.pollInterval true (fun x => x.client.map (·.stop))
      setClientStop evictWaiters (fun x => x) (R := KeepsLog) KeepsLog.trans KeepsLog.refl
      (fun _ _ => .congr rfl rfl) (fun _ _ => .congr rfl rfl)
      (fun _ => .congr (by simp [evictWaiters]) (by simp)) KeepsLog.refl p' y).1,
      fun _ _ => trivial⟩) 10000 p x (.refl x) trivial).1 h

theorem storeAs {β : Type} {id : Nat} {wrap : β → Task} {r : Option β × Exchange}
    (h : r.2.CommitLog) : (Exchange.storeAs id wrap r).CommitLog := by
  obtain ⟨_ | b, y⟩ := r
  · exact h.congr (by simp [Exchange.storeAs]) (by simp)
  · exact h.congr rfl (by simp)

/-- Polling any task keeps the log. -/
theorem pollTask (h : x.CommitLog) (id : Nat) : (x.pollTask id).CommitLog := by
  cases ht : x.task? id with
  | none =>
    rw [pollTask_none ht]
    exact h
  | some t =>
    cases t with
    | consume l =>
      rw [pollTask_consume ht]
      exact (h.consumeRun id 10000 l).storeAs
    | sweep p =>
      rw [pollTask_sweep ht]
      exact (h.sweepRun id p).storeAs
    | handler hd =>
      rw [pollTask_handler ht]
      exact (h.handlerRun id hd).storeAs
    | listen l =>
      rw [pollTask_listen ht]
      exact (h.listenRun id 10000 l).storeAs
    | evict p =>
      rw [pollTask_evict ht]
      exact (h.evictRun id p).storeAs

end CommitLog

/-! ### The caller's actions -/

section Caller

theorem awaitReply_hub (cl : Client) (rid : Uuid) (ch deadline : Nat) (sl : Sleep) :
    (x.awaitReply cl rid ch deadline sl).2.hub = x.hub := by
  rw [awaitReply]
  dsimp only
  -- name the parts of the poll, so that no later check has to evaluate it
  rcases sl.poll x.core .main with ⟨ready, sl', core⟩
  dsimp only
  split
  · simp
  · rfl

theorem pollSend_hub (st : SendState) : (x.pollSend st).2.hub = x.hub := by
  unfold pollSend
  split
  · rfl
  · split
    · rfl
    · dsimp only
      split
      · rfl
      · rfl
      · exact awaitReply_hub _ _ _ _ _ _

theorem pollSends_hub (items : List SendState) : (x.pollSends items).2.hub = x.hub := by
  unfold pollSends
  apply List.foldlRecOn (motive := fun (acc : List SendState × Exchange) => acc.2.hub = x.hub)
  · rfl
  · intro acc hacc st _
    exact (pollSend_hub _ _).trans hacc

/-- Waiting once for a task's end moves the clock only. -/
theorem joinWait_hub (id : Nat) (grace : Option Sleep) : (x.joinWait id grace).2.hub = x.hub := by
  rw [joinWait.eq_def]
  split
  · rfl
  · -- name the parts of the poll, so that no later check has to evaluate it
    extract_lets s polled
    clear_value polled
    rcases polled with ⟨ready, s', core⟩
    rfl

theorem pollJoin_hub (ids : List Nat) :
    ∀ (x : Exchange) (grace : Option Sleep), (x.pollJoin ids grace).2.hub = x.hub := by
  induction ids with
  | nil => exact fun x grace => rfl
  | cons id rest ih =>
    intro x grace
    have hw := joinWait_hub x id grace
    rw [pollJoin]
    rcases hj : x.joinWait id grace with ⟨_ | s, y⟩
    · rw [hj] at hw
      exact (ih _ _).trans hw
    · rw [hj] at hw
      exact hw

/-- The caller's wait publishes nothing. -/
theorem pollMain_hub : x.pollMain.2.hub = x.hub := by
  rw [pollMain.eq_def]
  split
  · rfl
  · exact pollJoin_hub _ _ _
  · next s _ =>
    unfold pollSleep
    -- name the parts of the poll, so that no later check has to evaluate it
    extract_lets polled
    clear_value polled
    rcases polled with ⟨ready, s', core⟩
    rfl
  · exact pollSends_hub x _

end Caller

namespace CommitLog

variable {x} {y : Exchange}

theorem of_offCaller {e : Event} (he : Event.OfCaller e) : ¬ e.OnBus := by
  cases e <;> simp_all [Event.OfCaller, Event.OnBus]

theorem withWaiters (h : x.CommitLog)
    (f : PendingStore Response → PendingStore Response × List Waker) : (x.withWaiters f).CommitLog :=
  h.congr (by simp) (by simp)

theorem pollMain (h : x.CommitLog) : x.pollMain.2.CommitLog :=
  h.frame (by rw [pollMain_hub]) ((pollMain_records x).history.mono fun _ => of_offCaller)

theorem pollSend (h : x.CommitLog) (st : SendState) : (x.pollSend st).2.CommitLog :=
  h.frame (by rw [pollSend_hub]) ((pollSend_records x st).history.mono fun _ => of_offCaller)

/-- A request is registered, then published. -/
theorem beginSend (h : x.CommitLog) (req : Request) : (x.beginSend req).2.CommitLog := by
  unfold Exchange.beginSend
  split
  · exact h
  · next cl _ =>
    dsimp only
    split
    · next e y heq =>
      have hy := congrArg Prod.snd heq
      dsimp only at hy
      subst hy
      refine CommitLog.note (CommitLog.withWaiters (CommitLog.publish (CommitLog.note ?_ ?_) _ _ _) _) ?_
      · exact h.congr rfl rfl
      all_goals simp [Event.OnBus]
    · next m y heq =>
      have hy := congrArg Prod.snd heq
      dsimp only at hy
      subst hy
      refine CommitLog.pollSend (CommitLog.publish ?_ _ _ _) _
      refine CommitLog.note ?_ ?_
      · exact h.congr rfl rfl
      · simp [Event.OnBus]

theorem beginSends (h : x.CommitLog) (reqs : List Request) : (x.beginSends reqs).2.CommitLog := by
  unfold Exchange.beginSends
  apply List.foldlRecOn (motive := fun (acc : List SendState × Exchange) => acc.2.CommitLog)
  · exact h
  · intro acc hacc req _
    exact hacc.beginSend req

theorem spawn (h : x.CommitLog) (t : Task) : (x.spawn t).2.CommitLog := h.congr rfl rfl

/-- A consume loop starts at the offset its group committed: the consumer the broker opens
for it is recorded as it starts. -/
theorem consuming (h : x.CommitLog) {g t : String} {p : Nat} {c : Consumer} {b : Broker}
    (hc : x.hub.broker.consumer g t p = (.ok c, b)) {y : Exchange} (hb : y.hub.broker = b)
    {tm id : Nat} (hh : y.history = x.history ++ [(tm, .consuming id c)]) : y.CommitLog := by
  obtain ⟨hb', hspec⟩ := x.hub.broker.consumer_spec g t p
  rw [hc] at hb' hspec
  obtain ⟨rfl, -⟩ := hspec c rfl
  -- opening the consumer only made sure of its topic
  have hy : y.hub.broker = x.hub.broker.createTopic t x.hub.broker.defaultPartitions := hb.trans hb'
  refine ⟨hy ▸ h.sound.createTopic _ _, fun g' t' p' => ?_, fun pre tm' id' c' post hpre => ?_⟩
  · -- the start commits nothing
    rw [hy, Broker.committed_createTopic, h.committed, hh, lastCommit_append]
    rfl
  · rw [hh] at hpre
    rcases eq_append_cons_of_snoc hpre with ⟨post', hx⟩ | ⟨rfl, he⟩
    · exact h.started pre tm' id' c' post' hx
    · -- the new start: its consumer was opened at the committed offset
      simp only [Prod.mk.injEq, Event.consuming.injEq] at he
      obtain ⟨-, -, rfl⟩ := he
      exact congrArg (·.getD 0) (h.committed g t p)

/-- Starting the server opens a consumer for each request partition, at its group's
committed offset. -/
theorem startServer (h : x.CommitLog) : x.startServer.2.CommitLog := by
  unfold Exchange.startServer
  dsimp only
  refine CommitLog.spawn ?_ _
  apply List.foldlRecOn (motive := fun acc : List Nat × Exchange => acc.2.CommitLog)
  · exact h.createTopic rfl rfl
  · intro acc hacc p _
    split
    · next cons broker hcons => exact hacc.consuming hcons rfl rfl
    · exact hacc

/-- Starting the client opens its listeners' consumers and records nothing. -/
theorem startClient (h : x.CommitLog) (replyTopic : String) (timeout : Nat) :
    (x.startClient replyTopic timeout).CommitLog := by
  unfold Exchange.startClient
  dsimp only
  refine CommitLog.spawn ?_ _
  apply List.foldlRecOn (motive := CommitLog)
  · exact h.createTopic rfl rfl
  · intro y hy p _
    split
    · next cons broker hcons =>
      refine CommitLog.spawn ?_ _
      have hb := (y.hub.broker.consumer_spec clientGroup replyTopic p).1
      rw [hcons] at hb
      exact hy.createTopic hb rfl
    · exact hy

/-- Every step of a run keeps the log. -/
theorem step (h : x.CommitLog) (hs : Step x y) : y.CommitLog := by
  cases hs with
  | poll id =>
    refine CommitLog.pollTask ?_ id
    exact h.congr rfl rfl
  | main =>
    refine CommitLog.pollMain ?_
    exact h.congr rfl rfl
  | tick t => exact h.congr rfl rfl
  | sleep ms => exact h.congr rfl rfl
  | join ids => exact h.congr rfl rfl
  | idle => exact h.congr rfl rfl
  | send topic key value =>
    show ((x.publish topic key value).2.note (.sent topic key value)).CommitLog
    exact (h.publish topic key value).note (by simp [Event.OnBus])
  | startServer => exact h.startServer
  | startClient replyTopic timeout _ => exact h.startClient replyTopic timeout
  | sends reqs =>
    dsimp only
    split
    · exact h.beginSends reqs
    · exact CommitLog.congr (h.beginSends reqs) rfl rfl
  | stopClient =>
    unfold Exchange.stopClient
    split
    · exact h
    · exact h.congr rfl rfl
  | requestStop => exact h.congr rfl rfl
  | dropStop => exact h.congr rfl rfl
  | close => exact h.closeBroker
  | sweep => exact h.sweep
  | backend b => exact h.congr rfl rfl
  | directory d => exact h.congr rfl rfl
  | createTopic name n => exact h.createTopic rfl rfl
  | partitions name => exact h.createTopic rfl rfl

end CommitLog

/-- A new exchange over a fresh broker has committed nothing and started no loop. -/
theorem commitLog_create (config : TransportConfig) (group : String) (partitions retention : Nat)
    (backend : Backend) :
    (create config group (Broker.withRetention partitions retention) backend).CommitLog where
  sound := Broker.sound_withRetention partitions retention
  committed _ _ _ := rfl
  started pre tm id c post h := by simp [create] at h

/-- Along every run the broker stays sound, its committed offsets are the last ones the
history records, and every consume loop started at its group's committed offset. -/
theorem Reachable.commitLog {x : Exchange} (hx : x.Reachable) : x.CommitLog := by
  induction hx with
  | create config group partitions retention backend =>
    exact commitLog_create config group partitions retention backend
  | step _ hs ih => exact ih.step hs

end Exchange

end TokenGate
