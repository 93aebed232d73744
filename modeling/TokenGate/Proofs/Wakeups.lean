import Mathlib
import TokenGate.Proofs.Effects
/-!
# `TokenGate.Proofs.Wakeups`: only the scheduler takes a task off the run queue

A task once woken stays queued until the scheduler polls it, and a task number once given
out is never given out again. `Exchange.Onward` says both of a move: the run queue only
grows, the clock stands still, and the next task number only goes up. `Core.QueueGrows`
says the first of one operation on the clock; this module says `Onward` of the operations
of the client, of the handlers and of the caller that run while the server's loops wait,
so that a wake-up the server gives a task is never lost before the task runs:

* `onward_listenRun`, `onward_evictRun`: a listener hands answers to their waiters and
  wakes them; the evictor drops expired waiters and wakes their callers;
* `onward_handlerRun`: a handler's answer wakes whoever waits on its channel;
* `onward_consumeWait`, `onward_leaveConsume`: a consume loop's waits for a stop, a tick
  or a record, and its end;
* `onward_pollMain`, `onward_beginSends`, `onward_stopClient`: the caller's waits and
  actions.

Only the scheduler's tick moves the clock, and only its poll of a task takes the task off
the queue.
-/

set_option autoImplicit false

namespace TokenGate

open Sched

namespace Exchange

/-- From `x` to `y` every queued task stays queued, the clock stands still, and the next
task number only goes up. -/
structure Onward (x y : Exchange) : Prop where
  queue : Core.QueueGrows x.core y.core
  next : x.nextTask ≤ y.nextTask

namespace Onward

variable {x y z : Exchange}

theorem refl (x : Exchange) : Onward x x := ⟨.refl _, le_refl _⟩

theorem trans (h₁ : Onward x y) (h₂ : Onward y z) : Onward x z :=
  ⟨h₁.queue.trans h₂.queue, h₁.next.trans h₂.next⟩

/-- A move that changes the clock's queue only by growing it. -/
theorem of_core (h : Onward x y) {c : Core} (hc : Core.QueueGrows y.core c) :
    Onward x { y with core := c } :=
  ⟨h.queue.trans hc, h.next⟩

theorem note (h : Onward x y) (e : Event) : Onward x (y.note e) := ⟨h.queue, h.next⟩

end Onward

/-! Each lemma carries an earlier move `h` along, so that a chain of operations is proved
by nesting the lemmas of its steps. -/

section Tasks

variable (x : Exchange) {w : Exchange}

theorem onward_setTask (h : Onward w x) (id : Nat) (t : Task) : Onward w (x.setTask id t) :=
  ⟨h.queue, h.next⟩

/-- Ending a task may wake the caller waiting for its end. -/
theorem onward_endTask (h : Onward w x) (id : Nat) : Onward w (x.endTask id) := by
  unfold endTask
  dsimp only
  split
  · split
    · exact ⟨h.queue.trans (Core.queueGrows_wake x.core .main), h.next⟩
    · exact ⟨h.queue, h.next⟩
  · exact ⟨h.queue, h.next⟩

end Tasks

section Client

variable (x : Exchange) {w : Exchange}

/-- A new task is queued under the next number. -/
theorem onward_spawn (h : Onward w x) (t : Task) : Onward w (x.spawn t).2 :=
  ⟨h.queue.trans (Core.queueGrows_wake x.core (.task x.nextTask)), h.next.trans (Nat.le_succ _)⟩

/-- A change to the client's waiters wakes whom the change says. -/
theorem onward_withWaiters (h : Onward w x)
    (f : PendingStore Response → PendingStore Response × List Waker) :
    Onward w (x.withWaiters f) := by
  unfold withWaiters
  split
  · exact h
  · split
    exact ⟨h.queue.trans (Core.queueGrows_wakeAll _ _), h.next⟩

/-- Handing answers to their waiters wakes the callers waiting on them. -/
theorem onward_deliverAll (h : Onward w x) (records : List BusRecord) :
    Onward w (x.deliverAll records) := by
  unfold deliverAll
  apply List.foldlRecOn (motive := Onward w)
  · exact h
  · intro y hy r _
    dsimp only
    split
    · split
      · exact hy
      · exact ⟨hy.queue.trans (Core.queueGrows_wakeAll _ _), hy.next⟩
    · exact hy

theorem onward_listenWait (h : Onward w x) (id : Nat) (l : Listener) (stop : Watch)
    (reg : Option Nat) (fw : Option FetchWait) : Onward w (listenWait id l stop reg fw x).exchange := by
  rw [listenWait]
  split
  next _ chg seen reg' wt hpoll =>
  extract_lets y₁ l₁
  split
  · exact ⟨h.queue.trans (FetchWait.queueGrows_drop? _ _ _), h.next⟩
  · split
    · exact ⟨h.queue, h.next⟩
    · split
      next _ st y₂ hfetch =>
      -- the fetch's own wake-ups and timers
      have hy₂ : Onward w y₂ := by
        have hpoll := Fetch.queueGrows_poll y₁.hub y₁.core l₁.consumer replyBatch y₁.pollInterval fw
          (.task id)
        rw [show y₂ = (y₁.fetch l₁.consumer replyBatch y₁.pollInterval fw (.task id)).2 from
          (congrArg Prod.snd hfetch).symm]
        exact ⟨h.queue.trans hpoll, h.next⟩
      extract_lets l₂
      split
      · exact hy₂
      · split
        · exact ⟨hy₂.queue, hy₂.next⟩
        · rename_i y₃ _ _ records _ _
          have hd := onward_deliverAll y₃ ⟨hy₂.queue, hy₂.next⟩ records
          exact ⟨hd.queue, hd.next⟩
        · exact ⟨hy₂.queue, hy₂.next⟩
        · exact ⟨hy₂.queue, hy₂.next⟩

theorem onward_listenPause (h : Onward w x) (id : Nat) (l : Listener) (s : Sleep) :
    Onward w (listenPause id l s x).exchange := by
  rw [listenPause]
  have hpoll := Sleep.queueGrows_poll s x.core (.task id)
  -- name the parts of the poll, so that no later check has to evaluate it
  generalize s.poll x.core (.task id) = r at hpoll ⊢
  obtain ⟨elapsed, s', core⟩ := r
  split <;> exact h.of_core hpoll

/-- A listener only adds to the run queue, and starts no task. -/
theorem onward_listenRun (h : Onward w x) (id n : Nat) (l : Listener) :
    Onward w (listenRun id n l x).2 := by
  have hturn : ∀ (l' : Listener) (y : Exchange), Onward y (listenTurn id l' y).exchange ∧
      ∀ l'' ∈ (listenTurn id l' y).state?, True := by
    intro l' y
    refine ⟨?_, fun _ _ => trivial⟩
    rw [listenTurn]
    split
    · exact .refl _
    · split
      · exact onward_listenPause y (.refl _) _ _ _
      · exact onward_listenWait y (.refl _) _ _ _ _ _
  unfold listenRun
  exact h.trans (runTurns_frame (R := Onward) (S := fun _ _ => True) Onward.trans
    (fun _ _ => trivial) hturn n l x (.refl _) trivial).1

/-- The evictor only adds to the run queue, and starts no task. -/
theorem onward_evictRun (h : Onward w x) (id : Nat) (p : PeriodicLoop) :
    Onward w (evictRun id p x).2 := by
  unfold evictRun periodicRun
  exact h.trans (runTurns_frame (R := Onward)
    (S := fun p₁ p₂ : PeriodicLoop => p₂.seen = p₁.seen) Onward.trans (fun h₁ h₂ => h₂.trans h₁)
    (periodicTurn_frame_of_queue id x.pollInterval true (fun x => x.client.map (·.stop))
      setClientStop evictWaiters (fun x => x) (R := Onward) Onward.trans Onward.refl
      (fun _ _ => ⟨.refl _, le_refl _⟩) (fun y _ hc => (Onward.refl y).of_core hc)
      (fun y => onward_withWaiters y (.refl _) _) Onward.refl) 10000 p x (.refl _) rfl).1

theorem onward_awaitReply (h : Onward w x) (cl : Client) (rid : Uuid) (ch deadline : Nat)
    (sl : Sleep) : Onward w (x.awaitReply cl rid ch deadline sl).2 := by
  rw [awaitReply]
  dsimp only
  have hpoll := h.queue.trans (Sleep.queueGrows_poll sl x.core .main)
  -- name the parts of the poll, so that no later check has to evaluate it
  generalize sl.poll x.core .main = r at hpoll ⊢
  obtain ⟨ready, sl', core⟩ := r
  dsimp only
  split
  · have hw := onward_withWaiters _ (show Onward w { x with
      client := some { cl with store := { cl.store with channels := cl.store.channels.listen ch .main } },
      core } from ⟨hpoll, h.next⟩) fun st => ((st.cancel rid).2.1, (st.cancel rid).2.2)
    exact ⟨hw.queue, hw.next⟩
  · exact ⟨hpoll, h.next⟩

theorem onward_pollSend (h : Onward w x) (st : SendState) : Onward w (x.pollSend st).2 := by
  unfold pollSend
  split
  · exact h
  · split
    · exact h
    · dsimp only
      split
      · exact ⟨h.queue, h.next⟩
      · exact ⟨h.queue, h.next⟩
      · exact onward_awaitReply _ ⟨h.queue, h.next⟩ _ _ _ _ _

theorem onward_pollSends (h : Onward w x) (items : List SendState) :
    Onward w (x.pollSends items).2 := by
  unfold pollSends
  apply List.foldlRecOn (motive := fun (acc : List SendState × Exchange) => Onward w acc.2)
  · exact h
  · intro acc hacc st _
    exact onward_pollSend _ hacc _

/-- Sending one request wakes whoever its registration wakes, and whoever the publish
wakes. -/
theorem onward_beginSend (h : Onward w x) (req : Request) : Onward w (x.beginSend req).2 := by
  unfold beginSend
  split
  · exact h
  · next cl _ =>
    dsimp only
    split
    · next e y heq =>
      have hy : Onward w y := by
        have hsnd := congrArg Prod.snd heq
        dsimp only at hsnd
        rw [← hsnd]
        exact ⟨(h.queue.trans (Core.queueGrows_wakeAll _ _)).trans (Hub.queueGrows_publish _ _ _ _ _),
          h.next⟩
      have hw := onward_withWaiters y hy fun st => ((st.cancel (Uuid.fresh x.nextRequest)).2.1,
        (st.cancel (Uuid.fresh x.nextRequest)).2.2)
      exact ⟨hw.queue, hw.next⟩
    · next m y heq =>
      have hy : Onward w y := by
        have hsnd := congrArg Prod.snd heq
        dsimp only at hsnd
        rw [← hsnd]
        exact ⟨(h.queue.trans (Core.queueGrows_wakeAll _ _)).trans (Hub.queueGrows_publish _ _ _ _ _),
          h.next⟩
      exact onward_pollSend y hy _

theorem onward_beginSends (h : Onward w x) (reqs : List Request) :
    Onward w (x.beginSends reqs).2 := by
  unfold beginSends
  apply List.foldlRecOn (motive := fun (acc : List SendState × Exchange) => Onward w acc.2)
  · exact h
  · intro acc hacc req _
    exact onward_beginSend _ hacc _

theorem onward_stopClient (h : Onward w x) : Onward w x.stopClient.2 := by
  unfold stopClient
  split
  · exact h
  · exact ⟨h.queue.trans (Core.queueGrows_wakeAll _ _), h.next⟩

end Client

section Caller

variable (x : Exchange) {w : Exchange}

theorem onward_joinWait (h : Onward w x) (id : Nat) (grace : Option Sleep) :
    Onward w (x.joinWait id grace).2 := by
  rw [joinWait.eq_def]
  split
  · dsimp only
    split
    · exact h.of_core (Sleep.queueGrows_drop _ _)
    · exact h.of_core (.refl _)
  · dsimp only
    have hpoll := Sleep.queueGrows_poll
      (grace.getD (Sleep.ofDeadline (x.core.now + stopGrace))) x.core .main
    -- name the parts of the poll, so that no later check has to evaluate it
    generalize (grace.getD (Sleep.ofDeadline (x.core.now + stopGrace))).poll x.core .main = r
      at hpoll ⊢
    obtain ⟨ready, s', core⟩ := r
    exact h.of_core hpoll

theorem onward_pollJoin (ids : List Nat) :
    ∀ (x : Exchange) (grace : Option Sleep), Onward w x → Onward w (x.pollJoin ids grace).2 := by
  -- the caller waits for the tasks one after the other
  induction ids with
  | nil => exact fun x grace h => ⟨h.queue, h.next⟩
  | cons id rest ih =>
    intro x grace h
    have hw := onward_joinWait x h id grace
    rw [pollJoin]
    rcases hj : x.joinWait id grace with ⟨_ | s, y⟩
    · rw [hj] at hw
      exact ih _ _ hw
    · rw [hj] at hw
      exact ⟨hw.queue, hw.next⟩

/-- The caller's wait only adds to the run queue, and starts no task. -/
theorem onward_pollMain (h : Onward w x) : Onward w x.pollMain.2 := by
  rw [pollMain.eq_def]
  split
  · exact h
  · exact onward_pollJoin _ _ _ h
  · next s _ =>
    rw [pollSleep]
    have hpoll := Sleep.queueGrows_poll s x.core .main
    -- name the parts of the poll, so that no later check has to evaluate it
    generalize s.poll x.core .main = r at hpoll ⊢
    obtain ⟨ready, s', core⟩ := r
    exact ⟨h.queue.trans hpoll, h.next⟩
  · next items _ =>
    have hs := onward_pollSends x h items
    exact ⟨hs.queue, hs.next⟩

end Caller

section Handler

variable (x : Exchange) {w : Exchange} (id : Nat) (hd : Handler)

/-- An answer on a channel wakes whoever reads it. -/
theorem onward_answerOn (h : Onward w x) (c : Nat) (r : Response) : Onward w (x.answerOn c r) := by
  obtain ⟨core, hc, heq⟩ := answerOn_eq x c r
  rw [heq]
  exact ⟨h.queue.trans hc, h.next⟩

theorem onward_answerLookup (h : Onward w x) (deviceId : Uuid) (mode : DirectoryMode) :
    Onward w (x.answerLookup hd deviceId mode).2 := by
  unfold answerLookup
  split
  · exact h
  · split
    · split
      exact ⟨h.queue.trans (Core.queueGrows_wakeAll _ _), h.next⟩
    · exact onward_answerOn x h _ _

theorem onward_awaitLookup (h : Onward w x) (deviceId : Uuid) (mode : DirectoryMode) (s : Sleep) :
    Onward w (awaitLookup id hd deviceId mode s x).2 := by
  rw [awaitLookup]
  have hpoll := Sleep.queueGrows_poll s x.core (.task id)
  -- name the parts of the poll, so that no later check has to evaluate it
  generalize s.poll x.core (.task id) = r at hpoll ⊢
  obtain ⟨ready, s', core⟩ := r
  dsimp only
  split
  · exact onward_answerLookup { x with core } hd (h.of_core hpoll) deviceId mode
  · exact h.of_core hpoll

/-- A handler only adds to the run queue, and starts no task: its answer wakes whoever
reads its channel. -/
theorem onward_handlerRun (h : Onward w x) : Onward w (handlerRun id hd x).2 := by
  unfold handlerRun
  split
  · split
    · exact onward_answerOn x h _ _
    · dsimp only
      split
      · exact onward_answerLookup _ _ h _ _
      · exact onward_awaitLookup _ _ _ h _ _ _
  · exact onward_awaitLookup _ _ _ h _ _ _
  · exact h

end Handler

section Consume

variable (x : Exchange) {w : Exchange} (id : Nat) (l : ConsumeLoop)

theorem onward_dropFetch (h : Onward w x) (fw : Option FetchWait) : Onward w (x.dropFetch fw) :=
  ⟨h.queue.trans (FetchWait.queueGrows_drop? _ _ _), h.next⟩

theorem onward_leaveConsume (h : Onward w x) : Onward w (leaveConsume x id l) := by
  -- the commit tick's timer goes
  obtain ⟨c, hc, heq⟩ : ∃ c, Core.QueueGrows x.core c ∧ leaveConsume x id l =
      if l.held then { x with core := c } else ({ x with core := c } : Exchange).commitAs id l.consumer := by
    unfold leaveConsume
    cases l.commitTick with
    | some iv => exact ⟨_, Interval.queueGrows_drop _ _, rfl⟩
    | none => exact ⟨_, .refl _, rfl⟩
  rw [heq]
  split
  · exact h.of_core hc
  · exact ⟨h.queue.trans hc, h.next⟩

theorem onward_consumeWait (h : Onward w x) (iv : Interval) (reg : Option Nat) (fw : Option FetchWait) :
    Onward w (consumeWait id l iv reg fw x).exchange := by
  rw [consumeWait]
  split
  next _ chg seen reg' st hpoll =>
  extract_lets y₁ l₁
  have hy₁ : Onward w y₁ := ⟨h.queue, h.next⟩
  split
  · exact onward_leaveConsume _ _ _ (onward_dropFetch _ hy₁ fw)
  · split
    next _ ready iv' core hiv =>
    have hy₂ : Onward w { y₁ with core } := by
      have := Interval.queueGrows_poll iv y₁.core (.task id)
      rw [hiv] at this
      exact hy₁.of_core this
    extract_lets y₂ l₂
    split
    · have := onward_dropFetch _ hy₂ fw
      exact ⟨this.queue, this.next⟩
    · split
      · dsimp only [Turn.exchange]
        exact onward_leaveConsume _ _ _ ⟨hy₂.queue, hy₂.next⟩
      · split
        next _ st y₃ hfetch =>
        -- the fetch's own wake-ups and timers
        have hy₃ : Onward w y₃ := by
          have hpoll := Fetch.queueGrows_poll y₂.hub y₂.core l₂.consumer 1 y₂.pollInterval fw (.task id)
          rw [show y₃ = (y₂.fetch l₂.consumer 1 y₂.pollInterval fw (.task id)).2 from
            (congrArg Prod.snd hfetch).symm]
          exact ⟨hy₂.queue.trans hpoll, hy₂.next⟩
        extract_lets l₃
        split
        · exact hy₃
        · split
          · exact ⟨hy₃.queue, hy₃.next⟩
          · exact ⟨hy₃.queue, hy₃.next⟩
          · exact onward_leaveConsume _ _ _ ⟨hy₃.queue, hy₃.next⟩
          · exact ⟨hy₃.queue, hy₃.next⟩

end Consume

end Exchange

end TokenGate
