import TokenGate.Proofs.LoopTurns
/-!
# `TokenGate.Proofs.Handover`: what a consume loop commits and hands on

A consume loop takes records from its partition one at a time, hands each to `dispatch`
once a slot is free, and commits its consumer's position on its tick and when it leaves.
Along every run (`Reachable.trails`), each loop started has moved, by the moves its history
records since its start, from the consumer it started with to the stand it runs at, and no
other task runs under its number (`Exchange.Trails`). The other tasks and the caller's
actions start tasks under new numbers only and record no move of a loop
(`Exchange.Aside`); a loop's own run is followed in `TokenGate.Proofs.LoopTurns`.

`consumeLoop_handover` reads off what that means for one loop: every commit is of its start
position or one past the last record it handed on; the records handed on are those its polls
took, in order, but the one it holds; a record held lies past every commit, and the loop
waits for a slot with it while it runs. With no other task committing for its partition,
the committed offset never goes back, and a consumer opened later for the partition starts at
or before a record the loop held then, which is read again.
-/

set_option autoImplicit false

namespace TokenGate

open Sched

deriving instance DecidableEq for InFlight, Settled, Admission, SendOutcome, Envelope, Event

/-- An event naming only tasks that satisfy `T`, and starting no loop. -/
def Event.NamesOnly (T : Nat → Prop) (e : Event) : Prop :=
  ∀ t, e.task? = some t → T t ∧ ∀ c, e ≠ .consuming t c

theorem Event.namesOnly_of_task? {T : Nat → Prop} {e : Event} (h : e.task? = none) :
    e.NamesOnly T := fun t ht => by
  rw [h] at ht
  cases ht

namespace Exchange

variable {x y z : Exchange}

/-- From `x` to `y` the tasks of `x` stay or end, new ones take new numbers, and the history
grows by events naming tasks that satisfy `T` only. -/
structure Aside (T : Nat → Prop) (x y : Exchange) : Prop extends Spawns x y where
  history : GrowsBy (Event.NamesOnly T) x.history y.history

namespace Aside

variable {T : Nat → Prop}

theorem trans (h₁ : Aside T x y) (h₂ : Aside T y z) : Aside T x z :=
  ⟨h₁.toSpawns.trans h₂.toSpawns, h₁.history.trans h₂.history⟩

theorem of_eq (ht : y.tasks ⊆ x.tasks) (hn : x.nextTask ≤ y.nextTask) (hh : y.history = x.history) :
    Aside T x y :=
  ⟨.of_subset ht hn, .of_eq hh⟩

theorem refl (x : Exchange) : Aside T x x := of_eq (fun _ h => h) le_rfl rfl

/-- A move recording events of a kind that names no task. -/
theorem of_records {P : Event → Prop} (hP : ∀ e, P e → e.task? = none) (ht : y.tasks = x.tasks)
    (hn : x.nextTask ≤ y.nextTask) (hh : GrowsBy P x.history y.history) : Aside T x y :=
  ⟨.of_subset (ht ▸ fun _ h => h) hn, hh.mono fun e he => Event.namesOnly_of_task? (hP e he)⟩

theorem mono {T' : Nat → Prop} (hT : ∀ t, T t → T' t) (h : Aside T x y) : Aside T' x y :=
  ⟨h.toSpawns, h.history.mono fun _ he t ht => ⟨hT t (he t ht).1, (he t ht).2⟩⟩

end Aside

section Others

variable (x : Exchange)

/-- Settling a request publishes its answer and at most stops its handler. -/
theorem settle_aside (e : InFlight) (s : Settled) : Aside (fun _ => False) x (x.settle e s) := by
  refine ⟨.of_subset (settle_tasks_subset x e s) ?_, ?_⟩
  · by_cases he : e.id ∈ x.server.inFlight.map (·.id)
    · obtain ⟨sent, hub, core, -, heq⟩ := settle_eq x e s he
      rw [heq]
    · have hany : x.server.inFlight.any (·.id == e.id) = false := by simpa using he
      unfold settle
      rw [if_pos (by simp [hany])]
  · by_cases he : e.id ∈ x.server.inFlight.map (·.id)
    · obtain ⟨sent, hub, core, -, heq⟩ := settle_eq x e s he
      rw [heq]
      exact (GrowsBy.refl _ _).snoc _ (Event.namesOnly_of_task? rfl)
    · have hany : x.server.inFlight.any (·.id == e.id) = false := by simpa using he
      unfold settle
      rw [if_pos (by simp [hany])]
      exact .refl _ _

/-- The sweep settles what is ready, one request after the other. -/
theorem sweep_aside : Aside (fun _ => False) x x.sweep.2 := by
  unfold sweep
  rcases hc : x.collectSettled with ⟨found, y⟩
  -- looking at the channels changes the server only
  have hy : Aside (fun _ => False) x y := by
    have hy := congrArg Prod.snd hc
    unfold collectSettled at hy
    dsimp only at hy
    rw [← hy]
    exact .of_eq (fun _ h => h) le_rfl rfl
  apply List.foldlRecOn (motive := Aside (fun _ => False) x)
  · exact hy
  · intro z hz p _
    exact hz.trans (settle_aside z p.1 p.2)

/-- The sweep's stop drops the handlers of what is in flight and records it. -/
theorem abandonInFlight_aside : Aside (fun _ => False) x x.abandonInFlight := by
  refine ⟨.of_subset (abandonInFlight_tasks_subset x) (Slots.abandonInFlight_tasks x).2.ge, ?_⟩
  obtain ⟨core, -, heq⟩ := abandonInFlight_eq x
  obtain ⟨core', -, heq'⟩ := foldl_releaseSlot x.server.inFlight
    { x with
      server := { x.server with closing := true, inFlight := [] }
      tasks := x.tasks.filter (fun p => p.1 ∉ x.server.inFlight.map InFlight.task)
      core }
  rw [heq, note_history, heq']
  exact (GrowsBy.refl _ _).snoc _ (Event.namesOnly_of_task? rfl)

theorem sweepRun_aside (id : Nat) (p : PeriodicLoop) :
    Aside (fun _ => False) x (sweepRun id p x).2 := by
  unfold sweepRun periodicRun
  exact (runTurns_frame (R := Aside (fun _ => False)) (S := fun _ _ => True) Aside.trans
    (fun _ _ => trivial)
    (fun p' y => ⟨(periodicTurn_frame id x.pollInterval false (fun x => some x.stop)
      (fun x w => { x with stop := w }) (fun x => x.sweep.2) abandonInFlight
      (R := Aside (fun _ => False)) Aside.trans Aside.refl
      (fun _ _ => .of_eq (fun _ h => h) le_rfl rfl) (fun _ _ => .of_eq (fun _ h => h) le_rfl rfl)
      sweep_aside abandonInFlight_aside p' y).1, fun _ _ => trivial⟩) 10000 p x (.refl x) trivial).1

theorem handlerRun_tasks (id : Nat) (hd : Handler) : (handlerRun id hd x).2.tasks = x.tasks := by
  rcases handlerRun_ends x id hd with ⟨ph, core, hr⟩ | ⟨core, hr⟩ | ⟨core, a, hr⟩
  · rw [hr]
  · rw [hr]
  · obtain ⟨core', -, heq⟩ := answerOn_eq { x with core } hd.result a
    rw [hr, heq]

theorem handlerRun_aside (id : Nat) (hd : Handler) : Aside (fun _ => False) x (handlerRun id hd x).2 :=
  .of_records (fun e he => by cases e <;> first | rfl | exact he.elim) (handlerRun_tasks x id hd)
    (onward_handlerRun x id hd (.refl x)).next (handlerRun_records x id hd).history

theorem listenRun_tasks (id n : Nat) (l : Listener) : (listenRun id n l x).2.tasks = x.tasks := by
  unfold listenRun
  exact (runTurns_frame (R := fun x y => y.tasks = x.tasks) (S := fun _ _ => True)
    (fun h₁ h₂ => h₂.trans h₁) (fun _ _ => trivial)
    (fun l' y => ⟨(listenTurn_frame y id l').2.1, fun _ _ => trivial⟩) n l x rfl trivial).1

/-- A listener names itself only, in its commits. -/
theorem listenRun_aside (id n : Nat) (l : Listener) : Aside (· = id) x (listenRun id n l x).2 :=
  ⟨.of_subset (listenRun_tasks x id n l ▸ fun _ h => h) (onward_listenRun x (.refl x) id n l).next,
    (listenRun_records id n l x).history.mono fun e he t ht => by
      cases e <;> simp_all [Event.OfListen, Event.task?]⟩

theorem evictRun_aside (id : Nat) (p : PeriodicLoop) : Aside (fun _ => False) x (evictRun id p x).2 := by
  have ht : (evictRun id p x).2.tasks = x.tasks := by
    unfold evictRun periodicRun
    exact (runTurns_frame (R := fun x y => y.tasks = x.tasks) (S := fun _ _ => True)
      (fun h₁ h₂ => h₂.trans h₁) (fun _ _ => trivial)
      (fun p' y => ⟨(periodicTurn_frame id x.pollInterval true (fun x => x.client.map (·.stop))
        setClientStop evictWaiters (fun x => x) (R := fun x y => y.tasks = x.tasks)
        (fun h₁ h₂ => h₂.trans h₁) (fun _ => rfl) (fun _ _ => by simp) (fun _ _ => rfl)
        (fun _ => by simp) (fun _ => rfl) p' y).1, fun _ _ => trivial⟩) 10000 p x rfl trivial).1
  exact .of_records (P := fun _ => False) (fun _ h => h.elim) ht
    (onward_evictRun x (.refl x) id p).next (evictRun_records id p x).history

theorem ofCaller_task? {e : Event} (he : Event.OfCaller e) : e.task? = none := by
  cases e <;> first | rfl | exact he.elim

theorem pollMain_aside : Aside (fun _ => False) x x.pollMain.2 :=
  .of_records (fun _ => ofCaller_task?) (pollMain_offstage x).2 (onward_pollMain x (.refl x)).next
    (pollMain_records x).history

theorem beginSends_aside (reqs : List Request) : Aside (fun _ => False) x (x.beginSends reqs).2 :=
  .of_records (fun _ => ofCaller_task?) (beginSends_offstage x reqs).2
    (onward_beginSends x (.refl x) reqs).next (beginSends_records x reqs).history

theorem stopClient_aside : Aside (fun _ => False) x x.stopClient.2 := by
  unfold stopClient
  split
  · exact .refl x
  · exact .of_eq (fun _ h => h) le_rfl rfl

/-- Starting the client starts its listeners and its evictor under new numbers. -/
theorem startClient_aside (replyTopic : String) (timeout : Nat) :
    Aside (fun _ => False) x (x.startClient replyTopic timeout) := by
  refine ⟨?_, (startClient_records x replyTopic timeout).history.mono fun _ h => h.elim⟩
  unfold startClient
  dsimp only
  refine Spawns.trans ?_ (Spawns.spawn _ _)
  apply List.foldlRecOn (motive := Spawns x)
  · exact .of_subset (fun _ h => h) le_rfl
  · intro y hy p _
    split
    · refine hy.trans (Spawns.trans ?_ (Spawns.spawn _ _))
      exact .of_subset (fun _ h => h) le_rfl
    · exact hy

theorem send_aside (topic : String) (key : Option String) (value : List UInt8) :
    Aside (fun _ => False) x (x.send topic key value).2 :=
  .of_records (fun _ he => by rw [he]; rfl) rfl le_rfl (send_records x topic key value).history

end Others

end Exchange

/-! ### The trail of every consume loop -/

namespace Exchange

variable {x y : Exchange}

section Store

variable {β : Type} {id : Nat} {wrap : β → Task}

@[simp] theorem storeAs_nextTask (r : Option β × Exchange) : (storeAs id wrap r).nextTask = r.2.nextTask := by
  obtain ⟨_ | b, y⟩ := r
  · obtain ⟨core, h⟩ := y.endTask_eq id
    simp [storeAs, h]
  · rfl

/-- The tasks once a task's state is stored: the others, and the state stored. -/
theorem mem_storeAs_tasks {r : Option β × Exchange} {p : Nat × Task}
    (hp : p ∈ (storeAs id wrap r).tasks) : (p ∈ r.2.tasks ∧ p.1 ≠ id) ∨ ∃ b ∈ r.1, p = (id, wrap b) := by
  obtain ⟨_ | b, y⟩ := r
  · obtain ⟨core, h⟩ := y.endTask_eq id
    simp only [storeAs, h, List.mem_filter, bne_iff_ne, ne_eq] at hp
    exact .inl ⟨hp.1, by simpa using hp.2⟩
  · obtain ⟨q, hq, hqp⟩ := List.mem_map.1 hp
    by_cases h₁ : q.1 = id
    · simp only [h₁, beq_self_eq_true, ite_true] at hqp
      exact .inr ⟨b, rfl, hqp.symm⟩
    · simp only [beq_iff_eq, h₁, ite_false] at hqp
      exact .inl ⟨hqp ▸ hq, hqp ▸ h₁⟩

end Store

/-- What the history says of the consume loops. Every task it names has a number given out;
every loop it started has moved, by the moves it recorded since, from its start to a stand,
and runs, while it runs, at that stand, with no other task under its number. -/
structure Trails (x : Exchange) : Prop where
  named : ∀ e ∈ x.history, ∀ t, e.2.task? = some t → t < x.nextTask
  trail : ∀ pre tm id c post, x.history = pre ++ (tm, .consuming id c) :: post →
    ∃ s, (LoopStand.start c).follow (loopMoves id post) = some s ∧
      ∀ p ∈ x.tasks, p.1 = id → ∃ l, p.2 = .consume l ∧ l.Stands s

namespace Trails

/-- A loop started has a number given out. -/
theorem started_lt (h : x.Trails) {pre post : History} {tm id : Nat} {c : Consumer}
    (hx : x.history = pre ++ (tm, .consuming id c) :: post) : id < x.nextTask :=
  h.named (tm, .consuming id c) (by rw [hx]; simp) id rfl

/-- A start recorded after a move that records none was recorded before it. -/
theorem start_before {evs : History} (hh : y.history = x.history ++ evs)
    (hevs : ∀ e ∈ evs, ∀ t c, e.2 ≠ .consuming t c) {pre post : History} {tm id : Nat}
    {c : Consumer} (hy : y.history = pre ++ (tm, .consuming id c) :: post) :
    ∃ post', x.history = pre ++ (tm, .consuming id c) :: post' ∧ post = post' ++ evs := by
  rw [hh] at hy
  obtain ⟨post', hx⟩ := eq_append_cons_of_append hy fun hm => hevs _ hm id c rfl
  refine ⟨post', hx, ?_⟩
  rw [hx] at hy
  simpa using hy.symm

/-- A move that starts tasks under new numbers only and records events naming only tasks
of `T`, none of them a consume loop, keeps the trails. -/
theorem aside {T : Nat → Prop} (h : x.Trails) (hid : ∀ p ∈ x.tasks, p.1 < x.nextTask)
    (hT : ∀ t, T t → ∃ u, (t, u) ∈ x.tasks ∧ u.consume? = none) (ha : Aside T x y) : y.Trails := by
  refine ⟨fun e he t ht => ?_, fun pre tm id c post hpost => ?_⟩
  · obtain ⟨evs, hh, hevs⟩ := ha.history
    rw [hh] at he
    rcases List.mem_append.1 he with he | he
    · exact (h.named e he t ht).trans_le ha.next
    · obtain ⟨u, hu, -⟩ := hT t ((hevs e he t ht).1)
      exact (hid _ hu).trans_le ha.next
  obtain ⟨evs, hh, hevs⟩ := ha.history
  obtain ⟨post', hx, rfl⟩ :=
    start_before hh (fun e he t c heq => (hevs e he t (by rw [heq]; rfl)).2 c heq) hpost
  obtain ⟨s, hf, ht⟩ := h.trail pre tm id c post' hx
  have hlt := h.started_lt hx
  -- no event of the move names the loop: a task it names runs no consume loop
  have hnil : loopMoves id evs = [] := loopMoves_eq_nil id fun e he hne => by
    obtain ⟨u, hu, hc⟩ := hT id (hevs e he id hne).1
    obtain ⟨l, hl, -⟩ := ht _ hu rfl
    simp only at hl
    rw [hl] at hc
    cases hc
  refine ⟨s, by rw [loopMoves_append, hnil, List.append_nil]; exact hf, fun p hp hp₁ => ?_⟩
  rcases ha.tasks p hp with hp | hn
  · exact ht p hp hp₁
  · omega

/-- Storing the state of a task that runs no consume loop, under a number no loop started
under, keeps the trails. -/
theorem storeAs_other {β : Type} {id : Nat} {wrap : β → Task} {r : Option β × Exchange}
    (h : r.2.Trails) (hid : ∀ pre tm c post, r.2.history ≠ pre ++ (tm, .consuming id c) :: post) :
    (storeAs id wrap r).Trails := by
  refine ⟨by simpa using h.named, fun pre tm id' c post hpost => ?_⟩
  rw [storeAs_history] at hpost
  obtain ⟨s, hf, ht⟩ := h.trail pre tm id' c post hpost
  refine ⟨s, hf, fun p hp hp₁ => ?_⟩
  rcases mem_storeAs_tasks hp with ⟨hp, -⟩ | ⟨b, -, rfl⟩
  · exact ht p hp hp₁
  · obtain rfl : id = id' := hp₁
    exact absurd hpost (hid pre tm c post)

/-- A poll of a task that runs no consume loop, which names itself only, keeps the trails. -/
theorem pollOther {β : Type} {id : Nat} {wrap : β → Task} {r : Option β × Exchange} (h : x.Trails)
    (hid : ∀ p ∈ x.tasks, p.1 < x.nextTask) {u : Task} (hu : (id, u) ∈ x.tasks)
    (hc : u.consume? = none) (ha : Aside (· = id) x r.2) : (storeAs id wrap r).Trails := by
  refine storeAs_other (h.aside hid (T := (· = id)) (fun t ht => ⟨u, ht ▸ hu, hc⟩) ha)
    fun pre tm c post hy => ?_
  -- a start under the task's number was recorded before, and its number runs a loop
  obtain ⟨evs, hh, hevs⟩ := ha.history
  obtain ⟨post', hx, -⟩ :=
    start_before hh (fun e he t c heq => (hevs e he t (by rw [heq]; rfl)).2 c heq) hy
  obtain ⟨s, -, ht⟩ := h.trail pre tm id c post' hx
  obtain ⟨l, hl, -⟩ := ht _ hu rfl
  simp only at hl
  rw [hl] at hc
  cases hc

/-- Storing a consume loop after its run keeps the trails: the run recorded moves of its own
only, leading from the stand the loop stood at to the stand it stands at now. -/
theorem storeAs_loop (h : x.Trails) (hid : ∀ p ∈ x.tasks, p.1 < x.nextTask) {id : Nat}
    {l : ConsumeLoop} (hl : (id, Task.consume l) ∈ x.tasks) {s s' : LoopStand} (hs : l.Stands s)
    {r : Option ConsumeLoop × Exchange} (hadv : Advances id x s r.2 s') (hsp : Spawns x r.2)
    (hst : ∀ l' ∈ r.1, l'.Stands s') : (storeAs id Task.consume r).Trails := by
  obtain ⟨evs, hh, hevs, hf⟩ := hadv
  have hlt : id < x.nextTask := hid _ hl
  refine ⟨fun e he t ht => ?_, fun pre tm id' c post hpost => ?_⟩
  · rw [storeAs_history, hh] at he
    rw [storeAs_nextTask]
    rcases List.mem_append.1 he with he | he
    · exact (h.named e he t ht).trans_le hsp.next
    · obtain rfl : id = t := Option.some.inj ((hevs e he).1.symm.trans ht)
      exact hlt.trans_le hsp.next
  rw [storeAs_history] at hpost
  obtain ⟨post', hx, rfl⟩ := start_before hh (fun e he => (hevs e he).2) hpost
  obtain ⟨s₀, hf₀, ht₀⟩ := h.trail pre tm id' c post' hx
  rw [loopMoves_append, LoopStand.follow_append, hf₀]
  by_cases hi : id' = id
  · -- the loop's own trail: it stood at `s`, and moved on to `s'`
    subst hi
    obtain ⟨l₀, hl₀, hs₀⟩ := ht₀ _ hl rfl
    obtain rfl : l = l₀ := Task.consume.inj hl₀
    obtain rfl := hs₀.unique hs
    refine ⟨s', hf, fun p hp hp₁ => ?_⟩
    rcases mem_storeAs_tasks hp with ⟨-, hne⟩ | ⟨l', hl', rfl⟩
    · exact absurd hp₁ hne
    · exact ⟨l', rfl, hst l' hl'⟩
  · -- another loop's trail: the run names no other task
    have hnil : loopMoves id' evs = [] := loopMoves_eq_nil id' fun e he hne =>
      hi (Option.some.inj (hne.symm.trans (hevs e he).1))
    refine ⟨s₀, by rw [hnil]; rfl, fun p hp hp₁ => ?_⟩
    rcases mem_storeAs_tasks hp with ⟨hp, -⟩ | ⟨l', -, rfl⟩
    · rcases hsp.tasks p hp with hp | hn
      · exact ht₀ p hp hp₁
      · have := h.started_lt hx
        omega
    · exact absurd hp₁.symm hi

/-- A consume loop started under the next number, at the consumer it reads through, keeps
the trails: its own trail is empty, at its start. -/
theorem start (h : x.Trails) (hid : ∀ p ∈ x.tasks, p.1 < x.nextTask) (c : Consumer) :
    ((x.spawn (.consume ⟨c, 0, none, false, .waiting none none⟩)).2.note
      (.consuming x.nextTask c)).Trails := by
  refine ⟨fun e he t ht => ?_, fun pre tm id c' post hpost => ?_⟩
  · show t < x.nextTask + 1
    simp only [note_history, spawn_history, List.mem_append, List.mem_singleton] at he
    rcases he with he | rfl
    · exact (h.named e he t ht).trans (Nat.lt_succ_self _)
    · obtain rfl : x.nextTask = t := Option.some.inj ht
      exact Nat.lt_succ_self _
  simp only [note_history, spawn_history] at hpost
  rcases eq_append_cons_of_snoc hpost with ⟨post', hx⟩ | ⟨rfl, he⟩
  · -- an earlier loop: the start records no move of it
    have hpost' : post = post' ++ [((x.spawn (.consume ⟨c, 0, none, false, .waiting none none⟩)).2.core.now,
        .consuming x.nextTask c)] := by
      rw [hx] at hpost
      simpa using hpost.symm
    obtain ⟨s, hf, ht⟩ := h.trail pre tm id c' post' hx
    have hlt := h.started_lt hx
    refine ⟨s, by simpa [hpost', loopMoves, Event.loopMove?] using hf, fun p hp hp₁ => ?_⟩
    rcases List.mem_append.1 hp with hp | hp
    · exact ht p hp hp₁
    · rw [List.mem_singleton.1 hp] at hp₁
      omega
  · -- the new loop stands at its start
    simp only [Prod.mk.injEq, Event.consuming.injEq] at he
    obtain ⟨-, rfl, rfl⟩ := he
    obtain rfl : post = [] := (by simpa using hpost : _ ∧ post = []).2
    refine ⟨LoopStand.start c', rfl, fun p hp hp₁ => ?_⟩
    rcases List.mem_append.1 hp with hp | hp
    · have := hid p hp
      omega
    · rw [List.mem_singleton.1 hp]
      exact ⟨_, rfl, rfl, rfl, rfl⟩

/-- A task started under the next number, other than a consume loop, keeps the trails. -/
theorem spawn (h : x.Trails ∧ ∀ p ∈ x.tasks, p.1 < x.nextTask) (t : Task) : (x.spawn t).2.Trails :=
  h.1.aside h.2 (fun _ hf => hf.elim) (T := fun _ => False) ⟨Spawns.spawn _ _, .of_eq rfl⟩

/-- Starting the server starts a consume loop per partition, each at its start, and the
sweep. -/
theorem startServer (h : x.Trails) (hid : ∀ p ∈ x.tasks, p.1 < x.nextTask) : x.startServer.2.Trails := by
  unfold Exchange.startServer
  dsimp only
  refine Trails.spawn ?_ _
  -- the numbers below the next one carry the trails through the loops started one by one
  apply List.foldlRecOn
    (motive := fun acc : List Nat × Exchange => acc.2.Trails ∧ ∀ p ∈ acc.2.tasks, p.1 < acc.2.nextTask)
  · exact ⟨h.aside hid (fun _ hf => hf.elim) (T := fun _ => False) (.of_eq (fun _ h => h) le_rfl rfl), hid⟩
  · intro acc hacc p _
    split
    · next cons broker _ =>
      have hy := hacc.1.aside hacc.2 (fun _ hf => hf.elim) (T := fun _ => False)
        (y := { acc.2 with hub := { acc.2.hub with broker } }) (.of_eq (fun _ h => h) le_rfl rfl)
      refine ⟨hy.start hacc.2 cons, fun q hq => ?_⟩
      simp only [note_tasks, spawn_tasks, List.mem_append, List.mem_singleton] at hq
      show q.1 < acc.2.nextTask + 1
      rcases hq with hq | rfl
      · exact (hacc.2 q hq).trans (Nat.lt_succ_self _)
      · exact Nat.lt_succ_self _
    · exact hacc

/-- A poll of any task keeps the trails. -/
theorem pollTask (h : x.Trails) (hsl : x.Slots) (hlog : x.CommitLog) (id : Nat) :
    (({ x with core := { x.core with queue := x.core.queue.erase id } } : Exchange).pollTask id).Trails := by
  generalize hx' : ({ x with core := { x.core with queue := x.core.queue.erase id } } : Exchange) = x'
  have ht : x'.tasks = x.tasks := by rw [← hx']
  have hid : ∀ p ∈ x'.tasks, p.1 < x'.nextTask := by
    rw [← hx']
    exact hsl.ids.lt
  have h' : x'.Trails := h.aside hsl.ids.lt (fun _ hf => hf.elim) (T := fun _ => False)
    (.of_eq (ht ▸ fun _ h => h) (by rw [← hx']) (by rw [← hx']))
  have hlog' : x'.CommitLog := by
    rw [← hx']
    exact hlog.congr rfl rfl
  cases htask : x'.task? id with
  | none =>
    rw [pollTask_none htask]
    exact h'
  | some t =>
    have hm := mem_tasks_of_task? htask
    cases t with
    | consume l =>
      rw [pollTask_consume htask]
      -- the loop holds a record exactly while it waits for a slot: it stands where it is
      have hhold : l.Holding := hsl.slots.holding id l (by
        rw [← consumeLoop?_of_tasks ht]
        simp [consumeLoop?, htask, Task.consume?])
      have hs := ConsumeLoop.Holding.stands hhold
      obtain ⟨s', hadv, hsp, hst⟩ := consumeRun_tracks hlog' id 10000 hs
      exact h'.storeAs_loop hid hm hs hadv hsp hst
    | sweep p =>
      rw [pollTask_sweep htask]
      exact h'.pollOther hid hm rfl ((sweepRun_aside x' id p).mono fun _ hf => hf.elim)
    | handler hd =>
      rw [pollTask_handler htask]
      exact h'.pollOther hid hm rfl ((handlerRun_aside x' id hd).mono fun _ hf => hf.elim)
    | listen l =>
      rw [pollTask_listen htask]
      exact h'.pollOther hid hm rfl (listenRun_aside x' id 10000 l)
    | evict p =>
      rw [pollTask_evict htask]
      exact h'.pollOther hid hm rfl ((evictRun_aside x' id p).mono fun _ hf => hf.elim)

/-- Every step of a run keeps the trails. -/
theorem step (h : x.Trails) (hsl : x.Slots) (hlog : x.CommitLog) (hs : Step x y) : y.Trails := by
  -- the moves that start no consume loop and name no task
  have hcalm : ∀ {z : Exchange}, Aside (fun _ => False) x z → z.Trails :=
    fun ha => h.aside hsl.ids.lt (fun _ hf => hf.elim) ha
  have hsame : ∀ {z : Exchange}, z.tasks = x.tasks → z.nextTask = x.nextTask →
      z.history = x.history → z.Trails := fun ht hn hh =>
    hcalm (.of_eq (ht ▸ fun _ h => h) hn.ge hh)
  cases hs with
  | poll id => exact h.pollTask hsl hlog id
  | main =>
    refine hcalm (Aside.trans ?_ (pollMain_aside _))
    exact .of_eq (fun _ h => h) le_rfl rfl
  | tick t => exact hsame rfl rfl rfl
  | sleep ms => exact hsame rfl rfl rfl
  | join ids => exact hsame rfl rfl rfl
  | idle => exact hsame rfl rfl rfl
  | send topic key value => exact hcalm (send_aside x topic key value)
  | startServer => exact h.startServer hsl.ids.lt
  | startClient replyTopic timeout _ => exact hcalm (startClient_aside x replyTopic timeout)
  | sends reqs =>
    dsimp only
    split
    · exact hcalm (beginSends_aside x reqs)
    · exact hcalm ((beginSends_aside x reqs).trans (.of_eq (fun _ h => h) le_rfl rfl))
  | stopClient => exact hcalm (stopClient_aside x)
  | requestStop =>
    unfold Exchange.requestStop
    generalize x.stop.send = p
    obtain ⟨stop, ws⟩ := p
    exact hsame rfl rfl rfl
  | dropStop =>
    unfold Exchange.dropStop
    generalize x.stop.close = p
    obtain ⟨stop, ws⟩ := p
    exact hsame rfl rfl rfl
  | close => exact hsame rfl rfl rfl
  | sweep => exact hcalm (sweep_aside x)
  | backend b => exact hsame rfl rfl rfl
  | directory d => exact hsame rfl rfl rfl
  | createTopic name n => exact hsame rfl rfl rfl
  | partitions name => exact hsame rfl rfl rfl

end Trails

/-- A new exchange has recorded nothing and runs no task. -/
theorem trails_create (config : TransportConfig) (group : String) (broker : Broker)
    (backend : Backend) : (create config group broker backend).Trails where
  named e he := by simp [create] at he
  trail pre tm id c post h := by simp [create] at h

/-- Along every run, every consume loop has moved from its start by the moves its history
records, and stands where they lead while it runs. -/
theorem Reachable.trails {x : Exchange} (hx : x.Reachable) : x.Trails := by
  induction hx with
  | create config group partitions retention backend => exact trails_create _ _ _ _
  | step hr hs ih => exact ih.step hr.slots hr.commitLog hs

end Exchange

/-! ### What a consume loop commits and hands on -/

/-- Along ordered offsets, all past `b`, the last one of a prefix is at most the last one. -/
theorem getLast?_getD_le_append {L₁ L₂ : List Nat} {b : Nat} (hs : (L₁ ++ L₂).Pairwise (· ≤ ·))
    (hb : ∀ a ∈ L₁ ++ L₂, b ≤ a) : L₁.getLast?.getD b ≤ (L₁ ++ L₂).getLast?.getD b := by
  rcases List.eq_nil_or_concat L₂ with rfl | ⟨L, z, rfl⟩
  · simp
  rw [List.concat_eq_append, ← List.append_assoc, List.getLast?_concat, Option.getD_some]
  cases h₁ : L₁.getLast? with
  | none => exact hb z (by simp)
  | some a => exact (List.pairwise_append.1 hs).2.2 a (List.mem_of_getLast? h₁) z (by simp)

/-- With every commit of a partition after a loop's start made by the loop, the offsets the
history commits for it are the loop's commits. -/
theorem filterMap_commitFor_eq {g t : String} {p id : Nat} : ∀ {h : History},
    (∀ e ∈ h, ∀ t' c', e.2 = .committed t' c' → c'.group = g → c'.topic = t → c'.partition = p →
      t' = id) →
    (∀ c' ∈ commitsOf (loopMoves id h), c'.group = g ∧ c'.topic = t ∧ c'.partition = p) →
    h.filterMap (fun e => e.2.commitFor? g t p) = (commitsOf (loopMoves id h)).map (·.position)
  | [], _, _ => rfl
  | e :: h, hno, hkey => by
    have hsplit : loopMoves id (e :: h) = loopMoves id [e] ++ loopMoves id h :=
      loopMoves_append id [e] h
    rw [hsplit, commitsOf_append] at hkey
    rw [show e :: h = [e] ++ h from rfl, List.filterMap_append, loopMoves_append, commitsOf_append,
      List.map_append, filterMap_commitFor_eq (fun e' he' => hno e' (List.mem_cons_of_mem _ he'))
        fun c' hc' => hkey c' (List.mem_append_right _ hc')]
    congr 1
    -- one event: a commit counts when it is the loop's, of its partition
    obtain ⟨tm, ev⟩ := e
    cases ev with
    | committed t' c' =>
      by_cases ht' : t' = id
      · subst ht'
        obtain ⟨h₁, h₂, h₃⟩ := hkey c' (List.mem_append_left _ (by simp))
        simp [Event.commitFor?, h₁, h₂, h₃]
      · have hnk : ¬(c'.group = g ∧ c'.topic = t ∧ c'.partition = p) := fun hk =>
          ht' (hno _ List.mem_cons_self t' c' rfl hk.1 hk.2.1 hk.2.2)
        simp only [List.filterMap_cons, List.filterMap_nil, Event.commitFor?, if_neg hnk, loopMoves,
          Event.loopMove?, if_neg ht']
        rfl
    | took t' r =>
      by_cases ht' : t' = id
      · subst ht'
        simp [Event.commitFor?]
      · simp [loopMoves, Event.loopMove?, Event.commitFor?, ht']
    | dispatched t' r a =>
      by_cases ht' : t' = id
      · subst ht'
        simp [Event.commitFor?]
      · simp [loopMoves, Event.loopMove?, Event.commitFor?, ht']
    | _ => rfl

namespace Exchange

/-- The offset a history commits last for a loop's partition, after its start at the offset
committed before, when every commit of the partition since is the loop's: the loop's last
commit, or its start position. -/
theorem lastCommit_after_start {pre post : History} {tm id : Nat} {c : Consumer}
    (hpre : c.position = (lastCommit pre c.group c.topic c.partition).getD 0) {s : LoopStand}
    (hf : (LoopStand.start c).follow (loopMoves id post) = some s)
    (hno : ∀ e ∈ post, ∀ t' c', e.2 = .committed t' c' → c'.group = c.group → c'.topic = c.topic →
      c'.partition = c.partition → t' = id) :
    (lastCommit (pre ++ (tm, .consuming id c) :: post) c.group c.topic c.partition).getD 0 =
      ((commitsOf (loopMoves id post)).map (·.position)).getLast?.getD c.position := by
  have hR := LoopStand.reached_of_follow hf
  -- the loop commits its own partition only
  have hkey : ∀ c' ∈ commitsOf (loopMoves id post),
      c'.group = c.group ∧ c'.topic = c.topic ∧ c'.partition = c.partition := fun c' hc' => by
    rw [(hR.commits c' hc').1]
    exact ⟨rfl, rfl, rfl⟩
  have hcons : ((tm, Event.consuming id c) :: post).filterMap
      (fun e => e.2.commitFor? c.group c.topic c.partition) =
      post.filterMap (fun e => e.2.commitFor? c.group c.topic c.partition) := rfl
  rw [lastCommit_append, lastCommit, hcons, filterMap_commitFor_eq hno hkey, hpre]
  cases ((commitsOf (loopMoves id post)).map (·.position)).getLast? <;> rfl

/-- What a consume loop commits and hands on, along every run. From its start, the loop's
moves are possible in turn, from its consumer holding nothing: every commit is of the start
position or one past the last record handed on before it; the records handed on are those
its polls took, in order, but the one it holds; a record held lies past every commit, and
the loop, while it runs, waits for a slot with it. With no other task committing for its
partition, the committed offset, which the history records, never goes back, and a consumer
opened later for the partition starts at or before a record the loop held then. -/
theorem consumeLoop_handover {x : Exchange} (hx : x.Reachable) {pre post : History} {tm id : Nat}
    {c : Consumer} (hstart : x.history = pre ++ (tm, .consuming id c) :: post) :
    (∀ g t p, x.hub.broker.committed g t p = lastCommit x.history g t p) ∧
    ∃ s, (LoopStand.start c).follow (loopMoves id post) = some s ∧
      (∀ ms₁ c' ms₂, loopMoves id post = ms₁ ++ .committed c' :: ms₂ →
        c' = { c with position := ((dispatchedOf ms₁).getLast?.map (·.offset + 1)).getD c.position }) ∧
      tookOf (loopMoves id post) = dispatchedOf (loopMoves id post) ++ s.held.toList ∧
      (∀ r ∈ s.held, c.position ≤ r.offset ∧
        (∀ c' ∈ commitsOf (loopMoves id post), c'.position ≤ r.offset) ∧
        ∀ q ∈ x.tasks, q.1 = id → ∃ l, q.2 = .consume l ∧ l.phase.record? = some r) ∧
      ((∀ e ∈ post, ∀ t' c', e.2 = .committed t' c' → c'.group = c.group → c'.topic = c.topic →
          c'.partition = c.partition → t' = id) →
        (∀ post₁ post₂ post₃, post = post₁ ++ post₂ ++ post₃ →
          (lastCommit (pre ++ (tm, .consuming id c) :: post₁) c.group c.topic c.partition).getD 0 ≤
            (lastCommit (pre ++ (tm, .consuming id c) :: (post₁ ++ post₂)) c.group c.topic
              c.partition).getD 0) ∧
        (∀ post₁ tm' id' c'' post₂ cs r, post = post₁ ++ (tm', .consuming id' c'') :: post₂ →
          c''.group = c.group → c''.topic = c.topic → c''.partition = c.partition →
          (LoopStand.start c).follow (loopMoves id post₁) = some ⟨cs, some r⟩ →
          c''.position ≤ r.offset)) := by
  have hlog := hx.commitLog
  obtain ⟨s, hf, ht⟩ := hx.trails.trail pre tm id c post hstart
  have hR := LoopStand.reached_of_follow hf
  -- with no other task committing for the partition, the offset the history commits last at
  -- each point after the start is the loop's last commit so far, or its start position
  have hat : (∀ e ∈ post, ∀ t' c', e.2 = .committed t' c' → c'.group = c.group →
      c'.topic = c.topic → c'.partition = c.partition → t' = id) → ∀ post₁ post', post = post₁ ++ post' →
        ∃ s₁, (LoopStand.start c).follow (loopMoves id post₁) = some s₁ ∧
          (lastCommit (pre ++ (tm, .consuming id c) :: post₁) c.group c.topic c.partition).getD 0 =
            ((commitsOf (loopMoves id post₁)).map (·.position)).getLast?.getD c.position := by
    intro hno post₁ post' hp
    rw [hp, loopMoves_append] at hf
    obtain ⟨s₁, hf₁⟩ := LoopStand.follow_prefix hf
    exact ⟨s₁, hf₁, lastCommit_after_start (hlog.started pre tm id c post hstart) hf₁
      fun e he => hno e (hp ▸ List.mem_append_left _ he)⟩
  refine ⟨hlog.committed, s, hf, fun ms₁ c' ms₂ hms => LoopStand.commit_after (hms ▸ hf), hR.handed,
    fun r hr => ⟨(hR.held r hr).1, (hR.held r hr).2, fun q hq hq₁ => ?_⟩, fun hno => ⟨?_, ?_⟩⟩
  · -- the loop running under the number holds the record
    obtain ⟨l, hl, hs⟩ := ht q hq hq₁
    exact ⟨l, hl, hs.record.trans hr⟩
  · -- the loop's commits go forward from its start
    intro post₁ post₂ post₃ hpost
    obtain ⟨s₁, -, h₁⟩ := hat hno post₁ (post₂ ++ post₃) (by rw [hpost, List.append_assoc])
    obtain ⟨s₂, hf₂, h₂⟩ := hat hno (post₁ ++ post₂) post₃ hpost
    have hR₂ := LoopStand.reached_of_follow hf₂
    rw [h₁, h₂]
    have hs := hR₂.sorted
    rw [loopMoves_append, commitsOf_append, List.map_append] at hs ⊢
    refine getLast?_getD_le_append hs fun a ha => ?_
    rw [← List.map_append, ← commitsOf_append, ← loopMoves_append] at ha
    obtain ⟨c', hc', rfl⟩ := List.mem_map.1 ha
    exact (hR₂.commits c' hc').2.1
  · -- a consumer opened later starts at the offset committed last, not past the record held
    intro post₁ tm' id' c'' post₂ cs r hpost hg htp hp hf₁
    have hopen := hlog.started (pre ++ (tm, .consuming id c) :: post₁) tm' id' c'' post₂
      (by rw [hstart, hpost]; simp)
    rw [hg, htp, hp] at hopen
    obtain ⟨s₁, hf₁', h₁⟩ := hat hno post₁ _ hpost
    obtain rfl : (⟨cs, some r⟩ : LoopStand) = s₁ := Option.some.inj (hf₁.symm.trans hf₁')
    obtain ⟨hr₀, hrc⟩ := (LoopStand.reached_of_follow hf₁).held r rfl
    rw [hopen, h₁]
    cases hl : ((commitsOf (loopMoves id post₁)).map (·.position)).getLast? with
    | none => exact hr₀
    | some v =>
      obtain ⟨c', hc', rfl⟩ := List.mem_map.1 (List.mem_of_getLast? hl)
      exact hrc c' hc'

/-- A server with no free slot: its consume loop commits its start on its first tick, then
takes the request sent and waits for a slot with it, holding the one record it took. -/
theorem consumeLoop_handover_holding :
    let c : Consumer := ⟨"group", "requests", 0, 0⟩
    let v := Envelope.encode Request.toValue (Envelope.request ⟨0, 1⟩ (.validateDeviceToken "a") "replies" 0)
    let post : History :=
      [(0, .sent "requests" none v), (0, .committed 0 c), (0, .took 0 ⟨"requests", 0, 0, none, v⟩)]
    ∃ x : Exchange, x.Reachable ∧ x.history = [] ++ (0, .consuming 0 c) :: post ∧
      ∃ s, (LoopStand.start c).follow (loopMoves 0 post) = some s ∧ s.held.isSome ∧
        ∀ r ∈ s.held, ∀ q ∈ x.tasks, q.1 = 0 → ∃ l, q.2 = .consume l ∧ l.phase.record? = some r := by
  intro c v post
  have hx := (((Reachable.create ⟨"requests", "responses", 0, .ofMillis 10000, .ofMillis 10,
      .ofMillis 50⟩ "group" 1 100 (Backend.ofRegistry Registry.empty)).step (.startServer _)).step
    (.send _ "requests" none v)).step (.poll _ 0)
  obtain ⟨x, hx, hh⟩ : ∃ x : Exchange, x.Reachable ∧ x.history = [] ++ (0, .consuming 0 c) :: post :=
    ⟨_, hx, by decide +kernel⟩
  obtain ⟨-, s, hf, -, -, hheld, -⟩ := consumeLoop_handover hx hh
  have hs : (LoopStand.start c).follow (loopMoves 0 post) = some ⟨{ c with position := 1 },
      some ⟨"requests", 0, 0, none, v⟩⟩ := rfl
  obtain rfl := Option.some.inj (hs.symm.trans hf)
  exact ⟨_, hx, hh, _, hf, rfl, fun r hr => (hheld r hr).2.2⟩

end Exchange

end TokenGate
