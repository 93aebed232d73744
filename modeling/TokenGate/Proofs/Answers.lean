import TokenGate.Proofs.Serving
/-!
# `TokenGate.Proofs.Answers`: every answer follows its admission

Along every run of an exchange the server keeps `Exchange.Serving` (`Reachable.serving`): the
client's tasks and the caller's actions are quiet (`Exchange.Quiet`), and the server's own
tasks keep it step by step (`Proofs.Serving`). Read off the history, this says what the
server publishes:

* `Exchange.Answered`: every admission has its own channel, and every answer follows the
  admission of the entry it answers, at most once per admission: it goes to the request's
  topic (or the server's default one), keyed by the request's identifier, in a response
  envelope for that identifier whose payload is what the admission's handler returned on
  its channel, or the empty answer. A handler returns at most once.
* `Reachable.answered`: every reachable exchange satisfies it.
-/

set_option autoImplicit false

namespace TokenGate

open Sched

namespace Exchange

/-! ### The caller's actions leave the server and the tasks -/

section Offstage

variable (x : Exchange)

/-- An operation leaves the server's state and the tasks as they were. -/
def Offstage (y : Exchange) : Prop := y.server = x.server ∧ y.tasks = x.tasks

variable {x}

theorem Offstage.refl : Offstage x x := ⟨rfl, rfl⟩

theorem Offstage.trans {y z : Exchange} (h₁ : Offstage x y) (h₂ : Offstage y z) : Offstage x z :=
  ⟨h₂.1.trans h₁.1, h₂.2.trans h₁.2⟩

/-- An offstage operation that records only quiet events is quiet. -/
theorem Offstage.quiet {y : Exchange} {P : Event → Prop} (hP : ∀ e, P e → e.Quiet)
    (h : Offstage x y) (hr : Records P x y) : Quiet x y :=
  .of_eq h.1 h.2 (hr.history.mono hP)

variable (x)

theorem awaitReply_offstage (cl : Client) (rid : Uuid) (ch deadline : Nat) (sl : Sleep) :
    Offstage x (x.awaitReply cl rid ch deadline sl).2 := by
  rw [awaitReply]
  dsimp only
  -- name the parts of the poll, so that no later check has to evaluate it
  rcases sl.poll x.core .main with ⟨ready, sl', core⟩
  dsimp only
  split
  · exact ⟨by simp, by simp⟩
  · exact .refl

theorem pollSend_offstage (st : SendState) : Offstage x (x.pollSend st).2 := by
  unfold pollSend
  split
  · exact .refl
  · split
    · exact .refl
    · dsimp only
      split
      · exact .refl
      · exact .refl
      · exact Offstage.trans (y := { x with client := _ }) .refl (awaitReply_offstage _ _ _ _ _ _)

theorem pollSends_offstage (items : List SendState) : Offstage x (x.pollSends items).2 := by
  unfold pollSends
  apply List.foldlRecOn (motive := fun (acc : List SendState × Exchange) => Offstage x acc.2)
  · exact .refl
  · intro acc hacc st _
    exact hacc.trans (pollSend_offstage _ _)

theorem pollJoin_offstage (ids : List Nat) :
    ∀ (x : Exchange) (grace : Option Sleep), Offstage x (x.pollJoin ids grace).2 := by
  -- the caller waits for the tasks one after the other, each wait moving the clock only
  induction ids with
  | nil => exact fun x grace => .refl
  | cons id rest ih =>
    intro x grace
    have hw : Offstage x (x.joinWait id grace).2 := by
      rw [joinWait.eq_def]
      split
      · exact .refl
      · dsimp only
        rcases (grace.getD (Sleep.ofDeadline (x.core.now + stopGrace))).poll x.core .main with
          ⟨ready, s', core⟩
        exact .refl
    rw [pollJoin]
    rcases hj : x.joinWait id grace with ⟨_ | s, y⟩
    · rw [hj] at hw
      exact hw.trans (ih _ _)
    · rw [hj] at hw
      exact hw

/-- The caller's wait leaves the server and the tasks. -/
theorem pollMain_offstage : Offstage x x.pollMain.2 := by
  rw [pollMain.eq_def]
  split
  · exact .refl
  · exact pollJoin_offstage _ _ _
  · next s _ =>
    rw [pollSleep]
    rcases s.poll x.core .main with ⟨ready, s', core⟩
    exact .refl
  · exact pollSends_offstage x _

theorem beginSend_offstage (req : Request) : Offstage x (x.beginSend req).2 := by
  unfold beginSend
  split
  · exact .refl
  · dsimp only
    split
    · next e y heq =>
      have hy := congrArg Prod.snd heq
      dsimp only at hy
      subst hy
      exact ⟨by simp, by simp⟩
    · next m y heq =>
      have hy := congrArg Prod.snd heq
      dsimp only at hy
      subst hy
      exact Offstage.trans ⟨by simp, by simp⟩ (pollSend_offstage _ _)

/-- Starting requests leaves the server and the tasks. -/
theorem beginSends_offstage (reqs : List Request) : Offstage x (x.beginSends reqs).2 := by
  unfold beginSends
  apply List.foldlRecOn (motive := fun (acc : List SendState × Exchange) => Offstage x acc.2)
  · exact .refl
  · intro acc hacc req _
    exact hacc.trans (beginSend_offstage _ _)

end Offstage

/-! ### Quiet tasks and actions -/

namespace Quiet

variable {x : Exchange}

/-- Recording a quiet event is quiet. -/
theorem note {y : Exchange} (hy : Quiet x y) {e : Event} (he : e.Quiet) : Quiet x (y.note e) :=
  hy.trans ⟨rfl, rfl, rfl, fun _ _ h => h, by simpa using he⟩

/-- Starting a task other than a handler is quiet. -/
theorem spawn {y : Exchange} (hy : Quiet x y) {t : Task} (ht : ∀ h, t ≠ .handler h) :
    Quiet x (y.spawn t).2 := by
  refine hy.trans ⟨rfl, rfl, rfl, fun id h hm => ?_, .refl _ _⟩
  rcases List.mem_append.1 hm with hm | hm
  · exact hm
  · exact absurd (congrArg Prod.snd (List.mem_singleton.1 hm)).symm (ht h)

/-- A listener is quiet: it hands answers to the client and commits its own position. -/
theorem listenRun (id n : Nat) (l : Listener) : Quiet x (Exchange.listenRun id n l x).2 := by
  have hturn : ∀ (l' : Listener) y, Quiet y (listenTurn id l' y).exchange := by
    intro l' y
    obtain ⟨hs, ht, -, hh⟩ := listenTurn_frame y id l'
    exact .of_eq hs ht (hh.mono fun e he => by cases e <;> first | exact he.elim | trivial)
  unfold Exchange.listenRun
  exact (runTurns_frame (R := Quiet) (S := fun _ _ => True) Quiet.trans (fun _ _ => trivial)
    (fun l' y => ⟨hturn l' y, fun _ _ => trivial⟩) n l x (.refl x) trivial).1

/-- The evictor is quiet: it changes the client's waiters only. -/
theorem evictRun (id : Nat) (p : PeriodicLoop) : Quiet x (Exchange.evictRun id p x).2 := by
  have hturn : ∀ (p' : PeriodicLoop) y, Quiet y (periodicTurn id x.pollInterval true
      (fun x => x.client.map (·.stop)) setClientStop evictWaiters (fun x => x) p' y).exchange :=
    fun p' y => (periodicTurn_frame id x.pollInterval true (fun x => x.client.map (·.stop))
      setClientStop evictWaiters (fun x => x) (R := Quiet) Quiet.trans Quiet.refl
      (fun _ _ => .of_eq (by simp) (by simp) (by simp)) (fun _ _ => .of_eq rfl rfl (.refl _ _))
      (fun _ => .of_eq (by simp) (by simp) (by simp)) Quiet.refl p' y).1
  unfold Exchange.evictRun periodicRun
  exact (runTurns_frame (R := Quiet) (S := fun _ _ => True) Quiet.trans (fun _ _ => trivial)
    (fun p' y => ⟨hturn p' y, fun _ _ => trivial⟩) 10000 p x (.refl x) trivial).1

/-- Starting the client is quiet: it starts listeners and the evictor. -/
theorem startClient (replyTopic : String) (timeout : Nat) :
    Quiet x (x.startClient replyTopic timeout) := by
  unfold Exchange.startClient
  dsimp only
  refine spawn ?_ fun _ h => by cases h
  apply List.foldlRecOn (motive := Quiet x)
  · exact .of_eq rfl rfl (.refl _ _)
  · intro y hy p _
    split
    · refine spawn ?_ ?_
      · exact hy.trans (.of_eq rfl rfl (.refl _ _))
      · intro _ h
        cases h
    · exact hy

/-- Starting the server is quiet: it starts the consume loops and the sweep. -/
theorem startServer : Quiet x x.startServer.2 := by
  unfold Exchange.startServer
  dsimp only
  refine spawn ?_ fun _ h => by cases h
  apply List.foldlRecOn (motive := fun acc : List Nat × Exchange => Quiet x acc.2)
  · exact ⟨rfl, rfl, rfl, fun _ _ h => h, .refl _ _⟩
  · intro acc hacc p _
    split
    · -- a consume loop is started, and recorded
      refine note (spawn ?_ ?_) trivial
      · exact hacc.trans (.of_eq rfl rfl (.refl _ _))
      · intro _ h
        cases h
    · exact hacc

end Quiet

namespace Serving

variable {x : Exchange}

/-- Storing the state of a task other than a handler keeps the invariant. -/
theorem storeAs {β : Type} {id : Nat} (wrap : β → Task) (hw : ∀ b h, wrap b ≠ .handler h)
    {r : Option β × Exchange} (hr : r.2.Serving) : (Exchange.storeAs id wrap r).Serving := by
  obtain ⟨_ | b, y⟩ := r
  · exact hr.endTask id
  · exact hr.setTask fun h heq => absurd heq (hw b h)

/-- Polling any task keeps the invariant. -/
theorem pollTask (hx : x.Serving) (id : Nat) : (x.pollTask id).Serving := by
  cases ht : x.task? id with
  | none =>
    rw [pollTask_none ht]
    exact hx
  | some t =>
    -- the task polled is the first of that number
    have hm : (id, t) ∈ x.tasks := by
      obtain ⟨p, hp, hpt⟩ := Option.map_eq_some_iff.1 ht
      have hid : p.1 = id := by simpa using List.find?_some hp
      rw [← hid, ← hpt]
      exact List.mem_of_find?_eq_some hp
    cases t with
    | consume l =>
      rw [pollTask_consume ht]
      exact storeAs _ (fun _ _ h => by cases h) (hx.consumeRun id 10000 l)
    | sweep p =>
      rw [pollTask_sweep ht]
      exact storeAs _ (fun _ _ h => by cases h) (hx.sweepRun id p)
    | handler h =>
      rw [pollTask_handler ht]
      exact hx.handlerRun hm
    | listen l =>
      rw [pollTask_listen ht]
      exact storeAs _ (fun _ _ h => by cases h) (hx.quiet (.listenRun id 10000 l))
    | evict p =>
      rw [pollTask_evict ht]
      exact storeAs _ (fun _ _ h => by cases h) (hx.quiet (.evictRun id p))

/-- Every step of a run keeps the invariant. -/
theorem step {y : Exchange} (hx : x.Serving) (hs : Step x y) : y.Serving := by
  -- the caller's waits and requests record only their own events
  have hcaller : ∀ e, Event.OfCaller e → e.Quiet := fun e he => by
    cases e <;> first | exact he.elim | trivial
  cases hs with
  | poll id => exact (hx.core _).pollTask id
  | main =>
    exact (hx.core _).quiet ((pollMain_offstage _).quiet hcaller (pollMain_records _))
  | tick t => exact hx.core _
  | sleep ms => exact hx.quiet (.of_eq rfl rfl (.refl _ _))
  | join ids => exact hx.quiet (.of_eq rfl rfl (.refl _ _))
  | idle => exact hx.quiet (.of_eq rfl rfl (.refl _ _))
  | send topic key value =>
    have hsend : (x.send topic key value).2 =
        (x.publish topic key value).2.note (.sent topic key value) := rfl
    rw [hsend]
    refine hx.quiet (Quiet.note ?_ ?_)
    · exact .of_eq rfl rfl (.refl _ _)
    · trivial
  | startServer => exact hx.quiet .startServer
  | startClient replyTopic timeout _ => exact hx.quiet (.startClient replyTopic timeout)
  | sends reqs =>
    have hq : Quiet x (x.beginSends reqs).2 :=
      (beginSends_offstage x reqs).quiet hcaller (beginSends_records x reqs)
    dsimp only
    split
    · exact hx.quiet hq
    · exact hx.quiet (hq.trans (.of_eq rfl rfl (.refl _ _)))
  | stopClient =>
    unfold Exchange.stopClient
    split
    · exact hx
    · exact hx.quiet (.of_eq rfl rfl (.refl _ _))
  | requestStop => exact hx.quiet (.of_eq rfl rfl (.refl _ _))
  | dropStop => exact hx.quiet (.of_eq rfl rfl (.refl _ _))
  | close => exact hx.quiet (.of_eq rfl rfl (.refl _ _))
  | sweep => exact hx.sweep
  | backend b => exact hx.quiet (.of_eq rfl rfl (.refl _ _))
  | directory d => exact hx.quiet (.of_eq rfl rfl (.refl _ _))
  | createTopic name n => exact hx.quiet (.of_eq rfl rfl (.refl _ _))
  | partitions name => exact hx.quiet (.of_eq rfl rfl (.refl _ _))

end Serving

/-- A new exchange serves nothing yet. -/
theorem serving_create (config : TransportConfig) (group : String) (broker : Broker)
    (backend : Backend) : (create config group broker backend).Serving := by
  refine ⟨rfl, fitting_nil, ?_, ?_, ?_, ?_⟩
  · intro i hi
    cases hi
  · intro e he
    cases he
  · intro c ch r hc
    simp [create, Channels.empty, Channels.get?] at hc
  · intro id h hm
    cases hm

/-- Every reachable exchange keeps the invariant. -/
theorem Reachable.serving {x : Exchange} (hx : x.Reachable) : x.Serving := by
  induction hx with
  | create config group partitions retention backend => exact serving_create _ _ _ _
  | step _ hs ih => exact ih.step hs

/-! ### What the server publishes -/

/-- What the server's history says of its answers. -/
structure Answered (x : Exchange) : Prop where
  /-- Every admission opens its own channel for its handler. -/
  channels : ((admittedOf x.history).map (·.result)).Nodup
  /-- Every handler task runs for an entry in flight, on its channel, or was left running
  with no entry by a dispatch whose deadline fell past the clock's range: a skipped record
  starts none. -/
  handlers : ∀ id h, (id, Task.handler h) ∈ x.tasks →
    (∃ e ∈ x.server.inFlight, e.result = h.result ∧ e.task = id) ∨
      ∃ t task rec, (t, Event.dispatched task rec (.overflowed id h.result)) ∈ x.history
  /-- Only admitted entries are answered. -/
  admitted : ∀ e ∈ answeredOf x.history, e ∈ admittedOf x.history
  /-- No admission is answered twice. -/
  once : ((answeredOf x.history).map (·.result)).Nodup
  /-- Every answer follows the admission of its entry: it goes to the request's topic, or
  the server's default one, keyed by the request's identifier, in a response envelope for
  that identifier carrying what the admission's handler returned on its channel, or the
  empty answer. -/
  follows : ∀ t e s topic key value sent,
    (t, Event.answered e s topic key value sent) ∈ x.history →
    ∃ t' task rec env,
      [(t', .dispatched task rec (.admitted e)), (t, .answered e s topic key value sent)].Sublist
        x.history ∧
      Envelope.decode Request.reader rec.value = .ok env ∧ e.id = env.requestId ∧
      topic = env.responseTopic.getD x.server.config.responsesTopic ∧
      key = some env.requestId.display ∧
      value = Envelope.encode Response.toValue (Envelope.response env.requestId s.response 0) ∧
      (s.response = Response.empty ∨ ∃ t'', (t'', .returned e.result s.response) ∈ x.history)
  /-- A handler returns at most once on its channel. -/
  returns : ∀ p t c r q, x.history = p ++ (t, .returned c r) :: q →
    ∀ t' r', (t', Event.returned c r') ∉ p

/-- Along every run of an exchange, each admission is answered at most once, and only
admitted requests are, each answer addressed, keyed and filled as its request asks. -/
theorem Reachable.answered {x : Exchange} (hx : x.Reachable) : x.Answered := by
  have hs := hx.serving
  have hset := hs.settles
  refine ⟨hset.channels, fun id h hm => (hs.handlers id h hm).imp (·.entry) (·.overflowed), hset.answered_admitted,
    hset.answers, fun t e s topic key value sent hm => hs.fitting.answer_follows_admission hm, ?_⟩
  intro p t c r q hpq
  exact (hs.fitting p _ q hpq).2

/-- A server that has answered a request answers as `Answered` says, its history holding
that one answer. -/
theorem answered_after_answer :
    ∃ x : Exchange, x.Reachable ∧ x.Answered ∧ (answeredOf x.history).length = 1 := by
  -- the consume loop (task 0) dispatches the request, its handler (task 2) answers, and
  -- the sweep (task 1) publishes the answer
  have hx := ((((((Reachable.create ⟨"requests", "responses", 4, .ofMillis 10000, .ofMillis 10,
      .ofMillis 50⟩ "group" 1 100 (Backend.ofRegistry Registry.empty)).step (.startServer _)).step
    (.send _ "requests" none (Envelope.encode Request.toValue
      (Envelope.request ⟨0, 1⟩ (.validateDeviceToken "a") "replies" 0)))).step (.poll _ 0)).step
    (.poll _ 2)).step (.poll _ 1))
  exact ⟨_, hx, Reachable.answered hx, by decide +kernel⟩

end Exchange

end TokenGate
