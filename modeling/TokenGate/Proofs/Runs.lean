import Mathlib.Logic.Relation
import TokenGate.Exchange.Node
/-!
# `TokenGate.Proofs.Runs`: the runs of an exchange

The machine of `Exchange.Run` polls the queued tasks in order and moves the clock only
when nothing is left to run. The properties of the server and the client are stated for
every order of their steps, so they are stated over a larger set of runs:

* `Exchange.Step`: one step. The scheduler polls any task at any moment, queued or not
  (a poll nobody asked for is allowed: every task checks again what it waits for),
  polls the caller's wait, or moves the clock to a tick and fires the timers due. Or
  the caller acts: it publishes, starts the server or the client, sends requests, asks
  for a stop, closes the broker, changes the registry, the directory or the topics.
* `Exchange.Reachable`: the states reached by steps from a new exchange over a fresh
  broker.
* `Exchange.SchedStep`: the steps the machine takes by itself (polls of the tasks and of
  the caller's wait, ticks); the machine's loop is a sequence of them.

`Reachable.runUntilDone`, `Reachable.advance`, `Reachable.clientSend` and
`Reachable.nodeShutdown` show that the machine's own runs stay among these states, so
what holds of every reachable state holds along every run the library performs.
-/

set_option autoImplicit false

namespace TokenGate

open Sched

namespace Exchange

/-- One step of a run. -/
inductive Step : Exchange → Exchange → Prop
  /-- The scheduler takes a task off the queue, if it is there, and polls it. -/
  | poll (x : Exchange) (id : Nat) :
      Step x ({ x with core := { x.core with queue := x.core.queue.erase id } }.pollTask id)
  /-- The scheduler polls the caller's wait. -/
  | main (x : Exchange) :
      Step x ({ x with core := { x.core with mainWoken := false } }.pollMain).2
  /-- The clock moves to a tick, never back, and the timers due fire. -/
  | tick (x : Exchange) (t : Nat) : Step x { x with core := (x.core.advanceTo t).fire }
  /-- The caller sleeps. -/
  | sleep (x : Exchange) (ms : Nat) :
      Step x { x with main := .sleep (Sleep.ofDeadline (x.core.now + ms * nanosPerMilli)),
                      core := { x.core with mainWoken := true } }
  /-- The caller waits for the end of tasks. -/
  | join (x : Exchange) (ids : List Nat) :
      Step x { x with main := .join ids none, core := { x.core with mainWoken := true } }
  /-- The caller stops waiting. -/
  | idle (x : Exchange) : Step x { x with main := .idle }
  /-- The caller publishes a record. -/
  | send (x : Exchange) (topic : String) (key : Option String) (value : List UInt8) :
      Step x (x.send topic key value).2
  /-- The caller starts a set of serving tasks. -/
  | startServer (x : Exchange) : Step x x.startServer.2
  /-- The caller makes the client. -/
  | startClient (x : Exchange) (replyTopic : String) (timeout : Nat) :
      x.client = none → Step x (x.startClient replyTopic timeout)
  /-- The caller sends requests through the client and waits for those not yet over. -/
  | sends (x : Exchange) (reqs : List Request) :
      Step x (let r := x.beginSends reqs
        if r.1.all SendState.isFinished then r.2 else { r.2 with main := .sends r.1 })
  /-- The caller stops the client's tasks. -/
  | stopClient (x : Exchange) : Step x x.stopClient.2
  /-- The caller asks the server's tasks to stop. -/
  | requestStop (x : Exchange) : Step x x.requestStop
  /-- The caller drops the server's stop sender. -/
  | dropStop (x : Exchange) : Step x x.dropStop
  /-- The caller closes the broker. -/
  | close (x : Exchange) : Step x x.closeBroker
  /-- The caller runs a sweep itself. -/
  | sweep (x : Exchange) : Step x x.sweep.2
  /-- The caller changes the registry or its faults. -/
  | backend (x : Exchange) (b : Backend) : Step x { x with backend := b }
  /-- The caller changes how the directory behaves. -/
  | directory (x : Exchange) (d : DirectoryMode) : Step x { x with directory := d }
  /-- The caller creates a topic. -/
  | createTopic (x : Exchange) (name : String) (n : Nat) :
      Step x { x with hub := { x.hub with broker := x.hub.broker.createTopic name n } }
  /-- The caller asks for a topic's partition count, creating the topic. -/
  | partitions (x : Exchange) (name : String) :
      Step x { x with hub := { x.hub with broker := (x.hub.broker.partitions name).2 } }

/-- The states reached from a new exchange over a fresh broker. -/
inductive Reachable : Exchange → Prop
  | create (config : TransportConfig) (group : String) (partitions retention : Nat)
      (backend : Backend) :
      Reachable (create config group (Broker.withRetention partitions retention) backend)
  | step {x x' : Exchange} : Reachable x → Step x x' → Reachable x'

/-- The moves the machine makes by itself: it polls a task, polls the caller's wait, or
moves the clock to a tick and fires the timers due. -/
inductive SchedStep : Exchange → Exchange → Prop
  | poll (x : Exchange) (id : Nat) :
      SchedStep x ({ x with core := { x.core with queue := x.core.queue.erase id } }.pollTask id)
  | main (x : Exchange) :
      SchedStep x ({ x with core := { x.core with mainWoken := false } }.pollMain).2
  | tick (x : Exchange) (t : Nat) : SchedStep x { x with core := (x.core.advanceTo t).fire }

/-- Each move of the machine is a step of a run. -/
theorem SchedStep.step : ∀ {x y : Exchange}, SchedStep x y → Step x y
  | _, _, .poll x id => .poll x id
  | _, _, .main x => .main x
  | _, _, .tick x t => .tick x t

/-- Taking the head of the queue is taking that task off the queue. -/
theorem Core.pop_eq_some {c c' : Core} {id : Nat} (h : c.pop = some (id, c')) :
    c' = { c with queue := c.queue.erase id } := by
  unfold Core.pop at h
  split at h
  · rename_i rest hq
    cases h
    simp [hq]
  · cases h

/-- Running the queued tasks is a sequence of the machine's moves. -/
theorem drain_schedSteps (fuel : Nat) (x : Exchange) :
    Relation.ReflTransGen SchedStep x (machine.drain fuel x) := by
  induction fuel generalizing x with
  | zero => exact .refl
  | succ fuel ih =>
    rw [Machine.drain]
    cases hpop : (machine.core x).pop with
    | none => exact .refl
    | some p =>
      obtain ⟨id, c⟩ := p
      have hc : c = { x.core with queue := x.core.queue.erase id } := Core.pop_eq_some hpop
      subst hc
      exact .head (.poll x id) (ih _)

/-- The machine's loop is a sequence of its moves. -/
theorem run_schedSteps (fuel : Nat) (x : Exchange) :
    Relation.ReflTransGen SchedStep x (machine.run fuel x) := by
  induction fuel generalizing x with
  | zero => exact .refl
  | succ fuel ih =>
    rw [Machine.run]
    -- The caller's wait is polled first when it was woken.
    have hmain : Relation.ReflTransGen SchedStep x (if (machine.core x).mainWoken then
        machine.pollMain (machine.setCore x { machine.core x with mainWoken := false })
        else (false, x)).2 := by
      split
      · exact .single (.main x)
      · exact .refl
    generalize (if (machine.core x).mainWoken then
        machine.pollMain (machine.setCore x { machine.core x with mainWoken := false })
        else (false, x)) = r at hmain
    obtain ⟨finished, w⟩ := r
    dsimp only
    split
    · exact hmain
    · have hd := hmain.trans (drain_schedSteps 100000 w)
      split
      · exact hd.trans (ih _)
      · split
        · exact hd
        · exact hd.trans (.head (.tick _ _) (ih _))

namespace Reachable

variable {x : Exchange}

/-- The machine's moves keep the exchange reachable. -/
theorem schedSteps {y : Exchange} (h : x.Reachable) (hr : Relation.ReflTransGen SchedStep x y) :
    y.Reachable := by
  induction hr with
  | refl => exact h
  | tail _ hs ih => exact ih.step hs.step

/-- Running the queued tasks keeps the exchange reachable. -/
theorem drain (h : x.Reachable) (fuel : Nat) : (machine.drain fuel x).Reachable :=
  h.schedSteps (drain_schedSteps fuel x)

/-- The machine's loop keeps the exchange reachable. -/
theorem run (h : x.Reachable) (fuel : Nat) : (machine.run fuel x).Reachable :=
  h.schedSteps (run_schedSteps fuel x)

/-- Letting the tasks run until the caller's wait is over keeps the exchange reachable. -/
theorem runUntilDone (h : x.Reachable) : x.runUntilDone.Reachable := h.run _

/-- Sleeping while the tasks run keeps the exchange reachable. -/
theorem advance (h : x.Reachable) (ms : Nat) : (x.advance ms).Reachable :=
  (h.step (.sleep x ms)).runUntilDone

/-- The part of `clientSend` after the client exists: send, wait, stop waiting. -/
theorem sendAndWait {y : Exchange} (h : y.Reachable) (reqs : List Request) :
    (let (items, x) := y.beginSends reqs
     let (_, x) :=
       if items.all SendState.isFinished then (items, x)
       else
         let x := Exchange.runUntilDone { x with main := .sends items }
         match x.main with
         | .sends items => (items, { x with main := .idle })
         | _ => (items, x)
     x).Reachable := by
  have hs := h.step (.sends y reqs)
  dsimp only at hs ⊢
  generalize y.beginSends reqs = r at hs ⊢
  obtain ⟨items, z⟩ := r
  dsimp only at hs ⊢
  by_cases hall : items.all SendState.isFinished
  · simpa [hall] using hs
  · simp only [hall, Bool.false_eq_true, if_false] at hs ⊢
    have hr := hs.runUntilDone
    generalize Exchange.runUntilDone { z with main := .sends items } = w at hr ⊢
    split
    · exact hr.step (.idle w)
    · exact hr

/-- Sending requests through the client, and waiting for them, keeps the exchange
reachable. -/
theorem clientSend (h : x.Reachable) (replyTopic : String) (timeoutMs : Nat)
    (reqs : List Request) : (x.clientSend replyTopic timeoutMs reqs).2.Reachable := by
  -- The client is made on first use.
  cases hcl : x.client with
  | some cl =>
    simp only [Exchange.clientSend, hcl]
    exact h.sendAndWait reqs
  | none =>
    simp only [Exchange.clientSend, hcl]
    exact (h.step (.startClient x replyTopic _ hcl)).sendAndWait reqs

/-- Starting the server's tasks keeps the exchange reachable. -/
theorem start (h : x.Reachable) : x.start.2.Reachable := by
  unfold Exchange.start
  split
  · exact h
  · exact h.step (.startServer x)

end Reachable

/-- Stopping a node leaves its exchange reachable. -/
theorem Reachable.nodeShutdown {r : NodeRuntime} (h : r.exchange.Reachable) :
    r.shutdown.2.Reachable :=
  ((h.step (.requestStop _)).step (.join _ r.serving)).runUntilDone

end Exchange

end TokenGate
