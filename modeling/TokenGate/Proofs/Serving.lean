import Mathlib
import TokenGate.Proofs.Effects
/-!
# `TokenGate.Proofs.Serving`: the server's table is its history

`Exchange.Serving` is what every reachable exchange keeps of its server:

* the table of requests in flight is the replay of the history (`pendingOf`), and every
  event of the history fits the history before it (`Fitting`);
* every channel of the handlers was opened by the server, and a value waiting on a
  channel is one a handler returned on it;
* every handler task runs for an entry in flight, on that entry's channel, which its
  sender still holds with nothing sent, and it has not returned yet (`HandlerLive`); or it
  was left running by a dispatch that stopped at a deadline past the clock's range, on a
  channel no entry is on and whose receiver is gone (`HandlerOrphaned`).

The operations that touch none of this (`Exchange.Quiet`) keep it, and so do the server's
own: `Serving.dispatch`, `Serving.sweep`, `Serving.abandonInFlight`, and a handler's run
(`Serving.handlerRun`).
-/

set_option autoImplicit false

namespace TokenGate

open Sched

/-- An event that neither admits, answers nor clears a request, and that no handler
records. -/
def Event.Quiet : Event → Prop
  | .consuming .. | .took .. | .committed .. | .requested .. | .delivered ..
  | .concluded .. | .sent .. => True
  | _ => False

namespace Event

variable {e : Event}

theorem Quiet.replay (he : e.Quiet) (p : List InFlight) : e.replay p = p := by
  cases e <;> first | rfl | exact he.elim

theorem Quiet.admitted? (he : e.Quiet) : e.admitted? = none := by
  cases e <;> first | rfl | exact he.elim

theorem Quiet.answered? (he : e.Quiet) : e.answered? = none := by
  cases e <;> first | rfl | exact he.elim

theorem Quiet.overflowed? (he : e.Quiet) : e.overflowed? = none := by
  cases e <;> first | rfl | exact he.elim

theorem Quiet.fits (he : e.Quiet) (cfg : TransportConfig) (p : History) : e.Fits cfg p := by
  cases e <;> first | exact he.elim | trivial

theorem Quiet.ne_returned (he : e.Quiet) (c : Nat) (r : Response) : e ≠ .returned c r := by
  rintro rfl
  exact he

end Event

section QuietHistory

variable {h evs : History}

/-- A history grown by quiet events replays to the same table, admits nothing more, and
still fits. -/
theorem quiet_append (hq : ∀ n ∈ evs, n.2.Quiet) :
    pendingOf (h ++ evs) = pendingOf h ∧ admittedOf (h ++ evs) = admittedOf h ∧
      ∀ cfg, Fitting cfg h → Fitting cfg (h ++ evs) := by
  -- the events are added one at a time, each to the end
  induction evs using List.reverseRecOn with
  | nil => exact ⟨by simp, by simp, fun _ hf => by simpa using hf⟩
  | append_singleton evs n ih =>
    have hn : n.2.Quiet := hq n (by simp)
    obtain ⟨hp, ha, hf⟩ := ih fun m hm => hq m (by simp [hm])
    rw [← List.append_assoc]
    refine ⟨?_, ?_, fun cfg hfit => fitting_append_singleton.2 ⟨hf cfg hfit, hn.fits cfg _⟩⟩
    · rw [pendingOf_append_singleton, hn.replay, hp]
    · rw [admittedOf_append_singleton, hn.admitted?, ha, Option.toList_none, List.append_nil]

/-- Quiet events return nothing. -/
theorem returned_mem_append_quiet (hq : ∀ n ∈ evs, n.2.Quiet) {t c : Nat} {r : Response} :
    (t, Event.returned c r) ∈ h ++ evs ↔ (t, Event.returned c r) ∈ h := by
  refine ⟨fun hm => ?_, fun hm => List.mem_append_left _ hm⟩
  rcases List.mem_append.1 hm with hm | hm
  · exact hm
  · exact absurd rfl ((hq _ hm).ne_returned c r)

end QuietHistory

/-- A channel whose sender still holds it and has sent nothing. -/
def Sched.Oneshot.Unsent {α : Type} (ch : Oneshot α) : Prop :=
  ch.value = none ∧ ch.senderLive = true ∧ ch.spent = false

/-- A look at a channel whose sender has sent nothing finds it empty and leaves it. -/
theorem Sched.Oneshot.tryRecv_of_unsent {α : Type} {ch : Oneshot α} (h : ch.Unsent) :
    ch.tryRecv = (.empty, ch) := by
  obtain ⟨hv, hs, hsp⟩ := h
  simp [Oneshot.tryRecv, hv, hs, hsp]

/-- A value a look finds was on the channel. -/
theorem Sched.Oneshot.value_of_tryRecv {α : Type} {ch : Oneshot α} {a : α}
    (h : ch.tryRecv.1 = .value a) : ch.value = some a := by
  unfold Oneshot.tryRecv at h
  split at h
  · cases h
  · split at h
    · next a' ha =>
      cases h
      exact ha
    · split at h <;> cases h

/-- A look at a channel at most takes its value away. -/
theorem Sched.Oneshot.value_tryRecv {α : Type} {ch : Oneshot α} {a : α}
    (h : ch.tryRecv.2.value = some a) : ch.value = some a := by
  unfold Oneshot.tryRecv at h
  split at h
  · exact h
  · split at h
    · cases h
    · split at h <;> exact h

namespace Sched.Oneshot

variable {α : Type} (ch : Oneshot α)

/-- Only a receiver can let go of itself: sending, dropping the sender and looking keep it. -/
@[simp] theorem send_receiverLive (a : α) : (ch.send a).2.1.receiverLive = ch.receiverLive := by
  unfold Oneshot.send
  split <;> rfl

@[simp] theorem dropSender_receiverLive : ch.dropSender.1.receiverLive = ch.receiverLive := by
  unfold Oneshot.dropSender
  split <;> rfl

@[simp] theorem tryRecv_receiverLive : ch.tryRecv.2.receiverLive = ch.receiverLive := by
  unfold Oneshot.tryRecv
  split
  · rfl
  · split
    · rfl
    · split <;> rfl

end Sched.Oneshot

/-- A channel whose receiver is gone: nothing sent on it arrives. -/
def Sched.Channels.Lost {α : Type} (t : Channels α) (c : Nat) : Prop :=
  ∃ ch, t.get? c = some ch ∧ ch.receiverLive = false

namespace Sched.Channels

variable {α : Type} {t : Channels α} {c : Nat}

/-- No operation but opening brings a receiver back. -/
theorem Lost.send (h : t.Lost c) (n : Nat) (a : α) : (t.send n a).2.1.Lost c := by
  obtain ⟨ch, hch, hr⟩ := h
  rw [Lost, get?_send, hch]
  split
  · exact ⟨_, rfl, by simpa using hr⟩
  · exact ⟨ch, rfl, hr⟩

theorem Lost.dropSender (h : t.Lost c) (n : Nat) : (t.dropSender n).1.Lost c := by
  obtain ⟨ch, hch, hr⟩ := h
  rw [Lost, get?_dropSender, hch]
  split
  · exact ⟨_, rfl, by simpa using hr⟩
  · exact ⟨ch, rfl, hr⟩

theorem Lost.tryRecv (h : t.Lost c) (n : Nat) : (t.tryRecv n).2.Lost c := by
  obtain ⟨ch, hch, hr⟩ := h
  rw [Lost, get?_tryRecv, hch]
  split
  · exact ⟨_, rfl, by simpa using hr⟩
  · exact ⟨ch, rfl, hr⟩

theorem Lost.dropReceiver (h : t.Lost c) (n : Nat) : (t.dropReceiver n).Lost c := by
  obtain ⟨ch, hch, hr⟩ := h
  rw [Lost, get?_dropReceiver, hch]
  split
  · exact ⟨_, rfl, rfl⟩
  · exact ⟨ch, rfl, hr⟩

/-- Dropping a receiver loses its channel. -/
theorem lost_dropReceiver {ch : Oneshot α} (hc : t.get? c = some ch) : (t.dropReceiver c).Lost c :=
  ⟨_, by rw [get?_dropReceiver, if_pos rfl, hc, Option.map_some], rfl⟩

theorem Lost.openChannel (h : t.Lost c) (ht : t.Numbered) (hc : c < t.next) :
    t.openChannel.2.Lost c := by
  rwa [Lost, get?_openChannel _ ht, if_neg (Nat.ne_of_lt hc)]

end Sched.Channels

namespace Exchange

/-- The handler task `id` answering on channel `c` runs for an entry in flight: the entry
of that channel, started as that task. The channel's sender has sent nothing yet, and no
answer was ever returned on it. -/
structure HandlerLive (x : Exchange) (id c : Nat) : Prop where
  entry : ∃ e ∈ x.server.inFlight, e.result = c ∧ e.task = id
  unsent : ∃ ch, x.server.results.get? c = some ch ∧ ch.Unsent
  fresh : ∀ t r, (t, Event.returned c r) ∉ x.history

/-- A handler's liveness does not depend on the clock. -/
theorem HandlerLive.of_core {x : Exchange} {id c : Nat} (h : x.HandlerLive id c) (core : Core) :
    ({ x with core } : Exchange).HandlerLive id c :=
  ⟨h.entry, h.unsent, h.fresh⟩

/-- The handler task `id` on channel `c` was left running by a dispatch that stopped at a
deadline past the clock's range: that dispatch is recorded, no entry in flight is on the
channel, which was opened, and its receiver is gone. -/
structure HandlerOrphaned (x : Exchange) (id c : Nat) : Prop where
  overflowed : ∃ t task rec, (t, Event.dispatched task rec (.overflowed id c)) ∈ x.history
  lost : x.server.results.Lost c
  apart : c ∉ x.server.inFlight.map (·.result)
  opened : c < x.server.results.next

/-- An orphan stays one while the history only grows, no entry comes on its channel, the
channel stays lost, and channels are only opened. -/
theorem HandlerOrphaned.mono {x y : Exchange} {id c : Nat} (h : x.HandlerOrphaned id c)
    (hh : ∃ evs, y.history = x.history ++ evs) (hl : y.server.results.Lost c)
    (hi : c ∉ y.server.inFlight.map (·.result))
    (hn : x.server.results.next ≤ y.server.results.next) : y.HandlerOrphaned id c := by
  obtain ⟨t, task, rec, hm⟩ := h.overflowed
  obtain ⟨evs, hevs⟩ := hh
  exact ⟨⟨t, task, rec, by rw [hevs]; exact List.mem_append_left _ hm⟩, hl, hi,
    Nat.lt_of_lt_of_le h.opened hn⟩

/-- Nor does it depend on the clock. -/
theorem HandlerOrphaned.of_core {x : Exchange} {id c : Nat} (h : x.HandlerOrphaned id c)
    (core : Core) : ({ x with core } : Exchange).HandlerOrphaned id c :=
  ⟨h.overflowed, h.lost, h.apart, h.opened⟩

/-- What every reachable exchange keeps of its server. -/
structure Serving (x : Exchange) : Prop where
  /-- The table is the replay of the history. -/
  table : x.server.inFlight = pendingOf x.history
  /-- Every event fits the history before it. -/
  fitting : Fitting x.server.config x.history
  numbered : x.server.results.Numbered
  /-- Every admitted entry's channel was opened. -/
  admitted_lt : ∀ e ∈ admittedOf x.history, e.result < x.server.results.next
  /-- A value waiting on a channel was returned on it. -/
  values : ∀ c ch r, x.server.results.get? c = some ch → ch.value = some r →
    ∃ t, (t, Event.returned c r) ∈ x.history
  /-- Every handler task runs for an entry in flight, or was left running by a dispatch
  that stopped at a deadline past the clock's range. -/
  handlers : ∀ id h, (id, Task.handler h) ∈ x.tasks →
    x.HandlerLive id h.result ∨ x.HandlerOrphaned id h.result

/-- From `x` to `y` the server's table, channels and settings stay, no handler task
comes, and the history grows by quiet events only. -/
structure Quiet (x y : Exchange) : Prop where
  inFlight : y.server.inFlight = x.server.inFlight
  results : y.server.results = x.server.results
  config : y.server.config = x.server.config
  handlers : ∀ id h, (id, Task.handler h) ∈ y.tasks → (id, Task.handler h) ∈ x.tasks
  history : GrowsBy Event.Quiet x.history y.history

namespace Quiet

variable {x y z : Exchange}

theorem refl (x : Exchange) : Quiet x x := ⟨rfl, rfl, rfl, fun _ _ h => h, .refl _ _⟩

theorem trans (h₁ : Quiet x y) (h₂ : Quiet y z) : Quiet x z :=
  ⟨h₂.inFlight.trans h₁.inFlight, h₂.results.trans h₁.results, h₂.config.trans h₁.config,
    fun id h hm => h₁.handlers id h (h₂.handlers id h hm), h₁.history.trans h₂.history⟩

/-- The server and the tasks stay, and the history grows by quiet events. -/
theorem of_eq (hs : y.server = x.server) (ht : y.tasks = x.tasks)
    (hh : GrowsBy Event.Quiet x.history y.history) : Quiet x y :=
  ⟨by rw [hs], by rw [hs], by rw [hs], fun _ _ hm => ht ▸ hm, hh⟩

end Quiet

namespace Serving

variable {x y : Exchange}

/-- The operations that touch neither the table, the channels, the handlers nor the
server's events keep the invariant. -/
theorem quiet (hx : x.Serving) (hq : Quiet x y) : y.Serving := by
  obtain ⟨evs, hh, hevs⟩ := hq.history
  obtain ⟨hp, ha, hf⟩ := quiet_append (h := x.history) hevs
  refine ⟨?_, ?_, ?_, ?_, ?_, ?_⟩
  · rw [hq.inFlight, hh, hp, hx.table]
  · rw [hq.config, hh]
    exact hf _ hx.fitting
  · rw [hq.results]
    exact hx.numbered
  · rw [hh, ha, hq.results]
    exact hx.admitted_lt
  · intro c ch r hc hv
    rw [hq.results] at hc
    obtain ⟨t, ht⟩ := hx.values c ch r hc hv
    exact ⟨t, by rw [hh]; exact List.mem_append_left _ ht⟩
  · intro id h hm
    rcases hx.handlers id h (hq.handlers id h hm) with ⟨he, hu, hf'⟩ | ho
    · refine .inl ⟨by rw [hq.inFlight]; exact he, by rw [hq.results]; exact hu, fun t r hr => ?_⟩
      rw [hh, returned_mem_append_quiet hevs] at hr
      exact hf' t r hr
    · exact .inr (ho.mono ⟨evs, hh⟩ (by rw [hq.results]; exact ho.lost)
        (by rw [hq.inFlight]; exact ho.apart) (by rw [hq.results]))

/-- The history of a serving exchange is settled. -/
theorem settles (hx : x.Serving) : Settles x.history := hx.fitting.settles

/-- Entries in flight are on pairwise different channels. -/
theorem channels_nodup (hx : x.Serving) : (x.server.inFlight.map (·.result)).Nodup := by
  rw [hx.table]
  exact hx.settles.pending_channels

/-- Entries in flight carry pairwise different identifiers. -/
theorem ids_nodup (hx : x.Serving) : (x.server.inFlight.map (·.id)).Nodup := by
  rw [hx.table]
  exact hx.settles.pending_ids

/-- Every entry in flight was admitted, so its channel was opened. -/
theorem result_lt (hx : x.Serving) {e : InFlight} (he : e ∈ x.server.inFlight) :
    e.result < x.server.results.next := by
  rw [hx.table] at he
  exact hx.admitted_lt e (hx.settles.pending_sublist.subset he)

/-- Two handler tasks on one channel are one task: they run for the one entry of that
channel. -/
theorem task_eq (hx : x.Serving) {id id' c : Nat} (h : x.HandlerLive id c)
    (h' : x.HandlerLive id' c) : id = id' := by
  obtain ⟨e, he, hc, rfl⟩ := h.entry
  obtain ⟨e', he', hc', rfl⟩ := h'.entry
  have : e = e' := List.inj_on_of_nodup_map hx.channels_nodup he he' (hc.trans hc'.symm)
  rw [this]

/-- Changing the clock keeps the invariant. -/
theorem core (hx : x.Serving) (c : Core) : ({ x with core := c } : Exchange).Serving :=
  hx.quiet (.of_eq rfl rfl (.refl _ _))

/-- Changing the tasks only keeps the invariant, as long as every handler task is one
that ran for an entry in flight before. -/
theorem of_tasks (hx : x.Serving) (hs : y.server = x.server) (hh : y.history = x.history)
    (ht : ∀ id h, (id, Task.handler h) ∈ y.tasks →
      x.HandlerLive id h.result ∨ x.HandlerOrphaned id h.result) : y.Serving := by
  have hlive : ∀ id c, x.HandlerLive id c → y.HandlerLive id c := by
    intro id c ⟨he, hu, hf⟩
    exact ⟨hs ▸ he, hs ▸ hu, hh ▸ hf⟩
  have horphan : ∀ id c, x.HandlerOrphaned id c → y.HandlerOrphaned id c := fun id c ho =>
    ho.mono ⟨[], by rw [hh, List.append_nil]⟩ (hs ▸ ho.lost) (hs ▸ ho.apart) (by rw [hs])
  refine ⟨?_, ?_, ?_, ?_, ?_, fun id h hm => (ht id h hm).imp (hlive _ _) (horphan _ _)⟩
  · rw [hs, hh]
    exact hx.table
  · rw [hs, hh]
    exact hx.fitting
  · rw [hs]
    exact hx.numbered
  · rw [hs, hh]
    exact hx.admitted_lt
  · rw [hs, hh]
    exact hx.values

/-- Storing a task's new state keeps the invariant, when a handler stored is live or an
orphan. -/
theorem setTask (hx : x.Serving) {id : Nat} {t : Task}
    (ht : ∀ h, t = .handler h → x.HandlerLive id h.result ∨ x.HandlerOrphaned id h.result) :
    (x.setTask id t).Serving := by
  refine hx.of_tasks rfl rfl fun id' h hm => ?_
  -- a handler after the change is the stored one or was there before
  simp only [Exchange.setTask, List.mem_map] at hm
  obtain ⟨⟨id₀, t₀⟩, hm₀, heq⟩ := hm
  by_cases hid : id₀ = id
  · simp only [hid, beq_self_eq_true, ite_true, Prod.mk.injEq] at heq
    obtain ⟨rfl, rfl⟩ := heq
    exact ht h rfl
  · simp only [beq_iff_eq, hid, ite_false] at heq
    rw [heq] at hm₀
    exact hx.handlers id' h hm₀

/-- Ending a task keeps the invariant. -/
theorem endTask (hx : x.Serving) (id : Nat) : (x.endTask id).Serving := by
  refine hx.of_tasks (by simp) (by simp) fun id' h hm => ?_
  simp only [endTask_tasks, List.mem_filter] at hm
  exact hx.handlers id' h hm.1

end Serving

/-! ### A handler's run -/

section Handler

variable (x : Exchange) (id : Nat) (h : Handler)

/-- The three ends of a handler's run: it waits on its channel, with only the clock
changed; its channel's sender goes without an answer; or it answers on its channel. -/
def HandlerEnds (r : Option Handler × Exchange) : Prop :=
  (∃ ph core, r = (some ⟨h.result, ph⟩, { x with core })) ∨
  (∃ core, r = (none, { x with
    server := { x.server with results := (x.server.results.dropSender h.result).1 }, core })) ∨
  ∃ core a, r = (none, ({ x with core } : Exchange).answerOn h.result a)

theorem answerLookup_ends (deviceId : Uuid) (mode : DirectoryMode) :
    HandlerEnds x h (x.answerLookup h deviceId mode) := by
  unfold answerLookup
  split
  · exact .inl ⟨.stalled, x.core, rfl⟩
  · split
    · -- a crashing directory: the channel closes without an answer
      exact .inr (.inl ⟨_, rfl⟩)
    · exact .inr (.inr ⟨x.core, _, rfl⟩)

theorem awaitLookup_ends (deviceId : Uuid) (mode : DirectoryMode) (s : Sleep) :
    HandlerEnds x h (awaitLookup id h deviceId mode s x) := by
  rw [awaitLookup]
  -- name the parts of the poll, so that no later check has to evaluate it
  rcases s.poll x.core (.task id) with ⟨ready, s', core⟩
  dsimp only
  split
  · rcases answerLookup_ends { x with core } h deviceId mode with
      ⟨ph, c, hr⟩ | ⟨c, hr⟩ | ⟨c, a, hr⟩
    · exact .inl ⟨ph, c, hr⟩
    · exact .inr (.inl ⟨c, hr⟩)
    · exact .inr (.inr ⟨c, a, hr⟩)
  · exact .inl ⟨_, core, rfl⟩

theorem handlerRun_ends : HandlerEnds x h (handlerRun id h x) := by
  unfold handlerRun
  split
  · split
    · exact .inr (.inr ⟨x.core, _, rfl⟩)
    · dsimp only
      split
      · exact answerLookup_ends _ _ _ _
      · exact awaitLookup_ends _ _ _ _ _ _
  · exact awaitLookup_ends _ _ _ _ _ _
  · exact .inl ⟨_, x.core, rfl⟩

end Handler

namespace Serving

variable {x : Exchange} {id c : Nat}

/-- Once the handler task `id` of channel `c` ends, every other handler task is on another
channel. -/
theorem other_handler (hx : x.Serving) (hl : x.HandlerLive id c) {id' : Nat} {h' : Handler}
    (hm : (id', Task.handler h') ∈ x.tasks.filter (·.1 != id)) :
    (x.HandlerLive id' h'.result ∨ x.HandlerOrphaned id' h'.result) ∧ h'.result ≠ c := by
  simp only [List.mem_filter, bne_iff_ne, ne_eq] at hm
  refine ⟨hx.handlers id' h' hm.1, fun hc => ?_⟩
  rcases hx.handlers id' h' hm.1 with hl' | ho
  · rw [hc] at hl'
    exact hm.2 (hx.task_eq hl' hl)
  · -- an orphan's channel has no entry; the live handler's has one
    obtain ⟨e, he, hec, -⟩ := hl.entry
    exact ho.apart (by rw [hc, ← hec]; exact List.mem_map_of_mem he)

/-- A handler ends having changed its own channel `c` only, keeping what it holds and a
gone receiver, with no other live handler on `c`: the invariant stays. -/
theorem end_of_channel (hx : x.Serving) (core : Core) {results : Channels Response}
    (hnum : results.Numbered) (hnext : results.next = x.server.results.next)
    (hother : ∀ c', c' ≠ c → results.get? c' = x.server.results.get? c')
    (hown : ∃ ch ch', x.server.results.get? c = some ch ∧ results.get? c = some ch' ∧
      ch'.value = ch.value ∧ (ch.receiverLive = false → ch'.receiverLive = false))
    (hapart : ∀ id' h', (id', Task.handler h') ∈ x.tasks → id' ≠ id →
      x.HandlerLive id' h'.result → h'.result ≠ c) :
    ({ x with server := { x.server with results }, core } : Exchange).endTask id |>.Serving := by
  refine ⟨?_, ?_, ?_, ?_, ?_, ?_⟩
  · simpa using hx.table
  · simpa using hx.fitting
  · simpa using hnum
  · simpa [hnext] using hx.admitted_lt
  · intro c' ch' r hc' hv
    simp only [endTask_server, endTask_history] at hc' ⊢
    by_cases hcc : c' = c
    · subst hcc
      obtain ⟨ch, ch'', hch, hch'', hv', -⟩ := hown
      rw [hch''] at hc'
      cases hc'
      exact hx.values c' ch r hch (hv' ▸ hv)
    · exact hx.values c' ch' r (hother c' hcc ▸ hc') hv
  · intro id' h' hm
    simp only [endTask_tasks, List.mem_filter, bne_iff_ne, ne_eq] at hm
    rcases hx.handlers id' h' hm.1 with hl' | ho
    · have hne := hapart id' h' hm.1 hm.2 hl'
      obtain ⟨he, ⟨ch, hch, hu⟩, hf⟩ := hl'
      exact .inl ⟨by simpa using he, ⟨ch, by simp [hother _ hne, hch], hu⟩, by simpa using hf⟩
    · refine .inr (ho.mono ⟨[], by simp⟩ ?_ (by simpa using ho.apart) (by simp [hnext]))
      -- the orphan's channel stays lost, whether or not it is the one changed
      obtain ⟨ch, hch, hr⟩ := ho.lost
      by_cases hcc : h'.result = c
      · rw [hcc] at hch ⊢
        obtain ⟨ch₀, ch', hch₀, hch', -, hr'⟩ := hown
        rw [hch] at hch₀
        cases hch₀
        exact ⟨ch', by simp [hch'], hr' hr⟩
      · exact ⟨ch, by simp [hother _ hcc, hch], hr⟩

/-- The channel of a live handler or of an orphan is open, and no other live handler is
on it. -/
theorem own_channel (hx : x.Serving) (hh : x.HandlerLive id c ∨ x.HandlerOrphaned id c) :
    (∃ ch, x.server.results.get? c = some ch) ∧ ∀ id' h', (id', Task.handler h') ∈ x.tasks →
      id' ≠ id → x.HandlerLive id' h'.result → h'.result ≠ c := by
  refine ⟨?_, fun id' h' hm hne hl' hc => ?_⟩
  · rcases hh with hl | ho
    · obtain ⟨ch, hch, -⟩ := hl.unsent
      exact ⟨ch, hch⟩
    · obtain ⟨ch, hch, -⟩ := ho.lost
      exact ⟨ch, hch⟩
  · rcases hh with hl | ho
    · exact hne (hx.task_eq (hc ▸ hl') hl)
    · -- a live handler's channel has an entry, an orphan's has none
      obtain ⟨e, he, hec, -⟩ := hl'.entry
      exact ho.apart (by rw [← hc, ← hec]; exact List.mem_map_of_mem he)

/-- A handler whose channel's sender goes without an answer ends, keeping the invariant. -/
theorem dropSender_endTask (hx : x.Serving) (hh : x.HandlerLive id c ∨ x.HandlerOrphaned id c)
    (core : Core) :
    ({ x with server := { x.server with results := (x.server.results.dropSender c).1 }, core } :
      Exchange).endTask id |>.Serving := by
  obtain ⟨⟨ch, hch⟩, hapart⟩ := hx.own_channel hh
  -- dropping the sender keeps what the channel holds
  have hdrop : ch.dropSender.1.value = ch.value := by
    unfold Oneshot.dropSender
    split <;> rfl
  refine hx.end_of_channel core (hx.numbered.dropSender c) (by simp)
    (fun c' hc' => by simp [hc']) ⟨ch, ch.dropSender.1, hch, by simp [hch], hdrop, ?_⟩ hapart
  intro hr
  simpa using hr

/-- A live handler whose answer reaches its channel and is recorded ends, keeping the
invariant. -/
theorem send_endTask (hx : x.Serving) (hl : x.HandlerLive id c) (core : Core) (t : Nat)
    (a : Response) :
    ({ x with
        server := { x.server with results := (x.server.results.send c a).2.1 }
        history := x.history ++ [(t, .returned c a)]
        core } : Exchange).endTask id |>.Serving := by
  obtain ⟨e, he, hec, -⟩ := hl.entry
  obtain ⟨ch, hch, hv, -, -⟩ := hl.unsent
  refine ⟨?_, ?_, ?_, ?_, ?_, ?_⟩
  · simpa [Event.replay] using hx.table
  · -- the answer comes on the channel of an entry in flight, for the first time
    have hfits : (Event.returned c a).Fits x.server.config x.history := by
      refine ⟨?_, hl.fresh⟩
      rw [← hx.table, ← hec]
      exact List.mem_map_of_mem he
    simpa using fitting_append_singleton.2 ⟨hx.fitting, hfits⟩
  · simpa using hx.numbered.send c a
  · simpa [Event.admitted?] using hx.admitted_lt
  · intro c' ch' r hc' hr
    simp only [endTask_server, endTask_history, Channels.get?_send] at hc' ⊢
    split at hc'
    · -- the channel holds the answer just sent, or still nothing
      subst c'
      rw [hch] at hc'
      obtain rfl := Option.some.inj hc'
      dsimp only [Oneshot.send] at hr
      split at hr
      · obtain rfl := Option.some.inj hr
        exact ⟨t, by simp⟩
      · rw [hv] at hr
        cases hr
    · obtain ⟨t', ht'⟩ := hx.values c' ch' r hc' hr
      exact ⟨t', List.mem_append_left _ ht'⟩
  · intro id' h' hm
    simp only [endTask_tasks] at hm
    obtain ⟨hh', hne⟩ := hx.other_handler hl hm
    rcases hh' with ⟨he', ⟨ch'', hch'', hu⟩, hf⟩ | ho
    · refine .inl ⟨by simpa using he', ⟨ch'', by simp [hne, hch''], hu⟩, fun t' r hr => ?_⟩
      simp only [endTask_history, List.mem_append, List.mem_singleton, Prod.mk.injEq,
        Event.returned.injEq] at hr
      rcases hr with hr | ⟨-, hc, -⟩
      · exact hf t' r hr
      · exact hne hc
    · exact .inr (ho.mono ⟨[(t, .returned c a)], by simp⟩ (by simpa using ho.lost.send c a)
        (by simpa using ho.apart) (by simp))

/-- A handler that ends with an answer keeps the invariant. A live handler's answer reaches
its entry's channel and is recorded, or is lost with the channel's receiver; an orphan's is
always lost. -/
theorem answerOn_endTask (hx : x.Serving) (hh : x.HandlerLive id c ∨ x.HandlerOrphaned id c)
    (a : Response) : ((x.answerOn c a).endTask id).Serving := by
  obtain ⟨core, -, heq⟩ := answerOn_eq x c a
  rw [heq]
  obtain ⟨⟨ch, hch⟩, hapart⟩ := hx.own_channel hh
  have hsent : (x.server.results.send c a).1 = (ch.send a).1 := by
    rw [Channels.send_eq, hch]
  cases hs : (ch.send a).1
  · -- the answer is lost: the channel keeps what it holds, its receiver gone
    rw [hsent, hs]
    simp only [Bool.false_eq_true, ite_false, List.append_nil]
    have hlost : ch.receiverLive = false := by
      unfold Oneshot.send at hs
      split at hs
      · cases hs
      · simp_all
    have hch' : (ch.send a).2.1 = { ch with senderLive := false } := by
      simp [Oneshot.send, hlost]
    refine hx.end_of_channel core (hx.numbered.send c a) (by simp)
      (fun c' hc' => by simp [hc']) ⟨ch, (ch.send a).2.1, hch, by simp [hch], by rw [hch'], ?_⟩
      hapart
    intro _
    rw [hch']
    exact hlost
  · -- the answer reached the channel: an orphan's never does
    rw [hsent, hs]
    simp only [ite_true]
    rcases hh with hl | ho
    · exact hx.send_endTask hl core _ a
    · obtain ⟨ch₀, hch₀, hr⟩ := ho.lost
      rw [hch] at hch₀
      cases hch₀
      simp [Oneshot.send, hr] at hs

/-- Polling a handler task keeps the invariant. -/
theorem handlerRun (hx : x.Serving) {h : Handler} (hm : (id, Task.handler h) ∈ x.tasks) :
    (storeAs id Task.handler (Exchange.handlerRun id h x)).Serving := by
  have hh := hx.handlers id h hm
  rcases handlerRun_ends x id h with ⟨ph, core, hr⟩ | ⟨core, hr⟩ | ⟨core, a, hr⟩ <;>
    rw [hr] <;> simp only [storeAs]
  · -- still waiting, on the same channel
    exact (hx.core core).setTask fun h' heq => by
      cases heq
      exact hh.imp (·.of_core core) (·.of_core core)
  · exact hx.dropSender_endTask hh core
  · exact (hx.core core).answerOn_endTask (hh.imp (·.of_core core) (·.of_core core)) a

/-! ### Dispatch -/

/-- Every channel an answer was returned on was opened. -/
theorem returned_lt (hx : x.Serving) {t c : Nat} {r : Response}
    (hm : (t, Event.returned c r) ∈ x.history) : c < x.server.results.next := by
  obtain ⟨p, s, hps, hc, -⟩ := hx.fitting.fits_of_mem hm
  obtain ⟨e, he, rfl⟩ := List.mem_map.1 hc
  -- the answer came on the channel of an entry admitted before it
  have hfp : Fitting x.server.config p := by
    have hf := hx.fitting
    rw [hps] at hf
    exact hf.of_append
  have hadm : e ∈ admittedOf x.history := by
    rw [hps]
    simp only [admittedOf, List.filterMap_append]
    exact List.mem_append_left _ (hfp.settles.pending_sublist.subset he)
  exact hx.admitted_lt e hadm

/-- Recording an event that fits and neither admits, answers, clears nor returns keeps the
invariant. -/
theorem note (hx : x.Serving) {ev : Event} (ha : ev.admitted? = none)
    (hr : ∀ p, ev.replay p = p) (hret : ∀ c a, ev ≠ .returned c a)
    (hfit : ev.Fits x.server.config x.history) : (x.note ev).Serving := by
  refine ⟨?_, ?_, hx.numbered, ?_, ?_, ?_⟩
  · simpa [hr] using hx.table
  · simpa using fitting_append_singleton.2 ⟨hx.fitting, hfit⟩
  · simpa [ha] using hx.admitted_lt
  · intro c ch r hc hv
    obtain ⟨t, ht⟩ := hx.values c ch r hc hv
    exact ⟨t, by simp [ht]⟩
  · intro id h hm
    rcases hx.handlers id h hm with ⟨he, hu, hf⟩ | ho
    · refine .inl ⟨he, hu, fun t r hm' => ?_⟩
      simp only [note_history, List.mem_append, List.mem_singleton, Prod.mk.injEq] at hm'
      rcases hm' with hm' | ⟨-, heq⟩
      · exact hf t r hm'
      · exact hret _ _ heq.symm
    · exact .inr (ho.mono ⟨_, rfl⟩ ho.lost ho.apart le_rfl)

/-- Opening a channel, with the table, the settings and the history kept and no new
handler task, keeps the invariant. -/
theorem openChannel (hx : x.Serving) {y : Exchange} (hs : y.server.inFlight = x.server.inFlight)
    (hr : y.server.results = x.server.results.openChannel.2)
    (hc : y.server.config = x.server.config) (hh : y.history = x.history)
    (ht : ∀ id h, (id, Task.handler h) ∈ y.tasks → (id, Task.handler h) ∈ x.tasks) :
    y.Serving := by
  refine ⟨?_, ?_, ?_, ?_, ?_, ?_⟩
  · rw [hs, hh]
    exact hx.table
  · rw [hc, hh]
    exact hx.fitting
  · rw [hr]
    exact hx.numbered.openChannel
  · intro e he
    rw [hh] at he
    rw [hr, Channels.openChannel_next]
    exact Nat.lt_succ_of_lt (hx.admitted_lt e he)
  · -- the new channel holds nothing
    intro c ch r hc' hv
    rw [hr, Channels.get?_openChannel _ hx.numbered] at hc'
    split at hc'
    · obtain rfl := Option.some.inj hc'
      cases hv
    · rw [hh]
      exact hx.values c ch r hc' hv
  · intro id h hm
    rcases hx.handlers id h (ht id h hm) with ⟨⟨e, he, hec, het⟩, ⟨ch, hch, hu⟩, hf⟩ | ho
    · have hne : h.result ≠ x.server.results.next := by
        rw [← hec]
        exact Nat.ne_of_lt (hx.result_lt he)
      refine .inl ⟨⟨e, hs ▸ he, hec, het⟩, ⟨ch, ?_, hu⟩, hh ▸ hf⟩
      rw [hr, Channels.get?_openChannel _ hx.numbered, if_neg hne, hch]
    · refine .inr (ho.mono ⟨[], by rw [hh, List.append_nil]⟩ ?_ (hs ▸ ho.apart) (by simp [hr]))
      rw [hr]
      exact ho.lost.openChannel hx.numbered ho.opened

/-- Admitting the entry `e` on a new channel, with its handler task started, keeps the
invariant when the admission fits. -/
theorem admission (hx : x.Serving) {y : Exchange} {e : InFlight} {t task : Nat} {rec : BusRecord}
    (hs : y.server.inFlight = x.server.inFlight ++ [e])
    (hr : y.server.results = x.server.results.openChannel.2)
    (hc : y.server.config = x.server.config)
    (hh : y.history = x.history ++ [(t, .dispatched task rec (.admitted e))])
    (ht : ∀ id h, (id, Task.handler h) ∈ y.tasks →
      (id, Task.handler h) ∈ x.tasks ∨ (id = e.task ∧ h.result = e.result))
    (hres : e.result = x.server.results.next)
    (hfit : (Event.dispatched task rec (.admitted e)).Fits x.server.config x.history) :
    y.Serving := by
  have hnew : ∀ c, c ≠ x.server.results.next → y.server.results.get? c = x.server.results.get? c := by
    intro c hc'
    rw [hr, Channels.get?_openChannel _ hx.numbered, if_neg hc']
  refine ⟨?_, ?_, ?_, ?_, ?_, ?_⟩
  · simp [hs, hh, Event.replay, hx.table]
  · rw [hc, hh]
    exact fitting_append_singleton.2 ⟨hx.fitting, hfit⟩
  · rw [hr]
    exact hx.numbered.openChannel
  · intro e' he'
    simp only [hh, admittedOf_append_singleton, Event.admitted?, Option.toList_some,
      List.mem_append, List.mem_singleton] at he'
    rw [hr, Channels.openChannel_next]
    rcases he' with he' | rfl
    · exact Nat.lt_succ_of_lt (hx.admitted_lt e' he')
    · rw [hres]
      exact Nat.lt_succ_self _
  · intro c ch r hc' hv
    by_cases hcn : c = x.server.results.next
    · -- the new channel holds nothing
      rw [hr, Channels.get?_openChannel _ hx.numbered, if_pos hcn] at hc'
      obtain rfl := Option.some.inj hc'
      cases hv
    · rw [hnew c hcn] at hc'
      obtain ⟨t', ht'⟩ := hx.values c ch r hc' hv
      exact ⟨t', by simp [hh, ht']⟩
  · intro id h hm
    have hfresh : ∀ c, (∀ t' r, (t', Event.returned c r) ∉ x.history) →
        ∀ t' r, (t', Event.returned c r) ∉ y.history := by
      intro c hf t' r hm'
      simp only [hh, List.mem_append, List.mem_singleton, Prod.mk.injEq, reduceCtorEq,
        and_false, or_false] at hm'
      exact hf t' r hm'
    rcases ht id h hm with hm' | ⟨rfl, hh'⟩
    · rcases hx.handlers id h hm' with ⟨⟨e', he', hec, het⟩, ⟨ch, hch, hu⟩, hf⟩ | ho
      · -- a handler from before: its entry stays, its channel is not the new one
        have hne : h.result ≠ x.server.results.next := by
          rw [← hec]
          exact Nat.ne_of_lt (hx.result_lt he')
        exact .inl ⟨⟨e', by simp [hs, he'], hec, het⟩, ⟨ch, by rw [hnew _ hne, hch], hu⟩,
          hfresh _ hf⟩
      · -- an orphan from before: the new entry is on the new channel, not on its own
        refine .inr (ho.mono ⟨_, hh⟩ (by rw [hr]; exact ho.lost.openChannel hx.numbered ho.opened)
          ?_ (by simp [hr]))
        rw [hs, List.map_append, List.mem_append, not_or]
        refine ⟨ho.apart, ?_⟩
        simp only [List.map_cons, List.map_nil, List.mem_singleton, hres]
        exact Nat.ne_of_lt ho.opened
    · -- the new handler: the new entry, on the new channel, which nothing reached yet
      refine .inl ⟨⟨e, by simp [hs], hh'.symm, rfl⟩, ⟨Oneshot.fresh, ?_, rfl, rfl, rfl⟩,
        hfresh _ fun t' r hm' => ?_⟩
      · rw [hr, Channels.get?_openChannel _ hx.numbered, if_pos (hh'.trans hres)]
      · exact absurd (hx.returned_lt hm') (by rw [hh', hres]; exact Nat.lt_irrefl _)

/-- Returning a slot keeps the invariant. -/
theorem releaseSlot (hx : x.Serving) : x.releaseSlot.Serving :=
  hx.quiet ⟨rfl, rfl, rfl, fun _ _ h => h, .refl _ _⟩

/-- A request arriving after the sweep stopped: its channel is opened and its handler
started and stopped at once, which keeps the invariant. -/
theorem dispatch_dropped (hx : x.Serving) {rec : BusRecord} {env : Envelope Request}
    (hdec : Envelope.decode Request.reader rec.value = .ok env)
    (hdup : env.requestId ∉ x.server.inFlight.map (·.id))
    (hin : addInstant? x.core.now x.server.config.requestTimeout.nanos ≠ none)
    (hcl : x.server.closing = true) : (x.dispatch rec).2.Serving := by
  unfold Exchange.dispatch
  rw [hdec]
  dsimp only
  rw [if_neg (by simpa using hdup)]
  simp only [count, spawn]
  split
  · next hnone => exact absurd (by simpa using hnone) hin
  simp only [hcl, ite_true]
  refine Serving.releaseSlot (hx.openChannel (by simp) (by simp) (by simp) (by simp) ?_)
  -- the one new handler is stopped again
  intro id h hm
  simp only [abortHandler_tasks, List.mem_filter, List.mem_append, List.mem_singleton,
    bne_iff_ne, ne_eq] at hm
  rcases hm with ⟨hm | hm, hne⟩
  · exact hm
  · exact absurd (congrArg Prod.fst hm) hne

/-- A request whose deadline is past the clock's range: its channel is opened and lost at
once, and its handler left running as an orphan, which keeps the invariant. -/
theorem dispatch_overflowed (hx : x.Serving) (task : Nat) (rec : BusRecord)
    (env : Envelope Request) :
    ((x.orphan env).releaseSlot.note
      (.dispatched task rec (.overflowed x.nextTask x.server.results.next))).Serving := by
  have hfresh : (x.server.results.openChannel.2.dropReceiver x.server.results.next).get?
      x.server.results.next = some Oneshot.fresh.dropReceiver := by
    rw [Channels.get?_dropReceiver, if_pos rfl, Channels.get?_openChannel _ hx.numbered, if_pos rfl,
      Option.map_some]
  have hold : ∀ c, c ≠ x.server.results.next →
      (x.server.results.openChannel.2.dropReceiver x.server.results.next).get? c =
        x.server.results.get? c := by
    intro c hc
    rw [Channels.get?_dropReceiver, if_neg hc, Channels.get?_openChannel _ hx.numbered, if_neg hc]
  have hapart : x.server.results.next ∉ x.server.inFlight.map (·.result) := fun hm => by
    obtain ⟨e, he, hec⟩ := List.mem_map.1 hm
    exact Nat.lt_irrefl _ (hec ▸ hx.result_lt he)
  refine ⟨?_, ?_, ?_, ?_, ?_, ?_⟩
  · simpa [orphan, Event.replay] using hx.table
  · have hfit : (Event.dispatched task rec (.overflowed x.nextTask x.server.results.next)).Fits
        x.server.config x.history := trivial
    simpa [orphan] using fitting_append_singleton.2 ⟨hx.fitting, hfit⟩
  · simpa [orphan] using hx.numbered.openChannel.dropReceiver _
  · simpa [orphan, Event.admitted?] using fun e he => Nat.lt_succ_of_lt (hx.admitted_lt e he)
  · -- the new channel holds nothing; the others hold what they held
    intro c ch r hc hv
    simp only [note_server, releaseSlot_server, orphan] at hc
    by_cases hcn : c = x.server.results.next
    · rw [hcn, hfresh] at hc
      cases hc
      cases hv
    · obtain ⟨t, ht⟩ := hx.values c ch r (hold c hcn ▸ hc) hv
      exact ⟨t, by simp [orphan, ht]⟩
  · intro id h hm
    simp only [note_tasks, releaseSlot_tasks, orphan, List.mem_append, List.mem_singleton,
      Prod.mk.injEq, Task.handler.injEq] at hm
    rcases hm with hm | ⟨rfl, rfl⟩
    · rcases hx.handlers id h hm with ⟨⟨e, he, hec, het⟩, ⟨ch, hch, hu⟩, hf⟩ | ho
      · have hne : h.result ≠ x.server.results.next := by
          rw [← hec]
          exact Nat.ne_of_lt (hx.result_lt he)
        refine .inl ⟨⟨e, by simpa [orphan] using he, hec, het⟩,
          ⟨ch, by simp [orphan, hold _ hne, hch], hu⟩, fun t r hr => ?_⟩
        simp only [note_history, releaseSlot_history, orphan, List.mem_append, List.mem_singleton,
          Prod.mk.injEq, reduceCtorEq, and_false, or_false] at hr
        exact hf t r hr
      · refine .inr (ho.mono ⟨_, rfl⟩ ?_ (by simpa [orphan] using ho.apart) (by simp [orphan]))
        obtain ⟨ch, hch, hr⟩ := ho.lost
        exact ⟨ch, by simp [orphan, hold _ (Nat.ne_of_lt ho.opened), hch], hr⟩
    · -- the new handler: an orphan on the new channel, whose receiver is gone
      exact .inr ⟨⟨_, task, rec, List.mem_append_right _ (List.mem_singleton_self _)⟩,
        ⟨Oneshot.fresh.dropReceiver, by simp [orphan, hfresh], rfl⟩, by simpa [orphan] using hapart,
        by simp [orphan]⟩

/-- Handing a record to `dispatch`, and recording what became of it, keeps the invariant. -/
theorem dispatch (hx : x.Serving) (task : Nat) (rec : BusRecord) :
    ((x.dispatch rec).2.note (.dispatched task rec (x.dispatch rec).1)).Serving := by
  have hskip : x.skipped.Serving := hx.quiet ⟨rfl, rfl, rfl, fun _ _ h => h, .refl _ _⟩
  rcases x.dispatch_cases rec with ⟨hdec, hd⟩ | ⟨env, hdec, ⟨hdup, hd⟩ | ⟨hnot, -, hd⟩ |
    ⟨hnot, hin, hcl, hd⟩ | ⟨hnot, hin, hcl, hd⟩⟩
  · rw [hd]
    exact hskip.note rfl (fun _ => rfl) (fun _ _ => nofun) hdec
  · rw [hd]
    refine hskip.note rfl (fun _ => rfl) (fun _ _ => nofun) ⟨env, hdec, ?_⟩
    rw [← hskip.table]
    exact hdup
  · rw [hd]
    exact hx.dispatch_overflowed task rec env
  · rw [hd]
    exact (hx.dispatch_dropped hdec hnot hin hcl).note rfl (fun _ => rfl) (fun _ _ => nofun)
      ⟨env, hdec⟩
  · rw [hd]
    -- the admission fits: a new identifier, on a channel never opened before
    have hfresh : (x.entryFor env).result ∉ (admittedOf x.history).map (·.result) := by
      intro hm
      obtain ⟨e, he, hee⟩ := List.mem_map.1 hm
      exact Nat.lt_irrefl _ (hee ▸ hx.admitted_lt e he)
    refine hx.admission (e := x.entryFor env) rfl rfl rfl rfl ?_ rfl
      ⟨env, hdec, rfl, rfl, by rwa [← hx.table], hfresh⟩
    intro id h hm
    simp only [note_tasks, List.mem_append, List.mem_singleton, Prod.mk.injEq,
      Task.handler.injEq] at hm
    rcases hm with hm | ⟨rfl, rfl⟩
    · exact .inl hm
    · exact .inr ⟨rfl, rfl⟩

end Serving

/-! ### The consume loops -/

namespace Quiet

variable {x : Exchange}

/-- Leaving a consume loop at most commits. -/
theorem leaveConsume (id : Nat) (l : ConsumeLoop) : Quiet x (leaveConsume x id l) := by
  refine ⟨by simp, by simp, by simp, fun _ _ h => by simpa using h, ?_⟩
  rw [leaveConsume_history, growsBy_append_iff]
  split <;> simp [Event.Quiet]

/-- Changing the stop watch, the clock, the semaphore or the hub is quiet. -/
theorem of_server_eq {y : Exchange} (hi : y.server.inFlight = x.server.inFlight)
    (hr : y.server.results = x.server.results) (hc : y.server.config = x.server.config)
    (ht : y.tasks = x.tasks) (hh : y.history = x.history) : Quiet x y :=
  ⟨hi, hr, hc, fun _ _ h => ht ▸ h, .of_eq hh⟩

end Quiet

namespace Serving

variable {x : Exchange}

/-- A consume loop holding a record keeps the invariant, whether it stops, waits for a
slot, or dispatches the record. -/
theorem consumeAcquire (hx : x.Serving) (id : Nat) (l : ConsumeLoop) (record : BusRecord)
    (reg slot : Option Nat) : (Exchange.consumeAcquire id l record reg slot x).exchange.Serving := by
  rw [Exchange.consumeAcquire]
  split
  next _ chg seen reg' w hpoll =>
  extract_lets y₁ l₁
  have h₁ : y₁.Serving := hx.quiet (.of_server_eq rfl rfl rfl rfl rfl)
  split
  · split
    refine Serving.quiet ?_ (Quiet.leaveConsume _ _)
    exact h₁.quiet (.of_server_eq rfl rfl rfl rfl rfl)
  · split
    next _ ok slot' slots hslot =>
    extract_lets y₂
    have h₂ : y₂.Serving := h₁.quiet (.of_server_eq rfl rfl rfl rfl rfl)
    split
    · have h₃ : (y₂.forgetStop reg').Serving := h₂.quiet (.of_server_eq rfl rfl rfl rfl rfl)
      split
      · exact h₃.releaseSlot.quiet (.leaveConsume _ _)
      · split
        next adm y₄ hdisp =>
        -- the record goes to `dispatch`, which records what became of it
        have hd := h₃.dispatch id record
        rw [hdisp] at hd
        split
        · -- a deadline past the clock's range stops the loop
          dsimp only [Turn.exchange] at hd ⊢
          exact hd.quiet (Quiet.leaveConsume _ _)
        · exact hd
    · exact h₂

theorem consumeTurn (hx : x.Serving) (id : Nat) (l : ConsumeLoop) :
    (Exchange.consumeTurn id l x).exchange.Serving := by
  unfold Exchange.consumeTurn
  split
  · exact hx
  · split
    · -- resting changes the clock only
      next s _ =>
      rw [consumePause]
      rcases s.poll x.core (.task id) with ⟨elapsed, s', core⟩
      split <;> exact hx.core core
    · obtain ⟨hs, ht, hh⟩ := consumeWait_frame x id l _ _ _
      exact hx.quiet (.of_eq hs ht (hh.mono fun e he => by
        cases e <;> first | exact he.elim | trivial))
    · exact hx.consumeAcquire id l _ _ _

/-- A consume loop's run keeps the invariant. -/
theorem consumeRun (hx : x.Serving) (id n : Nat) (l : ConsumeLoop) :
    (Exchange.consumeRun id n l x).2.Serving :=
  (runTurns_frame (R := fun x y => x.Serving → y.Serving) (S := fun _ _ => True)
    (fun h₁ h₂ h => h₂ (h₁ h)) (fun _ _ => trivial)
    (fun l' _ => ⟨fun hy => hy.consumeTurn id l', fun _ _ => trivial⟩) n l x (fun h => h)
    trivial).1 hx

end Serving

/-! ### The sweep -/

section Reads

variable {chs : Channels Response}

theorem readAll_cons (e : InFlight) (l : List InFlight) :
    readAll chs (e :: l) = readAll (chs.tryRecv e.result).2 l := rfl

/-- The sweep's looks keep a lost channel lost. -/
theorem Sched.Channels.Lost.readAll {c : Nat} (h : chs.Lost c) (l : List InFlight) :
    (readAll chs l).Lost c := by
  induction l generalizing chs with
  | nil => exact h
  | cons e l ih => exact ih (h.tryRecv _)

/-- The sweep's looks keep the channels numbered. -/
theorem readAll_numbered (h : chs.Numbered) (l : List InFlight) : (readAll chs l).Numbered := by
  induction l generalizing chs with
  | nil => exact h
  | cons e l ih => exact ih (h.tryRecv _)

@[simp] theorem readAll_next (l : List InFlight) : (readAll chs l).next = chs.next := by
  induction l generalizing chs with
  | nil => rfl
  | cons e l ih => rw [readAll_cons, ih, Channels.tryRecv_next]

/-- The sweep's looks take values away and put none. -/
theorem readAll_values {P : Nat → Response → Prop}
    (h : ∀ c ch r, chs.get? c = some ch → ch.value = some r → P c r) (l : List InFlight) :
    ∀ c ch r, (readAll chs l).get? c = some ch → ch.value = some r → P c r := by
  induction l generalizing chs with
  | nil => exact h
  | cons e l ih =>
    refine ih fun c ch r hc hv => ?_
    rw [Channels.get?_tryRecv] at hc
    split at hc
    · obtain ⟨ch₀, hch₀, rfl⟩ := Option.map_eq_some_iff.1 hc
      exact h c ch₀ r hch₀ (Oneshot.value_tryRecv hv)
    · exact h c ch r hc hv

/-- A channel whose sender has sent nothing is left as it is by the sweep's looks. -/
theorem readAll_unsent {c : Nat} {ch : Oneshot Response} (hc : chs.get? c = some ch)
    (hu : ch.Unsent) (l : List InFlight) : (readAll chs l).get? c = some ch := by
  induction l generalizing chs with
  | nil => exact hc
  | cons e l ih =>
    refine ih ?_
    rw [Channels.get?_tryRecv]
    split
    · next hce =>
      rw [hc, Option.map_some, Oneshot.tryRecv_of_unsent hu]
    · exact hc

/-- An answer the sweep reads was waiting on the entry's channel. -/
theorem readOf_completed {now : Nat} {e : InFlight} {r : Response}
    (h : readOf chs now e = some (.completed r)) :
    ∃ ch, chs.get? e.result = some ch ∧ ch.value = some r := by
  unfold readOf at h
  rw [Channels.tryRecv_fst] at h
  cases hc : chs.get? e.result with
  | none => simp [hc] at h
  | some ch =>
    refine ⟨ch, rfl, Oneshot.value_of_tryRecv ?_⟩
    simp only [hc, Option.map_some, Option.getD_some] at h
    split at h
    · next a ha =>
      cases h
      exact ha
    · cases h
    · split at h <;> cases h

/-- On a channel whose sender has sent nothing, the sweep reads only the deadline. -/
theorem readOf_of_unsent {now : Nat} {e : InFlight} {ch : Oneshot Response}
    (hc : chs.get? e.result = some ch) (hu : ch.Unsent) :
    readOf chs now e = if now ≥ e.deadline then some .timedOut else none := by
  unfold readOf
  rw [Channels.tryRecv_fst, hc, Option.map_some, Option.getD_some, Oneshot.tryRecv_of_unsent hu]

end Reads

namespace Serving

variable {x : Exchange}

/-- The sweep's looks keep the invariant. -/
theorem readAll (hx : x.Serving) (l : List InFlight) :
    ({ x with server := { x.server with results := readAll x.server.results l } } : Exchange).Serving := by
  refine ⟨hx.table, hx.fitting, readAll_numbered hx.numbered l, ?_, readAll_values hx.values l, ?_⟩
  · simpa using hx.admitted_lt
  · intro id h hm
    rcases hx.handlers id h hm with ⟨he, ⟨ch, hch, hu⟩, hf⟩ | ho
    · exact .inl ⟨he, ⟨ch, readAll_unsent hch hu l, hu⟩, hf⟩
    · exact .inr (ho.mono ⟨[], by simp⟩ (Sched.Channels.Lost.readAll ho.lost l) ho.apart (by simp))

/-- Settling an entry in flight keeps the invariant, when an answer it is settled with was
returned on its channel, and, unless its handler is stopped, no handler task is left on
its channel. -/
theorem settle (hx : x.Serving) {e : InFlight} {s : Settled} (he : e ∈ x.server.inFlight)
    (hc : ∀ r, s = .completed r → ∃ t, (t, Event.returned e.result r) ∈ x.history)
    (hl : s.aborts = false → ∀ id h, (id, Task.handler h) ∈ x.tasks → h.result ≠ e.result) :
    (x.settle e s).Serving := by
  obtain ⟨sent, hub, core, -, heq⟩ := settle_eq x e s (List.mem_map_of_mem he)
  rw [heq]
  -- the handler tasks left are on other channels than the settled entry's
  have hother : ∀ id h, (id, Task.handler h) ∈ (if s.aborts then x.tasks.filter (·.1 != e.task)
      else x.tasks) → x.HandlerLive id h.result → h.result ≠ e.result := by
    intro id h hm hl'
    split at hm
    · next hab =>
      simp only [List.mem_filter, bne_iff_ne, ne_eq] at hm
      intro hre
      refine hm.2 ?_
      obtain ⟨e', he', hre', rfl⟩ := hl'.entry
      rw [List.inj_on_of_nodup_map hx.channels_nodup he' he (hre'.trans hre)]
    · next hab => exact hl (by simpa using hab) id h hm
  refine ⟨?_, ?_, ?_, ?_, ?_, ?_⟩
  · simp [Event.replay, hx.table]
  · -- the answer fits: the entry is in flight, and a completed answer was returned
    refine fitting_append_singleton.2 ⟨hx.fitting, ⟨by rw [← hx.table]; exact he, rfl, rfl, rfl, hc⟩⟩
  · exact hx.numbered.dropReceiver _
  · simpa [Event.admitted?] using hx.admitted_lt
  · intro c ch r hc' hv
    simp only [Channels.get?_dropReceiver] at hc'
    have hch : ∃ ch₀, x.server.results.get? c = some ch₀ ∧ ch₀.value = some r := by
      split at hc'
      · obtain ⟨ch₀, hch₀, rfl⟩ := Option.map_eq_some_iff.1 hc'
        exact ⟨ch₀, hch₀, hv⟩
      · exact ⟨ch, hc', hv⟩
    obtain ⟨ch₀, hch₀, hv₀⟩ := hch
    obtain ⟨t, ht⟩ := hx.values c ch₀ r hch₀ hv₀
    exact ⟨t, List.mem_append_left _ ht⟩
  · intro id h hm
    have hm₀ : (id, Task.handler h) ∈ x.tasks := by
      split at hm
      · exact (List.mem_filter.1 hm).1
      · exact hm
    rcases hx.handlers id h hm₀ with hl' | ho
    · have hne := hother id h hm hl'
      obtain ⟨⟨e', he', hre, het⟩, ⟨ch, hch, hu⟩, hf⟩ := hl'
      -- the entry of another channel is another entry, with another identifier
      have hid : e'.id ≠ e.id := fun hid =>
        hne (hre ▸ congrArg InFlight.result (List.inj_on_of_nodup_map hx.ids_nodup he' he hid))
      refine .inl ⟨⟨e', by simp [he', hid], hre, het⟩, ⟨ch, by simp [hne, hch], hu⟩, ?_⟩
      intro t r hm'
      simp only [List.mem_append, List.mem_singleton, Prod.mk.injEq, reduceCtorEq, and_false,
        or_false] at hm'
      exact hf t r hm'
    · -- an orphan's channel stays lost, and fewer entries are in flight
      refine .inr (ho.mono ⟨_, rfl⟩ (Sched.Channels.Lost.dropReceiver ho.lost _) ?_ (by simp))
      exact fun hmem => ho.apart ((List.filter_sublist.map _).subset hmem)

/-- Settling the entries the sweep found ready, one after the other, keeps the invariant:
each is still in flight when its turn comes, as the found entries carry pairwise
different identifiers. -/
theorem settleAll (hx : x.Serving) :
    ∀ (l : List (InFlight × Settled)) (y : Exchange), y.Serving → y.tasks ⊆ x.tasks →
      (∃ evs, y.history = x.history ++ evs) → y.server.inFlight ⊆ x.server.inFlight →
      (∀ p ∈ l, p.1 ∈ y.server.inFlight ∧ readOf x.server.results x.core.now p.1 = some p.2) →
      (l.map (·.1.id)).Nodup → (l.foldl (fun y p => y.settle p.1 p.2) y).Serving := by
  intro l
  induction l with
  | nil => exact fun y hy _ _ _ _ _ => hy
  | cons p l ih =>
    obtain ⟨e, s⟩ := p
    intro y hy hsub ⟨evs, hevs⟩ hin hl hnd
    simp only [List.map_cons, List.nodup_cons, List.mem_map] at hnd
    obtain ⟨he, hread⟩ := hl (e, s) (by simp)
    -- a completed answer was waiting on the channel, so it was returned on it
    have hc : ∀ r, s = .completed r → ∃ t, (t, Event.returned e.result r) ∈ y.history := by
      rintro r rfl
      obtain ⟨ch, hch, hv⟩ := readOf_completed hread
      obtain ⟨t, ht⟩ := hx.values _ ch r hch hv
      exact ⟨t, by rw [hevs]; exact List.mem_append_left _ ht⟩
    -- a handler still on the channel would have left it unsent, to be read as timed out
    have hlive : s.aborts = false → ∀ id h, (id, Task.handler h) ∈ y.tasks → h.result ≠ e.result := by
      intro hab id h hm hre
      rcases hx.handlers id h (hsub hm) with ⟨-, ⟨ch, hch, hu⟩, -⟩ | ho
      · rw [hre] at hch
        rw [readOf_of_unsent hch hu] at hread
        split at hread
        · cases hread
          cases hab
        · cases hread
      · -- an orphan's channel has no entry in flight
        exact ho.apart (by rw [hre]; exact List.mem_map_of_mem (hin he))
    obtain ⟨sent, hub, core, -, heq⟩ := settle_eq y e s (List.mem_map_of_mem he)
    refine ih (y.settle e s) (hy.settle he hc hlive)
      (List.Subset.trans (settle_tasks_subset y e s) hsub) ?_ ?_ ?_ hnd.2
    · exact ⟨evs ++ _, by rw [heq, hevs, List.append_assoc]⟩
    · rw [heq]
      exact List.Subset.trans List.filter_sublist.subset hin
    · intro q hq
      obtain ⟨hq₁, hq₂⟩ := hl q (by simp [hq])
      have hid : q.1.id ≠ e.id := fun h => hnd.1 ⟨q, hq, h⟩
      rw [heq]
      exact ⟨by simp [hq₁, hid], hq₂⟩

/-- The sweep keeps the invariant. -/
theorem sweep (hx : x.Serving) : x.sweep.2.Serving := by
  rw [sweep_eq x hx.channels_nodup]
  refine hx.settleAll _ _ (hx.readAll x.server.inFlight) (List.Subset.refl _) ⟨[], by simp⟩
    (List.Subset.refl _) ?_ ?_
  · intro p hp
    obtain ⟨e, he, hep⟩ := List.mem_filterMap.1 hp
    obtain ⟨s, hs, rfl⟩ := Option.map_eq_some_iff.1 hep
    exact ⟨he, hs⟩
  · -- the entries found ready, in the order of the table
    have hsub := (found_sublist x.server.results x.core.now x.server.inFlight).map InFlight.id
    rw [List.map_map] at hsub
    exact hx.ids_nodup.sublist hsub

/-- The sweep stopping keeps the invariant: the table empties, and every handler task goes
with its entry. -/
theorem abandonInFlight (hx : x.Serving) : x.abandonInFlight.Serving := by
  obtain ⟨core, -, heq⟩ := abandonInFlight_eq x
  obtain ⟨core', -, heq'⟩ := foldl_releaseSlot x.server.inFlight
    { x with
      server := { x.server with closing := true, inFlight := [] }
      tasks := x.tasks.filter (fun p => p.1 ∉ x.server.inFlight.map InFlight.task)
      core }
  rw [heq, heq']
  refine ⟨?_, ?_, hx.numbered, ?_, ?_, ?_⟩
  · simp [Event.replay]
  · -- the entries dropped are those in flight
    exact fitting_append_singleton.2 ⟨hx.fitting, hx.table⟩
  · simpa [Event.admitted?] using hx.admitted_lt
  · intro c ch r hc hv
    obtain ⟨t, ht⟩ := hx.values c ch r hc hv
    exact ⟨t, List.mem_append_left _ ht⟩
  · -- a handler task running for an entry in flight was stopped; an orphan stays one
    intro id h hm
    simp only [note_tasks, List.mem_filter, decide_eq_true_eq] at hm
    rcases hx.handlers id h hm.1 with hl | ho
    · obtain ⟨e, he, -, rfl⟩ := hl.entry
      exact absurd (List.mem_map_of_mem he) hm.2
    · exact .inr (ho.mono ⟨_, rfl⟩ ho.lost (by simp) le_rfl)

/-- The sweep task keeps the invariant, on every tick and when it stops. -/
theorem sweepRun (hx : x.Serving) (id : Nat) (p : PeriodicLoop) :
    (Exchange.sweepRun id p x).2.Serving := by
  unfold Exchange.sweepRun periodicRun
  have hturn : ∀ (p' : PeriodicLoop) (y : Exchange),
      (y.Serving → (periodicTurn id x.pollInterval false (fun x => some x.stop)
        (fun x w => { x with stop := w }) (fun x => x.sweep.2) Exchange.abandonInFlight p'
        y).exchange.Serving) :=
    fun p' y => (periodicTurn_frame id x.pollInterval false (fun x => some x.stop)
      (fun x w => { x with stop := w }) (fun x => x.sweep.2) Exchange.abandonInFlight
      (R := fun x y => x.Serving → y.Serving) (fun h₁ h₂ h => h₂ (h₁ h)) (fun _ h => h)
      (fun _ _ h => h.quiet (.of_server_eq rfl rfl rfl rfl rfl)) (fun _ c h => h.core c)
      (fun _ h => h.sweep) (fun _ h => h.abandonInFlight) p' y).1
  exact (runTurns_frame (R := fun x y => x.Serving → y.Serving) (S := fun _ _ => True)
    (fun h₁ h₂ h => h₂ (h₁ h)) (fun _ _ => trivial) (fun p' y => ⟨hturn p' y, fun _ _ => trivial⟩)
    10000 p x (fun h => h) trivial).1 hx

end Serving

end Exchange

end TokenGate
