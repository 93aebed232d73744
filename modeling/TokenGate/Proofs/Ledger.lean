import Mathlib.Data.List.Induction
import Mathlib.Data.List.Nodup
import TokenGate.Exchange.Basic
/-!
# `TokenGate.Proofs.Ledger`: the server's table, read off its history

The server records every record it hands to `dispatch` with what became of it, every
answer it publishes, and the moment the sweep stops and drops what is still in flight.
This module reads those events back, without looking at the server itself:

* `pendingOf h`: the requests in flight after the history `h`. An admission adds its
  entry at the end, an answer removes the entries with its identifier, a clearing
  removes all. The server's table is this replay (`Proofs.Serving`).
* `Event.Fits cfg p e`: what the server may record after the history `p`. An
  admission decodes to a request whose identifier is not in flight, on a channel never
  used before; a duplicate carries an identifier in flight; an answer answers an entry
  in flight, with a record addressed and keyed by the request, whose payload is what
  the handler returned, or the empty answer. A handler returns once, on the channel of an entry in
  flight. `Fitting cfg h` says every event of `h` fits the history before it.
* `Fitting.settles`: in a fitting history the channels of the admissions are pairwise
  different, every entry in flight was admitted and is not answered yet, and no
  channel is answered twice.
-/

set_option autoImplicit false

namespace TokenGate

open Sched

/-- The answer a settled request gets: what its handler returned, or the empty one. -/
def Settled.response : Settled → Response
  | .completed r => r
  | .timedOut => Response.empty
  | .failed => Response.empty

/-- A server history: every event, oldest first, with its time. -/
abbrev History := List (Nat × Event)

namespace Event

/-- The entry an event puts in flight. -/
def admitted? : Event → Option InFlight
  | .dispatched _ _ (.admitted e) => some e
  | _ => none

/-- The handler task an event leaves running with no entry: that of a request whose
deadline was past the clock's range. -/
def overflowed? : Event → Option Nat
  | .dispatched _ _ (.overflowed task _) => some task
  | _ => none

/-- The entry an event answers. -/
def answered? : Event → Option InFlight
  | .answered e .. => some e
  | _ => none

/-- The requests in flight after an event, given those before it. -/
def replay (pending : List InFlight) : Event → List InFlight
  | .dispatched _ _ (.admitted e) => pending ++ [e]
  | .answered e .. => pending.filter (·.id != e.id)
  | .cleared _ => []
  | _ => pending

end Event

/-- The requests in flight after a history. -/
def pendingOf (h : History) : List InFlight := h.foldl (fun p n => n.2.replay p) []

/-- The entries admitted in a history, in order. -/
def admittedOf (h : History) : List InFlight := h.filterMap (·.2.admitted?)

/-- The entries answered in a history, in order. -/
def answeredOf (h : History) : List InFlight := h.filterMap (·.2.answered?)

/-- The handler tasks a history left running with no entry, in order. -/
def overflowsOf (h : History) : List Nat := h.filterMap (·.2.overflowed?)

/-- What the server, with settings `cfg`, may record after the history `p`. -/
def Event.Fits (cfg : TransportConfig) (p : History) : Event → Prop
  | .dispatched _ rec .undecodable => ∀ env, Envelope.decode Request.reader rec.value ≠ .ok env
  | .dispatched _ rec .duplicate => ∃ env, Envelope.decode Request.reader rec.value = .ok env ∧
      env.requestId ∈ (pendingOf p).map (·.id)
  | .dispatched _ rec (.admitted e) => ∃ env, Envelope.decode Request.reader rec.value = .ok env ∧
      e.id = env.requestId ∧ e.responseTopic = env.responseTopic.getD cfg.responsesTopic ∧
      e.id ∉ (pendingOf p).map (·.id) ∧ e.result ∉ (admittedOf p).map (·.result)
  | .dispatched _ rec .dropped => ∃ env, Envelope.decode Request.reader rec.value = .ok env
  | .answered e s topic key value _ => e ∈ pendingOf p ∧ topic = e.responseTopic ∧
      key = some e.id.display ∧
      value = Envelope.encode Response.toValue (Envelope.response e.id s.response 0) ∧
      ∀ r, s = .completed r → ∃ t, (t, .returned e.result r) ∈ p
  | .cleared es => es = pendingOf p
  | .returned c _ => c ∈ (pendingOf p).map (·.result) ∧ ∀ t r, (t, .returned c r) ∉ p
  | _ => True

/-- Every event of the history fits the history before it. -/
def Fitting (cfg : TransportConfig) (h : History) : Prop :=
  ∀ p n s, h = p ++ n :: s → n.2.Fits cfg p

section Replay

variable {h : History} {n : Nat × Event}

@[simp] theorem pendingOf_nil : pendingOf [] = [] := rfl

@[simp] theorem pendingOf_append_singleton : pendingOf (h ++ [n]) = n.2.replay (pendingOf h) := by
  simp [pendingOf]

@[simp] theorem admittedOf_append_singleton :
    admittedOf (h ++ [n]) = admittedOf h ++ n.2.admitted?.toList := by
  simp only [admittedOf, List.filterMap_append, List.filterMap_cons, List.filterMap_nil]
  cases n.2.admitted? <;> rfl

@[simp] theorem answeredOf_append_singleton :
    answeredOf (h ++ [n]) = answeredOf h ++ n.2.answered?.toList := by
  simp only [answeredOf, List.filterMap_append, List.filterMap_cons, List.filterMap_nil]
  cases n.2.answered? <;> rfl

@[simp] theorem overflowsOf_append_singleton :
    overflowsOf (h ++ [n]) = overflowsOf h ++ n.2.overflowed?.toList := by
  simp only [overflowsOf, List.filterMap_append, List.filterMap_cons, List.filterMap_nil]
  cases n.2.overflowed? <;> rfl

end Replay

section Fitting

variable {cfg : TransportConfig} {h : History} {n : Nat × Event}

theorem fitting_nil : Fitting cfg [] := by
  intro p n s hs
  simp at hs

/-- A history extended by one event fits exactly when the history fits and the event
fits it. -/
theorem fitting_append_singleton :
    Fitting cfg (h ++ [n]) ↔ Fitting cfg h ∧ n.2.Fits cfg h := by
  constructor
  · intro hf
    refine ⟨fun p m s hs => hf p m (s ++ [n]) (by simp [hs]), hf h n [] rfl⟩
  · rintro ⟨hf, hn⟩ p m s hs
    -- The event `m` is either an event of `h` or the new one.
    rcases s.eq_nil_or_concat with rfl | ⟨s', k, rfl⟩
    · have hpm : h = p ∧ n = m := by simpa using hs
      obtain ⟨rfl, rfl⟩ := hpm
      exact hn
    · have hpm : h = p ++ m :: s' := by
        have : h ++ [n] = (p ++ m :: s') ++ [k] := by simpa using hs
        exact (List.append_inj' this rfl).1
      exact hf p m s' hpm

/-- A fitting history stays fitting when cut short. -/
theorem Fitting.of_append {s : History} (hf : Fitting cfg (h ++ s)) : Fitting cfg h :=
  fun p m s' hs => hf p m (s' ++ s) (by simp [hs])

end Fitting

/-- What a fitting history says of the requests it put in flight. -/
structure Settles (h : History) : Prop where
  /-- Every admission has its own channel. -/
  channels : ((admittedOf h).map (·.result)).Nodup
  /-- The entries in flight are admitted ones, in the order of their admission. -/
  pending_sublist : (pendingOf h).Sublist (admittedOf h)
  /-- No two entries in flight carry one identifier. -/
  pending_ids : ((pendingOf h).map (·.id)).Nodup
  /-- An entry in flight is not answered yet. -/
  pending_unanswered : ∀ e ∈ pendingOf h, e.result ∉ (answeredOf h).map (·.result)
  /-- Every answered entry was admitted. -/
  answered_admitted : ∀ e ∈ answeredOf h, e ∈ admittedOf h
  /-- No channel is answered twice. -/
  answers : ((answeredOf h).map (·.result)).Nodup

namespace Settles

variable {cfg : TransportConfig} {h : History}

theorem nil : Settles [] :=
  ⟨by simp [admittedOf], by simp [admittedOf], by simp, by simp, by simp [answeredOf],
    by simp [answeredOf]⟩

/-- The channels of the entries in flight are pairwise different. -/
theorem pending_channels (hs : Settles h) : ((pendingOf h).map (·.result)).Nodup :=
  hs.channels.sublist (hs.pending_sublist.map _)

/-- Two entries in flight with one identifier are the same entry. -/
theorem pending_eq_of_id (hs : Settles h) {e e' : InFlight} (he : e ∈ pendingOf h)
    (he' : e' ∈ pendingOf h) (hid : e.id = e'.id) : e = e' :=
  List.inj_on_of_nodup_map hs.pending_ids he he' hid

/-- An admission keeps the history settled. -/
theorem push_admitted (hs : Settles h) (t : Nat) (task : Nat) (rec : BusRecord) (e : InFlight)
    (hid : e.id ∉ (pendingOf h).map (·.id)) (hch : e.result ∉ (admittedOf h).map (·.result)) :
    Settles (h ++ [(t, .dispatched task rec (.admitted e))]) := by
  -- Answered channels are admitted ones, so the new channel is not answered either.
  have hnew : e.result ∉ (answeredOf h).map (·.result) := by
    intro hmem
    obtain ⟨a, ha, hae⟩ := List.mem_map.1 hmem
    exact hch (List.mem_map.2 ⟨a, hs.answered_admitted a ha, hae⟩)
  refine ⟨?_, ?_, ?_, ?_, ?_, ?_⟩
  · simpa [Event.admitted?, List.nodup_append] using
      And.intro hs.channels (by simpa using hch)
  · simpa [Event.replay, Event.admitted?] using hs.pending_sublist.append (List.Sublist.refl [e])
  · simpa [Event.replay, List.nodup_append] using And.intro hs.pending_ids (by simpa using hid)
  · intro e' he'
    simp only [pendingOf_append_singleton, Event.replay, List.mem_append,
      List.mem_singleton] at he'
    simp only [answeredOf_append_singleton, Event.answered?, Option.toList_none, List.append_nil]
    rcases he' with he' | rfl
    · exact hs.pending_unanswered e' he'
    · exact hnew
  · intro a ha
    simp only [answeredOf_append_singleton, Event.answered?, Option.toList_none,
      List.append_nil] at ha
    simpa using Or.inl (hs.answered_admitted a ha)
  · simpa [Event.answered?] using hs.answers

/-- An answer to an entry in flight keeps the history settled. -/
theorem answer (hs : Settles h) (t : Nat) (e : InFlight) (s : Settled) (topic : String)
    (key : Option String) (value : List UInt8) (sent : Bool) (he : e ∈ pendingOf h) :
    Settles (h ++ [(t, .answered e s topic key value sent)]) := by
  have hpend := hs.pending_channels
  refine ⟨?_, ?_, ?_, ?_, ?_, ?_⟩
  · simpa [Event.admitted?] using hs.channels
  · simpa [Event.replay, Event.admitted?] using (List.filter_sublist).trans hs.pending_sublist
  · simpa [Event.replay] using hs.pending_ids.sublist ((List.filter_sublist).map _)
  · intro e' he'
    simp only [pendingOf_append_singleton, Event.replay, List.mem_filter, bne_iff_ne, ne_eq] at he'
    obtain ⟨he', hne⟩ := he'
    simp only [answeredOf_append_singleton, Event.answered?, Option.toList_some,
      List.map_append, List.map_cons, List.map_nil, List.mem_append, List.mem_singleton,
      not_or]
    refine ⟨hs.pending_unanswered e' he', fun hres => hne ?_⟩
    -- Two entries in flight on one channel are one entry.
    rw [List.inj_on_of_nodup_map hpend he' he hres]
  · intro a ha
    simp only [answeredOf_append_singleton, Event.answered?, Option.toList_some,
      List.mem_append, List.mem_singleton] at ha
    simp only [admittedOf_append_singleton, Event.admitted?, Option.toList_none, List.append_nil]
    rcases ha with ha | rfl
    · exact hs.answered_admitted a ha
    · exact hs.pending_sublist.subset he
  · simpa [Event.answered?, List.nodup_append] using
      And.intro hs.answers (by simpa using hs.pending_unanswered e he)

/-- Clearing the table keeps the history settled. -/
theorem clear (hs : Settles h) (t : Nat) (es : List InFlight) :
    Settles (h ++ [(t, .cleared es)]) :=
  ⟨by simpa [Event.admitted?] using hs.channels, by simp [Event.replay],
    by simp [Event.replay], by simp [Event.replay],
    by simpa [Event.answered?, Event.admitted?] using hs.answered_admitted,
    by simpa [Event.answered?] using hs.answers⟩

/-- An event that neither admits, answers nor clears keeps the history settled. -/
theorem keep (hs : Settles h) (n : Nat × Event) (hr : ∀ p, n.2.replay p = p)
    (ha : n.2.admitted? = none) (hw : n.2.answered? = none) : Settles (h ++ [n]) :=
  ⟨by simpa [ha] using hs.channels, by simpa [hr, ha] using hs.pending_sublist,
    by simpa [hr] using hs.pending_ids, by simpa [hr, hw] using hs.pending_unanswered,
    by simpa [ha, hw] using hs.answered_admitted, by simpa [hw] using hs.answers⟩

end Settles

variable {cfg : TransportConfig} {h : History}

/-- A fitting history is settled. -/
theorem Fitting.settles (hf : Fitting cfg h) : Settles h := by
  induction h using List.reverseRecOn with
  | nil => exact Settles.nil
  | append_singleton h n ih =>
    obtain ⟨hf, hn⟩ := fitting_append_singleton.1 hf
    have hs := ih hf
    obtain ⟨t, ev⟩ := n
    cases ev with
    | dispatched task rec adm =>
      cases adm with
      | admitted e =>
        obtain ⟨env, -, -, -, hid, hch⟩ := hn
        exact hs.push_admitted t task rec e hid hch
      | undecodable => exact hs.keep _ (fun _ => rfl) rfl rfl
      | duplicate => exact hs.keep _ (fun _ => rfl) rfl rfl
      | dropped => exact hs.keep _ (fun _ => rfl) rfl rfl
      | overflowed => exact hs.keep _ (fun _ => rfl) rfl rfl
    | answered e s topic key value sent => exact hs.answer t e s topic key value sent hn.1
    | cleared es => exact hs.clear t es
    | consuming => exact hs.keep _ (fun _ => rfl) rfl rfl
    | took => exact hs.keep _ (fun _ => rfl) rfl rfl
    | committed => exact hs.keep _ (fun _ => rfl) rfl rfl
    | returned => exact hs.keep _ (fun _ => rfl) rfl rfl
    | requested => exact hs.keep _ (fun _ => rfl) rfl rfl
    | delivered => exact hs.keep _ (fun _ => rfl) rfl rfl
    | concluded => exact hs.keep _ (fun _ => rfl) rfl rfl
    | sent => exact hs.keep _ (fun _ => rfl) rfl rfl

/-- An event of a fitting history fits the history before it. -/
theorem Fitting.fits_of_mem (hf : Fitting cfg h) {n : Nat × Event} (hn : n ∈ h) :
    ∃ p s, h = p ++ n :: s ∧ n.2.Fits cfg p := by
  obtain ⟨p, s, hps⟩ := List.append_of_mem hn
  exact ⟨p, s, hps, hf p n s hps⟩

/-- An admitted entry is admitted by a recorded dispatch. -/
theorem mem_admittedOf {e : InFlight} :
    e ∈ admittedOf h ↔ ∃ t task rec, (t, .dispatched task rec (.admitted e)) ∈ h := by
  constructor
  · intro he
    obtain ⟨⟨t, ev⟩, hn, hev⟩ := List.mem_filterMap.1 he
    cases ev with
    | dispatched task rec adm =>
      cases adm with
      | admitted e' =>
        cases hev
        exact ⟨t, task, rec, hn⟩
      | _ => cases hev
    | _ => cases hev
  · rintro ⟨t, task, rec, hn⟩
    exact List.mem_filterMap.2 ⟨_, hn, rfl⟩

/-- Every answer in a fitting history follows the admission of the entry it answers,
which came from a readable request: it goes to the request's topic (or the default
one), keyed by the request's identifier, and carries what the handler returned or the
empty answer. -/
theorem Fitting.answer_follows_admission (hf : Fitting cfg h) {t : Nat} {e : InFlight}
    {s : Settled} {topic : String} {key : Option String} {value : List UInt8} {sent : Bool}
    (hn : (t, .answered e s topic key value sent) ∈ h) :
    ∃ t' task rec env,
      [(t', .dispatched task rec (.admitted e)), (t, .answered e s topic key value sent)].Sublist h ∧
      Envelope.decode Request.reader rec.value = .ok env ∧ e.id = env.requestId ∧
      topic = env.responseTopic.getD cfg.responsesTopic ∧ key = some env.requestId.display ∧
      value = Envelope.encode Response.toValue (Envelope.response env.requestId s.response 0) ∧
      (s.response = Response.empty ∨ ∃ t'', (t'', .returned e.result s.response) ∈ h) := by
  obtain ⟨p, rest, rfl, hfit⟩ := hf.fits_of_mem hn
  obtain ⟨hpend, htopic, hkey, hvalue, hret⟩ := hfit
  -- The entry in flight was admitted earlier in `p`.
  have hadm : e ∈ admittedOf p := (Fitting.settles hf.of_append).pending_sublist.subset hpend
  obtain ⟨t', task, rec, hmem⟩ := mem_admittedOf.1 hadm
  obtain ⟨q, _, hq, env, hdec, hid, hrt, -, -⟩ := hf.of_append.fits_of_mem hmem
  refine ⟨t', task, rec, env, ?_, hdec, hid, ?_, ?_, ?_, ?_⟩
  · exact List.Sublist.append (List.singleton_sublist.2 hmem) (by simp)
  · rw [htopic, hrt]
  · rw [hkey, hid]
  · rw [hvalue, hid]
  · cases s with
    | completed r =>
      obtain ⟨t'', hr⟩ := hret r rfl
      exact Or.inr ⟨t'', List.mem_append_left _ hr⟩
    | timedOut => exact Or.inl rfl
    | failed => exact Or.inl rfl

end TokenGate
