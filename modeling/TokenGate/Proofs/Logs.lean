import Mathlib
import TokenGate.Bus.Broker
/-!
# `TokenGate.Proofs.Logs`: the partition logs of a broker

A broker's state is a list of topics, each an array of partition logs that keep the
newest `retention` records of an append-only log whose offsets never restart. This
module states what every sequence of operations keeps true of them.

* `Broker.Op`, `Broker.run` and `Broker.receipts`: the operations a caller makes (send,
  topic creation, partition counts, opening consumers, polling, committing, closing),
  the broker after a sequence of them, and the metadata of the sends that succeeded.
* `PartitionLog.Sound`, `Topic.Sound` and `Broker.Sound`: a log's kept records carry
  the consecutive offsets from its start to its end under their own topic and
  partition, and it keeps `min end retention` of them; a topic has at least one
  partition; topic names are distinct, and the broker's count of published records is
  the sum of all ends.
* `Broker.step_cases`: an operation either appends one record through a successful
  send or at most makes sure a topic exists. Each invariant is proved once per case
  (`Sound.step`, `Sound.endOffset_step`, `Sound.topic?_step`) and lifted along runs.
* `Broker.run_partitionLogs`: the laws of the logs along every run of a broker made by
  `withRetention`, and of the send that may come next.
-/

set_option autoImplicit false

namespace TokenGate

/-- A sum over a list changed at one place changes by the difference there. -/
theorem sum_map_set_add {α : Type} (f : α → Nat) (l : List α) (i : Nat) (a : α)
    (hi : i < l.length) : ((l.set i a).map f).sum + f l[i] = (l.map f).sum + f a := by
  induction l generalizing i with
  | nil => simp at hi
  | cons b l ih =>
    cases i with
    | zero => simp; omega
    | succ i =>
      have := ih i (by simpa using hi)
      simp only [List.set_cons_succ, List.map_cons, List.sum_cons, List.getElem_cons_succ]
      omega

namespace PartitionLog

/-- The log of partition `p` of `topic` under a retention bound: its kept records carry
the offsets from `base` up to its end, in order, each stored under its own topic and
partition, and it keeps the newest `retention` records. -/
structure Sound (topic : String) (p retention : Nat) (log : PartitionLog) : Prop where
  offsets : log.records.map (·.offset) = List.range' log.base log.records.length
  placed : ∀ r ∈ log.records, r.topic = topic ∧ r.partition = p
  kept : log.records.length = min log.endOffset retention

variable {log : PartitionLog} {topic : String} {p retention : Nat}

theorem sound_empty : (⟨0, []⟩ : PartitionLog).Sound topic p retention :=
  ⟨rfl, by simp, by simp [endOffset]⟩

theorem endOffset_append (r : BusRecord) (hr : 0 < retention) :
    (log.append retention r).endOffset = log.endOffset + 1 := by
  simp only [append, truncate, endOffset, List.length_drop, List.length_append,
    List.length_singleton]
  omega

/-- Appending the record of the next offset keeps a log sound. -/
theorem Sound.append (h : log.Sound topic p retention) (hr : 0 < retention)
    (key : Option String) (value : List UInt8) :
    (log.append retention ⟨topic, p, log.endOffset, key, value⟩).Sound topic p retention := by
  -- The appended list carries the offsets `base .. end`; truncation drops a prefix.
  have hoff : (log.records ++ [(⟨topic, p, log.endOffset, key, value⟩ : BusRecord)]).map
      (·.offset) = List.range' log.base (log.records.length + 1) := by
    rw [List.map_append, h.offsets, List.range'_concat]
    simp [endOffset]
  have hkept := h.kept
  refine ⟨?_, ?_, ?_⟩
  · simp only [PartitionLog.append, truncate, List.map_drop, hoff, List.drop_range',
      List.length_drop, List.length_append, List.length_singleton]
    congr 1
    omega
  · intro r hr'
    simp only [PartitionLog.append, truncate] at hr'
    rcases List.mem_append.1 (List.mem_of_mem_drop hr') with hr' | hr'
    · exact h.placed r hr'
    · simp only [List.mem_singleton] at hr'
      subst hr'
      exact ⟨rfl, rfl⟩
  · rw [endOffset_append _ hr]
    simp only [PartitionLog.append, truncate, List.length_drop, List.length_append,
      List.length_singleton]
    simp only [endOffset] at hkept ⊢
    omega

/-- The oldest kept offset is the end less what is kept. -/
theorem Sound.base_eq (h : log.Sound topic p retention) :
    log.base = log.endOffset - min log.endOffset retention := by
  have := h.kept
  simp only [endOffset] at this ⊢
  omega

end PartitionLog

namespace Topic

/-- A topic has at least one partition, and each is sound under the retention bound. -/
structure Sound (retention : Nat) (t : Topic) : Prop where
  nonempty : 0 < t.partitions.size
  logs : ∀ p (hp : p < t.partitions.size), t.partitions[p].Sound t.name p retention

/-- The records a topic has taken: the sum of its partitions' end offsets. -/
def total (t : Topic) : Nat := (t.partitions.toList.map PartitionLog.endOffset).sum

theorem sound_fresh (retention : Nat) (name : String) (n : Nat) :
    (fresh name n).Sound retention :=
  ⟨by simp only [fresh, Array.size_replicate]; omega,
    fun p hp => by simpa [fresh] using PartitionLog.sound_empty⟩

@[simp] theorem total_fresh (name : String) (n : Nat) : (fresh name n).total = 0 := by
  simp [total, fresh, PartitionLog.endOffset]

@[simp] theorem partitionFor_partitions (t : Topic) (key : Option String) :
    (Broker.partitionFor t key).2.partitions = t.partitions := by
  cases key <;> rfl

@[simp] theorem partitionFor_name (t : Topic) (key : Option String) :
    (Broker.partitionFor t key).2.name = t.name := by
  cases key <;> rfl

/-- Routing picks one of the topic's partitions. -/
theorem partitionFor_lt (t : Topic) (key : Option String) (h : 0 < t.partitions.size) :
    (Broker.partitionFor t key).1 < t.partitions.size := by
  cases key with
  | some k => exact Nat.mod_lt _ h
  | none => exact Nat.mod_lt _ h

/-- A topic with the record of the next offset appended to its partition `p`. -/
def appendAt (t : Topic) (p retention : Nat) (key : Option String) (value : List UInt8)
    (nextUnkeyed : Nat) : Topic :=
  ⟨t.name, t.partitions.set! p ((t.partitions.getD p ⟨0, []⟩).append retention
    ⟨t.name, p, (t.partitions.getD p ⟨0, []⟩).endOffset, key, value⟩), nextUnkeyed⟩

variable {t : Topic} {p retention : Nat} {key : Option String} {value : List UInt8} {nu : Nat}

@[simp] theorem appendAt_name : (t.appendAt p retention key value nu).name = t.name := rfl

@[simp] theorem appendAt_size :
    (t.appendAt p retention key value nu).partitions.size = t.partitions.size := by
  simp [appendAt]

/-- The partitions of a topic after an append at `p`: `p` grew by one record, the others
are as they were. -/
theorem appendAt_getElem? (q : Nat) (hp : p < t.partitions.size) :
    (t.appendAt p retention key value nu).partitions[q]? =
      if q = p then some (t.partitions[p].append retention
        ⟨t.name, p, t.partitions[p].endOffset, key, value⟩) else t.partitions[q]? := by
  simp only [appendAt, Array.set!_eq_setIfInBounds, Array.getElem?_setIfInBounds,
    Array.getD_eq_getD_getElem?, Array.getElem?_eq_getElem hp, Option.getD_some]
  split <;> simp_all [eq_comm]

/-- Appending at a partition of a sound topic keeps it sound. -/
theorem Sound.appendAt (h : t.Sound retention) (hr : 0 < retention)
    (hp : p < t.partitions.size) :
    (t.appendAt p retention key value nu).Sound retention := by
  refine ⟨by simpa using h.nonempty, fun q hq => ?_⟩
  have hq' : q < t.partitions.size := by simpa using hq
  have hget : (t.appendAt p retention key value nu).partitions[q]? = _ := appendAt_getElem? q hp
  rw [Array.getElem?_eq_getElem hq] at hget
  by_cases hqp : q = p
  · subst hqp
    simp only [if_true, Option.some.injEq] at hget
    rw [hget]
    exact (h.logs q hp).append hr key value
  · simp only [hqp, if_false, Array.getElem?_eq_getElem hq', Option.some.injEq] at hget
    rw [hget]
    exact h.logs q hq'

/-- Appending at a partition adds one record to the topic's total. -/
theorem total_appendAt (hr : 0 < retention) (hp : p < t.partitions.size) :
    (t.appendAt p retention key value nu).total = t.total + 1 := by
  have hget : t.partitions.getD p ⟨0, []⟩ = t.partitions[p] := by
    rw [Array.getD_eq_getD_getElem?, Array.getElem?_eq_getElem hp, Option.getD_some]
  have hsum := sum_map_set_add PartitionLog.endOffset t.partitions.toList p
    (t.partitions[p].append retention ⟨t.name, p, t.partitions[p].endOffset, key, value⟩)
    (by simpa using hp)
  rw [PartitionLog.endOffset_append _ hr] at hsum
  simp only [Array.getElem_toList] at hsum
  simp only [total, appendAt, hget, Array.set!_eq_setIfInBounds, Array.toList_setIfInBounds]
  omega

end Topic

namespace Broker

theorem createTopic_eq (b : Broker) (name : String) (n : Nat) :
    b.createTopic name n =
      if (b.topic? name).isSome then b
      else { b with topics := b.topics ++ [Topic.fresh name n] } :=
  rfl

/-- The records the broker's partitions have taken: the sum of all end offsets. -/
def totalEnd (b : Broker) : Nat := (b.topics.map Topic.total).sum

/-- A sound broker: its topics have distinct names and sound partitions under its
retention bound, and it has counted every record its partitions took. -/
structure Sound (b : Broker) : Prop where
  retention_pos : 0 < b.retention
  names : (b.topics.map (·.name)).Nodup
  topics : ∀ t ∈ b.topics, t.Sound b.retention
  published : b.published = b.totalEnd

variable {b : Broker} {name : String}

theorem topic?_mem {t : Topic} (h : b.topic? name = some t) :
    t ∈ b.topics ∧ t.name = name := by
  unfold topic? at h
  exact ⟨List.mem_of_find?_eq_some h, by simpa using List.find?_some h⟩

theorem topic?_eq_none : b.topic? name = none ↔ ∀ t ∈ b.topics, t.name ≠ name := by
  simp [topic?, List.find?_eq_none]

/-- The topic of a name in a broker with one more topic at the end. -/
theorem topic?_snoc (t : Topic) (name' : String) :
    ({ b with topics := b.topics ++ [t] } : Broker).topic? name' =
      (b.topic? name').or (if t.name = name' then some t else none) := by
  simp only [topic?, List.find?_append, List.find?_cons, List.find?_nil]
  split <;> simp_all

@[simp] theorem createTopic_retention (n : Nat) :
    (b.createTopic name n).retention = b.retention := by
  rw [createTopic_eq]; split <;> rfl
@[simp] theorem createTopic_published (n : Nat) :
    (b.createTopic name n).published = b.published := by
  rw [createTopic_eq]; split <;> rfl
@[simp] theorem createTopic_closed (n : Nat) : (b.createTopic name n).closed = b.closed := by
  rw [createTopic_eq]; split <;> rfl
@[simp] theorem createTopic_defaultPartitions (n : Nat) :
    (b.createTopic name n).defaultPartitions = b.defaultPartitions := by
  rw [createTopic_eq]; split <;> rfl

/-- Making sure a topic exists keeps every topic there as it was. -/
theorem topic?_createTopic_of_some {t : Topic} (n : Nat) {name' : String}
    (h : b.topic? name' = some t) : (b.createTopic name n).topic? name' = some t := by
  rw [createTopic_eq]
  split
  · exact h
  · rw [topic?_snoc, h]
    rfl

/-- After making sure a topic exists, it does. -/
theorem topic?_createTopic_self (n : Nat) :
    ∃ t, (b.createTopic name n).topic? name = some t := by
  rw [createTopic_eq]
  split
  · exact Option.isSome_iff_exists.1 ‹_›
  · next hn =>
    rw [topic?_snoc, Option.not_isSome_iff_eq_none.1 hn]
    exact ⟨Topic.fresh name n, by simp [Topic.fresh]⟩

/-- Making sure a topic exists keeps a broker sound. -/
theorem Sound.createTopic (h : b.Sound) (name : String) (n : Nat) :
    (b.createTopic name n).Sound := by
  rw [createTopic_eq]
  split
  · exact h
  · next hn =>
    have hnone := topic?_eq_none.1 (Option.not_isSome_iff_eq_none.1 hn)
    refine ⟨h.retention_pos, ?_, ?_, ?_⟩
    · rw [List.map_append, List.nodup_append]
      refine ⟨h.names, by simp, ?_⟩
      intro a ha c hc
      obtain ⟨t, ht, rfl⟩ := List.mem_map.1 ha
      simp only [List.map_cons, List.map_nil, List.mem_singleton] at hc
      subst hc
      exact hnone t ht
    · intro t ht
      rcases List.mem_append.1 ht with ht | ht
      · exact h.topics t ht
      · rw [List.mem_singleton.1 ht]
        exact Topic.sound_fresh _ _ _
    · simp [totalEnd, h.published]

theorem endOffset_of_topic? {t : Topic} (h : b.topic? name = some t) (p : Nat) :
    b.endOffset name p = (t.partitions[p]?.map PartitionLog.endOffset).getD 0 := by
  simp [endOffset, log?, h]

theorem startOffset_of_topic? {t : Topic} (h : b.topic? name = some t) (p : Nat) :
    b.startOffset name p = (t.partitions[p]?.map PartitionLog.base).getD 0 := by
  simp [startOffset, log?, h]

theorem endOffset_of_none (h : b.topic? name = none) (p : Nat) : b.endOffset name p = 0 := by
  simp [endOffset, log?, h]

theorem startOffset_of_none (h : b.topic? name = none) (p : Nat) :
    b.startOffset name p = 0 := by
  simp [startOffset, log?, h]

/-- Making sure a topic exists changes no offset. -/
theorem endOffset_createTopic (n : Nat) (name' : String) (p : Nat) :
    (b.createTopic name n).endOffset name' p = b.endOffset name' p := by
  rw [createTopic_eq]
  split
  · rfl
  cases ht : b.topic? name' with
  | some t => rw [endOffset_of_topic? ht, endOffset_of_topic? (by rw [topic?_snoc, ht]; rfl)]
  | none =>
    rw [endOffset_of_none ht]
    by_cases hname : name = name'
    · subst hname
      rw [endOffset_of_topic? (t := Topic.fresh name n) (by simp [topic?_snoc, ht, Topic.fresh])]
      simp only [Topic.fresh, Array.getElem?_replicate]
      split <;> rfl
    · exact endOffset_of_none (by simp [topic?_snoc, ht, Topic.fresh, hname]) p

/-- A successful send made sure its topic exists (giving `c`), routed the record to a
partition of the topic, and appended the record at that partition's end. -/
theorem send_ok {topic : String} {key : Option String} {value : List UInt8}
    {m : RecordMetadata} {b' : Broker} (h : b.send topic key value = .ok (m, b')) :
    b.closed = false ∧ ∃ (c : Broker) (t₀ : Topic) (nu : Nat),
      c = b.createTopic topic b.defaultPartitions ∧ c.topic? topic = some t₀ ∧
      (partitionFor t₀ key).1 = m.partition ∧ m.topic = topic ∧
      m.offset = (t₀.partitions.getD m.partition ⟨0, []⟩).endOffset ∧
      b' = { c.updateTopic topic (fun _ => t₀.appendAt m.partition c.retention key value nu) with
        published := c.published + 1 } := by
  unfold send at h
  split at h
  · cases h
  next hclosed =>
  extract_lets c at h
  split at h
  · cases h
  next t₀ ht₀ =>
  have hname := (topic?_mem ht₀).2
  rcases hpf : partitionFor t₀ key with ⟨p, t₁⟩
  have hparts : t₁.partitions = t₀.partitions := by
    simpa [hpf] using Topic.partitionFor_partitions t₀ key
  have hname₁ : t₁.name = t₀.name := by simpa [hpf] using Topic.partitionFor_name t₀ key
  rw [hpf] at h
  simp only [Except.ok.injEq, Prod.mk.injEq] at h
  obtain ⟨rfl, rfl⟩ := h
  refine ⟨by simpa using hclosed, c, t₀, t₁.nextUnkeyed, rfl, ht₀, by simp [hpf], rfl,
    by simp [hparts], ?_⟩
  simp only [Topic.appendAt, hparts, hname₁, hname]

/-- Replacing the topics of a name changes what that name finds, and nothing else. -/
theorem topic?_updateTopic (f : Topic → Topic) (hf : ∀ t, t.name = name → (f t).name = name)
    (name' : String) :
    (b.updateTopic name f).topic? name' =
      (b.topic? name').map fun t => if t.name == name then f t else t := by
  unfold updateTopic topic?
  rw [List.find?_map]
  congr 2
  funext t
  simp only [Function.comp_apply]
  split <;> simp_all

/-- Replacing the one topic of a name changes the sum of end offsets by the difference
between the two topics. -/
theorem sum_total_replace {l : List Topic} {t₀ : Topic} (t₂ : Topic)
    (hnd : (l.map (·.name)).Nodup) (h₀ : t₀ ∈ l) :
    ((l.map fun t => if t.name == t₀.name then t₂ else t).map Topic.total).sum + t₀.total =
      (l.map Topic.total).sum + t₂.total := by
  induction l with
  | nil => simp at h₀
  | cons a l ih =>
    rw [List.map_cons, List.nodup_cons] at hnd
    obtain ⟨ha, hnd⟩ := hnd
    by_cases han : a.name = t₀.name
    · -- `a` is `t₀`, and no other topic carries its name.
      have hrest : ∀ t ∈ l, t.name ≠ t₀.name := fun t ht h =>
        ha (han ▸ h ▸ List.mem_map_of_mem ht)
      have hkeep : l.map (fun t => if t.name == t₀.name then t₂ else t) = l := by
        rw [List.map_congr_left (g := id) (fun t ht => by simp [hrest t ht]), List.map_id]
      have ha₀ : a = t₀ := by
        rcases List.mem_cons.1 h₀ with h | h
        · exact h.symm
        · exact absurd rfl (hrest t₀ h)
      subst ha₀
      simp only [List.map_cons, List.sum_cons, beq_self_eq_true, if_true, hkeep]
      omega
    · have h₀' : t₀ ∈ l := by
        rcases List.mem_cons.1 h₀ with h | h
        · exact absurd (h ▸ rfl) han
        · exact h
      have := ih hnd h₀'
      have hne : (a.name == t₀.name) = false := by simpa using han
      simp only [List.map_cons, List.sum_cons, hne, Bool.false_eq_true, if_false]
      omega

@[simp] theorem topic?_setPublished (n : Nat) :
    ({ b with published := n } : Broker).topic? name = b.topic? name := rfl

section Send

variable {topic : String} {key : Option String} {value : List UInt8} {m : RecordMetadata}
  {b' : Broker}

/-- What a successful send on a sound broker used: a sound topic named `topic`, and one
of its partitions. -/
theorem Sound.send_target (hs : b.Sound) {c : Broker} {t₀ : Topic}
    (hc : c = b.createTopic topic b.defaultPartitions) (ht₀ : c.topic? topic = some t₀) :
    c.Sound ∧ t₀ ∈ c.topics ∧ t₀.name = topic ∧ t₀.Sound c.retention := by
  subst hc
  have hc := hs.createTopic topic b.defaultPartitions
  obtain ⟨hmem, hname⟩ := topic?_mem ht₀
  exact ⟨hc, hmem, hname, hc.topics t₀ hmem⟩

/-- A successful send keeps a sound broker sound. -/
theorem Sound.send (hs : b.Sound) (h : b.send topic key value = .ok (m, b')) : b'.Sound := by
  obtain ⟨-, c, t₀, nu, hc, ht₀, hp, -, -, rfl⟩ := send_ok h
  obtain ⟨hc, hmem, hname, ht₀s⟩ := hs.send_target hc ht₀
  have hlt : m.partition < t₀.partitions.size :=
    hp ▸ Topic.partitionFor_lt t₀ key ht₀s.nonempty
  -- The new topic replaces `t₀` and keeps its name.
  have hrep (t : Topic) :
      (if t.name == topic then t₀.appendAt m.partition c.retention key value nu else t).name =
        t.name := by
    split <;> simp_all
  refine ⟨hc.retention_pos, ?_, ?_, ?_⟩
  · show ((c.updateTopic topic _).topics.map (·.name)).Nodup
    simp only [updateTopic, List.map_map, Function.comp_def, hrep]
    exact hc.names
  · intro t ht
    obtain ⟨t', ht', rfl⟩ := List.mem_map.1 ht
    split
    · exact ht₀s.appendAt hc.retention_pos hlt
    · exact hc.topics t' ht'
  · have hsum :=
      sum_total_replace (t₀.appendAt m.partition c.retention key value nu) hc.names hmem
    rw [Topic.total_appendAt hc.retention_pos hlt, hname] at hsum
    simp only [totalEnd, updateTopic, hc.published] at hsum ⊢
    omega

/-- A send returns the offset its partition ended at before the send. -/
theorem Sound.send_offset (hs : b.Sound) (h : b.send topic key value = .ok (m, b')) :
    m.topic = topic ∧ m.offset = b.endOffset topic m.partition := by
  obtain ⟨-, c, t₀, nu, hc, ht₀, hp, htopic, hoff, rfl⟩ := send_ok h
  obtain ⟨-, -, -, ht₀s⟩ := hs.send_target hc ht₀
  have hlt : m.partition < t₀.partitions.size :=
    hp ▸ Topic.partitionFor_lt t₀ key ht₀s.nonempty
  subst hc
  refine ⟨htopic, ?_⟩
  rw [← @endOffset_createTopic b topic b.defaultPartitions, endOffset_of_topic? ht₀,
    hoff,
    Array.getD_eq_getD_getElem?, Array.getElem?_eq_getElem hlt]
  rfl

/-- A send moves the end of the partition it used by one, and no other end. -/
theorem Sound.send_endOffset (hs : b.Sound) (h : b.send topic key value = .ok (m, b'))
    (name' : String) (q : Nat) :
    b'.endOffset name' q =
      b.endOffset name' q + if name' = topic ∧ q = m.partition then 1 else 0 := by
  obtain ⟨-, c, t₀, nu, hc, ht₀, hp, -, -, rfl⟩ := send_ok h
  obtain ⟨-, -, hname, ht₀s⟩ := hs.send_target hc ht₀
  have hlt : m.partition < t₀.partitions.size :=
    hp ▸ Topic.partitionFor_lt t₀ key ht₀s.nonempty
  subst hc
  rw [← @endOffset_createTopic b topic b.defaultPartitions name' q]
  have hf : ∀ t : Topic, t.name = topic →
      (t₀.appendAt m.partition (b.createTopic topic b.defaultPartitions).retention key value
        nu).name = topic := fun _ _ => by simp [hname]
  by_cases hn : name' = topic
  · subst hn
    have ht₂ := topic?_updateTopic (b := b.createTopic name' b.defaultPartitions) _ hf name'
    rw [ht₀] at ht₂
    simp only [Option.map_some, hname, beq_self_eq_true, if_true] at ht₂
    rw [endOffset_of_topic? ((topic?_setPublished _).trans ht₂), endOffset_of_topic? ht₀,
      Topic.appendAt_getElem? q hlt]
    by_cases hq : q = m.partition
    · subst hq
      simp [Array.getElem?_eq_getElem hlt,
        PartitionLog.endOffset_append _ hs.retention_pos]
    · simp [hq]
  · have ht₂ := topic?_updateTopic (b := b.createTopic topic b.defaultPartitions) _ hf name'
    simp only [hn, false_and, if_false, Nat.add_zero]
    cases ht : (b.createTopic topic b.defaultPartitions).topic? name' with
    | none =>
      rw [ht, Option.map_none] at ht₂
      rw [endOffset_of_none ((topic?_setPublished _).trans ht₂), endOffset_of_none ht]
    | some t =>
      have htn : (t.name == topic) = false := by simpa [(topic?_mem ht).2] using hn
      rw [ht, Option.map_some, htn] at ht₂
      rw [endOffset_of_topic? ((topic?_setPublished _).trans ht₂), endOffset_of_topic? ht]
      rfl

/-- A send keeps the partition count of every topic. -/
theorem Sound.send_topic? (hs : b.Sound) (h : b.send topic key value = .ok (m, b'))
    {name' : String} {t : Topic} (ht : b.topic? name' = some t) :
    ∃ t', b'.topic? name' = some t' ∧ t'.partitions.size = t.partitions.size := by
  obtain ⟨-, c, t₀, nu, hc, ht₀, -, -, -, rfl⟩ := send_ok h
  obtain ⟨-, -, hname, -⟩ := hs.send_target hc ht₀
  subst hc
  have hf : ∀ t : Topic, t.name = topic →
      (t₀.appendAt m.partition (b.createTopic topic b.defaultPartitions).retention key value
        nu).name = topic := fun _ _ => by simp [hname]
  have ht₂ := topic?_updateTopic (b := b.createTopic topic b.defaultPartitions) _ hf name'
  rw [topic?_createTopic_of_some _ ht, Option.map_some] at ht₂
  refine ⟨_, (topic?_setPublished _).trans ht₂, ?_⟩
  split
  · next heq =>
    -- The topic found under `name'` is the one the send used.
    have hn : name' = topic := by simpa [(topic?_mem ht).2] using heq
    subst hn
    rw [topic?_createTopic_of_some _ ht] at ht₀
    cases ht₀
    simp
  · rfl

/-- A send keeps the retention bound. -/
theorem send_retention (h : b.send topic key value = .ok (m, b')) : b'.retention = b.retention := by
  obtain ⟨-, c, t₀, nu, rfl, -, -, -, -, rfl⟩ := send_ok h
  exact createTopic_retention _

end Send

section Frame

variable {b' : Broker}

/-- Two brokers with the same topics have the same offsets. -/
theorem endOffset_congr (ht : b'.topics = b.topics) (name' : String) (p : Nat) :
    b'.endOffset name' p = b.endOffset name' p := by
  simp [endOffset, log?, topic?, ht]

/-- A broker with the topics, count and retention of a sound broker is sound. -/
theorem Sound.congr (h : b.Sound) (ht : b'.topics = b.topics) (hp : b'.published = b.published)
    (hr : b'.retention = b.retention) : b'.Sound :=
  ⟨hr ▸ h.retention_pos, ht ▸ h.names, by rw [ht, hr]; exact h.topics,
    by rw [hp, h.published, totalEnd, totalEnd, ht]⟩

theorem createTopic_createTopic (n n' : Nat) :
    (b.createTopic name n).createTopic name n' = b.createTopic name n := by
  obtain ⟨t, ht⟩ := @topic?_createTopic_self b name n
  rw [createTopic_eq _ name n', ht]
  rfl

theorem consumer_snd (group : String) (p : Nat) :
    (b.consumer group name p).2 = b.createTopic name b.defaultPartitions := by
  unfold consumer
  rcases h : b.partitions name with ⟨count, b'⟩
  have hb' : b' = b.createTopic name b.defaultPartitions := (congrArg Prod.snd h).symm
  dsimp only
  split <;> exact hb'

/-- An opening of `consumers` after the topic exists leaves the broker as it is. -/
theorem openNext_snd (group : String) (r : Except BusError (List Consumer)) (p : Nat) :
    (openNext group name (r, b.createTopic name b.defaultPartitions) p).2 =
      b.createTopic name b.defaultPartitions := by
  unfold openNext
  cases r with
  | error e => rfl
  | ok cs =>
    dsimp only
    rcases h : (b.createTopic name b.defaultPartitions).consumer group name p with ⟨res, b'⟩
    have hb' : b' = b.createTopic name b.defaultPartitions := by
      have := congrArg Prod.snd h
      rw [consumer_snd, createTopic_defaultPartitions, createTopic_createTopic] at this
      exact this.symm
    cases res <;> exact hb'

/-- Opening the consumers of a topic only makes sure the topic exists. -/
theorem consumers_snd (group : String) :
    (b.consumers group name).2 = b.createTopic name b.defaultPartitions := by
  simp only [consumers, partitions]
  generalize List.range _ = ps
  -- Every opening finds the topic there already.
  suffices ∀ r : Except BusError (List Consumer),
      (ps.foldl (openNext group name) (r, b.createTopic name b.defaultPartitions)).2 =
        b.createTopic name b.defaultPartitions from this _
  induction ps with
  | nil => intro r; rfl
  | cons p ps ih =>
    intro r
    rw [List.foldl_cons, ← Prod.eta (openNext group name _ p), openNext_snd]
    exact ih _

end Frame

/-- An operation a caller makes on the broker. -/
inductive Op where
  | send (topic : String) (key : Option String) (value : List UInt8)
  | createTopic (topic : String) (partitions : Nat)
  | partitions (topic : String)
  | consumer (group topic : String) (partition : Nat)
  | consumers (group topic : String)
  | poll (consumer : Consumer) (max : Nat)
  | commit (consumer : Consumer)
  | close

/-- The receipt of a send that succeeded, and the broker after an operation. Polling
reads the broker without changing it; a failed send changes nothing. -/
def step (b : Broker) : Op → Option RecordMetadata × Broker
  | .send topic key value =>
    match b.send topic key value with
    | .ok (m, b') => (some m, b')
    | .error _ => (none, b)
  | .createTopic topic n => (none, b.createTopic topic n)
  | .partitions topic => (none, (b.partitions topic).2)
  | .consumer group topic p => (none, (b.consumer group topic p).2)
  | .consumers group topic => (none, (b.consumers group topic).2)
  | .poll _ _ => (none, b)
  | .commit c => (none, c.commit b)
  | .close => (none, b.close)

/-- The broker after a sequence of operations. -/
def run : Broker → List Op → Broker
  | b, [] => b
  | b, o :: ops => run (b.step o).2 ops

/-- The receipts of the sends that succeeded along a sequence of operations. -/
def receipts : Broker → List Op → List RecordMetadata
  | _, [] => []
  | b, o :: ops => (b.step o).1.toList ++ receipts (b.step o).2 ops

/-- What an operation does to the partition logs: a successful send appends a record;
any other operation at most makes sure a topic exists. -/
theorem step_cases (o : Op) :
    (∃ topic key value m,
      (b.step o).1 = some m ∧ b.send topic key value = .ok (m, (b.step o).2)) ∨
    ((b.step o).1 = none ∧ ((∃ name n, (b.step o).2 = b.createTopic name n) ∨
      ((b.step o).2.topics = b.topics ∧ (b.step o).2.published = b.published ∧
        (b.step o).2.retention = b.retention))) := by
  cases o with
  | send topic key value =>
    simp only [step]
    split
    · next m b' h => exact .inl ⟨topic, key, value, m, rfl, h⟩
    · exact .inr ⟨rfl, .inr ⟨rfl, rfl, rfl⟩⟩
  | createTopic topic n => exact .inr ⟨rfl, .inl ⟨topic, n, rfl⟩⟩
  | partitions topic => exact .inr ⟨rfl, .inl ⟨topic, _, rfl⟩⟩
  | consumer group topic p => exact .inr ⟨rfl, .inl ⟨topic, _, consumer_snd group p⟩⟩
  | consumers group topic => exact .inr ⟨rfl, .inl ⟨topic, _, consumers_snd group⟩⟩
  | poll c m => exact .inr ⟨rfl, .inr ⟨rfl, rfl, rfl⟩⟩
  | commit c =>
    refine .inr ⟨rfl, .inr ?_⟩
    simp only [step, Consumer.commit, Broker.commit]
    split <;> exact ⟨rfl, rfl, rfl⟩
  | close => exact .inr ⟨rfl, .inr ⟨rfl, rfl, rfl⟩⟩

/-- The oldest kept offset of every partition of a sound broker is its end less what it
keeps. -/
theorem Sound.startOffset_eq (h : b.Sound) (name : String) (p : Nat) :
    b.startOffset name p = b.endOffset name p - min (b.endOffset name p) b.retention := by
  cases ht : b.topic? name with
  | none => rw [startOffset_of_none ht, endOffset_of_none ht]; rfl
  | some t =>
    rw [startOffset_of_topic? ht, endOffset_of_topic? ht]
    cases hp : t.partitions[p]? with
    | none => rfl
    | some log =>
      obtain ⟨hlt, rfl⟩ := Array.getElem?_eq_some_iff.1 hp
      exact ((h.topics t (topic?_mem ht).1).logs p hlt).base_eq

theorem sound_withRetention (n r : Nat) : (withRetention n r).Sound :=
  ⟨by simp only [withRetention]; omega, by simp [withRetention], by simp [withRetention], rfl⟩

section Step

variable (o : Op)

/-- Every operation keeps a sound broker sound, under the same retention bound. -/
theorem Sound.step (h : b.Sound) : (b.step o).2.Sound ∧ (b.step o).2.retention = b.retention := by
  rcases step_cases (b := b) o with
    ⟨_, _, _, _, -, hs⟩ | ⟨-, ⟨name, n, he⟩ | ⟨ht, hp, hr⟩⟩
  · exact ⟨h.send hs, send_retention hs⟩
  · rw [he]
    exact ⟨h.createTopic name n, createTopic_retention n⟩
  · exact ⟨h.congr ht hp hr, hr⟩

/-- An operation moves the end of a partition by the number of its receipts for that
partition. -/
theorem Sound.endOffset_step (h : b.Sound) (name : String) (p : Nat) :
    (b.step o).2.endOffset name p =
      b.endOffset name p +
        (b.step o).1.toList.countP fun m => m.topic == name && m.partition == p := by
  rcases step_cases (b := b) o with
    ⟨topic, _, _, m, h1, hs⟩ | ⟨h1, ⟨name', n, he⟩ | ⟨ht, -, -⟩⟩
  · obtain ⟨htopic, -⟩ := h.send_offset hs
    rw [h1, h.send_endOffset hs]
    simp only [Option.toList_some, List.countP_singleton, htopic, Bool.and_eq_true, beq_iff_eq]
    by_cases hm : name = topic ∧ p = m.partition
    · obtain ⟨rfl, rfl⟩ := hm
      simp
    · have hm' : ¬(topic = name ∧ m.partition = p) := fun ⟨h₁, h₂⟩ =>
        hm ⟨h₁.symm, h₂.symm⟩
      simp only [hm, hm', if_false]
  · rw [h1, he, endOffset_createTopic]
    rfl
  · rw [h1, endOffset_congr ht]
    rfl

/-- An operation keeps the partition count of every topic. -/
theorem Sound.topic?_step (h : b.Sound) {name : String} {t : Topic} (ht : b.topic? name = some t) :
    ∃ t', (b.step o).2.topic? name = some t' ∧ t'.partitions.size = t.partitions.size := by
  rcases step_cases (b := b) o with
    ⟨_, _, _, _, -, hs⟩ | ⟨-, ⟨name', n, he⟩ | ⟨hts, -, -⟩⟩
  · exact h.send_topic? hs ht
  · rw [he]
    exact ⟨t, topic?_createTopic_of_some n ht, rfl⟩
  · refine ⟨t, ?_, rfl⟩
    rw [← ht]
    simp only [topic?, hts]

end Step

section Run

/-- A run keeps a sound broker sound, under the same retention bound. -/
theorem Sound.run (h : b.Sound) (ops : List Op) :
    (b.run ops).Sound ∧ (b.run ops).retention = b.retention := by
  induction ops generalizing b with
  | nil => exact ⟨h, rfl⟩
  | cons o ops ih =>
    obtain ⟨hs, hr⟩ := h.step o
    obtain ⟨hs', hr'⟩ := ih hs
    exact ⟨hs', hr'.trans hr⟩

/-- Along a run, the end of a partition moves by the number of receipts for it. -/
theorem Sound.endOffset_run (h : b.Sound) (ops : List Op) (name : String) (p : Nat) :
    (b.run ops).endOffset name p =
      b.endOffset name p +
        (b.receipts ops).countP fun m => m.topic == name && m.partition == p := by
  induction ops generalizing b with
  | nil => simp [Broker.run, Broker.receipts]
  | cons o ops ih =>
    rw [Broker.run, Broker.receipts, ih (h.step o).1, h.endOffset_step o, List.countP_append]
    omega

/-- Along a run, every topic keeps its partition count. -/
theorem Sound.topic?_run (h : b.Sound) (ops : List Op) {name : String} {t : Topic}
    (ht : b.topic? name = some t) :
    ∃ t', (b.run ops).topic? name = some t' ∧ t'.partitions.size = t.partitions.size := by
  induction ops generalizing b t with
  | nil => exact ⟨t, ht, rfl⟩
  | cons o ops ih =>
    obtain ⟨t₁, ht₁, hsize₁⟩ := h.topic?_step o ht
    obtain ⟨t₂, ht₂, hsize₂⟩ := ih (h.step o).1 ht₁
    exact ⟨t₂, ht₂, hsize₂.trans hsize₁⟩

end Run

/-- The laws of the partition logs along every run of a broker made by
`withRetention n r` (`withPartitions n` is the default retention):

* every topic has at least one partition, and every partition log is sound under the
  bound `max r 1`: its kept records carry the offsets from its start up to its end, in
  order, each under its own topic and partition, and it keeps `min end (max r 1)`;
* the end of each partition is the number of sends that reached it, and its start is
  its end less what it keeps;
* the broker's count of published records is the sum of all ends;
* from then on a topic keeps its partition count, a send returns the end its partition
  had before, and a send to a closed broker fails and changes nothing. -/
theorem run_partitionLogs (n r : Nat) (ops : List Op) :
    let b := (withRetention n r).run ops
    (∀ t ∈ b.topics, t.Sound (max r 1)) ∧
    (∀ name p, b.endOffset name p =
      ((withRetention n r).receipts ops).countP fun m => m.topic == name && m.partition == p) ∧
    (∀ name p, b.startOffset name p = b.endOffset name p - min (b.endOffset name p) (max r 1)) ∧
    b.published = b.totalEnd ∧
    (∀ name t more, b.topic? name = some t →
      ∃ t', (b.run more).topic? name = some t' ∧ t'.partitions.size = t.partitions.size) ∧
    (∀ topic key value m b', b.send topic key value = .ok (m, b') →
      m.topic = topic ∧ m.offset = b.endOffset topic m.partition) ∧
    (b.closed = true → ∀ topic key value,
      b.send topic key value = .error .closed ∧ (b.step (.send topic key value)).2 = b) := by
  intro b
  obtain ⟨hs, hr⟩ := (sound_withRetention n r).run ops
  have hret : b.retention = max r 1 := hr
  refine ⟨fun t ht => hret ▸ hs.topics t ht, fun name p => ?_, fun name p => ?_, hs.published,
    fun name t more ht => hs.topic?_run more ht, fun _ _ _ _ _ h => hs.send_offset h,
    fun hclosed topic key value => ?_⟩
  · rw [(sound_withRetention n r).endOffset_run ops name p]
    simp [endOffset, log?, topic?, withRetention]
  · rw [hs.startOffset_eq, hret]
  · have hsend : b.send topic key value = .error .closed := by simp [send, hclosed]
    exact ⟨hsend, by simp [step, hsend]⟩

end Broker

end TokenGate
