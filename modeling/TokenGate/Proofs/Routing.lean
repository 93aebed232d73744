import Mathlib
import TokenGate.Proofs.Logs
/-!
# `TokenGate.Proofs.Routing`: which partition a record goes to

A record sent with a key goes to the partition its key hashes to; a record sent without
one goes to the next partition of its topic in turn, by a counter the topic keeps. This
module follows the routing along every run of a broker (`Broker.Op`, `Broker.run`).

* `Broker.placements`: each send of a run that succeeded, with its key and its receipt;
  `Broker.unkeyedTo` picks the receipts of the records sent to one topic without a key.
* `Broker.send_routed`: a send routes its record by `Broker.partitionFor` on its topic as
  it found it, and leaves the topic's counter where routing left it.
* `Broker.Counted`: every topic's counter stands at the number of records sent to it
  without a key, modulo `2 ^ 64`. Every operation keeps it (`Counted.step`).
* `Broker.run_routing`: along every run of a broker made by `withRetention`, a keyed
  record goes to the partition its key hashes to (SipHash-1-3 of its UTF-8 bytes and a
  final `0xFF`) among its topic's partitions, so two records under one key meet on one
  partition index whenever their topics have as many partitions; and the `j`-th record
  sent to a topic without a key goes to partition `j % k`, whatever keyed records came
  between.
-/

set_option autoImplicit false

namespace TokenGate

namespace Broker

/-- The key an operation sends under; `none` for an unkeyed send and for every other
operation. -/
def Op.key : Op → Option String
  | .send _ key _ => key
  | _ => none

/-- Each send of a sequence of operations that succeeded: its key, and where its record
went. -/
def placements : Broker → List Op → List (Option String × RecordMetadata)
  | _, [] => []
  | b, o :: ops => ((b.step o).1.map (o.key, ·)).toList ++ placements (b.step o).2 ops

/-- The receipts of the records sent to the topic `name` without a key, in order. -/
def unkeyedTo (name : String) (placed : List (Option String × RecordMetadata)) :
    List RecordMetadata :=
  (placed.filter fun p => p.1.isNone && p.2.topic == name).map (·.2)

/-- The partition a keyed record goes to among `count` partitions. -/
def keyedPartition (key : String) (count : Nat) : Nat :=
  (SipHash.hash (Utf8.encode key ++ [0xFF])).toNat % count

/-- SipHash-1-3 with zero keys gives `9054207941445322226` for the bytes `6b ff`. -/
example : keyedPartition "k" (2 ^ 64) = 9054207941445322226 := by decide +kernel

@[simp] theorem unkeyedTo_append (name : String) (p q : List (Option String × RecordMetadata)) :
    unkeyedTo name (p ++ q) = unkeyedTo name p ++ unkeyedTo name q := by
  simp [unkeyedTo]

theorem partitionFor_some (t : Topic) (k : String) :
    partitionFor t (some k) = (keyedPartition k t.partitions.size, t) := rfl

theorem partitionFor_none (t : Topic) :
    partitionFor t none = (t.nextUnkeyed % t.partitions.size,
      { t with nextUnkeyed := (t.nextUnkeyed + 1) % 2 ^ 64 }) := rfl

variable {b b' : Broker} {topic : String} {key : Option String} {value : List UInt8}
  {m : RecordMetadata}

/-- A successful send routed its record by `partitionFor` on the topic it found (after
making sure it exists), and left that topic, with its partition count, holding the
counter routing left. -/
theorem send_routed (h : b.send topic key value = .ok (m, b')) :
    ∃ t₀ t', (b.createTopic topic b.defaultPartitions).topic? topic = some t₀ ∧
      b'.topic? topic = some t' ∧ m.partition = (partitionFor t₀ key).1 ∧
      t'.nextUnkeyed = (partitionFor t₀ key).2.nextUnkeyed ∧
      t'.partitions.size = t₀.partitions.size := by
  unfold send at h
  split at h
  · cases h
  extract_lets c at h
  split at h
  · cases h
  next t₀ ht₀ =>
  have hname : t₀.name = topic := (topic?_mem ht₀).2
  rcases hpf : partitionFor t₀ key with ⟨p, t₁⟩
  have hparts : t₁.partitions = t₀.partitions := by
    simpa [hpf] using Topic.partitionFor_partitions t₀ key
  have hname₁ : t₁.name = t₀.name := by simpa [hpf] using Topic.partitionFor_name t₀ key
  rw [hpf] at h
  simp only [Except.ok.injEq, Prod.mk.injEq] at h
  obtain ⟨rfl, rfl⟩ := h
  -- The topic of the name is replaced by the routed one, which keeps the name.
  have hupd := @topic?_updateTopic c topic
    (fun _ => { t₁ with partitions := t₁.partitions.set! p ((t₁.partitions.getD p ⟨0, []⟩).append
      c.retention ⟨topic, p, (t₁.partitions.getD p ⟨0, []⟩).endOffset, key, value⟩) })
    (fun _ _ => hname₁.trans hname) topic
  simp only [ht₀, Option.map_some, hname, beq_self_eq_true, ↓reduceIte] at hupd
  refine ⟨t₀, _, ht₀, (topic?_setPublished _).trans hupd, by simp [hpf], by simp [hpf], ?_⟩
  simp [hparts]

/-- A send leaves every other topic as making sure of its own topic left it. -/
theorem send_topic?_of_ne (h : b.send topic key value = .ok (m, b')) {name : String}
    (hn : name ≠ topic) :
    b'.topic? name = (b.createTopic topic b.defaultPartitions).topic? name := by
  obtain ⟨-, c, t₀, nu, rfl, ht₀, -, -, -, rfl⟩ := send_ok h
  have hname := (topic?_mem ht₀).2
  rw [topic?_setPublished, topic?_updateTopic _ (fun _ _ => by simp [hname]) name]
  cases ht : (b.createTopic topic b.defaultPartitions).topic? name with
  | none => rfl
  | some t =>
    have htn : t.name ≠ topic := by rw [(topic?_mem ht).2]; exact hn
    simp [htn]

/-- Making sure of one topic leaves every other name's topic as it was. -/
theorem topic?_createTopic_of_ne (n : Nat) {name name' : String} (hn : name' ≠ name) :
    (b.createTopic name n).topic? name' = b.topic? name' := by
  rw [createTopic_eq]
  split
  · rfl
  · rw [topic?_snoc]
    cases b.topic? name' <;> simp [Topic.fresh, Ne.symm hn]

/-- Every topic's round-robin counter stands at the number `sent name` of records sent to
it without a key, modulo `2 ^ 64`; no record was sent to a name that has no topic. -/
structure Counted (sent : String → Nat) (b : Broker) : Prop where
  counter : ∀ name t, b.topic? name = some t → t.nextUnkeyed = sent name % 2 ^ 64
  absent : ∀ name, b.topic? name = none → sent name = 0

variable {sent : String → Nat}

theorem counted_withRetention (n r : Nat) : (withRetention n r).Counted fun _ => 0 :=
  ⟨fun _ _ h => by simp [topic?, withRetention] at h, fun _ _ => rfl⟩

/-- A new topic's counter starts at zero, so making sure a topic exists keeps the counters. -/
theorem Counted.createTopic (hc : b.Counted sent) (name : String) (n : Nat) :
    (b.createTopic name n).Counted sent := by
  rw [createTopic_eq]
  split
  · exact hc
  next hnone =>
  have hfresh : sent name = 0 := hc.absent name (Option.not_isSome_iff_eq_none.1 hnone)
  constructor
  · intro name' t ht
    rw [topic?_snoc] at ht
    cases hb : b.topic? name' with
    | some t₀ =>
      rw [hb] at ht
      cases ht
      exact hc.counter name' t hb
    | none =>
      rw [hb, Option.none_or] at ht
      by_cases hnm : name = name'
      · subst hnm
        simp only [Topic.fresh, ↓reduceIte, Option.some.injEq] at ht
        subst ht
        simp [hfresh]
      · simp [Topic.fresh, hnm] at ht
  · intro name' ht
    rw [topic?_snoc] at ht
    cases hb : b.topic? name' with
    | some t₀ => simp [hb] at ht
    | none => exact hc.absent name' hb

/-- Two brokers with the same topics keep the same counters. -/
theorem Counted.congr (hc : b.Counted sent) (ht : b'.topics = b.topics) : b'.Counted sent := by
  have htop : ∀ name, b'.topic? name = b.topic? name := fun name => by simp [topic?, ht]
  exact ⟨fun name t h => hc.counter name t ((htop name).symm.trans h),
    fun name h => hc.absent name ((htop name).symm.trans h)⟩

/-- The counter of the topic a send found, after making sure of it. -/
theorem Counted.counter_createTopic (hc : b.Counted sent) {t₀ : Topic}
    (ht₀ : (b.createTopic topic b.defaultPartitions).topic? topic = some t₀) :
    t₀.nextUnkeyed = sent topic % 2 ^ 64 :=
  (hc.createTopic topic b.defaultPartitions).counter topic t₀ ht₀

/-- The placements of one operation. -/
theorem placements_singleton (o : Op) :
    b.placements [o] = ((b.step o).1.map (o.key, ·)).toList := by
  simp [placements]

/-- A successful send moves its topic's counter by one exactly when it had no key. -/
theorem Counted.send (hc : b.Counted sent) (h : b.send topic key value = .ok (m, b')) :
    b'.Counted fun name => sent name + (unkeyedTo name [(key, m)]).length := by
  obtain ⟨t₀, t', ht₀, ht', -, hnu, -⟩ := send_routed h
  have hm : m.topic = topic := by
    obtain ⟨-, c, t₁, nu, rfl, -, -, htopic, -, -⟩ := send_ok h
    exact htopic
  have hc₀ := hc.counter_createTopic ht₀
  constructor
  · intro name t ht
    by_cases hn : name = topic
    · subst hn
      rw [ht'] at ht
      cases ht
      rw [hnu]
      cases key with
      | some k => simp [unkeyedTo, partitionFor_some, hc₀]
      | none => simp [unkeyedTo, partitionFor_none, hc₀, hm, Nat.add_mod]
    · rw [send_topic?_of_ne h hn, topic?_createTopic_of_ne _ hn] at ht
      have hne : (m.topic == name) = false := by simpa [hm] using Ne.symm hn
      simp [unkeyedTo, hne, hc.counter name t ht]
  · intro name ht
    have hn : name ≠ topic := by
      rintro rfl
      rw [ht'] at ht
      cases ht
    rw [send_topic?_of_ne h hn, topic?_createTopic_of_ne _ hn] at ht
    have hne : (m.topic == name) = false := by simpa [hm] using Ne.symm hn
    simp [unkeyedTo, hne, hc.absent name ht]

/-- Every operation keeps the counters, counting the unkeyed record it sent. -/
theorem Counted.step (hc : b.Counted sent) (o : Op) :
    (b.step o).2.Counted fun name => sent name + (unkeyedTo name (b.placements [o])).length := by
  rw [placements_singleton]
  cases o with
  | send topic key value =>
    simp only [Broker.step]
    split
    · next m b' h => simpa [Op.key] using hc.send h
    · simpa [unkeyedTo] using hc
  | createTopic topic n => simpa [Broker.step, unkeyedTo] using hc.createTopic topic n
  | partitions topic =>
    simpa [Broker.step, unkeyedTo, Broker.partitions] using hc.createTopic topic b.defaultPartitions
  | consumer group topic p =>
    simpa [Broker.step, unkeyedTo, consumer_snd] using hc.createTopic topic b.defaultPartitions
  | consumers group topic =>
    simpa [Broker.step, unkeyedTo, consumers_snd] using hc.createTopic topic b.defaultPartitions
  | poll c max => simpa [Broker.step, unkeyedTo] using hc
  | commit c =>
    have ht : (c.commit b).topics = b.topics := by
      simp only [Consumer.commit, Broker.commit]
      split <;> rfl
    simpa [Broker.step, unkeyedTo] using hc.congr ht
  | close =>
    have ht : b.close.topics = b.topics := rfl
    simpa [Broker.step, unkeyedTo] using hc.congr ht

theorem mem_unkeyedTo {name : String} {placed : List (Option String × RecordMetadata)}
    {m : RecordMetadata} : m ∈ unkeyedTo name placed ↔ (none, m) ∈ placed ∧ m.topic = name := by
  simp only [unkeyedTo, List.mem_map, List.mem_filter, Bool.and_eq_true, Option.isNone_iff_eq_none,
    beq_iff_eq]
  constructor
  · rintro ⟨⟨k, m'⟩, ⟨hmem, rfl, rfl⟩, rfl⟩
    exact ⟨hmem, rfl⟩
  · rintro ⟨hmem, rfl⟩
    exact ⟨(none, m), ⟨hmem, rfl, rfl⟩, rfl⟩

/-- One operation places at most one record. -/
theorem length_placements_singleton (o : Op) : (b.placements [o]).length ≤ 1 := by
  rw [placements_singleton]
  cases (b.step o).1 <;> simp

/-- Where the record of one operation went: a keyed record to the partition its key hashes
to, an unkeyed one to the partition the topic's counter named. -/
theorem Counted.placed_step (hc : b.Counted sent) (o : Op) {k : Option String}
    (hm : (k, m) ∈ b.placements [o]) :
    ∃ t, (b.step o).2.topic? m.topic = some t ∧
      (∀ key, k = some key → m.partition = keyedPartition key t.partitions.size) ∧
      (k = none → m.partition = sent m.topic % 2 ^ 64 % t.partitions.size) := by
  rw [placements_singleton] at hm
  cases o with
  | send topic key value =>
    simp only [Broker.step] at hm ⊢
    split at hm
    · next m' b' h =>
      simp only [Option.map_some, Option.toList_some, List.mem_singleton, Prod.mk.injEq,
        Op.key] at hm
      obtain ⟨hk, hm⟩ := hm
      subst hk hm
      obtain ⟨t₀, t', ht₀, ht', hp, -, hsize⟩ := send_routed h
      have htopic : m.topic = topic := by
        obtain ⟨-, c, t₁, nu, rfl, -, -, htopic, -, -⟩ := send_ok h
        exact htopic
      refine ⟨t', by rw [htopic]; exact ht', ?_, ?_⟩
      · rintro key rfl
        rw [hp, partitionFor_some, hsize]
      · rintro rfl
        rw [hp, partitionFor_none, hsize, hc.counter_createTopic ht₀, htopic]
    · simp at hm
  | _ => simp [Broker.step] at hm

/-- Along a run, a keyed record went to the partition its key hashes to among the
partitions its topic has at the end of the run. -/
theorem Counted.run_keyed (hs : b.Sound) (hc : b.Counted sent) (ops : List Op) {key : String}
    (hm : (some key, m) ∈ b.placements ops) :
    ∃ t, (b.run ops).topic? m.topic = some t ∧
      m.partition = keyedPartition key t.partitions.size := by
  induction ops generalizing b sent with
  | nil => simp [placements] at hm
  | cons o ops ih =>
    have hstep := hc.step o
    simp only [placements, List.mem_append] at hm
    rcases hm with hm | hm
    · -- the record of this operation; its topic keeps its partition count to the end
      have hm' : (some key, m) ∈ b.placements [o] := by simpa [placements] using hm
      obtain ⟨t, ht, hkey, -⟩ := hc.placed_step o hm'
      obtain ⟨t', ht', hsize⟩ := (hs.step o).1.topic?_run ops ht
      exact ⟨t', ht', by rw [hkey key rfl, hsize]⟩
    · exact ih (hs.step o).1 hstep hm

/-- Along a run, the `j`-th record sent to a topic without a key went to the partition
its counter named then: the count of unkeyed records before the run and `j`, modulo
`2 ^ 64`, modulo the topic's partition count. -/
theorem Counted.run_unkeyed (hs : b.Sound) (hc : b.Counted sent) (ops : List Op) (name : String)
    {j : Nat} (hj : (unkeyedTo name (b.placements ops))[j]? = some m) :
    ∃ t, (b.run ops).topic? name = some t ∧
      m.partition = (sent name + j) % 2 ^ 64 % t.partitions.size := by
  induction ops generalizing b sent j with
  | nil => simp [placements, unkeyedTo] at hj
  | cons o ops ih =>
    have hsplit : b.placements (o :: ops) = b.placements [o] ++ (b.step o).2.placements ops := by
      simp [placements]
    rw [hsplit, unkeyedTo_append] at hj
    have hlen : (unkeyedTo name (b.placements [o])).length ≤ 1 :=
      (List.length_map _).trans_le ((List.length_filter_le _ _).trans
        (length_placements_singleton o))
    by_cases hlt : j < (unkeyedTo name (b.placements [o])).length
    · -- the record of this operation, the only one it placed
      rw [List.getElem?_append_left hlt] at hj
      have hj0 : j = 0 := by omega
      obtain ⟨hmem, hname⟩ := mem_unkeyedTo.1 (List.mem_of_getElem? hj)
      obtain ⟨t, ht, -, hnone⟩ := hc.placed_step o hmem
      rw [hname] at ht hnone
      obtain ⟨t', ht', hsize⟩ := (hs.step o).1.topic?_run ops ht
      exact ⟨t', ht', by rw [hnone rfl, hsize, hj0, Nat.add_zero]⟩
    · -- a later record: count this operation's unkeyed record among those before
      rw [List.getElem?_append_right (by omega)] at hj
      obtain ⟨t, ht, hp⟩ := ih (hs.step o).1 (hc.step o) hj
      have hsum : sent name + (unkeyedTo name (b.placements [o])).length +
          (j - (unkeyedTo name (b.placements [o])).length) = sent name + j := by omega
      exact ⟨t, ht, by rw [hp, hsum]⟩

/-- The routing of every record along every run of a broker made by `withRetention n r`
(`withPartitions n` is the default retention), `b` being the broker at the end:

* a record sent under a key went to partition `h % k` of its topic, `k` the topic's
  partition count and `h` SipHash-1-3, both keys zero, of the key's UTF-8 bytes and a
  final `0xFF`;
* so two records sent under one key went to one partition index whenever their topics
  have as many partitions (a request and its answer travel under one identifier's key);
* the `j`-th record sent to a topic without a key, counting only those (`j < 2 ^ 64`),
  went to partition `j % k`, whatever keyed records came between. -/
theorem run_routing (n r : Nat) (ops : List Op) :
    let b := (withRetention n r).run ops
    let placed := (withRetention n r).placements ops
    (∀ key m, (some key, m) ∈ placed → ∃ t, b.topic? m.topic = some t ∧
      m.partition = (SipHash.hash (Utf8.encode key ++ [0xFF])).toNat % t.partitions.size) ∧
    (∀ key m m' t t', (some key, m) ∈ placed → (some key, m') ∈ placed →
      b.topic? m.topic = some t → b.topic? m'.topic = some t' →
      t.partitions.size = t'.partitions.size → m.partition = m'.partition) ∧
    (∀ name j m, j < 2 ^ 64 → (unkeyedTo name placed)[j]? = some m →
      ∃ t, b.topic? name = some t ∧ m.partition = j % t.partitions.size) := by
  intro b placed
  have hs := sound_withRetention n r
  have hc := counted_withRetention n r
  have hkeyed : ∀ key m, (some key, m) ∈ placed →
      ∃ t, b.topic? m.topic = some t ∧ m.partition = keyedPartition key t.partitions.size :=
    fun key m hm => hc.run_keyed hs ops hm
  refine ⟨hkeyed, ?_, ?_⟩
  · intro key m m' t t' hm hm' ht ht' hsize
    obtain ⟨t₁, ht₁, hp⟩ := hkeyed key m hm
    obtain ⟨t₂, ht₂, hp'⟩ := hkeyed key m' hm'
    rw [ht, Option.some.injEq] at ht₁
    rw [ht', Option.some.injEq] at ht₂
    subst ht₁ ht₂
    rw [hp, hp', hsize]
  · intro name j m hj hm
    obtain ⟨t, ht, hp⟩ := hc.run_unkeyed hs ops name hm
    exact ⟨t, ht, by rw [hp, Nat.zero_add, Nat.mod_eq_of_lt hj]⟩

end Broker

end TokenGate
