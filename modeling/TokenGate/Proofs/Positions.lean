import Mathlib
import TokenGate.Proofs.Logs
import TokenGate.Proofs.Sync
/-!
# `TokenGate.Proofs.Positions`: what a consumer reads

A consumer reads one partition from its position on. This module says what one look at
the partition takes, what a waiting poll returns, and where a consumer of a group starts,
for every consumer a user of the broker can hold.

* `Consumer.take_spec`: one look at a sound partition log takes the kept records from
  `m = max q start` on, `k = min limit (end - m)` of them, in order, and moves the
  position to `m + k` when it took any.
* `Fetch.poll_spec`: a waiting poll returns records only from a look at the broker; it
  returns none only once its deadline has passed, after a look that found nothing or a
  wait that nothing woke; and whatever it returns short of records, the position stays.
* `Fetch.drive_spec`: a fetch polled again and again while others change the broker and
  the clock ends as `Fetch.Ends` says: every look before its end found nothing, records
  come from its last look, and nothing comes only after the deadline.
* `Broker.Session`: a broker and the consumers opened on it, changed by the broker's
  operations and by opening, polling and committing consumers. `Session.Positioned`:
  every consumer's partition exists and its position is at most the partition's end,
  and so is every committed offset; every operation keeps it (`Positioned.step`).
* `Broker.Session.run_positions`: along every run of a session over a broker made by
  `withRetention`, the laws of reading: positions stay within their partitions, polls
  take exactly the records above, a poll ending empty or failing leaves the position,
  and a consumer opened for a group starts at the group's commit, so every record kept
  from there on is read again.
-/

set_option autoImplicit false

namespace TokenGate

/-- The first `k` numbers of a run of consecutive numbers. -/
theorem take_range' (s n k : Nat) : (List.range' s n).take k = List.range' s (min k n) := by
  rcases le_total n k with h | h
  · rw [List.take_range'_of_length_le h, Nat.min_eq_right h]
  · rw [List.take_range'_of_length_ge h, Nat.min_eq_left h]

namespace PartitionLog

variable {log : PartitionLog} {topic : String} {p retention : Nat}

/-- The kept records from offset `q` on, at most `limit` of them, carry the offsets from
`max q base`, as many as the log holds up to `limit`. -/
theorem Sound.offsets_window (h : log.Sound topic p retention) (q limit : Nat) :
    ((log.records.drop (q - log.base)).take limit).map (·.offset) =
      List.range' (max q log.base) (min limit (log.endOffset - max q log.base)) := by
  rw [List.map_take, List.map_drop, h.offsets, List.drop_range', take_range']
  have hstart : log.base + (q - log.base) * 1 = max q log.base := by omega
  have hlen : log.records.length - (q - log.base) = log.endOffset - max q log.base := by
    simp only [endOffset]
    omega
  rw [hstart, hlen]

/-- The window from `q` of at most `limit` records is empty exactly when `limit` is zero
or no kept record lies at or after `q`. -/
theorem Sound.window_empty_iff (h : log.Sound topic p retention) (q limit : Nat) :
    min limit (log.endOffset - max q log.base) = 0 ↔ limit = 0 ∨ ∀ r ∈ log.records, r.offset < q := by
  have hmem := h.offsets
  constructor
  · intro hk
    rcases Nat.eq_zero_or_pos limit with hl | hl
    · exact .inl hl
    · refine .inr fun r hr => ?_
      have hr' : r.offset ∈ List.range' log.base log.records.length :=
        hmem ▸ List.mem_map_of_mem hr
      simp only [List.mem_range'_1] at hr'
      simp only [endOffset] at hk
      omega
  · rintro (h | h)
    · simp [h]
    · -- the window's first offset would be a kept record at or after `q`
      by_contra hk
      have hin : max q log.base ∈ List.range' log.base log.records.length := by
        simp only [List.mem_range'_1, endOffset] at hk ⊢
        omega
      rw [← hmem] at hin
      obtain ⟨r, hr, hro⟩ := List.mem_map.1 hin
      have := h r hr
      omega

end PartitionLog

namespace Broker

variable {b : Broker} {t : String} {p : Nat} {log : PartitionLog}

theorem log?_eq_some : b.log? t p = some log ↔ ∃ tp, b.topic? t = some tp ∧ tp.partitions[p]? = some log := by
  simp [log?, Option.bind_eq_some_iff]

theorem fetch_of_log? (hlog : b.log? t p = some log) (offset limit : Nat) :
    b.fetch t p offset limit = .ok ((log.records.drop (offset - log.base)).take limit) := by
  obtain ⟨tp, ht, hp⟩ := log?_eq_some.1 hlog
  simp [fetch, ht, hp]

theorem endOffset_of_log? (hlog : b.log? t p = some log) : b.endOffset t p = log.endOffset := by
  simp [endOffset, hlog]

theorem startOffset_of_log? (hlog : b.log? t p = some log) : b.startOffset t p = log.base := by
  simp [startOffset, hlog]

/-- The log of a partition of a sound broker is sound. -/
theorem Sound.log?_sound (hs : b.Sound) (hlog : b.log? t p = some log) :
    log.Sound t p b.retention := by
  obtain ⟨tp, ht, hp⟩ := log?_eq_some.1 hlog
  obtain ⟨hlt, rfl⟩ := Array.getElem?_eq_some_iff.1 hp
  have hsound := (hs.topics tp (topic?_mem ht).1).logs p hlt
  rwa [(topic?_mem ht).2] at hsound

/-- Making sure of a topic keeps every partition there. -/
theorem topic?_createTopic_of_some_log? {name : String} {n : Nat} (hlog : b.log? t p = some log) :
    (b.createTopic name n).log? t p = some log := by
  obtain ⟨tp, ht, hp⟩ := log?_eq_some.1 hlog
  exact log?_eq_some.2 ⟨tp, topic?_createTopic_of_some n ht, hp⟩

/-- Every partition of `b` is still there in `b'`, at least as long. -/
def LogsGrow (b b' : Broker) : Prop :=
  ∀ t p log, b.log? t p = some log → ∃ log', b'.log? t p = some log' ∧ log.endOffset ≤ log'.endOffset

variable {b' : Broker}

theorem LogsGrow.of_topic? (h : ∀ t tp, b.topic? t = some tp → b'.topic? t = some tp) :
    LogsGrow b b' := by
  intro t p log hlog
  obtain ⟨tp, ht, hp⟩ := log?_eq_some.1 hlog
  exact ⟨log, log?_eq_some.2 ⟨tp, h t tp ht, hp⟩, le_rfl⟩

/-- A send keeps every partition and grows at most the one it appends to. -/
theorem Sound.logsGrow_send (hs : b.Sound) {topic : String} {key : Option String}
    {value : List UInt8} {m : RecordMetadata} (h : b.send topic key value = .ok (m, b')) :
    LogsGrow b b' := by
  intro t p log hlog
  obtain ⟨tp, ht, hp⟩ := log?_eq_some.1 hlog
  obtain ⟨tp', ht', hsize⟩ := hs.send_topic? h ht
  have hlt : p < tp'.partitions.size := hsize ▸ (Array.getElem?_eq_some_iff.1 hp).1
  have hlog' : b'.log? t p = some tp'.partitions[p] :=
    log?_eq_some.2 ⟨tp', ht', Array.getElem?_eq_getElem hlt⟩
  refine ⟨_, hlog', ?_⟩
  have hend := hs.send_endOffset h t p
  rw [endOffset_of_log? hlog, endOffset_of_log? hlog'] at hend
  omega

/-- Every operation keeps every partition of a sound broker, each at least as long. -/
theorem Sound.logsGrow_step (hs : b.Sound) (o : Op) : LogsGrow b (b.step o).2 := by
  rcases step_cases (b := b) o with ⟨_, _, _, _, -, hsend⟩ | ⟨-, ⟨name, n, he⟩ | ⟨ht, -, -⟩⟩
  · exact hs.logsGrow_send hsend
  · rw [he]
    exact LogsGrow.of_topic? fun t tp h => topic?_createTopic_of_some n h
  · exact LogsGrow.of_topic? fun t tp h => by rw [← h]; simp [topic?, ht]

@[simp] theorem createTopic_commits (name : String) (n : Nat) :
    (b.createTopic name n).commits = b.commits := by
  rw [createTopic_eq]
  split <;> rfl

/-- Only committing changes the committed offsets. -/
theorem commits_step (o : Op) (ho : ∀ c, o ≠ .commit c) : (b.step o).2.commits = b.commits := by
  cases o with
  | send topic key value =>
    simp only [step]
    split
    · next m b' h =>
      obtain ⟨-, c, t₀, nu, rfl, -, -, -, -, rfl⟩ := send_ok h
      simp [updateTopic]
    · rfl
  | createTopic topic n => simp [step]
  | partitions topic => simp [step, partitions]
  | consumer group topic p => simp [step, consumer_snd]
  | consumers group topic => simp [step, consumers_snd]
  | poll c limit => rfl
  | commit c => exact absurd rfl (ho c)
  | close => rfl

/-- A group's committed offset is the offset of a commit of that partition. -/
theorem mem_commits_of_committed {g : String} {off : Nat} (h : b.committed g t p = some off) :
    ∃ cm ∈ b.commits, cm.topic = t ∧ cm.partition = p ∧ cm.offset = off := by
  obtain ⟨cm, hfind, rfl⟩ := Option.map_eq_some_iff.1 h
  have hsame := List.find?_some hfind
  simp only [Bool.and_eq_true, beq_iff_eq] at hsame
  exact ⟨cm, List.mem_of_find?_eq_some hfind, hsame.1.2, hsame.2, rfl⟩

/-- A commit sets the offset of the one partition it names, or records it anew. -/
theorem mem_commit {g : String} {off : Nat} {cm : Commit} (h : cm ∈ (b.commit g t p off).commits) :
    cm ∈ b.commits ∨ (cm.topic = t ∧ cm.partition = p ∧ cm.offset = off) := by
  unfold commit at h
  dsimp only at h
  split at h
  · obtain ⟨cm₀, hcm₀, rfl⟩ := List.mem_map.1 h
    split
    · next hsame =>
      simp only [Bool.and_eq_true, beq_iff_eq] at hsame
      exact .inr ⟨hsame.1.2, hsame.2, rfl⟩
    · exact .inl hcm₀
  · rcases List.mem_append.1 h with h | h
    · exact .inl h
    · simp only [List.mem_singleton] at h
      exact .inr ⟨by rw [h], by rw [h], by rw [h]⟩

theorem committed_createTopic (name : String) (n : Nat) (g t : String) (p : Nat) :
    (b.createTopic name n).committed g t p = b.committed g t p := by
  simp [committed]

/-- Opening a consumer makes sure of its topic; it succeeds only on a partition the topic
has, and starts at the group's committed offset, zero when there is none. -/
theorem consumer_spec (g t : String) (p : Nat) :
    (b.consumer g t p).2 = b.createTopic t b.defaultPartitions ∧
    ∀ c, (b.consumer g t p).1 = .ok c → c = ⟨g, t, p, (b.committed g t p).getD 0⟩ ∧
      ∃ log, (b.createTopic t b.defaultPartitions).log? t p = some log := by
  refine ⟨consumer_snd g p, fun c hc => ?_⟩
  obtain ⟨tp, htp⟩ := @topic?_createTopic_self b t b.defaultPartitions
  -- the partition count is the one of the topic now there
  have hcount : (b.partitions t).1 = tp.partitions.size := by
    simp [partitions, htp]
  unfold consumer at hc
  rcases hpart : b.partitions t with ⟨count, b''⟩
  have hb'' : b'' = b.createTopic t b.defaultPartitions := (congrArg Prod.snd hpart).symm
  rw [hpart] at hcount
  simp only at hcount
  rw [hpart] at hc
  dsimp only at hc
  split at hc
  · cases hc
  · next hlt =>
    simp only [Except.ok.injEq] at hc
    subst hc hb''
    have hp : p < tp.partitions.size := by omega
    exact ⟨by rw [committed_createTopic], tp.partitions[p],
      log?_eq_some.2 ⟨tp, htp, Array.getElem?_eq_getElem hp⟩⟩

/-- Every consumer that opening the consumers of a topic gives is one that opening its
partition gives, once the topic exists. -/
theorem mem_consumers {g t : String} {cs : List Consumer} (h : (b.consumers g t).1 = .ok cs)
    {c : Consumer} (hc : c ∈ cs) :
    ∃ p, ((b.createTopic t b.defaultPartitions).consumer g t p).1 = .ok c := by
  simp only [consumers, partitions] at h
  generalize List.range _ = ps at h
  -- every opening finds the topic there, so each consumer comes from one opening
  suffices ∀ (ps : List Nat) (r : Except BusError (List Consumer)),
      (∀ cs₀, r = .ok cs₀ → ∀ c ∈ cs₀,
        ∃ p, ((b.createTopic t b.defaultPartitions).consumer g t p).1 = .ok c) →
      ∀ cs, (ps.foldl (openNext g t) (r, b.createTopic t b.defaultPartitions)).1 = .ok cs →
        ∀ c ∈ cs, ∃ p, ((b.createTopic t b.defaultPartitions).consumer g t p).1 = .ok c from
    this ps _ (fun cs₀ h₀ c hc => by simp at h₀; subst h₀; simp at hc) cs h c hc
  intro ps
  induction ps with
  | nil => intro r hr cs h; exact hr cs h
  | cons p ps ih =>
    intro r hr cs h
    rw [List.foldl_cons, ← Prod.eta (openNext g t _ p), openNext_snd] at h
    refine ih _ ?_ cs h
    intro cs₁ h₁ c hc
    unfold openNext at h₁
    cases r with
    | error e => cases h₁
    | ok cs₀ =>
      dsimp only at h₁
      split at h₁
      · next c' b₁ hcons =>
        simp only [Except.ok.injEq] at h₁
        subst h₁
        rcases List.mem_append.1 hc with hc | hc
        · exact hr cs₀ rfl c hc
        · simp only [List.mem_singleton] at hc
          subst hc
          exact ⟨p, congrArg Prod.fst hcons⟩
      · cases h₁

end Broker

namespace Consumer

variable {b : Broker} {c : Consumer} {log : PartitionLog} {retention : Nat}

/-- One look at a consumer's partition, from position `q`: the kept records from
`m = max q start` on, `k = min limit (end - m)` of them, in order, a stretch of the log;
the position moves to `m + k` when there are any, and stays otherwise. -/
theorem take_spec (hs : log.Sound c.topic c.partition retention)
    (hlog : b.log? c.topic c.partition = some log) (limit : Nat) :
    let m := max c.position log.base
    let k := min limit (log.endOffset - m)
    ∃ rs, c.take b limit = .ok (rs, if k = 0 then c else { c with position := m + k }) ∧
      rs.map (·.offset) = List.range' m k ∧ rs <:+: log.records := by
  dsimp only
  have hoff := hs.offsets_window c.position limit
  refine ⟨_, ?_, hoff, (List.take_prefix _ _).isInfix.trans (List.drop_suffix _ _).isInfix⟩
  simp only [take, Broker.fetch_of_log? hlog, bind, Except.bind, pure, Except.pure]
  -- The last record taken carries the last offset of the window.
  have hlast := congrArg List.getLast? hoff
  rw [List.getLast?_map, List.getLast?_range'] at hlast
  by_cases hk : min limit (log.endOffset - max c.position log.base) = 0
  · rw [if_pos hk, Option.map_eq_none_iff] at hlast
    simp [hlast, hk]
  · rw [if_neg hk] at hlast
    obtain ⟨r, hr, hoffset⟩ := Option.map_eq_some_iff.1 hlast
    simp only [hr, hk, if_false]
    congr 3
    omega

/-- A look that takes nothing leaves the consumer as it was. -/
theorem take_nil_consumer {c' : Consumer} {limit : Nat} (h : c.take b limit = .ok ([], c')) :
    c' = c := by
  simp only [take, bind, Except.bind] at h
  split at h
  · cases h
  · next rs _ =>
    cases hl : rs.getLast? with
    | none =>
      simp only [hl, pure, Except.pure, Except.ok.injEq, Prod.mk.injEq] at h
      exact h.2.symm
    | some r =>
      simp only [hl, pure, Except.pure, Except.ok.injEq, Prod.mk.injEq] at h
      rw [h.1] at hl
      cases hl

/-- A poll on a closed broker fails; otherwise it is one look at the partition. -/
theorem poll_eq (limit : Nat) :
    c.poll b limit = if b.closed then .error .closed else c.take b limit := rfl

/-- A look takes nothing exactly when it may take nothing, or no kept record lies at or
after the position. -/
theorem take_nil_iff (hs : log.Sound c.topic c.partition retention)
    (hlog : b.log? c.topic c.partition = some log) (limit : Nat) :
    c.take b limit = .ok ([], c) ↔ limit = 0 ∨ ∀ r ∈ log.records, r.offset < c.position := by
  obtain ⟨rs, htake, hoff, -⟩ := take_spec hs hlog limit
  rw [htake, ← hs.window_empty_iff]
  -- the look takes nothing exactly when its window is empty
  have hrs : rs = [] ↔ min limit (log.endOffset - max c.position log.base) = 0 := by
    rw [← List.map_eq_nil_iff, hoff, List.range'_eq_nil_iff]
  constructor
  · intro h
    simp only [Except.ok.injEq, Prod.mk.injEq] at h
    exact hrs.1 h.1
  · intro hk
    simp [hrs.2 hk, hk]

/-- A look from position `q` takes every kept record at or after `q` that its limit
leaves room for. -/
theorem mem_take (hs : log.Sound c.topic c.partition retention)
    (hlog : b.log? c.topic c.partition = some log) {limit : Nat} {r : BusRecord}
    (hr : r ∈ log.records) (hq : c.position ≤ r.offset) (hlim : r.offset < c.position + limit) :
    ∃ rs c', c.take b limit = .ok (rs, c') ∧ r ∈ rs := by
  obtain ⟨rs, htake, hoff, hinf⟩ := take_spec hs hlog limit
  refine ⟨rs, _, htake, ?_⟩
  have hr' : r.offset ∈ List.range' log.base log.records.length :=
    hs.offsets ▸ List.mem_map_of_mem hr
  simp only [List.mem_range'_1] at hr'
  -- the record's offset lies in the window, and an offset names one kept record
  have hin : r.offset ∈ rs.map (·.offset) := by
    rw [hoff, List.mem_range'_1]
    simp only [PartitionLog.endOffset]
    omega
  obtain ⟨r', hr'rs, hro⟩ := List.mem_map.1 hin
  have hnodup : (log.records.map (·.offset)).Nodup := hs.offsets ▸ List.nodup_range'
  rwa [← List.inj_on_of_nodup_map hnodup (hinf.subset hr'rs) hr hro]

/-- A poll fails on a closed broker. On an open one it is one look (`take_spec`), and it
takes nothing exactly when it may take nothing or no kept record lies at or after the
position. -/
theorem poll_spec (hs : log.Sound c.topic c.partition retention)
    (hlog : b.log? c.topic c.partition = some log) (limit : Nat) :
    let m := max c.position log.base
    let k := min limit (log.endOffset - m)
    (b.closed = true → c.poll b limit = .error .closed) ∧
    (b.closed = false → ∃ rs,
      c.poll b limit = .ok (rs, if k = 0 then c else { c with position := m + k }) ∧
      rs.map (·.offset) = List.range' m k ∧ rs <:+: log.records ∧
      (rs = [] ↔ limit = 0 ∨ ∀ r ∈ log.records, r.offset < c.position)) := by
  dsimp only
  refine ⟨fun hc => by rw [poll_eq, if_pos hc], fun hc => ?_⟩
  obtain ⟨rs, htake, hoff, hinf⟩ := take_spec hs hlog limit
  refine ⟨rs, by rw [poll_eq, if_neg (by simp [hc]), htake], hoff, hinf, ?_⟩
  rw [← hs.window_empty_iff, ← List.map_eq_nil_iff, hoff, List.range'_eq_nil_iff]

end Consumer

namespace Sched

/-- A sleep is over only once the clock has reached its deadline. -/
theorem Core.le_now_of_due {c : Core} {d : Nat} (h : c.due d = true) : d ≤ c.now := by
  have h' := of_decide_eq_true h
  simp only [tickOf, nowTick, nanosPerMilli] at h'
  omega

/-- A sleep is over when the clock has reached its deadline's tick. -/
@[simp] theorem Sleep.poll_fst (s : Sleep) (c : Core) (o : Waker) :
    (s.poll c o).1 = c.due s.deadline := by
  unfold Sleep.poll
  split
  · simp_all
  · split <;> simp_all

@[simp] theorem Sleep.poll_deadline (s : Sleep) (c : Core) (o : Waker) :
    (s.poll c o).2.1.deadline = s.deadline := by
  unfold Sleep.poll
  split
  · rfl
  · split <;> rfl

@[simp] theorem Sleep.poll_now (s : Sleep) (c : Core) (o : Waker) : (s.poll c o).2.2.now = c.now :=
  (Sleep.queueGrows_poll s c o).now

@[simp] theorem Sleep.drop_now (s : Sleep) (c : Core) : (s.drop c).now = c.now :=
  (Sleep.queueGrows_drop s c).now

end Sched

/-- A fetch's wait sleeps until the fetch's deadline. -/
def FetchWait.Timed (w : FetchWait) : Prop := w.sleep.deadline = w.deadline

@[simp] theorem Hub.forget_broker (h : Hub) (k : Nat) : (h.forget k).broker = h.broker := rfl

namespace Fetch

open Sched

/-- Whether a poll of a fetch looks at the broker: a fetch starting does, and so does
one woken since it began to wait. -/
def looks (h : Hub) (w : Option FetchWait) : Bool := w.all fun w => h.arrivals.isNotified w.key

variable (h : Hub) (c : Core) (cons : Consumer) (limit : Nat) (owner : Waker)

/-- One attempt of a fetch: it fails on a closed broker, returns what a look takes when
that is not empty, and otherwise returns nothing once its deadline has passed or waits. -/
theorem attempt_spec (deadline : Nat) :
    let st := attempt h c cons limit deadline owner
    st.hub.broker = h.broker ∧ st.core.now = c.now ∧
    (∀ rs, st.result = some (.ok rs) → rs ≠ [] →
      h.broker.closed = false ∧ cons.take h.broker limit = .ok (rs, st.consumer)) ∧
    (st.result = some (.ok []) → st.consumer = cons ∧ deadline ≤ c.now ∧
      cons.take h.broker limit = .ok ([], cons)) ∧
    (st.result = none → st.consumer = cons ∧ cons.take h.broker limit = .ok ([], cons) ∧
      ∃ w, st.wait = some w ∧ w.deadline = deadline ∧ w.Timed) ∧
    (∀ e, st.result = some (.error e) → st.consumer = cons) := by
  dsimp only
  unfold attempt
  split
  next key arrivals _ =>
  extract_lets h'
  split
  · simp +zetaDelta
  · next hopen =>
    have hopen' : h.broker.closed = false := by simpa +zetaDelta using hopen
    split
    · simp +zetaDelta
    · next rs cons' htake =>
      split
      · next hne =>
        have hne' : rs ≠ [] := by simpa using hne
        simp +zetaDelta [hne', htake, hopen']
      · next hemp =>
        have hrs : rs = [] := by simpa using hemp
        subst hrs
        -- an empty look leaves the consumer as it was
        obtain rfl : cons' = cons := Consumer.take_nil_consumer htake
        split
        next elapsed sl c' hp =>
        have hnow : c'.now = c.now := by
          have := (Sleep.queueGrows_poll (Sleep.ofDeadline deadline) c owner).now
          rwa [hp] at this
        have hdue : elapsed = c.due deadline := by
          have := Sleep.poll_fst (Sleep.ofDeadline deadline) c owner
          rwa [hp] at this
        split
        · next hel =>
          have hle := Core.le_now_of_due (hdue ▸ hel)
          simp +zetaDelta [hnow, hle, htake]
        · have hsl : sl.deadline = deadline := by
            have := Sleep.poll_deadline (Sleep.ofDeadline deadline) c owner
            rwa [hp] at this
          simp +zetaDelta [hnow, htake, FetchWait.Timed, hsl]

/-- A waiting fetch polled again. Woken, it gives up its wait and makes a new attempt
with its deadline. Not woken, it looks at nothing: it returns nothing once its sleep is
over, or keeps waiting under its registration. -/
theorem resume_spec (w : FetchWait) :
    let st := resume h c cons limit w owner
    (h.arrivals.isNotified w.key = true →
      st = attempt (h.forget w.key) (w.sleep.drop c) cons limit w.deadline owner) ∧
    (h.arrivals.isNotified w.key = false → st.consumer = cons ∧
      (st.result = some (.ok []) ∧ w.sleep.deadline ≤ c.now ∨
       st.result = none ∧ ∃ w', st.wait = some w' ∧ w'.key = w.key ∧ w'.deadline = w.deadline ∧
         w'.sleep.deadline = w.sleep.deadline)) := by
  dsimp only
  unfold resume
  refine ⟨fun hn => by rw [if_pos hn]; rfl, fun hn => ?_⟩
  rw [if_neg (by simp [hn])]
  split
  next elapsed sl c' hp =>
  have hdue : elapsed = c.due w.sleep.deadline := by
    have := Sleep.poll_fst w.sleep c owner
    rwa [hp] at this
  have hsl : sl.deadline = w.sleep.deadline := by
    have := Sleep.poll_deadline w.sleep c owner
    rwa [hp] at this
  split
  · next hel => exact ⟨rfl, .inl ⟨rfl, Core.le_now_of_due (hdue ▸ hel)⟩⟩
  · exact ⟨rfl, .inr ⟨rfl, _, rfl, rfl, rfl, hsl⟩⟩

/-- A poll of a fetch whose wait, if it has one, is timed; `deadline` is the fetch's, from
its start or from its wait.

* Records come only from a look at the broker: the poll looked, the broker is open, and
  the look took them.
* Nothing comes only once the deadline has passed, the consumer as it was; when the
  poll looked, the look found nothing.
* Waiting, the consumer is as it was, under a timed wait with the deadline; when the
  poll looked, the look found nothing, and otherwise the fetch keeps its registration.
* A failure leaves the consumer as it was. -/
theorem poll_spec (timeout : Nat) (w : Option FetchWait) (hw : ∀ w' ∈ w, w'.Timed) :
    let st := poll h c cons limit timeout w owner
    let deadline := (w.map (·.deadline)).getD (c.now + timeout)
    (∀ rs, st.result = some (.ok rs) → rs ≠ [] → looks h w = true ∧
      h.broker.closed = false ∧ cons.take h.broker limit = .ok (rs, st.consumer)) ∧
    (st.result = some (.ok []) → st.consumer = cons ∧ deadline ≤ c.now ∧
      (looks h w = true → cons.take h.broker limit = .ok ([], cons))) ∧
    (st.result = none → st.consumer = cons ∧
      (looks h w = true → cons.take h.broker limit = .ok ([], cons)) ∧
      ∃ w', st.wait = some w' ∧ w'.Timed ∧ w'.deadline = deadline ∧
        (looks h w = false → w.map (·.key) = some w'.key)) ∧
    (∀ e, st.result = some (.error e) → st.consumer = cons) := by
  dsimp only
  cases w with
  | none =>
    -- a fetch starting makes its first attempt
    obtain ⟨-, -, hrs, hnil, hwait, herr⟩ := attempt_spec h c cons limit owner (c.now + timeout)
    refine ⟨fun rs hr hne => ⟨rfl, hrs rs hr hne⟩, fun hr => ?_, fun hr => ?_, herr⟩
    · obtain ⟨hc, hle, htake⟩ := hnil hr
      exact ⟨hc, hle, fun _ => htake⟩
    · obtain ⟨hc, htake, w', hw', hd, ht⟩ := hwait hr
      exact ⟨hc, fun _ => htake, w', hw', ht, hd, fun h => by simp [looks] at h⟩
  | some w =>
    have hlooks : looks h (some w) = h.arrivals.isNotified w.key := rfl
    have htimed : w.Timed := hw w rfl
    obtain ⟨hwoken, hquiet⟩ := resume_spec h c cons limit owner w
    simp only [poll, Option.map_some, Option.getD_some, hlooks]
    cases hn : h.arrivals.isNotified w.key with
    | true =>
      -- woken: a new attempt on the same broker, at the same time
      rw [hwoken hn]
      obtain ⟨-, -, hrs, hnil, hwait, herr⟩ := attempt_spec (h.forget w.key) (w.sleep.drop c)
        cons limit owner w.deadline
      simp only [Hub.forget_broker, Sleep.drop_now] at hrs hnil hwait
      refine ⟨fun rs hr hne => ⟨rfl, hrs rs hr hne⟩, fun hr => ?_, fun hr => ?_, herr⟩
      · obtain ⟨hc, hle, htake⟩ := hnil hr
        exact ⟨hc, hle, fun _ => htake⟩
      · obtain ⟨hc, htake, w', hw', hd, ht⟩ := hwait hr
        exact ⟨hc, fun _ => htake, w', hw', ht, hd, fun h => by simp at h⟩
    | false =>
      -- not woken: no look, only the sleep
      obtain ⟨hc, ⟨hr, hle⟩ | ⟨hr, w', hw', hkey, hd, hsd⟩⟩ := hquiet hn
      · refine ⟨fun rs h' hne => by simp [hr] at h'; exact absurd h' hne,
          fun _ => ⟨hc, htimed ▸ hle, fun h => by simp at h⟩,
          fun h' => by simp [hr] at h', fun e h' => by simp [hr] at h'⟩
      · refine ⟨fun rs h' => by simp [hr] at h', fun h' => by simp [hr] at h', fun _ => ?_,
          fun e h' => by simp [hr] at h'⟩
        exact ⟨hc, fun h => by simp at h, w', hw', by rw [FetchWait.Timed, hsd, hd]; exact htimed,
          hd, fun _ => by rw [hkey]⟩

/-- A poll of a fetch leaves the clock where it was. -/
theorem poll_now (timeout : Nat) (w : Option FetchWait) :
    (poll h c cons limit timeout w owner).core.now = c.now := by
  cases w with
  | none =>
    simp only [poll, start]
    exact (attempt_spec h c cons limit owner (c.now + timeout)).2.1
  | some w =>
    show (resume h c cons limit w owner).core.now = c.now
    cases hn : h.arrivals.isNotified w.key with
    | true =>
      -- woken: a new attempt, on the clock the dropped sleep leaves as it was
      rw [(resume_spec h c cons limit owner w).1 hn,
        (attempt_spec _ _ cons limit owner w.deadline).2.1, Sleep.drop_now]
    | false =>
      -- not woken: only the sleep is polled
      unfold resume
      rw [if_neg (by simp [hn])]
      split
      next elapsed sl c' hp =>
      have hnow := Sleep.poll_now w.sleep c owner
      rw [hp] at hnow
      split <;> exact hnow

/-- A fetch polled at each hub and clock of `env` in turn, others acting between the
polls, each poll taking up the wait the one before it left: the step of the poll that
ended the fetch, if one did, and the brokers the polls looked at on the way. -/
def drive (cons : Consumer) (limit timeout : Nat) (owner : Waker) :
    Option FetchWait → List (Hub × Core) → Option FetchStep × List Broker
  | _, [] => (none, [])
  | w, (h, c) :: env =>
    let st := poll h c cons limit timeout w owner
    let seen := if looks h w then [h.broker] else []
    match st.result with
    | some _ => (some st, seen)
    | none =>
      let rest := drive cons limit timeout owner st.wait env
      (rest.1, seen ++ rest.2)

/-- How a fetch of `cons` with `deadline`, having looked at the brokers `seen` in turn,
may end: with records that its last look took, every look before having found nothing;
with nothing once its deadline has passed, every look having found nothing; or with a
failure. Short of records, the consumer is as it was. -/
def Ends (cons : Consumer) (limit deadline : Nat) (seen : List Broker) (st : FetchStep) : Prop :=
  (∀ rs, st.result = some (.ok rs) → rs ≠ [] → ∃ pre b, seen = pre ++ [b] ∧
    b.closed = false ∧ cons.take b limit = .ok (rs, st.consumer) ∧
    ∀ b' ∈ pre, cons.take b' limit = .ok ([], cons)) ∧
  (st.result = some (.ok []) → st.consumer = cons ∧ deadline ≤ st.core.now ∧
    ∀ b ∈ seen, cons.take b limit = .ok ([], cons)) ∧
  (∀ e, st.result = some (.error e) → st.consumer = cons)

variable {h c cons limit owner}

/-- Looks that found nothing, made before a fetch's end, keep what it ends with. -/
theorem Ends.prepend {deadline : Nat} {seen bs : List Broker} {st : FetchStep}
    (hseen : ∀ b ∈ seen, cons.take b limit = .ok ([], cons)) (h : Ends cons limit deadline bs st) :
    Ends cons limit deadline (seen ++ bs) st := by
  obtain ⟨hrs, hnil, herr⟩ := h
  refine ⟨fun rs hr hne => ?_, fun hr => ?_, herr⟩
  · obtain ⟨pre, b, rfl, hb⟩ := hrs rs hr hne
    refine ⟨seen ++ pre, b, by rw [List.append_assoc], hb.1, hb.2.1, fun b' hb' => ?_⟩
    rcases List.mem_append.1 hb' with hb' | hb'
    · exact hseen b' hb'
    · exact hb.2.2 b' hb'
  · obtain ⟨hc, hle, hbs⟩ := hnil hr
    refine ⟨hc, hle, fun b hb => ?_⟩
    rcases List.mem_append.1 hb with hb | hb
    · exact hseen b hb
    · exact hbs b hb

/-- A fetch that ended with nothing found, at every sound broker it looked at, no kept
record of its partition at or after its position, unless it may take nothing. -/
theorem Ends.nothing_kept {deadline : Nat} {seen : List Broker} {st : FetchStep}
    (h : Ends cons limit deadline seen st) (hnil : st.result = some (.ok [])) :
    ∀ b ∈ seen, ∀ log, b.Sound → b.log? cons.topic cons.partition = some log →
      limit = 0 ∨ ∀ r ∈ log.records, r.offset < cons.position := by
  intro b hb log hs hlog
  exact (Consumer.take_nil_iff (hs.log?_sound hlog) hlog limit).1 ((h.2.1 hnil).2.2 b hb)

/-- A poll that ends the fetch ends the drive. -/
theorem drive_ended {timeout : Nat} {w : Option FetchWait} {env : List (Hub × Core)} {r : Fetched}
    (hr : (poll h c cons limit timeout w owner).result = some r) :
    drive cons limit timeout owner w ((h, c) :: env) =
      (some (poll h c cons limit timeout w owner), if looks h w then [h.broker] else []) := by
  rw [drive, hr]

/-- A poll that leaves the fetch waiting hands its wait to the next poll. -/
theorem drive_waiting {timeout : Nat} {w : Option FetchWait} {env : List (Hub × Core)}
    (hr : (poll h c cons limit timeout w owner).result = none) :
    drive cons limit timeout owner w ((h, c) :: env) =
      let rest := drive cons limit timeout owner (poll h c cons limit timeout w owner).wait env
      (rest.1, (if looks h w then [h.broker] else []) ++ rest.2) := by
  rw [drive, hr]

/-- A poll whose look, if it made one, found nothing, saw only brokers with nothing to
take. -/
theorem seen_empty {w : Option FetchWait}
    (hlook : looks h w = true → cons.take h.broker limit = .ok ([], cons)) :
    ∀ b ∈ (if looks h w then [h.broker] else []), cons.take b limit = .ok ([], cons) := by
  intro b hb
  split at hb
  · next hl =>
    rw [List.mem_singleton.1 hb]
    exact hlook hl
  · cases hb

/-- A fetch whose next poll ends it ends as `Ends` says, with the look that poll made,
if it made one. -/
theorem ends_of_ended {timeout : Nat} {w : Option FetchWait} (hw : ∀ w' ∈ w, w'.Timed)
    (env : List (Hub × Core)) {r : Fetched} (hr : (poll h c cons limit timeout w owner).result = some r)
    {st : FetchStep} (hst : (drive cons limit timeout owner w ((h, c) :: env)).1 = some st) :
    Ends cons limit ((w.map (·.deadline)).getD (c.now + timeout))
      (drive cons limit timeout owner w ((h, c) :: env)).2 st := by
  rw [drive_ended hr] at hst ⊢
  cases hst
  obtain ⟨hrs, hnil, -, herr⟩ := poll_spec h c cons limit owner timeout w hw
  refine ⟨fun rs hr hne => ?_, fun hr => ?_, herr⟩
  · obtain ⟨hlooks, hopen, htake⟩ := hrs rs hr hne
    exact ⟨[], h.broker, by simp [hlooks], hopen, htake, by simp⟩
  · obtain ⟨hc, hle, hlook⟩ := hnil hr
    exact ⟨hc, by rwa [poll_now], seen_empty hlook⟩

/-- Every fetch, polled again and again while others change the broker and the clock,
ends as `Ends` says: records only from its last look, nothing only after its deadline,
every look before the end having found nothing. -/
theorem drive_spec (timeout : Nat) (env : List (Hub × Core)) (w : Option FetchWait)
    (hw : ∀ w' ∈ w, w'.Timed) :
    let r := drive cons limit timeout owner w ((h, c) :: env)
    ∀ st, r.1 = some st → Ends cons limit ((w.map (·.deadline)).getD (c.now + timeout)) r.2 st := by
  -- the induction is on the polls to come; each wait left behind is timed with the deadline
  induction env generalizing w h c with
  | nil =>
    dsimp only
    intro st hst
    cases hr : (poll h c cons limit timeout w owner).result with
    | some r => exact ends_of_ended hw [] hr hst
    | none =>
      rw [drive_waiting hr] at hst
      simp [drive] at hst
  | cons e env ih =>
    dsimp only
    intro st hst
    cases hr : (poll h c cons limit timeout w owner).result with
    | some r => exact ends_of_ended hw _ hr hst
    | none =>
      rw [drive_waiting hr] at hst ⊢
      obtain ⟨-, -, hwait, -⟩ := poll_spec h c cons limit owner timeout w hw
      obtain ⟨-, hlook, w', hw', htimed, hd, -⟩ := hwait hr
      obtain ⟨h', c'⟩ := e
      rw [hw'] at hst ⊢
      have hrest := ih (h := h') (c := c') (some w') (by simpa using htimed) st hst
      simp only [Option.map_some, Option.getD_some, hd] at hrest
      exact hrest.prepend (seen_empty hlook)

/-- A fetch's first poll looks at the broker. -/
theorem drive_first_looks (timeout : Nat) (env : List (Hub × Core)) :
    (drive cons limit timeout owner none ((h, c) :: env)).2.head? = some h.broker := by
  simp only [drive, looks, Option.all_none, if_true]
  split <;> rfl

end Fetch

namespace Broker

/-- A broker and the consumers opened on it, in the order they were opened. -/
structure Session where
  broker : Broker
  consumers : List Consumer

variable {b : Broker}

/-- A consumer opened on a sound broker starts at its group's commit, zero when there is
none, and a poll of it on the open broker takes every kept record from there that its
limit leaves room for. -/
theorem Sound.consumer_redelivers (hs : b.Sound) {g t : String} {p : Nat} {c : Consumer}
    (hc : (b.consumer g t p).1 = .ok c) :
    c = ⟨g, t, p, (b.committed g t p).getD 0⟩ ∧
    ∃ log, (b.consumer g t p).2.log? t p = some log ∧
      ∀ r ∈ log.records, c.position ≤ r.offset → ∀ limit, r.offset < c.position + limit →
        (b.consumer g t p).2.closed = false →
        ∃ rs c', c.poll (b.consumer g t p).2 limit = .ok (rs, c') ∧ r ∈ rs := by
  obtain ⟨hb', hspec⟩ := b.consumer_spec g t p
  obtain ⟨rfl, log, hlog⟩ := hspec c hc
  rw [← hb'] at hlog
  refine ⟨rfl, log, hlog, fun r hr hq limit hlim hopen => ?_⟩
  -- the broker after opening is sound, so the opened partition's log is
  have hsound : (b.consumer g t p).2.Sound := by
    rw [hb']
    exact hs.createTopic t b.defaultPartitions
  rw [Consumer.poll_eq, if_neg (by simp [hopen])]
  exact Consumer.mem_take (hsound.log?_sound hlog) hlog hr hq hlim

/-- The consumers of a topic opened at once each start at their group's commit on their
partition, zero when there is none. -/
theorem consumers_start {g t : String} {cs : List Consumer} (hcs : (b.consumers g t).1 = .ok cs)
    {c : Consumer} (hc : c ∈ cs) :
    c.group = g ∧ c.topic = t ∧ c.position = (b.committed g t c.partition).getD 0 := by
  obtain ⟨p, hp⟩ := mem_consumers hcs hc
  obtain ⟨rfl, -⟩ := ((b.createTopic t b.defaultPartitions).consumer_spec g t p).2 c hp
  exact ⟨rfl, rfl, by rw [committed_createTopic]⟩

namespace Session

/-- What a user of a broker does: the broker's own operations, and opening, polling (at
most `limit` records) and committing consumers, a consumer being named by its place in
the order of opening. -/
inductive Op where
  | send (topic : String) (key : Option String) (value : List UInt8)
  | createTopic (topic : String) (partitions : Nat)
  | partitions (topic : String)
  | openOne (group topic : String) (partition : Nat)
  | openAll (group topic : String)
  | poll (consumer limit : Nat)
  | commit (consumer : Nat)
  | close

/-- No consumers yet, over a new broker. -/
def start (n r : Nat) : Session := ⟨withRetention n r, []⟩

/-- The session after one operation. A failed opening still made sure of its topic; a
poll moves its consumer as the look did, and a failed one leaves it. -/
def step (s : Session) : Op → Session
  | .send topic key value => { s with broker := (s.broker.step (.send topic key value)).2 }
  | .createTopic topic n => { s with broker := s.broker.createTopic topic n }
  | .partitions topic => { s with broker := (s.broker.partitions topic).2 }
  | .openOne group topic p =>
    match s.broker.consumer group topic p with
    | (.ok c, b) => ⟨b, s.consumers ++ [c]⟩
    | (.error _, b) => { s with broker := b }
  | .openAll group topic =>
    match s.broker.consumers group topic with
    | (.ok cs, b) => ⟨b, s.consumers ++ cs⟩
    | (.error _, b) => { s with broker := b }
  | .poll i limit =>
    match s.consumers[i]? with
    | some c =>
      match c.poll s.broker limit with
      | .ok (_, c') => { s with consumers := s.consumers.set i c' }
      | .error _ => s
    | none => s
  | .commit i =>
    match s.consumers[i]? with
    | some c => { s with broker := c.commit s.broker }
    | none => s
  | .close => { s with broker := s.broker.close }

/-- The session after a sequence of operations. -/
def run : Session → List Op → Session
  | s, [] => s
  | s, o :: ops => run (s.step o) ops

/-- The broker is sound, and every consumer and every committed offset names an
existing partition and stands at most at its end. -/
structure Positioned (s : Session) : Prop where
  sound : s.broker.Sound
  consumers : ∀ c ∈ s.consumers,
    ∃ log, s.broker.log? c.topic c.partition = some log ∧ c.position ≤ log.endOffset
  commits : ∀ cm ∈ s.broker.commits,
    ∃ log, s.broker.log? cm.topic cm.partition = some log ∧ cm.offset ≤ log.endOffset

variable {s : Session}

theorem positioned_start (n r : Nat) : (start n r).Positioned :=
  ⟨sound_withRetention n r, by simp [start], by simp [start, withRetention]⟩

/-- A position within a partition stays within it as the partitions grow. -/
theorem within_grow {b b' : Broker} (hg : LogsGrow b b') {t : String} {p q : Nat}
    (h : ∃ log, b.log? t p = some log ∧ q ≤ log.endOffset) :
    ∃ log, b'.log? t p = some log ∧ q ≤ log.endOffset := by
  obtain ⟨log, hlog, hq⟩ := h
  obtain ⟨log', hlog', hle⟩ := hg t p log hlog
  exact ⟨log', hlog', hq.trans hle⟩

/-- A broker operation that grows the partitions and keeps the commits keeps the
session positioned. -/
theorem Positioned.broker_step (hs : s.Positioned) (o : Broker.Op) (ho : ∀ c, o ≠ .commit c) :
    (⟨(s.broker.step o).2, s.consumers⟩ : Session).Positioned := by
  have hg := hs.sound.logsGrow_step o
  refine ⟨(hs.sound.step o).1, fun c hc => within_grow hg (hs.consumers c hc), fun cm hcm => ?_⟩
  rw [commits_step o ho] at hcm
  exact within_grow hg (hs.commits cm hcm)

/-- A consumer opened on a positioned session's broker starts within its partition. -/
theorem Positioned.opened (hs : s.Positioned) {g t : String} {p : Nat} {c : Consumer}
    (hc : (s.broker.consumer g t p).1 = .ok c) :
    ∃ log, (s.broker.createTopic t s.broker.defaultPartitions).log? c.topic c.partition = some log ∧
      c.position ≤ log.endOffset := by
  obtain ⟨rfl, log, hlog⟩ := (s.broker.consumer_spec g t p).2 c hc
  refine ⟨log, hlog, ?_⟩
  cases hcm : s.broker.committed g t p with
  | none => simp
  | some off =>
    -- the committed offset is one of the commits, within the partition
    obtain ⟨cm, hmem, rfl, rfl, rfl⟩ := mem_commits_of_committed hcm
    obtain ⟨log₀, hlog₀, hle⟩ := hs.commits cm hmem
    rw [topic?_createTopic_of_some_log? hlog₀] at hlog
    cases hlog
    simpa using hle

/-- A poll keeps its consumer within its partition. -/
theorem Positioned.poll (hs : s.Positioned) {c c' : Consumer} (hc : c ∈ s.consumers)
    {limit : Nat} {rs : List BusRecord} (hpoll : c.poll s.broker limit = .ok (rs, c')) :
    ∃ log, s.broker.log? c'.topic c'.partition = some log ∧ c'.position ≤ log.endOffset := by
  obtain ⟨log, hlog, hq⟩ := hs.consumers c hc
  rw [Consumer.poll_eq] at hpoll
  split at hpoll
  · cases hpoll
  obtain ⟨rs', htake, -, -⟩ := Consumer.take_spec (hs.sound.log?_sound hlog) hlog limit
  rw [htake, Except.ok.injEq, Prod.mk.injEq] at hpoll
  obtain ⟨-, rfl⟩ := hpoll
  -- the position moves at most to the end of the partition
  split
  · exact ⟨log, hlog, hq⟩
  · exact ⟨log, hlog, by simp only; omega⟩

/-- Every operation keeps a session positioned. -/
theorem Positioned.step (hs : s.Positioned) (o : Op) : (s.step o).Positioned := by
  cases o with
  | send topic key value => exact hs.broker_step (.send topic key value) (by simp)
  | createTopic topic n => exact hs.broker_step (.createTopic topic n) (by simp)
  | partitions topic => exact hs.broker_step (.partitions topic) (by simp)
  | openOne group topic p =>
    have hb := hs.broker_step (.consumer group topic p) (by simp)
    simp only [Session.step]
    split
    · next c b' hcons =>
      have hb' : b' = s.broker.createTopic topic s.broker.defaultPartitions := by
        have := (s.broker.consumer_spec group topic p).1
        rwa [hcons] at this
      have hstep : (s.broker.step (.consumer group topic p)).2 = b' := by
        simp [Broker.step, hcons]
      rw [hstep] at hb
      refine ⟨hb.sound, fun c' hc' => ?_, hb.commits⟩
      rcases List.mem_append.1 hc' with hc' | hc'
      · exact hb.consumers c' hc'
      · simp only [List.mem_singleton] at hc'
        subst hc' hb'
        exact hs.opened (congrArg Prod.fst hcons)
    · next e b' hcons =>
      have hstep : (s.broker.step (.consumer group topic p)).2 = b' := by
        simp [Broker.step, hcons]
      rw [hstep] at hb
      exact hb
  | openAll group topic =>
    have hb := hs.broker_step (.consumers group topic) (by simp)
    simp only [Session.step]
    split
    · next cs b' hcons =>
      have hstep : (s.broker.step (.consumers group topic)).2 = b' := by
        simp [Broker.step, hcons]
      have hb' : b' = s.broker.createTopic topic s.broker.defaultPartitions := by
        have : (s.broker.consumers group topic).2 =
            s.broker.createTopic topic s.broker.defaultPartitions := consumers_snd group
        rwa [hcons] at this
      rw [hstep] at hb
      refine ⟨hb.sound, fun c hc => ?_, hb.commits⟩
      rcases List.mem_append.1 hc with hc | hc
      · exact hb.consumers c hc
      · -- each consumer is one opened on the broker with its topic made sure of
        obtain ⟨p, hp⟩ := mem_consumers (congrArg Prod.fst hcons) hc
        have hs' := hs.broker_step (.createTopic topic s.broker.defaultPartitions) (by simp)
        obtain ⟨log, hlog, hq⟩ := Positioned.opened (s := ⟨_, s.consumers⟩) hs' hp
        subst hb'
        simp only [Broker.step, createTopic_createTopic, createTopic_defaultPartitions] at hlog
        exact ⟨log, hlog, hq⟩
    · next e b' hcons =>
      have hstep : (s.broker.step (.consumers group topic)).2 = b' := by
        simp [Broker.step, hcons]
      rw [hstep] at hb
      exact hb
  | poll i limit =>
    simp only [Session.step]
    split
    · next c hc =>
      split
      · next rs c' hpoll =>
        have hmem := List.mem_of_getElem? hc
        refine ⟨hs.sound, fun c'' hc'' => ?_, hs.commits⟩
        rcases List.mem_or_eq_of_mem_set hc'' with hc'' | rfl
        · exact hs.consumers c'' hc''
        · exact hs.poll hmem hpoll
      · exact hs
    · exact hs
  | commit i =>
    simp only [Session.step]
    split
    · next c hc =>
      have hmem := List.mem_of_getElem? hc
      have hsound := (hs.sound.step (.commit c)).1
      have htopics : (c.commit s.broker).topics = s.broker.topics := by
        simp only [Consumer.commit, Broker.commit]
        split <;> rfl
      have hlog : ∀ t p, (c.commit s.broker).log? t p = s.broker.log? t p := fun t p => by
        simp [log?, topic?, htopics]
      refine ⟨hsound, fun c' hc' => by rw [hlog]; exact hs.consumers c' hc', fun cm hcm => ?_⟩
      rw [hlog]
      rcases mem_commit hcm with hcm | ⟨ht, hp, hoff⟩
      · exact hs.commits cm hcm
      · -- the new commit is the consumer's own position
        rw [ht, hp, hoff]
        exact hs.consumers c hmem
    · exact hs
  | close => exact hs.broker_step .close (by simp)

/-- Every run keeps a session positioned. -/
theorem Positioned.run (hs : s.Positioned) (ops : List Op) : (s.run ops).Positioned := by
  induction ops generalizing s with
  | nil => exact hs
  | cons o ops ih => exact ih (hs.step o)

/-- The laws of reading, along every run of a session over a broker made by
`withRetention`:

* every consumer stands at most at its partition's end;
* a poll fails on a closed broker and is otherwise one look: exactly the kept records
  with offsets `m, …, m + k - 1`, for `m = max q start` and `k = min limit (end - m)`, the
  position moved to `m + k` when there were any and left as it was otherwise, and none
  exactly when the poll may take none or no kept record lies at or after `q`;
* a waiting fetch of a consumer, polled while others change the broker and the clock,
  looks at the broker first and ends as `Fetch.Ends` says: records only from its last
  look, nothing only after its deadline, and then at every sound broker it looked at no
  kept record at or after `q`, unless it may take none;
* a consumer opened for a group starts at the group's commit, zero when there is none,
  and a poll of it on the open broker takes every kept record from there that its limit
  leaves room for; the consumers of a topic opened at once start at their commits too. -/
theorem run_positions (n retention : Nat) (ops : List Op) :
    let s := (start n retention).run ops
    (∀ c ∈ s.consumers, ∃ log, s.broker.log? c.topic c.partition = some log ∧
      c.position ≤ log.endOffset ∧ ∀ limit,
        let m := max c.position log.base
        let k := min limit (log.endOffset - m)
        (s.broker.closed = true → c.poll s.broker limit = .error .closed) ∧
        (s.broker.closed = false → ∃ rs,
          c.poll s.broker limit = .ok (rs, if k = 0 then c else { c with position := m + k }) ∧
          rs.map (·.offset) = List.range' m k ∧ rs <:+: log.records ∧
          (rs = [] ↔ limit = 0 ∨ ∀ r ∈ log.records, r.offset < c.position))) ∧
    (∀ c ∈ s.consumers, ∀ limit timeout owner h core env,
      let f := Fetch.drive c limit timeout owner none ((h, core) :: env)
      f.2.head? = some h.broker ∧ ∀ st, f.1 = some st →
        Fetch.Ends c limit (core.now + timeout) f.2 st ∧
        (st.result = some (.ok []) → ∀ b ∈ f.2, ∀ log, b.Sound →
          b.log? c.topic c.partition = some log →
          limit = 0 ∨ ∀ r ∈ log.records, r.offset < c.position)) ∧
    (∀ g t p c, (s.broker.consumer g t p).1 = .ok c →
      c = ⟨g, t, p, (s.broker.committed g t p).getD 0⟩ ∧
      ∃ log, (s.broker.consumer g t p).2.log? t p = some log ∧
        ∀ r ∈ log.records, c.position ≤ r.offset → ∀ limit, r.offset < c.position + limit →
          (s.broker.consumer g t p).2.closed = false →
          ∃ rs c', c.poll (s.broker.consumer g t p).2 limit = .ok (rs, c') ∧ r ∈ rs) ∧
    (∀ g t cs, (s.broker.consumers g t).1 = .ok cs → ∀ c ∈ cs,
      c.group = g ∧ c.topic = t ∧ c.position = (s.broker.committed g t c.partition).getD 0) := by
  intro s
  have hs : s.Positioned := (positioned_start n retention).run ops
  refine ⟨fun c hc => ?_, fun c _ limit timeout owner h core env => ?_,
    fun g t p c hc => hs.sound.consumer_redelivers hc, fun g t cs hcs c hc => consumers_start hcs hc⟩
  · obtain ⟨log, hlog, hq⟩ := hs.consumers c hc
    exact ⟨log, hlog, hq, Consumer.poll_spec (hs.sound.log?_sound hlog) hlog⟩
  · -- a fetch starts with no wait, so its deadline is its start's
    have hends := @Fetch.drive_spec h core c limit owner timeout env none (by simp)
    refine ⟨Fetch.drive_first_looks timeout env, fun st hst => ?_⟩
    have hst' := hends st hst
    exact ⟨hst', hst'.nothing_kept⟩

end Session

end Broker

end TokenGate
