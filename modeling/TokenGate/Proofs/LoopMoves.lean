import TokenGate.Proofs.Ledger
/-!
# `TokenGate.Proofs.LoopMoves`: the moves of a consume loop

A consume loop records three kinds of moves in the history: it takes a record its poll
returned (`Event.took`), hands a record to `dispatch` (`Event.dispatched`) and commits its
consumer's position (`Event.committed`). This module reads a loop's moves off a history
(`loopMoves`) and says which sequences of them a loop can make, one move at a time, from
the consumer it started with (`LoopStand.follow`):

* a record is taken only while none is held, at or past the consumer's position, which then
  moves one past it;
* the record held, and no other, is handed on;
* a commit commits the consumer as it stands, and only while no record is held.

`LoopStand.reached_of_follow` says what every possible sequence reaches: the records taken
are those handed on, in order, and the one held; every commit is of the loop's partition,
between the start and the current position, in order; a record held lies past every
commit. `LoopStand.commit_after` says what each commit commits: the start position, or one
past the last record handed on before it.
-/

set_option autoImplicit false

namespace TokenGate

deriving instance DecidableEq for BusRecord
deriving instance DecidableEq for Consumer

/-- What a consume loop does that the history records: it takes a record, hands a record
to `dispatch`, or commits its consumer's position. -/
inductive LoopMove where
  | took (record : BusRecord)
  | dispatched (record : BusRecord)
  | committed (consumer : Consumer)

namespace LoopMove

/-- The record a move takes, if it takes one. -/
def took? : LoopMove → Option BusRecord
  | .took r => some r
  | _ => none

/-- The record a move hands on, if it hands one on. -/
def dispatched? : LoopMove → Option BusRecord
  | .dispatched r => some r
  | _ => none

/-- The consumer a move commits, if it commits. -/
def committed? : LoopMove → Option Consumer
  | .committed c => some c
  | _ => none

end LoopMove

/-- The records a run of moves takes. -/
def tookOf (ms : List LoopMove) : List BusRecord := ms.filterMap LoopMove.took?

/-- The records a run of moves hands on. -/
def dispatchedOf (ms : List LoopMove) : List BusRecord := ms.filterMap LoopMove.dispatched?

/-- The consumers a run of moves commits. -/
def commitsOf (ms : List LoopMove) : List Consumer := ms.filterMap LoopMove.committed?

section Views

variable (ms ms' : List LoopMove) (r : BusRecord) (c : Consumer)

@[simp] theorem tookOf_nil : tookOf [] = [] := rfl
@[simp] theorem dispatchedOf_nil : dispatchedOf [] = [] := rfl
@[simp] theorem commitsOf_nil : commitsOf [] = [] := rfl

@[simp] theorem tookOf_append : tookOf (ms ++ ms') = tookOf ms ++ tookOf ms' := List.filterMap_append
@[simp] theorem dispatchedOf_append : dispatchedOf (ms ++ ms') = dispatchedOf ms ++ dispatchedOf ms' :=
  List.filterMap_append
@[simp] theorem commitsOf_append : commitsOf (ms ++ ms') = commitsOf ms ++ commitsOf ms' :=
  List.filterMap_append

@[simp] theorem tookOf_cons_took : tookOf (.took r :: ms) = r :: tookOf ms := rfl
@[simp] theorem tookOf_cons_dispatched : tookOf (.dispatched r :: ms) = tookOf ms := rfl
@[simp] theorem tookOf_cons_committed : tookOf (.committed c :: ms) = tookOf ms := rfl
@[simp] theorem dispatchedOf_cons_took : dispatchedOf (.took r :: ms) = dispatchedOf ms := rfl
@[simp] theorem dispatchedOf_cons_dispatched :
    dispatchedOf (.dispatched r :: ms) = r :: dispatchedOf ms := rfl
@[simp] theorem dispatchedOf_cons_committed : dispatchedOf (.committed c :: ms) = dispatchedOf ms := rfl
@[simp] theorem commitsOf_cons_took : commitsOf (.took r :: ms) = commitsOf ms := rfl
@[simp] theorem commitsOf_cons_dispatched : commitsOf (.dispatched r :: ms) = commitsOf ms := rfl
@[simp] theorem commitsOf_cons_committed : commitsOf (.committed c :: ms) = c :: commitsOf ms := rfl

end Views

/-- Where a consume loop stands: its consumer, and the record it took and has not yet
handed on, if any. -/
structure LoopStand where
  consumer : Consumer
  held : Option BusRecord

namespace LoopStand

/-- A loop starting with consumer `c`, holding nothing. -/
def start (c : Consumer) : LoopStand := ⟨c, none⟩

/-- One move from a stand, if it is possible there. A record is taken only when none is
held, at or past the position, which moves past it; the held record, and no other, is
handed on; the consumer as it stands is committed, only when no record is held. -/
def move : LoopStand → LoopMove → Option LoopStand
  | ⟨c, none⟩, .took r =>
    if c.position ≤ r.offset then some ⟨{ c with position := r.offset + 1 }, some r⟩ else none
  | ⟨c, some r⟩, .dispatched r' => if r' = r then some ⟨c, none⟩ else none
  | ⟨c, none⟩, .committed c' => if c' = c then some ⟨c, none⟩ else none
  | _, _ => none

/-- The moves in turn from a stand, if each is possible. -/
def follow (s : LoopStand) : List LoopMove → Option LoopStand
  | [] => some s
  | m :: ms => (s.move m).bind fun s' => s'.follow ms

@[simp] theorem follow_nil (s : LoopStand) : s.follow [] = some s := rfl

theorem follow_append (s : LoopStand) (ms ms' : List LoopMove) :
    s.follow (ms ++ ms') = (s.follow ms).bind fun s' => s'.follow ms' := by
  induction ms generalizing s with
  | nil => rfl
  | cons m ms ih =>
    simp only [List.cons_append, follow]
    cases s.move m with
    | none => rfl
    | some s₁ => exact ih s₁

theorem follow_snoc (s : LoopStand) (ms : List LoopMove) (m : LoopMove) :
    s.follow (ms ++ [m]) = (s.follow ms).bind fun s' => s'.move m := by
  rw [follow_append]
  cases s.follow ms with
  | none => rfl
  | some s' => simp only [Option.bind_some, follow]; cases s'.move m <;> rfl

/-- What one possible move does: it keeps the consumer's partition, moves the position only
forward, and takes or hands on as `move` says. -/
theorem move_eq_some {s s' : LoopStand} {m : LoopMove} (h : s.move m = some s') :
    (∃ r, m = .took r ∧ s.held = none ∧ s.consumer.position ≤ r.offset ∧
      s' = ⟨{ s.consumer with position := r.offset + 1 }, some r⟩) ∨
    (∃ r, m = .dispatched r ∧ s.held = some r ∧ s' = ⟨s.consumer, none⟩) ∨
    (m = .committed s.consumer ∧ s.held = none ∧ s' = s) := by
  obtain ⟨c, _ | r⟩ := s
  · -- holding nothing: a take or a commit
    cases m with
    | took r' =>
      simp only [move] at h
      split at h
      · exact .inl ⟨r', rfl, rfl, ‹_›, (Option.some.inj h).symm⟩
      · cases h
    | dispatched r' => simp [move] at h
    | committed c' =>
      simp only [move] at h
      split at h
      · next hc => exact .inr (.inr ⟨by rw [hc], rfl, (Option.some.inj h).symm⟩)
      · cases h
  · -- holding `r`: only handing it on
    cases m with
    | took r' => simp [move] at h
    | dispatched r' =>
      simp only [move] at h
      split at h
      · next hr => exact .inr (.inl ⟨r', rfl, by rw [hr], (Option.some.inj h).symm⟩)
      · cases h
    | committed c' => simp [move] at h

/-- What the moves `ms` from a loop started with consumer `c` lead to. -/
structure Reached (c : Consumer) (ms : List LoopMove) (s : LoopStand) : Prop where
  /-- The consumer reads the loop's partition, one past the last record taken. -/
  consumer : s.consumer =
    { c with position := ((tookOf ms).getLast?.map (·.offset + 1)).getD c.position }
  /-- The records taken are those handed on, in order, and the one held. -/
  handed : tookOf ms = dispatchedOf ms ++ s.held.toList
  advanced : c.position ≤ s.consumer.position
  /-- Every commit is of the loop's partition, between the start and where the loop stands. -/
  commits : ∀ c' ∈ commitsOf ms,
    c' = { c with position := c'.position } ∧ c.position ≤ c'.position ∧
      c'.position ≤ s.consumer.position
  sorted : ((commitsOf ms).map (·.position)).Pairwise (· ≤ ·)
  /-- A record held lies at or past the start and past every commit. -/
  held : ∀ r ∈ s.held, c.position ≤ r.offset ∧ ∀ c' ∈ commitsOf ms, c'.position ≤ r.offset

theorem reached_nil (c : Consumer) : Reached c [] (start c) where
  consumer := rfl
  handed := rfl
  advanced := Nat.le_refl _
  commits := by simp
  sorted := by simp
  held := by simp [start]

/-- One more possible move keeps what the moves before it reached. -/
theorem Reached.move {c : Consumer} {ms : List LoopMove} {s s' : LoopStand} {m : LoopMove}
    (h : Reached c ms s) (hm : s.move m = some s') : Reached c (ms ++ [m]) s' := by
  rcases move_eq_some hm with ⟨r, rfl, hheld, hle, rfl⟩ | ⟨r, rfl, hheld, rfl⟩ | ⟨rfl, hheld, rfl⟩
  · -- a take: the position moves one past the record, which is now held
    have hpos := h.advanced
    refine ⟨?_, ?_, by simp; omega, ?_, by simpa using h.sorted, ?_⟩
    · simp [h.consumer]
    · simp [h.handed, hheld]
    · intro c' hc'
      obtain ⟨h₁, h₂, h₃⟩ := h.commits c' (by simpa using hc')
      exact ⟨h₁, h₂, by simp; omega⟩
    · intro r' hr'
      obtain rfl : r' = r := by simpa using hr'.symm
      refine ⟨by omega, fun c' hc' => ?_⟩
      have := (h.commits c' (by simpa using hc')).2.2
      omega
  · -- handing on the held record
    refine ⟨by simpa using h.consumer, ?_, h.advanced, fun c' hc' => h.commits c' (by simpa using hc'),
      by simpa using h.sorted, by simp⟩
    simp [h.handed, hheld]
  · -- a commit of the consumer as it stands
    have hc := h.consumer
    refine ⟨by simpa using h.consumer, by simpa using h.handed, h.advanced, ?_, ?_, ?_⟩
    · intro c' hc'
      rcases (by simpa using hc' : c' ∈ commitsOf ms ∨ c' = s'.consumer) with hc' | rfl
      · exact h.commits c' hc'
      · exact ⟨by rw [hc], h.advanced, Nat.le_refl _⟩
    · simp only [commitsOf_append, commitsOf_cons_committed, commitsOf_nil, List.map_append,
        List.map_cons, List.map_nil, List.pairwise_append, List.pairwise_singleton, List.mem_singleton,
        forall_eq, true_and]
      refine ⟨h.sorted, fun p hp => ?_⟩
      obtain ⟨c', hc', rfl⟩ := List.mem_map.1 hp
      exact (h.commits c' hc').2.2
    · simp [hheld]

/-- Moves possible from a start reach what `Reached` says. -/
theorem reached_of_follow {c : Consumer} {ms : List LoopMove} {s : LoopStand}
    (h : (start c).follow ms = some s) : Reached c ms s := by
  induction ms using List.reverseRecOn generalizing s with
  | nil =>
    obtain rfl : start c = s := Option.some.inj h
    exact reached_nil c
  | append_singleton ms m ih =>
    rw [follow_snoc] at h
    obtain ⟨s₀, h₀, hm⟩ := Option.bind_eq_some_iff.1 h
    exact (ih h₀).move hm

/-- Moves possible from a stand are possible in part. -/
theorem follow_prefix {s s' : LoopStand} {ms ms' : List LoopMove} (h : s.follow (ms ++ ms') = some s') :
    ∃ s₁, s.follow ms = some s₁ := by
  rw [follow_append] at h
  obtain ⟨s₁, h₁, -⟩ := Option.bind_eq_some_iff.1 h
  exact ⟨s₁, h₁⟩

/-- A commit possible after moves from a start commits the start position, or one past the
last record handed on before it. -/
theorem commit_after {c c' : Consumer} {ms₁ ms₂ : List LoopMove} {s : LoopStand}
    (h : (start c).follow (ms₁ ++ .committed c' :: ms₂) = some s) :
    c' = { c with position := ((dispatchedOf ms₁).getLast?.map (·.offset + 1)).getD c.position } := by
  rw [follow_append] at h
  obtain ⟨s₁, h₁, h₂⟩ := Option.bind_eq_some_iff.1 h
  obtain ⟨s₂, hm, -⟩ := Option.bind_eq_some_iff.1 h₂
  rcases move_eq_some hm with ⟨r, hr, -⟩ | ⟨r, hr, -⟩ | ⟨hc, hheld, -⟩
  · cases hr
  · cases hr
  · -- holding nothing, the records taken are those handed on
    have hR := reached_of_follow h₁
    obtain rfl : c' = s₁.consumer := LoopMove.committed.inj hc
    rw [hR.consumer, hR.handed, hheld, Option.toList_none, List.append_nil]

end LoopStand

/-! ### The moves a history records -/

/-- The task an event names: the loop it started, or the task that took, handed on or
committed. -/
def Event.task? : Event → Option Nat
  | .consuming t _ | .took t _ | .dispatched t _ _ | .committed t _ => some t
  | _ => none

/-- The move of task `id` an event records, if it records one. -/
def Event.loopMove? (id : Nat) : Event → Option LoopMove
  | .took t r => if t = id then some (.took r) else none
  | .dispatched t r _ => if t = id then some (.dispatched r) else none
  | .committed t c => if t = id then some (.committed c) else none
  | _ => none

theorem Event.loopMove?_eq_none {e : Event} {id : Nat} (h : e.task? ≠ some id) :
    e.loopMove? id = none := by
  cases e <;> simp_all [Event.task?, Event.loopMove?]

/-- The moves of task `id` along a history, in order. -/
def loopMoves (id : Nat) (h : History) : List LoopMove := h.filterMap fun e => e.2.loopMove? id

section Moves

variable (id t : Nat)

@[simp] theorem loopMoves_nil : loopMoves id [] = [] := rfl

@[simp] theorem loopMoves_append (h h' : History) :
    loopMoves id (h ++ h') = loopMoves id h ++ loopMoves id h' := List.filterMap_append

@[simp] theorem loopMoves_took (r : BusRecord) : loopMoves id [(t, .took id r)] = [.took r] := by
  simp [loopMoves, Event.loopMove?]

@[simp] theorem loopMoves_dispatched (r : BusRecord) (a : Admission) :
    loopMoves id [(t, .dispatched id r a)] = [.dispatched r] := by
  simp [loopMoves, Event.loopMove?]

@[simp] theorem loopMoves_committed (c : Consumer) :
    loopMoves id [(t, .committed id c)] = [.committed c] := by
  simp [loopMoves, Event.loopMove?]

theorem loopMoves_eq_nil {h : History} (hh : ∀ e ∈ h, e.2.task? ≠ some id) : loopMoves id h = [] := by
  simp only [loopMoves, List.filterMap_eq_nil_iff]
  exact fun e he => Event.loopMove?_eq_none (hh e he)

end Moves

end TokenGate
