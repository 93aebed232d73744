import TokenGate.Proofs.Reader
import TokenGate.Message.Envelope
import TokenGate.Message.Request
import TokenGate.Message.Response
/-!
# `TokenGate.Proofs.Accepted`: what the readers give fits its wire type

A reader's results are described by `Yields P r`: every value `r` gives, from any cursor,
satisfies `P`. This module proves such facts combinator by combinator (`Yields.bind_of`,
`Yields.place`, `Yields.closing`, `Yields.check`), for the record readers by induction on
their fuel and their field list (`Yields.byName`, `Yields.byPosition`, `Yields.record`: an
invariant of the accumulator that every field's reader keeps), and for the number reader
(`Yields.number`: a negative integer is at least `-2 ^ 63`).

From these, every value the message readers give fits the type it has on the wire:
`Yields.unsigned` (at most the bound), `Yields.signed64` (a signed 64-bit integer),
`DeviceInfo.fits_reader` (all four halves), `Response.fits_reader` (its device description),
and `Envelope.fits_reader` (a 16-bit version and a 64-bit timestamp).
`readAll_ok_yields` carries any of them to a whole text read by `readAll`.
-/
set_option autoImplicit false

namespace TokenGate.Json.Reader

variable {α β : Type}

namespace Yields

variable {P : β → Prop}

theorem bind_of {Q : α → Prop} {x : Reader α} {f : α → Reader β} (hx : Yields Q x)
    (h : ∀ a, Q a → Yields P (f a)) : Yields P (x >>= f) := by
  intro c b c' hr
  rw [go_bind] at hr
  split at hr
  · next a c₁ hx' => exact h a (hx _ _ _ hx') _ _ _ hr
  · cases hr

theorem map {Q : α → Prop} {x : Reader α} {f : α → β} (hx : Yields Q x) (h : ∀ a, Q a → P (f a)) :
    Yields P (f <$> x) := by
  intro c b c' hr
  rw [go_map] at hr
  split at hr
  · next a c₁ hx' =>
    simp only [Prod.mk.injEq, Except.ok.injEq] at hr
    exact hr.1 ▸ h a (hx _ _ _ hx')
  · cases hr

theorem failHere {m : String} : Yields P (Reader.failHere m : Reader β) :=
  bind fun _ => throw

theorem failUnplaced {m : String} : Yields P (Reader.failUnplaced m : Reader β) :=
  throw

theorem refuse {m : String} : Yields P (Reader.refuse m : Reader β) :=
  bind fun _ => failHere

theorem check {e : Except String β} (h : ∀ b, e = .ok b → P b) : Yields P (Reader.check e) := by
  cases e with
  | error m => exact failUnplaced
  | ok b => exact pure (h b rfl)

/-- Placing a fault changes no result. -/
theorem place {r : Reader β} (h : Yields P r) : Yields P (Reader.place r) := by
  intro c b c' hr
  rw [Reader.place, go_tryCatch] at hr
  split at hr
  · next b' c₁ hr' =>
    simp only [Prod.mk.injEq, Except.ok.injEq] at hr
    exact hr.1 ▸ h _ _ _ hr'
  · -- the handler only ever raises a fault again
    split at hr
    · cases hr
    · split at hr
      · cases hr
      · exact Yields.failHere _ _ _ hr

/-- An array or object gives what its body gives. -/
theorem closing {body : Reader β} {close : Reader Unit} (h : Yields P body) :
    Yields P (Reader.closing body close) := by
  intro c b c' hr
  simp only [Reader.closing, go_bind, go_lift, go_ascend] at hr
  -- only a body that gave a value lets the whole give one, and it gives that value
  rcases hb : go body c with ⟨_ | a, c₁⟩
  · rw [hb] at hr
    cases hr
  · rw [hb] at hr
    split at hr
    · cases hr
    · cases hr
    · next heq _ =>
      simp only [Except.ok.injEq] at heq
      simp only [go_pure, Prod.mk.injEq, Except.ok.injEq] at hr
      exact hr.1 ▸ heq ▸ h _ _ _ hb

end Yields

/-! ## Records -/

section Records

variable {σ : Type} {spec : RecordSpec σ} {Inv : σ → Prop}

/-- Reading the fields of a record by name keeps an invariant of the accumulator that
every field's reader keeps. -/
theorem Yields.byName (hread : ∀ i acc, Inv acc → Yields Inv (spec.read i acc)) :
    ∀ (fuel : Nat) (first : Bool) (acc : σ), Inv acc → Yields Inv (spec.byName first acc fuel) := by
  intro fuel
  induction fuel with
  | zero => intro first acc _; exact Yields.failHere
  | succ f ih =>
    intro first acc hacc
    rw [RecordSpec.byName]
    refine Yields.bind fun key => ?_
    split
    · -- the closing brace: the accumulator is the answer
      split
      · exact Yields.failUnplaced
      · exact Yields.pure hacc
    · split
      · split
        · exact Yields.failUnplaced
        · exact Yields.bind fun _ => Yields.bind_of (hread _ _ hacc) fun acc' h => ih false acc' h
      · split
        · exact Yields.failUnplaced
        · exact Yields.bind fun _ => Yields.bind fun _ => ih false acc hacc

/-- Reading the fields of a record by position keeps the same invariant. -/
theorem Yields.byPosition (hread : ∀ i acc, Inv acc → Yields Inv (spec.read i acc)) :
    ∀ (fields : List String) (i : Nat) (first : Bool) (acc : σ), Inv acc →
      Yields Inv (spec.byPosition i first acc fields) := by
  intro fields
  induction fields with
  | nil => intro i first acc hacc; exact Yields.pure hacc
  | cons f fs ih =>
    intro i first acc hacc
    rw [RecordSpec.byPosition]
    refine Yields.bind fun present => ?_
    split
    · exact Yields.bind_of (hread _ _ hacc) fun acc' h => ih _ false acc' h
    · split
      · exact ih _ first acc hacc
      · exact Yields.failUnplaced

/-- A record, read as an object or as an array, keeps an invariant of the accumulator
that holds at the start and that every field's reader keeps. -/
theorem Yields.record (hread : ∀ i acc, Inv acc → Yields Inv (spec.read i acc)) {init : σ}
    (hinit : Inv init) : Yields Inv (Reader.record spec init) := by
  refine Yields.place (Yields.bind fun b => ?_)
  split
  · exact Yields.failAhead
  · exact Yields.bind fun _ => Yields.bind fun _ =>
      Yields.closing (Yields.byPosition hread _ 0 true init hinit)
  · exact Yields.bind fun _ => Yields.bind fun _ => Yields.bind fun _ =>
      Yields.closing (Yields.byName hread _ true init hinit)
  · exact Yields.refuse

end Records

/-! ## Numbers -/

/-- A negative number the reader gives is negative and at least `-2 ^ 63`. -/
def NegFits : Number → Prop
  | .neg n => -9223372036854775808 ≤ n ∧ n < 0
  | _ => True

theorem Yields.afterInteger (positive : Bool) (v : Nat) : Yields NegFits (Reader.afterInteger positive v) := by
  refine Yields.bind fun b => ?_
  split
  · exact Yields.bind fun _ => Yields.pure trivial
  · exact Yields.bind fun _ => Yields.pure trivial
  · exact Yields.bind fun _ => Yields.pure trivial
  · split
    · exact Yields.pure trivial
    · split
      · exact Yields.pure trivial
      · next hv =>
        -- a negative integer is written with at most `2 ^ 63` as its digits' value
        simp only [Bool.or_eq_true, beq_iff_eq, gt_iff_lt, decide_eq_true_eq, not_or, Nat.not_lt] at hv
        exact Yields.pure (show -9223372036854775808 ≤ -(v : Int) ∧ -(v : Int) < 0 by omega)

theorem Yields.integerDigits (positive : Bool) :
    ∀ (fuel v : Nat), Yields NegFits (Reader.integerDigits positive v fuel) := by
  intro fuel
  induction fuel with
  | zero => intro v; exact Yields.afterInteger positive v
  | succ f ih =>
    intro v
    rw [Reader.integerDigits]
    refine Yields.bind fun b => ?_
    split
    · split
      · dsimp only
        split
        · exact Yields.bind fun _ => Yields.bind fun _ => Yields.pure trivial
        · exact Yields.bind fun _ => ih _
      · exact Yields.afterInteger positive v
    · exact Yields.afterInteger positive v

theorem Yields.number (positive : Bool) : Yields NegFits (Reader.number positive) := by
  refine Yields.bind fun b => ?_
  split
  · exact Yields.failHere
  · split
    · refine Yields.bind fun d => ?_
      split
      · split
        · exact Yields.failAhead
        · exact Yields.afterInteger positive 0
      · exact Yields.afterInteger positive 0
    · split
      · exact Yields.bind fun _ => Yields.integerDigits positive _ _
      · exact Yields.failHere

/-- A number read by `num` is whatever its visitor makes of a number the reader gives. -/
theorem Yields.num {P : α → Prop} (expecting : String) {visit : Number → Except String α}
    (h : ∀ n a, NegFits n → visit n = .ok a → P a) : Yields P (Reader.num expecting visit) := by
  refine Yields.place (Yields.bind fun b => ?_)
  split
  · exact Yields.failAhead
  · exact Yields.bind fun _ => Yields.bind_of (Yields.number false) fun n hn =>
      Yields.check fun a ha => h n a hn ha
  · split
    · exact Yields.bind_of (Yields.number true) fun n hn => Yields.check fun a ha => h n a hn ha
    · exact Yields.refuse

theorem Yields.unsigned (expecting : String) (max : Nat) :
    Yields (· ≤ max) (Reader.unsigned expecting max) := by
  refine Yields.num expecting fun n a _ hv => ?_
  cases n with
  | nat n =>
    by_cases hn : n ≤ max
    · simp only [hn, if_true, Except.ok.injEq] at hv
      exact hv ▸ hn
    · simp [hn] at hv
  | neg n => cases hv
  | float x => cases hv

theorem Yields.option {P : α → Prop} {inner : Reader α} (h : Yields P inner) :
    Yields (fun o => ∀ a ∈ o, P a) (Reader.option inner) := by
  refine Yields.bind fun b => ?_
  split
  · exact Yields.bind fun _ => Yields.bind fun _ => Yields.pure (by simp)
  · exact Yields.map h fun a ha => by simpa using ha

/-- A text read whole gives only what the reader gives. -/
theorem readAll_ok_yields {P : α → Prop} {r : Reader α} (h : Yields P r) {bytes : List UInt8} {a : α}
    (hr : readAll r bytes = .ok a) : P a := by
  have hw : Yields P (do let a ← r; Reader.finish; pure a) :=
    Yields.bind_of h fun a ha => Yields.bind fun _ => Yields.pure ha
  have hres : (Id.run (((do let a ← r; Reader.finish; pure a : Reader α).run).run
      (Cursor.start bytes))).1 = (go (do let a ← r; Reader.finish; pure a) (Cursor.start bytes)).1 := rfl
  simp only [readAll, read, hres] at hr
  rcases hgo : go (do let a ← r; Reader.finish; pure a) (Cursor.start bytes) with ⟨_ | a', c'⟩
  · rw [hgo] at hr
    cases hr
  · rw [hgo] at hr
    simp only [Except.ok.injEq] at hr
    exact hr ▸ hw _ _ _ hgo

end TokenGate.Json.Reader

namespace TokenGate

open Json Reader

/-- A signed 64-bit integer: the values a half of an identifier can hold on the wire. -/
def FitsInt64 (n : Int) : Prop := -9223372036854775808 ≤ n ∧ n ≤ 9223372036854775807

theorem Json.Reader.Yields.signed64 : Yields FitsInt64 Reader.signed64 := by
  refine Yields.num "i64" fun n a hn hv => ?_
  cases n with
  | nat n =>
    by_cases hle : n ≤ 9223372036854775807
    · simp only [hle, if_true, Except.ok.injEq] at hv
      exact hv ▸ ⟨by omega, by omega⟩
    · simp [hle] at hv
  | neg n =>
    simp only [Except.ok.injEq] at hv
    have hneg : n < 0 := hn.2
    exact hv ▸ ⟨hn.1, by omega⟩
  | float x => cases hv

namespace DeviceInfo

/-- The four halves of a device description are signed 64-bit integers. -/
def Fits (info : DeviceInfo) : Prop :=
  FitsInt64 info.tenantIdMsb ∧ FitsInt64 info.tenantIdLsb ∧ FitsInt64 info.deviceIdMsb ∧
    FitsInt64 info.deviceIdLsb

/-- Every half a draft holds, or its default, is a signed 64-bit integer. -/
def DraftFits (d : Draft) : Prop := ∀ i, FitsInt64 ((d.halves.lookup i).getD 0)

theorem draftFits_read (i : Nat) (d : Draft) (hd : DraftFits d) : Yields DraftFits (spec.read i d) := by
  simp only [spec]
  split
  · refine Yields.bind_of Yields.signed64 fun n hn => Yields.pure fun k => ?_
    by_cases hk : k = i
    · simp [hk, hn]
    · have hb : (k == i) = false := by simpa using hk
      simpa [List.lookup_cons, hb] using hd k
  · exact Yields.bind fun _ => Yields.pure hd

/-- Every device description the reader gives has halves that fit. -/
theorem fits_reader : Yields Fits reader := by
  refine Yields.map (Yields.record draftFits_read fun _ => by simp [List.lookup_nil, FitsInt64]) fun d hd => ?_
  exact ⟨hd 0, hd 1, hd 2, hd 3⟩

end DeviceInfo

namespace Response

/-- The device description an answer carries, if any, has halves that fit. -/
def Fits (r : Response) : Prop := ∀ i ∈ r.deviceInfo, i.Fits

/-- Every answer the reader gives carries a device description that fits, if any. -/
theorem fits_reader : Yields Fits reader := by
  have hinner : Yields (fun acc => ∀ o ∈ acc, ∀ i ∈ o, DeviceInfo.Fits i) (record innerSpec none) :=
    Yields.record (fun _ _ _ => Yields.bind_of (Yields.option DeviceInfo.fits_reader) fun o ho =>
      Yields.pure (by simpa using ho)) (by simp)
  have houter : Yields (fun acc => ∀ r ∈ acc, Fits r) (record outerSpec none) :=
    Yields.record (fun _ _ _ => Yields.bind_of hinner fun inner hin =>
      Yields.pure fun r hr => by
        simp only [Option.mem_def, Option.some.injEq] at hr
        subst hr
        cases inner with
        | none => simp [Fits]
        | some o => exact hin o rfl) (by simp)
  exact Yields.map houter fun acc hacc => by
    cases acc with
    | none => simp [Fits, empty]
    | some r => exact hacc r rfl

end Response

namespace Envelope

variable {α : Type}

/-- The values a frame's fields can hold on the wire: a 16-bit version and a 64-bit
timestamp. -/
def Fits (e : Envelope α) : Prop := e.version ≤ 65535 ∧ e.timestamp ≤ u64Max

section Payload

variable {P : α → Prop}

/-- The version and timestamp a draft holds, if any, fit, and its payload, if any,
satisfies `P`. -/
def DraftFits (P : α → Prop) (d : Draft α) : Prop :=
  (∀ v ∈ d.version, v ≤ 65535) ∧ (∀ t ∈ d.timestamp, t ≤ u64Max) ∧ ∀ p ∈ d.payload, P p

theorem draftFits_read {payload : Reader α} (hpayload : Yields P payload) (i : Nat) (d : Draft α)
    (hd : DraftFits P d) : Yields (DraftFits P) ((spec payload).read i d) := by
  obtain ⟨hv, ht, hp⟩ := hd
  simp only [spec]
  split
  · exact Yields.bind_of (Yields.unsigned _ _) fun v hv' =>
      Yields.pure ⟨by simpa using hv', ht, hp⟩
  · exact Yields.bind fun _ => Yields.pure ⟨hv, ht, hp⟩
  · exact Yields.bind fun _ => Yields.pure ⟨hv, ht, hp⟩
  · exact Yields.bind_of (Yields.unsigned _ _) fun t ht' =>
      Yields.pure ⟨hv, by simpa using ht', hp⟩
  · exact Yields.bind_of hpayload fun p hp' => Yields.pure ⟨hv, ht, by simpa using hp'⟩

/-- Every frame the reader gives has a version and a timestamp that fit, and a payload that
satisfies what the payload's reader gives and its default. -/
theorem fits_reader [Inhabited α] {payload : Reader α} (hpayload : Yields P payload)
    (hdefault : P default) : Yields (fun e => e.Fits ∧ P e.payload) (reader payload) := by
  refine Yields.bind_of (Yields.record (draftFits_read hpayload) (by simp [DraftFits]))
    fun d hd => Yields.pure ⟨⟨?_, ?_⟩, ?_⟩
  · cases h : d.version with
    | none => simp
    | some v => simpa using hd.1 v h
  · cases h : d.timestamp with
    | none => simp [u64Max]
    | some t => simpa using hd.2.1 t h
  · cases h : d.payload with
    | none => simpa using hdefault
    | some p => simpa using hd.2.2 p h

end Payload

end Envelope

end TokenGate
