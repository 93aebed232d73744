import Mathlib
import TokenGate.Message.Response
/-!
# `TokenGate.Proofs.Halves`: identifiers survive their signed halves

On the wire an identifier travels as two signed 64-bit integers: `Uuid.msb` and
`Uuid.lsb` read its upper and lower 64-bit words as two's complement integers, and
`Uuid.ofHalves` writes two such integers back as words. Both conversions are the
standard casts between 64-bit words and signed 64-bit integers, and every round trip
follows from the library's own laws for those casts.

* `Uuid.signed_eq_toInt`, `Uuid.unsigned_eq_ofInt`: reading a word signed is the cast
  `UInt64 → Int64`; writing an integer as a word wraps it modulo `2 ^ 64`, as the cast
  `Int → Int64 → UInt64` does.
* `Uuid.unsigned_signed`, `Uuid.signed_unsigned`: the two conversions invert each other,
  the second on signed 64-bit integers.
* `Uuid.hi_toNat`, `Uuid.lo_toNat`: the two words are the upper and lower 64 bits of the
  128-bit value; `Uuid.msb_eq_toInt` and `Uuid.lsb_eq_toInt` say which bits each half reads.
* `Uuid.halves_roundTrip`: every identifier survives its halves, every pair of signed
  64-bit integers survives the identifier it makes, each half is the two's complement
  reading of its 64 bits, and the halves of a device description give back the device's
  identifier and its tenant's. Identifiers of every kind (tenant, device, customer,
  credentials) are `Uuid`s, so this is the round trip for each of them.
-/

set_option autoImplicit false

namespace TokenGate

namespace Uuid

/-- The word an integer is written as holds the integer's residue modulo `2 ^ 64`. -/
theorem toNat_unsigned (z : Int) : (unsigned z).toNat = (z % 2 ^ 64).toNat := by
  have hlt : (z % 2 ^ 64).toNat < 2 ^ 64 := by
    have := Int.emod_lt_of_pos z (show (0 : Int) < 2 ^ 64 by decide)
    omega
  simp only [unsigned, Nat.pow_eq, Nat.toUInt64_eq, UInt64.toNat_ofNat']
  exact Nat.mod_eq_of_lt hlt

/-- Writing an integer as a word is the wrapping cast through `Int64`. -/
theorem unsigned_eq_ofInt (z : Int) : unsigned z = (Int64.ofInt z).toUInt64 := by
  apply UInt64.toNat_inj.mp
  rw [toNat_unsigned, ← UInt64.toNat_toBitVec, Int64.toBitVec_toUInt64, Int64.toBitVec_ofInt,
    BitVec.toNat_ofInt]
  norm_cast

/-- Reading a word signed is the cast `UInt64 → Int64`, that is, two's complement. -/
theorem signed_eq_toInt (x : UInt64) : signed x = x.toInt64.toInt := by
  rw [← Int64.toInt_toBitVec, UInt64.toBitVec_toInt64, BitVec.toInt_eq_toNat_cond, signed,
    UInt64.toNat_toBitVec]
  have hx := x.toNat_lt
  simp only [Nat.pow_eq]
  -- Both sides test the sign bit, one as `x < 2 ^ 63`, the other as `2 * x < 2 ^ 64`.
  split <;> split <;> omega

example : signed 0x7FFFFFFFFFFFFFFF = 9223372036854775807 ∧
    signed 0x8000000000000000 = -9223372036854775808 ∧ signed 0xFFFFFFFFFFFFFFFF = -1 := by
  decide

@[simp]
theorem unsigned_signed (x : UInt64) : unsigned (signed x) = x := by
  rw [signed_eq_toInt, unsigned_eq_ofInt, Int64.ofInt_toInt, UInt64.toUInt64_toInt64]

@[simp]
theorem signed_unsigned (i : Int64) : signed (unsigned i.toInt) = i.toInt := by
  rw [unsigned_eq_ofInt, Int64.ofInt_toInt, signed_eq_toInt, Int64.toInt64_toUInt64]

/-- An identifier split into its halves and put back is itself. -/
@[simp]
theorem ofHalves_msb_lsb (u : Uuid) : ofHalves u.msb u.lsb = u := by
  simp [ofHalves, msb, lsb]

/-- Two signed 64-bit integers put together and split again: the upper half. -/
@[simp]
theorem msb_ofHalves (msb lsb : Int64) : (ofHalves msb.toInt lsb.toInt).msb = msb.toInt :=
  signed_unsigned msb

/-- Two signed 64-bit integers put together and split again: the lower half. -/
@[simp]
theorem lsb_ofHalves (msb lsb : Int64) : (ofHalves msb.toInt lsb.toInt).lsb = lsb.toInt :=
  signed_unsigned lsb

/-- The upper word is the upper 64 bits of the 128-bit value. -/
theorem hi_toNat (u : Uuid) : u.hi.toNat = u.toNat / 2 ^ 64 := by
  have := u.lo.toNat_lt
  simp only [toNat, Nat.pow_eq]
  omega

/-- The lower word is the lower 64 bits of the 128-bit value. -/
theorem lo_toNat (u : Uuid) : u.lo.toNat = u.toNat % 2 ^ 64 := by
  have := u.lo.toNat_lt
  simp only [toNat, Nat.pow_eq]
  omega

/-- A word read signed is the two's complement reading of the low 64 bits of any natural
it agrees with modulo `2 ^ 64`. -/
theorem signed_eq_ofNat {x : UInt64} {n : Nat} (h : x.toNat = n % 2 ^ 64) :
    signed x = (BitVec.ofNat 64 n).toInt := by
  have hbits : x.toBitVec = BitVec.ofNat 64 n :=
    BitVec.eq_of_toNat_eq (by rw [UInt64.toNat_toBitVec, BitVec.toNat_ofNat, h])
  rw [signed_eq_toInt, ← Int64.toInt_toBitVec, UInt64.toBitVec_toInt64, hbits]

/-- The upper half is the two's complement reading of the upper 64 bits. -/
theorem msb_eq_toInt (u : Uuid) : u.msb = (BitVec.ofNat 64 (u.toNat / 2 ^ 64)).toInt :=
  signed_eq_ofNat (by rw [← hi_toNat, Nat.mod_eq_of_lt u.hi.toNat_lt])

/-- The lower half is the two's complement reading of the lower 64 bits. -/
theorem lsb_eq_toInt (u : Uuid) : u.lsb = (BitVec.ofNat 64 u.toNat).toInt :=
  signed_eq_ofNat (lo_toNat u)

/-- Identifiers and their signed halves. An identifier split into its halves and put
back is itself; two signed 64-bit integers put together and split again are themselves;
the upper half is the two's complement reading of the upper 64 bits of the 128-bit value
and the lower half that of the lower 64 bits; and the halves a device description
carries, put back together, are the device's identifier and its tenant's. -/
theorem halves_roundTrip :
    (∀ u : Uuid, ofHalves u.msb u.lsb = u) ∧
    (∀ msb lsb : Int64,
      (ofHalves msb.toInt lsb.toInt).msb = msb.toInt ∧
        (ofHalves msb.toInt lsb.toInt).lsb = lsb.toInt) ∧
    (∀ u : Uuid, u.msb = (BitVec.ofNat 64 (u.toNat / 2 ^ 64)).toInt ∧
      u.lsb = (BitVec.ofNat 64 u.toNat).toInt) ∧
    (∀ (d : Device) (additionalInfo : String),
      ofHalves (DeviceInfo.ofDevice d additionalInfo).tenantIdMsb
          (DeviceInfo.ofDevice d additionalInfo).tenantIdLsb = d.tenantId ∧
        ofHalves (DeviceInfo.ofDevice d additionalInfo).deviceIdMsb
          (DeviceInfo.ofDevice d additionalInfo).deviceIdLsb = d.id) :=
  ⟨ofHalves_msb_lsb, fun msb lsb => ⟨msb_ofHalves msb lsb, lsb_ofHalves msb lsb⟩,
    fun u => ⟨msb_eq_toInt u, lsb_eq_toInt u⟩,
    fun d _ => ⟨ofHalves_msb_lsb d.tenantId, ofHalves_msb_lsb d.id⟩⟩

end Uuid

end TokenGate
