import Mathlib
import TokenGate.Text.Utf8
/-!
# `TokenGate.Proofs.Utf8`: the strict decoder reads back what the encoder writes

`Utf8.encode` writes a string as the octets of its characters, and `Utf8.decode?` reads
octets against the well-formed table of the Unicode standard. The two agree:

* `next_one` … `next_four`: a lead octet with its continuation octets is read as the
  value their payload bits spell, provided the value is one that the lead octet's row
  of the table admits (no overlong form, no surrogate, nothing past U+10FFFF).
* `next_encodeChar`: the octets of any character are such a sequence, and are read back
  as the character, whatever follows them.
* `decode?_encode`: decoding the octets of a string gives the string.
-/

set_option autoImplicit false

namespace TokenGate.Utf8

/-- The table of lead octets, over their numeric value. -/
theorem leadShape_toNat (b : UInt8) : leadShape b =
    if b.toNat < 128 then some (1, 0, 0)
    else if b.toNat < 194 then none
    else if b.toNat < 224 then some (2, 0x80, 0xBF)
    else if b.toNat = 224 then some (3, 0xA0, 0xBF)
    else if b.toNat = 237 then some (3, 0x80, 0x9F)
    else if b.toNat < 240 then some (3, 0x80, 0xBF)
    else if b.toNat = 240 then some (4, 0x90, 0xBF)
    else if b.toNat < 244 then some (4, 0x80, 0xBF)
    else if b.toNat = 244 then some (4, 0x80, 0x8F)
    else none := by
  simp only [leadShape, UInt8.lt_iff_toNat_lt, beq_iff_eq, ← UInt8.toNat_inj]
  rfl

/-- Bits set above a smaller number are added to it. -/
theorem or_eq_add (a : Nat) {b : Nat} (i : Nat) (ha : a % 2 ^ i = 0) (hb : b < 2 ^ i) :
    a ||| b = a + b := by
  obtain ⟨k, rfl⟩ : 2 ^ i ∣ a := Nat.dvd_of_mod_eq_zero ha
  rw [Nat.two_pow_add_eq_or_of_lt hb]

theorem next_one {b : UInt8} (hb : b.toNat < 128) (r : List UInt8) :
    next b r = .scalar (Char.ofNat b.toNat) r := by
  rw [next, leadShape_toNat, if_pos hb]
  rfl

theorem next_two {b c1 : UInt8} (hb : 194 ≤ b.toNat ∧ b.toNat < 224)
    (hc : 128 ≤ c1.toNat ∧ c1.toNat < 192) (r : List UInt8) :
    next b (c1 :: r) = .scalar (Char.ofNat (b.toNat % 32 * 64 + c1.toNat % 64)) r := by
  rw [next, leadShape_toNat, if_neg (by omega), if_neg (by omega), if_pos (by omega)]
  dsimp only
  simp only [UInt8.le_iff_toNat_le, UInt8.toNat_and, low6_eq_mod, Nat.shiftLeft_eq,
    UInt8.reduceToNat, Nat.reducePow]
  rw [if_pos (by simp; omega), show (31 : Nat) = 2 ^ 5 - 1 from rfl, Nat.and_two_pow_sub_one_eq_mod,
    or_eq_add _ 6 (by simp) (by simp; omega)]

theorem next_three {b c1 c2 : UInt8} (hb : 224 ≤ b.toNat ∧ b.toNat < 240)
    (hc1 : 128 ≤ c1.toNat ∧ c1.toNat < 192) (hc2 : 128 ≤ c2.toNat ∧ c2.toNat < 192)
    (hv : 0x800 ≤ b.toNat % 16 * 4096 + c1.toNat % 64 * 64 + c2.toNat % 64)
    (hs : b.toNat % 16 * 4096 + c1.toNat % 64 * 64 + c2.toNat % 64 < 0xD800 ∨
      0xDFFF < b.toNat % 16 * 4096 + c1.toNat % 64 * 64 + c2.toNat % 64) (r : List UInt8) :
    next b (c1 :: c2 :: r) =
      .scalar (Char.ofNat (b.toNat % 16 * 4096 + c1.toNat % 64 * 64 + c2.toNat % 64)) r := by
  -- the lead octet bounds the second one: above the overlong forms after `E0`, below the
  -- surrogates after `ED`
  have hlead : ∃ lo hi : UInt8, leadShape b = some (3, lo, hi) ∧ lo.toNat ≤ c1.toNat ∧
      c1.toNat ≤ hi.toNat := by
    rw [leadShape_toNat, if_neg (by omega), if_neg (by omega), if_neg (by omega)]
    by_cases h224 : b.toNat = 224
    · rw [if_pos h224]
      exact ⟨_, _, rfl, by simp; omega, by simp; omega⟩
    · by_cases h237 : b.toNat = 237
      · rw [if_neg h224, if_pos h237]
        exact ⟨_, _, rfl, by simp; omega, by simp; omega⟩
      · rw [if_neg h224, if_neg h237, if_pos (by omega)]
        exact ⟨_, _, rfl, by simp; omega, by simp; omega⟩
  obtain ⟨lo, hi, hl, hlo, hhi⟩ := hlead
  rw [next, hl]
  dsimp only
  simp only [UInt8.le_iff_toNat_le, UInt8.toNat_and, low6_eq_mod, Nat.shiftLeft_eq,
    UInt8.reduceToNat, isContinuation, Nat.reducePow]
  rw [if_pos (by simp; omega), if_pos (by simp; omega), show (15 : Nat) = 2 ^ 4 - 1 from rfl,
    Nat.and_two_pow_sub_one_eq_mod, or_eq_add (b.toNat % 2 ^ 4 * 4096) 12 (by simp) (by simp; omega),
    or_eq_add _ 6 (by simp; omega) (by simp; omega)]

theorem next_four {b c1 c2 c3 : UInt8} (hb : 240 ≤ b.toNat ∧ b.toNat < 245)
    (hc1 : 128 ≤ c1.toNat ∧ c1.toNat < 192) (hc2 : 128 ≤ c2.toNat ∧ c2.toNat < 192)
    (hc3 : 128 ≤ c3.toNat ∧ c3.toNat < 192)
    (hv : 0x10000 ≤ b.toNat % 8 * 262144 + c1.toNat % 64 * 4096 + c2.toNat % 64 * 64 + c3.toNat % 64)
    (hm : b.toNat % 8 * 262144 + c1.toNat % 64 * 4096 + c2.toNat % 64 * 64 + c3.toNat % 64 ≤ 0x10FFFF)
    (r : List UInt8) :
    next b (c1 :: c2 :: c3 :: r) =
      .scalar (Char.ofNat (b.toNat % 8 * 262144 + c1.toNat % 64 * 4096 + c2.toNat % 64 * 64
        + c3.toNat % 64)) r := by
  -- the lead octet bounds the second one: above the overlong forms after `F0`, below
  -- U+110000 after `F4`
  have hlead : ∃ lo hi : UInt8, leadShape b = some (4, lo, hi) ∧
      lo.toNat ≤ c1.toNat ∧ c1.toNat ≤ hi.toNat := by
    rw [leadShape_toNat, if_neg (by omega), if_neg (by omega), if_neg (by omega), if_neg (by omega),
      if_neg (by omega), if_neg (by omega)]
    by_cases h240 : b.toNat = 240
    · rw [if_pos h240]
      exact ⟨_, _, rfl, by simp; omega, by simp; omega⟩
    · by_cases h244 : b.toNat = 244
      · rw [if_neg h240, if_neg (by omega), if_pos h244]
        exact ⟨_, _, rfl, by simp; omega, by simp; omega⟩
      · rw [if_neg h240, if_pos (by omega)]
        exact ⟨_, _, rfl, by simp; omega, by simp; omega⟩
  obtain ⟨lo, hi, hl, hlo, hhi⟩ := hlead
  rw [next, hl]
  dsimp only
  simp only [UInt8.le_iff_toNat_le, UInt8.toNat_and, low6_eq_mod, Nat.shiftLeft_eq,
    UInt8.reduceToNat, isContinuation, Nat.reducePow]
  rw [if_pos (by simp; omega), if_pos (by simp; omega), if_pos (by simp; omega),
    show (7 : Nat) = 2 ^ 3 - 1 from rfl, Nat.and_two_pow_sub_one_eq_mod,
    or_eq_add (b.toNat % 2 ^ 3 * 262144) 18 (by simp) (by simp; omega),
    or_eq_add (b.toNat % 2 ^ 3 * 262144 + c1.toNat % 64 * 4096) 12 (by simp; omega) (by simp; omega),
    or_eq_add _ 6 (by simp; omega) (by simp; omega)]

/-- The octets of a character are read back as it, whatever follows them. -/
theorem next_encodeChar (c : Char) (rest : List UInt8) :
    ∃ b bs, encodeChar c ++ rest = b :: bs ∧ next b bs = .scalar c rest := by
  have hvalid : c.toNat < 0xD800 ∨ (0xDFFF < c.toNat ∧ c.toNat < 0x110000) := c.valid
  have hc : c.val.toNat = c.toNat := rfl
  have hof : ∀ m, m = c.toNat → Piece.scalar (Char.ofNat m) rest = .scalar c rest :=
    fun m hm => by rw [hm, Char.ofNat_toNat]
  simp only [encodeChar, String.utf8EncodeChar, hc]
  -- one case per length of the encoding; each octet's value is arithmetic on the code point
  split_ifs with h1 h2 h3 <;> simp only [List.cons_append, List.nil_append] <;>
    refine ⟨_, _, rfl, ?_⟩
  · refine (next_one ?_ rest).trans (hof _ ?_) <;>
      simp only [UInt8.toNat_ofNat', Nat.reducePow] <;> omega
  · refine (next_two ?_ ?_ rest).trans (hof _ ?_) <;>
      simp only [UInt8.toNat_ofNat', Nat.reducePow] <;> omega
  · refine (next_three ?_ ?_ ?_ ?_ ?_ rest).trans (hof _ ?_) <;>
      simp only [UInt8.toNat_ofNat', Nat.reducePow] <;> omega
  · refine (next_four ?_ ?_ ?_ ?_ ?_ ?_ rest).trans (hof _ ?_) <;>
      simp only [UInt8.toNat_ofNat', Nat.reducePow] <;> omega

/-- Decoding the octets of characters gives them back, given fuel for every octet. -/
theorem decodeAux_flatMap (cs : List Char) (fuel : Nat)
    (h : (cs.flatMap encodeChar).length ≤ fuel) :
    decodeAux fuel (cs.flatMap encodeChar) = some cs := by
  induction cs generalizing fuel with
  | nil => cases fuel <;> rfl
  | cons c cs ih =>
    obtain ⟨b, bs, hbs, hnext⟩ := next_encodeChar c (cs.flatMap encodeChar)
    -- every character takes at least one octet, so one unit of fuel per step suffices
    have hlen : (cs.flatMap encodeChar).length < fuel := by
      rw [List.flatMap_cons, List.length_append] at h
      have : 0 < (encodeChar c).length := by
        simp only [encodeChar, String.length_utf8EncodeChar]
        exact c.utf8Size_pos
      omega
    obtain ⟨f, rfl⟩ : ∃ f, fuel = f + 1 := ⟨fuel - 1, by omega⟩
    rw [List.flatMap_cons, hbs, decodeAux, hnext]
    simp [ih f (by omega)]

theorem toList_loop_eq (bs : ByteArray) (i : Nat) (r : List UInt8) :
    ByteArray.toList.loop bs i r = r.reverse ++ bs.data.toList.drop i := by
  fun_induction ByteArray.toList.loop bs i r with
  | case1 i r h ih =>
    have hi : i < bs.data.toList.length := by simpa using h
    rw [ih, List.drop_eq_getElem_cons hi]
    simp [ByteArray.get!, h]
  | case2 i r h =>
    rw [List.drop_eq_nil_of_le (by simpa using Nat.le_of_not_lt h)]
    simp

/-- The octets of a string are those of its characters, in order. -/
theorem encode_eq_flatMap (s : String) : encode s = s.toList.flatMap encodeChar := by
  have h := @String.toByteArray_ofList s.toList
  rw [String.ofList_toList] at h
  simp [encode, h, List.utf8Encode, ByteArray.toList, toList_loop_eq]
  rfl

/-- Strict decoding reads back the octets of every string. -/
theorem decode?_encode (s : String) : decode? (encode s) = some s := by
  rw [decode?, encode_eq_flatMap, decodeAux_flatMap _ _ (Nat.le_refl _)]
  simp

end TokenGate.Utf8
