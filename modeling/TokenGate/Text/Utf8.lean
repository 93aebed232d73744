/-!
# `TokenGate.Text.Utf8`: octets to scalar values and back

Every text that crosses the bus is a list of octets, and every parser in this library
reads octets. This module is the one place where octets become `Char`s.

* `Utf8.next` reads one scalar value from the front of a list, or reports the length
  of the ill-formed prefix that stands there. The accepted shapes are the well-formed
  table of the Unicode standard (no overlong forms, no surrogates, nothing past
  U+10FFFF), given by `leadShape` as "length and the range of the second octet".
* `Utf8.decode?` is strict: one ill-formed prefix and the whole text is refused.
* `Utf8.decodeLossy` replaces every maximal ill-formed prefix by one U+FFFD, the
  "substitution of maximal subparts" practice.
* `Utf8.encode` is the encoder of `String`, as a list.
-/

set_option autoImplicit false

namespace TokenGate.Utf8

/-- The octets of a string. -/
def encode (s : String) : List UInt8 := s.toUTF8.toList

/-- The octets of one scalar value. -/
def encodeChar (c : Char) : List UInt8 := String.utf8EncodeChar c

/-- A continuation octet lies in `0x80 ..= 0xBF`. -/
def isContinuation (b : UInt8) : Bool := 0x80 ≤ b && b ≤ 0xBF

/-- What a lead octet announces: the sequence length and the bounds of the second
octet, or `none` for an octet that cannot start a sequence. -/
def leadShape (b : UInt8) : Option (Nat × UInt8 × UInt8) :=
  if b < 0x80 then some (1, 0, 0)
  else if b < 0xC2 then none
  else if b < 0xE0 then some (2, 0x80, 0xBF)
  else if b == 0xE0 then some (3, 0xA0, 0xBF)
  else if b == 0xED then some (3, 0x80, 0x9F)
  else if b < 0xF0 then some (3, 0x80, 0xBF)
  else if b == 0xF0 then some (4, 0x90, 0xBF)
  else if b < 0xF4 then some (4, 0x80, 0xBF)
  else if b == 0xF4 then some (4, 0x80, 0x8F)
  else none

/-- One step of reading: a scalar value and what follows it, or an ill-formed prefix
(already dropped) and what follows it. -/
inductive Piece where
  | scalar (c : Char) (rest : List UInt8)
  | broken (rest : List UInt8)

/-- The low six bits of a continuation octet. -/
private def low6 (b : UInt8) : Nat := (b &&& 0x3F).toNat

theorem low6_eq_mod (b : UInt8) : low6 b = b.toNat % 64 := by
  simpa [low6] using Nat.and_two_pow_sub_one_eq_mod b.toNat 6

/-- Read one piece from a list that starts with the octet `b`. An ill-formed prefix
ends at the first octet that does not fit, which is left in the rest. -/
def next (b : UInt8) (bs : List UInt8) : Piece :=
  match leadShape b with
  | none => .broken bs
  | some (1, _, _) => .scalar (Char.ofNat b.toNat) bs
  | some (2, lo, hi) =>
    match bs with
    | c1 :: r1 =>
      if lo ≤ c1 && c1 ≤ hi then
        .scalar (Char.ofNat (((b &&& 0x1F).toNat <<< 6) ||| low6 c1)) r1
      else .broken bs
    | [] => .broken []
  | some (3, lo, hi) =>
    match bs with
    | c1 :: r1 =>
      if lo ≤ c1 && c1 ≤ hi then
        match r1 with
        | c2 :: r2 =>
          if isContinuation c2 then
            .scalar (Char.ofNat (((b &&& 0x0F).toNat <<< 12) ||| (low6 c1 <<< 6) ||| low6 c2)) r2
          else .broken r1
        | [] => .broken []
      else .broken bs
    | [] => .broken []
  | some (_, lo, hi) =>
    match bs with
    | c1 :: r1 =>
      if lo ≤ c1 && c1 ≤ hi then
        match r1 with
        | c2 :: r2 =>
          if isContinuation c2 then
            match r2 with
            | c3 :: r3 =>
              if isContinuation c3 then
                .scalar (Char.ofNat (((b &&& 0x07).toNat <<< 18) ||| (low6 c1 <<< 12)
                  ||| (low6 c2 <<< 6) ||| low6 c3)) r3
              else .broken r2
            | [] => .broken []
          else .broken r1
        | [] => .broken []
      else .broken bs
    | [] => .broken []

/-- Strict decoding, with a fuel bound that the list length always meets. -/
def decodeAux : Nat → List UInt8 → Option (List Char)
  | _, [] => some []
  | 0, _ :: _ => none
  | fuel + 1, b :: bs =>
    match next b bs with
    | .scalar c rest => (decodeAux fuel rest).map (c :: ·)
    | .broken _ => none

/-- The text an octet list spells, or `none` when it is not well-formed UTF-8. -/
def decode? (bs : List UInt8) : Option String :=
  (decodeAux bs.length bs).map String.ofList

/-- Lossy decoding, with a fuel bound that the list length always meets. -/
def decodeLossyAux : Nat → List UInt8 → List Char
  | _, [] => []
  | 0, _ :: _ => []
  | fuel + 1, b :: bs =>
    match next b bs with
    | .scalar c rest => c :: decodeLossyAux fuel rest
    | .broken rest => '�' :: decodeLossyAux fuel rest

/-- The text an octet list spells, each maximal ill-formed prefix replaced by one
U+FFFD. -/
def decodeLossy (bs : List UInt8) : String :=
  String.ofList (decodeLossyAux bs.length bs)

/-- The length of the longest well-formed prefix, with a fuel bound that the list
length always meets. -/
def validPrefixAux : Nat → List UInt8 → Nat → Nat
  | _, [], acc => acc
  | 0, _ :: _, acc => acc
  | fuel + 1, b :: bs, acc =>
    match next b bs with
    | .scalar _ rest => validPrefixAux fuel rest (acc + (bs.length + 1 - rest.length))
    | .broken _ => acc

/-- How many octets at the front of a list are well-formed UTF-8. -/
def validPrefix (bs : List UInt8) : Nat := validPrefixAux bs.length bs 0

/-- Whether an octet list is well-formed UTF-8. -/
def isValid (bs : List UInt8) : Bool := (decode? bs).isSome

end TokenGate.Utf8
