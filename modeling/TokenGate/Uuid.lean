import TokenGate.Text.Utf8
/-!
# `TokenGate.Uuid`: 128-bit identifiers, their text, and their signed halves

A `Uuid` is two 64-bit halves. Everything the rest of the library needs is here:

* Text. `Uuid.display` writes the hyphenated lowercase form `8-4-4-4-12`.
  `Uuid.parse` chooses the shape by the length in octets: 32 hexadecimal digits, the
  hyphenated form (36), the hyphenated form in braces (38), or the hyphenated form after
  `urn:uuid:` in either case (45). When it refuses, a text longer than 45 octets has the
  wrong length; otherwise one scan of the text finds the reason (a text of another length
  loses its wrapper first, and its positions count the wrapper): the first character
  that is neither a hexadecimal digit nor a hyphen, at its octet index; else a bare
  text with no hyphen has the wrong length; else the hyphens do not make five groups;
  else the first group whose length is wrong.
* Halves. `msb` and `lsb` read the upper and lower 64 bits as two's complement
  integers; `ofHalves` puts them back.
* Order. Identifiers compare by their sixteen bytes, which is the order of
  `(hi, lo)` as unsigned numbers.
* Fresh identifiers. `Uuid.fresh n` is a version-4 identifier made from a counter by
  a mixing function, with the version and variant bits set as version 4 requires.
-/

set_option autoImplicit false

namespace TokenGate

/-- A 128-bit identifier: upper and lower 64 bits. -/
structure Uuid where
  hi : UInt64
  lo : UInt64
  deriving DecidableEq, Inhabited

namespace Uuid

/-- The identifier with all bits zero. -/
def nil : Uuid := ⟨0, 0⟩

/-- Whether all bits are zero. -/
def isNil (u : Uuid) : Bool := u.hi == 0 && u.lo == 0

/-- The value as one 128-bit natural. -/
def toNat (u : Uuid) : Nat := u.hi.toNat * Nat.pow 2 64 + u.lo.toNat

/-- Byte order: compare the upper halves, then the lower ones. -/
def compare (a b : Uuid) : Ordering :=
  match Ord.compare a.hi.toNat b.hi.toNat with
  | .eq => Ord.compare a.lo.toNat b.lo.toNat
  | o => o

/-- A 64-bit word read as a two's complement integer. -/
def signed (x : UInt64) : Int :=
  if x.toNat < Nat.pow 2 63 then (x.toNat : Int) else (x.toNat : Int) - (Nat.pow 2 64 : Nat)

/-- A two's complement integer as a 64-bit word. -/
def unsigned (i : Int) : UInt64 := (i % ((Nat.pow 2 64 : Nat) : Int)).toNat.toUInt64

/-- The upper half, signed. -/
def msb (u : Uuid) : Int := signed u.hi

/-- The lower half, signed. -/
def lsb (u : Uuid) : Int := signed u.lo

/-- The identifier with these signed halves. -/
def ofHalves (msb lsb : Int) : Uuid := ⟨unsigned msb, unsigned lsb⟩

/-- The version field: bits 12 to 15 of the upper half. -/
def version (u : Uuid) : Nat := ((u.hi >>> 12) &&& 0xF).toNat

/-- One lowercase hexadecimal digit. -/
def hexChar (d : Nat) : Char :=
  if d < 10 then Char.ofNat (48 + d) else Char.ofNat (87 + d)

/-- The `n` low hexadecimal digits of a natural, most significant first. -/
def hexDigits (x : Nat) : Nat → List Char
  | 0 => []
  | n + 1 => hexDigits (x / 16) n ++ [hexChar (x % 16)]

/-- The hyphenated lowercase text. -/
def display (u : Uuid) : String :=
  let ds := hexDigits u.toNat 32
  String.ofList (ds.take 8 ++ ['-'] ++ (ds.drop 8).take 4 ++ ['-'] ++ (ds.drop 12).take 4 ++ ['-']
    ++ (ds.drop 16).take 4 ++ ['-'] ++ ds.drop 20)

instance : ToString Uuid := ⟨display⟩

/-- The value of a hexadecimal digit character. -/
def hexValue (c : Char) : Option Nat :=
  if '0' ≤ c && c ≤ '9' then some (c.toNat - 48)
  else if 'a' ≤ c && c ≤ 'f' then some (c.toNat - 87)
  else if 'A' ≤ c && c ≤ 'F' then some (c.toNat - 55)
  else none

/-- The value of a string of hexadecimal digits, if all of them are. -/
def hexNumber (cs : List Char) : Option Nat :=
  cs.foldlM (fun acc c => (hexValue c).map (acc * 16 + ·)) 0

/-- The identifier of a 128-bit natural. -/
def ofNat (n : Nat) : Uuid := ⟨(n / Nat.pow 2 64).toUInt64, (n % Nat.pow 2 64).toUInt64⟩

/-- Read the hyphenated form: hyphens at positions 8, 13, 18 and 23, digits elsewhere. -/
def hyphenated (cs : List Char) : Option Uuid :=
  if cs.length == 36 && cs[8]? == some '-' && cs[13]? == some '-' && cs[18]? == some '-'
      && cs[23]? == some '-' then
    (hexNumber (cs.filter (· != '-'))).bind fun n =>
      if (cs.filter (· == '-')).length == 4 then some (ofNat n) else none
  else none

/-- Whether the text starts with `urn:uuid:`, letters in either case. -/
def urnPrefixed (cs : List Char) : Bool :=
  (cs.take 9).map Char.toLower == "urn:uuid:".toList

/-- Whether the text is wrapped in a pair of braces. -/
def braced (cs : List Char) : Bool :=
  cs.length ≥ 2 && cs.head? == some '{' && cs.getLast? == some '}'

/-- The accepted shapes, by length in octets; `none` when the text is not one of them. -/
def accept (s : String) : Option Uuid :=
  let cs := s.toList
  let n := (Utf8.encode s).length
  if n == 32 then
    if cs.length == 32 then (hexNumber cs).map ofNat else none
  else if n == 36 then hyphenated cs
  else if n == 38 && braced cs then hyphenated ((cs.drop 1).dropLast)
  else if n == 45 && urnPrefixed cs then hyphenated (cs.drop 9)
  else none

/-- Where the group boundaries of the hyphenated form fall. -/
def blockStarts : List Nat := [0, 9, 14, 19, 24]

/-- The expected length of each group. -/
def groupLengths : List Nat := [8, 4, 4, 4, 12]

/-- The part of a refused text that is scanned for the reason, the octet offset added
to the positions found in it, and whether it is read as the bare 32-digit form; `none`
when the text is longer than any accepted shape. A text of an accepted length is
scanned as the shape that length selects, positions counted within that shape; any
other text loses its braces or its `urn:uuid:` prefix first, positions counted in the
whole text. -/
def frame (cs : List Char) (n : Nat) : Option (List Char × Nat × Bool) :=
  if n == 32 then some (cs, 0, true)
  else if n == 36 then some (cs, 0, false)
  else if n == 38 && braced cs then some ((cs.drop 1).dropLast, 0, false)
  else if n == 45 && urnPrefixed cs then some (cs.drop 9, 0, false)
  else if n > 45 then none
  else if braced cs then some ((cs.drop 1).dropLast, 1, false)
  else if urnPrefixed cs then some (cs.drop 9, 9, false)
  else some (cs, 0, true)

/-- Why a text is not an identifier. -/
def diagnose (s : String) : String :=
  let n := (Utf8.encode s).length
  match frame s.toList n with
  | none => "invalid length: found " ++ toString n
  | some (body, offset, bare) =>
    -- One scan: octet index, hyphen count, hyphen positions (first four).
    let step (st : Option String × Nat × Nat × List Nat) (c : Char) :
        Option String × Nat × Nat × List Nat :=
      let (err, index, hyphens, bounds) := st
      match err with
      | some _ => st
      | none =>
        let width := (Utf8.encodeChar c).length
        if c == '-' then
          (none, index + width, hyphens + 1, if hyphens < 4 then bounds ++ [index] else bounds)
        else if (hexValue c).isSome then (none, index + width, hyphens, bounds)
        else
          (some ("invalid character: found `" ++ String.singleton c ++ "` at "
            ++ toString (index + offset)), index + width, hyphens, bounds)
    let (err, _, hyphens, bounds) := body.foldl step (none, 0, 0, [])
    match err with
    | some e => e
    | none =>
      if hyphens == 0 && bare then
        "invalid length: found " ++ toString n
      else if hyphens != 4 then
        "invalid group count: expected 5, found " ++ toString (hyphens + 1)
      else
        let wrong := (List.range 4).find? fun i =>
          bounds.getD i 0 != blockStarts.getD (i + 1) 0 - 1
        match wrong with
        | some i =>
          "invalid group length in group " ++ toString i ++ ": expected "
            ++ toString (groupLengths.getD i 0) ++ ", found "
            ++ toString (bounds.getD i 0 - blockStarts.getD i 0)
        | none =>
          "invalid group length in group 4: expected 12, found "
            ++ toString (n - 24)

/-- Read an identifier from its text, or say why the text is not one. -/
def parse (s : String) : Except String Uuid :=
  match accept s with
  | some u => .ok u
  | none => .error (diagnose s)

/-- A 64-bit mixing step (SplitMix64): a bijection on words, spreading every input
bit over the output. -/
def mix (z : UInt64) : UInt64 :=
  let z := (z ^^^ (z >>> 30)) * 0xBF58476D1CE4E5B9
  let z := (z ^^^ (z >>> 27)) * 0x94D049BB133111EB
  z ^^^ (z >>> 31)

/-- A version-4 identifier for counter `n`: mixed bits, then the version and variant
bits stamped. -/
def fresh (n : Nat) : Uuid :=
  let hi := mix (n.toUInt64 * 0x9E3779B97F4A7C15)
  let lo := mix (hi + 0x632BE59BD9B4E019)
  ⟨(hi &&& 0xFFFFFFFFFFFF0FFF) ||| 0x4000, (lo &&& 0x3FFFFFFFFFFFFFFF) ||| 0x8000000000000000⟩

end Uuid

end TokenGate
