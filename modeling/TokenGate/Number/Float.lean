/-!
# `TokenGate.Number.Float`: binary64 values as decimal text, and back

Two directions, both decided in exact natural-number arithmetic so that the result
never depends on how a host formats or reads floats.

* Text out. `shortest` finds, for a finite double `m · 2^e`, the decimal `d · 10^q`
  with the fewest digits that still reads back as the same double, and among those
  the one closest to the exact value (ties to an even `d`). The rounding interval is
  the half-way points to the two neighbouring doubles; its ends belong to the
  interval exactly when `m` is even, because reading rounds ties to even. `render`
  writes the result positionally when the decimal exponent lies in `-5 ..= 15`
  (`0.00001`, `2500000000000000.0`, a `.0` on integral values) and otherwise as
  `1e+16`, `1.5e-7`.
* Text in. `scale` is the reading rule of the JSON reader for a significand that fits
  in 64 bits and a power of ten: convert the significand, then one multiplication or
  division by an entry of `powTen`, or repeated division by `1e308` below the table.
  Each entry of `powTen` is the double nearest to `10^k`, built by `roundNat` from the
  exact integer.
-/

set_option autoImplicit false

namespace TokenGate.Decimal

/-- Sign, significand and binary exponent of a finite double: the value is
`(-1)^sign · m · 2^e`. -/
structure Parts where
  negative : Bool
  mantissa : Nat
  exponent : Int
  /-- The significand field is zero and the biased exponent above one, so the
  neighbour below is half as far as the one above. -/
  lowerCloser : Bool

/-- Split a double into its fields. -/
def parts (x : Float) : Parts :=
  let bits := x.toBits
  let negative := bits >>> 63 == 1
  let biased := ((bits >>> 52) &&& 0x7FF).toNat
  let frac := (bits &&& 0xFFFFFFFFFFFFF).toNat
  if biased == 0 then
    { negative, mantissa := frac, exponent := -1074, lowerCloser := false }
  else
    { negative, mantissa := frac + Nat.pow 2 52, exponent := (biased : Int) - 1075,
      lowerCloser := frac == 0 && biased > 1 }

/-- `a / b` rounded up. -/
def ceilDiv (a b : Nat) : Nat := (a + b - 1) / b

/-- `a / b` rounded to the nearest natural, ties to even. -/
def roundHalfEven (a b : Nat) : Nat :=
  let q := a / b
  let r := a % b
  if 2 * r > b then q + 1
  else if 2 * r == b then (if q % 2 == 0 then q else q + 1)
  else q

/-- The number of decimal digits of a positive natural. -/
def digitCount (n : Nat) : Nat := (toString n).length

/-- `x · 2^u / 10^q` as a fraction `(numerator, denominator)` of naturals. -/
def fraction (x : Nat) (u q : Int) : Nat × Nat :=
  let num := x * Nat.pow 2 u.toNat * Nat.pow 10 (-q).toNat
  let den := Nat.pow 2 (-u).toNat * Nat.pow 10 q.toNat
  (num, den)

/-- `⌊log10 (n / d)⌋` for a positive fraction. -/
def floorLog10 (n d : Nat) : Int :=
  if n ≥ d then (digitCount (n / d) : Int) - 1
  else
    let j0 := digitCount d - digitCount n
    if n * Nat.pow 10 j0 ≥ d then -(j0 : Int) else -((j0 : Int) + 1)

/-- The digits `d` such that `d · 10^q` lies in the rounding interval `[lo, hi]` of a
double (both given as multiples of `2^u`), closest to the exact value `v` first. -/
def pick (lo v hi : Nat) (u q : Int) (inclusive : Bool) : Option Nat :=
  let (ln, ld) := fraction lo u q
  let (hn, hd) := fraction hi u q
  let dmin := if inclusive then ceilDiv ln ld else ln / ld + 1
  let dmax := if inclusive then hn / hd else ceilDiv hn hd - 1
  if dmin ≤ dmax && 0 < hn then
    let (vn, vd) := fraction v u q
    let d := roundHalfEven vn vd
    some (if d < dmin then dmin else if d > dmax then dmax else d)
  else none

/-- Drop the trailing zeros of `d · 10^q`. -/
def trim (d : Nat) (q : Int) (fuel : Nat) : Nat × Int :=
  match fuel with
  | 0 => (d, q)
  | fuel + 1 => if d ≠ 0 && d % 10 == 0 then trim (d / 10) (q + 1) fuel else (d, q)

/-- The shortest decimal `(d, q)` with `d · 10^q` reading back as `m · 2^e`, for
`m > 0`. Nineteen candidate exponents always suffice: at `q = E - 16` the interval
holds a seventeen-digit integer. -/
def shortest (p : Parts) : Nat × Int :=
  let u := p.exponent - 2
  let v := 4 * p.mantissa
  let hi := v + 2
  let lo := if p.lowerCloser then v - 1 else v - 2
  let inclusive := p.mantissa % 2 == 0
  let (hn, hd) := fraction hi u 0
  let top := floorLog10 hn hd + 1
  let found := (List.range 19).findSome? fun (i : Nat) =>
    let q := top - (i : Int)
    (pick lo v hi u q inclusive).map fun d => (d, q)
  match found with
  | some (d, q) => trim d q 20
  | none => (p.mantissa, 0)

/-- Write `d · 10^q` (with `d > 0`) in positional decimal, with at least one digit
after the point. -/
def positional (d : Nat) (q : Int) : String :=
  let s := toString d
  let n := s.length
  let e : Int := q + n - 1
  if q ≥ 0 then s ++ String.ofList (List.replicate q.toNat '0') ++ ".0"
  else if e ≥ 0 then
    let cut := (e + 1).toNat
    String.ofList (s.toList.take cut) ++ "." ++ String.ofList (s.toList.drop cut)
  else "0." ++ String.ofList (List.replicate ((-e).toNat - 1) '0') ++ s

/-- Write `d · 10^q` (with `d > 0` and no trailing zeros) in the JSON float style:
positional while the decimal exponent is between `-5` and `15`, else one digit, the
rest after a point, and a signed exponent. -/
def render (d : Nat) (q : Int) : String :=
  let s := toString d
  let n := s.length
  let e : Int := q + n - 1
  if -5 ≤ e && e ≤ 15 then positional d q
  else
    let cs := s.toList
    let head := String.ofList (cs.take 1)
    let tail := String.ofList (cs.drop 1)
    let mant := if n > 1 then head ++ "." ++ tail else head
    let sign := if e < 0 then "-" else "+"
    mant ++ "e" ++ sign ++ toString e.natAbs

/-- The text of a double in a style: shortest digits that read back exactly, written
by `style`; `inf`, `-inf` and `NaN` for the values that are not finite. -/
def floatTextWith (style : Nat → Int → String) (x : Float) : String :=
  if x.isNaN then "NaN" else if x.isInf then (if x < 0 then "-inf" else "inf") else
  let p := parts x
  let sign := if p.negative then "-" else ""
  if p.mantissa == 0 then sign ++ "0.0"
  else
    let (d, q) := shortest p
    sign ++ style d q

/-- The text of a double in the JSON float style. -/
def floatText (x : Float) : String := floatTextWith render x

/-- The text of a double in positional decimal, never with an exponent. -/
def plainText (x : Float) : String := floatTextWith positional x

/-- The double nearest to a natural, ties to even. -/
def roundNat (n : Nat) : Float :=
  if n < Nat.pow 2 53 then n.toUInt64.toFloat
  else
    let s := n.log2 - 52
    let m := roundHalfEven n (Nat.pow 2 s)
    m.toUInt64.toFloat.scaleB s

/-- `powTen[k]` is the double nearest to `10^k`, for `k ≤ 308`. -/
def powTen : Array Float :=
  ((List.range 309).map fun k => roundNat (Nat.pow 10 k)).toArray

/-- The largest exponent of the table. -/
def powTenTop : Nat := 308

/-- How the reader turns a significand and a decimal exponent into a double, or
`none` when the result is out of range. The exponent is a 32-bit quantity; below the
table the value is divided by `1e308` until the exponent is back in range or the
value has become zero. -/
def scaleAux (f : Float) (exponent : Int) : Nat → Option Float
  | 0 => some f
  | fuel + 1 =>
    if exponent.natAbs ≤ powTenTop then
      let pow := powTen.getD exponent.natAbs 1
      if exponent ≥ 0 then
        let g := f * pow
        if g.isInf then none else some g
      else some (f / pow)
    else if f == 0 then some f
    else if exponent ≥ 0 then none
    else scaleAux (f / powTen.getD powTenTop 1) (exponent + 308) fuel

/-- The double for `± significand · 10^exponent`, read the way the JSON reader reads
it, or `none` when it overflows. -/
def scale (positive : Bool) (significand : UInt64) (exponent : Int) : Option Float :=
  (scaleAux significand.toFloat exponent 16).map fun f => if positive then f else -f

/-- The double nearest to `num / den` (positive `den`), ties to even; infinity beyond
the largest double. The quotient is first placed in a binade `2^e ≤ num / den < 2^(e+1)`,
then rounded to 53 significant bits, or to the fixed step `2^-1074` below the normal
range. -/
def ofRatio (num den : Nat) : Float :=
  if num == 0 || den == 0 then 0
  else
    let e0 : Int := (num.log2 : Int) - (den.log2 : Int)
    -- `2^e0` is within a factor two of the quotient; step down once when it is above.
    let above : Bool :=
      if e0 ≥ 0 then num < den * Nat.pow 2 e0.toNat else num * Nat.pow 2 (-e0).toNat < den
    let e := if above then e0 - 1 else e0
    let s : Int := max (e - 52) (-1074)
    let m : Nat :=
      if s ≥ 0 then roundHalfEven num (den * Nat.pow 2 s.toNat)
      else roundHalfEven (num * Nat.pow 2 (-s).toNat) den
    if s > 1023 then (1 : Float) / 0
    else m.toUInt64.toFloat.scaleB s

/-- The double nearest to `± digits · 10^exponent`, ties to even. -/
def ofDecimal (negative : Bool) (digits : Nat) (exponent : Int) : Float :=
  let x := if exponent ≥ 0 then ofRatio (digits * Nat.pow 10 exponent.toNat) 1
    else ofRatio digits (Nat.pow 10 (-exponent).toNat)
  if negative then -x else x

end TokenGate.Decimal
