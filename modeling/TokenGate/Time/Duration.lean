import TokenGate.Text.Space
/-!
# `TokenGate.Time.Duration`: spans of time, and their two texts

A `Duration` is a whole number of nanoseconds whose seconds fit in 64 bits.

* Human text. `Duration.parse` reads a sequence of `<number><unit>` terms such as
  `1h 30m`, `1s1ms`, `25 ms` or `0.5s`, and adds them up. Units are case-sensitive:
  `ns` (`nanos`, `nsec`), `us` (`usec`, `µs`), `ms` (`millis`, `msec`), `s`
  (`seconds`, `second`, `secs`, `sec`), `m` (`minutes`, `minute`, `mins`, `min`), `h`
  (`hours`, `hour`, `hrs`, `hr`), `d` (`days`, `day`), `w` (`weeks`, `week`), `M`
  (`months`, `month`, 30.44 days) and `y` (`years`, `year`, 365.25 days). White space
  may come first, last, and between a number and its unit. A fraction needs digits on
  both sides of its point; what it adds is cut down to whole nanoseconds. A number or
  total beyond 64 bits of seconds is refused.
  `Duration.humanText` writes the span back as years, months, days, `h`, `m`, `s`,
  `ms`, `us`, `ns`, skipping zero terms (`0s` for nothing).
* Debug text. `Duration.debugText` writes one decimal number with the largest unit
  that fits: seconds, else milliseconds, else microseconds, else nanoseconds
  (`1.5s`, `3600.000000001s`, `1.5ms`, `1µs`, `999ns`).
-/

set_option autoImplicit false

namespace TokenGate

/-- A span of time in nanoseconds. -/
structure Duration where
  nanos : Nat
  deriving DecidableEq, Inhabited

namespace Duration

/-- Nanoseconds per second. -/
def nanosPerSec : Nat := 1000000000

/-- A span of whole milliseconds. -/
def ofMillis (ms : Nat) : Duration := ⟨ms * 1000000⟩

/-- Whole seconds. -/
def secs (d : Duration) : Nat := d.nanos / nanosPerSec

/-- Nanoseconds beyond the whole seconds. -/
def subsecNanos (d : Duration) : Nat := d.nanos % nanosPerSec

/-- The largest 64-bit count. -/
def u64Max : Nat := 18446744073709551615

/-- A unit of the human text. -/
inductive TimeUnit where
  | nanosecond | microsecond | millisecond | second | minute
  | hour | day | week | month | year
  deriving DecidableEq, Inhabited

namespace TimeUnit

/-- A unit by any of its names. -/
def ofName (u : String) : Option TimeUnit :=
  if u == "nanos" || u == "nsec" || u == "ns" then some .nanosecond
  else if u == "usec" || u == "us" || u == "µs" then some .microsecond
  else if u == "millis" || u == "msec" || u == "ms" then some .millisecond
  else if u == "seconds" || u == "second" || u == "secs" || u == "sec" || u == "s" then
    some .second
  else if u == "minutes" || u == "minute" || u == "min" || u == "mins" || u == "m" then
    some .minute
  else if u == "hours" || u == "hour" || u == "hr" || u == "hrs" || u == "h" then some .hour
  else if u == "days" || u == "day" || u == "d" then some .day
  else if u == "weeks" || u == "week" || u == "wk" || u == "wks" || u == "w" then some .week
  else if u == "months" || u == "month" || u == "M" then some .month
  else if u == "years" || u == "year" || u == "yr" || u == "yrs" || u == "y" then some .year
  else none

/-- The length of a unit of a second or more, in seconds (a month is 30.44 days, a year
365.25 days); zero below the second. -/
def secs : TimeUnit → Nat
  | .nanosecond | .microsecond | .millisecond => 0
  | .second => 1
  | .minute => 60
  | .hour => 3600
  | .day => 86400
  | .week => 604800
  | .month => 2630016
  | .year => 31557600

/-- The length of a unit below the second, in nanoseconds; zero from the second up. -/
def subsecond : TimeUnit → Nat
  | .nanosecond => 1
  | .microsecond => 1000
  | .millisecond => 1000000
  | _ => 0

/-- Whether the fractions of the unit are counted in nanoseconds (below the hour) or in
seconds (from the hour up). -/
def finelyDivided : TimeUnit → Bool
  | .hour | .day | .week | .month | .year => false
  | _ => true

end TimeUnit

/-- A 64-bit product, or `none` when it overflows. -/
def mul64 (a b : Nat) : Option Nat := if a * b > u64Max then none else some (a * b)

/-- An exact quotient, or `none` when the division leaves a remainder. -/
def divExact (a b : Nat) : Option Nat := if b == 0 || a % b != 0 then none else some (a / b)

/-- A number being read: its integer digits, and once a point is read the digits after
it as a numerator over a power of ten. -/
structure Number where
  whole : Nat
  fraction : Option (Nat × Nat)

/-- Letters that may spell a unit. -/
def isUnitLetter (c : Char) : Bool := c.isAlpha || c == 'µ'

/-- Read the digits of a number (blanks between them are skipped), up to the first
letter of its unit. The number's first digit has been read already. Every count stays
within 64 bits. -/
def number (n : Number) : List Char → Nat → Option (Number × List Char)
  | [], _ => some (n, [])
  | _, 0 => none
  | c :: cs, fuel + 1 =>
    if c.isDigit then
      let d := c.toNat - 48
      match n.fraction with
      | none =>
        if n.whole * 10 + d > u64Max then none
        else number { n with whole := n.whole * 10 + d } cs fuel
      | some (num, den) =>
        if num * 10 + d > u64Max || den * 10 > u64Max then none
        else number { n with fraction := some (num * 10 + d, den * 10) } cs fuel
    else if c == '.' then
      if n.fraction.isSome then none else number { n with fraction := some (0, 1) } cs fuel
    else if Space.isWhite c then number n cs fuel
    else if isUnitLetter c then some (n, c :: cs)
    else none

/-- The seconds and nanoseconds a term adds. The integer part counts whole units; a
fraction needs a digit after its point and must come to a whole number of nanoseconds
(below the hour) or of seconds (from the hour up). -/
def term (n : Number) (u : TimeUnit) : Option (Nat × Nat) := do
  let sec ← mul64 n.whole u.secs
  let nsec ← mul64 n.whole u.subsecond
  match n.fraction with
  | none => pure (sec, nsec)
  | some (num, den) =>
    if den == 1 then none
    else if u.finelyDivided then
      let part ← divExact (← mul64 num (u.secs * nanosPerSec + u.subsecond)) den
      if nsec + part > u64Max then none else pure (sec, nsec + part)
    else
      let part ← divExact (← mul64 num u.secs) den
      if sec + part > u64Max then none else pure (sec + part, nsec)

/-- Add a term to the running total of seconds and nanoseconds. The nanoseconds are
carried into the seconds only once they pass one second, so a total may hold exactly
one second of nanoseconds. -/
def addTerm (total : Nat × Nat) (sec nsec : Nat) : Option (Nat × Nat) := do
  let nsec := total.2 + nsec
  if nsec > u64Max then none
  let (sec, nsec) ← if nsec > nanosPerSec then
      (if sec + nsec / nanosPerSec > u64Max then none
        else some (sec + nsec / nanosPerSec, nsec % nanosPerSec))
    else some (sec, nsec)
  if total.1 + sec > u64Max then none
  pure (total.1 + sec, nsec)

/-- Read terms and add them up. `rest` starts at the first digit of a term. -/
def terms (total : Nat × Nat) : List Char → Nat → Option (Nat × Nat)
  | [], _ => some total
  | _, 0 => none
  | c :: cs, fuel + 1 => do
    if !c.isDigit then none
    let (n, rest) ← number ⟨c.toNat - 48, none⟩ cs fuel
    let unit := rest.takeWhile isUnitLetter
    let after := rest.drop unit.length
    let (sec, nsec) ← term n (← TimeUnit.ofName (String.ofList unit))
    let total ← addTerm total sec nsec
    match after with
    | [] => some total
    | d :: _ =>
      if d.isDigit then terms total after fuel
      else if Space.isWhite d then
        let next := after.dropWhile Space.isWhite
        match next with
        | [] => some total
        | e :: _ => if e.isDigit then terms total next fuel else none
      else none

/-- Why a human text is not a span. -/
inductive ParseError where
  /-- The text is malformed, names no unit, or a count passes 64 bits. -/
  | invalid
  /-- The terms add up to seconds that overflow once a full second of nanoseconds is
  carried into them: the runtime aborts instead of refusing. -/
  | overflow
  deriving DecidableEq, Inhabited

/-- The message of the abort. -/
def overflowMessage : String := "overflow in Duration::new"

/-- Read a span from its human text. A lone `0` is the empty span. -/
def parse (s : String) : Except ParseError Duration :=
  if s == "0" then .ok ⟨0⟩
  else
    let cs := s.toList.dropWhile Space.isWhite
    match cs with
    | [] => .error .invalid
    | _ =>
      match terms (0, 0) cs (cs.length + 1) with
      | none => .error .invalid
      | some (sec, nsec) =>
        if nsec ≥ nanosPerSec && sec + 1 > u64Max then .error .overflow
        else .ok ⟨sec * nanosPerSec + nsec⟩

/-- One term of the human text, or nothing for a zero count. -/
def piece (count : Nat) (name : String) (plural : Bool) : List String :=
  if count == 0 then []
  else [toString count ++ name ++ (if plural && count > 1 then "s" else "")]

/-- The human text of a span. -/
def humanText (d : Duration) : String :=
  if d.nanos == 0 then "0s"
  else
    let s := d.secs
    let ns := d.subsecNanos
    let years := s / 31557600
    let ydays := s % 31557600
    let months := ydays / 2630016
    let mdays := ydays % 2630016
    let days := mdays / 86400
    let daySecs := mdays % 86400
    " ".intercalate (piece years "year" true ++ piece months "month" true ++ piece days "day" true
      ++ piece (daySecs / 3600) "h" false ++ piece (daySecs % 3600 / 60) "m" false
      ++ piece (daySecs % 60) "s" false ++ piece (ns / 1000000) "ms" false
      ++ piece (ns / 1000 % 1000) "us" false ++ piece (ns % 1000) "ns" false)

/-- The fraction digits of `part / scale` (a proper fraction), trailing zeros dropped;
empty for zero. -/
def fractionDigits (part scale : Nat) : String :=
  if part == 0 then ""
  else
    let width := (toString scale).length - 1
    let raw := toString part
    let padded := String.ofList (List.replicate (width - raw.length) '0') ++ raw
    "." ++ String.ofList ((padded.toList.reverse.dropWhile (· == '0')).reverse)

/-- The debug text of a span. -/
def debugText (d : Duration) : String :=
  if d.secs > 0 then toString d.secs ++ fractionDigits d.subsecNanos nanosPerSec ++ "s"
  else if d.nanos ≥ 1000000 then
    toString (d.nanos / 1000000) ++ fractionDigits (d.nanos % 1000000) 1000000 ++ "ms"
  else if d.nanos ≥ 1000 then
    toString (d.nanos / 1000) ++ fractionDigits (d.nanos % 1000) 1000 ++ "µs"
  else toString d.nanos ++ "ns"

end Duration

end TokenGate
