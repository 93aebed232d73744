import TokenGate.Text.Utf8
/-!
# `TokenGate.Toml.Scan`: backtracking scanners over bytes

A `Scan α` reads from a byte position of a fixed source. It ends in one of three ways:

* `done a q`: it read `a` and stopped at `q`;
* `miss f q`: it does not apply here, and an enclosing choice may try something else;
* `stop f q`: the text is wrong here, and no choice may undo that.

A failure stops where the scanner stood when it gave up, which is where a fault is
reported. Single-token scanners (`oneOf`, `literal`, `takeWhile`) fail without moving;
`guard`, `andThen`, `optional` and `firstOf` move back to where they started before
failing or trying the next choice; a sequence fails where its failing part failed.

A `Failure` collects what was being read (`label`) and what was hoped for
(`expected`), innermost first, and an optional cause. Its message is
`invalid <first label>`, then `expected <all expected, comma separated>`, then the
cause, one per line.

Loops run on fuel equal to the bytes left plus one: each round that goes on has
consumed at least one byte.
-/

set_option autoImplicit false

namespace TokenGate.Toml

/-- What a failed scanner was reading, or hoped to see. -/
inductive Context where
  | label (what : String)
  | expected (what : String)

/-- Why a scanner failed. -/
structure Failure where
  contexts : List Context
  cause : Option String

namespace Failure

/-- A failure with nothing to say. -/
def blank : Failure := ⟨[], none⟩

/-- A failure with a cause. -/
def because (c : String) : Failure := ⟨[], some c⟩

/-- The text of a failure. -/
def message (f : Failure) : String :=
  let label := f.contexts.findSome? fun | .label w => some w | _ => none
  let expected := f.contexts.filterMap fun | .expected w => some w | _ => none
  let first := match label with
    | some l => ["invalid " ++ l]
    | none => []
  let second := if expected.isEmpty then [] else ["expected " ++ ", ".intercalate expected]
  let third := match f.cause with
    | some c => [c]
    | none => []
  "\n".intercalate (first ++ second ++ third)

end Failure

/-- How an expected character is named. -/
def quoteChar (c : Char) : String :=
  if c == '\n' then "newline" else "`" ++ String.singleton c ++ "`"

/-- How an expected text is named. -/
def quoteText (s : String) : String := "`" ++ s ++ "`"

/-- How a scanner ended. -/
inductive Step (α : Type) where
  | done (a : α) (pos : Nat)
  | miss (f : Failure) (pos : Nat)
  | stop (f : Failure) (pos : Nat)

/-- A scanner: from a source and a position, a step. -/
def Scan (α : Type) : Type := Array UInt8 → Nat → Step α

namespace Scan

instance : Monad Scan where
  pure a := fun _ pos => .done a pos
  bind p f := fun src pos =>
    match p src pos with
    | .done a q => f a src q
    | .miss e q => .miss e q
    | .stop e q => .stop e q

/-- The current position. -/
def position : Scan Nat := fun _ pos => .done pos pos

/-- The next byte, without moving. -/
def peek : Scan (Option UInt8) := fun src pos => .done src[pos]? pos

/-- The byte after the next one, without moving. -/
def peekSecond : Scan (Option UInt8) := fun src pos => .done src[pos + 1]? pos

/-- Fail here, recoverably. -/
def fail {α : Type} : Scan α := fun _ pos => .miss .blank pos

/-- Fail here, for good, with a failure. -/
def abort {α : Type} (f : Failure) : Scan α := fun _ pos => .stop f pos

/-- Any byte. -/
def anyByte : Scan UInt8 := fun src pos =>
  match src[pos]? with
  | some b => .done b (pos + 1)
  | none => .miss .blank pos

/-- A byte satisfying `p`. -/
def oneOf (p : UInt8 → Bool) : Scan UInt8 := fun src pos =>
  match src[pos]? with
  | some b => if p b then .done b (pos + 1) else .miss .blank pos
  | none => .miss .blank pos

/-- One given byte. -/
def byte (b : UInt8) : Scan Unit := fun src pos =>
  if src[pos]? == some b then .done () (pos + 1) else .miss .blank pos

/-- Whether `bs` stands at `pos`. -/
def startsWith (src : Array UInt8) (pos : Nat) : List UInt8 → Bool
  | [] => true
  | b :: bs => src[pos]? == some b && startsWith src (pos + 1) bs

/-- A given run of bytes. -/
def literal (bs : List UInt8) : Scan Unit := fun src pos =>
  if startsWith src pos bs then .done () (pos + bs.length) else .miss .blank pos

/-- The end of the source. -/
def eof : Scan Unit := fun src pos =>
  if pos < src.size then .miss .blank pos else .done () pos

/-- How many bytes from `pos` on satisfy `p`, counting at most `limit`. -/
def countWhile (src : Array UInt8) (p : UInt8 → Bool) (pos : Nat) : Nat → Nat
  | 0 => 0
  | limit + 1 =>
    match src[pos]? with
    | some b => if p b then countWhile src p (pos + 1) limit + 1 else 0
    | none => 0

/-- Between `min` and `max` bytes satisfying `p`, as many as there are; the span read. -/
def takeWhile (min max : Nat) (p : UInt8 → Bool) : Scan (Nat × Nat) := fun src pos =>
  let n := countWhile src p pos max
  if n < min then .miss .blank pos else .done (pos, pos + n) (pos + n)

/-- Any number of bytes satisfying `p`. -/
def skipWhile (p : UInt8 → Bool) : Scan (Nat × Nat) := fun src pos =>
  takeWhile 0 (src.size - pos) p src pos

/-- At least one byte satisfying `p`. -/
def skipWhile1 (p : UInt8 → Bool) : Scan (Nat × Nat) := fun src pos =>
  takeWhile 1 (src.size - pos) p src pos

/-- Make a recoverable failure final. -/
def cut {α : Type} (p : Scan α) : Scan α := fun src pos =>
  match p src pos with
  | .miss e q => .stop e q
  | r => r

/-- Add a context to any failure. -/
def context {α : Type} (c : Context) (p : Scan α) : Scan α := fun src pos =>
  match p src pos with
  | .miss e q => .miss { e with contexts := e.contexts ++ [c] } q
  | .stop e q => .stop { e with contexts := e.contexts ++ [c] } q
  | r => r

/-- Label a scanner with what it reads. -/
def label {α : Type} (what : String) (p : Scan α) : Scan α := context (.label what) p

/-- Say what a scanner hoped to see. -/
def expecting {α : Type} (what : String) (p : Scan α) : Scan α := context (.expected what) p

/-- `p`, or nothing (from where it started) when it does not apply. -/
def optional {α : Type} (p : Scan α) : Scan (Option α) := fun src pos =>
  match p src pos with
  | .done a q => .done (some a) q
  | .miss _ _ => .done none pos
  | .stop e q => .stop e q

/-- The first choice that applies; each is tried from the start. When none does, the
last one's failure. -/
def firstOf {α : Type} : List (Scan α) → Scan α
  | [] => fail
  | [p] => p
  | p :: ps => fun src pos =>
    match p src pos with
    | .miss _ _ => firstOf ps src pos
    | r => r

/-- Run `p` without moving. -/
def lookahead {α : Type} (p : Scan α) : Scan α := fun src pos =>
  match p src pos with
  | .done a _ => .done a pos
  | .miss e _ => .miss e pos
  | .stop e _ => .stop e pos

/-- `p` checked by `f`; a refusal moves back to the start and fails recoverably, with
the reason `f` gives as its cause. -/
def guard {α β : Type} (p : Scan α) (f : α → Except (Option String) β) : Scan β := fun src pos =>
  match p src pos with
  | .done a q =>
    match f a with
    | .ok b => .done b q
    | .error c => .miss ⟨[], c⟩ pos
  | .miss e q => .miss e q
  | .stop e q => .stop e q

/-- `p`, then `inner` on the span `p` read; a failure of `inner` moves back to the start. -/
def andThen {β : Type} (p : Scan (Nat × Nat)) (inner : Nat × Nat → Scan β) : Scan β :=
  fun src pos =>
    match p src pos with
    | .done sp q =>
      match inner sp src sp.1 with
      | .done b _ => .done b q
      | .miss e _ => .miss e pos
      | .stop e _ => .stop e pos
    | .miss e q => .miss e q
    | .stop e q => .stop e q

/-- The span `p` read. -/
def recognize {α : Type} (p : Scan α) : Scan (Nat × Nat) := fun src pos =>
  match p src pos with
  | .done _ q => .done (pos, q) q
  | .miss e q => .miss e q
  | .stop e q => .stop e q

/-- `p` and the span it read. -/
def spanned {α : Type} (p : Scan α) : Scan (α × Nat × Nat) := fun src pos =>
  match p src pos with
  | .done a q => .done (a, pos, q) q
  | .miss e q => .miss e q
  | .stop e q => .stop e q

/-- Repeat `p` while it applies and moves. -/
def manyAux {α : Type} (p : Scan α) (src : Array UInt8) (acc : List α) (pos : Nat) :
    Nat → Step (List α)
  | 0 => .done acc.reverse pos
  | fuel + 1 =>
    match p src pos with
    | .done a q => if q == pos then .done (a :: acc).reverse q else manyAux p src (a :: acc) q fuel
    | .miss _ _ => .done acc.reverse pos
    | .stop e q => .stop e q

/-- Any number of `p`. -/
def many {α : Type} (p : Scan α) : Scan (List α) := fun src pos =>
  manyAux p src [] pos (src.size - pos + 1)

/-- At least one `p`: the first must apply. -/
def many1 {α : Type} (p : Scan α) : Scan (List α) := do
  let a ← p
  let rest ← many p
  pure (a :: rest)

/-- Items after the first, each after a separator. A separator or item that does not
apply ends the list before the separator. -/
def sepAux {α : Type} (p : Scan α) (sep : Scan Unit) (src : Array UInt8) (acc : List α)
    (pos : Nat) : Nat → Step (List α)
  | 0 => .done acc.reverse pos
  | fuel + 1 =>
    match sep src pos with
    | .miss _ _ => .done acc.reverse pos
    | .stop e q => .stop e q
    | .done () q =>
      match p src q with
      | .done a r => sepAux p sep src (a :: acc) r fuel
      | .miss _ _ => .done acc.reverse pos
      | .stop e r => .stop e r

/-- Zero or more `p` separated by `sep`. -/
def sepBy {α : Type} (p : Scan α) (sep : Scan Unit) : Scan (List α) := fun src pos =>
  match p src pos with
  | .done a q => sepAux p sep src [a] q (src.size - q + 1)
  | .miss _ _ => .done [] pos
  | .stop e q => .stop e q

/-- One or more `p` separated by `sep`: the first must apply. -/
def sepBy1 {α : Type} (p : Scan α) (sep : Scan Unit) : Scan (List α) := fun src pos =>
  match p src pos with
  | .done a q => sepAux p sep src [a] q (src.size - q + 1)
  | .miss e q => .miss e q
  | .stop e q => .stop e q

/-- The text of a span of the source. -/
def text (src : Array UInt8) (sp : Nat × Nat) : String :=
  (Utf8.decode? (src.extract sp.1 sp.2).toList).getD ""

/-- The source itself. -/
def source : Scan (Array UInt8) := fun src pos => .done src pos

end Scan

end TokenGate.Toml
