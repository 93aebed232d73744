import TokenGate.Toml.Grammar
/-!
# `TokenGate.Toml.Document`: reading a whole TOML document

A document is read line by line: comments, blank lines, key-value pairs and table
headers (`[a.b]` for a table, `[[a.b]]` for the next table of an array of tables).
`Build` is the state of that reading: the finished root table, the table being filled
and the header path that named it. Each pair and header is checked against the state
as it is read:

* a key may be defined once per table;
* a header may name a table once, unless the table was only implied so far (by a
  deeper header);
* dotted keys may extend tables they created, but not tables defined by headers, and
  never run into values.

A table's span starts at its header and grows to the end of its last value; the root
starts as the empty span at the start of the text.

Faults are `Problem`s: a message and, when known, the span it points at. `Problem.render`
writes the report: the line and column (columns count characters), the line itself,
and carets under the span widened to whole characters (at least one, never past the end
of the line).
-/

set_option autoImplicit false

namespace TokenGate.Toml

open Scan Grammar

/-- Walk a header or dotted path down from a table, creating implicit tables on the
way, and change the table reached with `f`. Arrays of tables are entered at their last
table. -/
def descend {β : Type} (dotted : Bool) (full : List Key)
    (f : TableData → Except TreeError (TableData × β)) :
    Nat → TableData → List Key → Except TreeError (TableData × β)
  | _, t, [] => f t
  | i, t, k :: rest =>
    let deeper (child : TableData) (rebuild : TableData → Node) :
        Except TreeError (TableData × β) := do
      let (child, b) ← descend dotted full f (i + 1) child rest
      pure (t.put k (rebuild child), b)
    match t.find? k.name with
    | none => deeper (TableData.empty ⟨false, true, dotted⟩) TableData.toNode
    | some (.tables items) =>
      match items.getLast? with
      | some (.table es sp fl) =>
        deeper ⟨es, sp, fl⟩ fun c => .tables (items.dropLast ++ [c.toNode])
      | _ => .error (.extendsValue ((full.take (i + 1)).map (·.name)) "array of tables")
    | some (.table es sp fl) =>
      if fl.inline then .error (.extendsValue ((full.take (i + 1)).map (·.name)) "inline table")
      else if dotted && !fl.implicit then .error (.duplicateKey k.name none)
      else deeper ⟨es, sp, fl⟩ TableData.toNode
    | some n => .error (.extendsValue ((full.take (i + 1)).map (·.name)) n.typeName)

/-- The state of reading a document. -/
structure Build where
  /-- The root table, once the lines before the first header are done. -/
  root : TableData
  /-- The table being filled. -/
  current : TableData
  /-- The header path of the table being filled; empty for the root. -/
  path : List Key
  /-- Whether the table being filled belongs to an array of tables. -/
  isArray : Bool

namespace Build

/-- Flags of a table defined by a header. -/
def headerFlags : Flags := ⟨false, false, false⟩

/-- The state before the first line. -/
def start : Build :=
  { root := TableData.empty headerFlags, current := ⟨[], some ⟨0, 0⟩, headerFlags⟩, path := [],
    isArray := false }

/-- Put the table being filled into its place. -/
def finalize (b : Build) : Except TreeError Build := do
  let t := b.current
  let path := b.path
  let b := { b with current := TableData.empty headerFlags, path := [] }
  match path.getLast? with
  | none => pure { b with root := t }
  | some last =>
    let dup := duplicateAt path (path.length - 1)
    let (root, _) ← descend false path (fun parent =>
      if b.isArray then
        match parent.find? last.name with
        | none => .ok (parent.put last (.tables [t.toNode]), ())
        | some (.tables items) => .ok (parent.put last (.tables (items ++ [t.toNode])), ())
        | some _ => .error dup
      else
        match parent.find? last.name with
        | none => .ok (parent.put last t.toNode, ())
        | some (.table _ _ fl) =>
          if !fl.inline && fl.implicit then .ok (parent.put last t.toNode, ()) else .error dup
        | some _ => .error dup) 0 b.root path.dropLast
    pure { b with root := root }

/-- A `[path]` header spanning `span`. -/
def openTable (b : Build) (path : List Key) (span : Span) : Except TreeError Build := do
  let b ← b.finalize
  match path.getLast? with
  | none => pure b
  | some last =>
    let (root, existing) ← descend false path (fun parent =>
      match parent.find? last.name with
      | some (.table es sp fl) =>
        if !fl.inline && fl.implicit && !fl.dotted then
          .ok (parent.remove last.name, some (TableData.mk es sp fl))
        else .error (duplicateAt path (path.length - 1))
      | some _ => .error (duplicateAt path (path.length - 1))
      | none => .ok (parent, none)) 0 b.root path.dropLast
    let t := existing.getD b.current
    let current : TableData := { t with span := some span, flags := headerFlags }
    pure (Build.mk root current path false)

/-- A `[[path]]` header spanning `span`. -/
def openArrayTable (b : Build) (path : List Key) (span : Span) : Except TreeError Build := do
  let b ← b.finalize
  match path.getLast? with
  | none => pure b
  | some last =>
    let (root, _) ← descend false path (fun parent =>
      match parent.find? last.name with
      | none => .ok (parent.put last (.tables []), ())
      | some (.tables _) => .ok (parent, ())
      | some _ => .error (duplicateAt path (path.length - 1))) 0 b.root path.dropLast
    pure (Build.mk root ⟨[], some span, headerFlags⟩ path true)

/-- A pair `path.key = value` in the table being filled. -/
def addPair (b : Build) (path : List Key) (k : Key) (v : Node) : Except TreeError Build := do
  let cur := match b.current.span, v.span? with
    | some s, some e => { b.current with span := some ⟨s.start, e.stop⟩ }
    | _, _ => b.current
  let (cur, _) ← descend true path (fun tbl =>
    if tbl.flags.dotted == path.isEmpty then .error (.duplicateKey k.name none)
    else if (tbl.find? k.name).isSome then
      .error (.duplicateKey k.name (some (b.path.map (·.name))))
    else .ok (tbl.put k v, ())) 0 cur path
  pure { b with current := cur }

end Build

/-- A line of a document after its leading blanks. -/
inductive Line where
  | pair (path : List Key) (k : Key) (v : Node)
  | header (path : List Key) (span : Span) (isArray : Bool)

/-- A key-value pair and the rest of its line. -/
def pairLine : Scan Line := do
  let ks ← key
  cut (do
    expecting (quoteChar '=') (expecting (quoteChar '.') (byte 61))
    let _ ← blanks
    let v ← value (depthLimit - 1)
    expecting (quoteChar '#') (expecting (quoteChar '\n') lineTrailing)
    match ks.reverse with
    | k :: path => pure (.pair path.reverse k v)
    | [] => fail)

/-- A table header and the rest of its line. -/
def headerLine : Scan Line := fun src pos =>
  let isArray := src[pos]? == some 91 && src[pos + 1]? == some 91
  let (openB, closeB, closeName) : List UInt8 × List UInt8 × String :=
    if isArray then ([91, 91], [93, 93], "]]") else ([91], [93], "]")
  (do
    literal openB
    let ks ← cut key
    expecting (quoteText closeName) (expecting (quoteChar '.') (cut (literal closeB)))
    let stop ← position
    expecting (quoteChar '#') (expecting (quoteChar '\n') (cut lineTrailing))
    pure (Line.header ks ⟨pos, stop⟩ isArray)) src pos

/-- A fault of a document: a message, what it points at when known, and whether it
aborts the whole operation instead of refusing the text. -/
structure Problem where
  message : String
  span : Option Span
  fatal : Bool := false

/-- Read the lines of a document from `pos`, applying each to the state. -/
def lines (src : Array UInt8) (b : Build) (pos : Nat) : Nat → Except (Failure × Nat) Build
  | 0 => .ok b
  | fuel + 1 =>
    let next (b : Build) (q : Nat) : Except (Failure × Nat) Build :=
      match blanks src q with
      | .done _ r => lines src b r fuel
      | _ => .ok b
    match src[pos]? with
    | none => .ok b
    | some 35 =>
      match cut (do comment; lineEnding) src pos with
      | .done () q => next b q
      | .miss e q => .error (e, q)
      | .stop e q => .error (e, q)
    | some 91 =>
      match label "table header" (cut headerLine) src pos with
      | .done (.header ks span isArray) q =>
        match (if isArray then b.openArrayTable ks span else b.openTable ks span) with
        | .ok b => next b q
        | .error te => .error (⟨[.label "table header"], some te.message⟩, pos)
      | .done (.pair ..) q => next b q
      | .miss e q => .error (e, q)
      | .stop e q => .error (e, q)
    | some 10 | some 13 =>
      match newline src pos with
      | .done () q => next b q
      | _ => .error (.blank, pos)
    | some _ =>
      match cut pairLine src pos with
      | .done (.pair path k v) q =>
        match b.addPair path k v with
        | .ok b => next b q
        | .error te => .error (.because te.message, pos)
      | .done (.header ..) q => next b q
      | .miss e q => .error (e, q)
      | .stop e q => .error (e, q)

/-- Read a whole document into its root table. -/
def readDocument (src : Array UInt8) : Except Problem Node :=
  let pos0 := if startsWith src 0 [0xEF, 0xBB, 0xBF] then 3 else 0
  let pos1 := match blanks src pos0 with
    | .done _ q => q
    | _ => pos0
  match lines src Build.start pos1 (src.size + 1) with
  | .error (f, q) =>
    .error { message := f.message, span := some (if q < src.size then ⟨q, q + 1⟩ else ⟨q, q⟩) }
  | .ok b =>
    match b.finalize with
    | .ok b => .ok b.root.toNode
    | .error te => .error { message := te.message, span := none }

/-- Split bytes at every LF. -/
def splitLines (bs : List UInt8) : List (List UInt8) :=
  bs.splitOn 10

/-- Line and column (both from zero) of a byte offset; the column counts characters. -/
def locate (src : Array UInt8) (index : Nat) : Nat × Nat :=
  if src.size == 0 then (0, index)
  else
    let safe := min index (src.size - 1)
    let extra := index - safe
    let before := (src.extract 0 safe).toList
    let lineStart := match (before.reverse.idxOf? 10) with
      | some k => safe - k
      | none => 0
    let line := ((src.extract 0 lineStart).toList.filter (· == 10)).length
    let column := match Utf8.decode? (src.extract lineStart (safe + 1)).toList with
      | some s => s.length - 1
      | none => safe - lineStart
    (line, column + extra)

/-- Whether an octet continues a UTF-8 sequence. -/
def isContinuation (b : UInt8) : Bool := 0x80 ≤ b && b < 0xC0

/-- The start of the character holding octet `i`: back over continuation octets (a
character has at most three). -/
def charStart (src : Array UInt8) : Nat → Nat → Nat
  | 0, i => i
  | fuel + 1, i =>
    if i > 0 && i < src.size && isContinuation (src.getD i 0) then charStart src fuel (i - 1)
    else i

/-- The end of the character that octet `i - 1` belongs to: forward over continuation
octets. -/
def charStop (src : Array UInt8) : Nat → Nat → Nat
  | 0, i => i
  | fuel + 1, i =>
    if i < src.size && isContinuation (src.getD i 0) then charStop src fuel (i + 1) else i

/-- A span widened to whole characters. -/
def Span.widen (src : Array UInt8) (sp : Span) : Span :=
  ⟨charStart src 3 sp.start, charStop src 3 sp.stop⟩

/-- The report of a problem found in `src`. The span is first widened to whole
characters, so a fault at a character of several octets is marked by one caret per
octet. -/
def Problem.render (src : Array UInt8) (p : Problem) : String :=
  match p.span with
  | none => p.message ++ "\n"
  | some sp =>
    let sp := sp.widen src
    let (line, column) := locate src sp.start
    let lineNum := toString (line + 1)
    let gutter := String.ofList (List.replicate (lineNum.length + 1) ' ')
    let content := (splitLines src.toList).getD line []
    let width := min (sp.stop - sp.start) (content.length - column)
    "TOML parse error at line " ++ lineNum ++ ", column " ++ toString (column + 1) ++ "\n"
      ++ gutter ++ "|\n"
      ++ lineNum ++ " | " ++ (Utf8.decode? content).getD "" ++ "\n"
      ++ gutter ++ "|" ++ String.ofList (List.replicate (column + 1) ' ')
      ++ String.ofList (List.replicate (max width 1) '^') ++ "\n"
      ++ p.message ++ "\n"

end TokenGate.Toml
