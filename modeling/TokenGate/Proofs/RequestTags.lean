import TokenGate.Proofs.Reader
import TokenGate.Proofs.Table
import TokenGate.Proofs.Codec
/-!
# `TokenGate.Proofs.RequestTags`: a request is decoded by its tag

A request is a JSON object whose `type` field names its kind. The reader takes the tag from
wherever it stands among the fields, keeps the other fields as they are written, and builds
the kind the tag names from them.

Objects are described by their entries (`ObjectEntry`): a key's text and the key it is read as, a
value's text and the content it is kept as, and the blanks around the entry's comma, key and
colon (a value's text may start with blanks too). `objectText` writes the entries between
braces, separated by commas, with blanks before the opening brace, before the closing brace
and after it.

* `go_taggedEntries`: reading the entries gives the tag and the other entries in order, or
  fails, exactly as `tagFrom` says: the one entry under the tag's name must hold a string.
* `singleString_map_eq_ok_iff`: a request's one string field is read exactly when the field
  occurs once and holds a string; a unit variant takes any object.
* `read_request_object`: decoding an object as a request succeeds exactly when its `type`
  entry is one string, and then the tag alone fixes the kind: `VALIDATE_DEVICE_TOKEN` needs one
  string `token` field, `VALIDATE_X509_CERTIFICATE` one string `hash` field, and any other tag
  is an unsupported request, whatever the other fields; an envelope carrying such an object
  decodes, so its record is dispatched rather than skipped.
-/

set_option autoImplicit false

namespace TokenGate.Json

open Reader

/-- One entry of an object text: the octets of the key after its opening quote and the key they
are read as, the octets of the value and the content they are kept as, and the blanks around
the entry's tokens. -/
structure ObjectEntry where
  /-- Blanks before the entry's comma, or before its key when it is the first. -/
  lead : List Blank
  /-- Blanks between the comma and the key. -/
  afterComma : List Blank
  keyText : List UInt8
  key : String
  /-- Blanks between the key and the colon. -/
  beforeColon : List Blank
  valueText : List UInt8
  value : Content
  readsKey : KeyText keyText key
  readsValue : ValueText valueText value

namespace ObjectEntry

/-- The field an entry holds. -/
def field (e : ObjectEntry) : String × Content := (e.key, e.value)

/-- The octets of an entry: blanks, a comma and blanks unless it is the first, the quoted key,
blanks, a colon, the value. -/
def text (first : Bool) (e : ObjectEntry) : List UInt8 :=
  spacedLead first e.lead e.afterComma ++ 34 :: e.keyText ++ Blank.octets e.beforeColon ++
    58 :: e.valueText

/-- An entry whose key and value are strings written with no escapes and no blanks. -/
def ofPlain (k v : List UInt8) (key value : String) (hk : ∀ b ∈ k, stopsRun b = false)
    (hkd : Utf8.decode? k = some key) (hv : ∀ b ∈ v, stopsRun b = false)
    (hvd : Utf8.decode? v = some value) : ObjectEntry :=
  ⟨[], [], k ++ [34], key, [], 34 :: v ++ [34], .string value, keyText_plain hk hkd,
    valueText_plain hv hvd⟩

end ObjectEntry

/-- The octets of entries, then the blanks `close` and the closing brace. -/
def entriesText (close : List Blank) : Bool → List ObjectEntry → List UInt8
  | _, [] => Blank.octets close ++ [125]
  | first, e :: es => e.text first ++ entriesText close false es

/-- The octets of an object with these entries: the blanks `front`, the opening brace, the
entries, the blanks `close` and the closing brace, and the blanks `back`. -/
def objectText (front : List Blank) (es : List ObjectEntry) (close back : List Blank) :
    List UInt8 :=
  Blank.octets front ++ 123 :: entriesText close true es ++ Blank.octets back

/-- Past the blanks, what follows an entry is the next one's comma or the closing brace. -/
theorem entriesText_head (close : List Blank) (es : List ObjectEntry) (r : List UInt8) :
    ((entriesText close false es ++ r).dropWhile isBlank).head? = some 44 ∨
      ((entriesText close false es ++ r).dropWhile isBlank).head? = some 125 := by
  cases es with
  | nil => exact .inr (by simp [entriesText, isBlank])
  | cons e es => exact .inl (by simp [entriesText, ObjectEntry.text, spacedLead, isBlank])

theorem entriesText_cons_append (close : List Blank) (first : Bool) (e : ObjectEntry)
    (es : List ObjectEntry) (r : List UInt8) :
    entriesText close first (e :: es) ++ r =
      spacedLead first e.lead e.afterComma ++ 34 :: e.keyText ++
        (Blank.octets e.beforeColon ++ 58 :: (e.valueText ++ (entriesText close false es ++ r))) := by
  simp [entriesText, ObjectEntry.text]

theorem length_lt_entriesText (close : List Blank) (first : Bool) (es : List ObjectEntry) :
    es.length < (entriesText close first es).length := by
  induction es generalizing first with
  | nil => simp [entriesText]
  | cons e es ih =>
    have := ih false
    simp only [entriesText, ObjectEntry.text, List.length_append, List.length_cons, List.length_cons]
    omega

/-- The tag that the reader takes from an object's fields, from the one found so far: the
string under the one entry named `tagName`, and nothing when that entry is missing, repeated,
or not a string. -/
def tagFrom (tagName : String) : Option String → List (String × Content) → Option String
  | found, [] => found
  | found, (k, c) :: fs =>
    if k = tagName then
      match found with
      | some _ => none
      | none =>
        match c with
        | .string s => tagFrom tagName (some s) fs
        | _ => none
    else tagFrom tagName found fs

/-- Once a tag is found, no second entry may carry its name. -/
theorem tagFrom_some (tagName s t : String) (fs : List (String × Content)) :
    tagFrom tagName (some s) fs = some t ↔ fs.filter (·.1 = tagName) = [] ∧ t = s := by
  induction fs with
  | nil => simp [tagFrom, eq_comm]
  | cons f fs ih =>
    obtain ⟨k, c⟩ := f
    by_cases hk : k = tagName
    · simp [tagFrom, hk]
    · simp [tagFrom, hk, ih]

/-- The tag is the string of the one entry named `tagName`. -/
theorem tagFrom_none (tagName t : String) (fs : List (String × Content)) :
    tagFrom tagName none fs = some t ↔ fs.filter (·.1 = tagName) = [(tagName, .string t)] := by
  induction fs with
  | nil => simp [tagFrom]
  | cons f fs ih =>
    obtain ⟨k, c⟩ := f
    by_cases hk : k = tagName
    · subst hk
      cases c with
      | string s =>
        simp only [tagFrom, if_true, tagFrom_some, List.filter_cons, decide_true,
          List.cons.injEq, Prod.mk.injEq, Content.string.injEq, true_and]
        exact ⟨fun ⟨h₁, h₂⟩ => ⟨h₂.symm, h₁⟩, fun ⟨h₁, h₂⟩ => ⟨h₂, h₁.symm⟩⟩
      | _ => simp [tagFrom]
    · simp [tagFrom, hk, ih]

section Entries

variable {τ : Type} (tagName : String) (g : String → τ)

/-- Reading the entries of an object, from the one after the opening brace: the tag found
(named `tagName`, read by `variantName` through `g`) and the other entries in order, ending at
the closing brace, or a fault, as `tagFrom` decides. -/
theorem go_taggedEntries (close : List Blank) :
    ∀ (es : List ObjectEntry) (first : Bool) (found : Option String) (acc : List (String × Content))
      (n : Nat) (r : List UInt8) (i : Nat), es.length < n →
      (∀ s, tagFrom tagName found (es.map ObjectEntry.field) = some s →
        ∃ j, go (taggedEntries tagName (variantName fun s => .ok (g s)) first (found.map g) acc n)
            ⟨entriesText close first es ++ r, i, 127⟩ =
          (.ok (g s, .map (acc.reverse ++ (es.map ObjectEntry.field).filter (·.1 ≠ tagName))),
            ⟨125 :: r, j, 127⟩)) ∧
      (tagFrom tagName found (es.map ObjectEntry.field) = none →
        ∃ e c', go (taggedEntries tagName (variantName fun s => .ok (g s)) first (found.map g) acc n)
            ⟨entriesText close first es ++ r, i, 127⟩ = (.error e, c')) := by
  intro es
  induction es with
  | nil =>
    intro first found acc n r i hn
    obtain ⟨m, rfl⟩ : ∃ m, n = m + 1 := ⟨n - 1, by simp at hn; omega⟩
    -- at the closing brace the tag found so far is the answer
    simp only [entriesText, List.append_assoc, List.singleton_append, List.map_nil, tagFrom]
    rw [taggedEntries.eq_def]
    dsimp only
    rw [go_bind, go_nextKey_close_spaced]
    dsimp only
    refine ⟨fun s hs => ?_, fun hs => ?_⟩
    · subst hs
      exact ⟨i + close.length, by simp⟩
    · subst hs
      exact fails_of_yields_false .throw _
  | cons e es ih =>
    intro first found acc n r i hn
    obtain ⟨m, rfl⟩ : ∃ m, n = m + 1 := ⟨n - 1, by simp at hn; omega⟩
    have hm : es.length < m := by simpa using hn
    have hrest := entriesText_head close es r
    obtain ⟨j, hkey⟩ := go_nextKey_spaced e.readsKey first e.lead e.afterComma
      (Blank.octets e.beforeColon ++ 58 :: (e.valueText ++ (entriesText close false es ++ r))) i 127
    rw [entriesText_cons_append, List.map_cons]
    rw [taggedEntries.eq_def]
    dsimp only
    rw [go_bind, hkey]
    dsimp only
    by_cases hk : e.key = tagName
    · -- the tag's entry: a second one, or one that is not a string, is refused
      simp only [ObjectEntry.field, tagFrom, hk, beq_self_eq_true, if_true]
      cases found with
      | some s₀ =>
        simp only [Option.map_some, reduceCtorEq, false_implies, implies_true, true_and]
        exact fun _ => fails_of_yields_false .throw _
      | none =>
        simp only [Option.map_none, go_bind, go_colon_spaced]
        cases hv : e.value with
        | string s =>
          obtain ⟨j', hstr⟩ := go_str_of_string (hv ▸ e.readsValue) "variant identifier"
            (fun s => .ok (g s)) rfl _ hrest (j + e.beforeColon.length + 1)
          rw [show go (variantName fun s => .ok (g s)) _ = _ from hstr]
          dsimp only
          have := ih false (some s) acc m r j' hm
          simp only [Option.map_some] at this
          refine ⟨fun t ht => ?_, fun ht => this.2 ht⟩
          obtain ⟨j'', h⟩ := this.1 t ht
          refine ⟨j'', ?_⟩
          rw [h]
          simp
        | _ =>
          obtain ⟨f, c', hfail⟩ := str_fails_of_not_string (hv ▸ e.readsValue) (by simp)
            "variant identifier" (fun s => .ok (g s)) _ hrest (j + e.beforeColon.length + 1)
          rw [show go (variantName fun s => .ok (g s)) _ = _ from hfail]
          exact ⟨fun s hs => by simp at hs, fun _ => ⟨f, c', rfl⟩⟩
    · -- any other entry is kept as written
      have hne : (e.key == tagName) = false := by simpa using hk
      simp only [ObjectEntry.field, tagFrom, hk, hne, if_false, go_bind, go_colon_spaced,
        Bool.false_eq_true]
      obtain ⟨j', hval⟩ := e.readsValue (entriesText close false es ++ r) (j + e.beforeColon.length + 1)
        (2 * (e.valueText ++ (entriesText close false es ++ r)).length + 2) hrest (by simp; omega)
      simp only [fuel, go_bind, go_get, go_pure, hval]
      have := ih false found ((e.key, e.value) :: acc) m r j' hm
      refine ⟨fun t ht => ?_, this.2⟩
      obtain ⟨j'', h⟩ := this.1 t ht
      exact ⟨j'', by simp [h, hk]⟩

theorem go_fuel (c : Cursor) : go fuel c = (.ok (2 * c.rest.length + 2), c) := by
  simp [fuel, go_map]

/-- Reading a whole object whose type is named by its field `tagName`: the tag and the other
entries in order, or a fault, as `tagFrom` decides. -/
theorem go_tagged (expecting : String) (front : List Blank) (es : List ObjectEntry)
    (close : List Blank) (r : List UInt8) (i : Nat) :
    (∀ s, tagFrom tagName none (es.map ObjectEntry.field) = some s →
      ∃ j, go (tagged tagName expecting (variantName fun s => .ok (g s)))
          ⟨Blank.octets front ++ 123 :: (entriesText close true es ++ r), i, 128⟩ =
        (.ok (g s, .map ((es.map ObjectEntry.field).filter (·.1 ≠ tagName))), ⟨r, j, 128⟩)) ∧
    (tagFrom tagName none (es.map ObjectEntry.field) = none →
      ∃ e c', go (tagged tagName expecting (variantName fun s => .ok (g s)))
        ⟨Blank.octets front ++ 123 :: (entriesText close true es ++ r), i, 128⟩ = (.error e, c')) := by
  have hn : es.length < 2 * (entriesText close true es ++ r).length + 2 := by
    have := length_lt_entriesText close true es
    simp only [List.length_append]
    omega
  have hentries := go_taggedEntries tagName g close es true none [] _ r (i + front.length + 1) hn
  simp only [Option.map_none, List.reverse_nil, List.nil_append] at hentries
  refine ⟨fun s hs => ?_, fun hs => ?_⟩
  · obtain ⟨j, hj⟩ := hentries.1 s hs
    refine ⟨j + 1, go_place_ok ?_⟩
    simp only [go_bind, go_skipBlanks_octets (b := 123) (by decide)]
    simp only [go_descend (by decide : 1 < 128), go_bump_cons]
    have hbody : go (do taggedEntries tagName (variantName fun s => .ok (g s)) true none [] (← fuel))
        ⟨entriesText close true es ++ r, i + front.length + 1, 127⟩ =
          (.ok (g s, .map ((es.map ObjectEntry.field).filter (·.1 ≠ tagName))), ⟨125 :: r, j, 127⟩) := by
      rw [go_bind, go_fuel]
      exact hj
    exact go_closing_ok hbody (go_endObject r j 128)
  · obtain ⟨f, c', hf⟩ := hentries.2 hs
    have hbody : go (do taggedEntries tagName (variantName fun s => .ok (g s)) true none [] (← fuel))
        ⟨entriesText close true es ++ r, i + front.length + 1, 127⟩ = (.error f, c') := by
      rw [go_bind, go_fuel]
      exact hf
    obtain ⟨c₂, hclose⟩ := closing_fails endObject hbody
    exact place_fails ⟨_, _, by
      simp only [go_bind, go_skipBlanks_octets (b := 123) (by decide)]
      simp only [go_descend (by decide : 1 < 128), go_bump_cons]
      exact hclose⟩

end Entries

/-! ## The fields of a request -/

namespace Content

theorem asString_eq_ok_iff (c : Content) (s : String) : c.asString = .ok s ↔ c = .string s := by
  cases c <;> simp [asString]

/-- Folding a check of one field over entries: the first entry under `field` gives the field's
string, a second one is refused, and a refusal stays. -/
theorem foldl_single (field : String)
    {step : Except String (Option String) → String × Content → Except String (Option String)}
    (herr : ∀ m e, step (.error m) e = .error m)
    (hother : ∀ found e, e.1 ≠ field → step (.ok found) e = .ok found)
    (hdup : ∀ s e, e.1 = field → ∃ m, step (.ok (some s)) e = .error m)
    (hfirst : ∀ e, e.1 = field → step (.ok none) e = some <$> e.2.asString)
    {entries : List (String × Content)} {found : Option String} {R : Except String (Option String)}
    (hR : entries.foldl step (.ok found) = R) (t : String) :
    R = .ok (some t) ↔
      (found = none ∧ (entries.filter (·.1 = field)).map (·.2) = [.string t]) ∨
      (found = some t ∧ entries.filter (·.1 = field) = []) := by
  subst hR
  revert found t
  -- a refusal is never undone
  have hstays : ∀ (entries : List (String × Content)) m, entries.foldl step (.error m) = .error m := by
    intro entries
    induction entries with
    | nil => intro m; rfl
    | cons e es ih => intro m; rw [List.foldl_cons, herr, ih]
  induction entries with
  | nil => intro found t; cases found <;> simp [eq_comm]
  | cons e es ih =>
    intro found t
    obtain ⟨k, c⟩ := e
    by_cases hk : k = field
    · subst hk
      cases found with
      | some s =>
        obtain ⟨m, hm⟩ := hdup s (k, c) rfl
        simp [hm, hstays]
      | none =>
        rw [List.foldl_cons, hfirst (k, c) rfl]
        cases hc : c.asString with
        | error m =>
          -- a field that is not a string is refused
          have hne : c ≠ .string t := fun h => by simp [h, asString] at hc
          rw [show (some <$> (Except.error m : Except String String)) = .error m from rfl, hstays]
          simp [hne]
        | ok s =>
          rw [asString_eq_ok_iff] at hc
          subst hc
          rw [show (some <$> (Except.ok s : Except String String)) = .ok (some s) from rfl, ih]
          simp
    · rw [List.foldl_cons, hother found (k, c) hk, ih]
      simp [hk]

/-- A record of one string field, written as an object, is read exactly when the field occurs
once and holds a string; the other entries are ignored. -/
theorem singleString_map_eq_ok_iff (name field : String) (entries : List (String × Content))
    (t : String) :
    singleString name field (.map entries) = .ok t ↔
      (entries.filter (·.1 = field)).map (·.2) = [.string t] := by
  simp only [singleString]
  generalize hR : List.foldl _ (Except.ok none) entries = R
  -- the fold is the one of `foldl_single`, read at each of its outcomes
  have key := foldl_single field (by intro m e; rfl)
    (by
      intro found e h
      have hb : (e.1 == field) = false := by simpa using h
      simp only [hb, Bool.false_eq_true, if_false]
      rfl)
    (by
      intro s e h
      exact ⟨_, by simp only [h, beq_self_eq_true, if_true]; rfl⟩)
    (by
      intro e h
      simp only [h, beq_self_eq_true, if_true]
      rfl) hR
  simp only [true_and, reduceCtorEq, false_and, or_false] at key
  rw [← key]
  rcases R with m | _ | s <;> simp

/-- A unit variant takes any object. -/
theorem unitVariant_map (entries : List (String × Content)) : unitVariant (.map entries) = .ok () :=
  rfl

end Content

/-- Reading a whole text succeeds exactly when the reader, then the end of the text, succeed
from its start. -/
theorem read_eq_ok_iff {α : Type} (r : Reader α) (bytes : List UInt8) (a : α) :
    read r bytes = .ok a ↔
      (go (do let a ← r; Reader.finish; pure a) ⟨bytes, 0, 128⟩).1 = .ok a := by
  have hrun : (Id.run (((do let a ← r; Reader.finish; pure a : Reader α).run).run
      (Cursor.start bytes))).1 = (go (do let a ← r; Reader.finish; pure a) ⟨bytes, 0, 128⟩).1 := rfl
  simp only [read, hrun]
  split <;> simp_all

end TokenGate.Json

namespace TokenGate

open Json Json.Reader

/-- Decoding an object as a request: the tag is taken by `tagFrom`, and the kind it names is
built by `ofContent` from the other fields, in order. -/
theorem Request.read_objectText_eq_ok_iff (front : List Blank) (es : List ObjectEntry)
    (close back : List Blank) (req : Request) :
    read Request.reader (objectText front es close back) = .ok req ↔
      ∃ s, tagFrom "type" none (es.map ObjectEntry.field) = some s ∧
        Request.ofContent (Request.tagIndex s)
          (.map ((es.map ObjectEntry.field).filter (·.1 ≠ "type"))) = .ok req := by
  have htext : objectText front es close back =
      Blank.octets front ++ 123 :: (entriesText close true es ++ Blank.octets back) := by
    simp [objectText]
  rw [read_eq_ok_iff, htext]
  have htag := go_tagged "type" Request.tagIndex "internally tagged enum TransportApiRequest"
    front es close (Blank.octets back) 0
  cases hs : tagFrom "type" none (es.map ObjectEntry.field) with
  | none =>
    -- no single string tag: the object is refused
    obtain ⟨f, c', hf⟩ := htag.2 hs
    simp [Request.reader, go_bind, hf]
  | some s =>
    obtain ⟨j, hok⟩ := htag.1 s hs
    simp only [Request.reader, go_bind, hok, Option.some.injEq, exists_eq_left']
    cases hc : Request.ofContent (Request.tagIndex s)
        (.map ((es.map ObjectEntry.field).filter (·.1 ≠ "type"))) with
    | error m => simp [check, failUnplaced]
    | ok req' => simp [go_check_ok, go_finish_octets]

/-- Dropping the tag's entries leaves the entries under any other name. -/
theorem filter_filter_ne {a b : String} (hab : b ≠ a) (fs : List (String × Content)) :
    (fs.filter (·.1 ≠ a)).filter (·.1 = b) = fs.filter (·.1 = b) := by
  rw [List.filter_filter]
  congr 1
  funext f
  by_cases h : f.1 = b
  · simp [h, hab]
  · simp [h]

/-- A kind with one string field is built exactly when the field occurs once and holds a
string. -/
theorem map_singleString_eq_ok_iff (ctor : String → Request) (name field : String)
    (rest : List (String × Content)) (req : Request) :
    ctor <$> Content.singleString name field (.map rest) = .ok req ↔
      ∃ v, req = ctor v ∧ (rest.filter (·.1 = field)).map (·.2) = [.string v] := by
  cases h : Content.singleString name field (.map rest) with
  | error m =>
    -- no single string field: nothing is built
    have hnone : ∀ v, (rest.filter (·.1 = field)).map (·.2) ≠ [.string v] := fun v hv => by
      rw [← Content.singleString_map_eq_ok_iff name, h] at hv
      cases hv
    simp only [Functor.map, Except.map, reduceCtorEq, false_iff, not_exists, not_and]
    exact fun v _ => hnone v
  | ok v =>
    have hv := (Content.singleString_map_eq_ok_iff name field rest v).1 h
    simp only [Functor.map, Except.map, Except.ok.injEq]
    constructor
    · rintro rfl
      exact ⟨v, rfl, hv⟩
    · rintro ⟨v', rfl, hv'⟩
      rw [hv] at hv'
      simp only [List.cons.injEq, Content.string.injEq, and_true] at hv'
      rw [hv']

/-- A record is skipped as unreadable exactly when its envelope does not decode, whatever kind
of request it would carry. -/
theorem Exchange.dispatch_undecodable_iff (x : Exchange) (rec : BusRecord) :
    (x.dispatch rec).1 = .undecodable ↔ ∀ env, Envelope.decode Request.reader rec.value ≠ .ok env := by
  rcases x.dispatch_cases rec with ⟨hdec, hd⟩ | ⟨env, hdec, hrest⟩
  · simp [hd, hdec]
  · have hne : ¬∀ env, Envelope.decode Request.reader rec.value ≠ .ok env := fun h => h env hdec
    rcases hrest with ⟨-, hd⟩ | ⟨-, -, hd⟩ | ⟨-, -, -, hd⟩ | ⟨-, -, -, hd⟩ <;> simp [hd, hne]

/-- Any tag but the names of the two kinds gives an unsupported request, whatever the other
fields. -/
theorem Request.ofContent_other {tag : String} (h₀ : tag ≠ "VALIDATE_DEVICE_TOKEN")
    (h₁ : tag ≠ "VALIDATE_X509_CERTIFICATE") (fs : List (String × Content)) :
    Request.ofContent (Request.tagIndex tag) (.map fs) = .ok .unsupported := by
  have hi : Request.tagIndex tag = 2 := by simp [Request.tagIndex, h₀, h₁]
  rw [hi]
  rfl

/-- A JSON object is decoded as a request exactly when its `type` field occurs once and holds a
string, and that tag alone fixes the kind: `VALIDATE_DEVICE_TOKEN` gives a token validation of
the object's one string `token` field and is refused without one, `VALIDATE_X509_CERTIFICATE`
likewise with a `hash` field, and any other tag gives an unsupported request whatever the
other fields are, with any blanks around the object's tokens. The service answers an
unsupported request with the empty response, a record is skipped as unreadable only when its
envelope does not decode, and an envelope of the current version with a request id, whose
payload is an object of string fields with any other tag, decodes with an unsupported payload:
its record is dispatched, not skipped. -/
theorem read_request_object (front : List Blank) (es : List ObjectEntry) (close back : List Blank)
    (req : Request) :
    (read Request.reader (objectText front es close back) = .ok req ↔
      ∃ tag, (es.map ObjectEntry.field).filter (·.1 = "type") = [("type", .string tag)] ∧
        if tag = "VALIDATE_DEVICE_TOKEN" then
          ∃ token, req = .validateDeviceToken token ∧
            ((es.map ObjectEntry.field).filter (·.1 = "token")).map (·.2) = [.string token]
        else if tag = "VALIDATE_X509_CERTIFICATE" then
          ∃ hash, req = .validateX509Certificate hash ∧
            ((es.map ObjectEntry.field).filter (·.1 = "hash")).map (·.2) = [.string hash]
        else req = .unsupported) ∧
    (∀ b : Backend, b.handle .unsupported = Response.empty) ∧
    (∀ (x : Exchange) (rec : BusRecord),
      (x.dispatch rec).1 = .undecodable ↔ ∀ env, Envelope.decode Request.reader rec.value ≠ .ok env) ∧
    (∀ (tag : String) (fs : List (String × String)) (e : Envelope Request) (rec : BusRecord),
      tag ≠ "VALIDATE_DEVICE_TOKEN" → tag ≠ "VALIDATE_X509_CERTIFICATE" →
      (∀ f ∈ fs, f.1 ≠ "type") →
      e.payload = .unsupported → e.Fits → e.version = 1 → e.requestId.isNil = false →
      rec.value = Envelope.encode
        (fun _ => .object (("type", .string tag) :: fs.map fun f => (f.1, .string f.2))) e →
      Envelope.decode Request.reader rec.value = .ok e ∧
        ∀ x : Exchange, (x.dispatch rec).1 ≠ .undecodable) := by
  refine ⟨?_, fun _ => rfl, Exchange.dispatch_undecodable_iff, ?_⟩
  · rw [Request.read_objectText_eq_ok_iff]
    refine exists_congr fun tag => ?_
    rw [tagFrom_none]
    refine and_congr_right fun _ => ?_
    -- the kind the tag names, built from the other fields
    by_cases h₀ : tag = "VALIDATE_DEVICE_TOKEN"
    · have hi : Request.tagIndex tag = 0 := by simp [Request.tagIndex, h₀]
      rw [hi, if_pos h₀, Request.ofContent, map_singleString_eq_ok_iff,
        filter_filter_ne (by decide)]
    by_cases h₁ : tag = "VALIDATE_X509_CERTIFICATE"
    · have hi : Request.tagIndex tag = 1 := by simp [Request.tagIndex, h₁]
      rw [hi, if_neg h₀, if_pos h₁, Request.ofContent,
        map_singleString_eq_ok_iff, filter_filter_ne (by decide)]
    · -- any other tag is an unsupported request, whatever the other fields
      rw [if_neg h₀, if_neg h₁, Request.ofContent_other h₀ h₁]
      exact ⟨fun h => (Except.ok.inj h).symm, fun h => h ▸ rfl⟩
  · intro tag fs e rec h₀ h₁ hfs hpay hfits hv hid hrec
    -- the payload's text is read back as the unsupported request it stands for
    have hreads := Request.reads_tagged fs hfs (Request.ofContent_other h₀ h₁ _)
    rw [← hpay] at hreads
    have hdec : Envelope.decode Request.reader rec.value = .ok e := by
      rw [hrec]
      exact (Envelope.decode_encode_cases (by decide) e hfits hreads).1 hv hid
    exact ⟨hdec, fun x hx => (x.dispatch_undecodable_iff rec).1 hx e hdec⟩

/-- `{ "token" :"abc", "type":"VALIDATE_DEVICE_TOKEN"}`, with blanks and its tag last, is a token
validation, and a record whose envelope carries `{"type":"FOO"}` decodes with an unsupported
payload and is dispatched. -/
theorem read_request_tag_last :
    let e := Envelope.request ⟨0, 1⟩ Request.unsupported "replies" 0
    let r : BusRecord :=
      ⟨"requests", 0, 0, none, Envelope.encode (fun _ => .object [("type", .string "FOO")]) e⟩
    read Request.reader (objectText [⟨32, rfl⟩]
      [{ ObjectEntry.ofPlain [116, 111, 107, 101, 110] [97, 98, 99] "token" "abc" (by simp [stopsRun])
          (by decide) (by simp [stopsRun]) (by decide) with
          lead := [⟨32, rfl⟩], beforeColon := [⟨32, rfl⟩] },
       { ObjectEntry.ofPlain [116, 121, 112, 101]
          [86, 65, 76, 73, 68, 65, 84, 69, 95, 68, 69, 86, 73, 67, 69, 95, 84, 79, 75, 69, 78]
          "type" "VALIDATE_DEVICE_TOKEN" (by simp [stopsRun]) (by decide) (by simp [stopsRun])
          (by decide) with
          afterComma := [⟨32, rfl⟩] }] [] [⟨10, rfl⟩]) =
        .ok (.validateDeviceToken "abc") ∧
      Envelope.decode Request.reader r.value = .ok e ∧
        ∀ x : Exchange, (x.dispatch r).1 ≠ .undecodable := by
  intro e r
  refine ⟨(read_request_object _ _ _ _ _).1.2 ⟨"VALIDATE_DEVICE_TOKEN", rfl, ?_⟩,
    (read_request_object [] [] [] [] e.payload).2.2.2 "FOO" [] e r (by decide) (by decide)
      (by simp) rfl ⟨by decide, by decide⟩ rfl rfl rfl⟩
  rw [if_pos rfl]
  exact ⟨"abc", rfl, rfl⟩

end TokenGate
