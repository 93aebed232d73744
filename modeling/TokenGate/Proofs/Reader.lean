import Mathlib.Tactic.SplitIfs
import TokenGate.Json.Content
/-!
# `TokenGate.Proofs.Reader`: runs of the JSON reader

A reader is run from a cursor by `Reader.go`, which gives its result (a value or a fault) and
the cursor it leaves. The equations `go_bind`, `go_map`, `go_tryCatch` and `go_lift` take a run
of a composite reader apart, and `Yields` states what every successful run of a reader gives,
whatever the cursor.

On top of these, the lexical steps are stated on the octets they meet: blanks, one octet,
the colon, the closing brace, the end of the text, an object key (`go_nextKey_key`,
`go_nextKey_close`), and a string with no escapes (`go_stringBody_plain`). The reader skips
blanks (`Blank`) before every token, so each step is also stated with blanks before it
(`go_nextKey_spaced`, `go_colon_spaced`, ...), and the plain forms are their cases with none.

Keys and values are described by what the reader makes of them. `KeyText kt k`: the octets
`kt` after a key's opening quote are read as `k`, whatever follows. `ValueText v c`: the
octets `v` of a value inside an object are kept as `c`, whatever entry or closing brace
follows, after blanks or not. The tag of an object is read by `str`, not kept, and
`go_str_of_string` and `str_fails_of_not_string` say that `str` reads a value text kept as a
string as that string and refuses any other.
-/

set_option autoImplicit false

namespace TokenGate.Json.Reader

/-- What a reader does from a cursor: its result and the cursor it leaves. -/
def go {α : Type} (r : Reader α) (c : Cursor) : Except Fault α × Cursor := (r.run).run c

variable {α β : Type}

@[simp] theorem go_pure (a : α) (c : Cursor) : go (pure a : Reader α) c = (.ok a, c) := rfl

theorem go_bind (x : Reader α) (f : α → Reader β) (c : Cursor) :
    go (x >>= f) c = match go x c with
      | (.ok a, c') => go (f a) c'
      | (.error e, c') => (.error e, c') := by
  simp only [go, ExceptT.run_bind, StateT.run_bind]
  rcases (x.run).run c with ⟨_ | a, c'⟩ <;> rfl

theorem go_map (f : α → β) (x : Reader α) (c : Cursor) :
    go (f <$> x) c = match go x c with
      | (.ok a, c') => (.ok (f a), c')
      | (.error e, c') => (.error e, c') := by
  simp only [go, ExceptT.run_map, StateT.run_map]
  rcases (x.run).run c with ⟨_ | a, c'⟩ <;> rfl

theorem go_tryCatch (x : Reader α) (h : Fault → Reader α) (c : Cursor) :
    go (tryCatch x h) c = match go x c with
      | (.ok a, c') => (.ok a, c')
      | (.error e, c') => go (h e) c' := by
  show (ExceptT.tryCatch x h).run.run c = _
  unfold ExceptT.tryCatch
  simp only [go, ExceptT.run_mk, StateT.run_bind]
  simp only [ExceptT.run]
  rcases StateT.run x c with ⟨_ | a, c'⟩ <;> rfl

/-- Running a reader for its outcome, as `closing` does, never fails. -/
theorem go_lift (x : Reader α) (c : Cursor) :
    go (ExceptT.lift x.run : Reader (Except Fault α)) c = (.ok (go x c).1, (go x c).2) := by
  simp only [go, ExceptT.run_lift]
  rfl

@[simp] theorem go_get (c : Cursor) : go (get : Reader Cursor) c = (.ok c, c) := rfl

@[simp] theorem go_set (c c' : Cursor) : go (set c' : Reader PUnit) c = (.ok ⟨⟩, c') := rfl

@[simp] theorem go_modify (f : Cursor → Cursor) (c : Cursor) :
    go (modify f : Reader PUnit) c = (.ok ⟨⟩, f c) := rfl

@[simp] theorem go_throw (e : Fault) (c : Cursor) : go (throw e : Reader α) c = (.error e, c) :=
  rfl

/-! ## What every run gives -/

/-- Every result a reader gives satisfies `P`, from any cursor. -/
def Yields (P : α → Prop) (r : Reader α) : Prop :=
  ∀ c a c', go r c = (.ok a, c') → P a

namespace Yields

variable {P : β → Prop}

theorem pure {b : β} (h : P b) : Yields P (Pure.pure b : Reader β) := by
  intro c a c' hr
  simp only [go_pure, Prod.mk.injEq, Except.ok.injEq] at hr
  exact hr.1 ▸ h

theorem bind {x : Reader α} {f : α → Reader β} (h : ∀ a, Yields P (f a)) :
    Yields P (x >>= f) := by
  intro c a c' hr
  rw [go_bind] at hr
  split at hr
  · exact h _ _ _ _ hr
  · cases hr

theorem throw {e : Fault} : Yields P (MonadExcept.throw e : Reader β) := by
  intro c a c' hr
  cases hr

theorem failAhead {m : String} : Yields P (Reader.failAhead m : Reader β) :=
  bind fun _ => throw

end Yields

/-- A reader that never succeeds fails from every cursor. -/
theorem fails_of_yields_false {r : Reader α} (h : Yields (fun _ => False) r) (c : Cursor) :
    ∃ e c', go r c = (.error e, c') := by
  rcases hr : go r c with ⟨_ | a, c'⟩
  · exact ⟨_, _, rfl⟩
  · exact (h _ _ _ hr).elim

/-! ## Lexical steps -/

theorem go_skipBlanks (rest : List UInt8) (i d : Nat) :
    go skipBlanks ⟨rest, i, d⟩ = (.ok (rest.dropWhile isBlank).head?,
      ⟨rest.dropWhile isBlank, i + (rest.length - (rest.dropWhile isBlank).length), d⟩) := by
  simp [skipBlanks, go_bind, go_map]

theorem go_skipBlanks_cons {b : UInt8} (hb : isBlank b = false) (r : List UInt8) (i d : Nat) :
    go skipBlanks ⟨b :: r, i, d⟩ = (.ok (some b), ⟨b :: r, i, d⟩) := by
  simp [skipBlanks, go_bind, go_map, hb]

theorem go_skipBlanks_nil (i d : Nat) :
    go skipBlanks ⟨[], i, d⟩ = (.ok none, ⟨[], i, d⟩) := by
  simp [skipBlanks, go_bind, go_map]

/-- An octet the reader skips between tokens: a space, a line feed, a tab or a carriage
return. -/
structure Blank where
  octet : UInt8
  blank : isBlank octet = true

/-- The octets of blanks. -/
def Blank.octets (ws : List Blank) : List UInt8 := ws.map (·.octet)

@[simp] theorem Blank.octets_nil : Blank.octets [] = [] := rfl

@[simp] theorem Blank.length_octets (ws : List Blank) : (Blank.octets ws).length = ws.length :=
  List.length_map _

@[simp] theorem Blank.dropWhile_octets (ws : List Blank) (r : List UInt8) :
    (Blank.octets ws ++ r).dropWhile isBlank = r.dropWhile isBlank := by
  induction ws with
  | nil => rfl
  | cons w ws ih =>
    rw [Blank.octets, List.map_cons, List.cons_append, List.dropWhile_cons_of_pos (by simpa using w.blank)]
    exact ih

/-- Blanks, then an octet that is none, are skipped up to that octet. -/
theorem go_skipBlanks_octets {b : UInt8} (hb : isBlank b = false) (ws : List Blank) (r : List UInt8)
    (i d : Nat) :
    go skipBlanks ⟨Blank.octets ws ++ b :: r, i, d⟩ = (.ok (some b), ⟨b :: r, i + ws.length, d⟩) := by
  rw [go_skipBlanks, Blank.dropWhile_octets, List.dropWhile_cons_of_neg (by simp [hb])]
  simp only [List.head?_cons, List.length_append, Blank.length_octets, List.length_cons]
  congr 3
  omega

/-- Blanks to the end of the text are skipped to the end. -/
theorem go_skipBlanks_end (ws : List Blank) (i d : Nat) :
    go skipBlanks ⟨Blank.octets ws, i, d⟩ = (.ok none, ⟨[], i + ws.length, d⟩) := by
  have h := Blank.dropWhile_octets ws []
  rw [List.append_nil] at h
  rw [go_skipBlanks, h]
  simp

theorem go_bump_cons (b : UInt8) (r : List UInt8) (i d : Nat) :
    go bump ⟨b :: r, i, d⟩ = (.ok (), ⟨r, i + 1, d⟩) := rfl

theorem go_colon_spaced (ws : List Blank) (r : List UInt8) (i d : Nat) :
    go colon ⟨Blank.octets ws ++ 58 :: r, i, d⟩ = (.ok (), ⟨r, i + ws.length + 1, d⟩) := by
  simp [colon, go_bind, go_skipBlanks_octets (b := 58) (by decide), go_bump_cons]

theorem go_colon (r : List UInt8) (i d : Nat) :
    go colon ⟨58 :: r, i, d⟩ = (.ok (), ⟨r, i + 1, d⟩) := by
  simpa using go_colon_spaced [] r i d

theorem go_endObject (r : List UInt8) (i d : Nat) :
    go endObject ⟨125 :: r, i, d⟩ = (.ok (), ⟨r, i + 1, d⟩) := by
  simp [endObject, go_bind, go_skipBlanks_cons (b := 125) (by decide), go_bump_cons]

theorem go_finish_nil (i d : Nat) : go finish ⟨[], i, d⟩ = (.ok (), ⟨[], i, d⟩) := by
  simp [finish, go_bind, go_skipBlanks_nil]

theorem go_finish_octets (ws : List Blank) (i d : Nat) :
    go finish ⟨Blank.octets ws, i, d⟩ = (.ok (), ⟨[], i + ws.length, d⟩) := by
  simp [finish, go_bind, go_skipBlanks_end]

theorem go_descend {d : Nat} (hd : 1 < d) (r : List UInt8) (i : Nat) :
    go descend ⟨r, i, d⟩ = (.ok (), ⟨r, i, d - 1⟩) := by
  simp [descend, go_bind, Nat.not_le.2 hd]

theorem go_ascend (c : Cursor) : go ascend c = (.ok (), { c with depth := c.depth + 1 }) := rfl

theorem go_check_ok (a : α) (c : Cursor) : go (check (.ok a)) c = (.ok a, c) := rfl

theorem check_fails (m : String) (c : Cursor) : ∃ e, go (check (.error m) : Reader α) c = (.error e, c) :=
  ⟨_, rfl⟩

/-! ## Placing and closing -/

theorem go_place_ok {r : Reader α} {c c' : Cursor} {a : α} (h : go r c = (.ok a, c')) :
    go (place r) c = (.ok a, c') := by
  rw [place, go_tryCatch, h]

/-- Placing a fault keeps it a fault. -/
theorem place_fails {r : Reader α} {c : Cursor} (h : ∃ e c', go r c = (.error e, c')) :
    ∃ e' c'', go (place r) c = (.error e', c'') := by
  obtain ⟨e, c', h⟩ := h
  rw [place, go_tryCatch, h]
  dsimp only
  split
  · exact ⟨_, _, rfl⟩
  · split
    · exact ⟨_, _, rfl⟩
    · exact fails_of_yields_false (.bind fun _ => .throw) _

theorem go_closing_ok {body : Reader α} {close : Reader Unit} {c c₁ c₂ : Cursor} {a : α}
    (hb : go body c = (.ok a, c₁)) (hc : go close { c₁ with depth := c₁.depth + 1 } = (.ok (), c₂)) :
    go (closing body close) c = (.ok a, c₂) := by
  simp only [closing, go_bind, go_lift, hb, go_ascend, hc]
  rfl

theorem closing_fails {body : Reader α} (close : Reader Unit) {c c₁ : Cursor} {e : Fault}
    (hb : go body c = (.error e, c₁)) : ∃ c₂, go (closing body close) c = (.error e, c₂) := by
  simp only [closing, go_bind, go_lift, hb, go_ascend]
  exact ⟨_, rfl⟩

/-! ## Strings and keys -/

theorem takeWhile_plain {l : List UInt8} (hl : ∀ b ∈ l, stopsRun b = false) (r : List UInt8) :
    (l ++ 34 :: r).takeWhile (fun b => !stopsRun b) = l := by
  rw [List.takeWhile_append_of_pos (by simpa using hl)]
  simp [stopsRun]

/-- A string written with no quote, backslash or control character inside is read as the text
its octets encode. -/
theorem go_stringBody_plain {l : List UInt8} {s : String} (hl : ∀ b ∈ l, stopsRun b = false)
    (hs : Utf8.decode? l = some s) (r : List UInt8) (i d : Nat) :
    go stringBody ⟨l ++ 34 :: r, i, d⟩ = (.ok s, ⟨r, i + l.length + 1, d⟩) := by
  simp only [stringBody, go_bind, go_get]
  rw [stringOctets]
  simp [go_bind, go_map, takeWhile_plain hl, hs, go_bump_cons]

/-- The octets `kt` after a key's opening quote are read as the key `k`, whatever follows. -/
def KeyText (kt : List UInt8) (k : String) : Prop :=
  ∀ r i d, ∃ j, go stringBody ⟨kt ++ r, i, d⟩ = (.ok k, ⟨r, j, d⟩)

theorem keyText_plain {l : List UInt8} {k : String} (hl : ∀ b ∈ l, stopsRun b = false)
    (hk : Utf8.decode? l = some k) : KeyText (l ++ [34]) k := by
  intro r i d
  exact ⟨_, by simpa using go_stringBody_plain hl hk r i d⟩

/-- The octets before a key: a comma unless it is the first one. -/
def keyLead (first : Bool) : List UInt8 := if first then [] else [44]

/-- The octets before a key, with blanks: blanks `lead`, and, unless it is the first key, a
comma and blanks `afterComma`. -/
def spacedLead (first : Bool) (lead afterComma : List Blank) : List UInt8 :=
  Blank.octets lead ++ if first then [] else 44 :: Blank.octets afterComma

theorem go_nextKey_spaced {kt : List UInt8} {k : String} (hk : KeyText kt k) (first : Bool)
    (lead afterComma : List Blank) (r : List UInt8) (i d : Nat) :
    ∃ j, go (nextKey first) ⟨spacedLead first lead afterComma ++ 34 :: kt ++ r, i, d⟩ =
      (.ok (some k), ⟨r, j, d⟩) := by
  cases first with
  | true =>
    obtain ⟨j, hj⟩ := hk r (i + lead.length + 1) d
    exact ⟨j, by simp [nextKey, spacedLead, go_bind, go_map,
      go_skipBlanks_octets (b := 34) (by decide), go_bump_cons, hj]⟩
  | false =>
    obtain ⟨j, hj⟩ := hk r (i + lead.length + 1 + afterComma.length + 1) d
    exact ⟨j, by simp [nextKey, spacedLead, go_bind, go_map,
      go_skipBlanks_octets (b := 44) (by decide), go_skipBlanks_octets (b := 34) (by decide),
      go_bump_cons, hj]⟩

theorem go_nextKey_key {kt : List UInt8} {k : String} (hk : KeyText kt k) (first : Bool)
    (r : List UInt8) (i d : Nat) :
    ∃ j, go (nextKey first) ⟨keyLead first ++ 34 :: kt ++ r, i, d⟩ = (.ok (some k), ⟨r, j, d⟩) := by
  have hlead : keyLead first = spacedLead first [] [] := by
    cases first <;> rfl
  rw [hlead]
  exact go_nextKey_spaced hk first [] [] r i d

theorem go_nextKey_close_spaced (first : Bool) (ws : List Blank) (r : List UInt8) (i d : Nat) :
    go (nextKey first) ⟨Blank.octets ws ++ 125 :: r, i, d⟩ =
      (.ok none, ⟨125 :: r, i + ws.length, d⟩) := by
  simp [nextKey, go_bind, go_skipBlanks_octets (b := 125) (by decide)]

theorem go_nextKey_close (first : Bool) (r : List UInt8) (i d : Nat) :
    go (nextKey first) ⟨125 :: r, i, d⟩ = (.ok none, ⟨125 :: r, i, d⟩) := by
  simpa using go_nextKey_close_spaced first [] r i d

/-! ## Values -/

/-- The octets `v` of a value inside an object are kept as the content `c`, whatever entry or
closing brace follows, given fuel enough for `v`. -/
def ValueText (v : List UInt8) (c : Content) : Prop :=
  ∀ r i fuel, ((r.dropWhile isBlank).head? = some 44 ∨ (r.dropWhile isBlank).head? = some 125) →
    v.length < fuel →
    ∃ j, go (contentOf fuel) ⟨v ++ r, i, 127⟩ = (.ok c, ⟨r, j, 127⟩)

/-- A value whose first octet past the blanks is a quote is kept as the string read after it. -/
theorem go_contentOf_quote {fuel : Nat} {rest r : List UInt8} (hr : rest.dropWhile isBlank = 34 :: r)
    (i d : Nat) :
    go (contentOf (fuel + 1)) ⟨rest, i, d⟩ =
      match go stringBody ⟨r, i + (rest.length - (34 :: r).length) + 1, d⟩ with
      | (.ok s, c') => (.ok (.string s), c')
      | (.error e, c') => (.error e, c') := by
  rw [contentOf]
  simp only [go_bind, go_skipBlanks, hr, List.head?_cons]
  simp only [show ((34 : UInt8) == 110) = false from rfl, show ((34 : UInt8) == 116) = false from rfl,
    show ((34 : UInt8) == 102) = false from rfl, show ((34 : UInt8) == 45) = false from rfl,
    show isDigit 34 = false from rfl, show ((34 : UInt8) == 34) = true from rfl,
    Bool.false_eq_true, if_false, if_true, go_bind, go_bump_cons]
  rcases go stringBody ⟨r, i + (rest.length - (34 :: r).length) + 1, d⟩ with ⟨_ | s, c'⟩ <;> rfl

/-- A value kept as a string starts, past the blanks, with a quote. -/
theorem contentOf_string {fuel : Nat} {rest : List UInt8} {i d : Nat} {c' : Cursor} {s : String}
    (h : go (contentOf (fuel + 1)) ⟨rest, i, d⟩ = (.ok (.string s), c')) :
    ∃ r, rest.dropWhile isBlank = 34 :: r ∧
      go stringBody ⟨r, i + (rest.length - (34 :: r).length) + 1, d⟩ = (.ok s, c') := by
  cases hd : rest.dropWhile isBlank with
  | nil =>
    rw [contentOf] at h
    simp [go_bind, go_skipBlanks, hd, failAhead] at h
  | cons b r =>
    by_cases h34 : b = 34
    · subst h34
      refine ⟨r, rfl, ?_⟩
      rw [go_contentOf_quote hd] at h
      split at h
      · next s' c'' hs =>
        simp only [Prod.mk.injEq, Except.ok.injEq, Content.string.injEq] at h
        rw [hs, h.1, h.2]
      · cases h
    · exfalso
      rw [contentOf] at h
      simp only [go_bind, go_skipBlanks, hd, List.head?_cons] at h
      -- every branch but the quote's yields another kind of content
      have hne : ∀ x : Reader Content, Yields (fun c => ∀ s, c ≠ .string s) x →
          go x ⟨b :: r, i + (rest.length - (b :: r).length), d⟩ ≠ (.ok (.string s), c') :=
        fun x hx hgo => hx _ _ _ hgo s rfl
      split_ifs at h with h110 h116 h102 h45 hdig h34' h91 h123
      · exact hne _ (.bind fun _ => .bind fun _ => .pure (by simp)) h
      · exact hne _ (.bind fun _ => .bind fun _ => .pure (by simp)) h
      · exact hne _ (.bind fun _ => .bind fun _ => .pure (by simp)) h
      · exact hne _ (.bind fun _ => .bind fun _ => .pure (by simp)) h
      · exact hne _ (.bind fun _ => .pure (by simp)) h
      · exact h34 (by simpa using h34')
      · exact hne _ (.bind fun _ => .bind fun _ => .bind fun _ => .pure (by simp)) h
      · exact hne _ (.bind fun _ => .bind fun _ => .bind fun _ => .pure (by simp)) h
      · exact hne _ .failAhead h

theorem valueText_plain {l : List UInt8} {s : String} (hl : ∀ b ∈ l, stopsRun b = false)
    (hs : Utf8.decode? l = some s) : ValueText (34 :: l ++ [34]) (.string s) := by
  intro r i fuel _ hfuel
  obtain ⟨n, rfl⟩ : ∃ n, fuel = n + 1 := ⟨fuel - 1, by simp at hfuel; omega⟩
  have hd : (34 :: l ++ [34] ++ r).dropWhile isBlank = 34 :: (l ++ 34 :: r) := by
    simp [isBlank]
  rw [go_contentOf_quote hd, go_stringBody_plain hl hs]
  exact ⟨_, rfl⟩

/-- A value text kept as a string is read by `str` as that string. -/
theorem go_str_of_string {v : List UInt8} {s : String} (hv : ValueText v (.string s))
    (expecting : String) (visit : String → Except String α) {a : α} (ha : visit s = .ok a)
    (r : List UInt8)
    (hr : (r.dropWhile isBlank).head? = some 44 ∨ (r.dropWhile isBlank).head? = some 125) (i : Nat) :
    ∃ j, go (str expecting visit) ⟨v ++ r, i, 127⟩ = (.ok a, ⟨r, j, 127⟩) := by
  obtain ⟨j, hj⟩ := hv r i (v.length + 1) hr (Nat.lt_succ_self _)
  obtain ⟨r', hd, hs⟩ := contentOf_string hj
  refine ⟨j, go_place_ok ?_⟩
  simp only [go_bind, go_skipBlanks, hd, List.head?_cons, go_bump_cons]
  simp only [List.length_cons, List.length_append] at hs
  simp [hs, ha, go_check_ok]

/-- `str` refuses a value text that is not kept as a string. -/
theorem str_fails_of_not_string {v : List UInt8} {c : Content} (hv : ValueText v c)
    (hc : ∀ s, c ≠ .string s) (expecting : String) (visit : String → Except String α)
    (r : List UInt8)
    (hr : (r.dropWhile isBlank).head? = some 44 ∨ (r.dropWhile isBlank).head? = some 125) (i : Nat) :
    ∃ e c', go (str expecting visit) ⟨v ++ r, i, 127⟩ = (.error e, c') := by
  obtain ⟨j, hj⟩ := hv r i (v.length + 1) hr (Nat.lt_succ_self _)
  -- past the blanks there is no quote, so `str` refuses whatever stands there
  rw [str, strThen]
  apply place_fails
  rw [go_bind, go_skipBlanks]
  dsimp only
  cases hd : (v ++ r).dropWhile isBlank with
  | nil => exact fails_of_yields_false .failAhead _
  | cons b r' =>
    by_cases h34 : b = 34
    · subst h34
      rw [go_contentOf_quote hd] at hj
      split at hj
      · simp only [Prod.mk.injEq, Except.ok.injEq] at hj
        exact (hc _ hj.1.symm).elim
      · cases hj
    · simp only [List.head?_cons]
      exact fails_of_yields_false (.bind fun _ => .bind fun _ => .throw) _

end TokenGate.Json.Reader
