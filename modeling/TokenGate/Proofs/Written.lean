import TokenGate.Proofs.Reader
import TokenGate.Proofs.Utf8
/-!
# `TokenGate.Proofs.Written`: what the writer writes, the reader reads back

`Value.write` writes a document as compact text, and the readers of `TokenGate.Json.Decode`
read typed values from octets. This module shows that every text the writer makes for a
scalar, an object or a tagged object is read back as the value written, wherever it stands
in a longer text.

`Reads depth r t a` says that the reader `r` takes exactly the octets `t` and gives `a`,
from any index, when a delimiter (nothing, a comma, a closing bracket or brace) follows and
more than `depth` levels of nesting are still allowed.

* Strings: `encode_quote` writes a string as its escaped characters between quotes, and
  `go_stringBody_quote` reads them back, every escape included (`go_stringOctets_escaped`,
  one character at a time: a plain character is copied, any other is read by `escape`).
* Numbers: `natText` and `go_number_natText` read the decimal text of a natural back as
  itself; `reads_unsigned` and `reads_signed64` are the bounded readers.
* `null` and present values under `option`: `reads_option_null`, `Reads.option`.
* Objects: `encode_write_object` writes an object as the octets of its members, and
  `ReadsFields.reads_record` reads them with a record's reader, one field after another
  (`ReadsFields`), one level deeper than its values.
* Tagged objects: `reads_tagged_strings` reads an object written with its tag first and then
  string fields as the tag and the fields kept as written.
-/

set_option autoImplicit false

namespace TokenGate.Json

open Reader

/-- The octets of characters written inside a JSON string, escapes included. -/
def escapedOctets (cs : List Char) : List UInt8 := cs.flatMap fun c => Utf8.encode (escapeChar c)

theorem encode_append (a b : String) : Utf8.encode (a ++ b) = Utf8.encode a ++ Utf8.encode b := by
  simp [Utf8.encode_eq_flatMap]

theorem encode_join (ss : List String) : Utf8.encode (String.join ss) = ss.flatMap Utf8.encode := by
  induction ss with
  | nil => simp [Utf8.encode_eq_flatMap]
  | cons s ss ih => simp [String.join_cons, encode_append, ih]

theorem encode_quote (s : String) :
    Utf8.encode (quote s) = 34 :: escapedOctets s.toList ++ [34] := by
  have hq : Utf8.encode "\"" = [34] := by rw [Utf8.encode_eq_flatMap]; rfl
  simp [quote, encode_append, encode_join, escapedOctets, List.flatMap_map, hq]

/-- A character that stands for itself inside a JSON string. -/
def Plain (c : Char) : Prop := c ≠ '"' ∧ c ≠ '\\' ∧ 0x20 ≤ c.toNat

instance : DecidablePred Plain := fun _ => inferInstanceAs (Decidable (_ ∧ _ ∧ _))

theorem escapeChar_plain {c : Char} (h : Plain c) : escapeChar c = String.singleton c := by
  obtain ⟨h1, h2, h3⟩ := h
  have hn : c ≠ '\n' := fun e => by subst e; simp at h3
  have hr : c ≠ '\r' := fun e => by subst e; simp at h3
  have ht : c ≠ '\t' := fun e => by subst e; simp at h3
  simp only [escapeChar, beq_iff_eq, h1, h2, hn, hr, ht, if_false]
  rw [if_neg (by omega), if_neg (by omega), if_neg (by omega)]

/-- Every octet of a character at or above `0x80` is at or above `0x80`. -/
theorem encodeChar_high {c : Char} (h : 128 ≤ c.toNat) : ∀ b ∈ Utf8.encodeChar c, 128 ≤ b.toNat := by
  have hc : c.val.toNat = c.toNat := rfl
  have hmax : c.toNat < 0x110000 := by
    have : c.toNat < 0xD800 ∨ (0xDFFF < c.toNat ∧ c.toNat < 0x110000) := c.valid
    omega
  simp only [Utf8.encodeChar, String.utf8EncodeChar, hc]
  split_ifs <;> simp [UInt8.toNat_ofNat'] <;> omega

theorem stopsRun_eq_false_iff (b : UInt8) :
    stopsRun b = false ↔ b.toNat ≠ 34 ∧ b.toNat ≠ 92 ∧ 32 ≤ b.toNat := by
  simp only [stopsRun, Bool.or_eq_false_iff, beq_eq_false_iff_ne, decide_eq_false_iff_not,
    UInt8.lt_iff_toNat_lt, ne_eq, ← UInt8.toNat_inj, Nat.not_lt, UInt8.reduceToNat, and_assoc]

/-- No octet of a plain character ends a run of string content. -/
theorem stopsRun_plain {c : Char} (h : Plain c) : ∀ b ∈ Utf8.encodeChar c, stopsRun b = false := by
  obtain ⟨h1, h2, h3⟩ := h
  intro b hb
  rw [stopsRun_eq_false_iff]
  by_cases hlow : c.toNat < 128
  · have he : Utf8.encodeChar c = [UInt8.ofNat c.toNat] := by
      simp [Utf8.encodeChar, String.utf8EncodeChar, show c.val.toNat = c.toNat from rfl]
      omega
    rw [he, List.mem_singleton] at hb
    subst hb
    have h34 : c.toNat ≠ 34 := fun e => h1 (Char.toNat_inj.mp e)
    have h92 : c.toNat ≠ 92 := fun e => h2 (Char.toNat_inj.mp e)
    simp only [UInt8.toNat_ofNat', Nat.reducePow]
    omega
  · have := encodeChar_high (by omega) b hb
    omega

theorem go_nextInString_cons (b : UInt8) (r : List UInt8) (i d : Nat) :
    go nextInString ⟨b :: r, i, d⟩ = (.ok b, ⟨r, i + 1, d⟩) := rfl

/-- The octets `t` after a backslash are one escape, read as the octets of `c`. -/
def EscapeText (t : List UInt8) (c : Char) : Prop :=
  ∀ r i d, ∃ j, go escape ⟨t ++ r, i, d⟩ = (.ok (Utf8.encodeChar c), ⟨r, j, d⟩)

/-- The escapes of one octet after the backslash: quote, backslash, and the five letters. -/
theorem escapeText_single {c : Char} (hc : c ∈ ['"', '\\', '\n', '\r', '\t', '\x08', '\x0c']) :
    ∃ b, Utf8.encode (escapeChar c) = [92, b] ∧ EscapeText [b] c := by
  simp only [List.mem_cons, List.not_mem_nil, or_false] at hc
  rcases hc with rfl | rfl | rfl | rfl | rfl | rfl | rfl <;>
    exact ⟨_, by rw [Utf8.encode_eq_flatMap]; rfl,
      fun r i d => ⟨i + 1, by simp [escape, go_bind, go_nextInString_cons]; rfl⟩⟩

/-- A lowercase hexadecimal digit, as `hex4` writes it. -/
def hexDigitChar (d : Nat) : Char := if d < 10 then Char.ofNat (48 + d) else Char.ofNat (87 + d)

theorem hexDigitChar_octet (d : Nat) (h : d < 16) :
    ∃ b, Utf8.encodeChar (hexDigitChar d) = [b] ∧ hexDigit b = some d := by
  have key : ∀ k : Fin 16, Utf8.encodeChar (hexDigitChar k) = [UInt8.ofNat (hexDigitChar k).toNat] ∧
      hexDigit (UInt8.ofNat (hexDigitChar k).toNat) = some k.val := by
    decide
  exact ⟨_, key ⟨d, h⟩⟩

theorem go_hexEscape {a b e f : UInt8} {w x y z : Nat} (ha : hexDigit a = some w)
    (hb : hexDigit b = some x) (he : hexDigit e = some y) (hf : hexDigit f = some z)
    (r : List UInt8) (i d : Nat) :
    go hexEscape ⟨a :: b :: e :: f :: r, i, d⟩ = (.ok (((w * 16 + x) * 16 + y) * 16 + z), ⟨r, i + 4, d⟩) := by
  simp [hexEscape, go_bind, go_map, ha, hb, he, hf]

/-- The four digits `hex4` writes for a control character: two zeros, then its two
hexadecimal digits. -/
theorem hex4_control {n : Nat} (h : n < 32) :
    ∃ a b, Utf8.encode (hex4 n) = [48, 48, a, b] ∧ hexDigit a = some (n / 16) ∧
      hexDigit b = some (n % 16) := by
  obtain ⟨a, ha, hda⟩ := hexDigitChar_octet (n / 16 % 16) (Nat.mod_lt _ (by decide))
  obtain ⟨b, hb, hdb⟩ := hexDigitChar_octet (n % 16) (Nat.mod_lt _ (by decide))
  have hzero : Utf8.encodeChar (hexDigitChar 0) = [48] := by decide
  have hhi : n / 4096 % 16 = 0 ∧ n / 256 % 16 = 0 ∧ n / 16 % 16 = n / 16 := by omega
  refine ⟨a, b, ?_, by rw [hda, hhi.2.2], hdb⟩
  rw [Utf8.encode_eq_flatMap]
  show (String.ofList [hexDigitChar (n / 4096 % 16), hexDigitChar (n / 256 % 16),
    hexDigitChar (n / 16 % 16), hexDigitChar (n % 16)]).toList.flatMap Utf8.encodeChar = _
  rw [String.toList_ofList, hhi.1, hhi.2.1]
  simp [hzero, ha, hb]

/-- A control character without a two-letter escape is written `\u00xx` and read back. -/
theorem escapeText_unicode {c : Char} (h : c.toNat < 32) :
    ∃ t, Utf8.encode ("\\u" ++ hex4 c.toNat) = 92 :: t ∧ EscapeText t c := by
  obtain ⟨a, b, hab, ha, hb⟩ := hex4_control h
  refine ⟨117 :: 48 :: 48 :: a :: b :: [], ?_, fun r i d => ⟨i + 5, ?_⟩⟩
  · rw [encode_append, hab, show Utf8.encode "\\u" = [92, 117] by rw [Utf8.encode_eq_flatMap]; rfl]
    rfl
  · have h0 : hexDigit 48 = some 0 := rfl
    simp only [List.cons_append, List.nil_append, escape, go_bind, go_nextInString_cons]
    simp [go_bind, go_hexEscape h0 h0 ha hb, Nat.div_add_mod', codePointOctets,
      show c.toNat < 55296 by omega, show ¬ 56320 ≤ c.toNat by omega]

/-- Every character that is not plain is written as a backslash and one escape that reads
back as its octets. -/
theorem escaped_char {c : Char} (h : ¬ Plain c) :
    ∃ t, Utf8.encode (escapeChar c) = 92 :: t ∧ EscapeText t c := by
  by_cases hs : c ∈ ['"', '\\', '\n', '\r', '\t', '\x08', '\x0c']
  · obtain ⟨b, hb, ht⟩ := escapeText_single hs
    exact ⟨[b], hb, ht⟩
  · simp only [List.mem_cons, List.not_mem_nil, or_false, not_or] at hs
    obtain ⟨h1, h2, hn, hr, ht, h8, h12⟩ := hs
    have hlow : c.toNat < 32 := by
      simp only [Plain, not_and, Nat.not_le] at h
      exact h h1 h2
    have h8' : c.toNat ≠ 8 := fun e => h8 (Char.toNat_inj.mp e)
    have h12' : c.toNat ≠ 12 := fun e => h12 (Char.toNat_inj.mp e)
    have he : escapeChar c = "\\u" ++ hex4 c.toNat := by
      simp only [escapeChar, beq_iff_eq, h1, h2, hn, hr, ht, h8', h12', if_false]
      rw [if_pos hlow]
    rw [he]
    exact escapeText_unicode hlow

theorem takeWhile_run {pre : List UInt8} (hpre : ∀ b ∈ pre, stopsRun b = false) {b : UInt8}
    (hb : stopsRun b = true) (r : List UInt8) :
    (pre ++ b :: r).takeWhile (fun b => !stopsRun b) = pre := by
  rw [List.takeWhile_append_of_pos (by simpa using hpre)]
  simp [hb]

/-- A run of content up to the closing quote ends the string. -/
theorem go_stringOctets_quote {pre : List UInt8} (hpre : ∀ b ∈ pre, stopsRun b = false)
    (acc : List UInt8) (fuel : Nat) (r : List UInt8) (i d : Nat) :
    go (stringOctets acc (fuel + 1)) ⟨pre ++ 34 :: r, i, d⟩ =
      (.ok (acc.reverse ++ pre), ⟨r, i + pre.length + 1, d⟩) := by
  rw [stringOctets]
  simp [go_bind, go_map, takeWhile_run hpre (show stopsRun 34 = true from rfl), go_bump_cons]

/-- A run of content up to a backslash goes on with the escape after it. -/
theorem go_stringOctets_backslash {pre : List UInt8} (hpre : ∀ b ∈ pre, stopsRun b = false)
    (acc : List UInt8) (fuel : Nat) (r : List UInt8) (i d : Nat) :
    go (stringOctets acc (fuel + 1)) ⟨pre ++ 92 :: r, i, d⟩ =
      go (escape >>= fun e => stringOctets (e.reverse ++ (pre.reverse ++ acc)) fuel)
        ⟨r, i + pre.length + 1, d⟩ := by
  rw [stringOctets]
  simp [go_bind, takeWhile_run hpre (show stopsRun 92 = true from rfl), go_bump_cons]

theorem encode_escapeChar_plain {c : Char} (h : Plain c) :
    Utf8.encode (escapeChar c) = Utf8.encodeChar c := by
  rw [escapeChar_plain h, Utf8.encode_eq_flatMap]
  simp

/-- The content of a string, runs and escapes alike, is read as the octets of its
characters, from any run of content already begun. -/
theorem go_stringOctets_escaped (cs : List Char) :
    ∀ (pre acc : List UInt8) (fuel : Nat) (r : List UInt8) (i d : Nat),
      (∀ b ∈ pre, stopsRun b = false) → cs.length < fuel →
      ∃ j, go (stringOctets acc fuel) ⟨pre ++ escapedOctets cs ++ 34 :: r, i, d⟩ =
        (.ok (acc.reverse ++ pre ++ cs.flatMap Utf8.encodeChar), ⟨r, j, d⟩) := by
  induction cs with
  | nil =>
    intro pre acc fuel r i d hpre hfuel
    obtain ⟨f, rfl⟩ : ∃ f, fuel = f + 1 := ⟨fuel - 1, by simp at hfuel; omega⟩
    simpa [escapedOctets] using ⟨_, go_stringOctets_quote hpre acc f r i d⟩
  | cons c cs ih =>
    intro pre acc fuel r i d hpre hfuel
    have hlen : cs.length < fuel := by simp at hfuel; omega
    by_cases hc : Plain c
    · -- a plain character lengthens the run
      have hrun : ∀ b ∈ pre ++ Utf8.encodeChar c, stopsRun b = false := by
        intro b hb
        rcases List.mem_append.mp hb with hb | hb
        · exact hpre b hb
        · exact stopsRun_plain hc b hb
      obtain ⟨j, hj⟩ := ih (pre ++ Utf8.encodeChar c) acc fuel r i d hrun hlen
      refine ⟨j, ?_⟩
      simpa [escapedOctets, encode_escapeChar_plain hc] using hj
    · -- an escape ends the run; the reading goes on after it
      obtain ⟨t, ht, hesc⟩ := escaped_char hc
      obtain ⟨f, rfl⟩ : ∃ f, fuel = f + 1 := ⟨fuel - 1, by simp at hfuel; omega⟩
      have htext : pre ++ escapedOctets (c :: cs) ++ 34 :: r =
          pre ++ 92 :: (t ++ ([] ++ escapedOctets cs ++ 34 :: r)) := by
        simp [escapedOctets, ht]
      obtain ⟨j, hj⟩ := hesc ([] ++ escapedOctets cs ++ 34 :: r) (i + pre.length + 1) d
      obtain ⟨j', hj'⟩ := ih [] ((Utf8.encodeChar c).reverse ++ (pre.reverse ++ acc)) f r j d
        (by simp) (by simp at hfuel; omega)
      refine ⟨j', ?_⟩
      rw [htext, go_stringOctets_backslash hpre, go_bind, hj]
      simpa using hj'

theorem length_le_escapedOctets (cs : List Char) : cs.length ≤ (escapedOctets cs).length := by
  induction cs with
  | nil => simp [escapedOctets]
  | cons c cs ih =>
    -- every character is written with at least one octet
    have hpos : 0 < (Utf8.encode (escapeChar c)).length := by
      by_cases hc : Plain c
      · rw [encode_escapeChar_plain hc, Utf8.encodeChar, String.length_utf8EncodeChar]
        exact c.utf8Size_pos
      · obtain ⟨t, ht, -⟩ := escaped_char hc
        simp [ht]
    simp only [escapedOctets, List.flatMap_cons, List.length_append, List.length_cons] at ih ⊢
    omega

/-- A string written by `quote` is read back, after its opening quote, as the string itself. -/
theorem go_stringBody_quote (s : String) (r : List UInt8) (i d : Nat) :
    ∃ j, go stringBody ⟨escapedOctets s.toList ++ 34 :: r, i, d⟩ = (.ok s, ⟨r, j, d⟩) := by
  obtain ⟨j, hj⟩ := go_stringOctets_escaped s.toList [] [] ((escapedOctets s.toList ++ 34 :: r).length + 1)
    r i d (by simp) (by have := length_le_escapedOctets s.toList; simp; omega)
  refine ⟨j, ?_⟩
  simp only [List.nil_append] at hj
  have hoct : ([] : List UInt8).reverse ++ [] ++ s.toList.flatMap Utf8.encodeChar = Utf8.encode s := by
    simp [Utf8.encode_eq_flatMap]
  simp only [stringBody, go_bind, go_get, hj, hoct, Utf8.decode?_encode]
  rfl

/-- A key written by `quote` is read as itself. -/
theorem keyText_quote (k : String) : KeyText (escapedOctets k.toList ++ [34]) k := by
  intro r i d
  simpa using go_stringBody_quote k r i d

/-! ## What a text is read as -/

/-- Octets that may follow a written value: nothing more, a comma, or a closing bracket
or brace. -/
def Delimited (rest : List UInt8) : Prop := ∀ b ∈ rest.head?, b = 44 ∨ b = 93 ∨ b = 125

theorem Delimited.not_digit {rest : List UInt8} (h : Delimited rest) :
    ∀ b ∈ rest.head?, isDigit b = false := by
  intro b hb
  rcases h b hb with rfl | rfl | rfl <;> rfl

/-- `r` reads the octets `t` as `a`: from any index, with a delimiter after `t` and more
than `depth` levels of nesting still allowed, it takes exactly `t` and gives `a`. -/
def Reads {α : Type} (depth : Nat) (r : Reader α) (t : List UInt8) (a : α) : Prop :=
  ∀ rest i d, Delimited rest → depth < d → ∃ j, go r ⟨t ++ rest, i, d⟩ = (.ok a, ⟨rest, j, d⟩)

theorem Reads.mono {α : Type} {k k' : Nat} {r : Reader α} {t : List UInt8} {a : α}
    (h : Reads k r t a) (hk : k ≤ k') : Reads k' r t a :=
  fun rest i d hrest hd => h rest i d hrest (by omega)

theorem Reads.map {α β : Type} {k : Nat} {r : Reader α} {t : List UInt8} {a : α}
    (h : Reads k r t a) (f : α → β) : Reads k (f <$> r) t (f a) := by
  intro rest i d hrest hd
  obtain ⟨j, hj⟩ := h rest i d hrest hd
  exact ⟨j, by rw [go_map, hj]⟩

theorem Reads.bind_pure {α β : Type} {k : Nat} {r : Reader α} {t : List UInt8} {a : α}
    (h : Reads k r t a) (f : α → β) : Reads k (r >>= fun x => pure (f x)) t (f a) := by
  intro rest i d hrest hd
  obtain ⟨j, hj⟩ := h rest i d hrest hd
  exact ⟨j, by rw [go_bind, hj]; rfl⟩

/-- A string is read by `str` as what its visitor makes of it. -/
theorem reads_str {α : Type} (expecting : String) {visit : String → Except String α} {s : String}
    {a : α} (h : visit s = .ok a) : Reads 0 (str expecting visit) (Utf8.encode (quote s)) a := by
  intro rest i d _ _
  obtain ⟨j, hj⟩ := go_stringBody_quote s rest (i + 1) d
  refine ⟨j, go_place_ok ?_⟩
  rw [encode_quote]
  simp [go_bind, go_skipBlanks_cons (show isBlank 34 = false by decide), go_bump_cons, hj, h, go_check_ok]

theorem reads_string (s : String) : Reads 0 Reader.string (Utf8.encode (Value.write (.string s))) s :=
  reads_str "a string" rfl

/-! ## Numbers -/

/-- The value of decimal digit octets read after `acc`, as the reader accumulates it. -/
def digitsValue (ds : List UInt8) (acc : Nat) : Nat := ds.foldl (fun a b => a * 10 + (b.toNat - 48)) acc

theorem digitChar_octet {c : Char} (h : c.isDigit = true) :
    Utf8.encodeChar c = [UInt8.ofNat c.toNat] ∧ isDigit (UInt8.ofNat c.toNat) = true := by
  have hc : 48 ≤ c.toNat ∧ c.toNat ≤ 57 := by
    simp only [Char.isDigit, Bool.and_eq_true, decide_eq_true_eq, UInt32.le_iff_toNat_le] at h
    exact h
  refine ⟨?_, ?_⟩
  · simp [Utf8.encodeChar, String.utf8EncodeChar, show c.val.toNat = c.toNat from rfl]
    omega
  · simp only [isDigit, UInt8.le_iff_toNat_le, UInt8.toNat_ofNat', Nat.reducePow, UInt8.reduceToNat,
      Bool.and_eq_true, decide_eq_true_eq]
    omega

theorem flatMap_digits {cs : List Char} (h : ∀ c ∈ cs, c.isDigit = true) :
    cs.flatMap Utf8.encodeChar = cs.map fun c => UInt8.ofNat c.toNat := by
  induction cs with
  | nil => rfl
  | cons c cs ih =>
    rw [List.flatMap_cons, (digitChar_octet (h c (by simp))).1, ih fun c hc => h c (by simp [hc])]
    rfl

theorem digitsValue_map {cs : List Char} (h : ∀ c ∈ cs, c.isDigit = true) (acc : Nat) :
    digitsValue (cs.map fun c => UInt8.ofNat c.toNat) acc = Nat.ofDigitChars 10 cs acc := by
  induction cs generalizing acc with
  | nil => rfl
  | cons c cs ih =>
    have hc : c.toNat < 256 := by
      have := h c (by simp)
      simp only [Char.isDigit, Bool.and_eq_true, decide_eq_true_eq, UInt32.le_iff_toNat_le] at this
      exact Nat.lt_of_le_of_lt this.2 (by decide)
    rw [List.map_cons, digitsValue, List.foldl_cons, ← digitsValue, Nat.ofDigitChars_cons,
      UInt8.toNat_ofNat', Nat.mod_eq_of_lt hc, Nat.mul_comm, ih fun c hc => h c (by simp [hc])]
    rfl

/-- The octets of a natural's decimal text: digits, whose value is the natural. -/
theorem natText (n : Nat) :
    (∀ b ∈ Utf8.encode (toString n), isDigit b = true) ∧
      digitsValue (Utf8.encode (toString n)) 0 = n := by
  have hdig : ∀ c ∈ Nat.toDigits 10 n, c.isDigit = true :=
    fun c hc => Nat.isDigit_of_mem_toDigits (by decide) (by decide) hc
  have hmap : Utf8.encode (toString n) = (Nat.toDigits 10 n).map fun c => UInt8.ofNat c.toNat := by
    rw [Utf8.encode_eq_flatMap, Nat.toString_eq_repr, Nat.toList_repr, flatMap_digits hdig]
  refine ⟨?_, ?_⟩
  · rw [hmap]
    intro b hb
    obtain ⟨c, hc, rfl⟩ := List.mem_map.mp hb
    exact (digitChar_octet (hdig c hc)).2
  · rw [hmap, digitsValue_map hdig, Nat.ofDigitChars_ten_toDigits]

/-- The decimal text of a positive natural does not start with a zero. -/
theorem toDigits_head_ne_zero {n : Nat} (h : 0 < n) :
    ∀ c cs, Nat.toDigits 10 n = c :: cs → c ≠ '0' := by
  induction n using Nat.strongRecOn with
  | ind n ih =>
    intro c cs hcs
    by_cases hn : n < 10
    · rw [Nat.toDigits_of_lt_base hn, List.cons.injEq] at hcs
      rw [← hcs.1]
      simpa using Nat.pos_iff_ne_zero.mp h
    · -- the leading digit is the leading digit of `n / 10`
      rw [Nat.toDigits_of_base_le (by decide) (by omega)] at hcs
      obtain ⟨c', cs', hc'⟩ := List.exists_cons_of_ne_nil (@Nat.toDigits_ne_nil (n / 10) 10)
      rw [hc', List.cons_append, List.cons.injEq] at hcs
      rw [← hcs.1]
      exact ih (n / 10) (by omega) (by omega) c' cs' hc'

/-- The decimal text of a natural: `0` alone, or a nonzero leading digit. -/
theorem natText_head (n : Nat) :
    ∃ b ds, Utf8.encode (toString n) = b :: ds ∧ ((n = 0 ∧ b = 48 ∧ ds = []) ∨ (0 < n ∧ b ≠ 48)) := by
  by_cases hn : n = 0
  · subst hn
    exact ⟨48, [], by rw [Utf8.encode_eq_flatMap]; rfl, .inl ⟨rfl, rfl, rfl⟩⟩
  · have hdig : ∀ c ∈ Nat.toDigits 10 n, c.isDigit = true :=
      fun c hc => Nat.isDigit_of_mem_toDigits (by decide) (by decide) hc
    obtain ⟨c, cs, hcs⟩ := List.exists_cons_of_ne_nil (@Nat.toDigits_ne_nil n 10)
    have hc := toDigits_head_ne_zero (Nat.pos_of_ne_zero hn) c cs hcs
    have hc48 : c.toNat ≠ 48 := fun e => hc (Char.toNat_inj.mp e)
    have hlt : c.toNat < 256 := by
      have := hdig c (by simp [hcs])
      simp only [Char.isDigit, Bool.and_eq_true, decide_eq_true_eq, UInt32.le_iff_toNat_le] at this
      exact Nat.lt_of_le_of_lt this.2 (by decide)
    refine ⟨UInt8.ofNat c.toNat, cs.map fun c => UInt8.ofNat c.toNat, ?_, .inr ⟨by omega, ?_⟩⟩
    · rw [Utf8.encode_eq_flatMap, Nat.toString_eq_repr, Nat.toList_repr, flatMap_digits hdig, hcs]
      rfl
    · intro e
      apply hc48
      have := congrArg UInt8.toNat e
      simpa [Nat.mod_eq_of_lt hlt] using this

@[simp] theorem go_peek (c : Cursor) : go peek c = (.ok c.rest.head?, c) := rfl

theorem le_digitsValue (ds : List UInt8) (acc : Nat) : acc ≤ digitsValue ds acc := by
  induction ds generalizing acc with
  | nil => exact Nat.le_refl _
  | cons b ds ih => exact Nat.le_trans (by omega) (ih (acc * 10 + (b.toNat - 48)))

theorem overflows_eq_false {acc d limit : Nat} (hd : d ≤ 9) (h : acc * 10 + d ≤ limit) :
    overflows acc d limit = false := by
  simp only [overflows, Bool.and_eq_false_iff, Bool.or_eq_false_iff, decide_eq_false_iff_not]
  omega

theorem digit_le_nine {b : UInt8} (h : isDigit b = true) : b.toNat - 48 ≤ 9 := by
  simp only [isDigit, UInt8.le_iff_toNat_le, UInt8.reduceToNat, Bool.and_eq_true,
    decide_eq_true_eq] at h
  omega

/-- The integer digits that fit in 64 bits are taken whole, up to the first octet that is
not a digit. -/
theorem go_integerDigits (positive : Bool) (ds : List UInt8) :
    ∀ (acc fuel : Nat) (rest : List UInt8) (i d : Nat), (∀ b ∈ ds, isDigit b = true) →
      ds.length < fuel → digitsValue ds acc ≤ u64Max → (∀ b ∈ rest.head?, isDigit b = false) →
      go (integerDigits positive acc fuel) ⟨ds ++ rest, i, d⟩ =
        go (afterInteger positive (digitsValue ds acc)) ⟨rest, i + ds.length, d⟩ := by
  induction ds with
  | nil =>
    intro acc fuel rest i d _ hfuel _ hrest
    obtain ⟨f, rfl⟩ : ∃ f, fuel = f + 1 := ⟨fuel - 1, by simp at hfuel; omega⟩
    rw [integerDigits]
    cases hr : rest with
    | nil => simp [go_bind, digitsValue]
    | cons b r =>
      have hb : isDigit b = false := hrest b (by simp [hr])
      simp [go_bind, hb, digitsValue]
  | cons b ds ih =>
    intro acc fuel rest i d hds hfuel hval hrest
    obtain ⟨f, rfl⟩ : ∃ f, fuel = f + 1 := ⟨fuel - 1, by simp at hfuel; omega⟩
    have hb : isDigit b = true := hds b (by simp)
    have hfit : acc * 10 + (b.toNat - 48) ≤ u64Max :=
      Nat.le_trans (le_digitsValue ds _) hval
    have hov := overflows_eq_false (digit_le_nine hb) hfit
    rw [integerDigits]
    simp only [List.cons_append, go_bind, go_peek, List.head?_cons, hb, hov, if_true,
      Bool.false_eq_true, if_false, go_bump_cons]
    rw [ih _ f rest (i + 1) d (fun b hb' => hds b (by simp [hb'])) (by simp at hfuel; omega) hval hrest]
    simp only [digitsValue, List.foldl_cons, List.length_cons]
    congr 2
    omega

theorem go_afterInteger {rest : List UInt8} (h : Delimited rest) (positive : Bool) (v i d : Nat) :
    go (afterInteger positive v) ⟨rest, i, d⟩ =
      go (if positive then pure (.nat v)
        else if v == 0 || v > 9223372036854775808 then pure (.float (-(v.toUInt64.toFloat)))
        else pure (.neg (-(v : Int)))) ⟨rest, i, d⟩ := by
  rw [afterInteger]
  cases hr : rest with
  | nil => simp [go_bind]
  | cons b r =>
    rcases h b (by simp [hr]) with rfl | rfl | rfl <;> simp [go_bind]

/-- A natural's decimal text is read as the integer it spells, whatever delimiter follows. -/
theorem go_number_natText {n : Nat} (hn : n ≤ u64Max) {rest : List UInt8} (h : Delimited rest)
    (positive : Bool) (i d : Nat) :
    ∃ j, go (number positive) ⟨Utf8.encode (toString n) ++ rest, i, d⟩ =
      go (afterInteger positive n) ⟨rest, j, d⟩ := by
  obtain ⟨hdig, hval⟩ := natText n
  obtain ⟨b, ds, ht, hzero | ⟨hpos, hb48⟩⟩ := natText_head n
  · obtain ⟨rfl, rfl, rfl⟩ := hzero
    refine ⟨i + 1, ?_⟩
    rw [ht, number]
    cases hr : rest with
    | nil => simp [go_bind, nextByte, go_bump_cons]
    | cons x r =>
      have hx : isDigit x = false := h.not_digit x (by simp [hr])
      simp [go_bind, nextByte, hx, go_bump_cons]
  · rw [ht] at hdig hval
    have hb : isDigit b = true := hdig b (by simp)
    have hne : (b == 48) = false := by simpa using hb48
    refine ⟨i + 1 + ds.length, ?_⟩
    rw [ht, number]
    simp only [List.cons_append, go_bind, nextByte, go_peek, List.head?_cons, go_bump_cons, go_pure,
      hne, hb, go_get, Bool.false_eq_true, if_false, if_true]
    have hvs : digitsValue ds (b.toNat - 48) = n := by simpa [digitsValue] using hval
    rw [go_integerDigits positive ds _ _ rest _ d (fun x hx => hdig x (by simp [hx])) (by simp only [List.length_append]; omega)
      (by omega) h.not_digit, hvs]

theorem isBlank_of_isDigit {b : UInt8} (h : isDigit b = true) : isBlank b = false := by
  simp only [isDigit, UInt8.le_iff_toNat_le, UInt8.reduceToNat, Bool.and_eq_true,
    decide_eq_true_eq] at h
  simp only [isBlank, Bool.or_eq_false_iff, beq_eq_false_iff_ne, ne_eq, ← UInt8.toNat_inj,
    UInt8.reduceToNat]
  omega

/-- A natural's decimal text is read by `num` as the natural, passed to the visitor. -/
theorem reads_num_nat {α : Type} (expecting : String) {visit : Number → Except String α} {n : Nat}
    (hn : n ≤ u64Max) {a : α} (hv : visit (.nat n) = .ok a) :
    Reads 0 (num expecting visit) (Utf8.encode (toString n)) a := by
  intro rest i d hrest _
  obtain ⟨j, hj⟩ := go_number_natText hn hrest true i d
  rw [go_afterInteger hrest, if_pos rfl, go_pure] at hj
  obtain ⟨b, ds, ht, -⟩ := natText_head n
  have hb : isDigit b = true := (natText n).1 b (by rw [ht]; simp)
  refine ⟨j, go_place_ok ?_⟩
  rw [go_bind, ht, List.cons_append, go_skipBlanks_cons (isBlank_of_isDigit hb), ← List.cons_append, ← ht]
  -- past the blanks stands a digit, not a minus sign
  have hb45 : b ≠ 45 := fun e => by subst e; exact absurd hb (by decide)
  simp only []
  rw [if_pos hb, go_bind, hj]
  simp [hv, go_check_ok]

/-- A minus sign and a natural's decimal text are read by `num` as the negative integer,
passed to the visitor. -/
theorem reads_num_neg {α : Type} (expecting : String) {visit : Number → Except String α} {n : Nat}
    (hpos : 0 < n) (hn : n ≤ 9223372036854775808) {a : α} (hv : visit (.neg (-(n : Int))) = .ok a) :
    Reads 0 (num expecting visit) (45 :: Utf8.encode (toString n)) a := by
  intro rest i d hrest _
  obtain ⟨j, hj⟩ := go_number_natText (Nat.le_trans hn (by decide)) hrest false (i + 1) d
  rw [go_afterInteger hrest, if_neg (by decide), if_neg (by simp; omega), go_pure] at hj
  refine ⟨j, go_place_ok ?_⟩
  simp only [List.cons_append, go_bind, go_skipBlanks_cons (show isBlank 45 = false by decide),
    go_bump_cons, hj]
  simp [hv, go_check_ok]

/-- A natural that fits the bound is read back from its decimal text. -/
theorem reads_unsigned {n max : Nat} (hn : n ≤ max) (hmax : max ≤ u64Max) (expecting : String) :
    Reads 0 (unsigned expecting max) (Utf8.encode (toString n)) n :=
  reads_num_nat expecting (Nat.le_trans hn hmax) (by simp [hn])

/-- A signed 64-bit integer, written as JSON, is read back by `signed64`. -/
theorem reads_signed64 {n : Int} (hlo : -9223372036854775808 ≤ n) (hhi : n ≤ 9223372036854775807) :
    Reads 0 signed64
      (Utf8.encode (Value.write (if n < 0 then .number (.neg n) else .number (.nat n.toNat)))) n := by
  cases n with
  | negSucc k =>
    -- a negative integer is a minus sign and the digits of its magnitude
    have hneg : Int.negSucc k < 0 := Int.negSucc_lt_zero k
    have htext : Utf8.encode (Value.write (.number (.neg (Int.negSucc k)))) =
        45 :: Utf8.encode (toString (k + 1)) := by
      show Utf8.encode ("-" ++ toString (k + 1)) = _
      rw [encode_append, show Utf8.encode "-" = [45] by rw [Utf8.encode_eq_flatMap]; rfl]
      rfl
    rw [if_pos hneg, htext]
    exact reads_num_neg "i64" (by omega) (by omega) (by simp [Int.negSucc_eq])
  | ofNat m =>
    rw [Int.ofNat_eq_natCast] at hlo hhi ⊢
    rw [if_neg (by omega)]
    exact reads_num_nat "i64" (by simp [u64Max]; omega) (by simp; omega)

/-! ## Optional values -/

theorem encode_null : Utf8.encode (Value.write .null) = [110, 117, 108, 108] := by
  rw [Utf8.encode_eq_flatMap]
  rfl

/-- `null` is read by `option` as nothing. -/
theorem reads_option_null {α : Type} (inner : Reader α) :
    Reads 0 (option inner) (Utf8.encode (Value.write .null)) none := by
  intro rest i d _ _
  refine ⟨i + 4, ?_⟩
  rw [encode_null]
  simp [option, literalTail, go_bind, go_skipBlanks_cons (show isBlank 110 = false by decide),
    go_bump_cons, nextByte, List.forM_cons, go_map]

/-- A value that does not start with `n` is read by `option` as present. -/
theorem Reads.option {α : Type} {k : Nat} {inner : Reader α} {b : UInt8} {t : List UInt8} {a : α}
    (h : Reads k inner (b :: t) a) (hb : b ≠ 110) (hblank : isBlank b = false) :
    Reads k (Reader.option inner) (b :: t) (some a) := by
  intro rest i d hrest hd
  obtain ⟨j, hj⟩ := h rest i d hrest hd
  refine ⟨j, ?_⟩
  rw [List.cons_append] at hj
  simp [Reader.option, go_bind, go_skipBlanks_cons hblank, hb, go_map, hj]

/-! ## Objects -/

/-- The octets of an object's members after its opening brace, each value given by its
octets: quoted names, colons and commas, then the closing brace. -/
def membersOctets (first : Bool) : List (String × List UInt8) → List UInt8
  | [] => [125]
  | (k, t) :: fs => keyLead first ++ 34 :: (escapedOctets k.toList ++ [34]) ++ 58 :: t
      ++ membersOctets false fs

/-- The octets of an object whose values have the given octets. -/
def objectOctets (fs : List (String × List UInt8)) : List UInt8 := 123 :: membersOctets true fs

theorem delimited_membersOctets (fs : List (String × List UInt8)) (rest : List UInt8) :
    Delimited (membersOctets false fs ++ rest) := by
  cases fs with
  | nil => simp [Delimited, membersOctets]
  | cons f fs => simp [Delimited, membersOctets, keyLead]

theorem length_lt_membersOctets (first : Bool) (fs : List (String × List UInt8)) :
    fs.length < (membersOctets first fs).length := by
  induction fs generalizing first with
  | nil => simp [membersOctets]
  | cons f fs ih =>
    have := ih false
    simp [membersOctets]
    omega

theorem encode_writeFields_close (fs : List (String × Value)) :
    Utf8.encode (Value.writeFields fs) ++ [125] =
      membersOctets true (fs.map fun f => (f.1, Utf8.encode f.2.write)) := by
  have hcolon : Utf8.encode ":" = [58] := by rw [Utf8.encode_eq_flatMap]; rfl
  have hcomma : Utf8.encode "," = [44] := by rw [Utf8.encode_eq_flatMap]; rfl
  induction fs with
  | nil => simp [Value.writeFields, membersOctets, Utf8.encode_eq_flatMap]
  | cons f fs ih =>
    obtain ⟨k, v⟩ := f
    cases fs with
    | nil =>
      simp [Value.writeFields, membersOctets, keyLead, encode_append, encode_quote, hcolon]
    | cons g gs =>
      simp only [List.map_cons] at ih
      simp [Value.writeFields, membersOctets, keyLead, encode_append, encode_quote, hcolon, hcomma]
      simpa [membersOctets, keyLead] using ih

/-- An object is written as the octets of its values, in order. -/
theorem encode_write_object (fs : List (String × Value)) :
    Utf8.encode (Value.write (.object fs)) = objectOctets (fs.map fun f => (f.1, Utf8.encode f.2.write)) := by
  have hopen : Utf8.encode "\x7b" = [123] := by rw [Utf8.encode_eq_flatMap]; rfl
  have hclose : Utf8.encode "\x7d" = [125] := by rw [Utf8.encode_eq_flatMap]; rfl
  rw [Value.write, encode_append, encode_append, hopen, hclose, List.append_assoc,
    encode_writeFields_close]
  rfl

section Records

variable {σ : Type} (spec : RecordSpec σ)

/-- The members `fs`, each a field name and the octets of its value, are read one after
another by `spec`, from the accumulator `acc` to `last`: each name is a field not read
yet, and its value's octets are read by that field's reader within `depth` levels. -/
inductive ReadsFields (depth : Nat) : σ → List (String × List UInt8) → σ → Prop
  | nil (acc : σ) : ReadsFields depth acc [] acc
  | cons {acc mid last : σ} {key : String} {i : Nat} {t : List UInt8}
      {fs : List (String × List UInt8)} (hpos : spec.position key = some i)
      (hfresh : spec.has acc i = false) (hread : Reads depth (spec.read i acc) t mid)
      (hrest : ReadsFields depth mid fs last) : ReadsFields depth acc ((key, t) :: fs) last

variable {spec}

theorem ReadsFields.go_byName {depth : Nat} {acc last : σ} {fs : List (String × List UInt8)}
    (h : ReadsFields spec depth acc fs last) (hmiss : spec.missing last = none) :
    ∀ (first : Bool) (fuel : Nat) (rest : List UInt8) (i d : Nat), fs.length < fuel → depth < d →
      ∃ j, go (spec.byName first acc fuel) ⟨membersOctets first fs ++ rest, i, d⟩ =
        (.ok last, ⟨125 :: rest, j, d⟩) := by
  induction h with
  | nil acc =>
    intro first fuel rest i d hfuel hd
    obtain ⟨f, rfl⟩ : ∃ f, fuel = f + 1 := ⟨fuel - 1, by simp at hfuel; omega⟩
    exact ⟨i, by simp [RecordSpec.byName, membersOctets, go_bind, go_nextKey_close, hmiss]⟩
  | cons hpos hfresh hread hrest ih =>
    rename_i acc mid last' key idx t fs
    intro first fuel rest i d hfuel hd
    obtain ⟨f, rfl⟩ : ∃ f, fuel = f + 1 := ⟨fuel - 1, by simp at hfuel; omega⟩
    obtain ⟨j1, h1⟩ := go_nextKey_key (keyText_quote key) first
      (58 :: (t ++ (membersOctets false fs ++ rest))) i d
    obtain ⟨j2, h2⟩ := hread (membersOctets false fs ++ rest) (j1 + 1) d
      (delimited_membersOctets fs rest) hd
    obtain ⟨j3, h3⟩ := ih hmiss false f rest j2 d (by simp at hfuel; omega) hd
    refine ⟨j3, ?_⟩
    simp only [List.append_assoc, List.cons_append, List.nil_append] at h1
    simp [RecordSpec.byName, membersOctets, go_bind, h1, hpos, hfresh, go_colon, h2, h3]

/-- An object whose members `spec` reads, with no required field left out, is read by
`record` one level deeper than its values. -/
theorem ReadsFields.reads_record {depth : Nat} {init last : σ} {fs : List (String × List UInt8)}
    (h : ReadsFields spec depth init fs last) (hmiss : spec.missing last = none) :
    Reads (depth + 1) (record spec init) (objectOctets fs) last := by
  intro rest i d _ hd
  obtain ⟨j, hj⟩ := h.go_byName hmiss true ((membersOctets true fs ++ rest).length + 1) rest (i + 1)
    (d - 1) (by have := length_lt_membersOctets true fs; simp; omega) (by omega)
  refine ⟨j + 1, go_place_ok ?_⟩
  simp [objectOctets, go_bind, go_skipBlanks_cons (show isBlank 123 = false by decide),
    go_descend (show 1 < d by omega), go_bump_cons]
  rw [List.length_append] at hj
  refine go_closing_ok hj ?_
  rw [show d - 1 + 1 = d by omega]
  exact go_endObject rest j d

end Records

/-! ## Tagged objects -/

theorem go_contentOf_string (s : String) (rest : List UInt8) (i d : Nat) :
    ∃ j, ∀ fuel, 0 < fuel → go (contentOf fuel) ⟨Utf8.encode (quote s) ++ rest, i, d⟩ =
      (.ok (.string s), ⟨rest, j, d⟩) := by
  have hr : (Utf8.encode (quote s) ++ rest).dropWhile isBlank =
      34 :: (escapedOctets s.toList ++ 34 :: rest) := by
    simp [encode_quote, isBlank]
  obtain ⟨j, hj⟩ := go_stringBody_quote s rest
    (i + ((Utf8.encode (quote s) ++ rest).length - (34 :: (escapedOctets s.toList ++ 34 :: rest)).length) + 1) d
  refine ⟨j, fun fuel hfuel => ?_⟩
  obtain ⟨f, rfl⟩ : ∃ f, fuel = f + 1 := ⟨fuel - 1, by omega⟩
  rw [go_contentOf_quote hr, hj]

section Tagged

variable {τ : Type} (tagName : String) (tag : Reader τ)

/-- The entries after an object's tag, each a string under a name other than the tag's, are
kept as strings, in order. -/
theorem go_taggedEntries_strings (t : τ) (fs : List (String × String))
    (hfs : ∀ f ∈ fs, f.1 ≠ tagName) :
    ∀ (acc : List (String × Content)) (rest : List UInt8) (i d : Nat), ∃ j, ∀ n, fs.length < n →
      go (taggedEntries tagName tag false (some t) acc n)
          ⟨membersOctets false (fs.map fun f => (f.1, Utf8.encode (quote f.2))) ++ rest, i, d⟩ =
        (.ok (t, .map (acc.reverse ++ fs.map fun f => (f.1, .string f.2))), ⟨125 :: rest, j, d⟩) := by
  induction fs with
  | nil =>
    intro acc rest i d
    refine ⟨i, fun n hn => ?_⟩
    obtain ⟨m, rfl⟩ : ∃ m, n = m + 1 := ⟨n - 1, by simp at hn; omega⟩
    simp [taggedEntries, membersOctets, go_bind, go_nextKey_close]
  | cons f fs ih =>
    obtain ⟨k, v⟩ := f
    intro acc rest i d
    have hk : k ≠ tagName := hfs (k, v) (by simp)
    obtain ⟨j1, h1⟩ := go_nextKey_key (keyText_quote k) false
      (58 :: (Utf8.encode (quote v) ++
        (membersOctets false (fs.map fun f => (f.1, Utf8.encode (quote f.2))) ++ rest))) i d
    obtain ⟨j2, h2⟩ := go_contentOf_string v
      (membersOctets false (fs.map fun f => (f.1, Utf8.encode (quote f.2))) ++ rest) (j1 + 1) d
    obtain ⟨j3, h3⟩ := ih (fun f hf => hfs f (by simp [hf])) ((k, .string v) :: acc) rest j2 d
    refine ⟨j3, fun n hn => ?_⟩
    obtain ⟨m, rfl⟩ : ∃ m, n = m + 1 := ⟨n - 1, by simp at hn; omega⟩
    simp only [List.append_assoc, List.cons_append, List.nil_append] at h1
    simp [taggedEntries, membersOctets, go_bind, h1, hk, go_colon, fuel, h2,
      h3 m (by simp at hn; omega)]

/-- An object written with its tag first and then string entries is read by `tagged` as the
tag's reading and the other entries kept as strings. -/
theorem reads_tagged_strings (expecting : String) {tagText : String} {t : τ}
    (htag : Reads 0 tag (Utf8.encode (quote tagText)) t) (fs : List (String × String))
    (hfs : ∀ f ∈ fs, f.1 ≠ tagName) :
    Reads 1 (tagged tagName expecting tag)
      (objectOctets ((tagName, Utf8.encode (quote tagText)) ::
        fs.map fun f => (f.1, Utf8.encode (quote f.2))))
      (t, .map (fs.map fun f => (f.1, .string f.2))) := by
  intro rest i d _ hd
  let more := membersOctets false (fs.map fun f => (f.1, Utf8.encode (quote f.2))) ++ rest
  obtain ⟨j1, h1⟩ := go_nextKey_key (keyText_quote tagName) true
    (58 :: (Utf8.encode (quote tagText) ++ more)) (i + 1) (d - 1)
  obtain ⟨j2, h2⟩ := htag more (j1 + 1) (d - 1) (delimited_membersOctets _ rest) (by omega)
  have hlen := length_lt_membersOctets false (fs.map fun f => (f.1, Utf8.encode (quote f.2)))
  rw [List.length_map] at hlen
  obtain ⟨j3, h3⟩ := go_taggedEntries_strings tagName tag t fs hfs [] rest j2 (d - 1)
  refine ⟨j3 + 1, go_place_ok ?_⟩
  simp only [List.append_assoc, List.cons_append, List.nil_append] at h1
  simp [objectOctets, membersOctets, keyLead, go_bind, go_skipBlanks_cons (show isBlank 123 = false by decide),
    go_descend (show 1 < d by omega), go_bump_cons]
  refine @go_closing_ok _ _ _ _ ⟨125 :: rest, j3, d - 1⟩ _ _ ?_
    (by dsimp only; rw [show d - 1 + 1 = d by omega]; exact go_endObject rest j3 d)
  simp only [more, keyLead, if_true, List.nil_append] at h1 h2
  simp only [go_bind, fuel, go_get, go_pure]
  rw [taggedEntries.eq_def]
  dsimp only
  rw [go_bind, h1]
  dsimp only
  simp only [beq_self_eq_true, if_true, go_bind, go_colon, h2]
  refine h3 _ ?_
  simp only [List.length_cons, List.length_append] at hlen ⊢
  omega

end Tagged

/-! ## Whole texts -/

/-- A reader that reads a text back reads it back as a whole text. -/
theorem readAll_of_reads {α : Type} {k : Nat} {r : Reader α} {t : List UInt8} {a : α}
    (h : Reads k r t a) (hk : k < 128) : readAll r t = .ok a := by
  obtain ⟨j, hj⟩ := h [] 0 128 (by simp [Delimited]) hk
  rw [List.append_nil] at hj
  have hrun : go (do let a ← r; Reader.finish; pure a) ⟨t, 0, 128⟩ = (.ok a, ⟨[], j, 128⟩) := by
    simp [go_bind, go_map, hj, go_finish_nil]
  have hres : (Id.run (((do let a ← r; Reader.finish; pure a : Reader α).run).run
      (Cursor.start t))).1 = (go (do let a ← r; Reader.finish; pure a) ⟨t, 0, 128⟩).1 := rfl
  simp only [readAll, read, hres, hrun]

end TokenGate.Json
