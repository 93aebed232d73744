import Mathlib
import TokenGate.Proofs.Written
import TokenGate.Proofs.Accepted
/-!
# `TokenGate.Proofs.Codec`: frames survive the codec

`Envelope.encode` writes a frame as compact JSON octets and `Envelope.decode` reads them
back and checks the version and the identifier. This module proves the round trip for
request frames and answer frames.

* Identifiers: `Uuid.parse_display` reads the hyphenated text of every identifier back as
  the identifier (the text is 36 ASCII octets, its hyphens stand at the places `hyphenated`
  checks, and its 32 digits give back the 128-bit value).
* Payloads: `Request.reads_toValue` reads every request back from its text, the tag first
  and the one string field after it; `DeviceInfo.reads_toValue` and `Response.reads_toValue`
  read every answer back whose device halves are signed 64-bit integers.
* Frames: `Envelope.reads_toValue` reads the five fields back, and `Envelope.decode_encode`
  turns that into "decoding a written frame gives what the checks make of it".
  `Envelope.decode_encode_of_decode` adds the converse direction of use: whatever frame
  decoding accepts fits its wire types (`TokenGate.Proofs.Accepted`), so its octets decode
  back to it.
* `Envelope.codec_roundTrip` puts these together for both kinds of frame.

The wire types are Rust's: the version is a 16-bit word, the timestamp a 64-bit word, and
the halves of an identifier signed 64-bit integers; the model holds them as `Nat` and `Int`,
and `Envelope.Fits` and `DeviceInfo.Fits` state the ranges.
-/

set_option autoImplicit false

namespace TokenGate.Uuid

theorem length_hexDigits (x n : Nat) : (hexDigits x n).length = n := by
  induction n generalizing x with
  | zero => rfl
  | succ n ih => simp [hexDigits, ih]

theorem hexValue_hexChar {d : Nat} (h : d < 16) : hexValue (hexChar d) = some d := by
  have key : ∀ k : Fin 16, hexValue (hexChar k) = some k.val := by decide
  exact key ⟨d, h⟩

theorem hexNumber_hexDigits (x n : Nat) : hexNumber (hexDigits x n) = some (x % 16 ^ n) := by
  induction n generalizing x with
  | zero => simp [hexDigits, hexNumber, Nat.mod_one]
  | succ n ih =>
    have hstep : x % 16 ^ (n + 1) = x / 16 % 16 ^ n * 16 + x % 16 := by
      rw [Nat.pow_succ', Nat.mod_mul, Nat.mul_comm, Nat.add_comm]
    simp only [hexNumber] at ih ⊢
    simp [hexDigits, List.foldlM_append, ih, hexValue_hexChar (Nat.mod_lt x (by decide)), hstep]

theorem hexChar_ne_hyphen {d : Nat} (h : d < 16) : hexChar d ≠ '-' := by
  have key : ∀ k : Fin 16, hexChar k ≠ '-' := by decide
  exact key ⟨d, h⟩

theorem hexDigits_ne_hyphen (x n : Nat) : ∀ c ∈ hexDigits x n, c ≠ '-' := by
  induction n generalizing x with
  | zero => simp [hexDigits]
  | succ n ih =>
    intro c hc
    simp only [hexDigits, List.mem_append, List.mem_singleton] at hc
    rcases hc with hc | rfl
    · exact ih (x / 16) c hc
    · exact hexChar_ne_hyphen (Nat.mod_lt x (by decide))

theorem take_append_drop_add {α : Type} (l : List α) (n m : Nat) :
    (l.drop n).take m ++ l.drop (n + m) = l.drop n := by
  rw [← List.drop_drop]
  exact List.take_append_drop m _

/-- The hyphenated arrangement of 32 digits is read back as those digits. -/
theorem hyphenated_arrange (ds : List Char) (hlen : ds.length = 32) (hds : ∀ c ∈ ds, c ≠ '-') :
    hyphenated (ds.take 8 ++ ['-'] ++ (ds.drop 8).take 4 ++ ['-'] ++ (ds.drop 12).take 4 ++ ['-']
      ++ (ds.drop 16).take 4 ++ ['-'] ++ ds.drop 20) = (hexNumber ds).map ofNat := by
  have hkeep : ∀ l : List Char, (∀ c ∈ l, c ∈ ds) →
      l.filter (· != '-') = l ∧ l.filter (· == '-') = [] := by
    intro l hl
    constructor
    · exact List.filter_eq_self.mpr fun c hc => by simpa using hds c (hl c hc)
    · exact List.filter_eq_nil_iff.mpr fun c hc => by simpa using hds c (hl c hc)
  have h1 := hkeep (ds.take 8) fun c => List.mem_of_mem_take
  have h2 := hkeep ((ds.drop 8).take 4) fun c hc => List.mem_of_mem_drop (List.mem_of_mem_take hc)
  have h3 := hkeep ((ds.drop 12).take 4) fun c hc => List.mem_of_mem_drop (List.mem_of_mem_take hc)
  have h4 := hkeep ((ds.drop 16).take 4) fun c hc => List.mem_of_mem_drop (List.mem_of_mem_take hc)
  have h5 := hkeep (ds.drop 20) fun c => List.mem_of_mem_drop
  have hjoin : ds.take 8 ++ ((ds.drop 8).take 4 ++ ((ds.drop 12).take 4 ++ ((ds.drop 16).take 4
      ++ ds.drop 20))) = ds := by
    rw [take_append_drop_add ds 16 4, take_append_drop_add ds 12 4, take_append_drop_add ds 8 4,
      List.take_append_drop]
  simp [hyphenated, hlen, h1, h2, h3, h4, h5, hjoin]
  cases hexNumber ds <;> rfl

theorem ofNat_toNat (u : Uuid) : ofNat u.toNat = u := by
  have hlo := u.lo.toNat_lt
  have hdiv : u.toNat / Nat.pow 2 64 = u.hi.toNat := by
    simp only [toNat, Nat.pow_eq]
    omega
  have hmod : u.toNat % Nat.pow 2 64 = u.lo.toNat := by
    simp only [toNat, Nat.pow_eq]
    omega
  simp [ofNat, hdiv, hmod]

theorem toNat_lt (u : Uuid) : u.toNat < 16 ^ 32 := by
  have hhi := u.hi.toNat_lt
  have hlo := u.lo.toNat_lt
  simp only [toNat, Nat.pow_eq] at hhi hlo ⊢
  omega

theorem hyphenated_display (u : Uuid) : hyphenated (display u).toList = some u := by
  rw [display, String.toList_ofList, hyphenated_arrange _ (length_hexDigits _ _)
    (hexDigits_ne_hyphen _ _), hexNumber_hexDigits, Nat.mod_eq_of_lt (toNat_lt u)]
  simp [ofNat_toNat]

theorem hexChar_lt {d : Nat} (h : d < 16) : (hexChar d).toNat < 128 := by
  have key : ∀ k : Fin 16, (hexChar k).toNat < 128 := by decide
  exact key ⟨d, h⟩

theorem mem_hexDigits {x n : Nat} {c : Char} (h : c ∈ hexDigits x n) : ∃ d < 16, c = hexChar d := by
  induction n generalizing x with
  | zero => simp [hexDigits] at h
  | succ n ih =>
    simp only [hexDigits, List.mem_append, List.mem_singleton] at h
    rcases h with h | rfl
    · exact ih h
    · exact ⟨_, Nat.mod_lt x (by decide), rfl⟩

theorem display_ascii (u : Uuid) : ∀ c ∈ (display u).toList, c.toNat < 128 := by
  intro c hc
  -- Every character of the text is a hyphen or one of the 32 digits.
  have hin : c = '-' ∨ c ∈ hexDigits u.toNat 32 := by
    simp only [display, String.toList_ofList, List.mem_append, List.mem_singleton] at hc
    grind [List.mem_of_mem_take, List.mem_of_mem_drop]
  rcases hin with rfl | hdigit
  · decide
  · obtain ⟨d, hd, rfl⟩ := mem_hexDigits hdigit
    exact hexChar_lt hd

theorem length_encode_of_ascii {cs : List Char} (h : ∀ c ∈ cs, c.toNat < 128) :
    (cs.flatMap Utf8.encodeChar).length = cs.length := by
  induction cs with
  | nil => rfl
  | cons c cs ih =>
    have hc : c.toNat < 128 := h c (by simp)
    have hone : (Utf8.encodeChar c).length = 1 := by
      simp [Utf8.encodeChar, String.utf8EncodeChar, show c.val.toNat = c.toNat from rfl,
        show c.toNat ≤ 127 by omega]
    simp [hone, ih fun c hc => h c (by simp [hc]), Nat.add_comm]

theorem length_display (u : Uuid) : (display u).toList.length = 36 := by
  simp [display, length_hexDigits]

theorem accept_display (u : Uuid) : accept (display u) = some u := by
  have hlen : (Utf8.encode (display u)).length = 36 := by
    rw [Utf8.encode_eq_flatMap, length_encode_of_ascii (display_ascii u), length_display]
  unfold accept
  rw [hlen]
  rw [if_neg (by decide), if_pos (by decide), hyphenated_display]

/-- The text of an identifier is read back as the identifier. -/
theorem parse_display (u : Uuid) : parse (display u) = .ok u := by
  rw [parse.eq_1]
  split
  · next v hv => rw [accept_display] at hv; cases hv; rfl
  · next hv => rw [accept_display] at hv; cases hv

end TokenGate.Uuid

namespace TokenGate

open Json Reader

theorem Uuid.reads_toValue (u : Uuid) : Reads 0 Uuid.reader (Utf8.encode u.toValue.write) u :=
  reads_str _ (by rw [Uuid.parse_display])

/-- A request object, its tag first and then string fields, is read as the request its tag
and fields make. -/
theorem Request.reads_tagged {tagText : String} (fs : List (String × String))
    (hfs : ∀ f ∈ fs, f.1 ≠ "type") {req : Request}
    (hof : ofContent (tagIndex tagText) (.map (fs.map fun f => (f.1, .string f.2))) = .ok req) :
    Reads 1 reader (Utf8.encode (Value.write (.object
      (("type", .string tagText) :: fs.map fun f => (f.1, .string f.2))))) req := by
  intro rest i d hrest hd
  obtain ⟨j, hj⟩ := reads_tagged_strings "type" _ "internally tagged enum TransportApiRequest"
    (show Reads 0 (variantName fun s => .ok (tagIndex s)) (Utf8.encode (quote tagText))
      (tagIndex tagText) from reads_str _ rfl) fs hfs rest i d hrest hd
  refine ⟨j, ?_⟩
  rw [encode_write_object]
  simp only [List.map_cons, List.map_map, Function.comp_def, Value.write] at hj ⊢
  simp [reader, go_bind, hj, hof, go_check_ok]

/-- Every request is read back from its text. -/
theorem Request.reads_toValue (req : Request) :
    Reads 1 reader (Utf8.encode req.toValue.write) req := by
  cases req with
  | validateDeviceToken tok => exact reads_tagged [("token", tok)] (by simp) rfl
  | validateX509Certificate h => exact reads_tagged [("hash", h)] (by simp) rfl
  | unsupported => exact reads_tagged [] (by simp) rfl

namespace DeviceInfo

/-- The text of a half, as `toValue` writes it. -/
def halfText (n : Int) : List UInt8 :=
  Utf8.encode (Value.write (if n < 0 then .number (.neg n) else .number (.nat n.toNat)))

theorem reads_half (i : Nat) (hi : i < 4) (d : Draft) {n : Int} (hn : FitsInt64 n) :
    Reads 0 (spec.read i d) (halfText n) { d with halves := (i, n) :: d.halves } := by
  simp only [spec, if_pos hi]
  exact (reads_signed64 hn.1 hn.2).bind_pure _

theorem reads_text (i : Nat) (hi : ¬ i < 4) (d : Draft) (s : String) :
    Reads 0 (spec.read i d) (Utf8.encode (Value.write (.string s))) { d with texts := (i, s) :: d.texts } := by
  simp only [spec, if_neg hi]
  exact (reads_string s).bind_pure _

/-- Every device description whose halves fit is read back from its text. -/
theorem reads_toValue (info : DeviceInfo) (hfits : info.Fits) :
    Reads 1 reader (Utf8.encode info.toValue.write) info := by
  obtain ⟨h0, h1, h2, h3⟩ := hfits
  have hfields : ReadsFields spec 0 {}
      [("tenant_id_msb", halfText info.tenantIdMsb), ("tenant_id_lsb", halfText info.tenantIdLsb),
        ("device_id_msb", halfText info.deviceIdMsb), ("device_id_lsb", halfText info.deviceIdLsb),
        ("device_name", Utf8.encode (Value.write (.string info.deviceName))),
        ("device_type", Utf8.encode (Value.write (.string info.deviceType))),
        ("additional_info", Utf8.encode (Value.write (.string info.additionalInfo)))] _ :=
    ReadsFields.cons rfl rfl (reads_half 0 (by decide) {} h0) <|
    ReadsFields.cons rfl rfl (reads_half 1 (by decide) _ h1) <|
    ReadsFields.cons rfl rfl (reads_half 2 (by decide) _ h2) <|
    ReadsFields.cons rfl rfl (reads_half 3 (by decide) _ h3) <|
    ReadsFields.cons rfl rfl (reads_text 4 (by decide) _ info.deviceName) <|
    ReadsFields.cons rfl rfl (reads_text 5 (by decide) _ info.deviceType) <|
    ReadsFields.cons rfl rfl (reads_text 6 (by decide) _ info.additionalInfo) <|
    ReadsFields.nil _
  have h := (hfields.reads_record rfl).map ofDraft
  rw [toValue, encode_write_object]
  exact h

end DeviceInfo

namespace Response

/-- The value `toValue` writes for an optional device description. -/
def deviceValue : Option DeviceInfo → Value
  | some i => i.toValue
  | none => .null

theorem reads_deviceValue (o : Option DeviceInfo) (hfits : ∀ i ∈ o, i.Fits) :
    Reads 1 (Reader.option DeviceInfo.reader) (Utf8.encode (deviceValue o).write) o := by
  cases o with
  | none => exact (reads_option_null _).mono (by omega)
  | some i =>
    have h := DeviceInfo.reads_toValue i (hfits i rfl)
    rw [DeviceInfo.toValue, encode_write_object] at h
    rw [deviceValue, DeviceInfo.toValue, encode_write_object]
    exact h.option (by decide) (by decide)

/-- Every answer whose device description fits is read back from its text. -/
theorem reads_toValue (r : Response) (hfits : r.Fits) :
    Reads 3 reader (Utf8.encode r.toValue.write) r := by
  have hinner : ReadsFields innerSpec 1 none
      [("device_info", Utf8.encode (deviceValue r.deviceInfo).write)] (some r.deviceInfo) :=
    .cons rfl rfl ((reads_deviceValue r.deviceInfo hfits).bind_pure _) (.nil _)
  have hinnerText : Reads 2 (record innerSpec none)
      (Utf8.encode (Value.object [("device_info", deviceValue r.deviceInfo)]).write)
      (some r.deviceInfo) := by
    rw [encode_write_object]
    exact hinner.reads_record rfl
  have houter : ReadsFields outerSpec 2 none
      [("validate_token_response", Utf8.encode (Value.object
        [("device_info", deviceValue r.deviceInfo)]).write)] (some r) :=
    .cons rfl rfl (hinnerText.bind_pure _) (.nil _)
  have h := (houter.reads_record rfl).map (·.getD empty)
  rw [toValue, encode_write_object]
  exact h

end Response

namespace Envelope

variable {α : Type}

theorem reads_topic (o : Option String) :
    Reads 0 (Reader.option Reader.string) (Utf8.encode (optionalString o).write) o := by
  cases o with
  | none => exact reads_option_null _
  | some s =>
    have h : Reads 0 Reader.string (Utf8.encode (quote s)) s := reads_string s
    rw [encode_quote] at h
    show Reads 0 _ (Utf8.encode (quote s)) _
    rw [encode_quote]
    exact h.option (by decide) (by decide)

/-- Every frame whose fields fit, with a payload its reader reads back, is read back from
its text. -/
theorem reads_toValue [Inhabited α] {payload : Reader α} {toVal : α → Value} {k : Nat}
    (e : Envelope α) (hfits : e.Fits)
    (hpayload : Reads k payload (Utf8.encode (toVal e.payload).write) e.payload) :
    Reads (k + 1) (reader payload) (Utf8.encode (toValue toVal e).write) e := by
  have hfields : ReadsFields (spec payload) k {}
      [("version", Utf8.encode (Value.write (.number (.nat e.version)))),
        ("request_id", Utf8.encode e.requestId.toValue.write),
        ("response_topic", Utf8.encode (optionalString e.responseTopic).write),
        ("timestamp", Utf8.encode (Value.write (.number (.nat e.timestamp)))),
        ("payload", Utf8.encode (toVal e.payload).write)] _ :=
    .cons rfl rfl (((reads_unsigned hfits.1 (by decide) "u16").bind_pure _).mono (Nat.zero_le k)) <|
    .cons rfl rfl (((Uuid.reads_toValue e.requestId).bind_pure _).mono (Nat.zero_le k)) <|
    .cons rfl rfl (((reads_topic e.responseTopic).bind_pure _).mono (Nat.zero_le k)) <|
    .cons rfl rfl (((reads_unsigned hfits.2 (Nat.le_refl _) "u64").bind_pure _).mono (Nat.zero_le k)) <|
    .cons rfl rfl (hpayload.bind_pure _) (.nil _)
  have h := (hfields.reads_record rfl).bind_pure fun d =>
    ({ version := d.version.getD 0, requestId := d.requestId.getD Uuid.nil,
       responseTopic := d.responseTopic.getD none, timestamp := d.timestamp.getD 0,
       payload := d.payload.getD default } : Envelope α)
  rw [toValue, encode_write_object]
  exact h

/-- A frame whose fields fit, with a payload its reader reads back, decodes from its
octets to what the version and identifier checks make of it. -/
theorem decode_encode [Inhabited α] {payload : Reader α} {toVal : α → Value} {k : Nat}
    (hk : k < 127) (e : Envelope α) (hfits : e.Fits)
    (hpayload : Reads k payload (Utf8.encode (toVal e.payload).write) e.payload) :
    decode payload (encode toVal e) = e.check := by
  simp [decode, encode, readAll_of_reads (reads_toValue e hfits hpayload) (by omega)]

/-- The outcomes of decoding a written frame that fits: the frame itself at version `1`
with an identifier that is not nil, and the version's or the identifier's fault otherwise. -/
theorem decode_encode_cases [Inhabited α] {payload : Reader α} {toVal : α → Value} {k : Nat}
    (hk : k < 127) (e : Envelope α) (hfits : e.Fits)
    (hpayload : Reads k payload (Utf8.encode (toVal e.payload).write) e.payload) :
    (e.version = 1 → e.requestId.isNil = false → decode payload (encode toVal e) = .ok e) ∧
    (e.version ≠ 1 → decode payload (encode toVal e) = .error (.unsupportedVersion e.version)) ∧
    (e.version = 1 → e.requestId.isNil = true → decode payload (encode toVal e) = .error .missingRequestId) := by
  rw [decode_encode hk e hfits hpayload]
  refine ⟨fun hv hnil => ?_, fun hv => ?_, fun hv hnil => ?_⟩
  · simp [check, currentVersion, hv, hnil]
  · simp [check, currentVersion, hv]
  · simp [check, currentVersion, hv, hnil]

/-- Whatever frame decoding accepts is written to a text that decodes back to it, when
every payload the payload's reader gives is read back from its text. -/
theorem decode_encode_of_decode [Inhabited α] {payload : Reader α} {toVal : α → Value}
    {P : α → Prop} {k : Nat} (hk : k < 127) (hyields : Yields P payload) (hdefault : P default)
    (hreads : ∀ a, P a → Reads k payload (Utf8.encode (toVal a).write) a)
    {bytes : List UInt8} {e : Envelope α} (h : decode payload bytes = .ok e) :
    decode payload (encode toVal e) = .ok e := by
  unfold decode at h
  split at h
  · cases h
  · next e' hread =>
    -- the frame read is the one the checks let through
    have hcheck : e'.check = .ok e' := by
      unfold check at h ⊢
      split at h
      · cases h
      · split at h
        · cases h
        · next hv hnil => rw [if_neg hv, if_neg hnil]
    have he : e' = e := by rw [hcheck] at h; cases h; rfl
    subst he
    obtain ⟨hfits, hp⟩ := readAll_ok_yields (fits_reader hyields hdefault) hread
    rw [decode_encode hk e' hfits (hreads _ hp), hcheck]

/-- The codec's round trip for both kinds of frame. A request frame, or an answer frame
whose device halves are signed 64-bit integers, with a 16-bit version and a 64-bit
timestamp, decodes from its octets: to itself at version `1` with an identifier that is
not nil, whatever its strings hold (escapes included), its answer topic and its request
kind; to the version's fault at any other version; and to the identifier's fault at
version `1` with the nil identifier. And whatever frame decoding accepts, its octets
decode back to it. -/
theorem codec_roundTrip :
    (∀ e : Envelope Request, e.Fits →
      (e.version = 1 → e.requestId.isNil = false →
        decode Request.reader (encode Request.toValue e) = .ok e) ∧
      (e.version ≠ 1 →
        decode Request.reader (encode Request.toValue e) = .error (.unsupportedVersion e.version)) ∧
      (e.version = 1 → e.requestId.isNil = true →
        decode Request.reader (encode Request.toValue e) = .error .missingRequestId)) ∧
    (∀ e : Envelope Response, e.Fits → e.payload.Fits →
      (e.version = 1 → e.requestId.isNil = false →
        decode Response.reader (encode Response.toValue e) = .ok e) ∧
      (e.version ≠ 1 →
        decode Response.reader (encode Response.toValue e) = .error (.unsupportedVersion e.version)) ∧
      (e.version = 1 → e.requestId.isNil = true →
        decode Response.reader (encode Response.toValue e) = .error .missingRequestId)) ∧
    (∀ (bytes : List UInt8) (e : Envelope Request), decode Request.reader bytes = .ok e →
      decode Request.reader (encode Request.toValue e) = .ok e) ∧
    (∀ (bytes : List UInt8) (e : Envelope Response), decode Response.reader bytes = .ok e →
      decode Response.reader (encode Response.toValue e) = .ok e) :=
  ⟨fun e hfits => decode_encode_cases (by decide) e hfits (Request.reads_toValue e.payload),
    fun e hfits hpayload =>
      decode_encode_cases (by decide) e hfits (Response.reads_toValue e.payload hpayload),
    fun _ _ h => decode_encode_of_decode (P := fun _ => True) (by decide)
      (fun _ _ _ _ => trivial) trivial (fun a _ => Request.reads_toValue a) h,
    fun _ _ h => decode_encode_of_decode (by decide) Response.fits_reader
      (fun _ hi => by cases hi)
      (fun a ha => Response.reads_toValue a ha) h⟩

/-- A token request whose token needs escapes survives the codec. -/
theorem codec_roundTrip_token :
    decode Request.reader (encode Request.toValue
      (request ⟨1, 2⟩ (Request.validateDeviceToken "a\"b\n") "replies" 5)) =
      .ok (request ⟨1, 2⟩ (Request.validateDeviceToken "a\"b\n") "replies" 5) :=
  (codec_roundTrip.1 _ ⟨by decide, by decide⟩).1 rfl rfl

end Envelope

end TokenGate
