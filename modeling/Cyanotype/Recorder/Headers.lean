import Cyanotype.Recorder.Layer

/-!
# Captured headers

Header maps as the `http` crate hands them over, the redacted list that a message
keeps of one, and the content type that decides about its body.
-/

namespace Cyanotype

/-! ## Header maps -/

/-- `http::HeaderName`: in lower case, however it was written. -/
structure HeaderName where
  asStr : String
  lower : toAsciiLowercase asStr = asStr
  deriving DecidableEq

private theorem toLower_toLower (c : Char) : c.toLower.toLower = c.toLower := by
  apply Char.toNat_inj.mp
  rw [toNat_toLower, if_neg]
  rw [toNat_toLower]
  split_ifs <;> omega

/-- Lowercasing twice is lowercasing once. -/
theorem toAsciiLowercase_idem (s : String) :
    toAsciiLowercase (toAsciiLowercase s) = toAsciiLowercase s := by
  unfold toAsciiLowercase
  rw [String.toList_ofList, List.map_map]
  exact congrArg String.ofList (List.map_congr_left fun c _ => toLower_toLower c)

namespace HeaderName

/-- The name that a text spells, in whatever case. -/
def ofText (s : String) : HeaderName := ⟨toAsciiLowercase s, toAsciiLowercase_idem s⟩

/-- `header::AUTHORIZATION`. -/
def authorization : HeaderName := ⟨"authorization", by decide⟩

/-- `header::CONTENT_TYPE`. -/
def contentType : HeaderName := ⟨"content-type", by decide⟩

end HeaderName

/-- Visible ASCII, blank and tab. -/
def isVisibleAscii (b : UInt8) : Bool := (32 ≤ b && b < 127) || b == 9

/-- What a header value may hold: no control bytes but tab. -/
def isHeaderByte (b : UInt8) : Bool := (32 ≤ b && b != 127) || b == 9

/-- `http::HeaderValue`. -/
structure HeaderValue where
  bytes : List UInt8
  /-- Only legal bytes occur. -/
  legal : bytes.all isHeaderByte = true
  deriving DecidableEq

/-- The character with the number of a byte. -/
def charOf (b : UInt8) : Char := Char.ofNat b.toNat

@[simp] theorem charOf_toNat (b : UInt8) : (charOf b).toNat = b.toNat := by
  have hvalid : b.toNat.isValidChar := .inl (b.toNat_lt.trans (by decide))
  rw [charOf, Char.ofNat, dif_pos hvalid]
  rfl

/-- A byte is read as the character of its number. -/
theorem charOf_eq_iff {b : UInt8} {c : Char} : charOf b = c ↔ b.toNat = c.toNat := by
  constructor
  · rintro rfl
    exact (charOf_toNat b).symm
  · intro h
    rw [charOf, h, Char.ofNat_toNat]

/-- The text whose characters have the numbers of the bytes. -/
def textOf (bytes : List UInt8) : String := String.ofList (bytes.map charOf)

@[simp] theorem textOf_toList (bytes : List UInt8) : (textOf bytes).toList = bytes.map charOf :=
  String.toList_ofList

/-- `HeaderValue::to_str`, which fails on bytes outside visible ASCII and tab. -/
def HeaderValue.toStr (value : HeaderValue) : Option String :=
  if value.bytes.all isVisibleAscii then some (textOf value.bytes) else none

/-- `http::HeaderMap` as it is iterated: one entry for each value of a name. -/
abbrev HeaderMap := List (HeaderName × HeaderValue)

/-- `HeaderMap::get`: the first value of a name. -/
def HeaderMap.get (headers : HeaderMap) (name : HeaderName) : Option HeaderValue :=
  (headers.find? (·.1 = name)).map Prod.snd

/-! ## Capturing headers -/

/-- `REDACTED_MARKER`. -/
def redactedMarker : String := "[cyanotype:redacted]"

/-- `NON_UTF8_MARKER`. -/
def nonUtf8Marker : String := "[cyanotype:non-utf8]"

/-- One round of the loop over the headers: the captured list and the scheme so far. -/
def captureHeader (acc : List (String × String) × Option SecurityScheme)
    (header : HeaderName × HeaderValue) : List (String × String) × Option SecurityScheme :=
  let (captured, scheme) := acc
  let (name, value) := header
  let nameLower := toAsciiLowercase name.asStr
  if nameLower = "authorization" then
    let kind := match value.toStr with
      | some v => if "Bearer ".toList.isPrefixOf v.toList then .bearer else .apiKey
      | none => .apiKey
    (captured ++ [(nameLower, redactedMarker)], some ⟨"Authorization", kind, rfl⟩)
  else
    (captured ++ [(nameLower, value.toStr.getD nonUtf8Marker)], scheme)

/-- The redacted headers, and the scheme derived from `Authorization` if there is one. -/
def captureHeaders (headers : HeaderMap) : List (String × String) × Option SecurityScheme :=
  headers.foldl captureHeader ([], none)

/-- `content_type_of`: the first content type, if it is visible ASCII. -/
def contentTypeOf (headers : HeaderMap) : Option String :=
  (headers.get .contentType).bind HeaderValue.toStr

/-- What is captured of one header. -/
def capturedHeader (header : HeaderName × HeaderValue) : String × String :=
  (header.1.asStr, if header.1.asStr = "authorization" then redactedMarker
    else header.2.toStr.getD nonUtf8Marker)

/-- Of an authorization value nothing is captured. -/
theorem capturedHeader_authorization (value : HeaderValue) :
    capturedHeader (.authorization, value) = ("authorization", redactedMarker) := rfl

/-- Every header is captured behind those before it. -/
theorem captureHeader_fst (acc : List (String × String) × Option SecurityScheme)
    (header : HeaderName × HeaderValue) :
    (captureHeader acc header).1 = acc.1 ++ [capturedHeader header] := by
  simp only [captureHeader, capturedHeader, header.1.lower]
  by_cases h : header.1.asStr = "authorization"
  · rw [if_pos h, if_pos h]
  · rw [if_neg h, if_neg h]

/-- The captured list has one entry for each header, in the same order. -/
theorem captureHeaders_fst (headers : HeaderMap) :
    (captureHeaders headers).1 = headers.map capturedHeader := by
  suffices h : ∀ acc, (headers.foldl captureHeader acc).1 = acc.1 ++ headers.map capturedHeader by
    exact h ([], none)
  induction headers with
  | nil => simp
  | cons header headers ih =>
    intro acc
    rw [List.foldl_cons, ih, captureHeader_fst, List.append_assoc, List.map_cons]
    rfl

/-! ## The media type of a header value -/

/-- A blank or a tab. -/
def isBlank (b : UInt8) : Bool := b == 32 || b == 9

/-- The media type a value names: what precedes the first `;`, without blanks around it. -/
def HeaderValue.mediaType (value : HeaderValue) : String :=
  textOf (((value.bytes.takeWhile (· ≠ 59)).dropWhile isBlank).reverse.dropWhile isBlank).reverse

/-- The media type is `application/json` or a `+json` type. -/
def HeaderValue.NamesJson (value : HeaderValue) : Prop :=
  toAsciiLowercase value.mediaType = "application/json" ∨
    "+json".toList <:+ value.mediaType.toList

instance (value : HeaderValue) : Decidable value.NamesJson :=
  inferInstanceAs (Decidable (_ ∨ _))

private theorem dropWhile_congr {α : Type*} {p q : α → Bool} {l : List α}
    (h : ∀ a ∈ l, p a = q a) : l.dropWhile p = l.dropWhile q := by
  induction l with
  | nil => rfl
  | cons a l ih =>
    rw [List.forall_mem_cons] at h
    rw [List.dropWhile_cons, List.dropWhile_cons, h.1, ih h.2]

/-- The characters of visible ASCII that `str::trim` removes are blanks and tabs. -/
theorem isWhiteSpace_charOf {b : UInt8} (h : isVisibleAscii b = true) :
    BodyCapture.isWhiteSpace (charOf b) = isBlank b := by
  simp only [isVisibleAscii, Bool.or_eq_true, Bool.and_eq_true, decide_eq_true_eq, beq_iff_eq,
    UInt8.le_iff_toNat_le, UInt8.lt_iff_toNat_lt, ← UInt8.toNat_inj] at h
  rw [Bool.eq_iff_iff]
  simp only [BodyCapture.isWhiteSpace, isBlank, charOf_toNat, Bool.or_eq_true, Bool.and_eq_true,
    decide_eq_true_eq, beq_iff_eq, ← UInt8.toNat_inj, List.mem_cons, List.not_mem_nil]
  simp at h ⊢
  omega

/-- Trimming a visible-ASCII text. -/
theorem trim_map_charOf {bytes : List UInt8} (h : ∀ b ∈ bytes, isVisibleAscii b = true) :
    BodyCapture.trim (bytes.map charOf) =
      ((bytes.dropWhile isBlank).reverse.dropWhile isBlank).reverse.map charOf := by
  have hfirst : bytes.dropWhile (BodyCapture.isWhiteSpace ∘ charOf) = bytes.dropWhile isBlank :=
    dropWhile_congr fun b hb => isWhiteSpace_charOf (h b hb)
  have hlast : (bytes.dropWhile isBlank).reverse.dropWhile (BodyCapture.isWhiteSpace ∘ charOf) =
      (bytes.dropWhile isBlank).reverse.dropWhile isBlank := by
    refine dropWhile_congr fun b hb => isWhiteSpace_charOf (h b ?_)
    exact (List.dropWhile_sublist _).subset (List.mem_reverse.mp hb)
  rw [BodyCapture.trim, List.dropWhile_map, hfirst, ← List.map_reverse, List.dropWhile_map, hlast,
    ← List.map_reverse]

/-- Of a readable value, the recorder sees the media type that the value names. -/
theorem mediaType_textOf {value : HeaderValue} (h : value.bytes.all isVisibleAscii = true) :
    BodyCapture.mediaType (textOf value.bytes) = value.mediaType := by
  rw [List.all_eq_true] at h
  have hcut : (value.bytes.map charOf).takeWhile (· ≠ ';') =
      (value.bytes.takeWhile (· ≠ 59)).map charOf := by
    rw [List.takeWhile_map]
    congr 1
    refine congrArg (List.takeWhile · value.bytes) (funext fun b => ?_)
    simp only [Function.comp, ne_eq, charOf_eq_iff, ← UInt8.toNat_inj]
    rfl
  rw [BodyCapture.mediaType, textOf_toList, hcut, trim_map_charOf, HeaderValue.mediaType, textOf]
  exact fun b hb => h b ((List.takeWhile_sublist _).subset hb)

/-- A visible value names JSON when its text does. -/
theorem looksLikeJson_textOf {value : HeaderValue} (h : value.bytes.all isVisibleAscii = true) :
    BodyCapture.looksLikeJson (some (textOf value.bytes)) = true ↔ value.NamesJson := by
  simp [BodyCapture.looksLikeJson, mediaType_textOf h, HeaderValue.NamesJson]

/-! ## Bodies under an explicit content type -/

/-- A content type given once is the one that is read. -/
theorem contentTypeOf_of_unique {headers : HeaderMap} {value : HeaderValue}
    (h : headers.filter (·.1 = .contentType) = [(.contentType, value)]) :
    contentTypeOf headers = value.toStr := by
  rw [contentTypeOf, HeaderMap.get, ← List.head?_filter, h]
  rfl

/-- A body under one content type that is not JSON is kept out of the samples exactly
when the value is visible ASCII, or the body is no complete JSON text anyway. -/
theorem explicit_type_not_sampled_iff (fromSlice : List UInt8 → Option Value)
    {headers : HeaderMap} {value : HeaderValue}
    (hunique : headers.filter (·.1 = .contentType) = [(.contentType, value)])
    (hother : ¬ value.NamesJson) (captured : CapturedBody) :
    (∀ v, BodyCapture.fromCaptured fromSlice (contentTypeOf headers) captured ≠ .json v) ↔
      value.bytes.all isVisibleAscii = true ∨ captured.truncated = true ∨ captured.bytes = [] ∨
        fromSlice captured.bytes = none := by
  rw [contentTypeOf_of_unique hunique, HeaderValue.toStr]
  by_cases hreadable : value.bytes.all isVisibleAscii = true
  · rw [if_pos hreadable]
    refine iff_of_true (fun v hv => ?_) (.inl hreadable)
    obtain ⟨-, -, hjson | habsent, -⟩ := BodyCapture.fromCaptured_eq_json_iff.mp hv
    · exact hother ((looksLikeJson_textOf hreadable).mp hjson)
    · cases habsent
  · -- An unreadable value is taken for an absent one, and the body is sniffed.
    rw [if_neg hreadable]
    constructor
    · intro h
      by_contra hall
      simp only [not_or] at hall
      obtain ⟨-, htruncated, hbytes, hparse⟩ := hall
      obtain ⟨v, hv⟩ := Option.ne_none_iff_exists'.mp hparse
      exact h v (BodyCapture.fromCaptured_eq_json_iff.mpr
        ⟨Bool.eq_false_iff.mpr htruncated, hbytes, .inr rfl, hv⟩)
    · intro h v hv
      obtain ⟨htruncated, hbytes, -, hparse⟩ := BodyCapture.fromCaptured_eq_json_iff.mp hv
      rcases h with h | h | h | h
      · exact hreadable h
      · rw [htruncated] at h
        cases h
      · exact hbytes h
      · rw [hparse] at h
        cases h

/-- `text/plain;n=é`, with the last letter in Latin-1. -/
def latinText : HeaderValue where
  bytes := "text/plain;n=".toList.map (UInt8.ofNat ·.toNat) ++ [0xE9]
  legal := by decide

/-- A text with a parameter in Latin-1 is sampled although its type is not JSON. -/
theorem latinText_sampled :
    [(HeaderName.contentType, latinText)].filter (·.1 = .contentType) =
        [(HeaderName.contentType, latinText)] ∧ ¬ latinText.NamesJson ∧
      ¬ ∀ captured v, BodyCapture.fromCaptured parseDigits.fromSlice
        (contentTypeOf [(HeaderName.contentType, latinText)]) captured ≠ .json v := by
  refine ⟨rfl, by decide, fun h => h ⟨[0x31], false⟩ (.ofNat 1) rfl⟩

/-- The same body is not sampled under a readable value. -/
theorem explicit_type_not_sampled_example :
    ¬ ∃ v, BodyCapture.fromCaptured parseDigits.fromSlice
      (contentTypeOf [(HeaderName.contentType, ⟨[0x61, 0x2F, 0x62], by decide⟩)])
      ⟨[0x31], false⟩ = .json v := by
  rintro ⟨v, hv⟩
  exact (explicit_type_not_sampled_iff parseDigits.fromSlice rfl (by decide)
    ⟨[0x31], false⟩).mpr (.inl (by decide)) v hv

end Cyanotype
