import Cyanotype.Recorder.Layer

/-!
# Spellings of a media type

A content type may put blanks around its media type, parameters behind it, and use
letters of either case. The recorder looks through the first two and, for
`application/json`, through the third; a `+json` suffix it reads with its case.
-/

namespace Cyanotype

/-- A content type with blanks around a media type and parameters behind it. -/
def Spells (ct : String) (media : List Char) : Prop :=
  ∃ before after parameters : List Char, ct.toList = before ++ media ++ after ++ parameters ∧
    (∀ c ∈ before, BodyCapture.isWhiteSpace c = true) ∧
    (∀ c ∈ after, BodyCapture.isWhiteSpace c = true) ∧
    ';' ∉ media ∧ (parameters = [] ∨ parameters.head? = some ';')

/-- Content types that differ in the case of the media type, in blanks around it and in
what follows the first `;` only. -/
def SameMediaType (a b : String) : Prop :=
  ∃ m n, Spells a m ∧ Spells b n ∧ m.map Char.toLower = n.map Char.toLower

/-- Captures of one kind, with the same value if they are JSON. -/
def BodyCapture.Alike : BodyCapture → BodyCapture → Prop
  | .empty, .empty => True
  | .json v, .json w => v = w
  | .opaqueBody _ _, .opaqueBody _ _ => True
  | .truncated _, .truncated _ => True
  | _, _ => False

/-- The media type ends in `+json`, in lower case. -/
def EndsInJson (ct : String) : Prop := "+json".toList <:+ (BodyCapture.mediaType ct).toList

instance (ct : String) : Decidable (EndsInJson ct) :=
  inferInstanceAs (Decidable (_ <:+ _))

/-- The media type is `application/json` or a `+json` type, in whatever case. -/
def NamesJsonInAnyCase (ct : String) : Prop :=
  toAsciiLowercase (BodyCapture.mediaType ct) = "application/json" ∨
    "+json".toList <:+ (toAsciiLowercase (BodyCapture.mediaType ct)).toList

namespace BodyCapture

/-! ## Trimming -/

/-- Lowercasing neither makes nor removes white space. -/
theorem isWhiteSpace_toLower (c : Char) : isWhiteSpace c.toLower = isWhiteSpace c := by
  unfold isWhiteSpace
  rw [toNat_toLower]
  split_ifs with hupper
  · rw [Bool.eq_iff_iff]
    simp
    omega
  · rfl

/-- Trimming and lowering the case of a text commute. -/
theorem trim_map_toLower (s : List Char) :
    trim (s.map Char.toLower) = (trim s).map Char.toLower := by
  have hfun : isWhiteSpace ∘ Char.toLower = isWhiteSpace := funext isWhiteSpace_toLower
  unfold trim
  rw [List.dropWhile_map, hfun, ← List.map_reverse, List.dropWhile_map, hfun, ← List.map_reverse]

/-- Blanks around a text are trimmed with those of the text itself. -/
theorem trim_append {before s after : List Char} (hbefore : ∀ c ∈ before, isWhiteSpace c = true)
    (hafter : ∀ c ∈ after, isWhiteSpace c = true) : trim (before ++ s ++ after) = trim s := by
  have hreverse : ∀ c ∈ after.reverse, isWhiteSpace c = true :=
    fun c hc => hafter c (List.mem_reverse.mp hc)
  unfold trim
  rw [List.append_assoc, List.dropWhile_append_of_pos hbefore, List.dropWhile_append]
  split_ifs with hblank
  · -- Nothing of the text is left, so nothing of what follows it either.
    have hrest : after.dropWhile isWhiteSpace = [] := by
      rw [← List.append_nil after, List.dropWhile_append_of_pos hafter, List.dropWhile_nil]
    rw [hrest, List.isEmpty_iff.mp hblank]
  · rw [List.reverse_append, List.dropWhile_append_of_pos hreverse]

/-- A semicolon is no white space. -/
theorem not_isWhiteSpace_semicolon {c : Char} (h : isWhiteSpace c = true) : c ≠ ';' := by
  rintro rfl
  cases h

/-- Whatever the spelling, the media type is what stands in the middle, trimmed. -/
theorem mediaType_of_spells {ct : String} {media : List Char} (h : Spells ct media) :
    mediaType ct = String.ofList (trim media) := by
  obtain ⟨before, after, parameters, hct, hbefore, hafter, hmedia, hparameters⟩ := h
  have hfront : ∀ c ∈ before ++ media ++ after, decide (c ≠ ';') = true := by
    intro c hc
    refine decide_eq_true ?_
    rcases List.mem_append.mp hc with hc | hc
    · rcases List.mem_append.mp hc with hc | hc
      · exact not_isWhiteSpace_semicolon (hbefore c hc)
      · exact fun heq => hmedia (heq ▸ hc)
    · exact not_isWhiteSpace_semicolon (hafter c hc)
  have hrest : parameters.takeWhile (fun c => decide (c ≠ ';')) = [] := by
    rcases hparameters with rfl | hhead
    · rfl
    · cases parameters with
      | nil => rfl
      | cons c parameters =>
        obtain rfl := Option.some.inj hhead
        rfl
  rw [mediaType, hct, List.takeWhile_append_of_pos hfront, hrest, List.append_nil,
    trim_append hbefore hafter]

/-- Equally spelled media types are equal up to case. -/
theorem toAsciiLowercase_mediaType_eq {a b : String} (h : SameMediaType a b) :
    toAsciiLowercase (mediaType a) = toAsciiLowercase (mediaType b) := by
  obtain ⟨m, n, ha, hb, hmn⟩ := h
  unfold toAsciiLowercase
  rw [mediaType_of_spells ha, mediaType_of_spells hb, String.toList_ofList, String.toList_ofList,
    ← trim_map_toLower, ← trim_map_toLower, hmn]

/-! ## Recognition -/

/-- A content type looks like JSON by its media type or its ending. -/
theorem looksLikeJson_some_iff (ct : String) :
    looksLikeJson (some ct) = true ↔
      toAsciiLowercase (mediaType ct) = "application/json" ∨ EndsInJson ct := by
  unfold looksLikeJson EndsInJson
  simp

/-- What ends in `+json` as written does so in lower case. -/
theorem suffix_of_endsInJson {ct : String} (h : EndsInJson ct) :
    "+json".toList <:+ (toAsciiLowercase (mediaType ct)).toList := by
  have hlower : "+json".toList.map Char.toLower = "+json".toList := by decide
  have hlist : (toAsciiLowercase (mediaType ct)).toList =
      (mediaType ct).toList.map Char.toLower := String.toList_ofList
  obtain ⟨front, hfront⟩ := h
  rw [hlist, ← hfront, List.map_append, hlower]
  exact List.suffix_append _ _

/-- Of two spellings of one media type, both look like JSON or neither does, exactly when
the suffix is written alike. -/
theorem looksLikeJson_eq_iff {a b : String} (h : SameMediaType a b) :
    looksLikeJson (some a) = looksLikeJson (some b) ↔ (EndsInJson a ↔ EndsInJson b) := by
  rw [Bool.eq_iff_iff, looksLikeJson_some_iff, looksLikeJson_some_iff,
    toAsciiLowercase_mediaType_eq h]
  by_cases hplain : toAsciiLowercase (mediaType b) = "application/json"
  · -- No spelling of `application/json` has the suffix.
    have hnone : ∀ ct, toAsciiLowercase (mediaType ct) = "application/json" →
        ¬ EndsInJson ct := by
      intro ct hct hends
      have hsuffix := suffix_of_endsInJson hends
      rw [hct] at hsuffix
      revert hsuffix
      decide
    have ha := hnone a ((toAsciiLowercase_mediaType_eq h).trans hplain)
    exact iff_of_true (iff_of_true (.inl hplain) (.inl hplain)) (iff_of_false ha (hnone b hplain))
  · simp only [hplain, false_or]

/-- Under explicit content types a body is captured alike exactly when both look like JSON
or neither does, or when it is complete and no JSON text anyway. -/
theorem alike_fromCaptured_iff (fromSlice : List UInt8 → Option Value) (a b : String)
    (captured : CapturedBody) :
    Alike (fromCaptured fromSlice (some a) captured) (fromCaptured fromSlice (some b) captured) ↔
      looksLikeJson (some a) = looksLikeJson (some b) ∨
        captured.truncated = false ∧ (captured.bytes = [] ∨ fromSlice captured.bytes = none) := by
  obtain ⟨bytes, truncated⟩ := captured
  unfold fromCaptured
  cases truncated with
  | true => cases looksLikeJson (some a) <;> cases looksLikeJson (some b) <;> simp [Alike]
  | false =>
    cases bytes with
    | nil => simp [Alike]
    | cons byte bytes =>
      cases hparse : fromSlice (byte :: bytes) <;> cases looksLikeJson (some a) <;>
        cases looksLikeJson (some b) <;> simp [Alike, hparse]

/-- Two spellings of one media type lead to the same capture exactly when both or neither
end in `+json` as written, or the body is complete and no JSON text anyway. A complete
JSON text is kept under every spelling of `application/json`, and under a spelling of a
`+json` type exactly when the suffix is in lower case. -/
theorem media_type_recognised_iff (fromSlice : List UInt8 → Option Value)
    (captured : CapturedBody) :
    (∀ a b, SameMediaType a b →
      (Alike (fromCaptured fromSlice (some a) captured)
          (fromCaptured fromSlice (some b) captured) ↔
        (EndsInJson a ↔ EndsInJson b) ∨
          captured.truncated = false ∧
            (captured.bytes = [] ∨ fromSlice captured.bytes = none))) ∧
    (∀ ct value, NamesJsonInAnyCase ct → captured.truncated = false → captured.bytes ≠ [] →
      fromSlice captured.bytes = some value →
        (fromCaptured fromSlice (some ct) captured = .json value ↔
          toAsciiLowercase (mediaType ct) = "application/json" ∨ EndsInJson ct)) := by
  refine ⟨fun a b h => ?_, fun ct value _ htruncated hbytes hparse => ?_⟩
  · rw [alike_fromCaptured_iff, looksLikeJson_eq_iff h]
  · rw [fromCaptured_eq_json_iff, ← looksLikeJson_some_iff]
    simp [htruncated, hbytes, hparse]

/-- A `+json` type in capitals is not recognised: its sample, or the mark of truncation,
is lost. -/
theorem capital_suffix_missed :
    SameMediaType "application/vnd.api+json" "application/vnd.api+JSON" ∧
    NamesJsonInAnyCase "application/vnd.api+JSON" ∧
    ¬ Alike (fromCaptured parseDigits.fromSlice (some "application/vnd.api+json") ⟨[0x31], false⟩)
      (fromCaptured parseDigits.fromSlice (some "application/vnd.api+JSON") ⟨[0x31], false⟩) ∧
    ¬ Alike (fromCaptured parseDigits.fromSlice (some "application/vnd.api+json") ⟨[0x31], true⟩)
      (fromCaptured parseDigits.fromSlice (some "application/vnd.api+JSON") ⟨[0x31], true⟩) ∧
    parseDigits.fromSlice [0x31] = some (.ofNat 1) ∧
    ∀ value, fromCaptured parseDigits.fromSlice (some "application/vnd.api+JSON") ⟨[0x31], false⟩ ≠
      .json value := by
  have hspells : ∀ ct : String, ';' ∉ ct.toList → Spells ct ct.toList := fun ct hct =>
    ⟨[], [], [], by simp, by simp, by simp, hct, .inl rfl⟩
  refine ⟨⟨_, _, hspells _ (by decide), hspells _ (by decide), by decide⟩, .inr (by decide), ?_, ?_,
    rfl, fun value => ?_⟩
  · rw [alike_fromCaptured_iff]
    decide
  · rw [alike_fromCaptured_iff]
    decide
  · rw [ne_eq, fromCaptured_eq_json_iff]
    rintro ⟨-, -, hlooks | hnone, -⟩
    · revert hlooks
      decide
    · cases hnone

end BodyCapture

end Cyanotype
