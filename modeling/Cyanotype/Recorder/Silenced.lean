import Cyanotype.Recorder.Layer
import Cyanotype.Recorder.Redaction
import Cyanotype.Recorder.Scan

/-!
# Declared fields are silent

A body is scanned after its declared fields were redacted. The warnings are those about
the body as it came, less the ones about strings below a declared key: redaction neither
adds a warning nor moves or reorders those that remain.
-/

namespace Cyanotype

namespace Redactions

instance (config : Redactions) : DecidablePred config.Covers :=
  fun p => inferInstanceAs (Decidable (∃ k ∈ config.fields, PathStep.key k ∈ p))

/-- What is covered stays covered when more fields are declared. -/
theorem Covers.mono {config config' : Redactions} (h : config.fields ⊆ config'.fields)
    {p : List PathStep} (hp : config.Covers p) : config'.Covers p := by
  obtain ⟨k, hk, hmem⟩ := hp
  exact ⟨k, h hk, hmem⟩

end Redactions

/-! ## Leaves after redaction -/

variable {looksHigh : String → Bool} {config : Redactions}

/-- A leaf that is warned about in spite of the declared fields. -/
def Undeclared (looksHigh : String → Bool) (config : Redactions)
    (leaf : List PathStep × String) : Prop := Qualifies looksHigh leaf ∧ ¬ config.Covers leaf.1

instance (looksHigh : String → Bool) (config : Redactions) :
    DecidablePred (Undeclared looksHigh config) := fun _ => inferInstanceAs (Decidable (_ ∧ _))

/-- One step below a step that is not declared, the same leaves are undeclared. -/
theorem undeclared_under_iff {st : PathStep} (hst : ∀ k ∈ config.fields, st ≠ .key k)
    (leaf : List PathStep × String) :
    Undeclared looksHigh config (Value.under st leaf) ↔ Undeclared looksHigh config leaf := by
  refine and_congr Iff.rfl ?_
  rw [Value.under, Redactions.not_covers_cons_iff, and_iff_right hst]

/-- Leaves that qualify after redaction are undeclared before. -/
private theorem filter_under {v w : Value} {st : PathStep}
    (hst : ∀ k ∈ config.fields, st ≠ .key k)
    (h : v.leaves.filter (Qualifies looksHigh ·) =
      w.leaves.filter (Undeclared looksHigh config ·)) :
    (v.leaves.map (Value.under st)).filter (Qualifies looksHigh ·) =
      (w.leaves.map (Value.under st)).filter (Undeclared looksHigh config ·) := by
  have hqualifies : ∀ leaf, Qualifies looksHigh (Value.under st leaf) ↔ Qualifies looksHigh leaf :=
    fun _ => Iff.rfl
  rw [List.filter_map, List.filter_map]
  simp only [Function.comp_def, hqualifies, undeclared_under_iff hst, h]

/-- Nothing below a declared key qualifies, before or after. -/
private theorem filter_declared {v : Value} {k : String} (hk : k ∈ config.fields) :
    ((Value.string redactedValue).leaves.map (Value.under (.key k))).filter
        (Qualifies looksHigh ·) =
      (v.leaves.map (Value.under (.key k))).filter (Undeclared looksHigh config ·) := by
  have hmarker : ((Value.string redactedValue).leaves.map (Value.under (.key k))).filter
      (Qualifies looksHigh ·) = [] := by
    simp [Value.leaves, Value.under, Qualifies]
  have hcovered : (v.leaves.map (Value.under (.key k))).filter
      (Undeclared looksHigh config ·) = [] := by
    rw [List.filter_eq_nil_iff]
    intro leaf hleaf hundeclared
    obtain ⟨below, -, rfl⟩ := List.mem_map.mp hleaf
    exact (of_decide_eq_true hundeclared).2 ⟨k, hk, List.mem_cons_self⟩
  rw [hmarker, hcovered]

/-- The leaves that qualify after redaction are the undeclared ones, in the same order. -/
theorem filter_leaves_redactWith (v : Value) :
    (redactWith config v).leaves.filter (Qualifies looksHigh ·) =
      v.leaves.filter (Undeclared looksHigh config ·) := by
  induction v with
  | string s =>
    have hroot : ¬ config.Covers [] := by simp [Redactions.Covers]
    rw [redactWith, Value.leaves]
    · refine List.filter_congr fun leaf hleaf => decide_eq_decide.mpr ?_
      obtain rfl := List.mem_singleton.mp hleaf
      exact (and_iff_left hroot).symm
    all_goals simp
  | array xs ih =>
    rw [redactWith, redactItems_eq_map, Value.leaves, Value.leaves]
    generalize 0 = i
    induction xs generalizing i with
    | nil => rfl
    | cons x xs ihxs =>
      rw [List.forall_mem_cons] at ih
      rw [List.map_cons, Value.leavesItems, Value.leavesItems, List.filter_append,
        List.filter_append, ihxs ih.2, filter_under (by simp) ih.1]
  | object m ih =>
    rw [redactWith, redactEntries_eq_map, Value.leaves, Value.leaves]
    induction m with
    | nil => rfl
    | cons e m ihm =>
      rw [List.forall_mem_cons] at ih
      rw [List.map_cons, Value.leavesEntries, Value.leavesEntries, List.filter_append,
        List.filter_append, ihm ih.2]
      refine congrArg (· ++ _) ?_
      unfold redactField
      split_ifs with hdeclared
      · exact filter_declared hdeclared
      · refine filter_under (fun k hk heq => hdeclared ?_) ih.1
        rwa [PathStep.key.inj heq]
  | _ => rfl

/-! ## Warnings about a body -/

/-- The warnings about a JSON body are those about its undeclared strings that look generated,
in the order of the body and at their own places. -/
theorem sideWarnings_of_json {env : Externals} {contentType : Option String}
    {captured : CapturedBody} {parsed : Value} (side : Side) (method : Method) (route : String)
    (h : BodyCapture.fromCaptured env.fromSlice contentType captured = .json parsed) :
    sideWarnings env side method route (sideBody env config contentType captured) =
      (parsed.leaves.filter (Undeclared (looksHighEntropy env.entropic) config ·)).map
        (leafWarning (side.which ++ " " ++ method.asStr ++ " " ++ route)) := by
  unfold sideBody
  rw [h]
  simp only [sideWarnings]
  rw [warnUndeclaredHighEntropy_eq, reports_eq_leaves, filter_leaves_redactWith, List.map_map]
  rfl

/-- The warnings about a JSON body are those about its strings outside declared fields that
look generated, each with its own place in the text, and declaring more fields takes some of
them away without touching the others. -/
theorem declared_fields_silent {env : Externals} {contentType : Option String}
    {captured : CapturedBody} {parsed : Value}
    (h : BodyCapture.fromCaptured env.fromSlice contentType captured = .json parsed)
    (config : Redactions) (side : Side) (method : Method) (route : String) :
    sideWarnings env side method route (sideBody env config contentType captured) =
      (parsed.leaves.filter (Undeclared (looksHighEntropy env.entropic) config ·)).map
        (leafWarning (side.which ++ " " ++ method.asStr ++ " " ++ route)) ∧
    (∀ leaf, (side.which ++ " " ++ method.asStr ++ " " ++ route).toList ++
      ' ' :: shownPath (locationOf leaf.1) <:+:
        (leafWarning (side.which ++ " " ++ method.asStr ++ " " ++ route) leaf).toList) ∧
    ∀ config' : Redactions, config.fields ⊆ config'.fields →
      (sideWarnings env side method route (sideBody env config' contentType captured)).Sublist
        (sideWarnings env side method route (sideBody env config contentType captured)) := by
  refine ⟨sideWarnings_of_json side method route h,
    fun leaf => infix_highEntropyWarning _ _ _, fun config' hmore => ?_⟩
  rw [sideWarnings_of_json side method route h, sideWarnings_of_json side method route h]
  refine List.Sublist.map _ (List.monotone_filter_right _ fun leaf hleaf => ?_)
  obtain ⟨hqualifies, hnot⟩ := of_decide_eq_true hleaf
  exact decide_eq_true ⟨hqualifies, fun hcovers => hnot (hcovers.mono hmore)⟩

/-- A parser that knows an account with two generated strings. -/
def parseAccount : Externals where
  fromSlice := fun bytes =>
    if bytes = [0x7b] then some (.object [("key", .string "q8Zr1TvX5mKc7LwP2nHd9JsB"),
      ("session", .object [("token", .string "q8Zr1TvX5mKc7LwP2nHd9JsB")])])
    else none
  entropic := fun _ => true

/-- Only the string outside the declared field is warned about. -/
theorem declared_fields_silent_example :
    sideWarnings parseAccount .request .get "/account"
      (sideBody parseAccount (Redactions.new.field "session") none ⟨[0x7b], false⟩) =
        [highEntropyWarning "request GET /account" "key".toList "q8Zr1TvX5mKc7LwP2nHd9JsB"] := by
  refine (declared_fields_silent (BodyCapture.fromCaptured_eq_json_iff.mpr
    ⟨rfl, by decide, .inr rfl, rfl⟩) (Redactions.new.field "session") .request .get
      "/account").1.trans ?_
  decide

end Cyanotype
