import Cyanotype.Document.Positions
import Cyanotype.Recorder.Reports

/-!
# What of a body reaches the document

Inference copies keys of a body as property names and whole values as examples. The
scan reports string values only, so a string goes unreported exactly when it is a key.
-/

namespace Cyanotype

open JsonSchema

variable {samples : List Value} {v : Value}

/-- A key of an object somewhere in a JSON value. -/
inductive HasKey (k : String) : Value → Prop
  | here {m : List (String × Value)} (h : SortedMap.get m k ≠ none) : HasKey k (.object m)
  | item {xs : List Value} {x : Value} (hmem : x ∈ xs) (h : HasKey k x) : HasKey k (.array xs)
  | field {m : List (String × Value)} {e : String × Value} (hmem : e ∈ m) (h : HasKey k e.2) :
    HasKey k (.object m)

/-- The schema lists a property of the name, or requires one. -/
def NamesProperty (schema : Value) (k : String) : Prop :=
  (∃ properties, schema.get "properties" = some (.object properties) ∧
    k ∈ properties.map Prod.fst) ∨
  ∃ names, schema.get "required" = some (.array names) ∧ .string k ∈ names

/-- The schema has the value among its examples. -/
def HasExample (schema x : Value) : Prop :=
  ∃ examples, schema.get "examples" = some (.array examples) ∧ x ∈ examples

/-- Inference takes a string from one sample and places it in the schema: as a property
name, from a key at the same path, or inside an example that is the sample's own value at
the same path. -/
def Emitted (samples : List Value) (v : Value) (s : String) : Prop :=
  ∃ p schema, subschemaAt (inferSchema samples) p = some schema ∧
    ((NamesProperty schema s ∧ ∃ w ∈ valuesAt [v] p, w.get s ≠ none) ∨
      ∃ x ∈ valuesAt [v] p, HasExample schema x ∧ (HasString s x ∨ HasKey s x))

/-- One more value, unless it is there already. -/
def pushDistinct (values : List Value) (v : Value) : List Value :=
  if values.any (·.beq v) then values else values ++ [v]

/-- The distinct values of a list, in the order in which they come first. -/
def distinctValues (vs : List Value) : List Value := vs.foldl pushDistinct []

/-- A key of one sample is at an object place, or inside one of the first ten distinct
values at a place of values without a common type. -/
def KeepsKey (samples : List Value) (v : Value) (k : String) : Prop :=
  ∃ p, Observed samples p ∧
    ((shapeOf (valuesAt samples p) = .objects ∧ ∃ w ∈ valuesAt [v] p, w.get k ≠ none) ∨
      (shapeOf (valuesAt samples p) = .mixed ∧ ∃ x ∈ valuesAt [v] p,
        x ∈ (distinctValues (nonNulls (valuesAt samples p))).take maxExamples ∧ HasKey k x))

/-! ## Values at a path are parts of the sample -/

theorem childValues_mono {vs ws : List Value} (h : vs ⊆ ws) (st : Step) :
    childValues st vs ⊆ childValues st ws := by
  cases st with
  | key k =>
    intro x hx
    obtain ⟨w, hw, hget⟩ := List.mem_filterMap.mp hx
    exact List.mem_filterMap.mpr ⟨w, h hw, hget⟩
  | items =>
    intro x hx
    obtain ⟨w, hw, hmem⟩ := List.mem_flatMap.mp hx
    exact List.mem_flatMap.mpr ⟨w, h hw, hmem⟩

theorem valuesAt_mono {vs ws : List Value} (h : vs ⊆ ws) (p : List Step) :
    valuesAt vs p ⊆ valuesAt ws p := by
  induction p generalizing vs ws with
  | nil => exact h
  | cons st p ih => exact ih (childValues_mono h st)

/-- A string one step below is a string of one of the values. -/
theorem hasString_of_mem_childValues {vs : List Value} {st : Step} {x : Value} {s : String}
    (hx : x ∈ childValues st vs) (h : HasString s x) : ∃ w ∈ vs, HasString s w := by
  cases st with
  | key k =>
    obtain ⟨w, hw, hget⟩ := List.mem_filterMap.mp hx
    cases w with
    | object m => exact ⟨_, hw, .field (SortedMap.mem_of_get hget) h⟩
    | _ => cases hget
  | items =>
    obtain ⟨w, hw, hmem⟩ := List.mem_flatMap.mp hx
    cases w with
    | array xs => exact ⟨_, hw, .item hmem h⟩
    | _ => cases hmem

/-- A string at a path is a string of the whole. -/
theorem hasString_of_mem_valuesAt {vs : List Value} {p : List Step} {x : Value} {s : String}
    (hx : x ∈ valuesAt vs p) (h : HasString s x) : ∃ w ∈ vs, HasString s w := by
  induction p generalizing vs with
  | nil => exact ⟨x, hx, h⟩
  | cons st p ih =>
    obtain ⟨w, hw, hs⟩ := ih hx
    exact hasString_of_mem_childValues hw hs

/-! ## Property names -/

/-- Property names are keys of an object place. -/
theorem namesProperty_iff {vs : List Value} {k : String} :
    NamesProperty (inferSchema vs) k ↔ shapeOf vs = .objects ∧ ∃ w ∈ vs, w.get k ≠ none := by
  unfold NamesProperty
  rw [inferSchema_get_properties, inferSchema_get_required, fragmentOf]
  cases hs : shapeOf vs with
  | objects =>
    simp only [Option.map_some, Option.some.injEq, Value.object.injEq, exists_eq_left',
      mem_inferProperties_iff, true_and, or_iff_left_iff_imp]
    rintro ⟨names, hnames, hk⟩
    split_ifs at hnames
    obtain rfl := Value.array.inj (Option.some.inj hnames)
    obtain ⟨j, hj, hjk⟩ := List.mem_map.mp hk
    obtain rfl := Value.string.inj hjk
    obtain ⟨w, hw, hget⟩ := mem_collectKeys.mp (List.mem_filter.mp hj).1
    exact ⟨w, (mem_nonNulls.mp hw).1, hget⟩
  | _ => simp

/-! ## Examples -/

/-- Values that were collected stay in front. -/
theorem prefix_foldl_pushDistinct (values vs : List Value) :
    values <+: vs.foldl pushDistinct values := by
  induction vs generalizing values with
  | nil => exact List.prefix_rfl
  | cons v vs ih =>
    refine List.IsPrefix.trans ?_ (ih (pushDistinct values v))
    unfold pushDistinct
    split_ifs
    · exact List.prefix_rfl
    · exact List.prefix_append _ _

private theorem collectExamples_eq_take {examples : List Value}
    (hroom : examples.length < maxExamples) (vs : List Value) :
    collectExamples examples vs = (vs.foldl pushDistinct examples).take maxExamples := by
  induction vs generalizing examples with
  | nil => exact (List.take_of_length_le hroom.le).symm
  | cons v vs ih =>
    have hlength : (pushDistinct examples v).length ≤ examples.length + 1 := by
      unfold pushDistinct
      split_ifs <;> simp
    have hstep : collectExamples examples (v :: vs) =
        if (pushDistinct examples v).length ≥ maxExamples then pushDistinct examples v
        else collectExamples (pushDistinct examples v) vs := rfl
    rw [hstep, List.foldl_cons]
    split_ifs with hfull
    · have hprefix := prefix_foldl_pushDistinct (pushDistinct examples v) vs
      have hexact : (pushDistinct examples v).length = maxExamples := by omega
      rw [List.prefix_iff_eq_take, hexact] at hprefix
      exact hprefix
    · exact ih (by omega)

/-- The examples of some values are the first ten distinct ones. -/
theorem collectExamples_eq (vs : List Value) :
    collectExamples [] vs = (distinctValues vs).take maxExamples :=
  collectExamples_eq_take (by decide) vs

private theorem mem_of_mem_foldl_pushDistinct {values vs : List Value} {x : Value}
    (h : x ∈ vs.foldl pushDistinct values) : x ∈ values ∨ x ∈ vs := by
  induction vs generalizing values with
  | nil => exact .inl h
  | cons v vs ih =>
    rcases ih h with h | h
    · unfold pushDistinct at h
      split_ifs at h
      · exact .inl h
      · rcases List.mem_append.mp h with h | h
        · exact .inl h
        · exact .inr (List.mem_cons.mpr (.inl (List.mem_singleton.mp h)))
    · exact .inr (List.mem_cons_of_mem v h)

/-- Distinct values are among the values they come from. -/
theorem mem_of_mem_distinctValues {vs : List Value} {x : Value} (h : x ∈ distinctValues vs) :
    x ∈ vs := (mem_of_mem_foldl_pushDistinct h).resolve_left List.not_mem_nil

/-- Examples are kept where no structure is inferred. -/
theorem hasExample_iff {vs : List Value} {x : Value} :
    HasExample (inferSchema vs) x ↔
      shapeOf vs ≠ .nulls ∧ shapeOf vs ≠ .objects ∧ shapeOf vs ≠ .arrays ∧
        x ∈ (distinctValues (nonNulls vs)).take maxExamples := by
  have hkept : ∀ xs : List Value, (∃ examples,
      (if xs.isEmpty then none else some (Value.array xs)) = some (.array examples) ∧
        x ∈ examples) ↔ x ∈ xs := by
    intro xs
    cases xs <;> simp
  unfold HasExample
  rw [inferSchema_get_examples, hkept, fragmentOf, ← collectExamples_eq]
  cases hs : shapeOf vs <;> simp

/-- A primitive value has no keys. -/
theorem HasPrimitive.not_hasKey {kind : PrimitiveType} {x : Value} (h : HasPrimitive kind x)
    (k : String) : ¬ HasKey k x := by
  obtain ⟨q, hq, -⟩ := h
  rintro (_ | _ | _) <;> cases hq

/-! ## Reporting -/

/-- A kept key is emitted. -/
theorem KeepsKey.emitted {k : String} (hv : v ∈ samples) (h : KeepsKey samples v k) :
    Emitted samples v k := by
  obtain ⟨p, hp, hkept⟩ := h
  refine ⟨p, _, subschemaAt_inferSchema_iff.mpr ⟨hp, rfl⟩, ?_⟩
  rcases hkept with ⟨hs, w, hw, hget⟩ | ⟨hs, x, hx, hexample, hkey⟩
  · have hsubset : [v] ⊆ samples := fun x hx => List.mem_singleton.mp hx ▸ hv
    have hsample := valuesAt_mono hsubset p hw
    exact .inl ⟨namesProperty_iff.mpr ⟨hs, w, hsample, hget⟩, w, hw, hget⟩
  · exact .inr ⟨x, hx, hasExample_iff.mpr ⟨by simp [hs], by simp [hs], by simp [hs], hexample⟩,
      .inr hkey⟩

/-- What is emitted is a string of the body or a kept key. -/
theorem Emitted.cases {s : String} (h : Emitted samples v s) :
    HasString s v ∨ KeepsKey samples v s := by
  obtain ⟨p, schema, hat, hplaced⟩ := h
  obtain ⟨hp, rfl⟩ := subschemaAt_inferSchema_iff.mp hat
  rcases hplaced with ⟨hname, w, hw, hget⟩ | ⟨x, hx, hexample, hstring | hkey⟩
  · exact .inr ⟨p, hp, .inl ⟨(namesProperty_iff.mp hname).1, w, hw, hget⟩⟩
  · obtain ⟨w, hw, hs⟩ := hasString_of_mem_valuesAt hx hstring
    exact .inl (List.mem_singleton.mp hw ▸ hs)
  · obtain ⟨hnulls, hobjects, harrays, hkept⟩ := hasExample_iff.mp hexample
    refine .inr ⟨p, hp, .inr ⟨?_, x, hx, hkept, hkey⟩⟩
    cases hs : shapeOf (valuesAt samples p) with
    | mixed => rfl
    | primitive kind =>
      have hcommon := commonPrimitiveType_some_iff.mp (commonPrimitiveType_of_shapeOf hs)
      have hmem := mem_of_mem_distinctValues (List.mem_of_mem_take hkept)
      exact absurd hkey ((hcommon.1 x hmem).not_hasKey s)
    | nulls => exact absurd hs hnulls
    | objects => exact absurd hs hobjects
    | arrays => exact absurd hs harrays

/-- The scan's warnings are those about the strings reported under its test. Under any
test, every high-entropy string other than the marker that inference takes from a sample
into the schema is reported, exactly when every high-entropy key of the sample that
inference keeps is also the text of one of its string values. -/
theorem emitted_reported_iff (looksHigh : String → Bool) (hv : v ∈ samples) :
    (∀ entropic context, warnUndeclaredHighEntropy entropic v context =
      (reports (looksHighEntropy entropic) v []).map (warningOf context)) ∧
    ((∀ s, looksHigh s = true → s ≠ redactedValue → Emitted samples v s →
        Reported looksHigh v s) ↔
      ∀ k, looksHigh k = true → k ≠ redactedValue → KeepsKey samples v k → HasString k v) := by
  refine ⟨fun _ context => warnUndeclaredHighEntropy_eq v context, ?_⟩
  constructor
  · intro h k hentropy hmarker hkey
    exact (reported_iff.mp (h k hentropy hmarker (hkey.emitted hv))).2
  · intro h s hentropy hmarker hemitted
    apply reported_iff.mpr
    refine ⟨⟨hmarker, hentropy⟩, ?_⟩
    rcases hemitted.cases with hstring | hkey
    · exact hstring
    · exact h s hentropy hmarker hkey

/-- A token of 24 characters. -/
def token : String := "q8Zr1TvX5mKc7LwP2nHd9JsB"

/-- A body that has the token as a key. -/
def keyedByToken : Value := .object [(token, .ofNat 1)]

/-- The token is kept as a key of the schema. -/
theorem keyedByToken_keepsKey : KeepsKey [keyedByToken] keyedByToken token :=
  ⟨[], .here _, .inl ⟨rfl, keyedByToken, List.mem_singleton_self _, by simp [keyedByToken]⟩⟩

/-- The token becomes a property name, and no warning is raised. -/
theorem emitted_key_not_reported :
    redactWith .new keyedByToken = keyedByToken ∧
    looksHighEntropy (fun s => s == token) token = true ∧
    warnUndeclaredHighEntropy (fun s => s == token) keyedByToken "request POST /" = [] ∧
    ¬ ∀ s, looksHighEntropy (fun s => s == token) s = true → s ≠ redactedValue →
      Emitted [keyedByToken] keyedByToken s →
        Reported (looksHighEntropy fun s => s == token) keyedByToken s := by
  refine ⟨rfl, rfl, rfl, fun h => ?_⟩
  have hemitted := keyedByToken_keepsKey.emitted (List.mem_singleton_self _)
  obtain ⟨-, hstring⟩ := reported_iff.mp (h token (by decide) (by decide) hemitted)
  obtain ⟨e, he, hstring⟩ := hasString_object_iff.mp hstring
  obtain rfl := List.mem_singleton.mp he
  cases hstring

/-- A body that is the token itself is reported. -/
theorem emitted_reported_example : Reported (fun s => s == token) (.string token) token := by
  refine (emitted_reported_iff (fun s => s == token)
    (List.mem_singleton_self (.string token))).2.mpr ?_ token (by decide) (by decide) ?_
  · rintro k - - ⟨p, _ | ⟨hopens, -⟩, hkept⟩
    · rcases hkept with ⟨hs, -⟩ | ⟨hs, -⟩ <;> cases hs
    · exact absurd hopens (not_opens_of_shapeOf_ne (by decide) (by decide) _)
  · refine ⟨[], _, rfl, .inr ⟨.string token, List.mem_singleton_self _, ?_, .inl .here⟩⟩
    exact hasExample_iff.mpr ⟨by decide, by decide, by decide, List.mem_singleton_self _⟩

end Cyanotype
