import Cyanotype.Document.Growth
import Cyanotype.Document.Saturation
import Mathlib.Data.List.Flatten

/-!
# When a schema becomes stricter

A later document has the evidence of an earlier one and more. Types then only widen and
required keys only go, so the later schema mostly admits all that the earlier one admitted.
It does not at four kinds of places: where nothing but empty arrays had been observed, where
null meets values without a common type, where a single object is joined by others, and
where a key is new.
-/

namespace Cyanotype

open JsonSchema

variable {resolve : String → Option Value} {vs ws : List Value} {v : Value}

/-- Values without a common type, and no null: nothing is asked. -/
def Free (vs : List Value) : Prop := shapeOf vs = .mixed ∧ .null ∉ vs

/-- What was admitted at a place stays admitted there when there are more values. -/
structure Retains (vs ws : List Value) : Prop where
  /-- Only null fits the elements of empty arrays. -/
  empty : vs = [] → ws = [] ∨ .null ∈ ws ∨ shapeOf ws = .mixed
  /-- Null beside values without a common type leaves null only. -/
  clash : Clash ws → Clash vs ∨ nonNulls vs = []
  /-- Nothing is required of a single object. -/
  required : (nonNulls vs).length = 1 → 2 ≤ (nonNulls ws).length →
    ∀ k, ∃ w ∈ nonNulls ws, w.get k = none
  /-- Nothing is asked about a key that no object has. -/
  keys : nonNulls vs ≠ [] → shapeOf ws = .objects → ∀ k, childValues (.key k) vs = [] →
    childValues (.key k) ws = [] ∨ Free (childValues (.key k) ws)

/-- A key leads on where objects have it. -/
theorem opens_key_iff {k : String} :
    Opens vs (.key k) ↔ shapeOf vs = .objects ∧ childValues (.key k) vs ≠ [] := by
  simp [Opens, childValues]

/-! ## Shapes of more values -/

/-- Values among those of an object place, with one that is not null, make an object place. -/
theorem shapeOf_objects_of_subset (h : vs ⊆ ws) (hne : nonNulls vs ≠ [])
    (hs : shapeOf ws = .objects) : shapeOf vs = .objects :=
  shapeOf_eq_objects_iff.mpr
    ⟨hne, fun v hv => (shapeOf_eq_objects_iff.mp hs).2 v (nonNulls_mono h hv)⟩

/-- Values among those of an array place, with one that is not null, make an array place. -/
theorem shapeOf_arrays_of_subset (h : vs ⊆ ws) (hne : nonNulls vs ≠ [])
    (hs : shapeOf ws = .arrays) : shapeOf vs = .arrays :=
  shapeOf_eq_arrays_iff.mpr
    ⟨hne, fun v hv => (shapeOf_eq_arrays_iff.mp hs).2 v (nonNulls_mono h hv)⟩

/-- Values among those of a primitive type have one that it covers. -/
theorem shapeOf_primitive_of_subset {kind : PrimitiveType} (h : vs ⊆ ws) (hne : nonNulls vs ≠ [])
    (hs : shapeOf ws = .primitive kind) :
    ∃ k : PrimitiveType, shapeOf vs = .primitive k ∧ k.WidensTo kind := by
  have hall : ∀ v ∈ nonNulls vs, HasPrimitive kind v := fun v hv =>
    (commonPrimitiveType_some_iff.mp (commonPrimitiveType_of_shapeOf hs)).1 v (nonNulls_mono h hv)
  obtain ⟨v, hv⟩ := List.exists_mem_of_ne_nil _ hne
  have hshape : ∀ k, commonPrimitiveType (nonNulls vs) = some k → shapeOf vs = .primitive k := by
    intro k hk
    obtain ⟨p, hp, -⟩ := hall v hv
    have hobjects : ¬ (nonNulls vs).all Value.isObject = true := by
      intro hobject
      obtain ⟨m, rfl⟩ := Value.isObject_iff.mp (List.all_eq_true.mp hobject v hv)
      cases hp
    have harrays : ¬ (nonNulls vs).all Value.isArray = true := by
      intro harray
      obtain ⟨xs, rfl⟩ := Value.isArray_iff.mp (List.all_eq_true.mp harray v hv)
      cases hp
    rw [shapeOf, if_neg (by simpa using hne), if_neg hobjects, if_neg harrays, hk]
  by_cases hkind : ∃ v ∈ nonNulls vs, primitiveType v = some kind
  · exact ⟨kind, hshape kind (commonPrimitiveType_some_iff.mpr ⟨hall, hkind⟩), .inl rfl⟩
  · -- all are integers among numbers
    have hinteger : ∀ v ∈ nonNulls vs, primitiveType v = some .integer ∧ kind = .number := by
      intro v hv
      obtain ⟨p, hp, rfl | ⟨rfl, rfl⟩⟩ := hall v hv
      · exact absurd ⟨v, hv, hp⟩ hkind
      · exact ⟨hp, rfl⟩
    have hcommon := commonPrimitiveType_some_iff.mpr
      ⟨fun v hv => ⟨_, (hinteger v hv).1, .inl rfl⟩, v, hv, (hinteger v hv).1⟩
    exact ⟨.integer, hshape _ hcommon, .inr ⟨rfl, (hinteger v hv).2⟩⟩

/-- The common type of more values admits what the common type of some of them admits. -/
theorem typeName_widens (h : vs ⊆ ws) (hne : nonNulls vs ≠ []) {name : String}
    (hname : (shapeOf ws).typeName = some name) :
    ∃ name', (shapeOf vs).typeName = some name' ∧
      ∀ v, hasType name' v = true → hasType name v = true := by
  cases hs : shapeOf ws with
  | nulls =>
    have hnil := List.subset_nil.mp (shapeOf_eq_nulls_iff.mp hs ▸ nonNulls_mono h)
    exact absurd hnil hne
  | objects =>
    refine ⟨name, ?_, fun v => id⟩
    rw [shapeOf_objects_of_subset h hne hs, ← hs, hname]
  | arrays =>
    refine ⟨name, ?_, fun v => id⟩
    rw [shapeOf_arrays_of_subset h hne hs, ← hs, hname]
  | primitive kind =>
    obtain ⟨k, hk, hwidens⟩ := shapeOf_primitive_of_subset h hne hs
    refine ⟨k.typeName, by rw [hk, Shape.typeName], fun v hv => ?_⟩
    obtain rfl : kind.typeName = name := by simpa [hs, Shape.typeName] using hname
    rcases hwidens with rfl | ⟨rfl, rfl⟩
    · exact hv
    · cases v <;> simp_all [hasType, PrimitiveType.typeName]
  | mixed => simp [hs, Shape.typeName] at hname

/-! ## What is admitted stays admitted -/

/-- A free place admits everything. -/
theorem Free.validates (h : Free vs) (v : Value) : Validates resolve (inferSchema vs) v := by
  have hclosed := not_opens_of_shapeOf_ne (by simp [h.1]) (by simp [h.1] : shapeOf vs ≠ .arrays)
  refine validates_inferSchema_iff.mpr ⟨⟨?_, fun hclash => absurd hclash.1 h.2, ?_⟩,
    fun st hopen => absurd hopen (hclosed st)⟩
  · simp [h.1, Shape.typeName]
  · intro henough k hall
    have hrequired : k ∈ requiredKeys vs := mem_requiredKeys_iff.mpr ⟨henough, hall⟩
    rw [requiredKeys_eq_nil (by simp [h.1])] at hrequired
    exact absurd hrequired List.not_mem_nil

/-- A value that is not null is only like values of which some are not null. -/
theorem Resembles.nonNulls_ne_nil (h : Resembles vs v) (hv : v ≠ .null) : nonNulls vs ≠ [] := by
  intro hnil
  have htype := h.type "null" (by rw [shapeOf_eq_nulls_iff.mpr hnil, Shape.typeName])
  cases v <;> simp_all [hasType]

/-- Without nulls, there is no value if there is none but nulls. -/
theorem eq_nil_of_nonNulls_eq_nil (h : nonNulls vs = []) (hnull : .null ∉ vs) : vs = [] := by
  refine List.eq_nil_iff_forall_not_mem.mpr fun w hw => ?_
  have hmem := mem_nonNulls.mpr ⟨hw, fun hwn => hnull (hwn ▸ hw)⟩
  rw [h] at hmem
  exact List.not_mem_nil hmem

/-- At one place, what is like some values is like more of them. -/
theorem Resembles.of_sublist (h : Resembles vs v) (hsub : vs.Sublist ws)
    (hretains : Retains vs ws) : Resembles ws v := by
  refine ⟨fun name hname => ?_, fun hclash => ?_, fun henough k hall hobject => ?_⟩
  · by_cases hne : nonNulls vs = []
    · have hv : v = .null := by
        by_contra hv
        exact h.nonNulls_ne_nil hv hne
      subst hv
      by_cases hnull : .null ∈ ws
      · exact .inr ⟨rfl, hnull⟩
      · have hvs := eq_nil_of_nonNulls_eq_nil hne fun hmem => hnull (hsub.subset hmem)
        rcases hretains.empty hvs with hws | hmem | hmixed
        · subst hws
          obtain rfl : "null" = name := by simpa [shapeOf, nonNulls, Shape.typeName] using hname
          exact .inl rfl
        · exact absurd hmem hnull
        · rw [hmixed] at hname
          cases hname
    · obtain ⟨name', hname', hwidens⟩ := typeName_widens hsub.subset hne hname
      rcases h.type name' hname' with htype | ⟨hv, hmem⟩
      · exact .inl (hwidens v htype)
      · exact .inr ⟨hv, hsub.subset hmem⟩
  · by_contra hv
    rcases hretains.clash hclash with hold | hnil
    · exact hv (h.mixed hold)
    · exact h.nonNulls_ne_nil hv hnil
  · have hv : v ≠ .null := by
      rintro rfl
      cases hobject
    have hpos := List.length_pos_iff.mpr (h.nonNulls_ne_nil hv)
    have hmore : nonNulls vs ⊆ nonNulls ws := nonNulls_mono hsub.subset
    by_cases hold : 2 ≤ (nonNulls vs).length
    · exact h.required hold k (fun w hw => hall w (hmore hw)) hobject
    · obtain ⟨w, hw, hnone⟩ := hretains.required (by omega) henough k
      exact absurd hnone (hall w hw)

/-- The values one step below stay, in their order. -/
theorem childValues_sublist (h : vs.Sublist ws) (st : Step) :
    (childValues st vs).Sublist (childValues st ws) := by
  cases st with
  | key k => exact h.filterMap _
  | items => exact h.flatMap _

/-- Keys that none of some objects has are free where they are new. -/
theorem Retains.free (h : Retains vs ws) (hne : nonNulls vs ≠ []) {k : String}
    (hopen : Opens ws (.key k)) (hnew : childValues (.key k) vs = []) :
    Free (childValues (.key k) ws) :=
  (h.keys hne hopen.1 k hnew).resolve_left (opens_key_iff.mp hopen).2

/-- What was admitted stays admitted when it does below every step opened before and now. -/
theorem validates_of_retains (hsub : vs.Sublist ws) (hretains : Retains vs ws)
    (hbelow : ∀ st, Opens vs st → Opens ws st → ∀ x,
      Validates resolve (inferSchema (childValues st vs)) x →
        Validates resolve (inferSchema (childValues st ws)) x)
    (h : Validates resolve (inferSchema vs) v) : Validates resolve (inferSchema ws) v := by
  obtain ⟨hlike, hvalid⟩ := validates_inferSchema_iff.mp h
  refine validates_inferSchema_iff.mpr
    ⟨hlike.of_sublist hsub hretains, fun st hopen x hx => ?_⟩
  by_cases hold : Opens vs st
  · exact hbelow st hold hopen x (hvalid st hold x hx)
  · have hv : v ≠ .null := by
      rintro rfl
      cases st <;>
        simp [childValues, Value.get, Value.asObject, Value.elements, Value.asArray] at hx
    have hne := hlike.nonNulls_ne_nil hv
    cases st with
    | key k =>
      have hs := shapeOf_objects_of_subset hsub.subset hne hopen.1
      have hnew : childValues (.key k) vs = [] := by
        by_contra hsome
        exact hold (opens_key_iff.mpr ⟨hs, hsome⟩)
      exact (hretains.free hne hopen hnew).validates x
    | items => exact absurd (shapeOf_arrays_of_subset hsub.subset hne hopen) hold

/-! ## Values that a schema admits -/

/-- The object that has the keys of another one, with given values. -/
theorem exists_object_with {o : Value} (ho : o.isObject = true) (f : String → Value) :
    ∃ v : Value, v.isObject = true ∧
      ∀ k, v.get k = if o.get k = none then none else some (f k) := by
  obtain ⟨m, rfl⟩ := Value.isObject_iff.mp ho
  refine ⟨.object (m.map fun e => (e.1, f e.1)), rfl, fun k => ?_⟩
  have hmap := SortedMap.get_map_of_injective Function.injective_id (fun j _ => f j) m k
  rw [Value.get_object, Value.get_object]
  refine hmap.trans ?_
  cases SortedMap.get m k <;> simp

/-- A value of the common type is like the observed ones if it has the required keys. -/
theorem Resembles.of_hasType {name : String} (hname : (shapeOf vs).typeName = some name)
    (hv : hasType name v = true)
    (hrequired : 2 ≤ (nonNulls vs).length → v.isObject = true →
      ∀ k, (∀ w ∈ nonNulls vs, w.get k ≠ none) → v.get k ≠ none) : Resembles vs v := by
  refine ⟨fun name' hname' => ?_, fun hclash => ?_,
    fun henough k hall hobject => hrequired henough hobject k hall⟩
  · obtain rfl := Option.some.inj (hname.symm.trans hname')
    exact .inl hv
  · rw [hclash.2] at hname
    cases hname

/-- An object with a value at some key, if there are values for the others. -/
theorem exists_admitted_object (hs : shapeOf vs = .objects)
    (hbelow : ∀ st, ∃ x, Opens vs st → Validates resolve (inferSchema (childValues st vs)) x)
    (k : String) (x : Value) (hx : Opens vs (.key k) →
      Validates resolve (inferSchema (childValues (.key k) vs)) x) :
    ∃ v, Validates resolve (inferSchema vs) v ∧ v.get k = some x := by
  obtain ⟨hne, hall⟩ := shapeOf_eq_objects_iff.mp hs
  obtain ⟨o, ho⟩ := List.exists_mem_of_ne_nil _ hne
  choose f hf using fun j => hbelow (.key j)
  obtain ⟨u, hu, hget⟩ := exists_object_with (hall o ho) f
  have hset : ∀ j, (u.setField k x).get j = if j = k then some x else u.get j :=
    Value.get_setField hu k x
  refine ⟨u.setField k x, validates_inferSchema_iff.mpr
    ⟨.of_hasType (by rw [hs, Shape.typeName]) ?_ ?_, ?_⟩, by simp [hset]⟩
  · obtain ⟨m, hm⟩ := Value.isObject_iff.mp (Value.isObject_setField u k x hu)
    exact hm ▸ rfl
  · intro _ _ j hj
    rw [hset]
    split_ifs
    · exact Option.some_ne_none x
    · simp [hget, hj o ho]
  · rintro (j | _) hopen y hy
    · obtain hyj : (u.setField k x).get j = some y := by simpa [childValues] using hy
      rw [hset] at hyj
      split_ifs at hyj with hjk
      · obtain rfl := Option.some.inj hyj
        exact hjk ▸ hx (hjk ▸ hopen)
      · rw [hget] at hyj
        split_ifs at hyj
        exact Option.some.inj hyj ▸ hf j hopen
    · rw [Opens, hs] at hopen
      cases hopen

/-- An array of one element. -/
theorem admits_singleton (hs : shapeOf vs = .arrays) {x : Value}
    (hx : Validates resolve (inferSchema (childValues .items vs)) x) :
    Validates resolve (inferSchema vs) (.array [x]) := by
  refine validates_inferSchema_iff.mpr ⟨.of_hasType (by rw [hs, Shape.typeName]) rfl nofun, ?_⟩
  rintro (k | _) hopen y hy
  · rw [Opens, hs] at hopen
    cases hopen.1
  · obtain rfl : y = x := by simpa [childValues, Value.elements, Value.asArray] using hy
    exact hx

/-- Null, where nothing else was observed. -/
theorem admits_null (hs : shapeOf vs = .nulls) : Validates resolve (inferSchema vs) .null := by
  refine validates_inferSchema_iff.mpr
    ⟨.of_hasType (by rw [hs, Shape.typeName]) rfl nofun, fun st hopen => ?_⟩
  exact absurd hopen (not_opens_of_shapeOf_ne (by simp [hs]) (by simp [hs]) st)

/-- The empty object, where a single object was observed. -/
theorem admits_empty_object (hs : shapeOf vs = .objects) (hone : (nonNulls vs).length = 1) :
    Validates resolve (inferSchema vs) (.object []) := by
  refine validates_inferSchema_iff.mpr
    ⟨.of_hasType (by rw [hs, Shape.typeName]) rfl fun henough => by omega, ?_⟩
  rintro (k | _) hopen y hy <;>
    simp [childValues, Value.get, Value.asObject, Value.elements, Value.asArray] at hy

/-- A value that was observed, where the observed values have a primitive type. -/
theorem admits_primitive {kind : PrimitiveType} (hs : shapeOf vs = .primitive kind)
    (hv : v ∈ nonNulls vs) : Validates resolve (inferSchema vs) v := by
  have hprimitive := (commonPrimitiveType_some_iff.mp (commonPrimitiveType_of_shapeOf hs)).1 v hv
  refine validates_inferSchema_iff.mpr
    ⟨.of_hasType (by rw [hs, Shape.typeName]) hprimitive.hasType fun _ hobject => ?_,
      fun st hopen => ?_⟩
  · obtain ⟨m, rfl⟩ := Value.isObject_iff.mp hobject
    obtain ⟨p, hp, -⟩ := hprimitive
    cases hp
  · exact absurd hopen (not_opens_of_shapeOf_ne (by simp [hs]) (by simp [hs]) st)

/-- Null, where it was observed beside values without a common type. -/
theorem Clash.admits_null (h : Clash vs) : Validates resolve (inferSchema vs) .null := by
  refine validates_inferSchema_iff.mpr ⟨⟨?_, fun _ => rfl, nofun⟩, fun st hopen => ?_⟩
  · simp [h.2, Shape.typeName]
  · exact absurd hopen (not_opens_of_shapeOf_ne (by simp [h.2]) (by simp [h.2]) st)

/-- Every inferred schema admits something, and null alone only where nothing else was
observed or null was observed beside values without a common type. -/
theorem exists_admitted (resolve : String → Option Value) (vs : List Value) :
    ∃ v, Validates resolve (inferSchema vs) v ∧
      (nonNulls vs ≠ [] → ¬ Clash vs → v ≠ .null) := by
  induction vs using evidence_induction with
  | h vs ih =>
    have hbelow : ∀ st, ∃ x, Opens vs st →
        Validates resolve (inferSchema (childValues st vs)) x := by
      intro st
      by_cases hopen : Opens vs st
      · exact (ih st hopen).imp fun x hx _ => hx.1
      · exact ⟨.null, fun h => absurd h hopen⟩
    cases hs : shapeOf vs with
    | nulls =>
      exact ⟨.null, admits_null hs, fun hne => absurd (shapeOf_eq_nulls_iff.mp hs) hne⟩
    | objects =>
      obtain ⟨x, hx⟩ := hbelow (.key "")
      obtain ⟨v, hv, hget⟩ := exists_admitted_object hs hbelow "" x hx
      refine ⟨v, hv, fun _ _ hnull => ?_⟩
      rw [hnull] at hget
      cases hget
    | arrays =>
      obtain ⟨x, hx⟩ := hbelow .items
      exact ⟨.array [x], admits_singleton hs (hx hs), fun _ _ => by simp⟩
    | primitive kind =>
      have hne : nonNulls vs ≠ [] := by
        intro hnil
        rw [shapeOf_eq_nulls_iff.mpr hnil] at hs
        cases hs
      obtain ⟨v, hv⟩ := List.exists_mem_of_ne_nil _ hne
      exact ⟨v, admits_primitive hs hv, fun _ _ => (mem_nonNulls.mp hv).2⟩
    | mixed =>
      by_cases hnull : .null ∈ vs
      · have hclash : Clash vs := ⟨hnull, hs⟩
        exact ⟨.null, hclash.admits_null, fun _ hnot => absurd hclash hnot⟩
      · exact ⟨.bool true, Free.validates ⟨hs, hnull⟩ _, fun _ _ => by simp⟩

/-! ## What stays admitted is kept -/

/-- Only a free place admits everything. -/
theorem free_of_validates (h : ∀ v, Validates resolve (inferSchema vs) v) : Free vs := by
  have hlike : ∀ v, Resembles vs v := fun v => (validates_inferSchema_iff.mp (h v)).1
  have hmixed : shapeOf vs = .mixed := by
    have hname : (shapeOf vs).typeName = none := by
      by_contra hne
      obtain ⟨name, hname⟩ := Option.ne_none_iff_exists'.mp hne
      -- no type name names two types
      obtain hbool | ⟨hnull, -⟩ := (hlike (.bool true)).type name hname
      · obtain hstring | ⟨hnull, -⟩ := (hlike (.string "")).type name hname
        · obtain rfl : name = "boolean" := by simpa [hasType] using hbool
          cases hstring
        · cases hnull
      · cases hnull
    cases hs : shapeOf vs <;> simp_all [Shape.typeName]
  refine ⟨hmixed, fun hnull => ?_⟩
  cases (hlike (.bool true)).mixed ⟨hnull, hmixed⟩

/-- A place retains what it admitted if nothing was lost there and below. -/
theorem retains_of_validates (hsub : vs.Sublist ws)
    (h : ∀ v, Validates resolve (inferSchema vs) v → Validates resolve (inferSchema ws) v) :
    Retains vs ws := by
  have hlike : ∀ v, Validates resolve (inferSchema vs) v → Resembles ws v :=
    fun v hv => (validates_inferSchema_iff.mp (h v hv)).1
  refine ⟨?empty, ?clash, ?required, ?keys⟩
  case empty =>
    rintro rfl
    by_contra hnot
    simp only [not_or] at hnot
    obtain ⟨hne, hnull, hmixed⟩ := hnot
    have htype := (hlike .null (admits_null rfl)).type
    cases hs : shapeOf ws with
    | nulls => exact hne (eq_nil_of_nonNulls_eq_nil (shapeOf_eq_nulls_iff.mp hs) hnull)
    | mixed => exact hmixed hs
    | primitive kind =>
      rw [hs] at htype
      cases kind <;> simp [Shape.typeName, PrimitiveType.typeName, hasType, hnull] at htype
    | _ =>
      rw [hs] at htype
      simp [Shape.typeName, hasType, hnull] at htype
  case clash =>
    intro hclash
    by_contra hnot
    obtain ⟨hold, hne⟩ := not_or.mp hnot
    obtain ⟨v, hv, hnull⟩ := exists_admitted resolve vs
    exact hnull hne hold ((hlike v hv).mixed hclash)
  case required =>
    intro hone henough k
    by_contra hnot
    have hall : ∀ w ∈ nonNulls ws, w.get k ≠ none := by simpa using hnot
    have hs : shapeOf vs = .objects := by
      refine shapeOf_eq_objects_iff.mpr ⟨fun hnil => ?_, fun v hv => ?_⟩
      · simp [hnil] at hone
      · have hget := hall v (nonNulls_mono hsub.subset hv)
        cases v with
        | object m => rfl
        | _ => exact absurd rfl hget
    exact (hlike _ (admits_empty_object hs hone)).required henough k hall rfl rfl
  case keys =>
    intro hne hs k hnew
    refine or_iff_not_imp_left.mpr fun hsome => ?_
    have hopen : Opens ws (.key k) := opens_key_iff.mpr ⟨hs, hsome⟩
    have hclosed : ¬ Opens vs (.key k) := fun hold => (opens_key_iff.mp hold).2 hnew
    have hall : ∀ x, Validates resolve (inferSchema (childValues (.key k) ws)) x := by
      intro x
      obtain ⟨v, hv, hget⟩ := exists_admitted_object
        (shapeOf_objects_of_subset hsub.subset hne hs)
        (fun st => (exists_admitted resolve _).imp fun y hy _ => hy.1) k x
        fun hold => absurd hold hclosed
      exact (validates_inferSchema_iff.mp (h v hv)).2 _ hopen x (by simp [childValues, hget])
    exact free_of_validates hall

/-- What stays admitted at a place stays admitted below every step that leads on. -/
theorem validates_child_of_validates
    (h : ∀ v, Validates resolve (inferSchema vs) v → Validates resolve (inferSchema ws) v)
    {st : Step} (hold : Opens vs st) (hnew : Opens ws st) {x : Value}
    (hx : Validates resolve (inferSchema (childValues st vs)) x) :
    Validates resolve (inferSchema (childValues st ws)) x := by
  cases st with
  | key k =>
    obtain ⟨v, hv, hget⟩ := exists_admitted_object hold.1
      (fun st => (exists_admitted resolve _).imp fun y hy _ => hy.1) k x fun _ => hx
    exact (validates_inferSchema_iff.mp (h v hv)).2 _ hnew x (by simp [childValues, hget])
  | items =>
    exact (validates_inferSchema_iff.mp (h _ (admits_singleton hold hx))).2 _ hnew x
      (by simp [childValues, Value.elements, Value.asArray])

/-! ## Every place -/

/-- Every place that both speak of keeps what it admitted. -/
def RetainsPlaces (samples more : List Value) : Prop :=
  ∀ p, Observed samples p → Observed more p → Retains (valuesAt samples p) (valuesAt more p)

/-- A schema inferred from more values admits all that the schema inferred from some of
them admits, exactly when every place that both speak of keeps what it admitted. -/
theorem widens_iff (resolve : String → Option Value) {samples more : List Value}
    (h : samples.Sublist more) :
    (∀ v, Validates resolve (inferSchema samples) v →
      Validates resolve (inferSchema more) v) ↔ RetainsPlaces samples more := by
  induction samples using evidence_induction generalizing more with
  | h vs ih =>
    constructor
    · rintro hwidens p (_ | ⟨hold, hp⟩) hmore
      · exact retains_of_validates h hwidens
      · obtain _ | ⟨hnew, hp'⟩ := hmore
        exact (ih _ hold (childValues_sublist h _)).mp
          (fun x hx => validates_child_of_validates hwidens hold hnew hx) _ hp hp'
    · intro hretains v hv
      have hhere := hretains [] (.here vs) (.here more)
      refine validates_of_retains h hhere (fun st hold hnew => ?_) hv
      exact (ih st hold (childValues_sublist h st)).mpr fun p hp hp' =>
        hretains (st :: p) (.under hold hp) (.under hnew hp')

/-! ## Documents -/

/-- A schema, and a later one that admits all it admits exactly when every place of the
evidence for the one is kept by the evidence for the other. -/
def WidensBy (resolve : String → Option Value) (samples more : List Value)
    (before after : Option Value) : Prop :=
  ∀ schema, before = some schema → ∃ schema', after = some schema' ∧
    ((∀ v, Validates resolve schema v → Validates resolve schema' v) ↔ RetainsPlaces samples more)

/-- The schema inferred from some bodies, when more come in. -/
theorem widensBy_inferredSchema (resolve : String → Option Value) {samples more : List Value}
    (h : samples.Sublist more) :
    WidensBy resolve samples more (inferredSchema samples) (inferredSchema more) := by
  intro schema hschema
  unfold inferredSchema at hschema ⊢
  split_ifs at hschema with hempty
  obtain rfl := Option.some.inj hschema
  have hmore : ¬ more.isEmpty = true := by
    intro hnil
    rw [List.isEmpty_iff.mp hnil, List.sublist_nil] at h
    exact hempty (h ▸ rfl)
  exact ⟨_, if_neg hmore, widens_iff resolve h⟩

/-- How the inferred schemas of a later document follow those of an earlier one. -/
structure SchemasWiden (resolve : String → Option Value) (es es' : List Exchange)
    (doc doc' : Value) : Prop where
  responses : ∀ route method (status : Nat), ¬ DeclaredAt es' route method (toString status) →
    WidensBy resolve (responseBodies (observedWith ⟨route, method⟩ status es))
      (responseBodies (observedWith ⟨route, method⟩ status es'))
      ((responseAt doc route method (toString status)).bind contentSchema)
      ((responseAt doc' route method (toString status)).bind contentSchema)
  requests : ∀ route method,
    WidensBy resolve (requestBodies (observedAt ⟨route, method⟩ es))
      (requestBodies (observedAt ⟨route, method⟩ es'))
      ((requestBodyAt doc route method).bind contentSchema)
      ((requestBodyAt doc' route method).bind contentSchema)

/-- The inferred schemas of a later view follow those of an earlier one. -/
theorem Below.schemasWiden {es es' : List Exchange} (h : Below es es')
    (resolve : String → Option Value) (warnings warnings' : List String) :
    SchemasWiden resolve es es' (buildDocument es warnings).1 (buildDocument es' warnings').1 := by
  constructor
  case responses =>
    intro route method status hdeclared
    rw [contentSchema_of_not_declaredAt (mt h.declaredAt hdeclared),
      contentSchema_of_not_declaredAt hdeclared]
    exact widensBy_inferredSchema resolve (h.sublist_responseBodies _ _)
  case requests =>
    intro route method
    rw [requestSchema_buildDocument, requestSchema_buildDocument]
    exact widensBy_inferredSchema resolve (h.sublist_requestBodies _)

namespace Recorder

variable {H : Type*} [DecidableEq H] {s : Recorder H}

/-- Whatever happens between two snapshots of a run, a schema that is still inferred in the
document written from the later one admits all that the document written from the earlier
one admitted there, exactly when every place of the evidence retains what it admitted. -/
theorem schemas_widen_iff (env : Externals) (redactions : Redactions) {actions : List (Action H)}
    (hrun : run (step env) (init redactions) actions = some s) :
    s.collected.Pairwise fun earlier later => ∀ resolve warnings warnings',
      SchemasWiden resolve earlier later (buildDocument earlier warnings).1
        (buildDocument later warnings').1 :=
  (snapshots_grow hrun).1.imp fun hbelow => hbelow.schemasWiden

/-- A parser that knows one user. -/
def parseUser : Externals where
  fromSlice := fun _ => some user
  entropic := fun _ => false

/-- A user in a request body, before a snapshot, and again before another one. -/
def users : List (Action Nat) :=
  [.push 0 .post "/users" none, .access 0 (.side .request (.finish none [] ⟨[0x7b], false⟩)),
    .access 0 (.side .request .store), .access 0 (.setStatus 201),
    .beginSnapshot, .readExchange, .endSnapshot,
    .push 1 .post "/users" none, .access 1 (.side .request (.finish none [] ⟨[0x7b], false⟩)),
    .access 1 (.side .request .store), .access 1 (.setStatus 201),
    .beginSnapshot, .readExchange, .readExchange, .endSnapshot]

/-- The id of the only user is required once the user was sent again. -/
theorem schemas_widen_example : ∃ s earlier later,
    run (step parseUser) (init .new) users = some s ∧ s.collected = [earlier, later] ∧
    ∃ schema schema',
      (requestBodyAt (buildDocument earlier []).1 "/users" "post").bind contentSchema =
        some schema ∧
      (requestBodyAt (buildDocument later []).1 "/users" "post").bind contentSchema =
        some schema' ∧
      ¬ ∀ v, Validates (fun _ => none) schema v → Validates (fun _ => none) schema' v := by
  have hbodies : (run (step parseUser) (init .new) users).map (fun s => s.collected.map
      fun es => requestBodies (observedAt ⟨"/users", "post"⟩ es)) =
        some [[user], [user, user]] := rfl
  obtain ⟨s, hs, hcollected⟩ := Option.map_eq_some_iff.mp hbodies
  obtain ⟨earlier, rest, hrest, hearlier, hbodies'⟩ := List.map_eq_cons_iff.mp hcollected
  obtain ⟨later, rfl, hlater⟩ := List.map_eq_singleton_iff.mp hbodies'
  have hwidens := schemas_widen_iff parseUser .new hs
  rw [hrest, List.pairwise_cons] at hwidens
  have hrequests := (hwidens.1 later (List.mem_singleton_self _) (fun _ => none) [] []).requests
    "/users" "post"
  rw [hearlier, hlater] at hrequests
  have hschema : (requestBodyAt (buildDocument earlier []).1 "/users" "post").bind
      contentSchema = some (inferSchema [user]) := by
    rw [requestSchema_buildDocument, hearlier]
    rfl
  obtain ⟨schema', hschema', hiff⟩ := hrequests _ hschema
  refine ⟨s, earlier, later, hs, hrest, _, schema', hschema, hschema', fun hall => ?_⟩
  obtain ⟨w, hw, hget⟩ :=
    (hiff.mp hall [] (.here _) (.here _)).required rfl (Nat.le_refl 2) "id"
  have huser : w = user := by simpa [valuesAt, nonNulls, user, Value.isNull] using hw
  rw [huser] at hget
  cases hget

end Recorder

end Cyanotype
