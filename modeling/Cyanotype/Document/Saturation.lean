import Cyanotype.Document.Admission
import Cyanotype.Document.Examples

/-!
# Repeated evidence

Values that were all observed before say nothing new about a place, except how often they
were observed. That counts where there was only one object so far: seen again, its keys
are required. Everywhere else the inferred schema stays what it is.
-/

namespace Cyanotype

open JsonSchema

/-- The only object of a place, which has a key, is observed again. -/
def SeenAgain (vs ws : List Value) : Prop :=
  ∃ o k, nonNulls vs = [o] ∧ o.get k ≠ none ∧ nonNulls ws ≠ []

variable {vs ws : List Value}

/-! ## One place -/

theorem nonNulls_append (vs ws : List Value) : nonNulls (vs ++ ws) = nonNulls vs ++ nonNulls ws :=
  List.filter_append ..

theorem nonNulls_mono (h : ws ⊆ vs) : nonNulls ws ⊆ nonNulls vs := by
  intro v hv
  obtain ⟨hmem, hne⟩ := mem_nonNulls.mp hv
  exact mem_nonNulls.mpr ⟨h hmem, hne⟩

theorem childValues_append (st : Step) (vs ws : List Value) :
    childValues st (vs ++ ws) = childValues st vs ++ childValues st ws := by
  cases st with
  | key k => exact List.filterMap_append
  | items => exact List.flatMap_append

private theorem mem_append_of_subset {α : Type} {as bs : List α} (h : bs ⊆ as) {a : α} :
    a ∈ as ++ bs ↔ a ∈ as := by
  rw [List.mem_append]
  exact or_iff_left_of_imp fun hb => h hb

/-- The shape depends on which values there are. -/
theorem shapeOf_append (h : ws ⊆ vs) : shapeOf (vs ++ ws) = shapeOf vs := by
  have hmem := nonNulls_mono h
  have hall : ∀ q : Value → Bool,
      (nonNulls vs ++ nonNulls ws).all q = (nonNulls vs).all q := by
    intro q
    rw [Bool.eq_iff_iff, List.all_eq_true, List.all_eq_true]
    simp only [mem_append_of_subset hmem]
  have hempty : (nonNulls vs ++ nonNulls ws).isEmpty = (nonNulls vs).isEmpty := by
    rw [Bool.eq_iff_iff, List.isEmpty_iff, List.isEmpty_iff, List.eq_nil_iff_forall_not_mem,
      List.eq_nil_iff_forall_not_mem]
    simp only [mem_append_of_subset hmem]
  have hkind : commonPrimitiveType (nonNulls vs ++ nonNulls ws) =
      commonPrimitiveType (nonNulls vs) := by
    ext kind
    rw [commonPrimitiveType_some_iff, commonPrimitiveType_some_iff]
    simp only [mem_append_of_subset hmem]
  simp only [shapeOf, nonNulls_append, hall, hempty, hkind]

/-- Known values do not change a `type`. -/
theorem typeValue_append (h : ws ⊆ vs) (name : String) :
    typeValue (vs ++ ws) name = typeValue vs name := by
  have hnull : (vs ++ ws).any Value.isNull = vs.any Value.isNull := by
    rw [Bool.eq_iff_iff, any_isNull_iff, any_isNull_iff, mem_append_of_subset h]
  unfold typeValue
  rw [hnull]

/-- Keys are pushed once. -/
theorem collectKeys_append (h : ws ⊆ vs) : collectKeys (vs ++ ws) = collectKeys vs := by
  have hpush : ∀ {keys seen : List String}, keys ⊆ seen → keys.foldl pushKey seen = seen := by
    intro keys seen hsub
    induction keys with
    | nil => rfl
    | cons key keys ih =>
      obtain ⟨hkey, hkeys⟩ := List.cons_subset.mp hsub
      rw [List.foldl_cons, pushKey, if_pos hkey, ih hkeys]
  rw [collectKeys_eq_foldl, collectKeys_eq_foldl, List.flatMap_append, List.foldl_append]
  refine hpush fun k hk => mem_foldl_pushKey.mpr (.inr ?_)
  obtain ⟨v, hv, hkv⟩ := List.mem_flatMap.mp hk
  exact List.mem_flatMap.mpr ⟨v, h hv, hkv⟩

/-- Examples are pushed once. -/
theorem collectExamples_append (h : ws ⊆ vs) :
    collectExamples [] (vs ++ ws) = collectExamples [] vs := by
  have hpush : ∀ {us values : List Value}, (∀ v ∈ us, values.any (·.beq v) = true) →
      us.foldl pushDistinct values = values := by
    intro us values hall
    induction us with
    | nil => rfl
    | cons v us ih =>
      obtain ⟨hv, hus⟩ := List.forall_mem_cons.mp hall
      rw [List.foldl_cons, pushDistinct, if_pos hv, ih hus]
  rw [collectExamples_eq, collectExamples_eq, distinctValues, List.foldl_append, hpush]
  · rfl
  · intro w hw
    obtain ⟨x, hx, hxw⟩ := exists_firstSeen_beq (h hw)
    rw [← distinctValues_eq_firstSeen] at hx
    exact List.any_eq_true.mpr ⟨x, hx, hxw⟩

/-- Required keys change where the only object is seen again. -/
theorem requiredKeys_append_iff (h : ws ⊆ vs) :
    requiredKeys (vs ++ ws) = requiredKeys vs ↔ ¬ SeenAgain vs ws := by
  have hmem := nonNulls_mono h
  constructor
  · rintro hsame ⟨o, k, ho, hk, hne⟩
    have hnot : k ∉ requiredKeys vs := by
      rw [mem_requiredKeys_iff, ho]
      exact fun henough => absurd henough.1 (Nat.not_succ_le_self 1)
    refine hnot (hsame ▸ mem_requiredKeys_iff.mpr ⟨?_, fun v hv => ?_⟩)
    · have hpos := List.length_pos_iff.mpr hne
      rw [nonNulls_append, ho]
      simp only [minSamplesForRequired, List.length_append, List.length_singleton]
      omega
    · rw [nonNulls_append, mem_append_of_subset hmem, ho, List.mem_singleton] at hv
      exact hv ▸ hk
  · intro hnot
    have hkeys : collectKeys (nonNulls (vs ++ ws)) = collectKeys (nonNulls vs) := by
      rw [nonNulls_append, collectKeys_append hmem]
    unfold requiredKeys
    rw [hkeys]
    refine List.filter_congr fun k hk => ?_
    -- a key is required by both once there are two values, or nothing was added
    have hrequired : isRequiredKey (nonNulls (vs ++ ws)) k ↔ isRequiredKey (nonNulls vs) k := by
      simp only [isRequiredKey_iff, nonNulls_append, mem_append_of_subset hmem,
        List.length_append]
      refine and_congr_left fun _ => ⟨fun henough => ?_, fun henough => by omega⟩
      by_contra hfew
      obtain ⟨v, hv, hget⟩ := mem_collectKeys.mp hk
      have hpos : 0 < (nonNulls vs).length := List.length_pos_of_mem hv
      obtain ⟨o, ho⟩ := List.length_eq_one_iff.mp (show (nonNulls vs).length = 1 by omega)
      refine hnot ⟨o, k, ho, ?_, fun hnil => ?_⟩
      · rw [ho, List.mem_singleton] at hv
        exact hv ▸ hget
      · simp only [hnil, List.length_nil, Nat.add_zero] at henough
        exact hfew henough
    simp only [hrequired]

/-- The schema stays the same when the required keys do, here and below. -/
theorem inferSchema_append_place_iff (h : ws ⊆ vs) :
    inferSchema (vs ++ ws) = inferSchema vs ↔ ¬ SeenAgain vs ws ∧
      ∀ st, Opens vs st → inferSchema (childValues st vs ++ childValues st ws) =
        inferSchema (childValues st vs) := by
  have hshape := shapeOf_append h
  have hopens : ∀ st, Opens (vs ++ ws) st ↔ Opens vs st := by
    intro st
    cases st <;> simp only [Opens, hshape, mem_append_of_subset h]
  rw [← requiredKeys_append_iff h]
  constructor
  · intro hsame
    refine ⟨?_, fun st hopen => ?_⟩
    · have hget := congrArg (·.get "required") hsame
      simp only [inferSchema_get_required, fragmentOf_required] at hget
      cases hnew : requiredKeys (vs ++ ws) <;> cases hold : requiredKeys vs <;>
        simp_all [List.map_inj_right]
    · have hchild := childSchema_inferSchema_iff.mpr ⟨(hopens st).mpr hopen, rfl⟩
      rw [hsame, childValues_append] at hchild
      exact (childSchema_inferSchema_iff.mp hchild).2
  · rintro ⟨hrequired, hbelow⟩
    have hexamples := collectExamples_append (nonNulls_mono h)
    rw [← nonNulls_append] at hexamples
    rw [inferSchema_eq, inferSchema_eq]
    unfold fragmentOf
    rw [hshape]
    cases hs : shapeOf vs with
    | nulls => rfl
    | objects =>
      have hkeys : collectKeys (nonNulls (vs ++ ws)) = collectKeys (nonNulls vs) := by
        rw [nonNulls_append, collectKeys_append (nonNulls_mono h)]
      have hproperties : inferProperties inferSchema (nonNulls (vs ++ ws)) =
          inferProperties inferSchema (nonNulls vs) := by
        unfold inferProperties
        rw [hkeys]
        refine List.foldl_ext _ _ _ fun m k hk => ?_
        obtain ⟨v, hv, hget⟩ := mem_collectKeys.mp hk
        have hchild := hbelow (.key k) ⟨hs, v, (mem_nonNulls.mp hv).1, hget⟩
        rw [← childValues_append, ← childValues_nonNulls _ (vs ++ ws),
          ← childValues_nonNulls _ vs] at hchild
        exact congrArg (m.insert k) hchild
      simp only [hproperties, hrequired, typeValue_append h]
    | arrays =>
      have hchild := hbelow .items hs
      rw [← childValues_append] at hchild
      simp only [hchild, typeValue_append h]
    | primitive kind => simp only [hexamples, typeValue_append h]
    | mixed =>
      have hnull : (vs ++ ws).any Value.isNull = vs.any Value.isNull := by
        rw [Bool.eq_iff_iff, any_isNull_iff, any_isNull_iff, mem_append_of_subset h]
      simp only [hexamples, hnull]

/-! ## Every place -/

/-- Values that were all observed before leave the inferred schema as it is, exactly when
no place showed one object only, with a key, and is observed again. -/
theorem repeated_evidence_iff {samples repeated : List Value} (h : repeated ⊆ samples) :
    inferSchema (samples ++ repeated) = inferSchema samples ↔
      ∀ p, Observed samples p → ¬ SeenAgain (valuesAt samples p) (valuesAt repeated p) := by
  induction samples using evidence_induction generalizing repeated with
  | h vs ih =>
    rw [inferSchema_append_place_iff h]
    constructor
    · rintro ⟨hhere, hbelow⟩ p (_ | ⟨hopen, hobserved⟩)
      · exact hhere
      · exact (ih _ hopen (childValues_mono h _)).mp (hbelow _ hopen) _ hobserved
    · intro hall
      refine ⟨hall [] (.here vs), fun st hopen => ?_⟩
      exact (ih st hopen (childValues_mono h st)).mpr fun p hobserved =>
        hall (st :: p) (.under hopen hobserved)

/-- A user. -/
def user : Value := .object [("id", .ofNat 1)]

/-- The only user, seen again, must have an id. -/
theorem repeated_evidence_example : inferSchema ([user] ++ [user]) ≠ inferSchema [user] := by
  intro h
  refine (repeated_evidence_iff (by simp)).mp h [] (.here _) ⟨user, "id", rfl, ?_, ?_⟩
  · simp [user]
  · simp [valuesAt, nonNulls, user, Value.isNull]

end Cyanotype
