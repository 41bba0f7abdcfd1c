import Cyanotype.Core.Text
import Cyanotype.Document.Reading
import Cyanotype.Document.Soundness

/-!
# The below-threshold notice

The notice names the pairs observed once. Whether `required` is asserted is
decided elsewhere, from the objects seen at each nested place or by a
declaration, so the two agree only under conditions that are made explicit here.
-/

namespace Cyanotype

open JsonSchema

/-! ## What the notice names -/

/-- The operation of a method at a route. -/
def operationKey (method : Method) (route : String) : OperationKey where
  route := route
  method := toAsciiLowercase method.asStr

/-- The notice is appended and names a pair as one for which `required` is not asserted:
the pair is on the list that the notice was made from, and the notice says so. -/
def NoticeNames (exchanges : List Exchange) (warnings : List String) (method : Method)
    (route : String) (status : Nat) : Prop :=
  (buildDocument exchanges warnings).2 =
      warnings ++ [belowThresholdNotice (assemblePaths (groupExchanges exchanges)).2] ∧
    noticeEntry (operationKey method route) status ∈
      (assemblePaths (groupExchanges exchanges)).2 ∧
    (noticeEntry (operationKey method route) status).toList <:+:
      (belowThresholdNotice (assemblePaths (groupExchanges exchanges)).2).toList

/-- The text of a notice has every entry that it was made from. -/
theorem infix_belowThresholdNotice {entry : String} {below : List String} (h : entry ∈ below) :
    entry.toList <:+: (belowThresholdNotice below).toList := by
  have hjoined : entry.toList <:+: (", ".intercalate below).toList := by
    rw [String.toList_intercalate]
    exact infix_intercalate (List.mem_map_of_mem h)
  unfold belowThresholdNotice
  simp only [String.toList_append]
  exact (hjoined.trans (List.suffix_append _ _).isInfix).trans (List.prefix_append _ _).isInfix

private theorem toLower_toUpper_toLower (c : Char) :
    c.toLower.toUpper.toLower = c.toLower := by
  have hupper : ∀ d : Char, d.toUpper.toLower = d.toLower := by
    intro d
    apply Char.ext
    unfold Char.toUpper Char.toLower
    split <;> split <;> grind
  have hlower : ∀ d : Char, d.toLower.toLower = d.toLower := by
    intro d
    apply Char.ext
    unfold Char.toLower
    split
    · split <;> grind
    · rfl
  rw [hupper, hlower]

private theorem lowercase_uppercase_lowercase (s : String) :
    toAsciiLowercase (toAsciiUppercase (toAsciiLowercase s)) = toAsciiLowercase s := by
  unfold toAsciiLowercase toAsciiUppercase
  simp only [String.toList_ofList, List.map_map]
  exact congrArg String.ofList (List.map_congr_left fun c _ => toLower_toUpper_toLower c)

private theorem eq_space_of_toUpper {c : Char} (h : c.toUpper = ' ') : c = ' ' := by
  unfold Char.toUpper at h
  split at h
  · have hval := congrArg Char.val h
    grind
  · exact h

private theorem eq_space_of_toLower {c : Char} (h : c.toLower = ' ') : c = ' ' := by
  unfold Char.toLower at h
  split at h
  · have hval := congrArg Char.val h
    grind
  · exact h

/-- A method is written without spaces. -/
private theorem space_not_mem_method (method : Method) :
    ' ' ∉ (toAsciiUppercase (toAsciiLowercase method.asStr)).toList := by
  unfold toAsciiUppercase toAsciiLowercase
  rw [String.toList_ofList, String.toList_ofList, List.map_map]
  intro hmem
  obtain ⟨c, hc, hspace⟩ := List.mem_map.mp hmem
  obtain rfl := eq_space_of_toLower (eq_space_of_toUpper hspace)
  exact absurd (List.all_eq_true.mp method.token ' ' hc) (by decide)

/-- A status code is written without spaces. -/
private theorem space_not_mem_status (status : Nat) : ' ' ∉ (toString status).toList :=
  fun hmem => absurd (isDigit_of_mem_toString hmem) (by decide)

private theorem noticeEntry_toList (key : OperationKey) (status : Nat) :
    (noticeEntry key status).toList = (toAsciiUppercase key.method).toList ++
      ' ' :: (key.route.toList ++ ' ' :: (toString status).toList) := by
  simp only [noticeEntry, String.toList_append, List.append_assoc]
  rfl

/-- Different pairs have different entries, even when a route contains spaces. -/
theorem noticeEntry_inj {m m' : Method} {r r' : String} {s s' : Nat}
    (h : noticeEntry (operationKey m r) s = noticeEntry (operationKey m' r') s') :
    operationKey m r = operationKey m' r' ∧ s = s' := by
  have hlist := congrArg String.toList h
  rw [noticeEntry_toList, noticeEntry_toList] at hlist
  -- The method ends at the first space and the status starts after the last one.
  obtain ⟨hmethod, hrest⟩ := eq_of_append_cons (space_not_mem_method m)
    (space_not_mem_method m') hlist
  obtain ⟨hroute, hstatus⟩ := eq_of_append_cons_last (space_not_mem_status s)
    (space_not_mem_status s') hrest
  have hlower := congrArg toAsciiLowercase (String.toList_injective hmethod)
  rw [lowercase_uppercase_lowercase, lowercase_uppercase_lowercase] at hlower
  have hr : r = r' := String.toList_injective hroute
  refine ⟨?_, toString_injective (String.toList_injective hstatus)⟩
  rw [operationKey, operationKey, hr, hlower]

private theorem mem_noticeEntries_iff {exchanges : List Exchange} {entry : String} :
    entry ∈ noticeEntries (groupExchanges exchanges).operations ↔
      ∃ key status, (observedWith key status exchanges).length = 1 ∧
        noticeEntry key status = entry := by
  simp only [noticeEntries, belowEntries, List.mem_flatMap, List.mem_map, List.mem_filter,
    decide_eq_true_eq, Prod.exists, BTreeMap.mem_entries_iff, groupExchanges_operations_get]
  constructor
  · rintro ⟨key, acc, hkey, status, statusAcc, ⟨hstatus, hbelow⟩, rfl⟩
    split_ifs at hkey
    obtain rfl := Option.some.inj hkey
    rw [operationAcc_byStatus_get] at hstatus
    split_ifs at hstatus with hnil
    obtain rfl := Option.some.inj hstatus
    have hpos := List.length_pos_iff.mpr hnil
    have hlt : (observedWith key status exchanges).length < minSamplesForRequired := hbelow
    exact ⟨key, status, by unfold minSamplesForRequired at hlt; omega, rfl⟩
  · rintro ⟨key, status, hlength, rfl⟩
    have hne : observedWith key status exchanges ≠ [] := by
      intro hnil
      rw [hnil] at hlength
      cases hlength
    refine ⟨key, operationAcc key exchanges, if_neg fun hnil => hne ?_, status,
      StatusAcc.of (observedWith key status exchanges), ⟨?_, ?_⟩, rfl⟩
    · exact observedWith_eq_nil hnil status
    · rw [operationAcc_byStatus_get, if_neg hne]
    · rw [StatusAcc.of, hlength]
      exact Nat.one_lt_two

/-- A pair is named exactly when it was observed once. -/
theorem noticeNames_iff (exchanges : List Exchange) (warnings : List String) (method : Method)
    (route : String) (status : Nat) :
    NoticeNames exchanges warnings method route status ↔
      (observedWith (operationKey method route) status exchanges).length = 1 := by
  have hentry : noticeEntry (operationKey method route) status ∈
      noticeEntries (groupExchanges exchanges).operations ↔
      (observedWith (operationKey method route) status exchanges).length = 1 := by
    rw [mem_noticeEntries_iff]
    constructor
    · rintro ⟨key, status', hlength, heq⟩
      obtain ⟨e, he⟩ := List.length_eq_one_iff.mp hlength
      have hmem : e ∈ observedWith key status' exchanges := he ▸ List.mem_cons_self
      obtain rfl := (mem_observedWith_iff.mp hmem).2.2
      obtain ⟨hkey, rfl⟩ := noticeEntry_inj (m := e.method) (r := e.routeTemplate) heq
      rwa [← hkey]
    · exact fun hlength => ⟨_, status, hlength, rfl⟩
  unfold NoticeNames
  rw [assemblePaths_eq, ← hentry, buildDocument_eq]
  refine ⟨fun h => h.2.1, fun hmem => ⟨?_, hmem, infix_belowThresholdNotice hmem⟩⟩
  have hne := List.ne_nil_of_mem hmem
  simp only [allWarnings, List.isEmpty_iff, hne, if_false]

/-! ## Truthfulness -/

/-- No place of a schema carries `required`. -/
def Unrequired (schema : Value) : Prop :=
  ∀ o ∈ schemaObjects structural .schema schema, SortedMap.get o "required" = none

/-- Two or more objects and nothing else but nulls, with a key in common. -/
def SharedKey (vs : List Value) : Prop :=
  minSamplesForRequired ≤ (nonNulls vs).length ∧ (∀ v ∈ nonNulls vs, v.isObject = true) ∧
    ∃ k, ∀ v ∈ nonNulls vs, v.get k ≠ none

private theorem requiredKeys_ne_nil_iff {vs : List Value} (hs : shapeOf vs = .objects) :
    requiredKeys vs ≠ [] ↔ SharedKey vs := by
  have hobj := (shapeOf_eq_objects_iff.mp hs).2
  constructor
  · intro h
    obtain ⟨k, hk⟩ := List.exists_mem_of_ne_nil _ h
    obtain ⟨henough, hall⟩ := mem_requiredKeys_iff.mp hk
    exact ⟨henough, hobj, k, hall⟩
  · rintro ⟨henough, -, k, hall⟩
    exact List.ne_nil_of_mem (mem_requiredKeys_iff.mpr ⟨henough, hall⟩)

/-- Only places of objects have a shared key. -/
theorem SharedKey.shapeOf {vs : List Value} (h : SharedKey vs) : shapeOf vs = .objects := by
  refine shapeOf_eq_objects_iff.mpr ⟨?_, h.2.1⟩
  exact List.length_pos_iff.mp (Nat.lt_of_lt_of_le (by decide) h.1)

private theorem schemaObjects_either_inferSchema (vs : List Value) :
    schemaObjects structural .either (inferSchema vs) =
      schemaObjects structural .schema (inferSchema vs) := by
  rw [inferSchema_eq, Fragment.render, schemaObjects, schemaObjects]

/-- One level: nothing is required here, nor below an opened step. -/
theorem unrequired_place_iff (vs : List Value) :
    Unrequired (inferSchema vs) ↔
      ¬ SharedKey vs ∧ ∀ st, Opens vs st → Unrequired (inferSchema (childValues st vs)) := by
  have hentries : ∀ f : Fragment, SortedMap.get f.entries "required" = none ↔
      f.required = [] := by
    intro f
    change f.render.get "required" = none ↔ _
    rw [Fragment.get_render]
    cases f.required <;> simp
  conv_lhs => rw [Unrequired, inferSchema_eq, Fragment.forall_structural_iff, hentries, fragmentOf]
  cases hs : shapeOf vs with
  | objects =>
    rw [← not_iff_not.mpr (requiredKeys_ne_nil_iff hs), not_not]
    refine and_congr_right fun _ => ?_
    simp only [Option.mem_def, Option.some.injEq, forall_eq', Prod.forall,
      BTreeMap.mem_entries_iff, get_properties_iff hs, reduceCtorEq, false_implies, implies_true,
      and_true]
    constructor
    · intro h st hst
      cases st with
      | key k => exact h k _ ⟨hst, rfl⟩
      | items => simp [Opens, hs] at hst
    · rintro h k _ ⟨hst, rfl⟩
      exact h (.key k) hst
  | arrays =>
    have hshared : ¬ SharedKey vs := fun h => by simp [h.shapeOf] at hs
    simp only [Option.mem_def, Option.some.injEq, forall_eq', reduceCtorEq, false_implies,
      implies_true, true_and, hshared, not_false_eq_true, schemaObjects_either_inferSchema]
    constructor
    · intro h st hst
      cases st with
      | key k => simp [Opens, hs] at hst
      | items => exact h
    · exact fun h => h .items hs
  | _ =>
    have hshared : ¬ SharedKey vs := fun h => by simp [h.shapeOf] at hs
    refine iff_of_true ⟨rfl, by simp, by simp⟩ ⟨hshared, fun st hst => ?_⟩
    cases st <;> simp [Opens, hs] at hst

/-- An inferred schema requires nothing exactly when no observed place has a shared key. -/
theorem unrequired_inferSchema_iff (vs : List Value) :
    Unrequired (inferSchema vs) ↔ ∀ p, Observed vs p → ¬ SharedKey (valuesAt vs p) := by
  induction vs using evidence_induction with
  | h vs ih =>
    rw [unrequired_place_iff, forall_observed_iff (fun vs => ¬ SharedKey vs)]
    exact and_congr_right fun _ => forall_congr' fun st => forall_congr' fun hst => ih st hst

/-- The schema of an exchange by itself requires nothing: a declared one as it stands,
an inferred one because no observed place of its body has a shared key. -/
def UnrequiredAlone (exchange : Exchange) : Prop :=
  match exchange.declaredResponseSchema with
  | some declaration => Unrequired declaration.schema
  | none => ∀ v, exchange.response.body = .json v →
      ∀ p, Observed [v] p → ¬ SharedKey (valuesAt [v] p)

private theorem unrequiredAlone_iff (e : Exchange) :
    UnrequiredAlone e ↔ ∀ schema, (StatusAcc.of [e]).schema = some schema → Unrequired schema := by
  unfold UnrequiredAlone StatusAcc.schema StatusAcc.of firstDeclaration responseBodies
  cases hd : e.declaredResponseSchema with
  | some declaration => simp [hd]
  | none =>
    cases hb : e.response.body <;>
      simp [hd, hb, BodyCapture.json?, unrequired_inferSchema_iff]

/-- No schema of a pair that the notice names carries `required`, at any depth,
exactly when every exchange that is alone at its pair has such a schema. -/
theorem notice_truthful_iff (exchanges : List Exchange) (warnings : List String) :
    (∀ method route status, NoticeNames exchanges warnings method route status →
      ∀ response schema,
        responseAt (buildDocument exchanges warnings).1 route (toAsciiLowercase method.asStr)
          (toString status) = some response →
        contentSchema response = some schema → Unrequired schema) ↔
    ∀ (method : Method) route status e,
      observedWith (operationKey method route) status exchanges = [e] → UnrequiredAlone e := by
  have hresponse : ∀ (method : Method) route status e,
      observedWith (operationKey method route) status exchanges = [e] →
      responseAt (buildDocument exchanges warnings).1 route (toAsciiLowercase method.asStr)
        (toString status) = some (responseObject status (StatusAcc.of [e])) := by
    intro method route status e he
    rw [operationKey] at he
    rw [responseAt_buildDocument, he]
    rfl
  constructor
  · intro h method route status e he
    rw [unrequiredAlone_iff]
    intro schema hschema
    refine h method route status ((noticeNames_iff ..).mpr (by rw [he]; rfl)) _ schema
      (hresponse method route status e he) ?_
    rw [contentSchema_responseObject, hschema]
  · intro h method route status hnamed response schema hget hschema
    obtain ⟨e, he⟩ := List.length_eq_one_iff.mp ((noticeNames_iff ..).mp hnamed)
    rw [hresponse method route status e he] at hget
    obtain rfl := Option.some.inj hget
    rw [contentSchema_responseObject] at hschema
    exact (unrequiredAlone_iff e).mp (h method route status e he) schema hschema

/-- One response whose body is an array of two users. -/
def usersListedOnce : List Exchange :=
  [exchangeWithJsonResponse "/users" .get 200
    (.array [.ofFields [("id", .ofNat 1)], .ofFields [("id", .ofNat 2)]])]

/-- The notice names the only response, yet `id` is required of the array's elements. -/
theorem notice_untruthful :
    ¬ ∀ method route status, NoticeNames usersListedOnce [] method route status →
      ∀ response schema,
        responseAt (buildDocument usersListedOnce []).1 route (toAsciiLowercase method.asStr)
          (toString status) = some response →
        contentSchema response = some schema → Unrequired schema := by
  intro h
  have hobserved : observedWith (operationKey .get "/users") 200 usersListedOnce =
    usersListedOnce := by rfl
  have hunrequired := h .get "/users" 200 ((noticeNames_iff ..).mpr (by rw [hobserved]; rfl))
    _ _ (by
      rw [responseAt_buildDocument]
      exact if_neg (by rw [← operationKey, hobserved]; exact List.cons_ne_nil _ _))
    (by rw [contentSchema_responseObject, ← operationKey, hobserved]; rfl)
  refine (unrequired_inferSchema_iff _).mp hunrequired [.items] (.under ?_ (.here _)) ?_
  · exact shapeOf_eq_arrays_iff.mpr ⟨List.cons_ne_nil _ _, by decide⟩
  · refine ⟨by decide, by decide, "id", ?_⟩
    intro v hv
    have hmem : v ∈ [Value.ofFields [("id", .ofNat 1)], .ofFields [("id", .ofNat 2)]] :=
      (mem_nonNulls.mp hv).1
    rw [List.mem_pair] at hmem
    rcases hmem with rfl | rfl <;> simp [Value.get_ofFields]

/-! ## Completeness -/

/-- The schema of a pair is inferred from objects of which too few are not null. -/
def ThinlyInferred (exchanges : List Exchange) (key : OperationKey) (status : Nat) : Prop :=
  firstDeclaration (observedWith key status exchanges) = none ∧
    shapeOf (responseBodies (observedWith key status exchanges)) = .objects ∧
    (nonNulls (responseBodies (observedWith key status exchanges))).length < minSamplesForRequired

/-- The emitted schema of such a pair is the one inferred from its JSON bodies. -/
theorem ThinlyInferred.responseAt_eq {exchanges : List Exchange} {route method : String}
    {status : Nat} (h : ThinlyInferred exchanges ⟨route, method⟩ status) (warnings : List String) :
    (responseAt (buildDocument exchanges warnings).1 route method (toString status)).bind
        contentSchema =
      some (inferSchema (responseBodies (observedWith ⟨route, method⟩ status exchanges))) := by
  obtain ⟨hdeclared, hshape, -⟩ := h
  have hbodies : responseBodies (observedWith ⟨route, method⟩ status exchanges) ≠ [] := by
    intro hnil
    rw [hnil] at hshape
    cases hshape
  rw [contentSchema_buildDocument, hdeclared, inferredSchema]
  simp [hbodies]

/-- The notice names every pair whose `required` is withheld for lack of objects
exactly when each such pair was observed fewer times than the threshold. -/
theorem notice_complete_iff (exchanges : List Exchange) (warnings : List String) :
    (∀ (method : Method) route status,
      ThinlyInferred exchanges (operationKey method route) status →
      NoticeNames exchanges warnings method route status) ↔
    ∀ (method : Method) route status,
      ThinlyInferred exchanges (operationKey method route) status →
      (observedWith (operationKey method route) status exchanges).length <
        minSamplesForRequired := by
  refine forall_congr' fun method => forall_congr' fun route => forall_congr' fun status =>
    forall_congr' fun hthin => ?_
  have hpos : 0 < (observedWith (operationKey method route) status exchanges).length := by
    rw [List.length_pos_iff]
    intro hnil
    have hshape := hthin.2.1
    rw [hnil] at hshape
    cases hshape
  rw [noticeNames_iff, minSamplesForRequired]
  omega

/-- One user returned as JSON, and one more response without a body. -/
def userAndEmptyBody : List Exchange :=
  [exchangeWithJsonResponse "/users/{id}" .get 200 (.ofFields [("id", .ofNat 1)]),
    { Exchange.new .get "/users/{id}" none with response := { status := some 200 } }]

/-- The empty response lifts the pair above the threshold: `required` is withheld silently. -/
theorem notice_incomplete :
    ¬ ∀ (method : Method) route status,
      ThinlyInferred userAndEmptyBody (operationKey method route) status →
      NoticeNames userAndEmptyBody [] method route status := by
  intro h
  have hobserved : observedWith (operationKey .get "/users/{id}") 200 userAndEmptyBody =
    userAndEmptyBody := by rfl
  have hnamed := h .get "/users/{id}" 200 (by
    rw [ThinlyInferred, hobserved]
    exact ⟨rfl, rfl, by decide⟩)
  rw [noticeNames_iff, hobserved] at hnamed
  exact absurd hnamed (by decide)

end Cyanotype
