import Cyanotype.Core.JsonSchema
import Cyanotype.Document.Reading

/-!
# References of declared schemas

Definitions of all declarations meet in one map of the document, and the first
one recorded under a name stays. A declared schema keeps its meaning when every
name it leads to was first recorded with the definition its own declaration has.
-/

namespace Cyanotype

open JsonSchema (refs Reaches)

/-- Where generated schemas look for named definitions. -/
def definitionsPath : String := "#/components/schemas/"

/-- The `$ref` text of a named definition. -/
def refTo (name : String) : String := definitionsPath ++ name

/-- The name in a `$ref` text. -/
def refName (r : String) : Option String :=
  if definitionsPath.toList.isPrefixOf r.toList then
    some (String.ofList (r.toList.drop definitionsPath.toList.length))
  else none

@[simp] theorem refName_refTo (name : String) : refName (refTo name) = some name := by
  unfold refName refTo
  rw [String.toList_append, if_pos (List.isPrefixOf_iff_prefix.mpr (List.prefix_append _ _)),
    List.drop_left, String.ofList_toList]

/-- A reference is the one to the name that is read off it. -/
theorem eq_refTo_of_refName {r name : String} (h : refName r = some name) : r = refTo name := by
  unfold refName at h
  split_ifs at h with hprefix
  obtain ⟨rest, hrest⟩ := List.isPrefixOf_iff_prefix.mp hprefix
  obtain rfl := Option.some.inj h
  apply String.toList_injective
  rw [refTo, String.toList_append, String.toList_ofList, ← hrest, List.drop_left]

/-- References read in a declaration's own definitions. -/
def Declaration.ref (declaration : Declaration) (r : String) : Option Value :=
  (refName r).bind declaration.definitions.get

/-- References read in a document. -/
def documentRef (doc : Value) (r : String) : Option Value := (refName r).bind (componentSchema doc)

/-- Every name that a declaration refers to has a definition in it. -/
structure Declaration.Closed (declaration : Declaration) : Prop where
  schema : ∀ name, refTo name ∈ refs declaration.schema → declaration.definitions.get name ≠ none
  definitions : ∀ holder definition, declaration.definitions.get holder = some definition →
    ∀ name, refTo name ∈ refs definition → declaration.definitions.get name ≠ none

/-- Everything a closed declaration leads to is defined in it. -/
theorem Declaration.Closed.get_ne_none {d : Declaration} (h : d.Closed) {name : String}
    (hr : Reaches d.ref d.schema (refTo name)) : d.definitions.get name ≠ none := by
  cases hr with
  | here hr => exact h.schema name hr
  | through hr hs hr' =>
    obtain ⟨holder, -, hget⟩ := Option.bind_eq_some_iff.mp hs
    exact h.definitions holder _ hget name hr'

/-- The definition that the first completed exchange defining a name gives to it. -/
def firstDefinition (exchanges : List Exchange) (name : String) : Option Value :=
  (completed exchanges).findSome? fun c =>
    c.1.declaredResponseSchema.bind (·.definitions.get name)

private theorem find?_entries (m : List (String × Value)) (name : String) :
    (m.find? (·.1 = name)).map Prod.snd = SortedMap.get m name := by
  induction m with
  | nil => rfl
  | cons e m ih =>
    obtain ⟨k, v⟩ := e
    by_cases h : k = name
    · subst h
      simp
    · rw [List.find?_cons_of_neg (by simpa using h), ih, SortedMap.get_cons_ne v m (Ne.symm h)]

/-- The definition kept for a name is the one of the first exchange defining it. -/
theorem componentSchemas_get_eq_firstDefinition (exchanges : List Exchange) (name : String) :
    (groupExchanges exchanges).componentSchemas.get name = firstDefinition exchanges name := by
  rw [groupExchanges_componentSchemas_get, definitionEntries, firstDefinition]
  induction completed exchanges with
  | nil => rfl
  | cons c cs ih =>
    rw [List.flatMap_cons, List.find?_append, List.findSome?_cons]
    cases hd : c.1.declaredResponseSchema with
    | none => simpa [hd] using ih
    | some d =>
      have hentries := find?_entries d.definitions.entries name
      rw [BTreeMap.get_entries] at hentries
      simp only [Option.map_some, Option.getD_some, Option.bind_some, ← hentries, ← ih]
      cases d.definitions.entries.find? (·.1 = name) <;> rfl

/-- The document defines a name as the first exchange defining it does. -/
theorem componentSchema_eq_firstDefinition (exchanges : List Exchange) (warnings : List String)
    (name : String) :
    componentSchema (buildDocument exchanges warnings).1 name =
      firstDefinition exchanges name := by
  rw [componentSchema_buildDocument, componentSchemas_get_eq_firstDefinition]

/-- The emitted schema of a pair is the declared one of its first declaration. -/
def Emits (exchanges : List Exchange) (key : OperationKey) (status : Nat)
    (declaration : Declaration) : Prop :=
  firstDeclaration (observedWith key status exchanges) = some declaration

/-- The declaration is one that was recorded, and its schema is the one in the document. -/
theorem Emits.contentSchema_eq {exchanges : List Exchange} {route method : String} {status : Nat}
    {d : Declaration} (h : Emits exchanges ⟨route, method⟩ status d) (warnings : List String) :
    (∃ e ∈ exchanges, e.declaredResponseSchema = some d) ∧
      (responseAt (buildDocument exchanges warnings).1 route method (toString status)).bind
        contentSchema = some d.schema := by
  obtain ⟨e, he, hd⟩ := List.exists_of_findSome?_eq_some h
  refine ⟨⟨e, (mem_observedWith_iff.mp he).1, hd⟩, ?_⟩
  have hfirst : firstDeclaration (observedWith ⟨route, method⟩ status exchanges) = some d := h
  rw [contentSchema_buildDocument, hfirst]
  rfl

/-- The references reachable in the document from every emitted declared schema
resolve to the definitions of its own declaration exactly when every name that
the declaration leads to was first recorded with the declaration's definition. -/
theorem references_keep_meaning_iff (exchanges : List Exchange) (warnings : List String)
    (hclosed : ∀ e ∈ exchanges, ∀ d, e.declaredResponseSchema = some d → d.Closed) :
    (∀ key status d, Emits exchanges key status d → ∀ name,
      Reaches (documentRef (buildDocument exchanges warnings).1) d.schema (refTo name) →
      ∃ definition, d.definitions.get name = some definition ∧
        componentSchema (buildDocument exchanges warnings).1 name = some definition) ↔
    ∀ key status d, Emits exchanges key status d → ∀ name,
      Reaches d.ref d.schema (refTo name) →
      firstDefinition exchanges name = d.definitions.get name := by
  constructor
  · intro h key status d hd name hreach
    have hdoc : Reaches (documentRef (buildDocument exchanges warnings).1) d.schema
        (refTo name) := by
      refine hreach.congr fun r s _ hr hs => ?_
      obtain ⟨n, hn, hget⟩ := Option.bind_eq_some_iff.mp hs
      obtain rfl := eq_refTo_of_refName hn
      obtain ⟨definition, hown, hdoc⟩ := h key status d hd n hr
      rw [documentRef, refName_refTo, Option.bind_some, hdoc, ← hget, hown]
    obtain ⟨definition, hown, hdoc⟩ := h key status d hd name hdoc
    rw [← componentSchema_eq_firstDefinition exchanges warnings, hown, hdoc]
  · intro h key status d hd name hreach
    have hown : Reaches d.ref d.schema (refTo name) := by
      refine hreach.congr fun r s _ hr hs => ?_
      obtain ⟨n, hn, hget⟩ := Option.bind_eq_some_iff.mp hs
      obtain rfl := eq_refTo_of_refName hn
      rw [Declaration.ref, refName_refTo, Option.bind_some, ← h key status d hd n hr,
        ← componentSchema_eq_firstDefinition exchanges warnings, hget]
    obtain ⟨e, he, hde⟩ := List.exists_of_findSome?_eq_some hd
    have hdefined := (hclosed e (mem_observedWith_iff.mp he).1 d hde).get_ne_none hown
    obtain ⟨definition, hget⟩ := Option.ne_none_iff_exists'.mp hdefined
    refine ⟨definition, hget, ?_⟩
    rw [componentSchema_eq_firstDefinition, h key status d hd name hown, hget]

/-- The declaration of a page whose item is of a named type. -/
def pageDeclaration (item : Value) : Declaration where
  schema := .ofFields [("type", .string "object"), ("required", .array [.string "item"]),
    ("properties", .ofFields [("item", .ofFields [("$ref", .string (refTo "Item"))])])]
  definitions := BTreeMap.empty.insert "Item" item

/-- A response declared as a page. -/
def declaredPage (route type : String) : Exchange :=
  { exchangeWithJsonResponse route .get 200 .null with
    declaredResponseSchema := some (pageDeclaration (.ofFields [("type", .string type)])) }

private theorem refs_page (item : Value) :
    refs (pageDeclaration item).schema = [refTo "Item"] := rfl

/-- A page is closed when its item refers to nothing. -/
theorem pageDeclaration_closed {item : Value} (h : refs item = []) :
    (pageDeclaration item).Closed where
  schema := by
    intro name hname
    rw [refs_page, List.mem_singleton] at hname
    obtain rfl := Option.some.inj ((refName_refTo name).symm.trans
      ((congrArg refName hname).trans (refName_refTo "Item")))
    rw [pageDeclaration, BTreeMap.get_insert_self]
    exact Option.some_ne_none _
  definitions := by
    intro holder definition hget name hname
    rw [pageDeclaration, BTreeMap.get_insert] at hget
    split_ifs at hget
    · obtain rfl := Option.some.inj hget
      rw [h] at hname
      exact absurd hname List.not_mem_nil
    · exact absurd hget.symm (Option.some_ne_none _)

private theorem declaredPage_closed {route type : String} {d : Declaration}
    (h : (declaredPage route type).declaredResponseSchema = some d) : d.Closed := by
  obtain rfl := Option.some.inj h
  exact pageDeclaration_closed rfl

private theorem firstDefinition_integerPages (name : String) :
    firstDefinition [declaredPage "/ids" "integer", declaredPage "/pages" "integer"] name =
      (pageDeclaration (.ofFields [("type", .string "integer")])).definitions.get name := by
  unfold firstDefinition completed declaredPage exchangeWithJsonResponse
  cases h : (pageDeclaration (.ofFields [("type", .string "integer")])).definitions.get name <;>
    simp [h]

/-- Two pages of one type at different routes: the second keeps its reference. -/
theorem references_keep_meaning_example : ∃ definition,
    (pageDeclaration (.ofFields [("type", .string "integer")])).definitions.get "Item" =
      some definition ∧
    componentSchema (buildDocument
      [declaredPage "/ids" "integer", declaredPage "/pages" "integer"] []).1 "Item" =
        some definition := by
  refine (references_keep_meaning_iff
    [declaredPage "/ids" "integer", declaredPage "/pages" "integer"] [] ?_).mpr ?_
    ⟨"/pages", "get"⟩ 200 (pageDeclaration (.ofFields [("type", .string "integer")])) rfl "Item"
    (.here (by rw [refs_page]; exact List.mem_singleton_self _))
  · simp only [List.forall_mem_cons, List.not_mem_nil, false_implies, implies_true, and_true]
    exact ⟨fun d hd => declaredPage_closed hd, fun d hd => declaredPage_closed hd⟩
  · intro key status d hd name _
    obtain ⟨e, he, hde⟩ := List.exists_of_findSome?_eq_some hd
    have hmem := (mem_observedWith_iff.mp he).1
    rw [List.mem_pair] at hmem
    rw [firstDefinition_integerPages]
    rcases hmem with rfl | rfl
    · rw [← Option.some.inj hde]
    · rw [← Option.some.inj hde]

/-- A string item declared after an integer item of the same name reads as an integer. -/
theorem references_conflict :
    (∀ e ∈ [declaredPage "/ids" "integer", declaredPage "/names" "string"],
      ∀ d, e.declaredResponseSchema = some d → d.Closed) ∧
    ¬ ∀ key status d,
      Emits [declaredPage "/ids" "integer", declaredPage "/names" "string"] key status d →
      ∀ name, Reaches (documentRef (buildDocument
        [declaredPage "/ids" "integer", declaredPage "/names" "string"] []).1) d.schema
        (refTo name) →
      ∃ definition, d.definitions.get name = some definition ∧
        componentSchema (buildDocument
          [declaredPage "/ids" "integer", declaredPage "/names" "string"] []).1 name =
          some definition := by
  refine ⟨?_, fun h => ?_⟩
  · simp only [List.forall_mem_cons, List.not_mem_nil, false_implies, implies_true, and_true]
    exact ⟨fun d hd => declaredPage_closed hd, fun d hd => declaredPage_closed hd⟩
  · obtain ⟨definition, hown, hdoc⟩ := h ⟨"/names", "get"⟩ 200
      (pageDeclaration (.ofFields [("type", .string "string")])) rfl "Item"
      (.here (by rw [refs_page]; exact List.mem_singleton_self _))
    rw [pageDeclaration, BTreeMap.get_insert_self] at hown
    rw [componentSchema_eq_firstDefinition,
      show firstDefinition [declaredPage "/ids" "integer", declaredPage "/names" "string"]
        "Item" = some (.ofFields [("type", .string "integer")]) from rfl, ← hown] at hdoc
    have htype := congrArg (·.get "type") (Option.some.inj hdoc)
    simp [Value.get_ofFields] at htype

end Cyanotype
