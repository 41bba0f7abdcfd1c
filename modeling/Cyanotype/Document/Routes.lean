import Cyanotype.Document.Paths
import Cyanotype.Document.Structure

/-!
# Paths as templates

OpenAPI reads names in braces out of a path, wherever they stand. A path that comes from a
route whose texts have no braces has its expressions where its parameters are, in whole
segments.
-/

namespace Cyanotype

/-- A text without braces. -/
def BraceFree (text : List Char) : Prop := '{' ∉ text ∧ '}' ∉ text

/-- A path that begins with a slash, whose segments in braces name expressions, each once. -/
structure WellTemplated (route : String) : Prop where
  slash : ['/'] <+: route.toList
  names : ∀ name, braced name ∈ route.toList.splitOn '/' → BraceFree name
  distinct : ((route.toList.splitOn '/').filterMap stripBraces).Nodup

/-- A route whose texts have no braces and that captures no name twice. -/
structure RouteTemplate.Clean (t : RouteTemplate) : Prop where
  parts : ∀ p ∈ t.parts, BraceFree p.1 ∧ ∀ name, p.2 = some name → BraceFree name
  distinct : t.captures.Nodup

/-! ## Expressions -/

/-- A segment that is a name in braces, or has no brace that opens. -/
def PathSegment (segment : List Char) : Prop :=
  '{' ∉ segment ∨ ∃ name, BraceFree name ∧ segment = braced name

/-- A name in braces that begins in such a segment is the segment. -/
theorem expression_in_segment_or_rest {name segment rest : List Char} (hname : '}' ∉ name)
    (hsegment : PathSegment segment) (h : braced name <:+: segment ++ rest) :
    braced name = segment ∨ braced name <:+: rest := by
  obtain ⟨before, after, heq⟩ := h
  rw [List.append_assoc, List.append_eq_append_iff] at heq
  rcases heq with ⟨within, hwithin, hafter⟩ | ⟨beyond, -, hrest⟩
  · cases within with
    | nil => exact .inr (hafter ▸ List.prefix_append (braced name) after).isInfix
    | cons c within =>
      obtain ⟨rfl, htext⟩ := List.cons.inj hafter
      have hopening : '{' ∈ segment := hwithin ▸ List.mem_append_right _ List.mem_cons_self
      obtain ⟨name', hfree, rfl⟩ := hsegment.resolve_left fun hnot => hnot hopening
      refine .inl (congrArg braced ?_)
      cases before with
      | nil =>
        have htail : name' ++ ['}'] = within := (List.cons.inj hwithin).2
        have hclosed : name ++ '}' :: after = name' ++ '}' :: rest := by
          have hsame : name ++ ['}'] ++ after = within ++ rest := htext
          simpa [← htail] using hsame
        exact (eq_of_append_cons hname hfree.2 hclosed).1
      | cons d before =>
        -- A second brace would open inside the name.
        have htail : name' ++ ['}'] = before ++ '{' :: within := (List.cons.inj hwithin).2
        have hinside : '{' ∈ name' ++ ['}'] :=
          htail ▸ List.mem_append_right _ List.mem_cons_self
        exact absurd hinside (by simpa using hfree.1)
  · refine .inr ⟨beyond, after, ?_⟩
    rw [hrest, List.append_assoc]

/-- In a route of such segments every expression is a whole segment. -/
theorem mem_segments_of_expression {name : List Char} (hname : '}' ∉ name)
    {segments : List (List Char)} (hsegments : ∀ s ∈ segments, PathSegment s)
    (h : braced name <:+: segments.flatMap ('/' :: ·)) : braced name ∈ segments := by
  induction segments with
  | nil => simp [braced] at h
  | cons segment segments ih =>
    obtain ⟨hsegment, hsegments⟩ := List.forall_mem_cons.mp hsegments
    rw [List.flatMap_cons, List.cons_append, List.infix_cons_iff] at h
    rcases h with hstart | hwithin
    · simp [braced] at hstart
    · rcases expression_in_segment_or_rest hname hsegment hwithin with rfl | hrest
      · exact List.mem_cons_self
      · exact List.mem_cons_of_mem _ (ih hsegments hrest)

/-- In a route of this form the expressions are the segments in braces. -/
theorem WellTemplated.hasExpression_iff {route : String} (h : WellTemplated route)
    (hexpressions : ∀ name, HasExpression route name →
      braced name ∈ route.toList.splitOn '/') (name : List Char) :
    HasExpression route name ↔ braced name ∈ route.toList.splitOn '/' := by
  refine ⟨hexpressions name, fun hsegment => ?_⟩
  obtain ⟨hopening, hclosing⟩ := h.names name hsegment
  refine ⟨hopening, hclosing, ?_⟩
  have hwithin : _ <:+: ['/'].intercalate _ := infix_intercalate hsegment
  rwa [List.intercalate_splitOn] at hwithin

/-! ## Templates -/

/-- The name of a segment that is a capture only. -/
def wholeCapture (parts : List Char × Option (List Char)) : Option (List Char) :=
  if parts.1 = [] then parts.2 else none

namespace RouteTemplate

variable {t : RouteTemplate}

/-- The captured names of the parts are the captures of the route. -/
theorem filterMap_parts_captures (t : RouteTemplate) : t.parts.filterMap Prod.snd = t.captures := by
  rw [parts, captures, List.filterMap_append, List.filterMap_map, List.filterMap_map]
  congr 1
  exact List.filterMap_some

/-- What is shown of a part without braces is in braces exactly if it is a capture only. -/
theorem Clean.stripBraces_showParts (h : t.Clean) {p : List Char × Option (List Char)}
    (hp : p ∈ t.parts) : stripBraces (showParts p) = wholeCapture p := by
  have hnone : ∀ c text, c ≠ '{' → stripBraces (c :: text) = none := by
    intro c text hc
    rw [stripBraces, if_neg fun h => hc h.1]
  obtain ⟨hliteral, -⟩ := h.parts p hp
  obtain ⟨literal, capture⟩ := p
  cases literal with
  | nil =>
    cases capture with
    | none => rfl
    | some name => exact stripBraces_eq_some_iff.mpr rfl
  | cons c literal =>
    have hc : c ≠ '{' := fun hc => hliteral.1 (hc ▸ List.mem_cons_self)
    cases capture <;> exact hnone _ _ hc

/-- What is shown of a part without braces is a segment of a path. -/
theorem Clean.pathSegment_showParts (h : t.Clean) {p : List Char × Option (List Char)}
    (hp : p ∈ t.parts) : PathSegment (showParts p) := by
  obtain ⟨hliteral, hcapture⟩ := h.parts p hp
  obtain ⟨literal, capture⟩ := p
  cases capture with
  | none => exact .inl hliteral.1
  | some name =>
    cases literal with
    | nil => exact .inr ⟨name, hcapture name rfl, rfl⟩
    | cons c literal =>
      refine .inl ?_
      have hname := (hcapture name rfl).1
      simp only [showParts, List.mem_append, List.mem_cons, not_or]
      exact ⟨by simpa using hliteral.1, by decide, hname⟩

/-- A route whose texts have no braces has no segment in braces. -/
theorem Clean.noBraces (h : t.Clean) : t.NoBraces := by
  intro s hs _ name hname
  have hmem : s.parts ∈ t.parts := List.mem_append_left _ (List.mem_map.mpr ⟨s, hs, rfl⟩)
  refine (h.parts _ hmem).1.1 ?_
  rw [show s.parts.1 = braced name from hname]
  exact List.mem_cons_self

/-- The segments of a path are those shown of the parts. -/
theorem Clean.splitOn_toOpenapiTemplate (h : t.Clean) :
    (toOpenapiTemplate t.text).toList.splitOn '/' = [] :: t.parts.map showParts := by
  have hplain := plainParts_of_noBraces h.noBraces
  rw [toOpenapiTemplate_eq_render]
  exact splitOn_render (List.forall_mem_map.mpr fun p hp => showParts_not_slash (hplain p hp))

/-- The path of such a route begins with a slash, and its parameters are captures. -/
theorem Clean.wellTemplated (h : t.Clean) : WellTemplated (toOpenapiTemplate t.text) where
  slash := by
    rw [toOpenapiTemplate_eq_render, render, String.toList_ofList]
    cases hparts : t.parts with
    | nil =>
      obtain ⟨hsegments, hwildcard⟩ := List.append_eq_nil_iff.mp hparts
      rcases t.nonempty with hne | hne
      · exact absurd (List.map_eq_nil_iff.mp hsegments) hne
      · exact absurd (Option.toList_eq_nil_iff.mp (List.map_eq_nil_iff.mp hwildcard)) hne
    | cons p parts =>
      rw [List.map_cons, List.flatMap_cons, List.cons_append]
      exact List.prefix_append ['/'] _
  names := fun name hname => by
    rw [h.splitOn_toOpenapiTemplate] at hname
    rcases List.mem_cons.mp hname with hnil | hmem
    · cases hnil
    · obtain ⟨p, hp, hshown⟩ := List.mem_map.mp hmem
      rcases h.pathSegment_showParts hp with hnot | ⟨name', hfree, heq⟩
      · exact absurd (hshown ▸ List.mem_cons_self) hnot
      · rwa [braced_injective (hshown.symm.trans heq)]
  distinct := by
    rw [h.splitOn_toOpenapiTemplate, List.filterMap_cons_none (by rfl), List.filterMap_map]
    have hwhole : t.parts.filterMap (stripBraces ∘ showParts) = t.parts.filterMap wholeCapture :=
      List.filterMap_congr fun p hp => h.stripBraces_showParts hp
    rw [hwhole]
    refine List.Nodup.sublist (filterMap_sublist (f := Prod.snd) fun p _ hp => ?_)
      (t.filterMap_parts_captures ▸ h.distinct)
    unfold wholeCapture at hp ⊢
    split_ifs at hp ⊢ with hempty
    · rfl
    · exact absurd rfl hp

/-- The expressions of a path are whole segments. -/
theorem Clean.expressions (h : t.Clean) {name : List Char}
    (hname : HasExpression (toOpenapiTemplate t.text) name) :
    braced name ∈ (toOpenapiTemplate t.text).toList.splitOn '/' := by
  obtain ⟨-, hclosing, hwithin⟩ := hname
  rw [h.splitOn_toOpenapiTemplate]
  rw [toOpenapiTemplate_eq_render, render, String.toList_ofList] at hwithin
  refine List.mem_cons_of_mem _ (mem_segments_of_expression hclosing ?_ hwithin)
  exact List.forall_mem_map.mpr fun p hp => h.pathSegment_showParts hp

/-- What was answered under such a route can be documented if its method and status can. -/
theorem Clean.documentable (h : t.Clean) {e : Exchange} {status : Nat}
    (hroute : e.routeTemplate = toOpenapiTemplate t.text)
    (hmethod : toAsciiLowercase e.method.asStr ∈ operationFields)
    (hrange : 100 ≤ status ∧ status ≤ 599) :
    Documentable e status ∧ WellTemplated e.routeTemplate := by
  refine ⟨⟨hmethod, hrange, fun name hname => ?_⟩, hroute ▸ h.wellTemplated⟩
  rw [hroute] at hname ⊢
  exact h.expressions hname

end RouteTemplate

end Cyanotype
