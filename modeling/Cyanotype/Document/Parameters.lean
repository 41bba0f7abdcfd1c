import Cyanotype.Document.Openapi
import Cyanotype.Recorder.Template

/-!
# Path parameters

The document lists a parameter for each segment in braces. These are the captures
of the router where every capture is a whole segment and no literal segment is
in braces itself.
-/

namespace Cyanotype

/-- Braces are stripped from what is in braces. -/
theorem stripBraces_eq_some_iff {segment name : List Char} :
    stripBraces segment = some name ↔ segment = braced name := by
  cases segment with
  | nil => simp [stripBraces, braced]
  | cons c rest =>
    unfold stripBraces braced
    rw [Option.ite_none_right_eq_some, Option.some.injEq, List.cons_append, List.cons.injEq,
      and_assoc]
    refine and_congr_right fun _ => ⟨?_, ?_⟩
    · rintro ⟨hlast, rfl⟩
      exact (List.dropLast_append_getLast? _ hlast).symm
    · rintro rfl
      simp

/-- The parameter for a segment in braces. -/
def pathParameter (name : List Char) : Value :=
  .ofFields [("name", .string (String.ofList name)), ("in", .string "path"),
    ("required", .bool true), ("schema", .ofFields [("type", .string "string")])]

/-- A parameter is called by its name. -/
theorem pathParameter_get_name (name : List Char) :
    (pathParameter name).get "name" = some (.string (String.ofList name)) := by
  rw [pathParameter, Value.get_ofFields (by simp), SortedMap.get_cons_self]

/-- The parameters of a route, from its segments. -/
theorem pathParameters_eq_map (route : String) :
    pathParameters route =
      ((route.toList.splitOn '/').filterMap stripBraces).map pathParameter := rfl

/-- The names that the parameters of a route list. -/
def parameterNames (route : String) : List (Option Value) :=
  (pathParameters route).map (·.get "name")

/-- The names of the parameters of a path are those of its segments in braces. -/
theorem parameterNames_render {segments : List (List Char)} (h : ∀ s ∈ segments, '/' ∉ s) :
    parameterNames (RouteTemplate.render segments) =
      (segments.filterMap stripBraces).map fun name => some (.string (String.ofList name)) := by
  rw [parameterNames, pathParameters_eq_map, RouteTemplate.splitOn_render h, List.map_map]
  exact List.map_congr_left fun name _ => pathParameter_get_name name

section

variable {α β : Type*} {f g : α → Option β} {l : List α}

/-- What one function picks out is picked out by another that agrees with it there, in order. -/
theorem filterMap_sublist (h : ∀ a ∈ l, g a ≠ none → f a = g a) :
    (l.filterMap g).Sublist (l.filterMap f) := by
  induction l with
  | nil => exact List.Sublist.slnil
  | cons a l ih =>
    rw [List.forall_mem_cons] at h
    have hrest := ih h.2
    cases hg : g a with
    | none =>
      rw [List.filterMap_cons_none hg]
      cases hf : f a with
      | none => rwa [List.filterMap_cons_none hf]
      | some b => simpa [List.filterMap_cons_some hf] using hrest.cons b
    | some b =>
      have hf : f a = some b := (h.1 (by simp [hg])).trans hg
      rw [List.filterMap_cons_some hg, List.filterMap_cons_some hf]
      exact hrest.cons_cons b

/-- A reading that finds all that another one finds finds the same things in total
only when it finds nothing else. -/
theorem filterMap_eq_filterMap_iff (h : ∀ a ∈ l, g a ≠ none → f a = g a) :
    l.filterMap f = l.filterMap g ↔ ∀ a ∈ l, f a = g a := by
  refine ⟨fun heq => ?_, List.filterMap_congr⟩
  induction l with
  | nil => simp
  | cons a l ih =>
    rw [List.forall_mem_cons] at h ⊢
    have hlength := (filterMap_sublist h.2).length_le
    cases hg : g a with
    | none =>
      rw [List.filterMap_cons_none hg] at heq
      cases hf : f a with
      | none =>
        rw [List.filterMap_cons_none hf] at heq
        exact ⟨rfl, ih h.2 heq⟩
      | some b =>
        rw [List.filterMap_cons_some hf] at heq
        have hlonger := congrArg List.length heq
        rw [List.length_cons] at hlonger
        omega
    | some b =>
      have hf : f a = some b := (h.1 (by simp [hg])).trans hg
      rw [List.filterMap_cons_some hg, List.filterMap_cons_some hf] at heq
      exact ⟨hf, ih h.2 (List.cons.inj heq).2⟩

end

/-- The names in braces among the segments of a template as documents show it. -/
theorem filterMap_stripBraces_shown (t : RouteTemplate) :
    (t.segments.map Segment.shown ++ t.wildcard.toList.map braced).filterMap stripBraces =
      t.segments.filterMap (fun s => stripBraces s.shown) ++ t.wildcard.toList := by
  have hbraced : stripBraces ∘ braced = some := funext fun name => stripBraces_eq_some_iff.mpr rfl
  rw [List.filterMap_append, List.filterMap_map, List.filterMap_map, hbraced, List.filterMap_some]
  rfl

/-- Of whole-segment captures, the segments in braces are the captures exactly when no
literal is in braces. -/
theorem stripBraces_shown_iff {t : RouteTemplate} (hwhole : t.WholeSegments) :
    t.segments.filterMap (fun s => stripBraces s.shown) = t.segments.filterMap (·.capture) ↔
      t.NoBraces := by
  have hcaptured : ∀ s ∈ t.segments, s.capture ≠ none → stripBraces s.shown = s.capture := by
    intro s hs hcapture
    obtain ⟨name, hname⟩ := Option.ne_none_iff_exists'.mp hcapture
    rw [hname, stripBraces_eq_some_iff, Segment.shown, hwhole s hs hcapture, hname]
    rfl
  rw [filterMap_eq_filterMap_iff hcaptured]
  refine forall₂_congr fun s hs => ?_
  by_cases hcapture : s.capture = none
  · have hshown : s.shown = s.literal := by simp [Segment.shown, hcapture]
    rw [hcapture, hshown, Option.eq_none_iff_forall_ne_some]
    simp only [ne_eq, stripBraces_eq_some_iff, true_implies]
  · exact iff_of_true (hcaptured s hs hcapture) fun h => absurd h hcapture

/-- A route is shown with its captures in braces and lists them as its parameters
exactly when every capture is a whole segment and no literal segment is in braces. -/
theorem parameters_are_captures_iff (t : RouteTemplate) :
    (toOpenapiTemplate t.text = t.shown ∧ parameterNames (toOpenapiTemplate t.text) =
      t.captures.map fun name => some (.string (String.ofList name))) ↔
    t.WholeSegments ∧ t.NoBraces := by
  rw [t.toOpenapiTemplate_text_iff]
  refine and_congr_right fun hwhole => ?_
  have hinjective : Function.Injective fun name => some (Value.string (String.ofList name)) :=
    fun a b h => String.ofList_injective (Value.string.inj (Option.some.inj h))
  rw [t.toOpenapiTemplate_text_iff.mpr hwhole, RouteTemplate.shown,
    parameterNames_render t.shown_not_slash, List.map_inj_right fun _ _ h => hinjective h,
    filterMap_stripBraces_shown, RouteTemplate.captures, List.append_cancel_right_eq,
    stripBraces_shown_iff hwhole]

/-- The route `/user_:name`. -/
def prefixedCapture : RouteTemplate where
  segments := [⟨"user_".toList, some "name".toList, by decide, by rintro _ ⟨⟩; decide⟩]
  wildcard := none
  nonempty := .inl (List.cons_ne_nil _ _)
  plain_wildcard := by rintro _ ⟨⟩

/-- The route `/{id}`, which captures nothing. -/
def bracedLiteral : RouteTemplate where
  segments := [⟨"{id}".toList, none, by decide, by rintro _ ⟨⟩⟩]
  wildcard := none
  nonempty := .inl (List.cons_ne_nil _ _)
  plain_wildcard := by rintro _ ⟨⟩

/-- A capture after a literal prefix is not shown, and a literal in braces is listed. -/
theorem parameters_are_not_captures :
    (prefixedCapture.text = "/user_:name" ∧
      toOpenapiTemplate prefixedCapture.text = "/user_:name" ∧
      prefixedCapture.shown = "/user_{name}") ∧
    ¬ (toOpenapiTemplate prefixedCapture.text = prefixedCapture.shown ∧
      parameterNames (toOpenapiTemplate prefixedCapture.text) =
        prefixedCapture.captures.map fun name => some (.string (String.ofList name))) ∧
    ¬ (toOpenapiTemplate bracedLiteral.text = bracedLiteral.shown ∧
      parameterNames (toOpenapiTemplate bracedLiteral.text) =
        bracedLiteral.captures.map fun name => some (.string (String.ofList name))) := by
  refine ⟨by decide, fun h => absurd h.1 (by decide), fun h => ?_⟩
  have hlength := congrArg List.length h.2
  revert hlength
  decide

end Cyanotype
