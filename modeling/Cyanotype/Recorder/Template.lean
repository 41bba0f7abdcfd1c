import Cyanotype.Recorder.Layer

/-!
# Route templates

The router reports routes in its own syntax, `:id` and `*rest`; documents write
`{id}`. The conversion looks at the start of each segment. The router's grammar,
in which a capture may also follow a literal text, is stated beside it.
-/

namespace Cyanotype

/-- One segment in OpenAPI syntax. -/
def toOpenapiSegment : List Char → List Char
  | ':' :: name => '{' :: name ++ ['}']
  | '*' :: name => '{' :: name ++ ['}']
  | segment => segment

/-- `to_openapi_template`. -/
def toOpenapiTemplate (matched : String) : String :=
  String.ofList (['/'].intercalate ((matched.toList.splitOn '/').map toOpenapiSegment))

example : toOpenapiTemplate "/users/:id" = "/users/{id}" := by decide

example : toOpenapiTemplate "/files/*path" = "/files/{path}" := by decide

/-! ## The router's grammar -/

/-- A text without the characters that structure a template. -/
def IsPlain (text : List Char) : Prop := ∀ c ∈ text, c ≠ '/' ∧ c ≠ ':' ∧ c ≠ '*'

instance : DecidablePred IsPlain := fun text => List.decidableBAll _ text

/-- A literal text, with a capture that runs to the end of the segment if there is one. -/
structure Segment where
  literal : List Char
  capture : Option (List Char)
  plain_literal : IsPlain literal
  plain_capture : ∀ name, capture = some name → IsPlain name ∧ name ≠ []

/-- A route: segments, each after a `/`, and a wildcard in the place of the last one
if there is one. -/
structure RouteTemplate where
  segments : List Segment
  wildcard : Option (List Char)
  nonempty : segments ≠ [] ∨ wildcard ≠ none
  plain_wildcard : ∀ name, wildcard = some name → IsPlain name ∧ name ≠ []

/-- A name in braces. -/
def braced (name : List Char) : List Char := '{' :: name ++ ['}']

namespace Segment

/-- The segment as the router writes it. -/
def text (s : Segment) : List Char :=
  s.literal ++ (s.capture.map fun name => ':' :: name).getD []

/-- The segment with its capture in braces. -/
def shown (s : Segment) : List Char := s.literal ++ (s.capture.map braced).getD []

end Segment

namespace RouteTemplate

/-- A template of some segments. -/
def render (segments : List (List Char)) : String := String.ofList (segments.flatMap ('/' :: ·))

/-- The template as the router writes it. -/
def text (t : RouteTemplate) : String :=
  render (t.segments.map Segment.text ++ t.wildcard.toList.map ('*' :: ·))

/-- The template with every capture in braces and all other text unchanged. -/
def shown (t : RouteTemplate) : String :=
  render (t.segments.map Segment.shown ++ t.wildcard.toList.map braced)

/-- The names that the router captures, in order. -/
def captures (t : RouteTemplate) : List (List Char) :=
  t.segments.filterMap (·.capture) ++ t.wildcard.toList

/-- Every capture is a whole segment. -/
def WholeSegments (t : RouteTemplate) : Prop :=
  ∀ s ∈ t.segments, s.capture ≠ none → s.literal = []

/-- No literal segment looks like a parameter. -/
def NoBraces (t : RouteTemplate) : Prop :=
  ∀ s ∈ t.segments, s.capture = none → ∀ name, s.literal ≠ braced name

end RouteTemplate

/-! ## Splitting and joining -/

theorem IsPlain.not_slash {text : List Char} (h : IsPlain text) : '/' ∉ text :=
  fun hmem => (h _ hmem).1 rfl

theorem braced_not_slash {name : List Char} (h : IsPlain name) : '/' ∉ braced name := by
  simp [braced, h.not_slash]

namespace Segment

/-- A segment of a route has no slash. -/
theorem text_not_slash (s : Segment) : '/' ∉ s.text := by
  have hliteral := s.plain_literal.not_slash
  cases hc : s.capture with
  | none => simpa [text, hc] using hliteral
  | some name => simp [text, hc, hliteral, (s.plain_capture name hc).1.not_slash]

/-- What is shown of a segment has no slash. -/
theorem shown_not_slash (s : Segment) : '/' ∉ s.shown := by
  have hliteral := s.plain_literal.not_slash
  cases hc : s.capture with
  | none => simpa [shown, hc] using hliteral
  | some name => simp [shown, hc, hliteral, braced_not_slash (s.plain_capture name hc).1]

end Segment

/-- The conversion of a segment adds no slash. -/
theorem toOpenapiSegment_not_slash {segment : List Char} (h : '/' ∉ segment) :
    '/' ∉ toOpenapiSegment segment := by
  unfold toOpenapiSegment
  split
  · simpa using h
  · simpa using h
  · exact h

/-- A plain text is not converted. -/
theorem toOpenapiSegment_of_plain {text : List Char} (h : IsPlain text) (rest : List Char)
    (hne : text ≠ []) : toOpenapiSegment (text ++ rest) = text ++ rest := by
  cases text with
  | nil => exact absurd rfl hne
  | cons c text =>
    obtain ⟨-, hcolon, hstar⟩ := h c List.mem_cons_self
    unfold toOpenapiSegment
    split
    · next heq => exact absurd (List.cons.inj heq).1 hcolon
    · next heq => exact absurd (List.cons.inj heq).1 hstar
    · rfl

/-- A segment is converted as shown exactly when a capture is all there is of it. -/
theorem toOpenapiSegment_text_iff (s : Segment) :
    toOpenapiSegment s.text = s.shown ↔ (s.capture ≠ none → s.literal = []) := by
  by_cases hliteral : s.literal = []
  · refine iff_of_true ?_ fun _ => hliteral
    cases hc : s.capture with
    | none => simp [Segment.text, Segment.shown, hc, hliteral, toOpenapiSegment]
    | some name => simp [Segment.text, Segment.shown, hc, hliteral, toOpenapiSegment, braced]
  · rw [Segment.text, toOpenapiSegment_of_plain s.plain_literal _ hliteral, Segment.shown,
      List.append_cancel_left_eq]
    cases hc : s.capture with
    | none => simp
    | some name => simp [hliteral, braced]

namespace RouteTemplate

private theorem intercalate_cons (s : List Char) (segments : List (List Char)) :
    ['/'].intercalate (s :: segments) = s ++ segments.flatMap ('/' :: ·) := by
  induction segments generalizing s with
  | nil => simp [List.intercalate_singleton]
  | cons s' segments ih =>
    rw [List.intercalate_cons_cons, ih]
    simp

/-- A rendered template splits into its segments. -/
theorem splitOn_render {segments : List (List Char)} (h : ∀ s ∈ segments, '/' ∉ s) :
    (render segments).toList.splitOn '/' = [] :: segments := by
  have hjoin : segments.flatMap ('/' :: ·) = ['/'].intercalate ([] :: segments) := by
    rw [intercalate_cons, List.nil_append]
  rw [render, String.toList_ofList, hjoin]
  refine List.splitOn_intercalate '/' ?_ (List.cons_ne_nil _ _)
  rw [List.forall_mem_cons]
  exact ⟨List.not_mem_nil, h⟩

/-- Segments without slashes are read back out of a path. -/
theorem render_injective {segments segments' : List (List Char)} (h : ∀ s ∈ segments, '/' ∉ s)
    (h' : ∀ s ∈ segments', '/' ∉ s) (heq : render segments = render segments') :
    segments = segments' := by
  have hsplit := splitOn_render h
  rw [heq, splitOn_render h'] at hsplit
  exact (List.cons.inj hsplit).2.symm

/-- The conversion works segment by segment. -/
theorem toOpenapiTemplate_render {segments : List (List Char)} (h : ∀ s ∈ segments, '/' ∉ s) :
    toOpenapiTemplate (render segments) = render (segments.map toOpenapiSegment) := by
  rw [toOpenapiTemplate, splitOn_render h, List.map_cons, intercalate_cons]
  rfl

/-- The segments of a template, each written in a way that keeps slashes out. -/
theorem segments_not_slash (t : RouteTemplate) {write : Segment → List Char}
    {wild : List Char → List Char} (hwrite : ∀ s, '/' ∉ write s)
    (hwild : ∀ name, IsPlain name → '/' ∉ wild name) :
    ∀ segment ∈ t.segments.map write ++ t.wildcard.toList.map wild, '/' ∉ segment := by
  intro segment hmem
  rcases List.mem_append.mp hmem with hmem | hmem
  · obtain ⟨s, -, rfl⟩ := List.mem_map.mp hmem
    exact hwrite s
  · obtain ⟨name, hname, rfl⟩ := List.mem_map.mp hmem
    exact hwild name (t.plain_wildcard name (Option.mem_toList.mp hname)).1

/-- No segment of a route has a slash, the wildcard included. -/
theorem text_not_slash (t : RouteTemplate) :
    ∀ segment ∈ t.segments.map Segment.text ++ t.wildcard.toList.map ('*' :: ·),
      '/' ∉ segment :=
  t.segments_not_slash Segment.text_not_slash fun name h => by simp [h.not_slash]

/-- Nor has what is shown of it. -/
theorem shown_not_slash (t : RouteTemplate) :
    ∀ segment ∈ t.segments.map Segment.shown ++ t.wildcard.toList.map braced, '/' ∉ segment :=
  t.segments_not_slash Segment.shown_not_slash fun _ h => braced_not_slash h

/-- A template is converted as shown exactly when every capture is a whole segment. -/
theorem toOpenapiTemplate_text_iff (t : RouteTemplate) :
    toOpenapiTemplate t.text = t.shown ↔ t.WholeSegments := by
  have hwild : (t.wildcard.toList.map ('*' :: ·)).map toOpenapiSegment =
      t.wildcard.toList.map braced := by
    rw [List.map_map]
    rfl
  have hsegments : (t.segments.map Segment.text).map toOpenapiSegment =
      t.segments.map Segment.shown ↔ t.WholeSegments := by
    rw [List.map_map, List.map_inj_left]
    exact forall₂_congr fun s _ => toOpenapiSegment_text_iff s
  rw [text, toOpenapiTemplate_render t.text_not_slash, List.map_append, hwild, ← hsegments, shown]
  refine ⟨fun h => ?_, fun h => by rw [h]⟩
  refine List.append_cancel_right (render_injective ?_ t.shown_not_slash h)
  rw [List.map_map]
  exact t.segments_not_slash (fun s => toOpenapiSegment_not_slash s.text_not_slash)
    fun _ h => braced_not_slash h

end RouteTemplate

end Cyanotype
