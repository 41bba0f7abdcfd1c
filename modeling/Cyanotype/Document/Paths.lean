import Cyanotype.Core.Text
import Cyanotype.Document.Parameters

/-!
# Paths of documents

Exchanges are grouped under the converted template of their route. The conversion forgets
whether a capture is a wildcard, and nothing else, unless a literal segment is written in
braces: routes of different parts have different paths.
-/

namespace Cyanotype

/-- The literal text and the capture of a segment. -/
def Segment.parts (s : Segment) : List Char × Option (List Char) := (s.literal, s.capture)

/-- The parts of a route; a wildcard is a capture like the others. -/
def RouteTemplate.parts (t : RouteTemplate) : List (List Char × Option (List Char)) :=
  t.segments.map Segment.parts ++ t.wildcard.toList.map fun name => ([], some name)

/-- A segment as documents show it, from its parts. -/
def showParts (parts : List Char × Option (List Char)) : List Char :=
  match parts with
  | (literal, none) => literal
  | ([], some name) => braced name
  | (literal, some name) => literal ++ ':' :: name

/-- Parts of a segment that the router reads, not in braces if they are literal. -/
structure PlainParts (parts : List Char × Option (List Char)) : Prop where
  literal : IsPlain parts.1
  capture : ∀ name, parts.2 = some name → IsPlain name
  braces : parts.2 = none → ∀ name, parts.1 ≠ braced name

theorem IsPlain.not_colon {text : List Char} (h : IsPlain text) : ':' ∉ text :=
  fun hmem => (h _ hmem).2.1 rfl

/-- A name is read back out of its braces. -/
theorem braced_injective : Function.Injective braced := by
  intro a b h
  exact List.append_cancel_right (List.cons.inj h).2

theorem braced_not_colon {name : List Char} (h : IsPlain name) : ':' ∉ braced name := by
  simp [braced, h.not_colon]

/-- A capture after a literal text shows a colon, and other segments do not. -/
theorem colon_mem_showParts_iff {p : List Char × Option (List Char)} (hp : PlainParts p) :
    ':' ∈ showParts p ↔ p.1 ≠ [] ∧ p.2 ≠ none := by
  obtain ⟨literal, capture⟩ := p
  have hliteral := hp.literal.not_colon
  cases capture with
  | none => simpa [showParts] using hliteral
  | some name =>
    cases literal with
    | nil => simpa [showParts] using braced_not_colon (hp.capture name rfl)
    | cons c literal => simp [showParts]

/-- What is shown of a segment tells its parts. -/
theorem showParts_inj {p q : List Char × Option (List Char)} (hp : PlainParts p)
    (hq : PlainParts q) (h : showParts p = showParts q) : p = q := by
  have hcolon : (p.1 ≠ [] ∧ p.2 ≠ none) ↔ (q.1 ≠ [] ∧ q.2 ≠ none) := by
    rw [← colon_mem_showParts_iff hp, ← colon_mem_showParts_iff hq, h]
  obtain ⟨literal, capture⟩ := p
  obtain ⟨literal', capture'⟩ := q
  have hnot := hp.literal.not_colon
  have hnot' := hq.literal.not_colon
  cases capture with
  | none =>
    cases capture' with
    | none => exact congrArg (·, none) h
    | some name' =>
      obtain rfl : literal' = [] := by simpa using hcolon
      exact absurd h (hp.braces rfl name')
  | some name =>
    cases capture' with
    | none =>
      obtain rfl : literal = [] := by simpa using hcolon
      exact absurd h.symm (hq.braces rfl name)
    | some name' =>
      cases literal with
      | nil =>
        obtain rfl : literal' = [] := by simpa using hcolon
        rw [braced_injective h]
      | cons c literal =>
        cases literal' with
        | nil => simp at hcolon
        | cons c' literal' =>
          obtain ⟨hliteral, rfl⟩ := eq_of_append_cons hnot hnot' h
          exact congrArg (·, some name) hliteral

/-- What is shown of all segments tells their parts. -/
theorem map_showParts_inj {ps qs : List (List Char × Option (List Char))}
    (hps : ∀ p ∈ ps, PlainParts p) (hqs : ∀ q ∈ qs, PlainParts q)
    (h : ps.map showParts = qs.map showParts) : ps = qs := by
  induction ps generalizing qs with
  | nil => exact (List.map_eq_nil_iff.mp h.symm).symm
  | cons p ps ih =>
    cases qs with
    | nil => cases h
    | cons q qs =>
      obtain ⟨hp, hps⟩ := List.forall_mem_cons.mp hps
      obtain ⟨hq, hqs⟩ := List.forall_mem_cons.mp hqs
      obtain ⟨hhead, htail⟩ := List.cons.inj h
      rw [showParts_inj hp hq hhead, ih hps hqs htail]

/-! ## Routes -/

namespace RouteTemplate

/-- The parts of a route without braces are plain. -/
theorem plainParts_of_noBraces {t : RouteTemplate} (h : t.NoBraces) :
    ∀ p ∈ t.parts, PlainParts p := by
  intro p hp
  rcases List.mem_append.mp hp with hmem | hmem
  · obtain ⟨s, hs, rfl⟩ := List.mem_map.mp hmem
    exact ⟨s.plain_literal, fun name hname => (s.plain_capture name hname).1, h s hs⟩
  · obtain ⟨name, hname, rfl⟩ := List.mem_map.mp hmem
    have hplain := (t.plain_wildcard name (Option.mem_toList.mp hname)).1
    refine ⟨nofun, ?_, nofun⟩
    rintro _ ⟨⟩
    exact hplain

/-- The conversion shows the parts of the route. -/
theorem toOpenapiTemplate_eq_render (t : RouteTemplate) :
    toOpenapiTemplate t.text = render (t.parts.map showParts) := by
  have hsegment : ∀ s : Segment, toOpenapiSegment s.text = showParts s.parts := by
    intro s
    by_cases hliteral : s.literal = []
    · rw [(toOpenapiSegment_text_iff s).mpr fun _ => hliteral]
      cases hc : s.capture <;> simp [Segment.shown, Segment.parts, showParts, hliteral, hc]
    · rw [Segment.text, toOpenapiSegment_of_plain s.plain_literal _ hliteral]
      cases hc : s.capture <;> cases hl : s.literal <;>
        simp_all [Segment.parts, showParts]
  rw [text, toOpenapiTemplate_render t.text_not_slash, parts]
  simp only [List.map_append, List.map_map]
  congr 1
  congr 1
  · exact List.map_congr_left fun s _ => hsegment s

/-- The parts have no slash. -/
theorem showParts_not_slash {p : List Char × Option (List Char)} (hp : PlainParts p) :
    '/' ∉ showParts p := by
  obtain ⟨literal, capture⟩ := p
  have hliteral := hp.literal.not_slash
  cases capture with
  | none => simpa [showParts] using hliteral
  | some name =>
    have hname := hp.capture name rfl
    cases literal with
    | nil => simpa [showParts] using braced_not_slash hname
    | cons c literal => simpa [showParts, hname.not_slash] using hliteral

/-- Routes without literal segments in braces have one path exactly when they have the same
parts: the same literal texts and captures of the same names, wildcard or not. -/
theorem same_path_iff {t t' : RouteTemplate} (h : t.NoBraces) (h' : t'.NoBraces) :
    toOpenapiTemplate t.text = toOpenapiTemplate t'.text ↔ t.parts = t'.parts := by
  have hplain := plainParts_of_noBraces h
  have hplain' := plainParts_of_noBraces h'
  rw [toOpenapiTemplate_eq_render, toOpenapiTemplate_eq_render]
  refine ⟨fun heq => ?_, fun heq => by rw [heq]⟩
  refine map_showParts_inj hplain hplain' (render_injective ?_ ?_ heq)
  · exact List.forall_mem_map.mpr fun p hp => showParts_not_slash (hplain p hp)
  · exact List.forall_mem_map.mpr fun p hp => showParts_not_slash (hplain' p hp)

theorem isPlain_nil : IsPlain [] := fun _ hc => absurd hc List.not_mem_nil

/-- A segment without a capture has nothing to ask of it. -/
theorem plain_of_no_capture : ∀ name : List Char, none = some name → IsPlain name ∧ name ≠ [] := by
  rintro _ ⟨⟩

/-- The route `/files/:path`. -/
def capturedFile : RouteTemplate where
  segments := [⟨"files".toList, none, by decide, plain_of_no_capture⟩,
    ⟨[], some "path".toList, isPlain_nil, by rintro _ ⟨⟩; decide⟩]
  wildcard := none
  nonempty := .inl (List.cons_ne_nil _ _)
  plain_wildcard := plain_of_no_capture

/-- The route `/files/*path`. -/
def wildcardFile : RouteTemplate where
  segments := [⟨"files".toList, none, by decide, plain_of_no_capture⟩]
  wildcard := some "path".toList
  nonempty := .inl (List.cons_ne_nil _ _)
  plain_wildcard := by rintro _ ⟨⟩; decide

/-- They have one path. -/
theorem same_path_example : capturedFile.text ≠ wildcardFile.text ∧
    toOpenapiTemplate capturedFile.text = toOpenapiTemplate wildcardFile.text := by
  have hbraces : ∀ name, "files".toList ≠ braced name := fun name h => by
    simp [braced] at h
  refine ⟨by decide, (same_path_iff ?_ ?_).mpr rfl⟩
  · intro s hs hcapture
    rcases List.mem_pair.mp hs with rfl | rfl
    · exact hbraces
    · cases hcapture
  · intro s hs _
    obtain rfl := List.mem_singleton.mp hs
    exact hbraces

end RouteTemplate

end Cyanotype
