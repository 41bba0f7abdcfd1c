import Cyanotype.Document.Reading
import Cyanotype.Recorder.Raised

/-!
# The warnings of a written document

A document is written from an earlier snapshot with the warnings of the moment. It
lists these, then the notice if there is one, and so all warnings about every body
that the snapshot shows.
-/

namespace Cyanotype

/-- The warnings array of a document. -/
def warningsOf (doc : Value) : Option Value :=
  (doc.get "info").bind (·.get "x-cyanotype-warnings")

/-- The warnings of a document are those it was given. -/
theorem warningsOf_documentOf (paths : Value) (components : Option Value)
    (warnings : List String) :
    warningsOf (documentOf paths components warnings) =
      if warnings = [] then none else some (.array (warnings.map .string)) := by
  unfold warningsOf documentOf Value.updateField
  cases components <;> by_cases hw : warnings = [] <;>
    simp [hw, Value.get_setField, Value.get_ofFields, SortedMap.get_cons]

/-- The notice of a document, if there is one. -/
def noticeOf (exchanges : List Exchange) : List String :=
  if (noticeEntries (groupExchanges exchanges).operations).isEmpty then []
  else [belowThresholdNotice (noticeEntries (groupExchanges exchanges).operations)]

/-- The warnings of a document are those it was given and the notice. -/
theorem allWarnings_eq (exchanges : List Exchange) (warnings : List String) :
    allWarnings exchanges warnings = warnings ++ noticeOf exchanges := by
  unfold allWarnings noticeOf
  split_ifs
  · exact (List.append_nil warnings).symm
  · rfl

namespace Recorder

variable {H : Type*} [DecidableEq H] {s : Recorder H}

/-- `Collected::write_openapi` up to the writing: the document for a snapshot, with the
warnings recorded by now. -/
def writeOpenapi (s : Recorder H) (collected : List Exchange) : Value :=
  (buildDocument collected s.warnings).1

/-- Whenever a document is written from a snapshot taken before, its warnings are those
recorded by then, in order, and at most one notice; without any the key is absent. They
contain, in order, all warnings about every body that the snapshot shows. -/
theorem written_warnings_cover (env : Externals) (redactions : Redactions)
    {actions : List (Action H)} (hrun : run (step env) (init redactions) actions = some s)
    {collected : List Exchange} (hcollected : collected ∈ s.collected) :
    (noticeOf collected = [] ∨ ∃ below, noticeOf collected = [belowThresholdNotice below]) ∧
      warningsOf (s.writeOpenapi collected) =
        (if s.warnings = [] ∧ noticeOf collected = [] then none
        else some (.array ((s.warnings ++ noticeOf collected).map .string))) ∧
      ∀ exchange ∈ collected, ∀ side, (sideWarnings env side exchange.method
        exchange.routeTemplate (exchange.message side).body).Sublist
          (s.warnings ++ noticeOf collected) := by
  refine ⟨?_, ?_, ?_⟩
  · unfold noticeOf
    split_ifs
    · exact .inl rfl
    · exact .inr ⟨_, rfl⟩
  · rw [writeOpenapi, buildDocument_eq, warningsOf_documentOf, allWarnings_eq]
    simp only [List.append_eq_nil_iff]
  · intro exchange hexchange side
    have hcovered := (covers_of_run hrun).collected collected hcollected exchange hexchange
    exact (hcovered side).trans (List.sublist_append_left ..)

/-- A parser that knows one text, a string that looks generated. -/
def parseSecret : Externals where
  fromSlice := fun _ => some (.string "q8Zr1TvX5mKc7LwP2nHd9JsB")
  entropic := fun _ => true

/-- A request body with a secret, recorded in the middle of a snapshot. -/
def secretRequest : List (Action Nat) :=
  [.push 0 .post "/keys" none, .beginSnapshot,
    .access 0 (.side .request (.finish none [] ⟨[0x22], false⟩)),
    .access 0 (.side .request .warn), .access 0 (.side .request .store), .readExchange,
    .endSnapshot, .access 0 (.setStatus 201)]

/-- The snapshot shows the body and the document warns about it. -/
theorem written_warnings_cover_example : ∃ s collected,
    run (step parseSecret) (init .new) secretRequest = some s ∧ collected ∈ s.collected ∧
    warningsOf (s.writeOpenapi collected) =
        (if s.warnings = [] ∧ noticeOf collected = [] then none
        else some (.array ((s.warnings ++ noticeOf collected).map .string))) ∧
      ∀ exchange ∈ collected, ∀ side, (sideWarnings parseSecret side exchange.method
        exchange.routeTemplate (exchange.message side).body).Sublist
          (s.warnings ++ noticeOf collected) := by
  have hlength : (run (step parseSecret) (init .new) secretRequest).map
      (·.collected.length) = some 1 := rfl
  obtain ⟨s, hs, hcollected⟩ := Option.map_eq_some_iff.mp hlength
  obtain ⟨collected, hmem⟩ := List.exists_mem_of_length_pos (hcollected ▸ Nat.one_pos)
  obtain ⟨-, hwritten, hcover⟩ := written_warnings_cover parseSecret .new hs hmem
  exact ⟨s, collected, hs, hmem, hwritten, hcover⟩

end Recorder

end Cyanotype
