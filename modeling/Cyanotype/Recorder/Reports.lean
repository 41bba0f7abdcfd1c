import Cyanotype.Core.Text
import Cyanotype.Recorder.Redact

/-!
# What the entropy scan reports

The scan leaves its path buffer as it found it, so its warnings can be given as a
list of reported strings, each with the path to it. These are the string values
that look generated, by whatever test; keys are never among them.
-/

namespace Cyanotype

/-- The path buffer when an entry is scanned. -/
def entryPath (path : List Char) (key : String) : List Char :=
  (if path.isEmpty then path else path ++ ['.']) ++ key.toList

/-- The path buffer when an item is scanned. -/
def itemPath (path : List Char) (i : Nat) : List Char :=
  path ++ ("[" ++ toString i ++ "]").toList

mutual

/-- The strings that the scan of a value reports under a test for high entropy, each with
the path buffer at it. -/
def reports (looksHigh : String → Bool) : Value → List Char → List (List Char × String)
  | .string s, path => if s ≠ redactedValue ∧ looksHigh s = true then [(path, s)] else []
  | .object m, path => reportsEntries looksHigh m path
  | .array xs, path => reportsItems looksHigh 0 xs path
  | _, _ => []

/-- The reports about the entries of an object. -/
def reportsEntries (looksHigh : String → Bool) :
    List (String × Value) → List Char → List (List Char × String)
  | [], _ => []
  | (key, v) :: m, path =>
    reports looksHigh v (entryPath path key) ++ reportsEntries looksHigh m path

/-- The reports about the items of an array, from an index on. -/
def reportsItems (looksHigh : String → Bool) (i : Nat) :
    List Value → List Char → List (List Char × String)
  | [], _ => []
  | v :: xs, path =>
    reports looksHigh v (itemPath path i) ++ reportsItems looksHigh (i + 1) xs path

end

/-- The warning about a reported string. -/
def warningOf (context : String) (report : List Char × String) : String :=
  highEntropyWarning context report.1 report.2

/-! ## What a warning says -/

/-- What a warning calls a place: the path to it, or `body` for the whole body. -/
def shownPath (path : List Char) : List Char := if path.isEmpty then "body".toList else path

/-- The place and the length stand in a text that is the same in all warnings. -/
theorem exists_highEntropyWarning_eq : ∃ before after : List Char, ∀ context path s,
    (highEntropyWarning context path s).toList =
      before ++ ((context.toList ++ ' ' :: shownPath path) ++
        (" (len".toList ++ ' ' :: (toString s.utf8ByteSize).toList)) ++ after := by
  refine ⟨"undeclared high-entropy string at ".toList,
    ") — mark it redacted with `Redactions::field`, ".toList ++ "or accept it as safe".toList,
    fun context path s => ?_⟩
  have hlocation : (if path.isEmpty = true then "body" else String.ofList path).toList =
      shownPath path := by
    unfold shownPath
    split_ifs
    · rfl
    · exact String.toList_ofList
  have hspace : " ".toList = [' '] := rfl
  have hlen : " (len ".toList = " (len".toList ++ [' '] := rfl
  unfold highEntropyWarning
  rw [String.toList_append, String.toList_append, String.toList_append, String.toList_append,
    String.toList_append, String.toList_append, String.toList_append, hlocation, hspace, hlen]
  simp only [List.append_assoc, List.cons_append, List.nil_append]

/-- A warning says in which context and at which place the string is. -/
theorem infix_highEntropyWarning (context : String) (path : List Char) (s : String) :
    context.toList ++ ' ' :: shownPath path <:+: (highEntropyWarning context path s).toList := by
  obtain ⟨before, after, htext⟩ := exists_highEntropyWarning_eq
  rw [htext]
  exact ((List.prefix_append _ _).isInfix.trans (List.suffix_append before _).isInfix).trans
    (List.prefix_append _ after).isInfix

/-- A warning tells the place, whatever the string there. -/
theorem highEntropyWarning_inj {context : String} {path path' : List Char} {s s' : String}
    (h : highEntropyWarning context path s = highEntropyWarning context path' s') :
    shownPath path = shownPath path' := by
  obtain ⟨before, after, htext⟩ := exists_highEntropyWarning_eq
  have hlist := congrArg String.toList h
  rw [htext, htext, List.append_cancel_right_eq, List.append_cancel_left_eq] at hlist
  have hdigits : ∀ n : Nat, ' ' ∉ (toString n).toList :=
    fun n hmem => absurd (isDigit_of_mem_toString hmem) (by decide)
  -- The length starts after the last space.
  rw [← List.append_assoc, ← List.append_assoc] at hlist
  obtain ⟨hplace, -⟩ := eq_of_append_cons_last (hdigits _) (hdigits _) hlist
  rw [List.append_cancel_right_eq, List.append_cancel_left_eq] at hplace
  exact (List.cons.inj hplace).2

/-! ## The warnings of a scan -/

variable {entropic looksHigh : String → Bool}

/-- Scanning the entries, given the scans of their values. -/
private theorem scanEntries_eq {context : String} {m : List (String × Value)}
    (ih : ∀ e ∈ m, ∀ path, scan entropic context e.2 path =
      ((reports (looksHighEntropy entropic) e.2 path).map (warningOf context), path))
    (path : List Char) :
    scanEntries entropic context m path =
      ((reportsEntries (looksHighEntropy entropic) m path).map (warningOf context), path) := by
  induction m with
  | nil => rfl
  | cons e m ihm =>
    obtain ⟨key, v⟩ := e
    rw [List.forall_mem_cons] at ih
    have htake : (entryPath path key).take path.length = path := by
      unfold entryPath
      split_ifs
      · exact List.take_left
      · rw [List.append_assoc]
        exact List.take_left
    have hscan := ih.1 (entryPath path key)
    simp only [entryPath] at hscan htake
    simp only [scanEntries, hscan, htake, ihm ih.2, reportsEntries, List.map_append, entryPath]

/-- Scanning the items, given the scans of each. -/
private theorem scanItems_eq {context : String} {xs : List Value}
    (ih : ∀ x ∈ xs, ∀ path, scan entropic context x path =
      ((reports (looksHighEntropy entropic) x path).map (warningOf context), path))
    (i : Nat) (path : List Char) :
    scanItems entropic context i xs path =
      ((reportsItems (looksHighEntropy entropic) i xs path).map (warningOf context), path) := by
  induction xs generalizing i with
  | nil => rfl
  | cons x xs ihxs =>
    rw [List.forall_mem_cons] at ih
    have hscan := ih.1 (itemPath path i)
    have htake : (itemPath path i).take path.length = path := List.take_left
    simp only [itemPath] at hscan htake
    simp only [scanItems, hscan, htake, ihxs ih.2, reportsItems, List.map_append, itemPath]

/-- The scan raises one warning for each report and leaves the path buffer alone. -/
theorem scan_eq (context : String) (v : Value) (path : List Char) :
    scan entropic context v path =
      ((reports (looksHighEntropy entropic) v path).map (warningOf context), path) := by
  induction v generalizing path with
  | string s =>
    rw [scan, reports]
    split_ifs <;> rfl
  | array xs ih =>
    rw [scan, reports]
    exact scanItems_eq (fun x hx path => ih x hx path) 0 path
  | object m ih =>
    rw [scan, reports]
    exact scanEntries_eq (fun e he path => ih e he path) path
  | _ => rfl

/-- The scan warns once for each report, in order. -/
theorem warnUndeclaredHighEntropy_eq (v : Value) (context : String) :
    warnUndeclaredHighEntropy entropic v context =
      (reports (looksHighEntropy entropic) v []).map (warningOf context) := by
  rw [warnUndeclaredHighEntropy, scan_eq]

/-! ## Which strings are reported -/

/-- A string is a value somewhere in a JSON value. -/
inductive HasString (s : String) : Value → Prop
  | here : HasString s (.string s)
  | item {xs : List Value} {x : Value} (hmem : x ∈ xs) (h : HasString s x) : HasString s (.array xs)
  | field {m : List (String × Value)} {e : String × Value} (hmem : e ∈ m) (h : HasString s e.2) :
    HasString s (.object m)

/-- The scan reports a string. -/
def Reported (looksHigh : String → Bool) (v : Value) (s : String) : Prop :=
  ∃ path, (path, s) ∈ reports looksHigh v []

private theorem exists_mem_reportsEntries_iff {Q : Value → Prop} {s : String}
    {m : List (String × Value)}
    (ih : ∀ e ∈ m, ∀ path, (∃ p, (p, s) ∈ reports looksHigh e.2 path) ↔ Q e.2)
    (path : List Char) :
    (∃ p, (p, s) ∈ reportsEntries looksHigh m path) ↔ ∃ e ∈ m, Q e.2 := by
  induction m with
  | nil => simp [reportsEntries]
  | cons e m ihm =>
    obtain ⟨key, v⟩ := e
    rw [List.forall_mem_cons] at ih
    simp only [reportsEntries, List.mem_append, exists_or, ih.1, ihm ih.2,
      List.exists_mem_cons_iff]

private theorem exists_mem_reportsItems_iff {Q : Value → Prop} {s : String} {xs : List Value}
    (ih : ∀ x ∈ xs, ∀ path, (∃ p, (p, s) ∈ reports looksHigh x path) ↔ Q x) (i : Nat)
    (path : List Char) :
    (∃ p, (p, s) ∈ reportsItems looksHigh i xs path) ↔ ∃ x ∈ xs, Q x := by
  induction xs generalizing i with
  | nil => simp [reportsItems]
  | cons x xs ihxs =>
    rw [List.forall_mem_cons] at ih
    simp only [reportsItems, List.mem_append, exists_or, ih.1, ihxs ih.2,
      List.exists_mem_cons_iff]

/-- The strings of an array are those of its items. -/
theorem hasString_array_iff {s : String} {xs : List Value} :
    HasString s (.array xs) ↔ ∃ x ∈ xs, HasString s x := by
  constructor
  · rintro (_ | ⟨hmem, h⟩)
    exact ⟨_, hmem, h⟩
  · rintro ⟨x, hmem, h⟩
    exact .item hmem h

/-- The strings of an object are those of its members. -/
theorem hasString_object_iff {s : String} {m : List (String × Value)} :
    HasString s (.object m) ↔ ∃ e ∈ m, HasString s e.2 := by
  constructor
  · rintro (_ | _ | ⟨hmem, h⟩)
    exact ⟨_, hmem, h⟩
  · rintro ⟨e, hmem, h⟩
    exact .field hmem h

/-- At whatever path a value is scanned, its high-entropy strings other than the marker
are reported, and nothing else is. -/
theorem exists_mem_reports_iff {v : Value} {path : List Char} {s : String} :
    (∃ p, (p, s) ∈ reports looksHigh v path) ↔
      (s ≠ redactedValue ∧ looksHigh s = true) ∧ HasString s v := by
  induction v generalizing path with
  | string t =>
    have hhas : HasString s (.string t) ↔ s = t := by
      constructor
      · rintro ⟨⟩
        rfl
      · rintro rfl
        exact .here
    rw [reports, hhas]
    split_ifs with ht
    · simp only [List.mem_singleton, Prod.mk.injEq, exists_eq_left]
      exact ⟨fun h => ⟨h ▸ ht, h⟩, fun h => h.2⟩
    · refine iff_of_false (by simp) ?_
      rintro ⟨hs, rfl⟩
      exact ht hs
  | array xs ih =>
    rw [reports, exists_mem_reportsItems_iff (fun x hx path => ih x hx), hasString_array_iff]
    simp only [and_left_comm, exists_and_left]
  | object m ih =>
    rw [reports, exists_mem_reportsEntries_iff
      (Q := fun v => (s ≠ redactedValue ∧ looksHigh s = true) ∧ HasString s v)
      (fun e he path => ih e he), hasString_object_iff]
    simp only [and_left_comm, exists_and_left]
  | _ =>
    refine iff_of_false (by simp [reports]) ?_
    rintro ⟨-, ⟨⟩⟩

/-- Every high-entropy string value but the marker is reported, and nothing else is. -/
theorem reported_iff {v : Value} {s : String} :
    Reported looksHigh v s ↔
      (s ≠ redactedValue ∧ looksHigh s = true) ∧ HasString s v :=
  exists_mem_reports_iff

end Cyanotype
