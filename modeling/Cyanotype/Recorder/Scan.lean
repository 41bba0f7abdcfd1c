import Cyanotype.Core.JsonPath
import Cyanotype.Recorder.Reports

/-!
# The scan with its byte buffer

The source keeps one string for the path, remembers its length in bytes before each
step and truncates to it afterwards, which panics inside a character. That version
of the scan, under any test for strings, is shown never to panic, to hand back its
buffer, and to warn about each qualifying leaf at the place that its own path spells.
-/

namespace Cyanotype

namespace ByteBuffer

/-- `String::len`. -/
def len : List Char → Nat
  | [] => 0
  | c :: path => c.utf8Size + len path

/-- `String::truncate`; a length inside a character panics, a greater one changes nothing. -/
def truncate : Nat → List Char → Option (List Char)
  | _, [] => some []
  | n, c :: path =>
    if n = 0 then some []
    else if c.utf8Size ≤ n then (truncate (n - c.utf8Size) path).map (c :: ·)
    else none

mutual

/-- `scan` under a given test: the warnings raised and the buffer on return. -/
def scan (looksHigh : String → Bool) (context : String) :
    Value → List Char → Option (List String × List Char)
  | .string s, path =>
    if s ≠ redactedValue ∧ looksHigh s = true then
      some ([highEntropyWarning context path s], path)
    else some ([], path)
  | .object m, path => scanEntries looksHigh context m path
  | .array xs, path => scanItems looksHigh context 0 xs path
  | _, path => some ([], path)

/-- The entries of an object, with the buffer cut back after each. -/
def scanEntries (looksHigh : String → Bool) (context : String) :
    List (String × Value) → List Char → Option (List String × List Char)
  | [], path => some ([], path)
  | (key, v) :: m, path => do
    let lenBefore := len path
    let path := if path.isEmpty then path else path ++ ['.']
    let (below, path) ← scan looksHigh context v (path ++ key.toList)
    let path ← truncate lenBefore path
    let (rest, path) ← scanEntries looksHigh context m path
    some (below ++ rest, path)

/-- The items of an array, with the buffer cut back after each. -/
def scanItems (looksHigh : String → Bool) (context : String) (i : Nat) :
    List Value → List Char → Option (List String × List Char)
  | [], path => some ([], path)
  | v :: xs, path => do
    let lenBefore := len path
    let (below, path) ← scan looksHigh context v (path ++ ("[" ++ toString i ++ "]").toList)
    let path ← truncate lenBefore path
    let (rest, path) ← scanItems looksHigh context (i + 1) xs path
    some (below ++ rest, path)

end

/-! ## The buffer comes back -/

/-- Truncating to a former length undoes what was appended since. -/
theorem truncate_append (path suffix : List Char) :
    truncate (len path) (path ++ suffix) = some path := by
  induction path with
  | nil => cases suffix <;> rfl
  | cons c path ih =>
    have hpos := c.utf8Size_pos
    rw [List.cons_append, len, truncate, if_neg (by omega), if_pos (by omega),
      Nat.add_sub_cancel_left, ih]
    rfl

/-- Cutting back removes the key that was appended. -/
theorem truncate_entryPath (path : List Char) (key : String) :
    truncate (len path) (entryPath path key) = some path := by
  unfold entryPath
  split_ifs
  · exact truncate_append path key.toList
  · rw [List.append_assoc]
    exact truncate_append path _

variable {looksHigh : String → Bool} {context : String}

private theorem scanEntries_eq {m : List (String × Value)}
    (ih : ∀ e ∈ m, ∀ path, scan looksHigh context e.2 path =
      some ((reports looksHigh e.2 path).map (warningOf context), path)) (path : List Char) :
    scanEntries looksHigh context m path =
      some ((reportsEntries looksHigh m path).map (warningOf context), path) := by
  induction m with
  | nil => rfl
  | cons e m ihm =>
    obtain ⟨key, v⟩ := e
    rw [List.forall_mem_cons] at ih
    have hscan := ih.1 (entryPath path key)
    have htruncate := truncate_entryPath path key
    simp only [entryPath] at hscan htruncate
    simp only [scanEntries, hscan, Option.bind_eq_bind, Option.bind_some, htruncate, ihm ih.2,
      reportsEntries, List.map_append, entryPath]

private theorem scanItems_eq {xs : List Value}
    (ih : ∀ x ∈ xs, ∀ path, scan looksHigh context x path =
      some ((reports looksHigh x path).map (warningOf context), path)) (i : Nat)
    (path : List Char) :
    scanItems looksHigh context i xs path =
      some ((reportsItems looksHigh i xs path).map (warningOf context), path) := by
  induction xs generalizing i with
  | nil => rfl
  | cons x xs ihxs =>
    rw [List.forall_mem_cons] at ih
    have hscan := ih.1 (itemPath path i)
    have htruncate : truncate (len path) (itemPath path i) = some path := truncate_append path _
    simp only [itemPath] at hscan htruncate
    simp only [scanItems, hscan, Option.bind_eq_bind, Option.bind_some, htruncate, ihxs ih.2,
      reportsItems, List.map_append, itemPath]

/-- Every call warns about the reports of its value and returns the buffer it was given. -/
theorem scan_eq (v : Value) (path : List Char) :
    scan looksHigh context v path =
      some ((reports looksHigh v path).map (warningOf context), path) := by
  induction v generalizing path with
  | string s =>
    rw [scan, reports]
    split_ifs <;> rfl
  | array xs ih =>
    rw [scan, reports]
    exact scanItems_eq (fun x hx path => ih x hx path) 0 path
  | object m ih =>
    rw [scan, reports]
    exact scanEntries_eq (fun e he path => ih e he path) path
  | _ => rfl

/-- Under the recorder's own test the buffer may as well be measured in characters. -/
theorem scan_looksHighEntropy (entropic : String → Bool) (v : Value) (path : List Char) :
    scan (looksHighEntropy entropic) context v path =
      some (Cyanotype.scan entropic context v path) := by
  rw [scan_eq, Cyanotype.scan_eq]

end ByteBuffer

/-! ## Leaves and their locations -/

/-- The buffer one step further down. -/
def pushStep (path : List Char) : PathStep → List Char
  | .key k => entryPath path k
  | .index i => itemPath path i

/-- Where a leaf is: keys and indices written one after another into an empty buffer,
with a dot before a key unless the buffer is still empty. -/
def locationOf (p : List PathStep) : List Char := p.foldl pushStep []

/-- A string that the scan warns about. -/
def Qualifies (looksHigh : String → Bool) (leaf : List PathStep × String) : Prop :=
  leaf.2 ≠ redactedValue ∧ looksHigh leaf.2 = true

instance (looksHigh : String → Bool) : DecidablePred (Qualifies looksHigh) :=
  fun _ => inferInstanceAs (Decidable (_ ∧ _))

/-- A leaf as it is reported from a buffer. -/
def reportFrom (path : List Char) (leaf : List PathStep × String) : List Char × String :=
  (leaf.1.foldl pushStep path, leaf.2)

variable {looksHigh : String → Bool}

/-- Leaves below a step are reported from the buffer after it. -/
private theorem reports_under {v : Value} {path : List Char} (st : PathStep)
    (h : ∀ path, reports looksHigh v path =
      (v.leaves.filter (Qualifies looksHigh ·)).map (reportFrom path)) :
    reports looksHigh v (pushStep path st) =
      ((v.leaves.map (Value.under st)).filter (Qualifies looksHigh ·)).map (reportFrom path) := by
  rw [h, List.filter_map, List.map_map]
  rfl

/-- The reports are the qualifying leaves, in order. -/
theorem reports_eq_leaves (v : Value) (path : List Char) :
    reports looksHigh v path =
      (v.leaves.filter (Qualifies looksHigh ·)).map (reportFrom path) := by
  induction v generalizing path with
  | string s =>
    rw [reports, Value.leaves, List.filter_singleton]
    by_cases hs : s ≠ redactedValue ∧ looksHigh s = true
    · have hleaf : Qualifies looksHigh ([], s) := hs
      rw [if_pos hs, decide_eq_true hleaf]
      rfl
    · have hleaf : ¬ Qualifies looksHigh ([], s) := hs
      rw [if_neg hs, decide_eq_false hleaf]
      rfl
  | array xs ih =>
    rw [reports, Value.leaves]
    generalize 0 = i
    induction xs generalizing i with
    | nil => rfl
    | cons x xs ihxs =>
      rw [List.forall_mem_cons] at ih
      rw [reportsItems, Value.leavesItems, List.filter_append, List.map_append, ihxs ih.2,
        ← reports_under (.index i) ih.1]
      rfl
  | object m ih =>
    rw [reports, Value.leaves]
    induction m with
    | nil => rfl
    | cons e m ihm =>
      rw [List.forall_mem_cons] at ih
      rw [reportsEntries, Value.leavesEntries, List.filter_append, List.map_append, ihm ih.2,
        ← reports_under (.key e.1) ih.1]
      rfl
  | _ => rfl

/-- The warning about a leaf, at the location that its own path spells. -/
def leafWarning (context : String) (leaf : List PathStep × String) : String :=
  highEntropyWarning context (locationOf leaf.1) leaf.2

/-- Started with an empty buffer and under any test, the scan raises one warning for each
qualifying string leaf, in order, and every call hands its buffer back as it was. Each
warning has in its text the location that the leaf's own path spells, `body` for the empty
one, and warnings about different locations differ. Of a value without repeated keys the
leaves are the places of its strings, each listed once. -/
theorem scan_reports_leaves (looksHigh : String → Bool) (context : String) (v : Value) :
    ByteBuffer.scan looksHigh context v [] =
      some ((v.leaves.filter (Qualifies looksHigh ·)).map (leafWarning context), []) ∧
    (∀ path, ∃ warnings, ByteBuffer.scan looksHigh context v path = some (warnings, path)) ∧
    (∀ leaf, context.toList ++ ' ' :: shownPath (locationOf leaf.1) <:+:
      (leafWarning context leaf).toList) ∧
    (∀ leaf leaf', leafWarning context leaf = leafWarning context leaf' →
      shownPath (locationOf leaf.1) = shownPath (locationOf leaf'.1)) ∧
    (v.DistinctKeys → (v.leaves.map Prod.fst).Nodup ∧
      ∀ p s, (p, s) ∈ v.leaves ↔ v.nodeAt p = some (.string s)) := by
  refine ⟨?_, fun path => ⟨_, ByteBuffer.scan_eq v path⟩,
    fun leaf => infix_highEntropyWarning context _ _, fun _ _ => highEntropyWarning_inj,
    fun hkeys => ⟨Value.nodup_leaves hkeys, fun p s => Value.mem_leaves_iff hkeys⟩⟩
  rw [ByteBuffer.scan_eq, reports_eq_leaves, List.map_map]
  rfl

end Cyanotype
