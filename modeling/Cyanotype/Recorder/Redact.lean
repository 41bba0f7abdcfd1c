import Cyanotype.Core.Json
import Mathlib.Data.Finset.Insert

/-!
# Declared redaction and the entropy scan

Values of declared field names are replaced at any depth before a body is
stored. What remains is scanned for strings that look generated. The entropy
test works on floating-point logarithms and is a parameter; its length floor
is not.
-/

namespace Cyanotype

/-- The field names declared for redaction. -/
structure Redactions where
  fields : Finset String
  deriving DecidableEq

namespace Redactions

/-- `Redactions::new`: nothing is redacted. -/
def new : Redactions := ⟨∅⟩

/-- Redact one more field name. -/
def field (redactions : Redactions) (name : String) : Redactions :=
  ⟨insert name redactions.fields⟩

end Redactions

/-- `REDACTED_VALUE`, written in place of a value. -/
def redactedValue : String := "[cyanotype:redacted]"

mutual

/-- Replace the value of every declared field name, at any depth. -/
def redactWith (config : Redactions) : Value → Value
  | .object m => .object (redactEntries config m)
  | .array xs => .array (redactItems config xs)
  | v => v

/-- Redact the entries of an object. -/
def redactEntries (config : Redactions) : List (String × Value) → List (String × Value)
  | [] => []
  | (key, v) :: m =>
    (key, if key ∈ config.fields then .string redactedValue else redactWith config v) ::
      redactEntries config m

/-- Redact the items of an array. -/
def redactItems (config : Redactions) : List Value → List Value
  | [] => []
  | v :: xs => redactWith config v :: redactItems config xs

end

/-! ## The entropy scan -/

/-- `MIN_LENGTH`: shorter strings are never reported. -/
def minLength : Nat := 20

/-- Long enough and, by the given test, random enough to look generated. -/
def looksHighEntropy (entropic : String → Bool) (s : String) : Bool :=
  decide (s.utf8ByteSize ≥ minLength) && entropic s

/-- The warning about one string at a place. -/
def highEntropyWarning (context : String) (path : List Char) (s : String) : String :=
  let location := if path.isEmpty then "body" else String.ofList path
  "undeclared high-entropy string at " ++ context ++ " " ++ location ++ " (len " ++
    toString s.utf8ByteSize ++ ") — mark it redacted with `Redactions::field`, " ++
    "or accept it as safe"

mutual

/-- The warnings raised below a value, and the path buffer afterwards. -/
def scan (entropic : String → Bool) (context : String) :
    Value → List Char → List String × List Char
  | .string s, path =>
    if s ≠ redactedValue ∧ looksHighEntropy entropic s = true then
      ([highEntropyWarning context path s], path)
    else ([], path)
  | .object m, path => scanEntries entropic context m path
  | .array xs, path => scanItems entropic context 0 xs path
  | _, path => ([], path)

/-- Scan the entries of an object, each with its key on the path. -/
def scanEntries (entropic : String → Bool) (context : String) :
    List (String × Value) → List Char → List String × List Char
  | [], path => ([], path)
  | (key, v) :: m, path =>
    let lenBefore := path.length
    let path := if path.isEmpty then path else path ++ ['.']
    let (below, path) := scan entropic context v (path ++ key.toList)
    let (rest, path) := scanEntries entropic context m (path.take lenBefore)
    (below ++ rest, path)

/-- Scan the items of an array, each with its index on the path. -/
def scanItems (entropic : String → Bool) (context : String) (i : Nat) :
    List Value → List Char → List String × List Char
  | [], path => ([], path)
  | v :: xs, path =>
    let lenBefore := path.length
    let (below, path) := scan entropic context v (path ++ ("[" ++ toString i ++ "]").toList)
    let (rest, path) := scanItems entropic context (i + 1) xs (path.take lenBefore)
    (below ++ rest, path)

end

/-- The warnings about undeclared high-entropy strings, in the order raised. -/
def warnUndeclaredHighEntropy (entropic : String → Bool) (value : Value) (context : String) :
    List String :=
  (scan entropic context value []).1

/-! ## Bodies that differ in declared fields only -/

mutual

/-- Equal except for the values of declared field names, which may be anything. -/
def EqualExcept (config : Redactions) : Value → Value → Prop
  | .object m, .object n => EntriesEqualExcept config m n
  | .array xs, .array ys => ItemsEqualExcept config xs ys
  | v, w => v = w

/-- The same keys in order, with values that are equal so or below a declared name. -/
def EntriesEqualExcept (config : Redactions) :
    List (String × Value) → List (String × Value) → Prop
  | [], [] => True
  | (k, v) :: m, (j, w) :: n =>
    k = j ∧ (k ∈ config.fields ∨ EqualExcept config v w) ∧ EntriesEqualExcept config m n
  | _, _ => False

/-- As many items, equal so one by one. -/
def ItemsEqualExcept (config : Redactions) : List Value → List Value → Prop
  | [], [] => True
  | v :: xs, w :: ys => EqualExcept config v w ∧ ItemsEqualExcept config xs ys
  | _, _ => False

end

private theorem redactItems_eq_of_equalExcept {config : Redactions} {xs ys : List Value}
    (ih : ∀ v ∈ xs, ∀ w, EqualExcept config v w → redactWith config v = redactWith config w)
    (h : ItemsEqualExcept config xs ys) : redactItems config xs = redactItems config ys := by
  induction xs generalizing ys with
  | nil =>
    cases ys with
    | nil => rfl
    | cons w ys => exact h.elim
  | cons v xs ihxs =>
    cases ys with
    | nil => exact h.elim
    | cons w ys =>
      obtain ⟨hvw, hrest⟩ := h
      rw [redactItems, redactItems, ih v List.mem_cons_self w hvw,
        ihxs (fun v hv => ih v (List.mem_cons_of_mem _ hv)) hrest]

private theorem redactEntries_eq_of_equalExcept {config : Redactions}
    {m n : List (String × Value)}
    (ih : ∀ e ∈ m, ∀ w, EqualExcept config e.2 w → redactWith config e.2 = redactWith config w)
    (h : EntriesEqualExcept config m n) : redactEntries config m = redactEntries config n := by
  induction m generalizing n with
  | nil =>
    cases n with
    | nil => rfl
    | cons e n => exact h.elim
  | cons e m ihm =>
    cases n with
    | nil => exact h.elim
    | cons e' n =>
      obtain ⟨k, v⟩ := e
      obtain ⟨j, w⟩ := e'
      obtain ⟨rfl, hvalue, hrest⟩ := h
      rw [redactEntries, redactEntries, ihm (fun e he => ih e (List.mem_cons_of_mem _ he)) hrest]
      by_cases hkey : k ∈ config.fields
      · rw [if_pos hkey, if_pos hkey]
      · rw [if_neg hkey, if_neg hkey,
          ih (k, v) List.mem_cons_self w (hvalue.resolve_left hkey)]

/-- Redaction forgets everything in which such bodies differ. -/
theorem redactWith_eq_of_equalExcept {config : Redactions} {v w : Value}
    (h : EqualExcept config v w) : redactWith config v = redactWith config w := by
  induction v generalizing w with
  | array xs ih =>
    cases w with
    | array ys =>
      rw [redactWith, redactWith, redactItems_eq_of_equalExcept (fun v hv w => ih v hv) h]
    | _ => cases h
  | object m ih =>
    cases w with
    | object n =>
      rw [redactWith, redactWith, redactEntries_eq_of_equalExcept (fun e he w => ih e he) h]
    | _ => cases h
  | null => cases w <;> first | rfl | cases h
  | bool b => cases w <;> cases h; rfl
  | number n => cases w <;> cases h; rfl
  | string s => cases w <;> cases h; rfl

end Cyanotype
