import Cyanotype.Core.JsonPath
import Cyanotype.Recorder.Redact
import Mathlib.Data.Finset.Lattice.Basic

/-!
# What redaction changes

A place is covered when some key on the way to it is declared. Redaction leaves
every other place as it is and writes the marker under each declared key, so
redacting twice is redacting once for both sets of names.
-/

namespace Cyanotype

namespace Redactions

/-- The names declared by either configuration. -/
def union (config config' : Redactions) : Redactions := ⟨config.fields ∪ config'.fields⟩

/-- A key on the path is declared. -/
def Covers (config : Redactions) (p : List PathStep) : Prop := ∃ k ∈ config.fields, .key k ∈ p

@[simp] theorem mem_union_iff {config config' : Redactions} {k : String} :
    k ∈ (config.union config').fields ↔ k ∈ config.fields ∨ k ∈ config'.fields :=
  Finset.mem_union

/-- A path is not covered when neither its first step is declared nor the rest covered. -/
theorem not_covers_cons_iff {config : Redactions} {st : PathStep} {p : List PathStep} :
    ¬ config.Covers (st :: p) ↔ (∀ k ∈ config.fields, st ≠ .key k) ∧ ¬ config.Covers p := by
  unfold Covers
  push Not
  simp only [List.mem_cons, not_or, forall_and, eq_comm]

end Redactions

/-! ## One level -/

/-- What becomes of the value of a key. -/
def redactField (config : Redactions) (key : String) (v : Value) : Value :=
  if key ∈ config.fields then .string redactedValue else redactWith config v

/-- Entries are redacted one by one. -/
theorem redactEntries_eq_map (config : Redactions) (m : List (String × Value)) :
    redactEntries config m = m.map fun e => (e.1, redactField config e.1 e.2) := by
  induction m with
  | nil => rfl
  | cons e m ih => rw [redactEntries, ih, List.map_cons, redactField]

/-- Items are redacted one by one. -/
theorem redactItems_eq_map (config : Redactions) (xs : List Value) :
    redactItems config xs = xs.map (redactWith config) := by
  induction xs with
  | nil => rfl
  | cons x xs ih => rw [redactItems, ih, List.map_cons]

/-- The root of a value stays what it is. -/
theorem label_redactWith (config : Redactions) (v : Value) :
    (redactWith config v).label = v.label := by
  cases v with
  | array xs => simp only [redactWith, Value.label, redactItems_eq_map, List.length_map]
  | object m =>
    simp only [redactWith, Value.label, redactEntries_eq_map, List.map_map, Function.comp_def]
  | _ => rfl

/-- The members and elements of a redacted value. -/
theorem child_redactWith (config : Redactions) (v : Value) (st : PathStep) :
    (redactWith config v).child st = (v.child st).map fun x =>
      match st with
      | .key k => redactField config k x
      | .index _ => redactWith config x := by
  cases st with
  | key k =>
    cases v with
    | object m =>
      rw [redactWith, redactEntries_eq_map]
      exact SortedMap.get_map_of_injective Function.injective_id (redactField config) m k
    | _ => rfl
  | index i =>
    cases v with
    | array xs =>
      rw [redactWith, redactItems_eq_map]
      exact List.getElem?_map
    | _ => rfl

/-! ## At a path -/

/-- A place that is not covered holds the redaction of what was there. -/
theorem nodeAt_redactWith {config : Redactions} {v : Value} {p : List PathStep}
    (h : ¬ config.Covers p) :
    (redactWith config v).nodeAt p = (v.nodeAt p).map (redactWith config) := by
  induction p generalizing v with
  | nil => rfl
  | cons st p ih =>
    obtain ⟨hst, hp⟩ := Redactions.not_covers_cons_iff.mp h
    have hchild : (redactWith config v).child st = (v.child st).map (redactWith config) := by
      rw [child_redactWith]
      cases st with
      | key k =>
        have hk : k ∉ config.fields := fun hk => hst k hk rfl
        simp only [redactField, if_neg hk]
      | index i => rfl
    rw [Value.nodeAt_cons, Value.nodeAt_cons, hchild, Option.bind_map, Option.map_bind]
    exact congrArg (Option.bind (v.child st)) (funext fun x => ih hp)

/-- A declared key that is not itself covered holds the marker. -/
theorem nodeAt_redactWith_declared {config : Redactions} {v : Value} {p : List PathStep}
    {k : String} (hp : ¬ config.Covers p) (hk : k ∈ config.fields) :
    (redactWith config v).nodeAt (p ++ [.key k]) =
      (v.nodeAt (p ++ [.key k])).map fun _ => .string redactedValue := by
  rw [Value.nodeAt_concat, Value.nodeAt_concat, nodeAt_redactWith hp, Option.bind_map,
    Option.map_bind]
  refine congrArg (Option.bind (v.nodeAt p)) (funext fun x => ?_)
  simp only [Function.comp, child_redactWith, redactField, if_pos hk]

/-- Below the marker there is nothing. -/
theorem nodeAt_string_concat (s : String) (p : List PathStep) (st : PathStep) :
    (Value.string s).nodeAt (p ++ [st]) = none := by
  have hchild : ∀ st', (Value.string s).child st' = none := fun st' => by cases st' <;> rfl
  cases p with
  | nil => rw [List.nil_append, Value.nodeAt_cons, hchild, Option.bind_none]
  | cons st' p => rw [List.cons_append, Value.nodeAt_cons, hchild, Option.bind_none]

/-- No declared key of the result holds anything but the marker. -/
theorem eq_redactedValue_of_nodeAt {config : Redactions} {v x : Value} {p : List PathStep}
    {k : String} (hk : k ∈ config.fields)
    (h : (redactWith config v).nodeAt (p ++ [.key k]) = some x) : x = .string redactedValue := by
  induction p generalizing v with
  | nil =>
    rw [nodeAt_redactWith_declared (by simp [Redactions.Covers]) hk] at h
    obtain ⟨y, -, rfl⟩ := Option.map_eq_some_iff.mp h
    rfl
  | cons st p ih =>
    rw [List.cons_append, Value.nodeAt_cons, child_redactWith, Option.bind_map] at h
    obtain ⟨y, -, hy⟩ := Option.bind_eq_some_iff.mp h
    cases st with
    | index i => exact ih hy
    | key j =>
      simp only [Function.comp, redactField] at hy
      split_ifs at hy with hj
      · rw [nodeAt_string_concat] at hy
        cases hy
      · exact ih hy

/-! ## Redacting again -/

/-- Redacting for one set of names and then for another redacts for both. -/
theorem redactWith_redactWith (config config' : Redactions) (v : Value) :
    redactWith config' (redactWith config v) = redactWith (config.union config') v := by
  induction v with
  | array xs ih =>
    simp only [redactWith, redactItems_eq_map, List.map_map, Value.array.injEq, List.map_inj_left]
    exact fun x hx => ih x hx
  | object m ih =>
    simp only [redactWith, redactEntries_eq_map, List.map_map, Value.object.injEq,
      List.map_inj_left]
    intro e he
    refine Prod.ext rfl ?_
    -- The first pass writes the marker, or leaves a value for the second to redact.
    by_cases hfirst : e.1 ∈ config.fields
    · by_cases hsecond : e.1 ∈ config'.fields <;> simp [redactField, redactWith, hfirst, hsecond]
    · by_cases hsecond : e.1 ∈ config'.fields
      · simp [redactField, hsecond]
      · simpa [redactField, hfirst, hsecond] using ih e he
  | _ => rfl

/-- Redaction writes the marker under each declared key that is not below another one,
leaves every place alone that no declared key leads to, and keeps no other value under
a declared key. Redacting again changes nothing, and redacting for two sets of names in
turn is redacting for their union. -/
theorem redactWith_exact (config : Redactions) (v : Value) :
    (∀ p k, ¬ config.Covers p → k ∈ config.fields →
      (redactWith config v).nodeAt (p ++ [.key k]) =
        (v.nodeAt (p ++ [.key k])).map fun _ => .string redactedValue) ∧
    (∀ p, ¬ config.Covers p →
      ((redactWith config v).nodeAt p).map Value.label = (v.nodeAt p).map Value.label) ∧
    (∀ p k x, k ∈ config.fields → (redactWith config v).nodeAt (p ++ [.key k]) = some x →
      x = .string redactedValue) ∧
    redactWith config (redactWith config v) = redactWith config v ∧
    ∀ config', redactWith config' (redactWith config v) = redactWith (config.union config') v := by
  refine ⟨fun p k hp hk => nodeAt_redactWith_declared hp hk, fun p hp => ?_,
    fun p k x hk h => eq_redactedValue_of_nodeAt hk h, ?_,
    fun config' => redactWith_redactWith config config' v⟩
  · rw [nodeAt_redactWith hp, Option.map_map]
    exact congrArg (Option.map · (v.nodeAt p)) (funext fun x => label_redactWith config x)
  · have hunion : config.union config = config := by simp [Redactions.union]
    rw [redactWith_redactWith, hunion]

end Cyanotype
