import Cyanotype.Core.Json
import Mathlib.Data.List.Nodup

/-!
# Places in a JSON value

A path of keys and indices leads to a place. What a place holds apart from the
parts below it is its label: the kind, the scalar, the number of elements or the
keys in their order.
-/

namespace Cyanotype

/-- A step to a member of an object or to an element of an array. -/
inductive PathStep where
  | key (k : String)
  | index (i : Nat)
  deriving DecidableEq

/-- What a value is at its root. -/
inductive Label where
  | null
  | bool (b : Bool)
  | number (n : Number)
  | string (s : String)
  | array (length : Nat)
  | object (keys : List String)
  deriving DecidableEq

namespace Value

/-- What a value is at its root: its kind, and its text, length or keys. -/
def label : Value → Label
  | null => .null
  | bool b => .bool b
  | number n => .number n
  | string s => .string s
  | array xs => .array xs.length
  | object m => .object (m.map Prod.fst)

/-- The part one step below. -/
def child (v : Value) : PathStep → Option Value
  | .key k => v.get k
  | .index i => v.asArray.bind (·[i]?)

/-- The part at a path. -/
def nodeAt (v : Value) : List PathStep → Option Value
  | [] => some v
  | st :: p => (v.child st).bind (nodeAt · p)

@[simp] theorem nodeAt_nil (v : Value) : v.nodeAt [] = some v := rfl

theorem nodeAt_cons (v : Value) (st : PathStep) (p : List PathStep) :
    v.nodeAt (st :: p) = (v.child st).bind (nodeAt · p) := rfl

theorem nodeAt_append (v : Value) (p q : List PathStep) :
    v.nodeAt (p ++ q) = (v.nodeAt p).bind (nodeAt · q) := by
  induction p generalizing v with
  | nil => rfl
  | cons st p ih =>
    rw [List.cons_append, nodeAt_cons, nodeAt_cons, Option.bind_assoc]
    exact congrArg (Option.bind (v.child st)) (funext fun x => ih x)

theorem nodeAt_concat (v : Value) (p : List PathStep) (st : PathStep) :
    v.nodeAt (p ++ [st]) = (v.nodeAt p).bind (child · st) := by
  rw [nodeAt_append]
  refine congrArg (Option.bind (v.nodeAt p)) (funext fun x => ?_)
  exact Option.bind_fun_some (x.child st)

/-! ## String leaves -/

/-- A leaf as seen from one step above. -/
def under (st : PathStep) (leaf : List PathStep × String) : List PathStep × String :=
  (st :: leaf.1, leaf.2)

mutual

/-- The strings in a value with the paths to them, members in order and elements in order. -/
def leaves : Value → List (List PathStep × String)
  | .string s => [([], s)]
  | .array xs => leavesItems 0 xs
  | .object m => leavesEntries m
  | _ => []

/-- The leaves below the entries of an object. -/
def leavesEntries : List (String × Value) → List (List PathStep × String)
  | [] => []
  | (k, v) :: m => (leaves v).map (under (.key k)) ++ leavesEntries m

/-- The leaves below the items of an array, from an index on. -/
def leavesItems (i : Nat) : List Value → List (List PathStep × String)
  | [] => []
  | v :: xs => (leaves v).map (under (.index i)) ++ leavesItems (i + 1) xs

end

/-- The leaves of entries are those of one entry after the other. -/
theorem leavesEntries_eq_flatMap (m : List (String × Value)) :
    leavesEntries m = m.flatMap fun e => (leaves e.2).map (under (.key e.1)) := by
  induction m with
  | nil => rfl
  | cons e m ih => rw [leavesEntries, ih, List.flatMap_cons]

/-- The leaves of items are those of one item after the other, under their indices. -/
theorem leavesItems_eq_flatMap (i : Nat) (xs : List Value) :
    leavesItems i xs = (xs.zipIdx i).flatMap fun e => (leaves e.1).map (under (.index e.2)) := by
  induction xs generalizing i with
  | nil => rfl
  | cons x xs ih => rw [leavesItems, ih, List.zipIdx_cons, List.flatMap_cons]

/-- No object has a key twice, at any depth. -/
inductive DistinctKeys : Value → Prop
  | null : DistinctKeys .null
  | bool (b : Bool) : DistinctKeys (.bool b)
  | number (n : Number) : DistinctKeys (.number n)
  | string (s : String) : DistinctKeys (.string s)
  | array {xs : List Value} (h : ∀ x ∈ xs, DistinctKeys x) : DistinctKeys (.array xs)
  | object {m : List (String × Value)} (hkeys : (m.map Prod.fst).Nodup)
    (h : ∀ e ∈ m, DistinctKeys e.2) : DistinctKeys (.object m)

private theorem mem_map_under_iff {st : PathStep} {leaves : List (List PathStep × String)}
    {p : List PathStep} {s : String} :
    (p, s) ∈ leaves.map (under st) ↔ ∃ q, p = st :: q ∧ (q, s) ∈ leaves := by
  simp only [List.mem_map, under, Prod.exists, Prod.mk.injEq]
  constructor
  · rintro ⟨q, t, hmem, rfl, rfl⟩
    exact ⟨q, rfl, hmem⟩
  · rintro ⟨q, rfl, hmem⟩
    exact ⟨q, s, hmem, rfl, rfl⟩

/-- The leaves of an array, given those of its elements. -/
private theorem mem_leaves_array_iff {xs : List Value} {s : String}
    (ih : ∀ x ∈ xs, ∀ p, (p, s) ∈ x.leaves ↔ x.nodeAt p = some (.string s)) (p : List PathStep) :
    (p, s) ∈ (array xs).leaves ↔ (array xs).nodeAt p = some (.string s) := by
  rw [leaves, leavesItems_eq_flatMap]
  simp only [List.mem_flatMap, mem_map_under_iff, Prod.exists, List.mk_mem_zipIdx_iff_getElem?]
  constructor
  · rintro ⟨x, i, hx, q, rfl, hmem⟩
    rw [nodeAt_cons, child, asArray, Option.bind_some, hx, Option.bind_some]
    exact (ih x (List.mem_of_getElem? hx) q).mp hmem
  · intro hp
    cases p with
    | nil => cases hp
    | cons st p =>
      obtain ⟨x, hx, hbelow⟩ := Option.bind_eq_some_iff.mp hp
      cases st with
      | key k => cases hx
      | index i => exact ⟨x, i, hx, p, rfl, (ih x (List.mem_of_getElem? hx) p).mpr hbelow⟩

/-- The leaves of an object without repeated keys, given those of its members. -/
private theorem mem_leaves_object_iff {m : List (String × Value)} {s : String}
    (hkeys : (m.map Prod.fst).Nodup)
    (ih : ∀ e ∈ m, ∀ p, (p, s) ∈ e.2.leaves ↔ e.2.nodeAt p = some (.string s))
    (p : List PathStep) :
    (p, s) ∈ (object m).leaves ↔ (object m).nodeAt p = some (.string s) := by
  rw [leaves, leavesEntries_eq_flatMap]
  simp only [List.mem_flatMap, mem_map_under_iff, Prod.exists]
  constructor
  · rintro ⟨k, x, hx, q, rfl, hmem⟩
    rw [nodeAt_cons, child, get_object, (SortedMap.get_eq_some_iff_of_nodup hkeys).mpr hx,
      Option.bind_some]
    exact (ih (k, x) hx q).mp hmem
  · intro hp
    cases p with
    | nil => cases hp
    | cons st p =>
      obtain ⟨x, hx, hbelow⟩ := Option.bind_eq_some_iff.mp hp
      cases st with
      | index i => cases hx
      | key k =>
        have hmem := SortedMap.mem_of_get hx
        exact ⟨k, x, hmem, p, rfl, (ih (k, x) hmem p).mpr hbelow⟩

/-- The leaves are the places that hold strings. -/
theorem mem_leaves_iff {v : Value} (h : v.DistinctKeys) {p : List PathStep} {s : String} :
    (p, s) ∈ v.leaves ↔ v.nodeAt p = some (.string s) := by
  induction v generalizing p with
  | string t =>
    cases p with
    | nil => simp [leaves, eq_comm]
    | cons st p => cases st <;> simp [leaves, nodeAt_cons, child, get, asObject, asArray]
  | array xs ih =>
    obtain - | - | - | - | ⟨h⟩ | - := h
    exact mem_leaves_array_iff (fun x hx p => ih x hx (h x hx)) p
  | object m ih =>
    obtain - | - | - | - | - | ⟨hkeys, h⟩ := h
    exact mem_leaves_object_iff hkeys (fun e he p => ih e he (h e he)) p
  | _ =>
    cases p with
    | nil => simp [leaves]
    | cons st p => cases st <;> simp [leaves, nodeAt_cons, child, get, asObject, asArray]

/-- Leaves below different steps have different paths. -/
private theorem nodup_flatMap_under {α : Type*} {step : α → PathStep} {part : α → Value}
    {l : List α} (hsteps : (l.map step).Nodup)
    (h : ∀ a ∈ l, ((part a).leaves.map Prod.fst).Nodup) :
    ((l.flatMap fun a => (part a).leaves.map (under (step a))).map Prod.fst).Nodup := by
  rw [List.map_flatMap, List.nodup_flatMap]
  constructor
  · intro a ha
    have hmap := (h a ha).map (List.cons_injective (a := step a))
    rwa [List.map_map] at hmap ⊢
  · refine (List.pairwise_map.mp hsteps).imp fun hne => ?_
    apply List.disjoint_left.mpr
    intro p hp hq
    obtain ⟨⟨p₁, s₁⟩, hmem₁, rfl⟩ := List.mem_map.mp hp
    obtain ⟨⟨p₂, s₂⟩, hmem₂, heq⟩ := List.mem_map.mp hq
    obtain ⟨q₁, rfl, -⟩ := mem_map_under_iff.mp hmem₁
    obtain ⟨q₂, rfl, -⟩ := mem_map_under_iff.mp hmem₂
    exact hne (List.cons.inj heq).1.symm

/-- Each place is listed once. -/
theorem nodup_leaves {v : Value} (h : v.DistinctKeys) : (v.leaves.map Prod.fst).Nodup := by
  induction v with
  | array xs ih =>
    obtain - | - | - | - | ⟨h⟩ | - := h
    rw [leaves, leavesItems_eq_flatMap]
    refine nodup_flatMap_under ?_ fun e he => ?_
    · have hindices : (xs.zipIdx.map Prod.snd).Nodup := by
        rw [List.zipIdx_map_snd]
        exact List.nodup_range'
      have hmap := hindices.map fun a b hab => PathStep.index.inj hab
      rwa [List.map_map] at hmap
    · have hmem := List.fst_mem_of_mem_zipIdx he
      exact ih e.1 hmem (h e.1 hmem)
  | object m ih =>
    obtain - | - | - | - | - | ⟨hkeys, h⟩ := h
    rw [leaves, leavesEntries_eq_flatMap]
    refine nodup_flatMap_under ?_ fun e he => ih e he (h e he)
    have hmap := hkeys.map fun a b hab => PathStep.key.inj hab
    rwa [List.map_map] at hmap
  | _ => simp [leaves]

end Value

end Cyanotype
