import Cyanotype.Core.SortedMap
import Mathlib.Data.Rat.Defs
import Mathlib.Order.MinMax
import Mathlib.Data.String.Basic

/-!
# JSON values

The value type of `serde_json`: integers and finite binary64 floats are kept
apart, and an object is the entry list of an ordered map. Equality of values is
the numeric one on floats, so `0.0` and `-0.0` are equal although they are
different values. Recursive functions go through the two list types of the
nesting; `Value.induction` is the matching induction rule and `Value.depth` the
measure for functions that recurse on values gathered from several documents.
-/

namespace Cyanotype

/-- A finite binary64 number: sign, integer significand and binary exponent in
canonical form. -/
structure F64 where
  neg : Bool
  mantissa : Nat
  exponent : Int
  /-- The significand fits 53 bits and is normal unless the exponent is the least one. -/
  canonical : mantissa < 2 ^ 53 ∧ -1074 ≤ exponent ∧ exponent ≤ 971 ∧
    (2 ^ 52 ≤ mantissa ∨ exponent = -1074)
  deriving DecidableEq

/-- The rational number a finite float stands for. -/
def F64.toRat (x : F64) : ℚ :=
  let size : ℚ :=
    if 0 ≤ x.exponent then (x.mantissa * 2 ^ x.exponent.toNat : ℕ)
    else mkRat x.mantissa (2 ^ (-x.exponent).toNat)
  if x.neg then -size else size

/-- `serde_json::Number`: an unsigned integer, a negative integer `-(n + 1)`, or
a finite float. -/
inductive Number where
  | posInt (n : Nat)
  | negInt (n : Nat)
  | float (x : F64)
  deriving DecidableEq

namespace Number

/-- The largest `i64`. -/
def i64Max : Nat := 2 ^ 63 - 1

/-- The number is an integer that an `i64` holds. -/
def isI64 : Number → Bool
  | posInt n => n ≤ i64Max
  | negInt _ => true
  | float _ => false

/-- The number is an integer that a `u64` holds. -/
def isU64 : Number → Bool
  | posInt _ => true
  | negInt _ => false
  | float _ => false

/-- The rational number a JSON number stands for. -/
def toRat : Number → ℚ
  | posInt n => n
  | negInt n => -(n + 1 : ℕ)
  | float x => x.toRat

/-- Whole in value, however it is written. -/
def isWhole (n : Number) : Bool := n.toRat.den == 1

/-- `PartialEq`: same representation and, on floats, the same number. -/
def beq : Number → Number → Bool
  | posInt a, posInt b => a == b
  | negInt a, negInt b => a == b
  | float x, float y => x.toRat == y.toRat
  | _, _ => false

theorem beq_refl (n : Number) : n.beq n = true := by
  cases n <;> simp [Number.beq]

theorem beq_trans {a b c : Number} (hab : a.beq b = true) (hbc : b.beq c = true) :
    a.beq c = true := by
  cases a <;> cases b <;> cases c <;> simp_all [Number.beq]

/-- An integer representation is whole in value. -/
theorem isWhole_of_isInteger {n : Number} (h : (n.isI64 || n.isU64) = true) :
    n.isWhole = true := by
  cases n with
  | posInt n => simp [isWhole, toRat]
  | negInt n => simp only [isWhole, toRat, Rat.neg_den, Rat.den_natCast, beq_self_eq_true]
  | float x => simp [isI64, isU64] at h

end Number

/-- `serde_json::Value`. -/
inductive Value where
  | null
  | bool (b : Bool)
  | number (n : Number)
  | string (s : String)
  | array (xs : List Value)
  | object (m : List (String × Value))

namespace Value

/-- Induction with one case per JSON constructor. -/
@[elab_as_elim, induction_eliminator]
theorem induction {P : Value → Prop} (null : P null) (bool : ∀ b, P (bool b))
    (number : ∀ n, P (number n)) (string : ∀ s, P (string s))
    (array : ∀ xs, (∀ x ∈ xs, P x) → P (array xs))
    (object : ∀ m, (∀ e ∈ m, P e.2) → P (object m)) (v : Value) : P v := by
  refine Value.rec (motive_1 := P) (motive_2 := fun xs => ∀ x ∈ xs, P x)
    (motive_3 := fun m => ∀ e ∈ m, P e.2) (motive_4 := fun e => P e.2)
    null bool number string (fun xs ih => array xs ih) (fun m ih => object m ih)
    ?_ ?_ ?_ ?_ (fun _ _ ih => ih) v
  · exact fun x hx => absurd hx List.not_mem_nil
  · exact fun _ _ hx hxs => List.forall_mem_cons.mpr ⟨hx, hxs⟩
  · exact fun x hx => absurd hx List.not_mem_nil
  · exact fun _ _ he hm => List.forall_mem_cons.mpr ⟨he, hm⟩

/-! ## Kinds and reading -/

/-- `Value::is_null`. -/
def isNull : Value → Bool
  | null => true
  | _ => false

/-- `Value::is_object`. -/
def isObject : Value → Bool
  | object _ => true
  | _ => false

/-- `Value::is_array`. -/
def isArray : Value → Bool
  | array _ => true
  | _ => false

/-- `Value::as_object`, by the entries of the map. -/
def asObject : Value → Option (List (String × Value))
  | object m => some m
  | _ => none

/-- `Value::as_array`. -/
def asArray : Value → Option (List Value)
  | array xs => some xs
  | _ => none

/-- `Value::get` with a string index. -/
def get (v : Value) (k : String) : Option Value :=
  v.asObject.bind fun m => SortedMap.get m k

@[simp] theorem get_object (m : List (String × Value)) (k : String) :
    (object m).get k = SortedMap.get m k := rfl

theorem isNull_iff {v : Value} : v.isNull = true ↔ v = null := by cases v <;> simp [isNull]

/-- Objects are the values written with the constructor. -/
theorem isObject_iff {v : Value} : v.isObject = true ↔ ∃ m, v = object m := by
  cases v <;> simp [isObject]

/-- Arrays are the values written with the constructor. -/
theorem isArray_iff {v : Value} : v.isArray = true ↔ ∃ xs, v = array xs := by
  cases v <;> simp [isArray]

/-- Only objects have members. -/
theorem get_eq_some_iff {v : Value} {k : String} {x : Value} :
    v.get k = some x ↔ ∃ m, v = object m ∧ SortedMap.get m k = some x := by
  cases v <;> simp [get, asObject]

/-! ## Building -/

/-- `json!({ .. })`: the members inserted in the order written. -/
def ofFields (fields : List (String × Value)) : Value :=
  object (fields.foldl (fun m e => SortedMap.insert e.1 e.2 m) [])

/-- Assignment through a string index, `v[k] = x`. Indexing a value that is
neither an object nor null panics in the source and leaves the value here. -/
def setField (v : Value) (k : String) (x : Value) : Value :=
  match v with
  | object m => object (SortedMap.insert k x m)
  | null => object [(k, x)]
  | other => other

/-- Assignment below a member, `v[k] .. = ..`: the member is changed in place. -/
def updateField (v : Value) (k : String) (f : Value → Value) : Value :=
  v.setField k (f ((v.get k).getD null))

/-- A count written as a JSON number. -/
def ofNat (n : Nat) : Value := number (.posInt n)

theorem get_setField_object (m : List (String × Value)) (k : String) (x : Value) (j : String) :
    ((object m).setField k x).get j = if j = k then some x else (object m).get j :=
  SortedMap.get_insert ..

/-- Reading an object after an assignment. -/
theorem get_setField {v : Value} (hv : v.isObject = true) (k : String) (x : Value) (j : String) :
    (v.setField k x).get j = if j = k then some x else v.get j := by
  obtain ⟨m, rfl⟩ := isObject_iff.mp hv
  exact get_setField_object m k x j

@[simp] theorem isObject_ofFields (fields : List (String × Value)) :
    (ofFields fields).isObject = true := isObject_iff.mpr ⟨_, rfl⟩

@[simp] theorem isObject_setField (v : Value) (k : String) (x : Value) (hv : v.isObject = true) :
    (v.setField k x).isObject = true := by
  obtain ⟨m, rfl⟩ := isObject_iff.mp hv
  rfl

/-- Reading an object after an assignment that is skipped under a condition. -/
theorem get_unless_setField {v : Value} (hv : v.isObject = true) (c : Prop) [Decidable c]
    (k : String) (x : Value) (j : String) :
    (if c then v else v.setField k x).get j =
      if j = k then if c then v.get j else some x else v.get j := by
  by_cases hc : c
  · simp [hc]
  · simp [hc, get_setField hv]

theorem isObject_unless_setField {v : Value} (hv : v.isObject = true) (c : Prop) [Decidable c]
    (k : String) (x : Value) : (if c then v else v.setField k x).isObject = true := by
  by_cases hc : c <;> simp [hc, hv]

/-- Members written under distinct names are all readable. -/
theorem get_ofFields {fields : List (String × Value)} (h : (fields.map Prod.fst).Nodup)
    (k : String) : (ofFields fields).get k = SortedMap.get fields k := by
  rw [ofFields, get_object, SortedMap.get_foldl_insert_of_nodup h, SortedMap.get_nil,
    Option.or_none]

/-- Members assigned one by one to an object are inserted into its map. -/
theorem foldl_setField {α : Type*} (name : α → String) (value : α → Value) (xs : List α)
    (m : BTreeMap String Value) :
    xs.foldl (fun v x => v.setField (name x) (value x)) (object m.entries) =
      object (xs.foldl (fun m x => m.insert (name x) (value x)) m).entries := by
  induction xs generalizing m with
  | nil => rfl
  | cons x xs ih =>
    rw [List.foldl_cons, List.foldl_cons, ← ih]
    rfl

/-! ## Related objects -/

/-- Objects with the same keys in the same order and related members. -/
def ObjectRel (R : String → Value → Value → Prop) (a b : Value) : Prop :=
  ∃ m n, a = object m ∧ b = object n ∧ SortedMap.Related R m n

/-- Related objects stay related when related values are assigned to one key. -/
theorem ObjectRel.setField {R : String → Value → Value → Prop} {a b : Value}
    (h : ObjectRel R a b) {k : String} {x y : Value} (hxy : R k x y) :
    ObjectRel R (a.setField k x) (b.setField k y) := by
  obtain ⟨m, n, rfl, rfl, hmn⟩ := h
  exact ⟨_, _, rfl, rfl, hmn.insert hxy⟩

theorem ObjectRel.unless_setField {R : String → Value → Value → Prop} {a b : Value}
    (h : ObjectRel R a b) (c : Prop) [Decidable c] {k : String} {x y : Value}
    (hxy : ¬ c → R k x y) :
    ObjectRel R (if c then a else a.setField k x) (if c then b else b.setField k y) := by
  split_ifs with hc
  · exact h
  · exact h.setField (hxy hc)

/-- Objects written with related members under the same names are related. -/
theorem objectRel_ofFields {R : String → Value → Value → Prop}
    {fields fields' : List (String × Value)} (h : SortedMap.Related R fields fields') :
    ObjectRel R (ofFields fields) (ofFields fields') := by
  have hfold : ∀ m n, SortedMap.Related R m n →
      SortedMap.Related R (fields.foldl (fun m e => SortedMap.insert e.1 e.2 m) m)
        (fields'.foldl (fun m e => SortedMap.insert e.1 e.2 m) n) := by
    induction h with
    | nil => exact fun _ _ hmn => hmn
    | cons hab _ ih =>
      intro m n hmn
      rw [List.foldl_cons, List.foldl_cons, ← hab.1]
      exact ih _ _ (hmn.insert hab.2)
  exact ⟨_, _, rfl, rfl, hfold [] [] .nil⟩

/-- Maps with related readings are related as objects. -/
theorem objectRel_of_get {R : String → Value → Value → Prop} {m n : BTreeMap String Value}
    (h : ∀ k, Option.Rel (R k) (m.get k) (n.get k)) :
    ObjectRel R (object m.entries) (object n.entries) :=
  ⟨_, _, rfl, rfl, m.sorted.related_of_get n.sorted h⟩

/-! ## Equality -/

mutual

/-- `PartialEq` of values: structural, with floats compared as numbers. -/
def beq : Value → Value → Bool
  | null, null => true
  | bool a, bool b => a == b
  | number a, number b => a.beq b
  | string a, string b => a == b
  | array xs, array ys => beqList xs ys
  | object m, object n => beqEntries m n
  | _, _ => false

/-- Equality of the items of two arrays. -/
def beqList : List Value → List Value → Bool
  | [], [] => true
  | x :: xs, y :: ys => beq x y && beqList xs ys
  | _, _ => false

/-- Equality of the entries of two objects. -/
def beqEntries : List (String × Value) → List (String × Value) → Bool
  | [], [] => true
  | (k, x) :: m, (j, y) :: n => k == j && beq x y && beqEntries m n
  | _, _ => false

end

private theorem beqList_refl {xs : List Value} (ih : ∀ x ∈ xs, x.beq x = true) :
    beqList xs xs = true := by
  induction xs with
  | nil => rfl
  | cons x xs ihxs =>
    rw [List.forall_mem_cons] at ih
    rw [beqList, ih.1, ihxs ih.2, Bool.and_self]

private theorem beqEntries_refl {m : List (String × Value)} (ih : ∀ e ∈ m, e.2.beq e.2 = true) :
    beqEntries m m = true := by
  induction m with
  | nil => rfl
  | cons e m ihm =>
    rw [List.forall_mem_cons] at ih
    rw [beqEntries, ih.1, ihm ih.2, beq_self_eq_true, Bool.and_self, Bool.and_self]

/-- Every value equals itself, as JSON has no NaN. -/
theorem beq_refl (v : Value) : v.beq v = true := by
  induction v with
  | null => rfl
  | bool b => exact beq_self_eq_true b
  | number n => exact n.beq_refl
  | string s => exact beq_self_eq_true s
  | array xs ih => exact beqList_refl ih
  | object m ih => exact beqEntries_refl ih

private theorem beqList_trans {xs ys zs : List Value}
    (ih : ∀ x ∈ xs, ∀ {y z : Value}, x.beq y = true → y.beq z = true → x.beq z = true)
    (hxy : beqList xs ys = true) (hyz : beqList ys zs = true) : beqList xs zs = true := by
  induction xs generalizing ys zs with
  | nil =>
    cases ys with
    | nil => exact hyz
    | cons y ys => cases hxy
  | cons x xs ihxs =>
    cases ys with
    | nil => cases hxy
    | cons y ys =>
      cases zs with
      | nil => cases hyz
      | cons z zs =>
        rw [List.forall_mem_cons] at ih
        rw [beqList, Bool.and_eq_true] at hxy hyz ⊢
        exact ⟨ih.1 hxy.1 hyz.1, ihxs ih.2 hxy.2 hyz.2⟩

private theorem beqEntries_trans {m n o : List (String × Value)}
    (ih : ∀ e ∈ m, ∀ {y z : Value}, e.2.beq y = true → y.beq z = true → e.2.beq z = true)
    (hmn : beqEntries m n = true) (hno : beqEntries n o = true) : beqEntries m o = true := by
  induction m generalizing n o with
  | nil =>
    cases n with
    | nil => exact hno
    | cons e n => cases hmn
  | cons e m ihm =>
    cases n with
    | nil => cases hmn
    | cons e' n =>
      cases o with
      | nil => cases hno
      | cons e'' o =>
        rw [List.forall_mem_cons] at ih
        simp only [beqEntries, Bool.and_eq_true, beq_iff_eq] at hmn hno ⊢
        obtain ⟨⟨hkey, hvalue⟩, hrest⟩ := hmn
        obtain ⟨⟨hkey', hvalue'⟩, hrest'⟩ := hno
        exact ⟨⟨hkey.trans hkey', ih.1 hvalue hvalue'⟩, ihm ih.2 hrest hrest'⟩

/-- Values that equal the same value are equal, by constructors. -/
theorem beq_trans {a b c : Value} (hab : a.beq b = true) (hbc : b.beq c = true) :
    a.beq c = true := by
  induction a generalizing b c with
  | array xs ih =>
    cases b with
    | array ys =>
      cases c with
      | array zs => exact beqList_trans (fun x hx => ih x hx) hab hbc
      | _ => cases hbc
    | _ => cases hab
  | object m ih =>
    cases b with
    | object n =>
      cases c with
      | object o => exact beqEntries_trans (fun e he => ih e he) hab hbc
      | _ => cases hbc
    | _ => cases hab
  | number n =>
    cases b with
    | number n' =>
      cases c with
      | number n'' => exact Number.beq_trans hab hbc
      | _ => cases hbc
    | _ => cases hab
  | null =>
    cases b with
    | null => exact hbc
    | _ => cases hab
  | bool x =>
    cases b with
    | bool y =>
      obtain rfl : x = y := eq_of_beq hab
      exact hbc
    | _ => cases hab
  | string s =>
    cases b with
    | string t =>
      obtain rfl : s = t := eq_of_beq hab
      exact hbc
    | _ => cases hab

/-! ## Depth -/

mutual

/-- Nesting depth of arrays and objects. -/
def depth : Value → Nat
  | array xs => depthList xs + 1
  | object m => depthEntries m + 1
  | _ => 0

/-- Greatest depth in a list. -/
def depthList : List Value → Nat
  | [] => 0
  | x :: xs => max (depth x) (depthList xs)

/-- Greatest depth of a member. -/
def depthEntries : List (String × Value) → Nat
  | [] => 0
  | (_, x) :: m => max (depth x) (depthEntries m)

end

/-- The depth of a list bounds the depth of its items, and is the least such bound. -/
theorem depthList_le_iff {xs : List Value} {n : Nat} :
    depthList xs ≤ n ↔ ∀ x ∈ xs, x.depth ≤ n := by
  induction xs with
  | nil => simp [depthList]
  | cons x xs ih => simp [depthList, ih]

theorem depth_le_depthList {xs : List Value} {x : Value} (h : x ∈ xs) :
    x.depth ≤ depthList xs := depthList_le_iff.mp le_rfl x h

/-- The depth of a list of entries bounds the depth of their values. -/
theorem depthEntries_le_iff {m : List (String × Value)} {n : Nat} :
    depthEntries m ≤ n ↔ ∀ e ∈ m, e.2.depth ≤ n := by
  induction m with
  | nil => simp [depthEntries]
  | cons e m ih => simp [depthEntries, ih]

/-- An element lies strictly below its array. -/
theorem depth_lt_of_mem {xs : List Value} {x : Value} (h : x ∈ xs) :
    x.depth < (array xs).depth := by
  rw [depth]
  exact Nat.lt_succ_of_le (depth_le_depthList h)

/-- A member lies strictly below its object. -/
theorem depth_lt_of_get {v x : Value} {k : String} (h : v.get k = some x) :
    x.depth < v.depth := by
  obtain ⟨m, rfl, hm⟩ := get_eq_some_iff.mp h
  rw [depth]
  exact Nat.lt_succ_of_le (depthEntries_le_iff.mp le_rfl _ (SortedMap.mem_of_get hm))

end Value

end Cyanotype
