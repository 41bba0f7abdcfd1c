import Mathlib.Order.Basic
import Mathlib.Order.Lattice
import Mathlib.Data.List.Basic

/-!
# Sorted association lists

An ordered map is the list of its entries in strictly increasing key order.
Reading scans for the first entry of a key and insertion keeps the order, so
the read-after-write laws need no invariant at all; sortedness is what makes
two maps with the same readings the same list. `BTreeMap` bundles a list with
its order. The raw functions are kept separate because a nested inductive type
can store a list of entries but not a bundled map.
-/

namespace Cyanotype.SortedMap

variable {κ ν : Type*} [LinearOrder κ]

/-- The value stored under a key, if any. -/
def get : List (κ × ν) → κ → Option ν
  | [], _ => none
  | (k, v) :: m, j => if j = k then some v else get m j

/-- Store a value under a key at its place in the order, replacing what was there. -/
def insert (k : κ) (v : ν) : List (κ × ν) → List (κ × ν)
  | [] => [(k, v)]
  | (k', v') :: m =>
    if k < k' then (k, v) :: (k', v') :: m
    else if k = k' then (k, v) :: m
    else (k', v') :: insert k v m

/-- Keys strictly increase along the list. -/
def Sorted (m : List (κ × ν)) : Prop := m.Pairwise fun a b => a.1 < b.1

@[simp] theorem get_nil (j : κ) : get ([] : List (κ × ν)) j = none := rfl

/-- A reading looks at the first entry first. -/
theorem get_cons (k : κ) (v : ν) (m : List (κ × ν)) (j : κ) :
    get ((k, v) :: m) j = if j = k then some v else get m j := rfl

@[simp] theorem get_cons_self (k : κ) (v : ν) (m : List (κ × ν)) :
    get ((k, v) :: m) k = some v := by simp [get_cons]

theorem get_cons_ne {k j : κ} (v : ν) (m : List (κ × ν)) (h : j ≠ k) :
    get ((k, v) :: m) j = get m j := by simp [get_cons, h]

/-- A reading is one of the stored entries. -/
theorem mem_of_get {m : List (κ × ν)} {j : κ} {v : ν} (h : get m j = some v) : (j, v) ∈ m := by
  induction m with
  | nil => simp at h
  | cons e m ih =>
    obtain ⟨k, w⟩ := e
    by_cases he : j = k
    · subst he
      simp only [get_cons_self, Option.some.injEq] at h
      simp [h]
    · rw [get_cons_ne w m he] at h
      exact List.mem_cons_of_mem _ (ih h)

/-- A key is readable exactly when some entry carries it. -/
theorem get_ne_none_iff {m : List (κ × ν)} {j : κ} : get m j ≠ none ↔ j ∈ m.map Prod.fst := by
  induction m with
  | nil => simp
  | cons e m ih =>
    obtain ⟨k, w⟩ := e
    by_cases he : j = k
    · simp [he]
    · rw [get_cons_ne w m he, ih]
      simp [he]

/-- Reading after a write: the written key gives the new value, every other key the old one. -/
theorem get_insert (m : List (κ × ν)) (k : κ) (v : ν) (j : κ) :
    get (insert k v m) j = if j = k then some v else get m j := by
  induction m with
  | nil => simp [insert, get_cons]
  | cons e m ih =>
    obtain ⟨k', v'⟩ := e
    unfold insert
    by_cases hlt : k < k'
    · rw [if_pos hlt, get_cons]
    · rw [if_neg hlt]
      by_cases heq : k = k'
      · subst heq
        rw [if_pos rfl, get_cons, get_cons]
        by_cases hj : j = k <;> simp [hj]
      · rw [if_neg heq, get_cons, get_cons, ih]
        by_cases hj : j = k
        · simp [hj, heq]
        · simp [hj]

@[simp] theorem get_insert_self (m : List (κ × ν)) (k : κ) (v : ν) :
    get (insert k v m) k = some v := by simp [get_insert]

theorem get_insert_ne (m : List (κ × ν)) {k j : κ} (v : ν) (h : j ≠ k) :
    get (insert k v m) j = get m j := by simp [get_insert, h]

/-- A key above a whole prefix is inserted behind it. -/
theorem insert_append {m : List (κ × ν)} {k : κ} (h : ∀ e ∈ m, e.1 < k) (v : ν)
    (rest : List (κ × ν)) : insert k v (m ++ rest) = m ++ insert k v rest := by
  induction m with
  | nil => rfl
  | cons e m ih =>
    have he : e.1 < k := h e List.mem_cons_self
    rw [List.cons_append, insert, if_neg he.not_gt, if_neg he.ne',
      ih fun e' he' => h e' (List.mem_cons_of_mem _ he'), List.cons_append]

/-- Insertion adds no entry besides the written one. -/
theorem mem_insert {m : List (κ × ν)} {k : κ} {v : ν} {e : κ × ν} (h : e ∈ insert k v m) :
    e = (k, v) ∨ e ∈ m := by
  induction m with
  | nil => simpa [insert] using h
  | cons e' m ih =>
    obtain ⟨k', v'⟩ := e'
    unfold insert at h
    split_ifs at h with hlt heq
    · simpa using h
    · rcases List.mem_cons.mp h with rfl | h
      · exact Or.inl rfl
      · exact Or.inr (List.mem_cons_of_mem _ h)
    · rcases List.mem_cons.mp h with rfl | h
      · exact Or.inr List.mem_cons_self
      · exact (ih h).imp_right (List.mem_cons_of_mem _)

/-- Entries inserted under distinct keys are all kept. -/
theorem get_foldl_insert_of_nodup {xs : List (κ × ν)} (h : (xs.map Prod.fst).Nodup)
    (m : List (κ × ν)) (k : κ) :
    get (xs.foldl (fun m e => insert e.1 e.2 m) m) k = (get xs k).or (get m k) := by
  induction xs generalizing m with
  | nil => simp
  | cons e xs ih =>
    obtain ⟨j, v⟩ := e
    obtain ⟨hj, hxs⟩ := List.nodup_cons.mp h
    rw [List.foldl_cons, ih hxs, get_insert]
    by_cases hk : k = j
    · subst hk
      have hnone : get xs k = none := by
        by_contra hne
        exact hj (get_ne_none_iff.mp hne)
      simp [hnone]
    · simp [get_cons_ne _ _ hk, hk]

/-- Renaming the keys injectively does not change what is read. -/
theorem get_map_of_injective {κ' ν' : Type*} [LinearOrder κ'] {f : κ → κ'}
    (hf : Function.Injective f) (g : κ → ν → ν') (m : List (κ × ν)) (k : κ) :
    get (m.map fun e => (f e.1, g e.1 e.2)) (f k) = (get m k).map (g k) := by
  induction m with
  | nil => rfl
  | cons e m ih =>
    obtain ⟨j, v⟩ := e
    rw [List.map_cons, get_cons, get_cons, ih]
    by_cases hk : k = j
    · simp [hk]
    · simp [hk, hf.ne hk]

/-- Insertion keeps the key order. -/
theorem Sorted.insert {m : List (κ × ν)} (h : Sorted m) (k : κ) (v : ν) :
    Sorted (insert k v m) := by
  induction m with
  | nil => simp [Sorted, SortedMap.insert]
  | cons e m ih =>
    obtain ⟨k', v'⟩ := e
    obtain ⟨hhead, htail⟩ := List.pairwise_cons.mp h
    unfold SortedMap.insert
    split_ifs with hlt heq
    · refine List.pairwise_cons.mpr ⟨fun a ha => ?_, h⟩
      rcases List.mem_cons.mp ha with rfl | ha
      · exact hlt
      · exact hlt.trans (hhead a ha)
    · subst heq
      exact List.pairwise_cons.mpr ⟨hhead, htail⟩
    · refine List.pairwise_cons.mpr ⟨fun a ha => ?_, ih htail⟩
      rcases mem_insert ha with rfl | ha
      · exact lt_of_le_of_ne (not_lt.mp hlt) (Ne.symm heq)
      · exact hhead a ha

/-- Under distinct keys the entries are exactly the readings. -/
theorem get_eq_some_iff_of_nodup {m : List (κ × ν)} (h : (m.map Prod.fst).Nodup) {k : κ} {v : ν} :
    get m k = some v ↔ (k, v) ∈ m := by
  refine ⟨mem_of_get, fun hm => ?_⟩
  induction m with
  | nil => simp at hm
  | cons e m ih =>
    obtain ⟨k', v'⟩ := e
    obtain ⟨hk', hnodup⟩ := List.nodup_cons.mp h
    rcases List.mem_cons.mp hm with he | htail
    · obtain ⟨rfl, rfl⟩ := Prod.mk.inj he
      simp
    · have hne : k ≠ k' := by
        rintro rfl
        exact hk' (List.mem_map.mpr ⟨(k, v), htail, rfl⟩)
      rw [get_cons_ne v' m hne]
      exact ih hnodup htail

/-- A sorted list has distinct keys. -/
theorem Sorted.nodup {m : List (κ × ν)} (h : Sorted m) : (m.map Prod.fst).Nodup := by
  rw [List.Nodup, List.pairwise_map]
  exact h.imp ne_of_lt

/-- In a sorted list an entry is what its key reads. -/
theorem Sorted.get_of_mem {m : List (κ × ν)} (h : Sorted m) {k : κ} {v : ν}
    (hm : (k, v) ∈ m) : get m k = some v := (get_eq_some_iff_of_nodup h.nodup).mpr hm

/-- No key of the tail of a sorted list repeats the head key. -/
private theorem Sorted.get_head_tail {k : κ} {v : ν} {m : List (κ × ν)}
    (h : Sorted ((k, v) :: m)) : get m k = none := by
  by_contra hne
  obtain ⟨e, he, hk⟩ := List.mem_map.mp (get_ne_none_iff.mp hne)
  have hlt := (List.pairwise_cons.mp h).1 e he
  rw [hk] at hlt
  exact lt_irrefl k hlt

/-- The head key of a sorted list is its least. -/
private theorem Sorted.head_le {k j : κ} {v : ν} {m : List (κ × ν)} (h : Sorted ((k, v) :: m))
    (hj : get ((k, v) :: m) j ≠ none) : k ≤ j := by
  obtain ⟨e, he, rfl⟩ := List.mem_map.mp (get_ne_none_iff.mp hj)
  rcases List.mem_cons.mp he with rfl | he
  · exact le_rfl
  · exact ((List.pairwise_cons.mp h).1 e he).le

/-! ## Related lists -/

variable {ν' : Type*}

/-- The same keys in the same order, with related values. -/
def Related (R : κ → ν → ν' → Prop) : List (κ × ν) → List (κ × ν') → Prop :=
  List.Forall₂ fun a b => a.1 = b.1 ∧ R a.1 a.2 b.2

/-- Insertion of related values keeps lists related. -/
theorem Related.insert {R : κ → ν → ν' → Prop} {m : List (κ × ν)} {n : List (κ × ν')}
    (h : Related R m n) {k : κ} {v : ν} {w : ν'} (hk : R k v w) :
    Related R (insert k v m) (insert k w n) := by
  induction h with
  | nil => exact .cons ⟨rfl, hk⟩ .nil
  | @cons a b m n hab hmn ih =>
    obtain ⟨j, v'⟩ := a
    obtain ⟨j', w'⟩ := b
    obtain ⟨rfl, hab⟩ := hab
    unfold SortedMap.insert
    split_ifs
    · exact .cons ⟨rfl, hk⟩ (.cons ⟨rfl, hab⟩ hmn)
    · exact .cons ⟨rfl, hk⟩ hmn
    · exact .cons ⟨rfl, hab⟩ ih

/-- Sorted lists with related readings are related entry by entry. -/
theorem Sorted.related_of_get {R : κ → ν → ν' → Prop} {m : List (κ × ν)} {n : List (κ × ν')}
    (hm : Sorted m) (hn : Sorted n) (h : ∀ k, Option.Rel (R k) (get m k) (get n k)) :
    Related R m n := by
  have hkeys : ∀ k, get m k = none ↔ get n k = none := by
    intro k
    have hk := h k
    revert hk
    cases get m k <;> cases get n k <;> intro hk
    · simp
    · cases hk
    · cases hk
    · simp
  induction m generalizing n with
  | nil =>
    cases n with
    | nil => exact .nil
    | cons b n =>
      have hb := (hkeys b.1).mp rfl
      rw [get_cons_self] at hb
      cases hb
  | cons a m ih =>
    obtain ⟨k₁, v⟩ := a
    cases n with
    | nil =>
      have ha := (hkeys k₁).mpr rfl
      rw [get_cons_self] at ha
      cases ha
    | cons b n =>
      obtain ⟨k₂, w⟩ := b
      -- Each head key occurs in the other list, so neither is below the other.
      have hle₁ : k₁ ≤ k₂ := hm.head_le fun hnone => by simpa using (hkeys k₂).mp hnone
      have hle₂ : k₂ ≤ k₁ := hn.head_le fun hnone => by simpa using (hkeys k₁).mpr hnone
      obtain rfl := le_antisymm hle₁ hle₂
      have hvw := h k₁
      rw [get_cons_self, get_cons_self] at hvw
      cases hvw with
      | some hvw =>
        have htail : ∀ k, k = k₁ → get m k = none ∧ get n k = none := by
          rintro k rfl
          exact ⟨hm.get_head_tail, hn.get_head_tail⟩
        refine .cons ⟨rfl, hvw⟩ (ih hm.of_cons hn.of_cons ?_ ?_)
        · intro k
          by_cases hk : k = k₁
          · rw [(htail k hk).1, (htail k hk).2]
            exact .none
          · simpa only [get_cons_ne _ _ hk] using h k
        · intro k
          by_cases hk : k = k₁
          · exact iff_of_true (htail k hk).1 (htail k hk).2
          · simpa only [get_cons_ne _ _ hk] using hkeys k

omit [LinearOrder κ] in
/-- Related lists have the same keys. -/
theorem Related.keys_eq {R : κ → ν → ν' → Prop} {m : List (κ × ν)} {n : List (κ × ν')}
    (h : Related R m n) : m.map Prod.fst = n.map Prod.fst := by
  induction h with
  | nil => rfl
  | cons hab _ ih => rw [List.map_cons, List.map_cons, ih, hab.1]

omit [LinearOrder κ] in
/-- Lists with the same keys and equal values are equal. -/
theorem Related.eq {m n : List (κ × ν)} (h : Related (fun _ => Eq) m n) : m = n := by
  induction h with
  | nil => rfl
  | cons hab _ ih => rw [ih, Prod.ext hab.1 hab.2]

/-- Sorted lists with the same readings are the same list. -/
theorem Sorted.ext {m₁ m₂ : List (κ × ν)} (h₁ : Sorted m₁) (h₂ : Sorted m₂)
    (h : ∀ k, get m₁ k = get m₂ k) : m₁ = m₂ := by
  refine (h₁.related_of_get h₂ fun k => ?_).eq
  rw [h k]
  cases get m₂ k
  · exact .none
  · exact .some rfl

end Cyanotype.SortedMap

namespace Cyanotype

/-- An ordered map: entries in strictly increasing key order. -/
structure BTreeMap (κ ν : Type*) [LinearOrder κ] where
  /-- The entries, in iteration order. -/
  entries : List (κ × ν)
  /-- Keys strictly increase, so no key occurs twice. -/
  sorted : SortedMap.Sorted entries

namespace BTreeMap

variable {κ ν : Type*} [LinearOrder κ]

/-- The map without entries. -/
def empty : BTreeMap κ ν := ⟨[], List.Pairwise.nil⟩

/-- The value under a key. -/
def get (m : BTreeMap κ ν) (k : κ) : Option ν := SortedMap.get m.entries k

/-- Store a value, replacing the one under the same key. -/
def insert (m : BTreeMap κ ν) (k : κ) (v : ν) : BTreeMap κ ν :=
  ⟨SortedMap.insert k v m.entries, m.sorted.insert k v⟩

/-- Store a value only when the key is vacant. -/
def orInsert (m : BTreeMap κ ν) (k : κ) (v : ν) : BTreeMap κ ν :=
  match m.get k with
  | some _ => m
  | none => m.insert k v

/-- Update the value under a key in place, starting a vacant key from a default. -/
def upsert (m : BTreeMap κ ν) (k : κ) (default : ν) (f : ν → ν) : BTreeMap κ ν :=
  m.insert k (f ((m.get k).getD default))

/-- Whether the map has no entry. -/
def isEmpty (m : BTreeMap κ ν) : Bool := m.entries.isEmpty

@[simp] theorem get_entries (m : BTreeMap κ ν) (k : κ) : SortedMap.get m.entries k = m.get k := rfl

@[simp] theorem get_empty (k : κ) : (empty : BTreeMap κ ν).get k = none := rfl

theorem get_insert (m : BTreeMap κ ν) (k : κ) (v : ν) (j : κ) :
    (m.insert k v).get j = if j = k then some v else m.get j := SortedMap.get_insert ..

@[simp] theorem get_insert_self (m : BTreeMap κ ν) (k : κ) (v : ν) :
    (m.insert k v).get k = some v := SortedMap.get_insert_self ..

theorem get_insert_ne (m : BTreeMap κ ν) {k j : κ} (v : ν) (h : j ≠ k) :
    (m.insert k v).get j = m.get j := SortedMap.get_insert_ne _ v h

/-- A value that is there is kept, and one that is not is stored. -/
theorem get_orInsert (m : BTreeMap κ ν) (k : κ) (v : ν) (j : κ) :
    (m.orInsert k v).get j = if j = k then some ((m.get k).getD v) else m.get j := by
  unfold orInsert
  cases hm : m.get k with
  | none => simp [get_insert]
  | some w =>
    by_cases hj : j = k
    · simp [hj, hm]
    · simp [hj]

/-- The value under the key is changed, or the default where there is none. -/
theorem get_upsert (m : BTreeMap κ ν) (k : κ) (d : ν) (f : ν → ν) (j : κ) :
    (m.upsert k d f).get j = if j = k then some (f ((m.get k).getD d)) else m.get j :=
  get_insert ..

/-- Entries are exactly the readings. -/
theorem mem_entries_iff (m : BTreeMap κ ν) {k : κ} {v : ν} :
    (k, v) ∈ m.entries ↔ m.get k = some v :=
  ⟨m.sorted.get_of_mem, SortedMap.mem_of_get⟩

/-- Keys are listed once. -/
theorem nodup_keys (m : BTreeMap κ ν) : (m.entries.map Prod.fst).Nodup := m.sorted.nodup

/-- A map is empty when no key can be read. -/
theorem isEmpty_iff (m : BTreeMap κ ν) : m.isEmpty = true ↔ ∀ k, m.get k = none := by
  obtain ⟨entries, sorted⟩ := m
  cases entries with
  | nil => exact ⟨fun _ _ => rfl, fun _ => rfl⟩
  | cons e entries =>
    constructor
    · intro h
      exact absurd h (by simp [isEmpty])
    · intro h
      have he : SortedMap.get (e :: entries) e.1 = none := h e.1
      rw [SortedMap.get_cons_self] at he
      cases he

/-- A map is determined by its readings. -/
theorem ext {m₁ m₂ : BTreeMap κ ν} (h : ∀ k, m₁.get k = m₂.get k) : m₁ = m₂ := by
  obtain ⟨e₁, s₁⟩ := m₁
  obtain ⟨e₂, s₂⟩ := m₂
  obtain rfl : e₁ = e₂ := s₁.ext s₂ h
  rfl

end BTreeMap

end Cyanotype
