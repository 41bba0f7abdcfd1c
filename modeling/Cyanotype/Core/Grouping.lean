import Cyanotype.Core.SortedMap
import Mathlib.Data.List.Perm.Basic

/-!
# Grouping folds

One pass over a list that updates an ordered map under the key of each element
computes, under every key, the same fold over the elements with that key. With
`orInsert` in place of an update, the first entry of each key wins; with
`insert` under distinct keys, every entry stays.
-/

namespace Cyanotype.BTreeMap

variable {α κ ν : Type*} [LinearOrder κ]

/-- Updating per element is folding per key. -/
theorem get_foldl_upsert (key : α → κ) (d : ν) (f : α → ν → ν) (xs : List α)
    (m : BTreeMap κ ν) (k : κ) :
    (xs.foldl (fun m x => m.upsert (key x) d (f x)) m).get k =
      if xs.filter (key · = k) = [] then m.get k
      else some ((xs.filter (key · = k)).foldl (fun v x => f x v) ((m.get k).getD d)) := by
  induction xs generalizing m with
  | nil => simp
  | cons x xs ih =>
    rw [List.foldl_cons, ih, get_upsert]
    by_cases h : key x = k
    · subst h
      simp only [if_true, Option.getD_some, List.filter_cons, decide_true, List.cons_ne_nil,
        if_false, List.foldl_cons]
      by_cases hnil : xs.filter (key · = key x) = []
      · simp [hnil]
      · rw [if_neg hnil]
    · simp [h, Ne.symm h]

/-- A key is present exactly when some element has it. -/
theorem get_foldl_upsert_empty (key : α → κ) (d : ν) (f : α → ν → ν) (xs : List α) (k : κ) :
    (xs.foldl (fun m x => m.upsert (key x) d (f x)) empty).get k =
      if xs.filter (key · = k) = [] then none
      else some ((xs.filter (key · = k)).foldl (fun v x => f x v) d) := by
  rw [get_foldl_upsert, get_empty, Option.getD_none]

/-- With vacant-only insertion the first entry of a key stays. -/
theorem get_foldl_orInsert (xs : List (κ × ν)) (m : BTreeMap κ ν) (k : κ) :
    (xs.foldl (fun m e => m.orInsert e.1 e.2) m).get k =
      (m.get k).or ((xs.find? (·.1 = k)).map Prod.snd) := by
  induction xs generalizing m with
  | nil => simp
  | cons e xs ih =>
    rw [List.foldl_cons, ih, get_orInsert]
    by_cases h : e.1 = k
    · subst h
      cases m.get e.1 <;> simp
    · simp [h, Ne.symm h]

/-- Entries inserted under distinct keys are all kept. -/
theorem get_foldl_insert_of_nodup {xs : List (κ × ν)} (h : (xs.map Prod.fst).Nodup)
    (m : BTreeMap κ ν) (k : κ) :
    (xs.foldl (fun m e => m.insert e.1 e.2) m).get k = (SortedMap.get xs k).or (m.get k) := by
  have hentries : (xs.foldl (fun m e => m.insert e.1 e.2) m).entries =
      xs.foldl (fun l e => SortedMap.insert e.1 e.2 l) m.entries := by
    clear h
    induction xs generalizing m with
    | nil => rfl
    | cons e xs ih => rw [List.foldl_cons, List.foldl_cons, ih, insert]
  unfold get
  rw [hentries, SortedMap.get_foldl_insert_of_nodup h]

end Cyanotype.BTreeMap
