import Mathlib.Algebra.GroupWithZero.Nat
import Mathlib.Data.List.Nodup

/-!
# Nested tables

A table of tables, read as one table under both keys, lists every entry once if each of
the tables does. The elements of a list are counted once by the keys of such a list.
-/

namespace Cyanotype

variable {κ κ' α β : Type*}

/-- The entries below each entry, under both keys. -/
def nest (xs : List (κ × α)) (below : α → List (κ' × β)) : List ((κ × κ') × β) :=
  xs.flatMap fun e => (below e.2).map fun d => ((e.1, d.1), d.2)

variable {xs : List (κ × α)} {below : α → List (κ' × β)}

/-- An item under two keys is one under the second, below an item under the first. -/
theorem mem_nest_iff {k : κ} {j : κ'} {b : β} :
    ((k, j), b) ∈ nest xs below ↔ ∃ a, (k, a) ∈ xs ∧ (j, b) ∈ below a := by
  simp only [nest, List.mem_flatMap, List.mem_map, Prod.mk.injEq]
  constructor
  · rintro ⟨⟨k, a⟩, ha, ⟨j, b⟩, hb, ⟨rfl, rfl⟩, rfl⟩
    exact ⟨a, ha, hb⟩
  · rintro ⟨a, ha, hb⟩
    exact ⟨(k, a), ha, (j, b), hb, ⟨rfl, rfl⟩, rfl⟩

/-- Distinct keys at both levels are distinct pairs of keys. -/
theorem nodup_nest (hxs : (xs.map Prod.fst).Nodup)
    (hbelow : ∀ e ∈ xs, ((below e.2).map Prod.fst).Nodup) :
    ((nest xs below).map Prod.fst).Nodup := by
  have hlevel : ∀ e : κ × α, ((below e.2).map fun d => ((e.1, d.1), d.2)).map Prod.fst =
      ((below e.2).map Prod.fst).map fun j => (e.1, j) := fun e => by
    rw [List.map_map, List.map_map]
    rfl
  unfold nest
  rw [List.map_flatMap]
  simp only [hlevel]
  refine List.nodup_flatMap.mpr ⟨fun e he => (hbelow e he).map fun _ _ h => (Prod.mk.inj h).2, ?_⟩
  rw [List.Nodup, List.pairwise_map] at hxs
  refine hxs.imp fun {a b} hab => ?_
  rintro p ha hb
  obtain ⟨j, -, rfl⟩ := List.mem_map.mp ha
  obtain ⟨j', -, h⟩ := List.mem_map.mp hb
  exact hab (Prod.mk.inj h).1.symm

/-- Every element of a list is counted once, under its key. -/
theorem sum_length_filter [DecidableEq κ] (key : α → κ) {keys : List κ} (hkeys : keys.Nodup)
    {xs : List α} (hall : ∀ x ∈ xs, key x ∈ keys) :
    (keys.map fun k => (xs.filter (key · = k)).length).sum = xs.length := by
  induction keys generalizing xs with
  | nil =>
    have hnil : xs = [] := List.eq_nil_iff_forall_not_mem.mpr fun x hx =>
      List.not_mem_nil (hall x hx)
    simp [hnil]
  | cons k keys ih =>
    obtain ⟨hk, hnodup⟩ := List.nodup_cons.mp hkeys
    have hrest : (keys.map fun j =>
        ((xs.filter fun x => !decide (key x = k)).filter (key · = j)).length).sum =
          (xs.filter fun x => !decide (key x = k)).length := by
      refine ih hnodup fun x hx => ?_
      obtain ⟨hmem, hne⟩ := List.mem_filter.mp hx
      exact List.mem_of_ne_of_mem (by simpa using hne) (hall x hmem)
    have hsame : ∀ j ∈ keys, ((xs.filter fun x => !decide (key x = k)).filter (key · = j)).length =
        (xs.filter (key · = j)).length := by
      intro j hj
      have hjk : j ≠ k := fun hjk => hk (hjk ▸ hj)
      rw [List.filter_filter]
      refine congrArg List.length (List.filter_congr fun x _ => ?_)
      by_cases hx : key x = j
      · simp [hx, hjk]
      · simp [hx]
    rw [List.map_congr_left hsame] at hrest
    rw [List.map_cons, List.sum_cons, hrest]
    exact (List.length_eq_length_filter_add _).symm

end Cyanotype
