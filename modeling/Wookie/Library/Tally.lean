/-
**Tallies: how often each element of a list occurs.**

* `IsTally table xs` — the table lists every element of `xs` once, with its number of occurrences.
* `tally` — the loop that counts into a hash map; `isTally_tally` reads its map out.
* `IsTally.iff_perm` — a tally of one list is one of another exactly if the lists are permutations
  of each other.
-/

import Mathlib.Data.List.Induction
import Mathlib.Data.List.Perm.Basic
import Std.Data.HashMap.Lemmas

namespace Wookie.Library

variable {α : Type} [BEq α]

/-- Every element is listed once, with its number of occurrences. -/
structure IsTally (table : List (α × Nat)) (xs : List α) : Prop where
  distinct : (table.map Prod.fst).Nodup
  mem_iff : ∀ x n, (x, n) ∈ table ↔ x ∈ xs ∧ n = xs.count x

namespace IsTally

variable {table : List (α × Nat)} {xs ys : List α}

theorem perm (tally : IsTally table xs) (same : xs.Perm ys) : IsTally table ys where
  distinct := tally.distinct
  mem_iff x n := by rw [tally.mem_iff, same.mem_iff, same.count_eq]

variable [LawfulBEq α]

/-- **A tally tells the list up to its order.** -/
theorem iff_perm (tally : IsTally table xs) : IsTally table ys ↔ xs.Perm ys := by
  refine ⟨fun other => List.perm_iff_count.mpr fun x => ?_, tally.perm⟩
  by_cases listed : x ∈ xs
  · exact ((other.mem_iff x _).mp ((tally.mem_iff x _).mpr ⟨listed, rfl⟩)).2
  · have unlisted : x ∉ ys := fun inside =>
      listed ((tally.mem_iff x _).mp ((other.mem_iff x _).mpr ⟨inside, rfl⟩)).1
    rw [List.count_eq_zero.mpr listed, List.count_eq_zero.mpr unlisted]

end IsTally

section Tally

variable [LawfulBEq α] [Hashable α]

/-- The loop `for (x : xs) ++counts[x]`. -/
def tally (xs : List α) : Std.HashMap α Nat :=
  xs.foldl (fun counts x => counts.insert x (counts.getD x 0 + 1)) ∅

variable [LawfulHashable α]

/-- **What the loop has counted.** -/
theorem getElem?_tally (xs : List α) (x : α) :
    (tally xs)[x]? = if x ∈ xs then some (xs.count x) else none := by
  induction xs using List.reverseRecOn with
  | nil => exact Std.HashMap.getElem?_empty
  | append_singleton xs last ih =>
    have counted : tally (xs ++ [last]) =
        (tally xs).insert last ((tally xs).getD last 0 + 1) := by
      simp only [tally, List.foldl_append, List.foldl_cons, List.foldl_nil]
    rw [counted, Std.HashMap.getElem?_insert]
    by_cases same : last = x
    · subst same
      have before : (tally xs).getD last 0 = xs.count last := by
        rw [Std.HashMap.getD_eq_getD_getElem?, ih]
        split
        · rfl
        · rename_i missing
          exact (List.count_eq_zero.mpr missing).symm
      rw [if_pos (beq_self_eq_true last), before, if_pos (by simp), List.count_append]
      simp
    · have differs : ¬ (last == x) = true := fun equal => same (eq_of_beq equal)
      rw [if_neg differs, ih]
      simp [List.count_append, same, Ne.symm same]

/-- **The entries of the counted map are a tally.** -/
theorem isTally_tally (xs : List α) : IsTally (tally xs).toList xs where
  distinct := by
    rw [List.Nodup, List.pairwise_map]
    exact Std.HashMap.distinct_keys_toList.imp fun differs same => by
      simp [same] at differs
  mem_iff x n := by
    rw [Std.HashMap.mem_toList_iff_getElem?_eq_some, getElem?_tally]
    by_cases listed : x ∈ xs
    · simp [listed, eq_comm]
    · simp [listed]

end Tally

end Wookie.Library
