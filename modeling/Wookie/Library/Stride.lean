/-
**Strided loops: work items dealt out to a number of workers.**

Worker `id` of `n` takes the items `id`, `id + n`, `id + 2 n`, … below the number of items.

* `strided` — the items of one worker; `mem_strided` names them by their rest modulo `n`.
* `flatMap_strided_perm` — **all workers together take every item exactly once**, whatever the order
  in which the workers are gone through.
-/

import Mathlib.Data.List.Nodup
import Mathlib.Data.List.Perm.Basic
import Mathlib.Data.List.Range

namespace Wookie.Library

/-- The values of `i` in the loop `for (i = first; i < size; i += step)`. -/
def strided (size step first : Nat) : List Nat :=
  if first < size ∧ 0 < step then first :: strided size step (first + step) else []
termination_by size - first

variable {size step first i : Nat}

/-- **The items of a worker.** -/
theorem mem_strided (steps : 0 < step) :
    i ∈ strided size step first ↔ i < size ∧ first ≤ i ∧ i % step = first % step := by
  fun_induction strided size step first with
  | case1 first goes ih =>
    rw [List.mem_cons, ih, Nat.add_mod_right]
    constructor
    · rintro (rfl | ⟨below, above, rest⟩)
      · exact ⟨goes.1, Nat.le_refl _, rfl⟩
      · exact ⟨below, by omega, rest⟩
    · rintro ⟨below, above, rest⟩
      by_cases same : i = first
      · exact .inl same
      · -- the next item with the same rest is a whole step away
        have apart : step ≤ i - first :=
          Nat.le_of_dvd (by omega) (Nat.dvd_of_mod_eq_zero (Nat.sub_mod_eq_zero_of_mod_eq rest))
        exact .inr ⟨below, by omega, rest⟩
  | case2 first ends =>
    constructor
    · intro member
      cases member
    · rintro ⟨below, above, -⟩
      exact absurd ⟨by omega, steps⟩ ends

theorem strided_nodup : (strided size step first).Nodup := by
  fun_induction strided size step first with
  | case1 first goes ih =>
    refine List.nodup_cons.mpr ⟨fun again => ?_, ih⟩
    have above := ((mem_strided goes.2).mp again).2.1
    omega
  | case2 first ends => exact List.nodup_nil

theorem strided_length_le (steps : 0 < step) : (strided size step first).length ≤ size := by
  have inside : strided size step first ⊆ List.range size := fun i member =>
    List.mem_range.mpr ((mem_strided steps).mp member).1
  have bound := (List.subperm_of_subset strided_nodup inside).length_le
  rwa [List.length_range] at bound

/-- **Every item is taken exactly once**, by the workers in any order. -/
theorem flatMap_strided_perm {workers : Nat} (some : 0 < workers) {order : List Nat}
    (all : order.Perm (List.range workers)) (size : Nat) :
    (order.flatMap (strided size workers)).Perm (List.range size) := by
  refine (all.flatMap_right _).trans ?_
  refine (List.perm_ext_iff_of_nodup ?_ List.nodup_range).mpr fun i => ?_
  · refine List.nodup_flatMap.mpr ⟨fun id _ => strided_nodup, ?_⟩
    refine List.nodup_range.imp_of_mem fun {a b} first second differs => ?_
    refine List.disjoint_left.mpr fun i own other => differs ?_
    rw [mem_strided some] at own other
    have rests := own.2.2.symm.trans other.2.2
    rwa [Nat.mod_eq_of_lt (List.mem_range.mp first), Nat.mod_eq_of_lt (List.mem_range.mp second)]
      at rests
  · simp only [List.mem_flatMap, List.mem_range, mem_strided some]
    constructor
    · rintro ⟨id, -, below, -⟩
      exact below
    · intro below
      exact ⟨i % workers, Nat.mod_lt i some, below, Nat.mod_le i workers,
        (Nat.mod_mod i workers).symm⟩

end Wookie.Library
