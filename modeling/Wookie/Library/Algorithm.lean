/-
**Two algorithms of the C++ standard library.**

* `StdSort` — `std::sort`, as a relation: what it promises, and on what condition.
* `strictWeakOrdering_iff_of_refl` — a comparator that puts values before themselves meets the
  condition only where nothing is compared.
* `setIntersection` — `std::set_intersection` into a buffer; a write behind its end is an error.
* `setIntersection_eq` — on strictly increasing ranges it writes the common values, and the buffer
  may be as small as the smaller range.
-/

import Mathlib.Data.List.Basic
import Mathlib.Order.Lattice
import Mathlib.Tactic.ByContra

namespace Wookie.Library

/-! ### `std::sort` -/

section Sorting

variable {α : Type}

/-- The comparator is a strict weak ordering of the values. -/
structure StrictWeakOrdering (comp : α → α → Bool) (values : List α) : Prop where
  irreflexive : ∀ x ∈ values, comp x x = false
  transitive : ∀ x ∈ values, ∀ y ∈ values, ∀ z ∈ values,
    comp x y = true → comp y z = true → comp x z = true
  ties : ∀ x ∈ values, ∀ y ∈ values, ∀ z ∈ values,
    comp x y = false → comp y x = false → comp y z = false → comp z y = false →
      comp x z = false ∧ comp z x = false

/-- The values of a range that are compared: none, where there is only one. -/
def compared (range : List α) : List α := if range.length ≤ 1 then [] else range

/-- `std::sort`: anything may happen where the comparator is not lawful on the values compared. -/
def StdSort (comp : α → α → Bool) (range result : List α) : Prop :=
  StrictWeakOrdering comp (compared range) →
    result.Perm range ∧ result.Pairwise fun earlier later => comp later earlier = false

theorem strictWeakOrdering_nil (comp : α → α → Bool) : StrictWeakOrdering comp [] :=
  ⟨fun _ listed => absurd listed List.not_mem_nil, fun _ listed => absurd listed List.not_mem_nil,
    fun _ listed => absurd listed List.not_mem_nil⟩

/-- A comparator that puts a value before itself is lawful on ranges of one value only. -/
theorem strictWeakOrdering_iff_of_refl {comp : α → α → Bool} {range : List α}
    (refl : ∀ x ∈ range, comp x x = true) :
    StrictWeakOrdering comp (compared range) ↔ range.length ≤ 1 := by
  constructor
  · intro lawful
    by_contra several
    rw [compared, if_neg several] at lawful
    obtain ⟨x, member⟩ := List.exists_mem_of_length_pos (l := range) (by omega)
    have irreflexive := lawful.irreflexive x member
    rw [refl x member] at irreflexive
    cases irreflexive
  · intro few
    rw [compared, if_pos few]
    exact strictWeakOrdering_nil comp

end Sorting

/-! ### `std::set_intersection` -/

section Intersection

variable {α : Type} [LinearOrder α]

/-- `std::set_intersection(f.begin(), f.end(), s.begin(), s.end(), tmp.begin() + pos)`: the buffer,
and the position behind the last value written. `none` if it writes behind the end of the buffer. -/
def setIntersection : List α → List α → List α → Nat → Option (List α × Nat)
  | [], _, tmp, pos => some (tmp, pos)
  | _ :: _, [], tmp, pos => some (tmp, pos)
  | a :: f, b :: s, tmp, pos =>
    if a < b then setIntersection f (b :: s) tmp pos
    else if b < a then setIntersection (a :: f) s tmp pos
    else if pos < tmp.length then setIntersection f s (tmp.set pos a) (pos + 1)
    else none
  termination_by f s => f.length + s.length

/-- **It stays inside a buffer** with room for the smaller range, whatever the ranges hold. -/
theorem setIntersection_within {f s tmp : List α} {pos : Nat}
    (room : pos + min f.length s.length ≤ tmp.length) :
    ∃ result, setIntersection f s tmp pos = some result := by
  induction f, s, tmp, pos using setIntersection.induct with
  | case1 s tmp pos => exact ⟨_, by rw [setIntersection]⟩
  | case2 a f tmp pos => exact ⟨_, by rw [setIntersection]⟩
  | case3 a f b s tmp pos below ih =>
    rw [setIntersection, if_pos below]
    refine ih ?_
    rw [List.length_cons] at room
    omega
  | case4 a f b s tmp pos above below ih =>
    rw [setIntersection, if_neg above, if_pos below]
    refine ih ?_
    rw [List.length_cons (a := b)] at room
    omega
  | case5 a f b s tmp pos above below within ih =>
    rw [setIntersection, if_neg above, if_neg below, if_pos within]
    refine ih ?_
    rw [List.length_set]
    simp only [List.length_cons] at room
    omega
  | case6 a f b s tmp pos above below full =>
    simp only [List.length_cons] at room
    omega

/-- The values of the first range that are in the second one. -/
def common (f s : List α) : List α := f.filter (· ∈ s)

theorem mem_common {f s : List α} {x : α} : x ∈ common f s ↔ x ∈ f ∧ x ∈ s := by
  rw [common, List.mem_filter, decide_eq_true_eq]

theorem common_pairwise {f s : List α} (increasing : f.Pairwise (· < ·)) :
    (common f s).Pairwise (· < ·) := increasing.filter _

/-- A value below the second range is not in it. -/
theorem common_cons_of_lt {a b : α} {f s : List α} (increasing : (b :: s).Pairwise (· < ·))
    (below : a < b) : common (a :: f) (b :: s) = common f (b :: s) := by
  refine List.filter_cons_of_neg ?_
  rw [decide_eq_true_eq, List.mem_cons, not_or]
  exact ⟨below.ne, fun later =>
    absurd ((List.pairwise_cons.mp increasing).1 a later) (lt_asymm below)⟩

/-- A value below the first range does not count. -/
theorem common_of_lt_cons {a b : α} {f s : List α} (increasing : (a :: f).Pairwise (· < ·))
    (below : b < a) : common (a :: f) (b :: s) = common (a :: f) s := by
  refine List.filter_congr fun x listed => ?_
  have differs : x ≠ b := by
    rintro rfl
    rcases List.mem_cons.mp listed with same | later
    · exact absurd same below.ne
    · exact absurd ((List.pairwise_cons.mp increasing).1 x later) (lt_asymm below)
  simp [differs]

theorem common_cons_self {a : α} {f s : List α} (increasing : (a :: f).Pairwise (· < ·)) :
    common (a :: f) (a :: s) = a :: common f s := by
  have kept : common f (a :: s) = common f s := by
    refine List.filter_congr fun x listed => ?_
    have differs : x ≠ a := ((List.pairwise_cons.mp increasing).1 x listed).ne'
    simp [differs]
  rw [← kept]
  exact List.filter_cons_of_pos (by simp)

/-- **`std::set_intersection`** of strictly increasing ranges writes their common values one behind
the other, and never behind the end of a buffer with room for the smaller range. -/
theorem setIntersection_eq {f s tmp : List α} {pos : Nat} (increasing : f.Pairwise (· < ·))
    (increasing' : s.Pairwise (· < ·)) (room : pos + min f.length s.length ≤ tmp.length) :
    ∃ after, setIntersection f s tmp pos = some (after, pos + (common f s).length) ∧
      after.length = tmp.length ∧
      after.take (pos + (common f s).length) = tmp.take pos ++ common f s := by
  induction f, s, tmp, pos using setIntersection.induct with
  | case1 s tmp pos => exact ⟨tmp, by simp [setIntersection, common], rfl, by simp [common]⟩
  | case2 a f tmp pos => exact ⟨tmp, by simp [setIntersection, common], rfl, by simp [common]⟩
  | case3 a f b s tmp pos below ih =>
    rw [setIntersection, if_pos below, common_cons_of_lt increasing' below]
    refine ih increasing.of_cons increasing' ?_
    rw [List.length_cons] at room
    omega
  | case4 a f b s tmp pos above below ih =>
    rw [setIntersection, if_neg above, if_pos below, common_of_lt_cons increasing below]
    refine ih increasing increasing'.of_cons ?_
    rw [List.length_cons (a := b)] at room
    omega
  | case5 a f b s tmp pos above below within ih =>
    have same : b = a := le_antisymm (not_lt.mp above) (not_lt.mp below)
    subst same
    simp only [List.length_cons] at room
    have smaller : pos + 1 + min f.length s.length ≤ (tmp.set pos b).length := by
      rw [List.length_set]
      omega
    obtain ⟨after, written, length, taken⟩ := ih increasing.of_cons increasing'.of_cons smaller
    rw [setIntersection, if_neg above, if_neg below, if_pos within, common_cons_self increasing,
      List.length_cons, ← Nat.add_assoc, Nat.add_right_comm, written]
    refine ⟨after, rfl, length.trans (List.length_set), ?_⟩
    rw [taken, List.take_succ_eq_append_getElem (by rwa [List.length_set]), List.getElem_set_self,
      List.take_set_of_le (Nat.le_refl pos), List.append_assoc, List.singleton_append]
  | case6 a f b s tmp pos above below full =>
    simp only [List.length_cons] at room
    omega

end Intersection

end Wookie.Library
