/-
**Reverse indexes of a sequence.**

A reverse index lists, for each element of a sequence, the places where it stands.

* `Inverts sequence index` — every element has one entry, whose places rise and are exactly those of
  the element.
* `Inverts.disjoint`, `Inverts.covers` — no two entries share a place, and together they have every
  place of the sequence and no other.
* `Inverts.elementAt_eq` — **the sequence can be read back from the index, place by place.**
-/

import Mathlib.Data.List.Nodup

namespace Wookie.Library

variable {α : Type}

/-- The index lists each element of the sequence once, with exactly the places where it stands, in
rising order. -/
structure Inverts (sequence : List α) (index : List (α × List Int)) : Prop where
  distinct : (index.map Prod.fst).Nodup
  rising : ∀ entry ∈ index, entry.2.Pairwise (· < ·)
  at_iff : ∀ entry ∈ index, ∀ p : Int,
    p ∈ entry.2 ↔ ∃ n : Nat, p = n ∧ sequence[n]? = some entry.1
  whole : ∀ element ∈ sequence, ∃ entry ∈ index, entry.1 = element

/-- The element whose entry has a place. -/
def elementAt (index : List (α × List Int)) (n : Nat) : Option α :=
  (index.find? fun entry => entry.2.contains (n : Int)).map Prod.fst

/-- Entries without places are not seen. -/
theorem elementAt_append {index more : List (α × List Int)} (none : ∀ entry ∈ more, entry.2 = [])
    (n : Nat) : elementAt (index ++ more) n = elementAt index n := by
  have missed : (more.find? fun entry => entry.2.contains (n : Int)) = Option.none := by
    rw [List.find?_eq_none]
    intro entry listed
    simp [none entry listed]
  rw [elementAt, List.find?_append, missed, Option.or_none, elementAt]

namespace Inverts

variable {sequence : List α} {index : List (α × List Int)}

theorem mem_iff (inverts : Inverts sequence index) {entry : α × List Int} (listed : entry ∈ index)
    (n : Nat) : (n : Int) ∈ entry.2 ↔ sequence[n]? = some entry.1 := by
  rw [inverts.at_iff entry listed]
  constructor
  · rintro ⟨m, same, found⟩
    rwa [Int.ofNat_inj.mp same]
  · exact fun found => ⟨n, rfl, found⟩

/-- **No two entries share a place.** -/
theorem disjoint (inverts : Inverts sequence index) :
    index.Pairwise fun a b => ∀ p ∈ a.2, p ∉ b.2 := by
  have apart := List.pairwise_map.mp inverts.distinct
  refine apart.imp_of_mem fun {a b} first second differs p inFirst inSecond => differs ?_
  obtain ⟨n, rfl, found⟩ := (inverts.at_iff a first p).mp inFirst
  have found' := (inverts.mem_iff second n).mp inSecond
  exact Option.some.inj (found.symm.trans found')

/-- **The places of all entries are those of the sequence.** -/
theorem covers (inverts : Inverts sequence index) (p : Int) :
    (∃ entry ∈ index, p ∈ entry.2) ↔ 0 ≤ p ∧ p < sequence.length := by
  constructor
  · rintro ⟨entry, listed, inside⟩
    obtain ⟨n, rfl, found⟩ := (inverts.at_iff entry listed p).mp inside
    have bound := (List.getElem?_eq_some_iff.mp found).1
    omega
  · rintro ⟨nonneg, bound⟩
    obtain ⟨n, rfl⟩ := Int.eq_ofNat_of_zero_le nonneg
    have within : n < sequence.length := Int.ofNat_lt.mp bound
    obtain ⟨entry, listed, same⟩ := inverts.whole _ (List.getElem_mem within)
    exact ⟨entry, listed, (inverts.mem_iff listed n).mpr (by
      rw [same, List.getElem?_eq_getElem within])⟩

/-- **The sequence is read back from its index.** -/
theorem elementAt_eq (inverts : Inverts sequence index) (n : Nat) :
    elementAt index n = sequence[n]? := by
  unfold elementAt
  cases found : index.find? fun entry => entry.2.contains (n : Int) with
  | some entry =>
    have holds : entry.2.contains (n : Int) = true := by simpa using List.find?_some found
    have inside := List.contains_iff_mem.mp holds
    exact ((inverts.mem_iff (List.mem_of_find?_eq_some found) n).mp inside).symm
  | none =>
    refine (List.getElem?_eq_none ?_).symm
    by_contra within
    obtain ⟨entry, listed, inside⟩ :=
      (inverts.covers n).mpr ⟨Int.natCast_nonneg n, by omega⟩
    have missed := List.find?_eq_none.mp found entry listed
    exact missed (List.contains_iff_mem.mpr inside)

end Inverts

end Wookie.Library
