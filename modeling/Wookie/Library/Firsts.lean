/-
**The first item of each key.**

A loop goes over a list, takes the items it wants whose key is not taken yet, and takes their keys.

* `firsts` — the items it takes.
* `mem_firsts`, `firsts_nodup`, `exists_firsts` — they are wanted, their keys are new and differ,
  and every wanted item whose key was free is represented.
* `exists_mem_takeWhile_firsts` — which items a loop comes to that ends at the first key it cannot
  pass.
-/

import Mathlib.Data.List.Basic

namespace Wookie.Library

variable {α κ : Type}

section Firsts

variable [BEq κ]

/-- The items that are wanted, the first of each key, where `taken` says which keys are gone. -/
def firsts (wanted : α → Bool) (key : α → κ) (taken : κ → Bool) : List α → List α
  | [] => []
  | item :: rest =>
    if wanted item && !taken (key item) then
      item :: firsts wanted key (fun other => taken other || other == key item) rest
    else firsts wanted key taken rest

end Firsts

variable {wanted : α → Bool} {key : α → κ} {taken : κ → Bool} {item : α} {items : List α}

/-- What is wanted, and has a free key. -/
theorem new_iff : (wanted item && !taken (key item)) = true ↔
    wanted item = true ∧ taken (key item) = false := by
  rw [Bool.and_eq_true, Bool.not_eq_true']

variable [BEq κ]

theorem mem_firsts (mem : item ∈ firsts wanted key taken items) :
    item ∈ items ∧ wanted item = true ∧ taken (key item) = false := by
  induction items generalizing taken with
  | nil => cases mem
  | cons head rest ih =>
    rw [firsts] at mem
    split at mem
    · rename_i new
      rcases List.mem_cons.mp mem with rfl | later
      · exact ⟨List.mem_cons_self, new_iff.mp new⟩
      · obtain ⟨listed, wants, free⟩ := ih later
        exact ⟨List.mem_cons_of_mem _ listed, wants, (Bool.or_eq_false_iff.mp free).1⟩
    · obtain ⟨listed, new⟩ := ih mem
      exact ⟨List.mem_cons_of_mem _ listed, new⟩

variable [LawfulBEq κ]

/-- **No key twice.** -/
theorem firsts_nodup (wanted : α → Bool) (key : α → κ) (taken : κ → Bool) (items : List α) :
    ((firsts wanted key taken items).map key).Nodup := by
  induction items generalizing taken with
  | nil => exact List.nodup_nil
  | cons head rest ih =>
    rw [firsts]
    split
    · rw [List.map_cons, List.nodup_cons]
      refine ⟨fun again => ?_, ih _⟩
      obtain ⟨other, later, same⟩ := List.mem_map.mp again
      have free := (Bool.or_eq_false_iff.mp (mem_firsts later).2.2).2
      rw [same, beq_self_eq_true] at free
      cases free
    · exact ih taken

/-- **Every wanted item with a free key** is represented by the first that has its key. -/
theorem exists_firsts (listed : item ∈ items) (wants : wanted item = true)
    (free : taken (key item) = false) :
    ∃ first ∈ firsts wanted key taken items, key first = key item := by
  induction items generalizing taken with
  | nil => cases listed
  | cons head rest ih =>
    rw [firsts]
    split
    · by_cases same : key item = key head
      · exact ⟨head, List.mem_cons_self, same.symm⟩
      · have later : item ∈ rest :=
          (List.mem_cons.mp listed).resolve_left fun here => same (congrArg key here)
        obtain ⟨first, mem, alike⟩ := @ih (fun other => taken other || other == key head) later
          (by rw [free, beq_false_of_ne same, Bool.or_false])
        exact ⟨first, List.mem_cons_of_mem _ mem, alike⟩
    · rename_i old
      refine ih ((List.mem_cons.mp listed).resolve_left ?_) free
      rintro rfl
      exact old (new_iff.mpr ⟨wants, free⟩)

/-- A place in a list is its head, or a place in the rest. -/
theorem exists_split_cons {head : α} {rest : List α} {P : List α → α → Prop} :
    (∃ before item after, head :: rest = before ++ item :: after ∧ P before item) ↔
      P [] head ∨ ∃ before item after, rest = before ++ item :: after ∧
        P (head :: before) item := by
  constructor
  · rintro ⟨_ | ⟨first, before⟩, item, after, split_, holds⟩
    · cases split_
      exact .inl holds
    · cases split_
      exact .inr ⟨before, item, after, rfl, holds⟩
  · rintro (holds | ⟨before, item, after, rfl, holds⟩)
    · exact ⟨[], head, rest, rfl, holds⟩
    · exact ⟨head :: before, item, after, rfl, holds⟩

/-- **A loop that ends at the first key it cannot pass** comes to this item, which has `before`
before it. -/
structure Reached (wanted : α → Bool) (key : α → κ) (taken passes : κ → Bool) (before : List α)
    (item : α) : Prop where
  wants : wanted item = true
  free : taken (key item) = false
  passed : ∀ earlier ∈ before, wanted earlier = true → taken (key earlier) = false →
    passes (key earlier) = true

variable {passes : κ → Bool} {sought : κ → Prop} {head : α} {before : List α}

omit [BEq κ] [LawfulBEq κ] in
/-- What the loop does not take does not matter to it. -/
theorem reached_cons_old (old : ¬(wanted head = true ∧ taken (key head) = false)) :
    Reached wanted key taken passes (head :: before) item ↔
      Reached wanted key taken passes before item := by
  constructor
  · rintro ⟨wants, free, passed⟩
    exact ⟨wants, free, (List.forall_mem_cons.mp passed).2⟩
  · rintro ⟨wants, free, passed⟩
    refine ⟨wants, free, List.forall_mem_cons.mpr ⟨fun wants free => ?_, passed⟩⟩
    exact absurd ⟨wants, free⟩ old

/-- What it takes and passes takes its key with it. -/
theorem reached_cons_new (pass : passes (key head) = true) (other : key item ≠ key head) :
    Reached wanted key taken passes (head :: before) item ↔
      Reached wanted key (fun k => taken k || k == key head) passes before item := by
  constructor
  · rintro ⟨wants, free, passed⟩
    refine ⟨wants, by rw [free, beq_false_of_ne other, Bool.or_false], ?_⟩
    intro earlier mem wants free
    exact passed earlier (List.mem_cons_of_mem _ mem) wants (Bool.or_eq_false_iff.mp free).1
  · rintro ⟨wants, free, passed⟩
    refine ⟨wants, (Bool.or_eq_false_iff.mp free).1, ?_⟩
    refine List.forall_mem_cons.mpr ⟨fun _ _ => pass, fun earlier mem wants free => ?_⟩
    by_cases same : key earlier = key head
    · rw [same, pass]
    · exact passed earlier mem wants (by rw [free, beq_false_of_ne same, Bool.or_false])

/-- **Which keys a loop finds** that ends at the first key it cannot pass. An item of a key that was
taken before it is as good as the item that took it. -/
theorem exists_mem_takeWhile_firsts (passed : ∀ k, sought k → passes k = true) :
    (∃ item ∈ (firsts wanted key taken items).takeWhile fun item => passes (key item),
        sought (key item)) ↔
      ∃ before item after, items = before ++ item :: after ∧
        (Reached wanted key taken passes before item ∧ sought (key item)) := by
  induction items generalizing taken with
  | nil => simp [firsts]
  | cons head rest ih =>
    rw [exists_split_cons, firsts]
    cases new : wanted head && !taken (key head) with
    | false =>
      have old : ¬(wanted head = true ∧ taken (key head) = false) :=
        fun both => Bool.eq_false_iff.mp new (new_iff.mpr both)
      rw [if_neg Bool.false_ne_true, ih, or_iff_right fun here => old ⟨here.1.wants, here.1.free⟩]
      simp only [reached_cons_old old]
    | true =>
      obtain ⟨wants, free⟩ := new_iff.mp new
      rw [if_pos rfl, List.takeWhile_cons]
      cases pass : passes (key head) with
      | false =>
        have never : ¬sought (key head) := fun found => by
          rw [passed _ found] at pass
          cases pass
        refine iff_of_false (by simp) ?_
        rintro (⟨-, found⟩ | ⟨before, item, after, -, reached, -⟩)
        · exact never found
        · rw [reached.passed head List.mem_cons_self wants free] at pass
          cases pass
      | true =>
        rw [if_pos rfl, List.exists_mem_cons_iff, ih]
        by_cases found : sought (key head)
        · exact iff_of_true (.inl found) (.inl ⟨⟨wants, free, by simp⟩, found⟩)
        · refine or_congr (iff_of_false found fun here => found here.2) ?_
          refine exists_congr fun before => exists_congr fun item => exists_congr fun after =>
            and_congr_right fun _ => and_congr_left fun soughtItem => ?_
          exact (reached_cons_new pass fun same => found (same ▸ soughtItem)).symm

end Wookie.Library
