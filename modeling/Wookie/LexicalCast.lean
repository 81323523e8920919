/-
**Numbers as text: `lexical_cast` of `include/wookie/lexical_cast.hpp`.**

A first loop counts the digits of a number, a second one writes them into a string of that size,
from its end. The index runs backwards and is unsigned.

* `toNat_countDigits` — the first loop counts the digits.
* `digitWrites_positions` — the second one writes to every position once, from the last to the
  first.
* `lexicalCast_eq` — what it writes are the digits.
* `lexical_cast_canonical` — **`lexical_cast` gives the canonical numeral**, and distinct documents
  have distinct keys and files.
-/

import Mathlib.Data.Nat.Digits.Lemmas
import Wookie.Library.Text
import Wookie.Record

namespace Wookie

open Library

/-! ### `lexical_cast` -/

/-- A division makes a number smaller. -/
theorem toNat_div_ten_lt {value : BitVec 64} (some : ¬value = 0) :
    (value / 10).toNat < value.toNat := by
  have positive : value.toNat ≠ 0 := fun zero => some (BitVec.eq_of_toNat_eq zero)
  rw [BitVec.toNat_udiv]
  exact Nat.div_lt_self (Nat.pos_of_ne_zero positive) (by decide)

/-- `while (calculated)`: `length` in the end. -/
def countDigits (calculated length : BitVec 64) : BitVec 64 :=
  if _some : calculated = 0 then length else countDigits (calculated / 10) (length + 1)
termination_by calculated.toNat
decreasing_by exact toNat_div_ten_lt _some

/-- `'0' + (value % 10)` -/
def lastDigit (value : BitVec 64) : Char := Char.ofNat ('0'.toNat + (value % 10).toNat)

/-- `while (value)`: the assignments to `result[length]`, in order. -/
def digitWrites (value length : BitVec 64) : List (BitVec 64 × Char) :=
  if _some : value = 0 then []
  else (length - 1, lastDigit value) :: digitWrites (value / 10) (length - 1)
termination_by value.toNat
decreasing_by exact toNat_div_ten_lt _some

/-- `result[length] = c`. `none` if it writes behind the end of the string. -/
def writeAt (result : Str) (write : BitVec 64 × Char) : Option Str :=
  if write.1.toNat < result.length then some (result.set write.1.toNat write.2) else none

/-- `lexical_cast`. -/
def lexicalCast (value : BitVec 64) : Option Str :=
  if value = 0 then some ['0']
  else
    let length := countDigits value 0
    (digitWrites value length).foldlM writeAt (List.replicate length.toNat '\x00')

/-- `lexical_cast(doc.id)`: the key of a document. -/
def documentKey (id : BitVec 32) : Option Str := lexicalCast (id.signExtend 64)

/-- `m_input_dir + doc_id_str + ".html"` -/
def documentFile (inputDir : Str) (id : BitVec 32) : Option Str :=
  (documentKey id).map fun key => inputDir ++ key ++ ".html".toList

/-! ### The digits -/

section Digits

variable {value length : BitVec 64}

/-- The digits of a number, the last one first. -/
def digitsOf (value : BitVec 64) : List ℕ := Nat.digits 10 value.toNat

/-- The digit that is written for a number below ten. -/
def digitChar (digit : ℕ) : Char := Char.ofNat ('0'.toNat + digit)

theorem digitsOf_zero : digitsOf 0 = [] := Nat.digits_zero 10

theorem digitsOf_step (some : ¬value = 0) :
    digitsOf value = (value % 10).toNat :: digitsOf (value / 10) := by
  have positive : value.toNat ≠ 0 := fun zero => some (BitVec.eq_of_toNat_eq zero)
  rw [digitsOf, digitsOf, Nat.digits_eq_cons_digits_div (by decide) positive, BitVec.toNat_umod,
    BitVec.toNat_udiv]
  rfl

/-- There are never more than twenty. -/
theorem length_digitsOf_lt (value : BitVec 64) : (digitsOf value).length < 2 ^ 64 := by
  have few : (digitsOf value).length ≤ 20 :=
    (Nat.digits_length_le_iff (by decide) _).mpr (value.isLt.trans (by decide))
  omega

/-- **The first loop counts the digits.** -/
theorem countDigits_eq (calculated length : BitVec 64) :
    countDigits calculated length = length + BitVec.ofNat 64 (digitsOf calculated).length := by
  fun_induction countDigits calculated length with
  | case1 length =>
    rw [digitsOf_zero]
    exact (BitVec.add_zero length).symm
  | case2 calculated length some ih =>
    rw [ih, digitsOf_step some, List.length_cons, BitVec.ofNat_add, BitVec.add_assoc,
      BitVec.add_comm 1]
    rfl

theorem toNat_countDigits (value : BitVec 64) :
    (countDigits value 0).toNat = (digitsOf value).length := by
  rw [countDigits_eq]
  show (0#64 + _).toNat = _
  rw [BitVec.zero_add, BitVec.toNat_ofNat, Nat.mod_eq_of_lt (length_digitsOf_lt value)]

/-- The index in front of one that counts digits. -/
theorem toNat_sub_one {n : ℕ} (counts : length.toNat = n + 1) : (length - 1).toNat = n := by
  have bound := length.isLt
  rw [BitVec.toNat_sub, counts]
  simp
  omega

/-- **The second loop writes to every position once**, from the last to the first. -/
theorem digitWrites_positions (counts : length.toNat = (digitsOf value).length) :
    (digitWrites value length).map (fun write => write.1.toNat) =
      (List.range (digitsOf value).length).reverse := by
  fun_induction digitWrites value length with
  | case1 length =>
    rw [digitsOf_zero]
    rfl
  | case2 value length some ih =>
    rw [digitsOf_step some, List.length_cons] at counts ⊢
    have before := toNat_sub_one counts
    rw [List.map_cons, ih before, before, List.range_succ, List.reverse_concat]

/-- The digits are written behind the blanks that are left. -/
theorem foldlM_digitWrites (counts : length.toNat = (digitsOf value).length) {blank : Str}
    (room : blank.length = (digitsOf value).length) (written : Str) :
    (digitWrites value length).foldlM writeAt (blank ++ written) =
      some (((digitsOf value).map digitChar).reverse ++ written) := by
  fun_induction digitWrites value length generalizing blank written with
  | case1 length =>
    rw [digitsOf_zero] at room ⊢
    rw [List.length_eq_zero_iff.mp room]
    rfl
  | case2 value length some ih =>
    rw [digitsOf_step some, List.length_cons] at counts room
    have before := toNat_sub_one counts
    obtain ⟨front, last, rfl⟩ : ∃ front last, blank = front ++ [last] := by
      rcases List.eq_nil_or_concat' blank with rfl | concat
      · cases room
      · exact concat
    rw [List.length_append, List.length_singleton, Nat.add_right_cancel_iff] at room
    have inside : writeAt (front ++ [last] ++ written) (length - 1, lastDigit value) =
        Option.some (front ++ lastDigit value :: written) := by
      have bound : (length - 1).toNat < (front ++ [last] ++ written).length := by
        rw [before, List.length_append, List.length_append, List.length_singleton, room]
        omega
      rw [writeAt, if_pos bound, before, ← room]
      simp
    rw [List.foldlM_cons, inside]
    show (digitWrites (value / 10) (length - 1)).foldlM writeAt (front ++ _) = _
    rw [ih before room, digitsOf_step some, List.map_cons, List.reverse_cons, List.append_assoc]
    rfl

/-- **`lexical_cast` writes the digits.** -/
theorem lexicalCast_eq (value : BitVec 64) :
    lexicalCast value =
      some (if value = 0 then ['0'] else ((digitsOf value).map digitChar).reverse) := by
  rw [lexicalCast]
  split
  · rfl
  · have blank : (List.replicate (countDigits value 0).toNat '\x00').length =
        (digitsOf value).length := by rw [List.length_replicate, toNat_countDigits]
    have written := foldlM_digitWrites (toNat_countDigits value) blank []
    rwa [List.append_nil, List.append_nil] at written

end Digits

/-! ### The numeral -/

/-- **The canonical decimal numeral** of a number. -/
structure IsNumeral (value : BitVec 64) (text : Str) : Prop where
  some : text ≠ []
  digits : ∀ c ∈ text, c.isDigit = true
  leading : value ≠ 0 → text.head? ≠ Option.some '0'
  value : decimalValue text = value.toNat

theorem digitOf_digitChar {digit : ℕ} (small : digit < 10) :
    digitOf (digitChar digit) = digit ∧ (digitChar digit).isDigit = true := by
  revert small
  revert digit
  decide

/-- The value of the digits, read from the other end. -/
theorem decimalValue_reverse {digits : List ℕ} (small : ∀ digit ∈ digits, digit < 10) :
    decimalValue (digits.map digitChar).reverse = Nat.ofDigits 10 digits := by
  induction digits with
  | nil => rfl
  | cons digit digits ih =>
    have rest : ∀ digit ∈ digits, digit < 10 := fun d mem => small d (List.mem_cons_of_mem _ mem)
    have first := digitOf_digitChar (small digit List.mem_cons_self)
    rw [decimalValue] at ih ⊢
    rw [List.map_cons, List.reverse_cons, List.foldl_append, ih rest, Nat.ofDigits_cons]
    show 10 * Nat.ofDigits 10 digits + digitOf (digitChar digit) = _
    rw [first.1, Nat.add_comm]

/-- The first digit of a number is not zero. -/
theorem head_digits_ne_zero {value : BitVec 64} (some : value ≠ 0) :
    ((digitsOf value).map digitChar).reverse.head? ≠ Option.some '0' := by
  have positive : value.toNat ≠ 0 := fun zero => some (BitVec.eq_of_toNat_eq zero)
  have digits : digitsOf value ≠ [] := Nat.digits_ne_nil_iff_ne_zero.mpr positive
  have last := List.getLast?_eq_some_getLast digits
  rw [List.head?_reverse, List.getLast?_map, last]
  intro zero
  have small := Nat.digits_lt_base (by decide) (List.getLast_mem digits)
  have same : digitChar ((digitsOf value).getLast digits) = '0' := Option.some.inj zero
  have value := (digitOf_digitChar small).1
  rw [same] at value
  exact Nat.getLast_digit_ne_zero 10 positive value.symm

/-- **What `lexical_cast` writes is the numeral.** -/
theorem isNumeral_lexicalCast (value : BitVec 64) :
    ∃ text, lexicalCast value = some text ∧ IsNumeral value text := by
  refine ⟨_, lexicalCast_eq value, ?_⟩
  split
  next zero => exact zero ▸ ⟨by decide, by simp, fun absurd => (absurd rfl).elim, rfl⟩
  next some =>
    have positive : value.toNat ≠ 0 := fun zero => some (BitVec.eq_of_toNat_eq zero)
    have small : ∀ digit ∈ digitsOf value, digit < 10 := fun _ => Nat.digits_lt_base (by decide)
    constructor
    case some =>
      rw [Ne, List.reverse_eq_nil_iff, List.map_eq_nil_iff]
      exact Nat.digits_ne_nil_iff_ne_zero.mpr positive
    case digits =>
      intro c mem
      obtain ⟨digit, among, rfl⟩ := List.mem_map.mp (List.mem_reverse.mp mem)
      exact (digitOf_digitChar (small digit among)).2
    case leading => exact head_digits_ne_zero
    case value => rw [decimalValue_reverse small, digitsOf, Nat.ofDigits_digits]

/-- Two numbers never have the same text. -/
theorem lexicalCast_injective : Function.Injective lexicalCast := by
  intro first second same
  obtain ⟨text, cast, numeral⟩ := isNumeral_lexicalCast first
  obtain ⟨text', cast', numeral'⟩ := isNumeral_lexicalCast second
  obtain rfl : text = text' := Option.some.inj (cast.symm.trans (same.trans cast'))
  exact BitVec.eq_of_toNat_eq (numeral.value.symm.trans numeral'.value)

/-- The number of a document is converted without a loss. -/
theorem documentKey_injective : Function.Injective documentKey := by
  intro first second same
  have extended := lexicalCast_injective same
  have toInt := congrArg BitVec.toInt extended
  rw [BitVec.toInt_signExtend_of_le (by decide), BitVec.toInt_signExtend_of_le (by decide)] at toInt
  exact BitVec.eq_of_toInt_eq toInt

theorem documentFile_injective (inputDir : Str) : Function.Injective (documentFile inputDir) := by
  intro first second same
  refine documentKey_injective (Option.map_injective ?_ same)
  intro key key' file
  exact List.append_cancel_left (List.append_cancel_right file)

/-- **`lexical_cast` gives the canonical numeral** of every number. The second loop writes to each
of the positions that the first one has counted, once, from the last to the first; no two
documents have the same key or the same file. -/
theorem lexical_cast_canonical :
    (∀ value, ∃ text, lexicalCast value = some text ∧ IsNumeral value text) ∧
    (∀ value, (digitWrites value (countDigits value 0)).map (fun write => write.1.toNat) =
      (List.range (countDigits value 0).toNat).reverse) ∧
    Function.Injective documentKey ∧
    ∀ inputDir, Function.Injective (documentFile inputDir) := by
  refine ⟨isNumeral_lexicalCast, fun value => ?_, documentKey_injective, documentFile_injective⟩
  rw [digitWrites_positions (toNat_countDigits value), toNat_countDigits]

end Wookie
