/-
**`hash::murmur` of `include/wookie/hash.hpp`.**

The state `h` is a `long`. Where it meets a `uint64_t` the arithmetic is unsigned, but `h >> r` is a
shift of a signed number, which fills up with the sign.

* `murmur` — the function, for a little-endian platform with 64-bit `long`.
* `murmurState_eq` — up to the final mixing it is the reference algorithm: the switch over what is
  left falls through to the bytes of one word.
* `murmur_eq_iff` — **it is `MurmurHash64A` exactly where the highest bit is clear, both in the
  reference's state before the final mixing and in its hash.**
* `murmur_differs` — one byte.
-/

import Wookie.Library.MurmurHash64A

namespace Wookie.Hash

open Library MurmurHash64A

/-! ### The function -/

/-- `const uint64_t m`. -/
def multiplier : BitVec 64 := 0xc6a4a7935bd1e995#64

/-- One pass through the loop: `k` is unsigned. -/
def mixBlock (h k : BitVec 64) : BitVec 64 :=
  let k := k * multiplier
  let k := k ^^^ k >>> 47
  let k := k * multiplier
  (h ^^^ k) * multiplier

/-- `while (data != end)`, `blocks` passes: `*data++` goes to the body. Where `data` stands then. -/
def eachBlock (body : BitVec 64 → BitVec 64 → BitVec 64) :
    Nat → List UInt8 → BitVec 64 → BitVec 64 × List UInt8
  | 0, data, h => (h, data)
  | blocks + 1, data, h => eachBlock body blocks (data.drop 8) (body h (word (data.take 8)))

/-- `(uint64_t)data2[i] << 8 * i`. -/
def shifted (data2 : List UInt8) (i : Nat) : BitVec 64 :=
  (data2.getD i 0).toBitVec.setWidth 64 <<< (8 * i)

/-- `switch (str.size() & 7)`: every case falls through to the next. -/
def switchTail (size : Nat) (data2 : List UInt8) (h : BitVec 64) : BitVec 64 :=
  let h := if 7 ≤ size then h ^^^ shifted data2 6 else h
  let h := if 6 ≤ size then h ^^^ shifted data2 5 else h
  let h := if 5 ≤ size then h ^^^ shifted data2 4 else h
  let h := if 4 ≤ size then h ^^^ shifted data2 3 else h
  let h := if 3 ≤ size then h ^^^ shifted data2 2 else h
  let h := if 2 ≤ size then h ^^^ shifted data2 1 else h
  if 1 ≤ size then (h ^^^ shifted data2 0) * multiplier else h

/-- `h` before the last three lines. -/
def murmurState (str : List UInt8) (seed : BitVec 64) : BitVec 64 :=
  let (h, data2) :=
    eachBlock mixBlock (str.length / 8) str (seed ^^^ BitVec.ofNat 64 str.length * multiplier)
  switchTail (str.length % 8) data2 h

/-- `h ^= h >> r`, on a `long`. -/
def signedXorShift (h : BitVec 64) : BitVec 64 := h ^^^ h.sshiftRight 47

/-- `murmur`. -/
def murmur (str : List UInt8) (seed : BitVec 64) : BitVec 64 :=
  let h := murmurState str seed
  let h := signedXorShift h
  let h := h * multiplier
  signedXorShift h

/-! ### Up to the final mixing -/

theorem multiplier_eq : multiplier = m := rfl

theorem mixBlock_eq : mixBlock = mix := by
  funext h k
  unfold mixBlock mix xorShift
  rw [multiplier_eq]

/-- **The loop takes the whole words**, and leaves `data` behind them. -/
theorem eachBlock_eq (body : BitVec 64 → BitVec 64 → BitVec 64) (blocks : Nat)
    (data : List UInt8) (h : BitVec 64) :
    eachBlock body blocks data h =
      ((words blocks data).foldl body h, data.drop (8 * blocks)) := by
  induction blocks generalizing data h with
  | zero => rfl
  | succ blocks ih =>
    rw [eachBlock, ih, words_succ, List.foldl_cons, List.drop_drop, Nat.mul_succ, Nat.add_comm]

/-- There is nothing behind the last byte. -/
theorem shifted_of_le {data2 : List UInt8} {i : Nat} (behind : data2.length ≤ i) :
    shifted data2 i = 0#64 := by
  rw [shifted, List.getD_eq_getElem?_getD, List.getElem?_eq_none behind]
  exact BitVec.zero_shiftLeft _

theorem shifted_succ (data2 : List UInt8) (i : Nat) :
    shifted data2 (i + 1) = shifted data2.tail i <<< 8 := by
  cases data2 with
  | nil =>
    rw [List.tail_nil, shifted_of_le (Nat.zero_le _), shifted_of_le (Nat.zero_le _),
      BitVec.zero_shiftLeft]
  | cons byte rest =>
    unfold shifted
    rw [List.tail_cons, List.getD_cons_succ, Nat.mul_succ, BitVec.shiftLeft_add]

theorem word_eq (data2 : List UInt8) :
    word data2 = shifted data2 0 ^^^ word data2.tail <<< 8 := by
  cases data2 with
  | nil => decide
  | cons byte rest =>
    rw [word, shifted, List.getD_cons_zero, Nat.mul_zero, BitVec.shiftLeft_zero, List.tail_cons]

/-- A word is its bytes, each where it belongs. -/
theorem word_eq_foldr (n : Nat) {data2 : List UInt8} (short : data2.length ≤ n) :
    word data2 = (List.range n).foldr (fun i rest => shifted data2 i ^^^ rest) 0#64 := by
  induction n generalizing data2 with
  | zero =>
    rw [List.length_eq_zero_iff.mp (Nat.le_zero.mp short)]
    rfl
  | succ n ih =>
    have moved : ∀ places : List Nat,
        places.foldr (fun i rest => shifted data2 (i + 1) ^^^ rest) 0#64 =
          places.foldr (fun i rest => shifted data2.tail i ^^^ rest) 0#64 <<< 8 := by
      intro places
      induction places with
      | nil => rfl
      | cons i places ih =>
        rw [List.foldr_cons, List.foldr_cons, ih, shifted_succ, BitVec.shiftLeft_xor_distrib]
    have shorter : data2.tail.length ≤ n := by
      rw [List.length_tail]
      omega
    rw [word_eq, ih shorter, ← moved, List.range_succ_eq_map, List.foldr_cons, List.foldr_map]

/-- **The switch mixes in one word**, if there is anything left. -/
theorem switchTail_eq {data2 : List UInt8} (short : data2.length < 8) (h : BitVec 64) :
    switchTail data2.length data2 h = if data2 = [] then h else (h ^^^ word data2) * m := by
  -- a case that is not entered would mix in nothing
  have entered : ∀ i h, (if i + 1 ≤ data2.length then h ^^^ shifted data2 i else h) =
      h ^^^ shifted data2 i := by
    intro i h
    split
    · rfl
    · rw [shifted_of_le (by omega), BitVec.xor_zero]
  have bytes := word_eq_foldr 7 (Nat.le_of_lt_succ short)
  simp only [List.range, List.range.loop, List.foldr_cons, List.foldr_nil, BitVec.xor_zero]
    at bytes
  unfold switchTail
  simp only [entered 6, entered 5, entered 4, entered 3, entered 2, entered 1, multiplier_eq]
  by_cases none : data2 = []
  · have empty : ∀ i, shifted data2 i = 0#64 := fun i =>
      shifted_of_le (by rw [none]; exact Nat.zero_le i)
    have no_case : ¬ 1 ≤ data2.length := by
      rw [none]
      decide
    rw [if_neg no_case, if_pos none, empty, empty, empty, empty, empty, empty]
    repeat rw [BitVec.xor_zero]
  · have some_case : 1 ≤ data2.length := List.length_pos_iff.mpr none
    rw [if_pos some_case, if_neg none, bytes]
    -- the order of the bytes does not matter
    generalize shifted data2 = byte
    ac_rfl

theorem murmurState_eq (str : List UInt8) (seed : BitVec 64) :
    murmurState str seed = absorbed str seed := by
  have left : str.length % 8 = (str.drop (8 * (str.length / 8))).length := by
    rw [List.length_drop]
    omega
  have short : (str.drop (8 * (str.length / 8))).length < 8 := by omega
  unfold murmurState absorbed
  rw [eachBlock_eq, left, multiplier_eq, mixBlock_eq]
  exact switchTail_eq short _

/-! ### The final mixing -/

/-- A clear highest bit is what a signed shift fills up with. -/
theorem signedXorShift_of_clear {h : BitVec 64} (clear : h.msb = false) :
    signedXorShift h = xorShift h := by
  rw [signedXorShift, BitVec.sshiftRight_eq_of_msb_false clear, xorShift]

/-- The highest bit meets its own copy. -/
theorem msb_signedXorShift (h : BitVec 64) : (signedXorShift h).msb = false := by
  rw [signedXorShift, BitVec.msb_xor, BitVec.msb_sshiftRight, Bool.xor_self]

theorem getLsbD_xorShift_low (h : BitVec 64) :
    (xorShift h).getLsbD 0 = (h.getLsbD 0 ^^ h.getLsbD 47) := by
  rw [xorShift, BitVec.getLsbD_xor, BitVec.getLsbD_ushiftRight]

theorem getLsbD_xorShift_high (h : BitVec 64) : (xorShift h).getLsbD 47 = h.getLsbD 47 := by
  rw [xorShift, BitVec.getLsbD_xor, BitVec.getLsbD_ushiftRight]
  simp

theorem getLsbD_signedXorShift_low (h : BitVec 64) :
    (signedXorShift h).getLsbD 0 = (xorShift h).getLsbD 0 := by
  rw [signedXorShift, xorShift, BitVec.getLsbD_xor, BitVec.getLsbD_xor,
    BitVec.getLsbD_sshiftRight, BitVec.getLsbD_ushiftRight]
  simp

/-- A set highest bit fills the bits from 17 on. -/
theorem getLsbD_signedXorShift_high {h : BitVec 64} (negative : h.msb = true) :
    (signedXorShift h).getLsbD 47 = !(xorShift h).getLsbD 47 := by
  rw [signedXorShift, xorShift, BitVec.getLsbD_xor, BitVec.getLsbD_xor,
    BitVec.getLsbD_sshiftRight, BitVec.getLsbD_ushiftRight]
  simp [negative]

/-- The code's final mixing. -/
def signedFinish (h : BitVec 64) : BitVec 64 := signedXorShift (signedXorShift h * m)

/-- **The final mixings agree** exactly where both highest bits are clear. -/
theorem signedFinish_eq_iff (h : BitVec 64) :
    signedFinish h = finish h ↔ h.msb = false ∧ (finish h).msb = false := by
  constructor
  · intro same
    have result : (finish h).msb = false := by
      rw [← same]
      exact msb_signedXorShift _
    refine ⟨eq_false_of_ne_true fun negative => ?_, result⟩
    have after : (signedXorShift h * m).msb = true := by
      -- a clear bit would undo every step, down to the first shift
      refine eq_true_of_ne_false fun clear => ?_
      have first : signedXorShift h = xorShift h := by
        refine mul_injective (xorShift_injective ?_)
        rw [← signedXorShift_of_clear clear]
        exact same
      have bit := getLsbD_signedXorShift_high negative
      rw [first] at bit
      exact (Bool.eq_not_self _).mp bit
    -- bit 47 says that the two products differ there; bit 0 that they differ at the lowest bit too
    have high : (xorShift (xorShift h * m)).getLsbD 47 =
        !(xorShift (signedXorShift h * m)).getLsbD 47 := by
      rw [← getLsbD_signedXorShift_high after]
      exact congrArg (·.getLsbD 47) same.symm
    have low : (xorShift (xorShift h * m)).getLsbD 0 =
        (xorShift (signedXorShift h * m)).getLsbD 0 := by
      rw [← getLsbD_signedXorShift_low (signedXorShift h * m)]
      exact congrArg (·.getLsbD 0) same.symm
    have odd : (xorShift h * m).getLsbD 0 = (signedXorShift h * m).getLsbD 0 := by
      rw [getLsbD_zero_mul, getLsbD_zero_mul, getLsbD_signedXorShift_low]
    rw [getLsbD_xorShift_high, getLsbD_xorShift_high] at high
    rw [getLsbD_xorShift_low, getLsbD_xorShift_low, odd, high] at low
    revert low
    cases (signedXorShift h * m).getLsbD 0 <;> cases (signedXorShift h * m).getLsbD 47 <;> decide
  · rintro ⟨clear, result⟩
    have after : (xorShift h * m).msb = false := by
      rw [← msb_xorShift]
      exact result
    rw [signedFinish, signedXorShift_of_clear clear, signedXorShift_of_clear after, finish]

/-- **`murmur` is `MurmurHash64A`** exactly where the highest bit is clear in the reference's state
before the final mixing and in its hash. -/
theorem murmur_eq_iff (str : List UInt8) (seed : BitVec 64) :
    murmur str seed = murmurHash64A str seed ↔
      (absorbed str seed).msb = false ∧ (murmurHash64A str seed).msb = false := by
  have code : murmur str seed = signedFinish (absorbed str seed) := by
    unfold murmur
    rw [murmurState_eq, multiplier_eq]
    rfl
  rw [code]
  exact signedFinish_eq_iff _

/-- **The byte `a`** with seed zero. -/
theorem murmur_differs : murmur [97] 0 ≠ murmurHash64A [97] 0 := by
  decide +kernel

end Wookie.Hash
