/-
**The reference `MurmurHash64A`.**

All arithmetic is on unsigned 64-bit words. The bytes are read as little-endian words; what is left
behind the last whole word is one shorter word. Each word is mixed into the state, and the state is
mixed twice more at the end.

* `murmurHash64A` — the algorithm; `absorbed` is its state before the final mixing.
* `xorShift_xorShift` — the xorshift is its own inverse, `mul_injective` — the multiplication by the
  odd constant loses nothing.
* `msb_xorShift`, `getLsbD_zero_mul` — what becomes of the highest bit and of the lowest.
-/

namespace Wookie.Library.MurmurHash64A

/-- The multiplier. -/
def m : BitVec 64 := 0xc6a4a7935bd1e995#64

/-- `m` times this is one. -/
def mInverse : BitVec 64 := 0x5f7a0ea7e59b19bd#64

/-- The bytes as a little-endian word. -/
def word : List UInt8 → BitVec 64
  | [] => 0
  | byte :: rest => byte.toBitVec.setWidth 64 ^^^ word rest <<< 8

/-- `x ^ (x >> 47)`. -/
def xorShift (x : BitVec 64) : BitVec 64 := x ^^^ x >>> 47

/-- A whole word is mixed into the state. -/
def mix (h k : BitVec 64) : BitVec 64 := (h ^^^ xorShift (k * m) * m) * m

/-- The first `n` words of the bytes. -/
def words (n : Nat) (bytes : List UInt8) : List (BitVec 64) :=
  (List.range n).map fun i => word ((bytes.drop (8 * i)).take 8)

/-- The state when all bytes are mixed in. -/
def absorbed (bytes : List UInt8) (seed : BitVec 64) : BitVec 64 :=
  let n := bytes.length / 8
  let rest := bytes.drop (8 * n)
  let h := (words n bytes).foldl mix (seed ^^^ BitVec.ofNat 64 bytes.length * m)
  if rest = [] then h else (h ^^^ word rest) * m

/-- The final mixing. -/
def finish (h : BitVec 64) : BitVec 64 := xorShift (xorShift h * m)

/-- `MurmurHash64A`. -/
def murmurHash64A (bytes : List UInt8) (seed : BitVec 64) : BitVec 64 :=
  finish (absorbed bytes seed)

/-! ### The words -/

theorem words_succ (n : Nat) (bytes : List UInt8) :
    words (n + 1) bytes = word (bytes.take 8) :: words n (bytes.drop 8) := by
  unfold words
  rw [List.range_succ_eq_map, List.map_cons, List.map_map]
  congr 1
  refine List.map_congr_left fun i _ => ?_
  rw [Function.comp_apply, List.drop_drop, Nat.mul_succ, Nat.add_comm]

/-! ### The xorshift -/

/-- **The xorshift is its own inverse**: twice 47 bits are more than there are. -/
theorem xorShift_xorShift (x : BitVec 64) : xorShift (xorShift x) = x := by
  have gone : x >>> 47 >>> 47 = 0#64 := by
    rw [← BitVec.shiftRight_add]
    exact BitVec.ushiftRight_eq_zero (by decide)
  show (x ^^^ x >>> 47) ^^^ (x ^^^ x >>> 47) >>> 47 = x
  rw [BitVec.ushiftRight_xor_distrib, gone, BitVec.xor_zero, BitVec.xor_assoc, BitVec.xor_self,
    BitVec.xor_zero]

theorem xorShift_injective {x y : BitVec 64} (same : xorShift x = xorShift y) : x = y := by
  rw [← xorShift_xorShift x, same, xorShift_xorShift]

/-- The highest bit stays. -/
theorem msb_xorShift (x : BitVec 64) : (xorShift x).msb = x.msb := by
  unfold xorShift
  rw [BitVec.msb_xor, BitVec.msb_ushiftRight]
  simp

/-! ### The multiplier -/

/-- **The multiplication loses nothing.** -/
theorem mul_injective {x y : BitVec 64} (same : x * m = y * m) : x = y := by
  have one : m * mInverse = 1#64 := by decide
  calc x = x * m * mInverse := by rw [BitVec.mul_assoc, one, BitVec.mul_one]
    _ = y * m * mInverse := by rw [same]
    _ = y := by rw [BitVec.mul_assoc, one, BitVec.mul_one]

/-- The lowest bit stays: the multiplier is odd. -/
theorem getLsbD_zero_mul (x : BitVec 64) : (x * m).getLsbD 0 = x.getLsbD 0 := by
  have odd : m.toNat % 2 = 1 := by decide
  have low : ∀ y : BitVec 64, y.getLsbD 0 = decide (y.toNat % 2 = 1) := fun y => by
    rw [BitVec.getLsbD, Nat.testBit_zero]
  rw [low, low, BitVec.toNat_mul]
  congr 1
  rw [Nat.mod_mod_of_dvd _ (by decide), Nat.mul_mod, odd, Nat.mul_one, Nat.mod_mod]

end Wookie.Library.MurmurHash64A
