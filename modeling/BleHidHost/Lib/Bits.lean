import Mathlib.Data.Int.Notation
import Mathlib.Data.Nat.Notation
import Mathlib.Data.List.Basic
import Mathlib.Tactic.Linarith

/-!
# Little-endian bytes and least-significant-first bits

A byte string read as one little-endian number, and its bits counted from the
least significant bit of its first byte.  A run of bits is a slice of that
number.

## Main definitions

* `leNat` — the little-endian number of a byte string.
* `bitAt` — one bit of a byte string.
* `bitsOf` — all its bits in order.
* `slice` — `w` bits from an offset on, as a bit vector.
* `leInt` — the number of a byte string in two's complement.

## Main results

* `testBit_leNat` — the bits of the number are the bits of the string.
* `slice_eq_of_bitAt` — a slice is determined by the bits it covers.
-/

namespace Lib

variable {w : ℕ}

/-- The little-endian number of a byte string. -/
def leNat : List (BitVec 8) → ℕ
  | [] => 0
  | b :: bs => b.toNat + 256 * leNat bs

/-- Bit `n` of a byte string, `false` past its end. -/
def bitAt (p : List (BitVec 8)) (n : ℕ) : Bool := (p.getD (n / 8) 0).getLsbD (n % 8)

/-- The bits of a byte string in order. -/
def bitsOf (p : List (BitVec 8)) : List Bool := (List.range (8 * p.length)).map (bitAt p)

/-- The `w` bits of a byte string from bit `off` on. -/
def slice (p : List (BitVec 8)) (off w : ℕ) : BitVec w := BitVec.ofNat w (leNat p >>> off)

@[simp] theorem leNat_nil : leNat [] = 0 := rfl

@[simp] theorem leNat_cons (b : BitVec 8) (bs : List (BitVec 8)) :
    leNat (b :: bs) = b.toNat + 256 * leNat bs := rfl

theorem leNat_lt (p : List (BitVec 8)) : leNat p < 256 ^ p.length := by
  induction p with
  | nil => simp
  | cons b bs ih =>
    have hb : b.toNat < 256 := b.isLt
    rw [leNat_cons, List.length_cons, pow_succ]
    omega

@[simp] theorem length_bitsOf (p : List (BitVec 8)) : (bitsOf p).length = 8 * p.length := by
  simp [bitsOf]

@[simp] theorem bitAt_nil (n : ℕ) : bitAt [] n = false := by simp [bitAt]

/-- The first byte holds the first eight bits, the others the rest. -/
theorem bitAt_cons (b : BitVec 8) (bs : List (BitVec 8)) (n : ℕ) :
    bitAt (b :: bs) n = if n < 8 then b.getLsbD n else bitAt bs (n - 8) := by
  split
  · next h => simp [bitAt, Nat.div_eq_of_lt h, Nat.mod_eq_of_lt h]
  · next h =>
    -- bit `8 + k` of the string is bit `k` of the tail
    obtain ⟨k, rfl⟩ := Nat.exists_eq_add_of_le (Nat.le_of_not_lt h)
    have hd : (8 + k) / 8 = k / 8 + 1 := by omega
    have hm : (8 + k) % 8 = k % 8 := by omega
    have hs : 8 + k - 8 = k := by omega
    simp [bitAt, hd, hm, hs]

/-- **The bits of the little-endian number are the bits of the string.** -/
theorem testBit_leNat (p : List (BitVec 8)) (n : ℕ) : (leNat p).testBit n = bitAt p n := by
  induction p generalizing n with
  | nil => simp
  | cons b bs ih =>
    have hshift : leNat (b :: bs) = leNat bs * 2 ^ 8 + b.toNat := by rw [leNat_cons]; omega
    rw [bitAt_cons, hshift, Nat.mul_comm, Nat.testBit_two_pow_mul_add _ b.isLt]
    split
    · rfl
    · exact ih (n - 8)

theorem getElem?_bitsOf (p : List (BitVec 8)) {n : ℕ} (h : n < 8 * p.length) :
    (bitsOf p)[n]? = some (bitAt p n) := by
  rw [bitsOf, List.getElem?_map, List.getElem?_range h, Option.map_some]

/-- Bits past the end of a byte string are clear. -/
theorem bitAt_of_length_le {p : List (BitVec 8)} {n : ℕ} (h : 8 * p.length ≤ n) :
    bitAt p n = false := by
  rw [bitAt, List.getD_eq_getElem?_getD, List.getElem?_eq_none (by omega), Option.getD_none]
  exact BitVec.getLsbD_zero

/-! ### Slices -/

@[simp] theorem getLsbD_slice (p : List (BitVec 8)) (off w j : ℕ) :
    (slice p off w).getLsbD j = (decide (j < w) && bitAt p (off + j)) := by
  rw [slice, BitVec.getLsbD_ofNat, Nat.testBit_shiftRight, testBit_leNat]

/-- A slice is the quotient by the offset's power of two, reduced to its width. -/
theorem toNat_slice (p : List (BitVec 8)) (off w : ℕ) :
    (slice p off w).toNat = leNat p / 2 ^ off % 2 ^ w := by
  rw [slice, BitVec.toNat_ofNat, Nat.shiftRight_eq_div_pow]

/-- **A slice is determined by the bits it covers.** -/
theorem slice_eq_of_bitAt {p : List (BitVec 8)} {off : ℕ} {x : BitVec w}
    (h : ∀ j, j < w → bitAt p (off + j) = x.getLsbD j) : slice p off w = x := by
  apply BitVec.eq_of_getLsbD_eq
  intro j hj
  rw [getLsbD_slice, h j hj, decide_eq_true hj, Bool.true_and]

/-- A slice is zero exactly when every bit it covers is clear. -/
theorem slice_eq_zero_iff {p : List (BitVec 8)} {off w : ℕ} :
    slice p off w = 0#w ↔ ∀ j, j < w → bitAt p (off + j) = false := by
  constructor
  · intro h j hj
    have hbit : (slice p off w).getLsbD j = (0#w).getLsbD j := by rw [h]
    rwa [getLsbD_slice, decide_eq_true hj, Bool.true_and, BitVec.getLsbD_zero] at hbit
  · intro h
    exact slice_eq_of_bitAt fun j hj => by rw [h j hj, BitVec.getLsbD_zero]

/-- The number of a byte string in two's complement. -/
def leInt (p : List (BitVec 8)) : ℤ :=
  if 2 * leNat p < 256 ^ p.length then leNat p else leNat p - 256 ^ p.length

/-- The slice of all its bytes, as a signed number. -/
theorem toInt_slice_eq_leInt (p : List (BitVec 8)) :
    (slice p 0 (8 * p.length)).toInt = leInt p := by
  have hpow : 2 ^ (8 * p.length) = 256 ^ p.length := pow_mul 2 8 p.length
  rw [BitVec.toInt_eq_toNat_cond, toNat_slice, pow_zero, Nat.div_one, hpow,
    Nat.mod_eq_of_lt (leNat_lt p), leInt, Nat.cast_pow]
  rfl

/-! ### Sign extension by masks -/

/-- The mask below bit `s`. -/
theorem getLsbD_mask {s : ℕ} (hs : s < w) (j : ℕ) :
    (1#w <<< s - 1#w).getLsbD j = decide (j < s) := by
  have hpow : 2 ^ s < 2 ^ w := Nat.pow_lt_pow_right (by decide) hs
  have hpos : 0 < 2 ^ s := Nat.two_pow_pos s
  have hone : (1#w).toNat = 1 := Nat.mod_eq_of_lt (Nat.one_lt_two_pow (by omega))
  have hnat : (1#w <<< s - 1#w).toNat = 2 ^ s - 1 := by
    rw [← BitVec.twoPow_eq, BitVec.toNat_sub, BitVec.toNat_twoPow, Nat.mod_eq_of_lt hpow, hone]
    rw [show 2 ^ w - 1 + 2 ^ s = 2 ^ s - 1 + 2 ^ w by omega, Nat.add_mod_right,
      Nat.mod_eq_of_lt (by omega)]
  rw [← BitVec.testBit_toNat, hnat, Nat.testBit_two_pow_sub_one]

/-- **Setting every bit above a set sign bit is sign extension.** -/
theorem or_not_mask_eq_signExtend {s : ℕ} (hs : 0 < s) (hw : s < w) (x : BitVec s) :
    (if x.setWidth w &&& 1#w <<< (s - 1) ≠ 0#w then x.setWidth w ||| ~~~(1#w <<< s - 1#w)
      else x.setWidth w) = x.signExtend w := by
  have htop : s - 1 < w := by omega
  rw [← BitVec.twoPow_eq w (s - 1), BitVec.and_twoPow]
  apply BitVec.eq_of_getLsbD_eq
  intro j hj
  rw [BitVec.getLsbD_signExtend, BitVec.msb_eq_getLsbD_last]
  by_cases hsgn : x.getLsbD (s - 1)
  · -- the sign bit is set, and the complement of the mask sets the bits above it
    have hne : BitVec.twoPow w (s - 1) ≠ 0#w := fun hz => by
      have := congrArg (BitVec.getLsbD · (s - 1)) hz
      simp [htop] at this
    rw [if_pos (by simp [hsgn, htop, hne]), BitVec.getLsbD_or, BitVec.getLsbD_not,
      getLsbD_mask hw j, BitVec.getLsbD_setWidth, hsgn]
    by_cases hjs : j < s <;> simp [hj, hjs]
  · -- the sign bit is clear, and so are the bits above it
    rw [if_neg (by simp [hsgn]), BitVec.getLsbD_setWidth]
    by_cases hjs : j < s
    · simp [hj, hjs]
    · simp [hj, hjs, hsgn, BitVec.getLsbD_of_ge x j (by omega)]

end Lib
