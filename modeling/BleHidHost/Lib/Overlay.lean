import BleHidHost.Lib.Bits
import Mathlib.Data.List.Pairwise

/-!
# Independent values in a byte string

A byte string holds values in regions of its bits.  Regions that share no bit hold any
values at once, whatever lies between them.

## Main definitions

* `bytesOf` — the bytes with these bits.
* `Region`, `Region.Apart` — a run of bits, and two that share none.
* `overlay` — the bits of a family of values at their places.

## Main results

* `bitAt_bytesOf` — the bits of a byte string that is given by its bits.
* `slice_overlay` — **values at places that lie apart are all read back.**
-/

namespace Lib

/-! ### Bytes from bits -/

/-- The byte with these bits. -/
def byteOf (f : ℕ → Bool) : BitVec 8 :=
  (BitVec.ofBoolListLE ((List.range 8).map f)).cast (by simp)

/-- The first `n` bytes with these bits. -/
def bytesOf (n : ℕ) (f : ℕ → Bool) : List (BitVec 8) :=
  (List.range n).map fun b => byteOf fun j => f (8 * b + j)

theorem getLsbD_byteOf (f : ℕ → Bool) {j : ℕ} (hj : j < 8) : (byteOf f).getLsbD j = f j := by
  rw [byteOf, BitVec.getLsbD_cast, BitVec.getLsbD_ofBoolListLE, List.getD_eq_getElem?_getD,
    List.getElem?_map, List.getElem?_range hj, Option.map_some, Option.getD_some]

@[simp] theorem length_bytesOf (n : ℕ) (f : ℕ → Bool) : (bytesOf n f).length = n := by
  simp [bytesOf]

/-- **The bits are those that were given.** -/
theorem bitAt_bytesOf (f : ℕ → Bool) {n i : ℕ} (hi : i < 8 * n) : bitAt (bytesOf n f) i = f i := by
  have hbyte : i / 8 < n := by omega
  have hsplit : 8 * (i / 8) + i % 8 = i := Nat.div_add_mod i 8
  rw [bitAt, bytesOf, List.getD_eq_getElem?_getD, List.getElem?_map, List.getElem?_range hbyte,
    Option.map_some, Option.getD_some, getLsbD_byteOf _ (Nat.mod_lt i (by decide)), hsplit]

/-! ### Regions -/

/-- A run of bits. -/
structure Region where
  start : ℕ
  width : ℕ
  deriving DecidableEq, Repr

namespace Region

/-- The first bit behind a region. -/
def stop (r : Region) : ℕ := r.start + r.width

/-- The bit lies in the region. -/
def Covers (r : Region) (i : ℕ) : Prop := r.start ≤ i ∧ i < r.stop

instance (r : Region) (i : ℕ) : Decidable (r.Covers i) := inferInstanceAs (Decidable (_ ∧ _))

/-- The regions share no bit. -/
def Apart (r r' : Region) : Prop :=
  r.width = 0 ∨ r'.width = 0 ∨ r.stop ≤ r'.start ∨ r'.stop ≤ r.start

instance (r r' : Region) : Decidable (r.Apart r') := inferInstanceAs (Decidable (_ ∨ _))

theorem Apart.symm {r r' : Region} (h : r.Apart r') : r'.Apart r := by
  unfold Apart at h ⊢
  omega

/-- **Regions are apart when no bit lies in both.** -/
theorem apart_iff {r r' : Region} : r.Apart r' ↔ ∀ i, r.Covers i → ¬ r'.Covers i := by
  unfold Apart Covers stop
  constructor
  · intro h i hi hi'
    omega
  · intro h
    by_contra hc
    -- the later of the two starts lies in both
    exact h (max r.start r'.start) (by omega) (by omega)

end Region

/-! ### Values at their places -/

section Overlay

variable {ι : Type} (place : ι → Region) (value : ι → ℕ) (is : List ι)

/-- The bits of the values at their places. -/
def overlay (i : ℕ) : Bool :=
  is.any fun k => decide ((place k).Covers i) && (value k).testBit (i - (place k).start)

variable {place value is}

/-- A bit that one place covers is that of its value. -/
theorem overlay_eq {k : ι} {i : ℕ} (hk : k ∈ is) (hi : (place k).Covers i)
    (honly : ∀ k' ∈ is, k' ≠ k → ¬ (place k').Covers i) :
    overlay place value is i = (value k).testBit (i - (place k).start) := by
  rw [overlay, Bool.eq_iff_iff, List.any_eq_true]
  constructor
  · rintro ⟨k', hk', hbit⟩
    rw [Bool.and_eq_true, decide_eq_true_iff] at hbit
    by_cases hne : k' = k
    · rw [← hne]
      exact hbit.2
    · exact absurd hbit.1 (honly k' hk' hne)
  · intro hbit
    exact ⟨k, hk, by rw [decide_eq_true hi, Bool.true_and, hbit]⟩

/-- **Values at places that lie apart are all read back.** -/
theorem slice_overlay (hapart : is.Pairwise fun k k' => (place k).Apart (place k')) {k : ι}
    (hk : k ∈ is) {n : ℕ} (hstop : (place k).stop ≤ 8 * n) :
    slice (bytesOf n (overlay place value is)) (place k).start (place k).width =
      BitVec.ofNat (place k).width (value k) := by
  have hsymm : Std.Symm fun k k' => (place k).Apart (place k') := ⟨fun _ _ => Region.Apart.symm⟩
  apply slice_eq_of_bitAt
  intro j hj
  have hcovers : (place k).Covers ((place k).start + j) :=
    ⟨Nat.le_add_right _ _, Nat.add_lt_add_left hj _⟩
  rw [bitAt_bytesOf _ (lt_of_lt_of_le hcovers.2 hstop), overlay_eq hk hcovers,
    Nat.add_sub_cancel_left, BitVec.getLsbD_ofNat, decide_eq_true hj, Bool.true_and]
  intro k' hk' hne hcovers'
  exact Region.apart_iff.mp (hapart.forall hk' hk hne) _ hcovers' hcovers

end Overlay

/-- Regions that share a bit cannot hold all ones and all zeros at once. -/
theorem apart_of_slices {p : List (BitVec 8)} {r r' : Region}
    (hones : slice p r.start r.width = BitVec.allOnes r.width)
    (hzeros : slice p r'.start r'.width = 0) : r.Apart r' := by
  rw [Region.apart_iff]
  intro i hi hi'
  have hstop : i < r.start + r.width := hi.2
  have hstop' : i < r'.start + r'.width := hi'.2
  have hset : bitAt p i = true := by
    have hbit : (slice p r.start r.width).getLsbD (i - r.start) = true := by
      rw [hones, BitVec.getLsbD_allOnes, decide_eq_true (by have := hi.1; omega)]
    rw [getLsbD_slice, Nat.add_sub_cancel' hi.1, Bool.and_eq_true] at hbit
    exact hbit.2
  have hclear := slice_eq_zero_iff.mp hzeros (i - r'.start) (by have := hi'.1; omega)
  rw [Nat.add_sub_cancel' hi'.1, hset] at hclear
  exact Bool.false_ne_true hclear.symm

end Lib
