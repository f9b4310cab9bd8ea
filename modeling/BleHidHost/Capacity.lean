import BleHidHost.Lib.Overlay
import BleHidHost.KeyboardDecode
import BleHidHost.Slicing
import Mathlib.Data.List.GetD
import Mathlib.Data.List.Nodup

/-!
# What a layout can carry

Decoding reads each field of a layout at its place.  A field bounds the values that it can
carry, and whatever is decoded is within these bounds.  The converse is a matter of places:
fields that share no bit carry any such values at once, and fields that share one do not.

## Main definitions

* `Field.InRange` — the values of a field.
* `ReportLayout.Apart`, `KeyboardLayout.Apart` — the fields of the layout share no bit.

## Main results

* `inRange_of_decode` — whatever is decoded is in range.
* `carries_iff_apart` — **a pointer layout carries every report in range exactly when its
  fields lie apart.**
* `kbdCarries_of_apart` — the same reports of keys, in a keyboard layout.
-/

namespace BleHidHost

open Lib

/-! ### The values of a field -/

/-- The values that a field can carry: those of its width, in two's complement where it is
signed or as wide as an `int32_t`. -/
def Field.InRange (f : Field) (v : ℤ) : Prop :=
  if f.bitSize = 0 then v = 0
  else if f.isSigned = true ∨ f.bitSize = 32 then
    -2 ^ (f.bitSize.toNat - 1) ≤ v ∧ v < 2 ^ (f.bitSize.toNat - 1)
  else 0 ≤ v ∧ v < 2 ^ f.bitSize.toNat

instance (f : Field) (v : ℤ) : Decidable (f.InRange v) := by
  unfold Field.InRange
  exact inferInstance

/-- The bits of a field, as they are read. -/
def fieldInt (f : Field) (x : BitVec f.bitSize.toNat) : ℤ :=
  if f.isSigned then x.toInt else (x.setWidth 32).toInt

theorem extract_eq_fieldInt (p : List U8) {f : Field} (h : f.bitSize.toNat ≤ 32) :
    extract p f = fieldInt f (slice p f.bitOffset.toNat f.bitSize.toNat) :=
  extract_eq_slice p f h

/-- A number narrower than a word is not negative in it. -/
theorem toInt_setWidth_of_lt {w : ℕ} (hw : w < 32) (x : BitVec w) :
    (x.setWidth 32).toInt = x.toNat := by
  have hlt : x.toNat < 2 ^ w := x.isLt
  have hpow : 2 ^ w ≤ 2 ^ 31 := Nat.pow_le_pow_right (by decide) (by omega)
  rw [BitVec.toInt_eq_toNat_of_lt, BitVec.toNat_setWidth, Nat.mod_eq_of_lt (by omega)]
  rw [BitVec.toNat_setWidth, Nat.mod_eq_of_lt (by omega)]
  omega

/-- What is read is in range. -/
theorem inRange_fieldInt {f : Field} (h : f.bitSize.toNat ≤ 32) (x : BitVec f.bitSize.toNat) :
    f.InRange (fieldInt f x) := by
  unfold Field.InRange fieldInt
  obtain ⟨off, size, sgn⟩ := f
  simp only at h x ⊢
  split
  · next hzero =>
    subst hzero
    have hnil : x = 0 := BitVec.eq_of_getLsbD_eq fun j hj => absurd hj (by simp)
    rw [hnil]
    split <;> rfl
  · next hsize =>
    have hpos : 0 < size.toNat := Nat.pos_of_ne_zero fun h0 => hsize (BitVec.eq_of_toNat_eq h0)
    have hbounds := And.intro (BitVec.le_toInt x) (BitVec.toInt_lt (x := x))
    split
    · next hsigned =>
      split
      · exact hbounds
      · next hplain =>
        -- a field as wide as a word is read as it stands
        obtain rfl : size = 32 := hsigned.resolve_left hplain
        have hsame : x.setWidth 32 = x := BitVec.setWidth_eq x
        rw [hsame]
        exact hbounds
    · next hplain =>
      have hlt : size.toNat < 32 := lt_of_le_of_ne h fun he =>
        hplain (.inr (BitVec.eq_of_toNat_eq he))
      rw [if_neg fun hs => hplain (.inl hs), toInt_setWidth_of_lt hlt]
      exact ⟨Int.natCast_nonneg _, by exact_mod_cast x.isLt⟩

/-- **A value in range is read back from its bits.** -/
theorem fieldInt_ofInt {f : Field} (h : f.bitSize.toNat ≤ 32) {v : ℤ} (hv : f.InRange v) :
    fieldInt f (BitVec.ofInt f.bitSize.toNat v) = v := by
  unfold Field.InRange at hv
  unfold fieldInt
  obtain ⟨off, size, sgn⟩ := f
  simp only at h hv ⊢
  split at hv
  · next hzero =>
    subst hzero hv
    split <;> rfl
  · next hsize =>
    have hpos : 0 < size.toNat := Nat.pos_of_ne_zero fun h0 => hsize (BitVec.eq_of_toNat_eq h0)
    split at hv
    · next hsigned =>
      have hself := BitVec.toInt_ofInt_eq_self hpos hv.1 hv.2
      split
      · exact hself
      · next hplain =>
        obtain rfl : size = 32 := hsigned.resolve_left hplain
        have hsame : (BitVec.ofInt (32 : U8).toNat v).setWidth 32 = BitVec.ofInt 32 v :=
          BitVec.setWidth_eq _
        rw [hsame]
        exact hself
    · next hplain =>
      have hlt : size.toNat < 32 := lt_of_le_of_ne h fun he =>
        hplain (.inr (BitVec.eq_of_toNat_eq he))
      rw [if_neg fun hs => hplain (.inl hs), toInt_setWidth_of_lt hlt, BitVec.toNat_ofInt,
        Int.emod_eq_of_lt hv.1 (by exact_mod_cast hv.2), Int.toNat_of_nonneg hv.1]

/-- A number and its bits, narrower than a word. -/
theorem ofInt_natCast_toNat {w : ℕ} (x : BitVec w) : BitVec.ofInt w (x.toNat : ℤ) = x := by
  rw [BitVec.ofInt_natCast, BitVec.ofNat_toNat, BitVec.setWidth_eq]

/-- The bits of a field are those of the value that is read. -/
theorem ofInt_fieldInt {f : Field} (h : f.bitSize.toNat ≤ 32) (x : BitVec f.bitSize.toNat) :
    BitVec.ofInt f.bitSize.toNat (fieldInt f x) = x := by
  unfold fieldInt
  generalize f.bitSize.toNat = w at h x
  split
  · exact BitVec.ofInt_toInt
  · rcases Nat.lt_or_eq_of_le h with hlt | rfl
    · rw [toInt_setWidth_of_lt hlt, ofInt_natCast_toNat]
    · rw [BitVec.setWidth_eq, BitVec.ofInt_toInt]

/-- The value whose bits are all set. -/
def Field.full (f : Field) : ℤ :=
  if f.bitSize = 0 then 0
  else if f.isSigned = true ∨ f.bitSize = 32 then -1 else 2 ^ f.bitSize.toNat - 1

theorem ofInt_full (f : Field) :
    BitVec.ofInt f.bitSize.toNat f.full = BitVec.allOnes f.bitSize.toNat := by
  have htoInt := BitVec.toInt_allOnes (w := f.bitSize.toNat)
  have htoNat := BitVec.toNat_allOnes (v := f.bitSize.toNat)
  have hpow : 1 ≤ 2 ^ f.bitSize.toNat := Nat.one_le_two_pow
  unfold Field.full
  split
  · next hzero =>
    rw [hzero] at htoInt ⊢
    exact (congrArg _ htoInt.symm).trans BitVec.ofInt_toInt
  · next hsize =>
    have hpos : 0 < f.bitSize.toNat := Nat.pos_of_ne_zero fun h0 =>
      hsize (BitVec.eq_of_toNat_eq h0)
    rw [if_pos hpos] at htoInt
    split
    · rw [← htoInt, BitVec.ofInt_toInt]
    · have hcast : (2 : ℤ) ^ f.bitSize.toNat - 1 = (BitVec.allOnes f.bitSize.toNat).toNat := by
        rw [htoNat, Nat.cast_sub hpow, Nat.cast_pow]
        rfl
      rw [hcast, ofInt_natCast_toNat]

theorem inRange_full (f : Field) : f.InRange f.full := by
  unfold Field.InRange Field.full
  split
  · rfl
  · split
    · have hpow : (0 : ℤ) < 2 ^ (f.bitSize.toNat - 1) := by positivity
      omega
    · have hpow : (0 : ℤ) < 2 ^ f.bitSize.toNat := by positivity
      omega

theorem inRange_zero (f : Field) : f.InRange 0 := by
  unfold Field.InRange
  split
  · rfl
  · split
    · have hpow : (0 : ℤ) < 2 ^ (f.bitSize.toNat - 1) := by positivity
      omega
    · have hpow : (0 : ℤ) < 2 ^ f.bitSize.toNat := by positivity
      omega

/-! ### Pointer layouts -/

/-- The axes of a layout. -/
def pointerAxes : List PointerSel := [.x, .y, .wheel, .hwheel]

/-- The delta that a report carries for an axis. -/
def PointerReport.axis (r : PointerReport) : PointerSel → ℤ
  | .x => r.dx
  | .y => r.dy
  | .wheel => r.wheel
  | .hwheel => r.hwheel
  | .buttons => 0

/-- The report is within what the layout's fields can carry. -/
structure ReportLayout.InRange (l : ReportLayout) (r : PointerReport) : Prop where
  axis : ∀ s ∈ pointerAxes, (l.get s).InRange (r.axis s)
  buttons : ∀ i, r.buttons.getLsbD i → i < l.buttonCount.toNat

/-- A report has 32 buttons to look at. -/
theorem inRange_iff (l : ReportLayout) (r : PointerReport) :
    l.InRange r ↔ (∀ s ∈ pointerAxes, (l.get s).InRange (r.axis s)) ∧
      ∀ i < 32, r.buttons.getLsbD i = true → i < l.buttonCount.toNat := by
  constructor
  · exact fun h => ⟨h.axis, fun i _ => h.buttons i⟩
  · rintro ⟨haxis, hbuttons⟩
    refine ⟨haxis, fun i hi => hbuttons i ?_ hi⟩
    by_contra hge
    rw [BitVec.getLsbD_of_ge _ _ (Nat.not_lt.mp hge)] at hi
    exact Bool.false_ne_true hi

instance (l : ReportLayout) (r : PointerReport) : Decidable (l.InRange r) :=
  decidable_of_iff _ (inRange_iff l r).symm

/-- The decoder handles the widths of the layout, and all of its buttons. -/
structure ReportLayout.Sized (l : ReportLayout) : Prop where
  axis : ∀ s ∈ pointerAxes, (l.get s).bitSize.toNat ≤ 32
  stride : l.buttons.bitSize.toNat ≤ 32
  count : l.buttonCount.toNat ≤ maxButtons

/-- Two buttons that follow one another are at least a bit apart. -/
theorem buttonStride_pos (l : ReportLayout) : 1 ≤ buttonStride l := by
  unfold buttonStride
  split
  · next h => exact Nat.pos_of_ne_zero fun h0 => h (BitVec.eq_of_toNat_eq h0)
  · exact le_rfl

/-- What a report is made of: axes and single buttons. -/
inductive PointerPiece where
  | axis (s : PointerSel)
  | button (i : ℕ)
  deriving DecidableEq, Repr

/-- The pieces of a layout. -/
def ReportLayout.pieces (l : ReportLayout) : List PointerPiece :=
  pointerAxes.map .axis ++ (List.range l.buttonCount.toNat).map .button

/-- Where a piece lies. -/
def ReportLayout.place (l : ReportLayout) : PointerPiece → Region
  | .axis s => ⟨(l.get s).bitOffset.toNat, (l.get s).bitSize.toNat⟩
  | .button i => ⟨buttonBase l i, buttonStride l⟩

/-- The fields of the layout share no bit. -/
def ReportLayout.Apart (l : ReportLayout) : Prop :=
  l.pieces.Pairwise fun a b => (l.place a).Apart (l.place b)

instance (l : ReportLayout) : Decidable l.Apart := by
  unfold ReportLayout.Apart
  exact inferInstance

/-- The bits of a piece, as a number. -/
def ReportLayout.number (l : ReportLayout) (r : PointerReport) : PointerPiece → ℕ
  | .axis s => (BitVec.ofInt (l.get s).bitSize.toNat (r.axis s)).toNat
  | .button i => (r.buttons.getLsbD i).toNat

section Pointer

variable {l : ReportLayout} {r : PointerReport} {p : List U8} {n : ℕ}

theorem axis_mem_pieces {s : PointerSel} (hs : s ∈ pointerAxes) : .axis s ∈ l.pieces :=
  List.mem_append_left _ (List.mem_map_of_mem hs)

theorem button_mem_pieces {i : ℕ} (hi : i < l.buttonCount.toNat) : .button i ∈ l.pieces :=
  List.mem_append_right _ (List.mem_map_of_mem (List.mem_range.mpr hi))

/-- Whatever is decoded is in range. -/
theorem inRange_of_decode (hsized : l.Sized) (hdecode : zmkHidDecodeReport l p = some r) :
    l.InRange r := by
  obtain ⟨-, -, rfl⟩ := (zmkHidDecodeReport_eq_some_iff l p r).mp hdecode
  have hfield {s : PointerSel} (hs : s ∈ pointerAxes) :
      (l.get s).InRange (extract p (l.get s)) := by
    rw [extract_eq_fieldInt p (hsized.axis s hs)]
    exact inRange_fieldInt (hsized.axis s hs) _
  refine ⟨fun s hs => ?_, fun i hi => ?_⟩
  · have hin := hfield hs
    cases s with
    | buttons => exact absurd hs (by decide)
    | _ => exact hin
  · rw [getLsbD_buttonBits, decide_eq_true_iff] at hi
    exact lt_of_lt_of_le hi.1 (min_le_left _ _)

/-- A payload that is long enough holds every piece. -/
theorem stop_le_of_gate (hn : payloadBits l ≤ 8 * n) {k : PointerPiece} (hk : k ∈ l.pieces)
    (hwidth : (l.place k).width ≠ 0) : (l.place k).stop ≤ 8 * n := by
  obtain ⟨haxes, hbuttons⟩ := (payloadBits_le_iff l (8 * n)).mp hn
  rcases List.mem_append.mp hk with hk | hk
  · obtain ⟨s, hs, rfl⟩ := List.mem_map.mp hk
    have hpresent : (l.get s).Present := fun h0 => hwidth (by
      show (l.get s).bitSize.toNat = 0
      rw [h0]
      rfl)
    refine haxes (l.get s) ?_ hpresent
    simp only [pointerAxes, List.mem_cons, List.not_mem_nil, or_false] at hs
    rcases hs with rfl | rfl | rfl | rfl <;> simp [ReportLayout.get]
  · obtain ⟨i, hi, rfl⟩ := List.mem_map.mp hk
    have hlt := List.mem_range.mp hi
    have hcount : l.buttonCount ≠ 0 := fun h0 => by
      rw [h0] at hlt
      exact absurd hlt (Nat.not_lt_zero i)
    exact (buttonField_end_le hlt).trans (hbuttons hcount)

/-- A bit makes a number that is nonzero in any width. -/
theorem ofNat_toNat_ne_zero_iff {w : ℕ} (hw : 1 ≤ w) (b : Bool) :
    BitVec.ofNat w b.toNat ≠ BitVec.ofNat w 0 ↔ b = true := by
  have hone : 1 < 2 ^ w := Nat.one_lt_two_pow (by omega)
  cases b with
  | false => exact iff_of_false (fun h => h rfl) Bool.false_ne_true
  | true =>
    refine iff_of_true ?_ rfl
    intro h
    have htoNat := congrArg BitVec.toNat h
    rw [BitVec.toNat_ofNat, BitVec.toNat_ofNat, Nat.zero_mod, Bool.toNat_true,
      Nat.mod_eq_of_lt hone] at htoNat
    exact absurd htoNat one_ne_zero

/-- **Fields that lie apart carry any values in range at once.** -/
theorem carries_of_apart (hvalid : l.valid) (hsized : l.Sized) (hapart : l.Apart)
    (hr : l.InRange r) (hn : payloadBits l ≤ 8 * n) :
    zmkHidDecodeReport l (bytesOf n (overlay l.place (l.number r) l.pieces)) = some r := by
  have hslice {k : PointerPiece} (hk : k ∈ l.pieces) :
      slice (bytesOf n (overlay l.place (l.number r) l.pieces)) (l.place k).start
        (l.place k).width = BitVec.ofNat (l.place k).width (l.number r k) := by
    by_cases hwidth : (l.place k).width = 0
    · apply BitVec.eq_of_getLsbD_eq
      intro j hj
      omega
    · exact slice_overlay hapart hk (stop_le_of_gate hn hk hwidth)
  have haxis {s : PointerSel} (hs : s ∈ pointerAxes) :
      extract (bytesOf n (overlay l.place (l.number r) l.pieces)) (l.get s) = r.axis s := by
    have hself : BitVec.ofNat (l.get s).bitSize.toNat (l.number r (.axis s)) =
        BitVec.ofInt (l.get s).bitSize.toNat (r.axis s) :=
      (BitVec.ofNat_toNat _ _).trans (BitVec.setWidth_eq _)
    rw [extract_eq_fieldInt _ (hsized.axis s hs),
      ← fieldInt_ofInt (hsized.axis s hs) (hr.axis s hs), ← hself]
    exact congrArg _ (hslice (axis_mem_pieces hs))
  rw [zmkHidDecodeReport_eq_some_iff, length_bytesOf]
  have hbuttons : r.buttons =
      buttonBits l (bytesOf n (overlay l.place (l.number r) l.pieces)) := by
    apply BitVec.eq_of_getLsbD_eq
    intro i _
    rw [getLsbD_buttonBits, min_eq_left hsized.count]
    rw [Bool.eq_iff_iff, decide_eq_true_iff]
    by_cases hi : i < l.buttonCount.toNat
    · have hfield := buttonField_ne_zero_iff
        (bytesOf n (overlay l.place (l.number r) l.pieces)) (buttonBase l i)
        (buttonStride_le hsized.stride (by decide))
      have hbit : slice (bytesOf n (overlay l.place (l.number r) l.pieces)) (buttonBase l i)
          (buttonStride l) = BitVec.ofNat (buttonStride l) (r.buttons.getLsbD i).toNat :=
        hslice (button_mem_pieces hi)
      rw [hbit, ofNat_toNat_ne_zero_iff (buttonStride_pos l)] at hfield
      exact hfield.symm.trans (and_iff_right hi).symm
    · exact iff_of_false (fun hc => hi (hr.buttons i hc)) fun hc => hi hc.1
  refine ⟨hvalid, hn, ?_⟩
  rw [← hbuttons]
  obtain ⟨dx, dy, wheel, hwheel, buttons⟩ := r
  exact (PointerReport.mk.injEq ..).mpr ⟨(haxis (s := .x) (by decide)).symm,
    (haxis (s := .y) (by decide)).symm, (haxis (s := .wheel) (by decide)).symm,
    (haxis (s := .hwheel) (by decide)).symm, rfl⟩

/-- The report that moves one axis. -/
def axisReport (s : PointerSel) (v : ℤ) : PointerReport where
  dx := if s = .x then v else 0
  dy := if s = .y then v else 0
  wheel := if s = .wheel then v else 0
  hwheel := if s = .hwheel then v else 0
  buttons := 0

theorem axis_axisReport {s s' : PointerSel} (v : ℤ) (hs : s' ∈ pointerAxes) :
    (axisReport s v).axis s' = if s = s' then v else 0 := by
  cases s' with
  | buttons => exact absurd hs (by decide)
  | _ => rfl

theorem inRange_axisReport (s : PointerSel) : l.InRange (axisReport s (l.get s).full) where
  axis s' hs := by
    rw [axis_axisReport _ hs]
    split
    · next h => exact h ▸ inRange_full _
    · exact inRange_zero _
  buttons i hi := by
    have hclear : (axisReport s (l.get s).full).buttons.getLsbD i = false := BitVec.getLsbD_zero
    rw [hclear] at hi
    exact absurd hi Bool.false_ne_true

/-- The slice of an axis is that of the value decoded. -/
theorem slice_of_decode (hsized : l.Sized) (hdecode : zmkHidDecodeReport l p = some r)
    {s : PointerSel} (hs : s ∈ pointerAxes) :
    slice p (l.place (.axis s)).start (l.place (.axis s)).width =
      BitVec.ofInt (l.place (.axis s)).width (r.axis s) := by
  obtain ⟨-, -, rfl⟩ := (zmkHidDecodeReport_eq_some_iff l p r).mp hdecode
  have hextract : extract p (l.get s) = PointerReport.axis ⟨extract p l.x, extract p l.y,
      extract p l.wheel, extract p l.hwheel, buttonBits l p⟩ s := by
    cases s with
    | buttons => exact absurd hs (by decide)
    | _ => rfl
  rw [← hextract, extract_eq_fieldInt p (hsized.axis s hs)]
  exact (ofInt_fieldInt (hsized.axis s hs) _).symm

/-- The slice of a button that is not held is clear. -/
theorem slice_of_released (hsized : l.Sized) (hdecode : zmkHidDecodeReport l p = some r) {i : ℕ}
    (hi : i < l.buttonCount.toNat) (hbit : r.buttons.getLsbD i = false) :
    slice p (l.place (.button i)).start (l.place (.button i)).width =
      0#(l.place (.button i)).width := by
  obtain ⟨-, -, rfl⟩ := (zmkHidDecodeReport_eq_some_iff l p r).mp hdecode
  have hfield := buttonField_ne_zero_iff p (buttonBase l i)
    (buttonStride_le hsized.stride (by decide))
  rw [getLsbD_buttonBits, min_eq_left hsized.count, decide_eq_false_iff_not] at hbit
  have hzero := fun hne => hbit ⟨hi, hfield.mpr hne⟩
  exact not_not.mp hzero

theorem nodup_pieces (l : ReportLayout) : l.pieces.Nodup := by
  unfold ReportLayout.pieces
  rw [List.nodup_append]
  refine ⟨by decide, ?_, ?_⟩
  · exact List.Nodup.map (fun _ _ h => PointerPiece.button.inj h) List.nodup_range
  · intro a ha b hb hab
    obtain ⟨s, -, rfl⟩ := List.mem_map.mp ha
    obtain ⟨i, -, rfl⟩ := List.mem_map.mp hb
    cases hab

/-- An axis lies apart from another piece if its full value can be carried alone. -/
theorem apart_axis_of_carries (hsized : l.Sized)
    (hcarries : ∀ r, l.InRange r → ∃ p, zmkHidDecodeReport l p = some r) {s : PointerSel}
    (hs : s ∈ pointerAxes) {k : PointerPiece} (hk : k ∈ l.pieces) (hne : k ≠ .axis s) :
    (l.place (.axis s)).Apart (l.place k) := by
  obtain ⟨p, hdecode⟩ := hcarries _ (inRange_axisReport s)
  have hones := slice_of_decode hsized hdecode hs
  rw [axis_axisReport _ hs, if_pos rfl] at hones
  refine apart_of_slices (hones.trans (ofInt_full (l.get s))) ?_
  rcases List.mem_append.mp hk with hk | hk
  · obtain ⟨s', hs', rfl⟩ := List.mem_map.mp hk
    have hzero := slice_of_decode hsized hdecode hs'
    have hother : ¬ s = s' := fun h => hne (congrArg _ h.symm)
    rw [axis_axisReport _ hs', if_neg hother] at hzero
    exact hzero
  · obtain ⟨i, hi, rfl⟩ := List.mem_map.mp hk
    exact slice_of_released hsized hdecode (List.mem_range.mp hi) BitVec.getLsbD_zero

/-- Two buttons lie apart in any layout. -/
theorem apart_buttons (l : ReportLayout) {i j : ℕ} (hne : i ≠ j) :
    (l.place (.button i)).Apart (l.place (.button j)) := by
  have hless {i j : ℕ} (hlt : i < j) :
      (l.place (.button i)).stop ≤ (l.place (.button j)).start := by
    have hmul : (i + 1) * buttonStride l ≤ j * buttonStride l := Nat.mul_le_mul_right _ hlt
    rw [Nat.succ_mul] at hmul
    show l.buttons.bitOffset.toNat + i * buttonStride l + buttonStride l ≤
      l.buttons.bitOffset.toNat + j * buttonStride l
    omega
  rcases Nat.lt_or_gt_of_ne hne with hlt | hgt
  · exact .inr (.inr (.inl (hless hlt)))
  · exact .inr (.inr (.inr (hless hgt)))

/-- **A valid layout carries every report in range exactly when its fields lie apart.** -/
theorem carries_iff_apart (hvalid : l.valid) (hsized : l.Sized) :
    (∀ r, l.InRange r → ∃ p, zmkHidDecodeReport l p = some r) ↔ l.Apart := by
  constructor
  · intro hcarries
    refine (nodup_pieces l).imp_of_mem ?_
    intro a b ha hb hne
    have haxis := fun s => apart_axis_of_carries hsized hcarries (s := s)
    rcases List.mem_append.mp ha with ha' | ha'
    · obtain ⟨s, hs, rfl⟩ := List.mem_map.mp ha'
      exact haxis s hs hb hne.symm
    · obtain ⟨i, -, rfl⟩ := List.mem_map.mp ha'
      rcases List.mem_append.mp hb with hb' | hb'
      · obtain ⟨s, hs, rfl⟩ := List.mem_map.mp hb'
        exact (haxis s hs ha hne).symm
      · obtain ⟨j, -, rfl⟩ := List.mem_map.mp hb'
        exact apart_buttons l fun h => hne (h ▸ rfl)
  · intro hapart r hr
    refine ⟨_, carries_of_apart (n := payloadBits l) hvalid hsized hapart hr ?_⟩
    omega

end Pointer

/-- A map that comes back to its Report ID lays fields over one another: some report in range
is carried by no payload. -/
theorem returningMap_carries : ¬ ∀ r, (zmkHidParseReportMap returningMap).2.InRange r →
    ∃ p, zmkHidDecodeReport (zmkHidParseReportMap returningMap).2 p = some r := by
  intro hall
  have hvalid : (zmkHidParseReportMap returningMap).2.valid = true := by decide +kernel
  have hsized : (zmkHidParseReportMap returningMap).2.Sized :=
    ⟨by decide +kernel, by decide +kernel, by decide +kernel⟩
  have hapart := (carries_iff_apart hvalid hsized).mp hall
  exact absurd hapart (by decide +kernel)

/-! ### Keyboard layouts -/

/-- The report is within what the layout's fields can carry: modifiers of its width, and
keycodes of its width in as many places as the array has and the decoder takes. -/
structure KeyboardLayout.InRange (l : KeyboardLayout) (r : KeyboardReport) : Prop where
  modifiers : r.modifiers.toNat < 2 ^ l.modifiers.bitSize.toNat
  length : r.keys.length ≤ min l.keyCount.toNat maxKeys
  keys : ∀ k ∈ r.keys, isKey k.toNat ∧ k.toNat < 2 ^ l.keys.bitSize.toNat

/-- The modifiers and the keycodes are bytes at most, and the array fits. -/
structure KeyboardLayout.Sized (l : KeyboardLayout) : Prop where
  modifiers : l.modifiers.bitSize.toNat ≤ 8
  plain : l.modifiers.isSigned = false
  keys : l.keys.bitSize.toNat ≤ 8
  fit : KeysFit l

/-- What a report of keys is made of. -/
inductive KeyboardPiece where
  | modifiers
  | key (i : ℕ)
  deriving DecidableEq, Repr

/-- The pieces of a keyboard layout. -/
def KeyboardLayout.pieces (l : KeyboardLayout) : List KeyboardPiece :=
  .modifiers :: (List.range l.keyCount.toNat).map .key

/-- Where a piece lies. -/
def KeyboardLayout.place (l : KeyboardLayout) : KeyboardPiece → Region
  | .modifiers => ⟨l.modifiers.bitOffset.toNat, l.modifiers.bitSize.toNat⟩
  | .key i => ⟨l.keys.bitOffset.toNat + i * l.keys.bitSize.toNat, l.keys.bitSize.toNat⟩

/-- The modifiers share no bit with the array. -/
def KeyboardLayout.Apart (l : KeyboardLayout) : Prop :=
  (l.place .modifiers).Apart
    ⟨l.keys.bitOffset.toNat, l.keyCount.toNat * l.keys.bitSize.toNat⟩

instance (l : KeyboardLayout) : Decidable l.Apart := inferInstanceAs (Decidable (_ ∨ _))

/-- The bits of a piece, as a number.  The places behind the last key are empty. -/
def KeyboardLayout.number (r : KeyboardReport) : KeyboardPiece → ℕ
  | .modifiers => r.modifiers.toNat
  | .key i => (r.keys.getD i 0).toNat

section Keyboard

variable {l : KeyboardLayout} {r : KeyboardReport} {p : List U8} {n : ℕ}

/-- The modifiers that are decoded. -/
theorem toNat_modifiers (hsized : l.Sized) (p : List U8) :
    (if l.modifiers.bitSize ≠ 0 then BitVec.ofInt 8 (extract p l.modifiers) else 0 : U8).toNat =
      (slice p l.modifiers.bitOffset.toNat l.modifiers.bitSize.toNat).toNat := by
  have hwidth := hsized.modifiers
  have hlt := (slice p l.modifiers.bitOffset.toNat l.modifiers.bitSize.toNat).isLt
  split
  · have hpow : 2 ^ l.modifiers.bitSize.toNat ≤ 2 ^ 8 := Nat.pow_le_pow_right (by decide) hwidth
    rw [extract_eq_slice p _ (by omega), hsized.plain, if_neg Bool.false_ne_true,
      toInt_setWidth_of_lt (by omega), BitVec.ofInt_natCast, BitVec.toNat_ofNat,
      Nat.mod_eq_of_lt (by omega)]
  · next hzero =>
    rw [not_not.mp hzero] at hlt ⊢
    have hone : (slice p l.modifiers.bitOffset.toNat (0 : U8).toNat).toNat < 1 := hlt
    exact (Nat.lt_one_iff.mp hone).symm

/-- A keycode of a byte at most is decoded at its full value. -/
theorem keys_eq_heldKeys (hsized : l.Sized) (p : List U8) :
    ((List.range l.keyCount.toNat).foldl (decodeKey l p) []).map BitVec.toNat = heldKeys l p := by
  have hpow : 2 ^ l.keys.bitSize.toNat ≤ 2 ^ 8 := Nat.pow_le_pow_right (by decide) hsized.keys
  rw [keys_decodeKey hsized.fit]
  refine (take_lowKeys_eq_iff _ _).mpr ?_
  intro v hv
  obtain ⟨i, -, rfl⟩ := List.mem_map.mp (List.mem_filter.mp (List.mem_of_mem_take hv)).1
  exact lt_of_lt_of_le (Nat.mod_lt _ (Nat.two_pow_pos _)) hpow

/-- **A keyboard report decodes** to its modifiers, and to the first keys of its array. -/
theorem zmkHidDecodeKeyboardReport_eq_some_iff (hsized : l.Sized) :
    zmkHidDecodeKeyboardReport l p = some r ↔ l.valid ∧ kbdPayloadBits l ≤ 8 * p.length ∧
      r.modifiers.toNat =
        (slice p l.modifiers.bitOffset.toNat l.modifiers.bitSize.toNat).toNat ∧
      r.keys.map BitVec.toNat = heldKeys l p := by
  obtain ⟨mods, keys⟩ := r
  unfold zmkHidDecodeKeyboardReport
  by_cases hv : l.valid
  · rw [if_neg (not_not.mpr hv)]
    split
    · next hlen => exact iff_of_false (by simp) fun h => by omega
    · next hlen =>
      rw [Option.some.injEq, KeyboardReport.mk.injEq, ← toNat_modifiers hsized p,
        ← keys_eq_heldKeys hsized p, BitVec.toNat_inj, and_iff_right hv,
        and_iff_right (show kbdPayloadBits l ≤ 8 * p.length by omega)]
      refine and_congr eq_comm ?_
      rw [eq_comm, (List.map_injective_iff.mpr fun a b => BitVec.eq_of_toNat_eq).eq_iff]
  · rw [if_pos hv]
    exact iff_of_false (by simp) fun h => hv h.1

/-- Whatever is decoded is in range. -/
theorem kbdInRange_of_decode (hsized : l.Sized)
    (hdecode : zmkHidDecodeKeyboardReport l p = some r) : l.InRange r := by
  obtain ⟨-, -, hmods, hkeys⟩ := (zmkHidDecodeKeyboardReport_eq_some_iff hsized).mp hdecode
  refine ⟨hmods ▸ BitVec.isLt _, ?_, fun k hk => ?_⟩
  · have hlen := congrArg List.length hkeys
    rw [List.length_map, heldKeys, List.length_take] at hlen
    have hfilter := List.length_filter_le isKey (keyValues l p)
    have hvalues : (keyValues l p).length = l.keyCount.toNat := by simp [keyValues]
    omega
  · have hmem : k.toNat ∈ heldKeys l p := hkeys ▸ List.mem_map_of_mem hk
    obtain ⟨hvalue, hkey⟩ := List.mem_filter.mp (List.mem_of_mem_take hmem)
    obtain ⟨i, -, hi⟩ := List.mem_map.mp hvalue
    exact ⟨hkey, hi ▸ Nat.mod_lt _ (Nat.two_pow_pos _)⟩

/-- Apart from the array, the modifiers lie apart from every place in it. -/
theorem pairwise_of_apart (hapart : l.Apart) :
    l.pieces.Pairwise fun a b => (l.place a).Apart (l.place b) := by
  have hstops {i j : ℕ} (hlt : i < j) :
      (l.place (.key i)).stop ≤ l.keys.bitOffset.toNat + j * l.keys.bitSize.toNat := by
    have hmul : (i + 1) * l.keys.bitSize.toNat ≤ j * l.keys.bitSize.toNat :=
      Nat.mul_le_mul_right _ hlt
    rw [Nat.succ_mul] at hmul
    show l.keys.bitOffset.toNat + i * l.keys.bitSize.toNat + l.keys.bitSize.toNat ≤ _
    omega
  refine List.pairwise_cons.mpr ⟨?_, ?_⟩
  · intro k hk
    obtain ⟨i, hi, rfl⟩ := List.mem_map.mp hk
    have hstop := hstops (List.mem_range.mp hi)
    have hstart : l.keys.bitOffset.toNat ≤ (l.place (.key i)).start := Nat.le_add_right _ _
    unfold KeyboardLayout.Apart Region.Apart at hapart
    unfold Region.Apart
    simp only [Region.stop] at hapart hstop ⊢
    rcases hapart with hzero | hzero | hbelow | habove
    · exact .inl hzero
    · -- an array without bits has places without bits
      have hwidth : (l.place (.key i)).width = 0 := by
        rcases Nat.mul_eq_zero.mp hzero with hcount | hsize
        · exact absurd (List.mem_range.mp hi) (by omega)
        · exact hsize
      exact .inr (.inl hwidth)
    · exact .inr (.inr (.inl (hbelow.trans hstart)))
    · exact .inr (.inr (.inr (hstop.trans habove)))
  · refine List.pairwise_map.mpr (List.pairwise_lt_range.imp ?_)
    exact fun hlt => .inr (.inr (.inl (hstops hlt)))

/-- The keys of a report, in an array that is empty behind them. -/
theorem heldKeys_of_values (hr : l.InRange r)
    (hvalues : ∀ i < l.keyCount.toNat, keyValue l p i = (r.keys.getD i 0).toNat) :
    heldKeys l p = r.keys.map BitVec.toNat := by
  have hlen : r.keys.length ≤ l.keyCount.toNat := hr.length.trans (min_le_left _ _)
  have hsplit : keyValues l p =
      r.keys.map BitVec.toNat ++ List.replicate (l.keyCount.toNat - r.keys.length) 0 := by
    refine List.ext_getElem ?_ fun i hi hi' => ?_
    · rw [List.length_append, List.length_map, List.length_replicate, keyValues, List.length_map,
        List.length_range]
      omega
    · rw [keyValues, List.length_map, List.length_range] at hi
      simp only [keyValues, List.getElem_map, List.getElem_range, hvalues i hi]
      by_cases hkey : i < r.keys.length
      · rw [List.getElem_append_left (by rwa [List.length_map]), List.getElem_map,
          List.getD_eq_getElem _ _ hkey]
      · rw [List.getElem_append_right (by rw [List.length_map]; omega), List.getElem_replicate,
          List.getD_eq_default _ _ (by omega)]
        rfl
  have hkeys : (r.keys.map BitVec.toNat).filter isKey = r.keys.map BitVec.toNat := by
    refine List.filter_eq_self.mpr fun v hv => ?_
    obtain ⟨k, hk, rfl⟩ := List.mem_map.mp hv
    exact (hr.keys k hk).1
  have hempty : (List.replicate (l.keyCount.toNat - r.keys.length) 0).filter isKey = [] := by
    refine List.filter_eq_nil_iff.mpr fun v hv => ?_
    rw [List.eq_of_mem_replicate hv]
    exact Bool.false_ne_true
  rw [heldKeys, hsplit, List.filter_append, hkeys, hempty, List.append_nil, List.take_of_length_le]
  rw [List.length_map]
  exact hr.length.trans (min_le_right _ _)

/-- **Where the modifiers lie apart from the array, a valid layout carries every report in
range.** -/
theorem kbdCarries_of_apart (hvalid : l.valid) (hsized : l.Sized) (hapart : l.Apart)
    (hr : l.InRange r) (hn : kbdPayloadBits l ≤ 8 * n) :
    zmkHidDecodeKeyboardReport l
      (bytesOf n (overlay l.place (KeyboardLayout.number r) l.pieces)) = some r := by
  obtain ⟨hmods, harray⟩ := (kbdPayloadBits_le_iff l (8 * n)).mp hn
  have hslice {k : KeyboardPiece} (hk : k ∈ l.pieces)
      (hstop : (l.place k).width ≠ 0 → (l.place k).stop ≤ 8 * n)
      (hlt : KeyboardLayout.number r k < 2 ^ (l.place k).width) :
      (slice (bytesOf n (overlay l.place (KeyboardLayout.number r) l.pieces)) (l.place k).start
        (l.place k).width).toNat = KeyboardLayout.number r k := by
    by_cases hwidth : (l.place k).width = 0
    · rw [hwidth] at hlt ⊢
      have hzero := BitVec.isLt (slice (bytesOf n (overlay l.place (KeyboardLayout.number r)
        l.pieces)) (l.place k).start 0)
      omega
    · rw [slice_overlay (pairwise_of_apart hapart) hk (hstop hwidth), BitVec.toNat_ofNat,
        Nat.mod_eq_of_lt hlt]
  rw [zmkHidDecodeKeyboardReport_eq_some_iff hsized, length_bytesOf]
  refine ⟨hvalid, hn, (hslice List.mem_cons_self ?_ hr.modifiers).symm,
    (heldKeys_of_values hr ?_).symm⟩
  · intro hwidth
    exact hmods fun h0 => hwidth (congrArg BitVec.toNat h0)
  · intro i hi
    have hmem : .key i ∈ l.pieces :=
      List.mem_cons_of_mem _ (List.mem_map_of_mem (List.mem_range.mpr hi))
    rw [keyValue, ← toNat_slice]
    refine hslice hmem ?_ ?_
    · intro hwidth
      have hcount : l.keyCount ≠ 0 := fun h0 => by
        rw [h0] at hi
        exact absurd hi (Nat.not_lt_zero i)
      have hend := harray hcount fun h0 => hwidth (congrArg BitVec.toNat h0)
      have hmul : (i + 1) * l.keys.bitSize.toNat ≤ l.keyCount.toNat * l.keys.bitSize.toNat :=
        Nat.mul_le_mul_right _ hi
      rw [Nat.succ_mul] at hmul
      show l.keys.bitOffset.toNat + i * l.keys.bitSize.toNat + l.keys.bitSize.toNat ≤ 8 * n
      omega
    · -- a place behind the last key holds zero
      by_cases hkey : i < r.keys.length
      · show (r.keys.getD i 0).toNat < _
        rw [List.getD_eq_getElem _ _ hkey]
        exact (hr.keys _ (List.getElem_mem hkey)).2
      · show (r.keys.getD i 0).toNat < _
        rw [List.getD_eq_default _ _ (by omega)]
        exact Nat.two_pow_pos _

end Keyboard

end BleHidHost
