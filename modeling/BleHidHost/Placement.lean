import BleHidHost.LayoutBounds
import BleHidHost.RelativeAxes

/-!
# Where ranges are recorded

The bits of a map are counted in 32 bits, and the counter saturates; a layout has 16 bits
for an offset.  Four places record a range of bits, an axis, the button run, the modifiers
and the keycode array, and each checks by itself that the range ends within 16 bits.  The
sum it checks is taken in 32 bits too, from a counter that may be close to its end, and over
a width that stands in for a Report Size of zero.

## Main definitions

* `exactCursor` — the bits since the cursor was last zeroed, in unbounded numbers.
* `Site` — what the places that record a range have in common.
* `PlacedInside` — every recorded range lies within its item.
* `PlacesFit` — no range on offer ends beyond 32 bits, or has bits in an item of none.

## Main results

* `toNat_bitCursor_eq_min` — the cursor is the exact one, saturated.
* `Site.placed_iff` — **a range lies within its item exactly when its end fits.**
* `placedInside_iff` — so do all ranges of a map of any length.
-/

namespace BleHidHost

open Lib

/-! ### The exact cursor -/

/-- The exact cursor behind an item met in state `w`. -/
def exactStep (w : Walk) (it : Item) (e : ℕ) : ℕ :=
  if it.isInput then e + w.g.reportSize.toNat * w.g.reportCount.toNat
  else if itemType it.type = .global ∧ globalTag it.tag = .reportId ∧
      ((itemU it.data).setWidth 8 : U8) ≠ w.g.reportId then 0
  else e

/-- The exact cursor behind some more items. -/
def exactFrom (w : Walk) (e : ℕ) : List Item → ℕ
  | [] => e
  | it :: its => exactFrom (walkItem w it) (exactStep w it e) its

/-- The bits of the Input items since the cursor was last zeroed. -/
def exactCursor (its : List Item) : ℕ := exactFrom Parser.start.toWalk 0 its

theorem exactFrom_append (w : Walk) (e : ℕ) (its more : List Item) :
    exactFrom w e (its ++ more) = exactFrom (its.foldl walkItem w) (exactFrom w e its) more := by
  induction its generalizing w e with
  | nil => rfl
  | cons it its ih => exact ih (walkItem w it) (exactStep w it e)

theorem exactCursor_concat (its : List Item) (it : Item) :
    exactCursor (its ++ [it]) = exactStep (walkItems its) it (exactCursor its) := by
  rw [exactCursor, exactFrom_append, ← walkItems_eq_foldl]
  rfl

/-- The largest value of the cursor. -/
def cursorMax : ℕ := 2 ^ 32 - 1

theorem toNat_advance_eq_min (cursor bits : U32) :
    (advance cursor bits).toNat = min (cursor.toNat + bits.toNat) cursorMax := by
  have hcursor := cursor.isLt
  have hbits := bits.isLt
  have hsum : (cursor + bits).toNat = (cursor.toNat + bits.toNat) % 2 ^ 32 := BitVec.toNat_add ..
  have hmax : (BitVec.allOnes 32).toNat = 2 ^ 32 - 1 := BitVec.toNat_allOnes
  unfold advance cursorMax
  simp only [BitVec.lt_def, hsum]
  split
  · rw [hmax]
    omega
  · rw [hsum]
    omega

/-- **The cursor is the exact one, saturated.** -/
theorem toNat_bitCursor_eq_min (its : List Item) :
    (walkItems its).bitCursor.toNat = min (exactCursor its) cursorMax := by
  induction its using List.reverseRecOn with
  | nil => rfl
  | append_singleton its it ih =>
    rw [walkItems_concat, exactCursor_concat]
    unfold walkItem handleItem dispatch exactStep Item.isInput
    cases itemType it.type with
    | main =>
      cases mainTag it.tag with
      | input =>
        have hadv := toNat_advance_eq_min (walkItems its).bitCursor (totalBits (walkItems its))
        rw [toNat_totalBits, ih] at hadv
        refine hadv.trans ?_
        simp only [beq_self_eq_true, Bool.and_self, if_true]
        omega
      | _ => simpa [handleMain, clearLocal, handleCollection, handleEndCollection] using ih
    | global =>
      cases globalTag it.tag with
      | reportId =>
        -- a change of Report ID zeroes both
        by_cases hid : ((itemU it.data).setWidth 8 : U8) = (walkItems its).g.reportId
        · simpa [handleGlobal, hid] using ih
        · simp [handleGlobal, hid]
      | _ => simpa [handleGlobal] using ih
    | «local» => cases localTag it.tag <;> simpa [handleLocal] using ih
    | reserved => simpa using ih

/-! ### A place that records a range -/

/-- In an item of this Report Size, met at the exact cursor `e`, a range that ends `n` bits
behind the cursor is placed: it has no bits, or it ends within 32 bits.  An item of size zero
has no bits to place, so there the range must not be recorded at all. -/
def EndFits (size : U8) (e n : ℕ) : Prop :=
  n = 0 ∨ (e + n < 2 ^ 32 ∧ (size = 0 → 65535 < e + n))

instance (size : U8) (e n : ℕ) : Decidable (EndFits size e n) := by
  unfold EndFits
  exact inferInstance

/-- A range of bits. -/
structure BitRange where
  start : ℕ
  len : ℕ
  deriving DecidableEq, Repr

/-- The range lies in the bits from `lo` to `hi`, and within 16 bits. -/
def BitRange.Inside (r : BitRange) (lo hi : ℕ) : Prop :=
  lo ≤ r.start ∧ r.start + r.len ≤ hi ∧ r.start + r.len ≤ 65536

instance (r : BitRange) (lo hi : ℕ) : Decidable (r.Inside lo hi) := by
  unfold BitRange.Inside
  exact inferInstance

/-- What the places that record a range have in common.  At cursor `c` an item of `total`
bits offers ranges that end `n` bits behind the cursor, for `n` in `Ends`.  One is recorded
where the sum of `c` and `n` in 32 bits fits 16, and its start is narrowed to 16 bits. -/
structure Site (size : U8) (c total : ℕ) (Ends : ℕ → Prop) (present : Prop) (r : BitRange) :
    Prop where
  ends_le : ∀ n, Ends n → n ≤ 65025
  present_of_fits : ∀ n, Ends n → (c + n) % 2 ^ 32 ≤ 65535 → present
  recorded : present → ∃ lo n, Ends n ∧ lo ≤ n ∧ (c + n) % 2 ^ 32 ≤ 65535 ∧
    r = ⟨(c + lo) % 2 ^ 32 % 2 ^ 16, n - lo⟩ ∧ (size ≠ 0 → n ≤ total)
  /-- At size zero the item has no bits, but the range has those of a width that stands in. -/
  total_of_size_zero : size = 0 → total = 0
  len_of_size_zero : size = 0 → present → ∀ n, Ends n → r.len = n

variable {size : U8} {c e total : ℕ} {Ends : ℕ → Prop} {present : Prop} {r : BitRange}

/-- **A recorded range lies within its item exactly when the end of every range on offer
fits.** -/
theorem Site.placed_iff (h : Site size c total Ends present r) (hc : c = min e cursorMax) :
    (present → r.Inside e (e + total)) ↔ ∀ n, Ends n → EndFits size e n := by
  unfold cursorMax at hc
  constructor
  · intro hplaced n hn
    have hbound := h.ends_le n hn
    rcases Nat.eq_zero_or_pos n with h0 | hpos
    · exact .inl h0
    refine .inr ⟨?_, ?_⟩
    · -- a sum that wraps is small, and what is recorded then lies far in front
      by_contra hwrap
      obtain ⟨hlo, -, hmax⟩ := hplaced (h.present_of_fits n hn (by omega))
      omega
    · -- what is recorded has bits, and its item has none
      intro hsize
      by_contra hlow
      have hpres := h.present_of_fits n hn (by omega)
      obtain ⟨hlo, hhi, -⟩ := hplaced hpres
      have hlen := h.len_of_size_zero hsize hpres n hn
      have htotal := h.total_of_size_zero hsize
      omega
  · intro hfits hpres
    obtain ⟨lo, n, hn, hle, hsum, rfl, htotal⟩ := h.recorded hpres
    unfold BitRange.Inside
    simp only
    rcases hfits n hn with rfl | ⟨hlt, hzero⟩
    · omega
    · have hsize : size ≠ 0 := by
        intro hs
        have hfar := hzero hs
        omega
      have hn' := htotal hsize
      omega

/-! ### Pointer fields -/

/-- The check of a range in the arithmetic of the source. -/
theorem add_le_bitOffsetMax_iff (b n : U32) :
    b + n ≤ bitOffsetMax ↔ (b.toNat + n.toNat) % 2 ^ 32 ≤ 65535 := by
  rw [BitVec.le_def, BitVec.toNat_add]
  rfl

/-- The check of slot `i`, whose bits end where those of slot `i + 1` begin. -/
theorem slotEnd_le_iff (w : Walk) (b : U32) (i : ℕ) :
    slotOffset w b i + w.g.reportSize.setWidth 32 ≤ bitOffsetMax ↔
      (b.toNat + (i + 1) * w.g.reportSize.toNat) % 2 ^ 32 ≤ 65535 := by
  have hlt := w.g.reportSize.isLt
  rw [add_le_bitOffsetMax_iff, toNat_slotOffset_mod, BitVec.toNat_setWidth,
    Nat.mod_eq_of_lt (a := w.g.reportSize.toNat) (by omega), Nat.mod_add_mod, Nat.succ_mul,
    Nat.add_assoc]

/-- The bits of a button run. -/
def buttonRunBits (w : Walk) : ℕ := (buttonRunCount w).toNat * (sizeOr w 1).toNat

/-- An item met in state `w` offers a range for the field that ends `n` bits behind the
cursor: the whole button run, or the slot of an axis. -/
def PointerEnds (w : Walk) (s : PointerSel) (n : ℕ) : Prop :=
  if s = .buttons then w.g.usagePage = pageButton ∧ n = buttonRunBits w
  else w.g.usagePage ≠ pageButton ∧ w.g.reportSize ≠ 0 ∧ ∃ i < w.g.reportCount.toNat,
    s.usage = some (slotUsage w i) ∧ n = (i + 1) * w.g.reportSize.toNat

/-- The bits a pointer field covers, the whole run for buttons. -/
def ReportLayout.range (o : ReportLayout) (s : PointerSel) : BitRange :=
  ⟨(o.get s).bitOffset.toNat,
    if s = .buttons then o.buttonCount.toNat * (o.get s).bitSize.toNat
    else (o.get s).bitSize.toNat⟩

/-- The button run that an item declares. -/
theorem declaresField_buttons_iff (w : Walk) :
    declaresField w .buttons ↔
      w.g.usagePage = pageButton ∧ (w.bitCursor.toNat + buttonRunBits w) % 2 ^ 32 ≤ 65535 := by
  rw [declaresField, decide_eq_true_iff, assignInput]
  split
  · next hpage =>
    have hzero : (lockReport w .zero).buttons.bitSize = 0 := by
      have hget := lockReport_get w .zero .buttons
      exact congrArg Field.bitSize hget
    have hfit := add_le_bitOffsetMax_iff w.bitCursor
      ((buttonRunCount w).setWidth 32 * (sizeOr w 1).setWidth 32)
    rw [toNat_mul_setWidth] at hfit
    rw [and_iff_right hpage, buttonRunBits, ← hfit, assignButtons]
    split
    · next hc => exact iff_of_true (sizeOr_ne_zero w (by decide)) hc.2
    · next hc =>
      refine iff_of_false ?_ fun h => hc ⟨hzero, h⟩
      rw [lockReport_get]
      exact ReportLayout.not_present_zero .buttons
  · next hpage =>
    have habs : ¬ ((lockReport w .zero).get .buttons).Present := by
      rw [lockReport_get]
      exact ReportLayout.not_present_zero .buttons
    refine iff_of_false ?_ fun hc => hpage hc.1
    rw [assignSlots_present_iff habs]
    intro hc
    obtain ⟨-, i, -, hu, -⟩ := hc
    cases hu

/-- **An item declares a field where a range on offer for it fits.** -/
theorem declaresField_iff_pointerEnds (w : Walk) (s : PointerSel) :
    declaresField w s ↔
      ∃ n, PointerEnds w s n ∧ (w.bitCursor.toNat + n) % 2 ^ 32 ≤ 65535 := by
  by_cases hs : s = .buttons
  · subst hs
    simp only [declaresField_buttons_iff, PointerEnds, if_true, and_assoc, exists_and_left,
      exists_eq_left]
  · rw [declaresField_iff_offersAxis w hs]
    simp only [OffersAxis, PointerEnds, if_neg hs, slotEnd_le_iff]
    constructor
    · intro h
      obtain ⟨hpage, hsize, i, hi, hu, hlow⟩ := h
      exact ⟨_, ⟨hpage, hsize, i, hi, hu, rfl⟩, hlow⟩
    · intro h
      obtain ⟨n, ⟨hpage, hsize, i, hi, hu, rfl⟩, hlow⟩ := h
      exact ⟨hpage, hsize, i, hi, hu, hlow⟩

section Pointer

variable {p : Parser} {s : PointerSel}

/-- The button run that an item has recorded starts at the cursor. -/
theorem range_of_recordsSlot_buttons {i : ℕ} (h : RecordsSlot p .buttons i) :
    p.g.usagePage = pageButton ∧ (assignInput p.toWalk p.bitCursor p.out).range .buttons =
      ⟨p.bitCursor.toNat % 2 ^ 16, buttonRunBits p.toWalk⟩ := by
  have hpage : p.g.usagePage = pageButton := by
    have hdecl := (assignInput_present p.toWalk p.out .buttons).mp h.present
    rw [or_iff_right h.not_present, declaresField_buttons_iff] at hdecl
    exact hdecl.1
  have hi : i = 0 := by
    unfold RecordsSlot at h
    rw [if_pos hpage] at h
    exact h.2.1
  subst hi
  refine ⟨hpage, ?_⟩
  rw [ReportLayout.range, assignInput_get_of_recordsSlot h, h.buttonCount, if_pos rfl, if_pos rfl,
    BitVec.toNat_setWidth, toNat_slotOffset_mod, Nat.zero_mul, Nat.add_zero,
    Nat.mod_eq_of_lt (b := 2 ^ 32) p.bitCursor.isLt]
  rfl

/-- The axis that an item has recorded starts at its slot. -/
theorem range_of_recordsSlot_axis (hs : s ≠ .buttons) {i : ℕ} (h : RecordsSlot p s i) :
    PointerEnds p.toWalk s ((i + 1) * p.g.reportSize.toNat) ∧ i < p.g.reportCount.toNat ∧
      (assignInput p.toWalk p.bitCursor p.out).range s =
        ⟨(p.bitCursor.toNat + i * p.g.reportSize.toNat) % 2 ^ 32 % 2 ^ 16,
          p.g.reportSize.toNat⟩ := by
  have hrange : (assignInput p.toWalk p.bitCursor p.out).range s =
      ⟨(p.bitCursor.toNat + i * p.g.reportSize.toNat) % 2 ^ 32 % 2 ^ 16,
        p.g.reportSize.toNat⟩ := by
    rw [ReportLayout.range, assignInput_get_of_recordsSlot h, if_neg hs, if_neg hs, if_neg hs,
      BitVec.toNat_setWidth, toNat_slotOffset_mod]
  have hsize : p.g.reportSize ≠ 0 := by
    have hpres := h.present
    rw [assignInput_get_of_recordsSlot h, if_neg hs] at hpres
    exact hpres
  unfold RecordsSlot at h
  split at h
  · exact absurd h.1 hs
  · next hpage =>
    obtain ⟨hi, habs, hpres⟩ := h
    rw [assignSlots_succ, assignSlot_get] at hpres
    split at hpres
    · next hu =>
      refine ⟨?_, hi, hrange⟩
      simp only [PointerEnds, if_neg hs]
      exact ⟨hpage, hsize, i, hi, hu, rfl⟩
    · exact absurd hpres habs

/-- The capped count of a button run is at most the item's. -/
theorem toNat_buttonRunCount_le_reportCount (w : Walk) :
    (buttonRunCount w).toNat ≤ w.g.reportCount.toNat := by
  unfold buttonRunCount
  split
  · next h => exact (BitVec.lt_def.mp h).le
  · exact le_rfl

/-- **The pointer fields are recorded at such places.** -/
theorem pointerSite (habs : ¬ (p.out.get s).Present) :
    Site p.g.reportSize p.bitCursor.toNat (p.g.reportSize.toNat * p.g.reportCount.toNat)
      (PointerEnds p.toWalk s) ((assignInput p.toWalk p.bitCursor p.out).get s).Present
      ((assignInput p.toWalk p.bitCursor p.out).range s) where
  ends_le n hn := by
    unfold PointerEnds at hn
    split at hn
    · rw [hn.2]
      exact toNat_mul_le _ _
    · obtain ⟨-, -, i, hi, -, rfl⟩ := hn
      exact (Nat.mul_le_mul_right _ hi).trans (toNat_mul_le _ _)
  present_of_fits n hn hfit := (assignInput_present p.toWalk p.out s).mpr
    (.inr ((declaresField_iff_pointerEnds _ s).mpr ⟨n, hn, hfit⟩))
  recorded hpres := by
    obtain ⟨i, h⟩ := exists_recordsSlot habs hpres
    by_cases hs : s = .buttons
    · subst hs
      obtain ⟨hpage, hrange⟩ := range_of_recordsSlot_buttons h
      have hdecl := (assignInput_present p.toWalk p.out .buttons).mp hpres
      rw [or_iff_right habs, declaresField_buttons_iff] at hdecl
      refine ⟨0, buttonRunBits p.toWalk, ?_, Nat.zero_le _, hdecl.2, ?_, ?_⟩
      · rw [PointerEnds, if_pos rfl]
        exact ⟨hpage, rfl⟩
      · rw [hrange, Nat.add_zero, Nat.mod_eq_of_lt (b := 2 ^ 32) p.bitCursor.isLt, Nat.sub_zero]
      · intro hsize
        simp only [buttonRunBits, sizeOr, if_pos hsize, Nat.mul_comm]
        exact Nat.mul_le_mul_left _ (toNat_buttonRunCount_le_reportCount _)
    · obtain ⟨hends, hi, hrange⟩ := range_of_recordsSlot_axis hs h
      have hfits := h.fits
      rw [if_neg hs, slotEnd_le_iff] at hfits
      refine ⟨i * p.g.reportSize.toNat, (i + 1) * p.g.reportSize.toNat, hends,
        Nat.mul_le_mul_right _ (Nat.le_succ i), hfits, ?_, ?_⟩
      · rw [hrange, ← Nat.sub_mul, Nat.add_sub_cancel_left, Nat.one_mul]
      · intro _
        rw [Nat.mul_comm]
        exact Nat.mul_le_mul_left _ hi
  total_of_size_zero hsize := by
    rw [hsize]
    exact Nat.zero_mul _
  len_of_size_zero hsize hpres n hn := by
    unfold PointerEnds at hn
    split at hn
    · next hs =>
      subst hs
      obtain ⟨i, h⟩ := exists_recordsSlot habs hpres
      rw [(range_of_recordsSlot_buttons h).2, hn.2]
    · exact absurd hsize hn.2.1

end Pointer

/-! ### Keyboard fields -/

/-- An item with these flags, met in state `w`, offers a range for the field that ends `n`
bits behind the cursor: a modifier run of at most eight bits, or the whole keycode array. -/
def KbdEnds (w : Walk) (flags : U32) (s : KbdSel) (n : ℕ) : Prop :=
  s = kbdTarget flags ∧ w.g.usagePage = pageKeyboard ∧ n = (kbdExtent w s).toNat ∧ n ≠ 0 ∧
    (s = .modifiers → kbdUsagesAreModifiers w ∧ sizeOr w 1 = 1 ∧ n ≤ 8)

/-- The bits a keyboard field covers, the whole array for keys. -/
def KeyboardLayout.range (o : KeyboardLayout) (s : KbdSel) : BitRange :=
  ⟨(o.get s).bitOffset.toNat,
    if s = .keys then o.keyCount.toNat * (o.get s).bitSize.toNat else (o.get s).bitSize.toNat⟩

section Keyboard

variable {w : Walk} {b flags : U32} {o : KeyboardLayout} {s : KbdSel}

/-- The modifiers that a Variable item records. -/
theorem assignModifiers_range (hvar : flags &&& hidIoVariable ≠ 0) (habs : ¬ o.modifiers.Present) :
    ((assignModifiers w b o).modifiers.Present ↔
        ∃ n, KbdEnds w flags .modifiers n ∧ (b.toNat + n) % 2 ^ 32 ≤ 65535) ∧
      ((assignModifiers w b o).modifiers.Present → ∀ n, KbdEnds w flags .modifiers n →
        (assignModifiers w b o).range .modifiers = ⟨b.toNat % 2 ^ 16, n⟩) := by
  have htarget : KbdSel.modifiers = kbdTarget flags := (if_pos hvar).symm
  have hfit := add_le_bitOffsetMax_iff b (modifierBits w)
  have hext : kbdExtent w .modifiers = modifierBits w := rfl
  unfold assignModifiers
  split
  · next hc =>
    obtain ⟨hpage, -, hmods, hone, hpos, hle, hend⟩ := hc
    have hpos' : 0 < (modifierBits w).toNat := BitVec.lt_def.mp hpos
    have hle' : (modifierBits w).toNat ≤ 8 := BitVec.le_def.mp hle
    have hwidth : ((modifierBits w).setWidth 8 : U8).toNat = (modifierBits w).toNat := by
      rw [BitVec.toNat_setWidth, Nat.mod_eq_of_lt (by omega)]
    constructor
    · refine iff_of_true ?_ ⟨_, ⟨htarget, hpage, rfl, hpos'.ne', fun _ => ⟨hmods, hone, hle'⟩⟩,
        hfit.mp hend⟩
      intro h0
      exact hpos'.ne' (hwidth.symm.trans (congrArg BitVec.toNat h0))
    · intro _ n hn
      obtain ⟨-, -, rfl, -, -⟩ := hn
      rw [KeyboardLayout.range, if_neg (by decide), hext, ← hwidth]
      exact congrArg (BitRange.mk · _) (BitVec.toNat_setWidth ..)
  · next hc =>
    refine ⟨iff_of_false habs ?_, fun h => absurd h habs⟩
    intro h
    obtain ⟨n, ⟨-, hpage, rfl, hpos, hmods⟩, hend⟩ := h
    obtain ⟨hmods, hone, hle⟩ := hmods rfl
    rw [hext] at hpos hle hend
    exact hc ⟨hpage, not_not.mp habs, hmods, hone, BitVec.lt_def.mpr (Nat.pos_of_ne_zero hpos),
      BitVec.le_def.mpr hle, hfit.mpr hend⟩

/-- The keycode array that an Array item records. -/
theorem assignKeys_range (harr : ¬ flags &&& hidIoVariable ≠ 0) (habs : ¬ o.keys.Present) :
    ((assignKeys w b o).keys.Present ↔
        ∃ n, KbdEnds w flags .keys n ∧ (b.toNat + n) % 2 ^ 32 ≤ 65535) ∧
      ((assignKeys w b o).keys.Present → ∀ n, KbdEnds w flags .keys n →
        (assignKeys w b o).range .keys = ⟨b.toNat % 2 ^ 16, n⟩) := by
  have htarget : KbdSel.keys = kbdTarget flags := (if_neg harr).symm
  have hmul := toNat_mul_setWidth w.g.reportCount (sizeOr w 8)
  have hfit := add_le_bitOffsetMax_iff b (w.g.reportCount.setWidth 32 * (sizeOr w 8).setWidth 32)
  have hext : (kbdExtent w .keys).toNat = w.g.reportCount.toNat * (sizeOr w 8).toNat := hmul
  have hsize : (sizeOr w 8).toNat ≠ 0 := fun h0 =>
    sizeOr_ne_zero w (by decide) (BitVec.eq_of_toNat_eq h0)
  unfold assignKeys
  split
  · next hc =>
    obtain ⟨hpage, -, hpos, hend⟩ := hc
    have hpos' : w.g.reportCount.toNat ≠ 0 := (BitVec.lt_def.mp hpos).ne'
    constructor
    · refine iff_of_true (sizeOr_ne_zero w (by decide)) ⟨_, ⟨htarget, hpage, rfl, ?_, ?_⟩, ?_⟩
      · rw [hext]
        exact Nat.mul_ne_zero hpos' hsize
      · intro hs
        cases hs
      · rw [hext, ← hmul]
        exact hfit.mp hend
    · intro _ n hn
      obtain ⟨-, -, rfl, -, -⟩ := hn
      rw [KeyboardLayout.range, if_pos rfl, hext]
      exact congrArg (BitRange.mk · _) (BitVec.toNat_setWidth ..)
  · next hc =>
    refine ⟨iff_of_false habs ?_, fun h => absurd h habs⟩
    intro h
    obtain ⟨n, ⟨-, hpage, rfl, hpos, -⟩, hend⟩ := h
    rw [hext] at hpos hend
    rw [← hmul] at hend
    exact hc ⟨hpage, not_not.mp habs,
      BitVec.lt_def.mpr (Nat.pos_of_ne_zero (Nat.ne_zero_of_mul_ne_zero_left hpos)),
      hfit.mpr hend⟩

/-- The item behind the lock records the field of its kind only. -/
theorem assignKbdInput_get_of_ne_target (hs : s ≠ kbdTarget flags) :
    (assignKbdInput w b flags o).get s = o.get s :=
  (assignKbdInput_get w b flags o s).resolve_right fun h => hs h.1

/-- **An item records a keyboard field where a range on offer for it fits**, and the range is
that one. -/
theorem assignKbdInput_range (habs : ¬ (o.get s).Present) :
    (((assignKbdInput w b flags o).get s).Present ↔
        ∃ n, KbdEnds w flags s n ∧ (b.toNat + n) % 2 ^ 32 ≤ 65535) ∧
      (((assignKbdInput w b flags o).get s).Present → ∀ n, KbdEnds w flags s n →
        (assignKbdInput w b flags o).range s = ⟨b.toNat % 2 ^ 16, n⟩) := by
  have hlock : ¬ ((lockKbdReport w o).get s).Present := by rwa [lockKbdReport_get]
  by_cases hs : s = kbdTarget flags
  · unfold assignKbdInput
    split
    · next hvar =>
      obtain rfl : s = .modifiers := hs.trans (if_pos hvar)
      exact assignModifiers_range hvar hlock
    · next harr =>
      obtain rfl : s = .keys := hs.trans (if_neg harr)
      exact assignKeys_range harr hlock
  · rw [assignKbdInput_get_of_ne_target hs]
    exact ⟨iff_of_false habs fun ⟨_, hn, _⟩ => hs hn.1, fun h => absurd h habs⟩

/-- **The keyboard fields are recorded at such places.** -/
theorem kbdSite {p : Parser} (habs : ¬ (p.outKbd.get s).Present) :
    Site p.g.reportSize p.bitCursor.toNat (p.g.reportSize.toNat * p.g.reportCount.toNat)
      (KbdEnds p.toWalk flags s)
      ((assignKbdInput p.toWalk p.bitCursor flags p.outKbd).get s).Present
      ((assignKbdInput p.toWalk p.bitCursor flags p.outKbd).range s) where
  ends_le n hn := by
    obtain ⟨-, -, rfl, -, -⟩ := hn
    cases s with
    | modifiers => exact (toNat_mul_setWidth _ _).trans_le (toNat_mul_le _ _)
    | keys => exact (toNat_mul_setWidth _ _).trans_le (toNat_mul_le _ _)
  present_of_fits n hn hfit := (assignKbdInput_range habs).1.mpr ⟨n, hn, hfit⟩
  recorded hpres := by
    obtain ⟨n, hn, hfit⟩ := (assignKbdInput_range habs).1.mp hpres
    refine ⟨0, n, hn, Nat.zero_le n, hfit, ?_, ?_⟩
    · rw [(assignKbdInput_range habs).2 hpres n hn, Nat.add_zero,
        Nat.mod_eq_of_lt (b := 2 ^ 32) p.bitCursor.isLt, Nat.sub_zero]
    · -- with a Report Size of its own the item has all the bits of the range
      intro hsize
      obtain ⟨-, -, rfl, -, -⟩ := hn
      have hwidth (d : U8) : sizeOr p.toWalk d = p.g.reportSize := if_pos hsize
      cases s with
      | modifiers =>
        rw [kbdExtent, modifierBits, toNat_mul_setWidth, hwidth, Nat.mul_comm]
      | keys => rw [kbdExtent, toNat_mul_setWidth, hwidth, Nat.mul_comm]
  total_of_size_zero hsize := by
    rw [hsize]
    exact Nat.zero_mul _
  len_of_size_zero _ hpres n hn := by
    rw [(assignKbdInput_range habs).2 hpres n hn]

end Keyboard

/-! ### Maps -/

/-- Item `k` records the pointer field. -/
def RecordsPointer (its : List Item) (s : PointerSel) (k : ℕ) : Prop :=
  ¬ ((before its k).out.get s).Present ∧ ((before its (k + 1)).out.get s).Present

/-- Item `k` records the keyboard field. -/
def RecordsKbd (its : List Item) (s : KbdSel) (k : ℕ) : Prop :=
  ¬ ((before its k).outKbd.get s).Present ∧ ((before its (k + 1)).outKbd.get s).Present

/-- The range lies in the bits of item `k`, and within 16 bits. -/
def InsideItem (its : List Item) (k : ℕ) (r : BitRange) : Prop :=
  r.Inside (exactCursor (its.take k)) (exactCursor (its.take (k + 1)))

/-- Every range that is recorded lies in the bits of the item it is recorded from. -/
structure PlacedInside (its : List Item) : Prop where
  pointer : ∀ s k, RecordsPointer its s k → InsideItem its k ((before its (k + 1)).out.range s)
  keyboard : ∀ s k, RecordsKbd its s k → InsideItem its k ((before its (k + 1)).outKbd.range s)

/-- Every range that an Input item offers for a field that is still absent has an end that
fits. -/
structure PlacesFit (its : List Item) : Prop where
  pointer : ∀ k it, its[k]? = some it → it.isInput →
    isPointerInput (before its k).toWalk (itemU it.data) →
    ∀ s, ¬ ((before its k).out.get s).Present → ∀ n, PointerEnds (before its k).toWalk s n →
      EndFits (before its k).g.reportSize (exactCursor (its.take k)) n
  keyboard : ∀ k it, its[k]? = some it → it.isInput →
    isKeyboardInput (before its k).toWalk (itemU it.data) →
    ∀ s, ¬ ((before its k).outKbd.get s).Present →
      ∀ n, KbdEnds (before its k).toWalk (itemU it.data) s n →
        EndFits (before its k).g.reportSize (exactCursor (its.take k)) n

section Maps

variable {its : List Item} {k : ℕ} {it : Item}

/-- The exact cursor behind an Input item. -/
theorem exactCursor_succ (hit : its[k]? = some it) (hin : it.isInput) :
    exactCursor (its.take (k + 1)) = exactCursor (its.take k) +
      (before its k).g.reportSize.toNat * (before its k).g.reportCount.toNat := by
  simp only [take_succ_of_mem hit, exactCursor_concat, exactStep, if_pos hin]
  rfl

/-- An item that records a field is one that reaches the recorder. -/
theorem item_of_recordsPointer {s : PointerSel} (h : RecordsPointer its s k) :
    ∃ it, its[k]? = some it ∧ it.isInput ∧
      isPointerInput (before its k).toWalk (itemU it.data) := by
  obtain ⟨it, hit, hnew⟩ := item_of_new (K := fun p => (p.out.get s).Present) h.1 h.2
  exact ⟨it, hit, (records_of_new h.1 hnew).1⟩

theorem item_of_recordsKbd {s : KbdSel} (h : RecordsKbd its s k) :
    ∃ it, its[k]? = some it ∧ it.isInput ∧
      isKeyboardInput (before its k).toWalk (itemU it.data) := by
  obtain ⟨it, hit, hnew⟩ := item_of_new (K := fun p => (p.outKbd.get s).Present) h.1 h.2
  exact ⟨it, hit, (kbdRecords_of_new h.1 hnew).1⟩

/-- **Every recorded range lies within its item exactly when every range on offer has an end
that fits**, in a map of any length. -/
theorem placedInside_iff (its : List Item) : PlacedInside its ↔ PlacesFit its := by
  have hcur (k : ℕ) : (before its k).bitCursor.toNat = min (exactCursor (its.take k)) cursorMax :=
    toNat_bitCursor_eq_min _
  have hout {k : ℕ} {it : Item} (hit : its[k]? = some it) (hin : it.isInput)
      (hptr : isPointerInput (before its k).toWalk (itemU it.data)) :
      (before its (k + 1)).out =
        assignInput (before its k).toWalk (before its k).bitCursor (before its k).out := by
    rw [before_succ hit, handleItem_out, if_pos ⟨hin, hptr⟩]
  have houtKbd {k : ℕ} {it : Item} (hit : its[k]? = some it) (hin : it.isInput)
      (hkbd : isKeyboardInput (before its k).toWalk (itemU it.data)) :
      (before its (k + 1)).outKbd = assignKbdInput (before its k).toWalk (before its k).bitCursor
        (itemU it.data) (before its k).outKbd := by
    rw [before_succ hit, handleItem_outKbd, if_pos ⟨hin, hkbd⟩]
  constructor
  · intro h
    refine ⟨?_, ?_⟩
    · intro k it hit hin hptr s habs
      rw [← (pointerSite habs).placed_iff (hcur k), ← exactCursor_succ hit hin,
        ← hout hit hin hptr]
      exact fun hpres => h.pointer s k ⟨habs, hpres⟩
    · intro k it hit hin hkbd s habs
      rw [← (kbdSite habs).placed_iff (hcur k), ← exactCursor_succ hit hin,
        ← houtKbd hit hin hkbd]
      exact fun hpres => h.keyboard s k ⟨habs, hpres⟩
  · intro h
    refine ⟨?_, ?_⟩
    · intro s k hrec
      obtain ⟨it, hit, hin, hptr⟩ := item_of_recordsPointer hrec
      have hfits := h.pointer k it hit hin hptr s hrec.1
      rw [← (pointerSite hrec.1).placed_iff (hcur k), ← exactCursor_succ hit hin,
        ← hout hit hin hptr] at hfits
      exact hfits hrec.2
    · intro s k hrec
      obtain ⟨it, hit, hin, hkbd⟩ := item_of_recordsKbd hrec
      have hfits := h.keyboard k it hit hin hkbd s hrec.1
      rw [← (kbdSite hrec.1).placed_iff (hcur k), ← exactCursor_succ hit hin,
        ← houtKbd hit hin hkbd] at hfits
      exact hfits hrec.2

end Maps

/-- A mouse that declares three buttons before any Report Size. -/
def zeroSizeMap : List U8 :=
  [0x05, 0x01, 0x09, 0x02, 0xa1, 0x01, 0x05, 0x09, 0x19, 0x01, 0x29, 0x03, 0x95, 0x03, 0x81, 0x02,
   0x05, 0x01, 0x09, 0x30, 0x09, 0x31, 0x75, 0x08, 0x95, 0x02, 0x81, 0x06, 0xc0]

/-- The buttons are recorded over the first bits of X. -/
theorem zeroSizeMap_misplaced : ¬ ∀ m : List U8, PlacedInside (reportItems m) := by
  intro hall
  have hinside := (hall zeroSizeMap).pointer .buttons 7
    ⟨by decide +kernel, by decide +kernel⟩
  exact absurd hinside (by unfold InsideItem; decide +kernel)

end BleHidHost
