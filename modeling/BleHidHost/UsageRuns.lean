import BleHidHost.LayoutBounds

/-!
# Modifier runs by their usages

A layout numbers the modifiers of its bitfield from `0xE0` on.  The parser records the
bitfield without looking at all of its usages: only at the first, or at the lower end of the
usage range.  Which usage a slot has is decided by `usage_for_slot`.

## Main definitions

* `NamesRun` — the slots of an item have consecutive usages.
* `ListsRun` — the item's local items say so.

## Main results

* `namesRun_iff` — **the slots have consecutive usages exactly when the Usage list begins
  with them, or there is none and the range covers them.**
* `modifierRun_iff` — when a bit of a report means the key of its place.
-/

namespace BleHidHost

open Lib

/-! ### Consecutive usages -/

/-- Slots `0` to `n - 1` of the item have the usages `first`, `first + 1`, … of the page. -/
def NamesRun (w : Walk) (page : U16) (first n : ℕ) : Prop :=
  ∀ i < n, slotUsage w i = (page, BitVec.ofNat 16 (first + i))

/-- The Usage list begins with `n` usages from `first` on. -/
def ListBegins (w : Walk) (page : U16) (first n : ℕ) : Prop :=
  (w.usages.take n).map (fun u => (usagePage u, usageId u)) =
    (List.range n).map fun i => (page, BitVec.ofNat 16 (first + i))

/-- The range from Usage Minimum to Usage Maximum begins with `first` and covers `n`
usages.  A range of one slot may be given the wrong way round. -/
def RangeCovers (w : Walk) (page : U16) (first n : ℕ) : Prop :=
  w.hasUsageRange ∧ w.g.usagePage = page ∧
    min w.usageMin.toNat w.usageMax.toNat % 65536 = first ∧
    (n = 1 ∨ w.usageMin.toNat + (n - 1) ≤ w.usageMax.toNat)

/-- The local items of an item give it `n` usages from `first` on: the Usage list where
there is one, the range otherwise. -/
def ListsRun (w : Walk) (page : U16) (first n : ℕ) : Prop :=
  n = 0 ∨ if w.usages = [] then RangeCovers w page first n else ListBegins w page first n

instance (w : Walk) (page : U16) (first n : ℕ) : Decidable (ListsRun w page first n) := by
  unfold ListsRun RangeCovers ListBegins
  exact inferInstance

/-! ### Usage lists -/

section Lists

variable {α β : Type} {l : List α} {d : α} {f : α → β} {t : ℕ → β} {n : ℕ}

/-- Where the last entry repeats past the end, a list names distinct values in its first
`n` places only if it begins with them. -/
theorem forall_getD_eq_iff (hl : l ≠ []) (ht : ∀ i, i + 1 < n → t i ≠ t (i + 1)) :
    (∀ i < n, f (l.getD (if i < l.length then i else l.length - 1) d) = t i) ↔
      (l.take n).map f = (List.range n).map t := by
  have hpos : 0 < l.length := List.length_pos_iff.mpr hl
  have hin (i : ℕ) (hi : i < l.length) : l.getD i d = l[i] := by
    rw [List.getD_eq_getElem?_getD, List.getElem?_eq_getElem hi, Option.getD_some]
  constructor
  · intro hall
    -- a list that is too short would repeat its last value
    have hn : n ≤ l.length := by
      by_contra hlt
      have hlast := hall (l.length - 1) (by omega)
      have hpast := hall (l.length - 1 + 1) (by omega)
      rw [if_pos (by omega)] at hlast
      rw [if_neg (by omega)] at hpast
      exact ht (l.length - 1) (by omega) (hlast.symm.trans hpast)
    apply List.ext_getElem
    · simp [hn]
    · intro i hi hi'
      simp only [List.length_map, List.length_range] at hi'
      have hval := hall i hi'
      have hlt : i < l.length := by omega
      rw [if_pos hlt, hin i hlt] at hval
      simp [hval]
  · intro heq i hi
    have hlen := congrArg List.length heq
    simp only [List.length_map, List.length_take, List.length_range] at hlen
    have hlt : i < l.length := by omega
    rw [if_pos hlt, hin i hlt]
    have hval := congrArg (·[i]?) heq
    simp only [List.getElem?_map, List.getElem?_take, if_pos hi, List.getElem?_eq_getElem hlt,
      List.getElem?_range hi, Option.map_some, Option.some.injEq] at hval
    exact hval

end Lists

/-! ### Usage ranges -/

/-- The usage of slot `i` of a range, as a number. -/
def rangeValue (a b i : ℕ) : ℕ := if b < (a + i) % 2 ^ 32 then b else (a + i) % 2 ^ 32

/-- A range, clamped at its upper end, gives consecutive usages to its slots exactly when
it begins with the first and is long enough. -/
theorem forall_rangeValue_iff {a b first n : ℕ} (ha : a < 2 ^ 32) (hb : b < 2 ^ 32)
    (hn : 0 < n) (hfirst : first + n ≤ 65536) :
    (∀ i < n, rangeValue a b i % 65536 = first + i) ↔
      min a b % 65536 = first ∧ (n = 1 ∨ a + (n - 1) ≤ b) := by
  unfold rangeValue
  constructor
  · intro hall
    have hzero := hall 0 hn
    have hmin : (if b < (a + 0) % 2 ^ 32 then b else (a + 0) % 2 ^ 32) = min a b := by
      split <;> omega
    rw [hmin] at hzero
    refine ⟨hzero, ?_⟩
    by_contra hc
    obtain ⟨hone, hshort⟩ := not_or.mp hc
    by_cases hwrap : 2 ^ 32 ≤ a + (n - 1)
    · -- the slot at which the usage wraps to zero
      have hslot := hall (2 ^ 32 - a) (by omega)
      have hval : (a + (2 ^ 32 - a)) % 2 ^ 32 = 0 := by omega
      rw [hval, if_neg (by omega)] at hslot
      omega
    · -- the last two slots have the same usage, the upper end
      have hlast := hall (n - 1) (by omega)
      have hprev := hall (n - 2) (by omega)
      rw [Nat.mod_eq_of_lt (a := a + (n - 1)) (by omega), if_pos (by omega)] at hlast
      rw [Nat.mod_eq_of_lt (a := a + (n - 2)) (by omega)] at hprev
      split at hprev <;> omega
  · rintro ⟨hmin, hcover⟩ i hi
    rcases hcover with rfl | hcover
    · have hi0 : i = 0 := by omega
      subst hi0
      split <;> omega
    · have hval : (a + i) % 2 ^ 32 = a + i := Nat.mod_eq_of_lt (by omega)
      rw [hval, if_neg (by omega)]
      omega

/-! ### Slots -/

/-- With a Usage list every slot has its entry, the last one past the end. -/
theorem slotUsage_of_list {w : Walk} (h : w.usages ≠ []) (i : ℕ) :
    slotUsage w i = (usagePage (w.usages.getD
        (if i < w.usages.length then i else w.usages.length - 1) 0),
      usageId (w.usages.getD (if i < w.usages.length then i else w.usages.length - 1) 0)) := by
  simp only [slotUsage, usageForSlot, if_pos (List.length_pos_iff.mpr h)]

/-- Without a list every slot has a usage of the current page, that of its place in the
range, or `0` without a range. -/
theorem slotUsage_of_range {w : Walk} (h : w.usages = []) (i : ℕ) :
    slotUsage w i = (w.g.usagePage, if w.hasUsageRange then
      BitVec.ofNat 16 (rangeValue w.usageMin.toNat w.usageMax.toNat i) else 0) := by
  have hnone : ¬ 0 < w.usages.length := by rw [h]; exact lt_irrefl 0
  simp only [slotUsage, usageForSlot, if_neg hnone]
  split
  · have hsum : (w.usageMin + BitVec.ofNat 32 i).toNat = (w.usageMin.toNat + i) % 2 ^ 32 := by
      rw [BitVec.toNat_add, BitVec.toNat_ofNat, Nat.add_mod_mod]
    rw [usagePage_makeUsage, usageId_makeUsage, Prod.mk.injEq, and_iff_right rfl]
    apply BitVec.eq_of_toNat_eq
    rw [BitVec.toNat_setWidth, BitVec.toNat_ofNat, rangeValue, ← hsum]
    simp only [BitVec.lt_def]
    split <;> rfl
  · rw [usagePage_makeUsage, usageId_makeUsage]
    rfl

/-- **The slots of an item have consecutive usages exactly when its local items list
them.** -/
theorem namesRun_iff (w : Walk) (page : U16) {first n : ℕ} (hpos : 0 < first)
    (hfirst : first + n ≤ 65536) : NamesRun w page first n ↔ ListsRun w page first n := by
  unfold NamesRun ListsRun
  rcases Nat.eq_zero_or_pos n with rfl | hn
  · exact iff_of_true (fun i hi => absurd hi (Nat.not_lt_zero i)) (.inl rfl)
  rw [or_iff_right (by omega)]
  have hval (i : ℕ) (hi : i < n) : (BitVec.ofNat 16 (first + i)).toNat = first + i := by
    rw [BitVec.toNat_ofNat, Nat.mod_eq_of_lt (by omega)]
  split
  · next hnone =>
    simp only [slotUsage_of_range hnone, Prod.mk.injEq]
    unfold RangeCovers
    cases w.hasUsageRange with
    | false =>
      -- without any usage every slot has usage `0`
      refine iff_of_false ?_ fun hc => Bool.false_ne_true hc.1
      intro hall
      have hzero := congrArg BitVec.toNat (hall 0 hn).2
      rw [if_neg Bool.false_ne_true, hval 0 hn] at hzero
      have hz : (0 : U16).toNat = 0 := rfl
      omega
    | true =>
      rw [and_iff_right rfl, ← forall_rangeValue_iff w.usageMin.isLt w.usageMax.isLt hn hfirst]
      have hslot (i : ℕ) (hi : i < n) :
          BitVec.ofNat 16 (rangeValue w.usageMin.toNat w.usageMax.toNat i) =
            BitVec.ofNat 16 (first + i) ↔
          rangeValue w.usageMin.toNat w.usageMax.toNat i % 65536 = first + i := by
        rw [← BitVec.toNat_inj, hval i hi, BitVec.toNat_ofNat]
      constructor
      · intro hall
        exact ⟨(hall 0 hn).1, fun i hi => (hslot i hi).mp (hall i hi).2⟩
      · rintro ⟨hpage, hall⟩ i hi
        exact ⟨hpage, (hslot i hi).mpr (hall i hi)⟩
  · next hlist =>
    simp only [slotUsage_of_list hlist]
    apply forall_getD_eq_iff (f := fun u => (usagePage u, usageId u))
      (t := fun i => (page, BitVec.ofNat 16 (first + i))) hlist
    intro i hi heq
    have hnat := congrArg BitVec.toNat (Prod.mk.inj heq).2
    rw [hval i (by omega), hval (i + 1) hi] at hnat
    omega

/-! ### Modifiers -/

/-- Narrowing a word read as an integer keeps its low bits. -/
theorem ofInt_toInt_eq_setWidth (x : U32) : BitVec.ofInt 8 x.toInt = x.setWidth 8 := by
  apply BitVec.eq_of_toNat_eq
  rw [BitVec.toNat_ofInt, BitVec.toNat_setWidth, BitVec.toInt_eq_toNat_cond]
  split <;> omega

/-- The decoded modifiers are the bits of their field. -/
theorem getLsbD_modifiers {l : KeyboardLayout} {p : List U8} {r : KeyboardReport}
    (hsigned : l.modifiers.isSigned = false)
    (hdec : zmkHidDecodeKeyboardReport l p = some r) (i : ℕ) (hi : i < 8) :
    r.modifiers.getLsbD i =
      (decide (i < l.modifiers.bitSize.toNat) && bitAt p (l.modifiers.bitOffset.toNat + i)) := by
  unfold zmkHidDecodeKeyboardReport at hdec
  split at hdec
  · cases hdec
  split at hdec
  · cases hdec
  rw [← Option.some_inj.mp hdec]
  simp only
  split
  · next hne =>
    have hplain : extendSign l.modifiers = id := by
      funext v
      exact if_neg fun hc => Bool.false_ne_true (hsigned.symm.trans hc.1)
    rw [extract, if_neg hne, hplain, id, extractLoop_eq_slice, ofInt_toInt_eq_setWidth,
      BitVec.getLsbD_setWidth, BitVec.getLsbD_setWidth, getLsbD_slice]
    have h32 : i < 32 := by omega
    rw [decide_eq_true hi, decide_eq_true h32, Bool.true_and, Bool.true_and]
  · next h0 =>
    have hsize : l.modifiers.bitSize.toNat = 0 := by
      rw [not_not.mp h0]
      rfl
    have hzero : (0 : U8).getLsbD i = false := BitVec.getLsbD_zero
    rw [hsize, hzero, decide_eq_false (Nat.not_lt_zero i), Bool.false_and]

/-- The modifier bitfield is unsigned. -/
theorem modifiers_isSigned (its : List Item) :
    (runItems its).outKbd.modifiers.isSigned = false := by
  apply runItems_outKbd_invariant (K := fun o => (o.get .modifiers).isSigned = false) rfl
  intro pre _ flags o h
  rcases assignKbdInput_get (walkItems pre) (walkItems pre).bitCursor flags o .modifiers with
    hsame | ⟨-, -, -, hrec⟩
  · rw [hsame]
    exact h
  · rw [hrec]

/-- **Bit `i` of the modifiers means usage `0xE0 + i`**, in whatever item the bitfield was
recorded from, exactly when the local items of that item list the modifiers from `0xE0` on.
A present bitfield was recorded from some item, and the bits of a decoded report are those
of its slots. -/
theorem modifierRun_iff (m : List U8) :
    let l := (zmkHidParseKeyboardReportMap m).2
    ((∀ k, KbdRecordedAt (reportItems m) .modifiers k → ∀ i < l.modifiers.bitSize.toNat,
        slotUsage (before (reportItems m) k).toWalk i =
          (pageKeyboard, BitVec.ofNat 16 (0xE0 + i))) ↔
      ∀ k, KbdRecordedAt (reportItems m) .modifiers k →
        ListsRun (before (reportItems m) k).toWalk pageKeyboard 0xE0 l.modifiers.bitSize.toNat) ∧
    (l.modifiers.Present → ∃ k, KbdRecordedAt (reportItems m) .modifiers k) ∧
    ∀ p r, zmkHidDecodeKeyboardReport l p = some r → ∀ i < 8, r.modifiers.getLsbD i =
      (decide (i < l.modifiers.bitSize.toNat) && bitAt p (l.modifiers.bitOffset.toNat + i)) := by
  intro l
  have hl : l.modifiers = (runItems (reportItems m)).outKbd.modifiers := by
    show (zmkHidParseKeyboardReportMap m).2.modifiers = _
    rw [zmkHidParseKeyboardReportMap_snd]
  have hsize := (kbdSound_zmkHidParseKeyboardReportMap m).modifiers_le
  refine ⟨?_, ?_, ?_⟩
  · have hrun (w : Walk) : (∀ i < l.modifiers.bitSize.toNat,
        slotUsage w i = (pageKeyboard, BitVec.ofNat 16 (0xE0 + i))) ↔
        ListsRun w pageKeyboard 0xE0 l.modifiers.bitSize.toNat :=
      namesRun_iff w pageKeyboard (by decide) (by omega)
    simp only [hrun]
  · intro hpres
    rw [hl] at hpres
    exact exists_kbdRecordedAt (s := .modifiers) hpres
  · intro p r hdec i hi
    have hsigned : l.modifiers.isSigned = false := by
      rw [hl]
      exact modifiers_isSigned _
    exact getLsbD_modifiers hsigned hdec i hi

/-- A keyboard with Left Control and Left Alt alone. -/
def twoModifiersMap : List U8 :=
  [0x05, 0x01, 0x09, 0x06, 0xa1, 0x01, 0x05, 0x07, 0x09, 0xe0, 0x09, 0xe2, 0x75, 0x01, 0x95, 0x02,
   0x81, 0x02, 0x75, 0x06, 0x95, 0x01, 0x81, 0x01, 0x75, 0x08, 0x95, 0x06, 0x81, 0x00, 0xc0]

/-- Left Alt comes out as Left Shift. -/
theorem twoModifiers_shifted :
    ¬ ∀ m : List U8, (zmkHidParseKeyboardReportMap m).1 = 0 →
      ∀ k, KbdRecordedAt (reportItems m) .modifiers k →
        ∀ i < (zmkHidParseKeyboardReportMap m).2.modifiers.bitSize.toNat,
          slotUsage (before (reportItems m) k).toWalk i =
            (pageKeyboard, BitVec.ofNat 16 (0xE0 + i)) := by
  intro hall
  have hslot := hall twoModifiersMap (by decide +kernel) 8 (by decide +kernel) 1 (by decide +kernel)
  exact absurd hslot (by decide +kernel)

end BleHidHost
