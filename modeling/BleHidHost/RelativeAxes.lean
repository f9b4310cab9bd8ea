import BleHidHost.Coherence

/-!
# Relative and absolute axes

A bit of an Input item's data says whether its fields are relative.  A pointer layout is
meant to hold relative axes, but the parser looks at two bits of the data only, Constant and
Variable: an axis is recorded from the first item that offers it, relative or absolute.

## Main definitions

* `Item.isData`, `Item.isVariable`, `Item.isRelative` — the bits of an Input item.
* `OffersAxis` — an Input item has a slot that can be recorded as an axis.
* `FirstOffers` — it is the first one of the pointer collection.

## Main results

* `recordedAt_iff_firstOffers` — **an axis is recorded from the first item that offers it.**
* `relativeAxes_iff` — a layout's axes are relative exactly when those items are.
-/

namespace BleHidHost

open Lib

/-! ### The bits of an Input item -/

/-- Bit 2 of an Input item's data, which the parser has no name for: relative fields. -/
def hidIoRelative : U32 := 0x04

/-- The item carries data, not padding. -/
def Item.isData (it : Item) : Bool := itemU it.data &&& hidIoConstant == 0

/-- The item has one usage for each field. -/
def Item.isVariable (it : Item) : Bool := itemU it.data &&& hidIoVariable != 0

/-- The item's fields are relative. -/
def Item.isRelative (it : Item) : Bool := itemU it.data &&& hidIoRelative != 0

/-! ### Offers -/

/-- An item met in state `w` has a slot with the axis' usage, of a nonzero size, whose bits
end within the offsets of a layout.  An item on the Button page has buttons only. -/
def OffersAxis (w : Walk) (s : PointerSel) : Prop :=
  w.g.usagePage ≠ pageButton ∧ w.g.reportSize ≠ 0 ∧ ∃ i < w.g.reportCount.toNat,
    s.usage = some (slotUsage w i) ∧
      slotOffset w w.bitCursor i + w.g.reportSize.setWidth 32 ≤ bitOffsetMax

instance (w : Walk) (s : PointerSel) : Decidable (OffersAxis w s) := by
  unfold OffersAxis
  exact inferInstance

/-- Item `k` is an Input item with fields of the pointer collection that offers the axis. -/
def OffersAt (its : List Item) (s : PointerSel) (k : ℕ) : Prop :=
  ∃ it ∈ its[k]?, it.isInput ∧ isPointerInput (before its k).toWalk (itemU it.data) ∧
    OffersAxis (before its k).toWalk s

/-- Item `k` is the first that offers the axis. -/
def FirstOffers (its : List Item) (s : PointerSel) (k : ℕ) : Prop :=
  OffersAt its s k ∧ ∀ k' < k, ¬ OffersAt its s k'

instance (its : List Item) (s : PointerSel) (k : ℕ) : Decidable (OffersAt its s k) := by
  unfold OffersAt
  exact inferInstance

instance (its : List Item) (s : PointerSel) (k : ℕ) : Decidable (FirstOffers its s k) := by
  unfold FirstOffers
  exact inferInstance

variable {its : List Item} {s : PointerSel} {k : ℕ}

/-- **What an item declares is what it offers.** -/
theorem declaresField_iff_offersAxis (w : Walk) (hs : s ≠ .buttons) :
    declaresField w s ↔ OffersAxis w s := by
  rw [declaresField, decide_eq_true_iff, OffersAxis, assignInput]
  split
  · next hpage =>
    rw [assignButtons_get_of_ne _ _ _ hs, lockReport_get]
    exact iff_of_false (ReportLayout.not_present_zero s) fun hc => hc.1 hpage
  · next hpage =>
    have habs : ¬ ((lockReport w .zero).get s).Present := by
      rw [lockReport_get]
      exact ReportLayout.not_present_zero s
    rw [assignSlots_present_iff habs, and_iff_right hpage]

/-- **An axis is present behind the first items that offer it.** -/
theorem present_before_iff (hs : s ≠ .buttons) :
    ((before its k).out.get s).Present ↔ ∃ k' < k, OffersAt its s k' := by
  induction k with
  | zero =>
    refine iff_of_false ?_ fun ⟨k', hk, _⟩ => Nat.not_lt_zero k' hk
    simp only [before, List.take_zero, runItems_nil]
    exact ReportLayout.not_present_zero s
  | succ k ih =>
    have hsplit : (∃ k' < k + 1, OffersAt its s k') ↔
        (∃ k' < k, OffersAt its s k') ∨ OffersAt its s k := by
      simp only [Nat.lt_succ_iff_lt_or_eq, or_and_right, exists_or, exists_eq_left]
    rw [hsplit, ← ih]
    cases hit : its[k]? with
    | none =>
      -- behind the last item nothing happens
      have hnone : ¬ OffersAt its s k := by
        intro h
        obtain ⟨it, hmem, -⟩ := h
        rw [hit] at hmem
        cases hmem
      rw [or_iff_left hnone, before_succ_of_getElem?_eq_none hit]
    | some it =>
      have hoffers : OffersAt its s k ↔ it.isInput ∧
          isPointerInput (before its k).toWalk (itemU it.data) ∧
            declaresField (before its k).toWalk s := by
        simp only [OffersAt, hit, declaresField_iff_offersAxis _ hs]
        simp
      rw [before_succ hit, handleItem_out, hoffers]
      split
      · next hc => rw [assignInput_present, and_iff_right hc.1, and_iff_right hc.2]
      · next hc =>
        rw [or_iff_left]
        exact fun hd => hc ⟨hd.1, hd.2.1⟩

/-- **An axis is recorded from the first item that offers it.** -/
theorem recordedAt_iff_firstOffers (hs : s ≠ .buttons) :
    (∃ j, RecordedAt its s k j) ↔ FirstOffers its s k := by
  constructor
  · intro h
    obtain ⟨j, it, hit, hin, hptr, hrec⟩ := h
    have habs := hrec.not_present
    rw [present_before_iff hs] at habs
    push Not at habs
    refine ⟨⟨it, hit, hin, hptr, ?_⟩, habs⟩
    have hpres := (assignInput_present _ _ s).mp hrec.present
    rw [or_iff_right hrec.not_present, declaresField_iff_offersAxis _ hs] at hpres
    exact hpres
  · intro h
    obtain ⟨⟨it, hit, hin, hptr, hoffers⟩, hfirst⟩ := h
    have habs : ¬ ((before its k).out.get s).Present := by
      rw [present_before_iff hs]
      intro hearlier
      obtain ⟨k', hk, hoff⟩ := hearlier
      exact hfirst k' hk hoff
    obtain ⟨j, hj⟩ := exists_recordsSlot habs ((assignInput_present _ _ s).mpr
      (.inr ((declaresField_iff_offersAxis _ hs).mpr hoffers)))
    exact ⟨j, it, hit, hin, hptr, hj⟩

/-! ### Relative axes -/

/-- Every axis recorded from the map was recorded from a Data, Variable, Relative item. -/
def AxesRelative (its : List Item) : Prop :=
  ∀ s k j it, s ≠ .buttons → RecordedAt its s k j → its[k]? = some it →
    it.isData ∧ it.isVariable ∧ it.isRelative

/-- **The axes of a layout are relative exactly when the first items that offer them are.**
Every axis of the layout is recorded from some item. -/
theorem relativeAxes_iff (m : List U8) :
    (AxesRelative (reportItems m) ↔
      ∀ s k it, s ≠ .buttons → FirstOffers (reportItems m) s k →
        (reportItems m)[k]? = some it → it.isRelative) ∧
    ∀ s, ((zmkHidParseReportMap m).2.get s).Present → ∃ k j, RecordedAt (reportItems m) s k j := by
  constructor
  · constructor
    · intro hall s k it hs hfirst hit
      obtain ⟨j, hj⟩ := (recordedAt_iff_firstOffers hs).mpr hfirst
      exact (hall s k j it hs hj hit).2.2
    · intro hall s k j it hs hrec hit
      have hrelative := hall s k it hs ((recordedAt_iff_firstOffers hs).mp ⟨j, hrec⟩) hit
      obtain ⟨it', hit', -, hptr, -⟩ := hrec
      obtain rfl : it' = it := Option.some_inj.mp (hit'.symm.trans hit)
      unfold isPointerInput at hptr
      simp only [Bool.and_eq_true] at hptr
      exact ⟨hptr.1.2, hptr.2, hrelative⟩
  · intro s hpres
    apply exists_recordedAt
    rw [zmkHidParseReportMap_snd] at hpres
    cases s <;> exact hpres

/-- A pointer with absolute X and Y. -/
def absoluteMap : List U8 :=
  [0x05, 0x01, 0x09, 0x02, 0xa1, 0x01, 0x09, 0x30, 0x09, 0x31, 0x75, 0x08, 0x95, 0x02, 0x81, 0x02,
   0xc0]

/-- The map is accepted. -/
theorem absoluteMap_accepted :
    ¬ ∀ m : List U8, (zmkHidParseReportMap m).1 = 0 → AxesRelative (reportItems m) := by
  intro hall
  have hx := hall absoluteMap (by decide +kernel) .x 7 0 _ (by decide) (by decide +kernel) rfl
  exact absurd hx.2.2 (by decide +kernel)

end BleHidHost
