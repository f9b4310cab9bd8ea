import BleHidHost.Capacity
import BleHidHost.Placement

/-!
# Layouts that carry every report

Between two changes of Report ID the cursor only moves forwards, so the fields that are
recorded there share no bit.  A map whose fields all come from one such stay, from items with
a Report Size of their own, leaves a layout that carries every report in range, and none but
these.  Whatever the peer wants to tell it can, and the layout says how.

## Main definitions

* `OneStay`, `KbdOneStay` — the Report ID stays from the first field to the last.

## Main results

* `exactCursor_le` — the cursor only moves forwards while the Report ID stays.
* `carries_iff_inRange` — **the pointer reports of such a map are those in range.**
* `kbdCarries_iff_inRange` — the reports of keys.
-/

namespace BleHidHost

open Lib

variable {its : List Item} {k k' : ℕ}

/-! ### The cursor in one stay -/

/-- The Report ID stays from item `k` up to item `k'`. -/
def Stays (its : List Item) (k k' : ℕ) : Prop :=
  ∀ j, k ≤ j → j ≤ k' → (before its j).g.reportId = (before its k).g.reportId

/-- **While the Report ID stays the cursor only moves forwards.** -/
theorem exactCursor_le (hk : k ≤ k') (hstays : Stays its k k') :
    exactCursor (its.take k) ≤ exactCursor (its.take k') := by
  induction k', hk using Nat.le_induction with
  | base => exact le_rfl
  | succ n hkn ih =>
    have hprev := ih fun j hj hjn => hstays j hj (Nat.le_succ_of_le hjn)
    cases hit : its[n]? with
    | none =>
      have hlen := List.getElem?_eq_none_iff.mp hit
      have htake : its.take (n + 1) = its.take n :=
        (List.take_of_length_le (Nat.le_succ_of_le hlen)).trans (List.take_of_length_le hlen).symm
      rwa [htake]
    | some it =>
      have hsame : (before its (n + 1)).g.reportId = (before its n).g.reportId :=
        (hstays _ (Nat.le_succ_of_le hkn) le_rfl).trans (hstays n hkn (Nat.le_succ n)).symm
      rw [take_succ_of_mem hit, exactCursor_concat]
      unfold exactStep
      split
      · exact hprev.trans (Nat.le_add_right _ _)
      · split
        · next hreset =>
          -- an item that zeroes the cursor leaves another Report ID
          obtain ⟨htype, htag, hid⟩ := hreset
          have hnew : (handleItem (before its n) it).g.reportId = (itemU it.data).setWidth 8 := by
            simp [handleItem, dispatch, htype, htag, handleGlobal]
          rw [before_succ hit, hnew] at hsame
          exact absurd hsame hid
        · exact hprev

/-- Ranges of different items of one stay share no bit. -/
theorem stop_le_start_of_insideItem {r r' : BitRange} (hlt : k < k') (hstays : Stays its k k')
    (hr : InsideItem its k r) (hr' : InsideItem its k' r') : r.start + r.len ≤ r'.start := by
  have hmono : exactCursor (its.take (k + 1)) ≤ exactCursor (its.take k') := by
    refine exactCursor_le hlt fun j hj hjk => ?_
    exact (hstays j (Nat.le_of_succ_le hj) hjk).trans
      (hstays (k + 1) (Nat.le_succ k) hlt).symm
  exact hr.2.1.trans (hmono.trans hr'.1)

/-- A Report ID that is declared once, in front of item `k₀`, stays from there on. -/
theorem stays_of_declared {k₀ : ℕ} {id : U8}
    (hid : ∀ j, j ≤ its.length → k₀ ≤ j → (before its j).g.reportId = id) (hk : k₀ ≤ k) :
    Stays its k k' := by
  have hall (j : ℕ) (hj : k₀ ≤ j) (hk₀ : k₀ ≤ its.length) :
      (before its j).g.reportId = id := by
    rcases Nat.le_total j its.length with hle | hge
    · exact hid j hle hj
    · have hend : before its j = before its its.length := by
        rw [before, before, List.take_of_length_le hge, List.take_length]
      rw [hend]
      exact hid _ le_rfl hk₀
  intro j hkj _
  rcases Nat.le_total k₀ its.length with hk₀ | hlen
  · rw [hall j (hk.trans hkj) hk₀, hall k hk hk₀]
  · -- behind the last item nothing changes
    rw [before, before, List.take_of_length_le (hlen.trans (hk.trans hkj)),
      List.take_of_length_le (hlen.trans hk)]

/-- The items up to `n`, split behind `k`. -/
theorem take_append_drop_take {n : ℕ} (hk : k ≤ n) :
    its.take k ++ (its.take n).drop k = its.take n := by
  have hsplit := List.take_append_drop k (its.take n)
  rwa [List.take_take, min_eq_left hk] at hsplit

/-! ### Where the fields of a map lie -/

/-- The cursor of a short map is the exact one. -/
theorem exactCursor_eq {m : List U8} (hlen : m.length ≤ 512) (k : ℕ) :
    exactCursor ((reportItems m).take k) = (before (reportItems m) k).bitCursor.toNat ∧
      (before (reportItems m) k).bitCursor.toNat < 2 ^ 31 := by
  have hlt := toNat_bitCursor_lt hlen (List.take_prefix k (reportItems m))
  have hmin := toNat_bitCursor_eq_min ((reportItems m).take k)
  unfold cursorMax at hmin
  have hcur : (before (reportItems m) k).bitCursor =
    (walkItems ((reportItems m).take k)).bitCursor := rfl
  rw [hcur]
  omega

/-- In a short map the end of a range fits, in an item with a Report Size of its own. -/
theorem endFits_of_size {m : List U8} (hlen : m.length ≤ 512) {size : U8} {n : ℕ}
    (hsize : size ≠ 0) (hn : n ≤ 65025) :
    EndFits size (exactCursor ((reportItems m).take k)) n := by
  obtain ⟨heq, hlt⟩ := exactCursor_eq hlen k
  exact .inr ⟨by omega, fun h => absurd h hsize⟩

section Pointer

variable {m : List U8} {s s' : PointerSel}

/-- What an item has recorded of a field stands in the final layout. -/
theorem range_of_recordsPointer (h : RecordsPointer its s k) :
    (runItems its).out.get s = (before its (k + 1)).out.get s ∧
      (runItems its).out.range s = (before its (k + 1)).out.range s := by
  have hall := @runItems_append_eq _ (fun p => (p.out.get s, p.out.range s)) (its.take (k + 1))
    (fun p it hp => by
      have hpresent : (p.out.get s).Present := by
        rw [(Prod.mk.inj hp).1]
        exact h.2
      have hget : (handleItem p it).out.get s = p.out.get s :=
        handleItem_out_get_of_present hpresent
      refine Prod.ext hget ?_
      show (handleItem p it).out.range s = p.out.range s
      rw [ReportLayout.range, ReportLayout.range, hget]
      by_cases hs : s = .buttons
      · subst hs
        rw [handleItem_out_buttonCount_of_present hpresent]
      · rw [if_neg hs, if_neg hs]) (its.drop (k + 1))
  rw [List.take_append_drop] at hall
  exact Prod.mk.inj hall

/-- A field that is present was recorded from some item. -/
theorem exists_recordsPointer (h : ((runItems its).out.get s).Present) :
    ∃ k, RecordsPointer its s k := by
  have hstart : ¬ (Parser.start.out.get s).Present := by
    cases s <;> exact Field.not_present_zero
  obtain ⟨k, it, hit, habs, hnew⟩ :=
    exists_item_of_new (K := fun p => (p.out.get s).Present) hstart h
  exact ⟨k, habs, (before_succ hit).symm ▸ hnew⟩

/-- The items that record a field have a Report Size of their own, as an axis needs one. -/
def ButtonsSized (its : List Item) : Prop :=
  ∀ k, RecordsPointer its .buttons k → (before its k).g.reportSize ≠ 0

/-- **A recorded field lies in its item.** -/
theorem insideItem_of_recordsPointer (hlen : m.length ≤ 512) (hsize : ButtonsSized (reportItems m))
    (h : RecordsPointer (reportItems m) s k) :
    InsideItem (reportItems m) k ((runItems (reportItems m)).out.range s) := by
  obtain ⟨it, hit, hin, hptr⟩ := item_of_recordsPointer h
  have hsite := pointerSite h.1
  have hout : (before (reportItems m) (k + 1)).out = assignInput (before (reportItems m) k).toWalk
      (before (reportItems m) k).bitCursor (before (reportItems m) k).out := by
    rw [before_succ hit, handleItem_out, if_pos ⟨hin, hptr⟩]
  have hplaced := (hsite.placed_iff (toNat_bitCursor_eq_min ((reportItems m).take k))).mpr ?_
  · rw [← exactCursor_succ hit hin, ← hout] at hplaced
    rw [(range_of_recordsPointer h).2]
    exact hplaced h.2
  · intro n hn
    refine endFits_of_size hlen ?_ (hsite.ends_le n hn)
    by_cases hs : s = .buttons
    · subst hs
      exact hsize k h
    · unfold PointerEnds at hn
      rw [if_neg hs] at hn
      exact hn.2.1

/-- What an item has recorded, it has recorded from one of its slots. -/
theorem recordsSlot_of_recordsPointer (h : RecordsPointer its s k) :
    (∃ i, RecordsSlot (before its k) s i) ∧ (runItems its).out.range s =
      (assignInput (before its k).toWalk (before its k).bitCursor (before its k).out).range s := by
  obtain ⟨it, hit, hin, hptr⟩ := item_of_recordsPointer h
  have hout : (before its (k + 1)).out = assignInput (before its k).toWalk
      (before its k).bitCursor (before its k).out := by
    rw [before_succ hit, handleItem_out, if_pos ⟨hin, hptr⟩]
  have hpresent := h.2
  rw [hout] at hpresent
  exact ⟨exists_recordsSlot h.1 hpresent, (range_of_recordsPointer h).2.trans (by rw [hout])⟩

/-- An item records an axis from the slot with its usage, at that slot's place. -/
theorem slot_of_recordsPointer (hlen : m.length ≤ 512) (hs : s ≠ .buttons)
    (h : RecordsPointer (reportItems m) s k) :
    let p := before (reportItems m) k
    p.g.usagePage ≠ pageButton ∧ ∃ i, s.usage = some (slotUsage p.toWalk i) ∧
      (runItems (reportItems m)).out.range s =
        ⟨p.bitCursor.toNat + i * p.g.reportSize.toNat, p.g.reportSize.toNat⟩ := by
  intro p
  obtain ⟨⟨i, hslot⟩, hfinal⟩ := recordsSlot_of_recordsPointer h
  obtain ⟨hends, hi, hrange⟩ := range_of_recordsSlot_axis hs hslot
  have hlt : p.bitCursor.toNat < 2 ^ 31 := (exactCursor_eq hlen k).2
  have hfits := hslot.fits
  rw [if_neg hs, slotEnd_le_iff] at hfits
  unfold PointerEnds at hends
  rw [if_neg hs] at hends
  obtain ⟨hpage, hsize, i', -, husage, hsame⟩ := hends
  have hpos : 0 < p.g.reportSize.toNat := Nat.pos_of_ne_zero fun h0 =>
    hsize (BitVec.eq_of_toNat_eq h0)
  obtain rfl : i = i' := Nat.succ_injective (Nat.eq_of_mul_eq_mul_right hpos hsame)
  -- the end of the slot fits 16 bits, so its start is not narrowed
  have hmul : (i + 1) * p.g.reportSize.toNat ≤ 65025 :=
    (Nat.mul_le_mul_right _ hi).trans (toNat_mul_le _ _)
  have hsucc : (i + 1) * p.g.reportSize.toNat =
    i * p.g.reportSize.toNat + p.g.reportSize.toNat := Nat.succ_mul _ _
  have hword : (p.bitCursor.toNat + (i + 1) * p.g.reportSize.toNat) % 2 ^ 32 ≤ 65535 := hfits
  refine ⟨hpage, i, husage, hfinal.trans (hrange.trans ?_)⟩
  refine congrArg (BitRange.mk · _) ?_
  show (p.bitCursor.toNat + i * p.g.reportSize.toNat) % 2 ^ 32 % 2 ^ 16 = _
  rw [Nat.mod_eq_of_lt (by omega)] at hword
  rw [Nat.mod_eq_of_lt (b := 2 ^ 32) (by omega), Nat.mod_eq_of_lt (by omega)]

/-- Different axes have different usages. -/
theorem pointerUsage_inj (hs : s ≠ .buttons) (h : s.usage = s'.usage) : s = s' := by
  cases s <;> cases s' <;> first | rfl | exact absurd rfl hs | exact absurd h (by decide)

/-- Two fields of one item are axes in different slots. -/
theorem apart_of_one_item (hlen : m.length ≤ 512) (hne : s ≠ s')
    (h : RecordsPointer (reportItems m) s k) (h' : RecordsPointer (reportItems m) s' k) :
    let r := (runItems (reportItems m)).out.range s
    let r' := (runItems (reportItems m)).out.range s'
    r.start + r.len ≤ r'.start ∨ r'.start + r'.len ≤ r.start := by
  have hpage {s : PointerSel} (hrec : RecordsPointer (reportItems m) s k) :
      s = .buttons ↔ (before (reportItems m) k).g.usagePage = pageButton := by
    constructor
    · rintro rfl
      obtain ⟨⟨i, hslot⟩, -⟩ := recordsSlot_of_recordsPointer hrec
      exact (range_of_recordsSlot_buttons hslot).1
    · intro hbutton
      by_contra hs
      exact (slot_of_recordsPointer hlen hs hrec).1 hbutton
  have hs : s ≠ .buttons := fun hs => hne (hs.trans ((hpage h').mpr ((hpage h).mp hs)).symm)
  have hs' : s' ≠ .buttons := fun hs' => hne (((hpage h).mpr ((hpage h').mp hs')).trans hs'.symm)
  obtain ⟨-, i, husage, hrange⟩ := slot_of_recordsPointer hlen hs h
  obtain ⟨-, i', husage', hrange'⟩ := slot_of_recordsPointer hlen hs' h'
  have hslots : i ≠ i' := by
    rintro rfl
    exact hne (pointerUsage_inj hs (husage.trans husage'.symm))
  intro r r'
  have hr : r = _ := hrange
  have hr' : r' = _ := hrange'
  have hmul {a b : ℕ} (hab : a < b) (size : ℕ) : a * size + size ≤ b * size := by
    rw [← Nat.succ_mul]
    exact Nat.mul_le_mul_right _ hab
  rw [hr, hr']
  simp only
  rcases Nat.lt_or_gt_of_ne hslots with hlt | hgt
  · have hle := hmul hlt (before (reportItems m) k).g.reportSize.toNat
    exact .inl (by omega)
  · have hle := hmul hgt (before (reportItems m) k).g.reportSize.toNat
    exact .inr (by omega)

/-- The pointer fields of the map come from one stay of the Report ID. -/
def OneStay (its : List Item) : Prop :=
  ∀ s k, RecordsPointer its s k → ∀ s' k', RecordsPointer its s' k' → Stays its k k'

/-- So do the fields of a map that declares its Report ID once, in front of them. -/
theorem oneStay_of_declared (k₀ : ℕ) (id : U8)
    (hnone : ∀ s, ¬ ((before its k₀).out.get s).Present)
    (hid : ∀ j, j ≤ its.length → k₀ ≤ j → (before its j).g.reportId = id) : OneStay its := by
  intro s k hrec s' k' _
  refine stays_of_declared hid ?_
  by_contra hlt
  -- what is recorded in front of item `k₀` is present there
  have hpresent : ((runItems (its.take (k + 1))).out.get s).Present := hrec.2
  have hkeep := runItems_out_get_of_present ((its.take k₀).drop (k + 1)) hpresent
  rw [take_append_drop_take (by omega)] at hkeep
  exact hnone s ((congrArg Field.Present hkeep).mpr hrec.2)

/-- **The fields of one stay share no bit.** -/
theorem ranges_apart (hlen : m.length ≤ 512) (hstay : OneStay (reportItems m))
    (hsize : ButtonsSized (reportItems m)) (hne : s ≠ s')
    (h : ((runItems (reportItems m)).out.get s).Present)
    (h' : ((runItems (reportItems m)).out.get s').Present) :
    let r := (runItems (reportItems m)).out.range s
    let r' := (runItems (reportItems m)).out.range s'
    r.start + r.len ≤ r'.start ∨ r'.start + r'.len ≤ r.start := by
  obtain ⟨k, hrec⟩ := exists_recordsPointer h
  obtain ⟨k', hrec'⟩ := exists_recordsPointer h'
  have hin := insideItem_of_recordsPointer hlen hsize hrec
  have hin' := insideItem_of_recordsPointer hlen hsize hrec'
  rcases Nat.lt_trichotomy k k' with hlt | rfl | hgt
  · exact .inl (stop_le_start_of_insideItem hlt (hstay s k hrec s' k' hrec') hin hin')
  · exact apart_of_one_item hlen hne hrec hrec'
  · exact .inr (stop_le_start_of_insideItem hgt (hstay s' k' hrec' s k hrec) hin' hin)

/-- The places of a layout whose ranges lie apart. -/
theorem apart_of_ranges {l : ReportLayout} (hsound : ButtonsSound l)
    (h : ∀ s s', s ≠ s' → (l.get s).Present → (l.get s').Present →
      (l.range s).start + (l.range s).len ≤ (l.range s').start ∨
        (l.range s').start + (l.range s').len ≤ (l.range s).start) : l.Apart := by
  have haxes {s s' : PointerSel} (hs : s ∈ pointerAxes) (hs' : s' ∈ pointerAxes) (hne : s ≠ s') :
      (l.place (.axis s)).Apart (l.place (.axis s')) := by
    have hplain {s : PointerSel} (hs : s ∈ pointerAxes) :
        l.range s = ⟨(l.get s).bitOffset.toNat, (l.get s).bitSize.toNat⟩ := by
      have hnot : s ≠ .buttons := by
        rintro rfl
        exact absurd hs (by decide)
      rw [ReportLayout.range, if_neg hnot]
    by_cases hp : (l.get s).Present
    · by_cases hp' : (l.get s').Present
      · have happart := h s s' hne hp hp'
        rw [hplain hs, hplain hs'] at happart
        exact .inr (.inr happart)
      · exact .inr (.inl (congrArg BitVec.toNat (not_not.mp hp')))
    · exact .inl (congrArg BitVec.toNat (not_not.mp hp))
  have hbutton {s : PointerSel} (hs : s ∈ pointerAxes) {i : ℕ} (hi : i < l.buttonCount.toNat) :
      (l.place (.axis s)).Apart (l.place (.button i)) := by
    have hcount : l.buttonCount ≠ 0 := fun h0 => by
      rw [h0] at hi
      exact absurd hi (Nat.not_lt_zero i)
    have hpresent := hsound.present hcount
    have hnot : s ≠ .buttons := by
      rintro rfl
      exact absurd hs (by decide)
    by_cases hp : (l.get s).Present
    · have happart := h s .buttons hnot hp hpresent
      have hend := buttonField_end_le hi
      have hbuttons : l.get .buttons = l.buttons := rfl
      simp only [ReportLayout.range, if_neg hnot, if_true, hbuttons] at happart
      rw [buttonsEnd, buttonStride_of_present hpresent] at hend
      unfold Region.Apart Region.stop ReportLayout.place buttonBase
      rw [buttonStride_of_present hpresent]
      simp only
      omega
    · exact .inl (congrArg BitVec.toNat (not_not.mp hp))
  refine List.pairwise_append.mpr ⟨?_, ?_, ?_⟩
  · refine List.pairwise_map.mpr (List.Pairwise.imp_of_mem ?_
      (show pointerAxes.Pairwise (· ≠ ·) by decide))
    exact fun hs hs' hne => haxes hs hs' hne
  · refine List.pairwise_map.mpr (List.pairwise_lt_range.imp ?_)
    exact fun hlt => apart_buttons l hlt.ne
  · intro a ha b hb
    obtain ⟨s, hs, rfl⟩ := List.mem_map.mp ha
    obtain ⟨i, hi, rfl⟩ := List.mem_map.mp hb
    exact hbutton hs (List.mem_range.mp hi)

/-- **The fields of the layout lie apart** where they come from one stay of the Report ID. -/
theorem apart_of_oneStay (hlen : m.length ≤ 512) (hstay : OneStay (reportItems m))
    (hsize : ButtonsSized (reportItems m)) : (zmkHidParseReportMap m).2.Apart := by
  apply apart_of_ranges (buttonsSound_zmkHidParseReportMap m)
  rw [zmkHidParseReportMap_snd]
  have hget (s : PointerSel) (valid : Bool) : ReportLayout.get
      { (runItems (reportItems m)).out with valid := valid } s =
        (runItems (reportItems m)).out.get s := by
    cases s <;> rfl
  intro s s' hne hp hp'
  rw [hget] at hp hp'
  simp only [ReportLayout.range, hget]
  exact ranges_apart hlen hstay hsize hne hp hp'

/-- **The reports that such a map lets through are those in range.**  In a map whose pointer
fields come from one stay of the Report ID, with a Report Size for the buttons and widths that
the decoder handles, a payload of any sufficient length can carry a report exactly when the
report is in range. -/
theorem carries_iff_inRange (hlen : m.length ≤ 512) (hacc : (zmkHidParseReportMap m).1 = 0)
    (hstay : OneStay (reportItems m)) (hsize : ButtonsSized (reportItems m))
    (haxes : ∀ s ∈ pointerAxes, ((zmkHidParseReportMap m).2.get s).bitSize.toNat ≤ 32)
    (hstride : (zmkHidParseReportMap m).2.buttons.bitSize.toNat ≤ 32) {n : ℕ}
    (hn : (payloadBits (zmkHidParseReportMap m).2 + 7) / 8 ≤ n) (r : PointerReport) :
    (∃ p, p.length = n ∧ zmkHidDecodeReport (zmkHidParseReportMap m).2 p = some r) ↔
      (zmkHidParseReportMap m).2.InRange r := by
  have hsound := buttonsSound_zmkHidParseReportMap m
  have hsized : (zmkHidParseReportMap m).2.Sized := ⟨haxes, hstride, hsound.count_le⟩
  constructor
  · rintro ⟨p, -, hdecode⟩
    exact inRange_of_decode hsized hdecode
  · intro hr
    have hapart : (zmkHidParseReportMap m).2.Apart := apart_of_oneStay hlen hstay hsize
    refine ⟨_, length_bytesOf n _, carries_of_apart (zmkHidParseReportMap_valid hacc) hsized hapart
      hr ?_⟩
    omega

end Pointer

/-- A mouse with five buttons, X and Y of twelve bits, and a wheel, under Report ID 2. -/
def packedMap : List U8 :=
  [0x05, 0x01, 0x09, 0x02, 0xa1, 0x01, 0x85, 0x02, 0x09, 0x01, 0xa1, 0x00, 0x05, 0x09, 0x19, 0x01,
   0x29, 0x05, 0x15, 0x00, 0x25, 0x01, 0x75, 0x01, 0x95, 0x05, 0x81, 0x02, 0x75, 0x03, 0x95, 0x01,
   0x81, 0x03, 0x05, 0x01, 0x09, 0x30, 0x09, 0x31, 0x16, 0x00, 0xf8, 0x26, 0xff, 0x07, 0x75, 0x0c,
   0x95, 0x02, 0x81, 0x06, 0x09, 0x38, 0x15, 0x81, 0x25, 0x7f, 0x75, 0x08, 0x95, 0x01, 0x81, 0x06,
   0xc0, 0xc0]

/-- The mouse can say that it moves as far as its twelve bits go, and no further. -/
theorem packedMap_carries :
    (∃ p, p.length = 5 ∧ zmkHidDecodeReport (zmkHidParseReportMap packedMap).2 p =
      some ⟨-2048, 2047, -1, 0, 0b10101⟩) ∧
    ¬ ∃ p, p.length = 5 ∧ zmkHidDecodeReport (zmkHidParseReportMap packedMap).2 p =
      some ⟨2048, 0, 0, 0, 0⟩ := by
  have hstay : OneStay (reportItems packedMap) := by
    refine oneStay_of_declared 4 2 ?_ (by decide +kernel)
    intro s
    cases s <;> decide +kernel
  have hsize : ButtonsSized (reportItems packedMap) := by
    intro k hrec
    obtain ⟨it, hit, -⟩ := item_of_recordsPointer hrec
    have hlt : k < (reportItems packedMap).length := (List.getElem?_eq_some_iff.mp hit).1
    have hall : ∀ k < (reportItems packedMap).length,
        ((before (reportItems packedMap) k).out.get .buttons).Present ∨
          ¬ ((before (reportItems packedMap) (k + 1)).out.get .buttons).Present ∨
            (before (reportItems packedMap) k).g.reportSize ≠ 0 := by decide +kernel
    exact ((hall k hlt).resolve_left hrec.1).resolve_left (not_not.mpr hrec.2)
  have hcarries := carries_iff_inRange (m := packedMap) (n := 5) (by decide) (by decide +kernel)
    hstay hsize (by decide +kernel) (by decide +kernel) (by decide +kernel)
  exact ⟨(hcarries _).mpr (by decide +kernel), fun h => absurd ((hcarries _).mp h)
    (by decide +kernel)⟩

/-! ### Keyboards -/

section Keyboard

variable {m : List U8} {s s' : KbdSel}

/-- The count of a recorded array is kept. -/
theorem assignKbdInput_keyCount_of_present {w : Walk} {b flags : U32} {o : KeyboardLayout}
    (h : o.keys.Present) : (assignKbdInput w b flags o).keyCount = o.keyCount := by
  have hlock : (lockKbdReport w o).keys = o.keys ∧
      (lockKbdReport w o).keyCount = o.keyCount := by
    unfold lockKbdReport
    split
    · exact ⟨rfl, rfl⟩
    · exact ⟨rfl, rfl⟩
  unfold assignKbdInput assignModifiers assignKeys
  split
  · split
    · exact hlock.2
    · exact hlock.2
  · rw [if_neg fun hc => h (hlock.1 ▸ hc.2.1)]
    exact hlock.2

/-- What an item has recorded of a field stands in the final layout. -/
theorem range_of_recordsKbd (h : RecordsKbd its s k) :
    (runItems its).outKbd.range s = (before its (k + 1)).outKbd.range s := by
  have hall := @runItems_append_eq _ (fun p => (p.outKbd.get s, p.outKbd.range s))
    (its.take (k + 1)) (fun p it hp => by
      have hpresent : (p.outKbd.get s).Present := by
        rw [(Prod.mk.inj hp).1]
        exact h.2
      have hget : (handleItem p it).outKbd.get s = p.outKbd.get s :=
        handleItem_outKbd_get_of_present hpresent
      refine Prod.ext hget ?_
      show (handleItem p it).outKbd.range s = p.outKbd.range s
      rw [KeyboardLayout.range, KeyboardLayout.range, hget]
      by_cases hs : s = .keys
      · subst hs
        have hcount : (handleItem p it).outKbd.keyCount = p.outKbd.keyCount := by
          rw [handleItem_outKbd]
          split
          · exact assignKbdInput_keyCount_of_present hpresent
          · rfl
        rw [hcount]
      · rw [if_neg hs, if_neg hs]) (its.drop (k + 1))
  rw [List.take_append_drop] at hall
  exact (Prod.mk.inj hall).2

/-- A field that is present was recorded from some item. -/
theorem exists_recordsKbd (h : ((runItems its).outKbd.get s).Present) :
    ∃ k, RecordsKbd its s k := by
  have hstart : ¬ (Parser.start.outKbd.get s).Present := by
    cases s <;> exact Field.not_present_zero
  obtain ⟨k, it, hit, habs, hnew⟩ :=
    exists_item_of_new (K := fun p => (p.outKbd.get s).Present) hstart h
  exact ⟨k, habs, (before_succ hit).symm ▸ hnew⟩

/-- The items that record a field have a Report Size of their own. -/
def KbdFieldsSized (its : List Item) : Prop :=
  ∀ s k, RecordsKbd its s k → (before its k).g.reportSize ≠ 0

/-- The keyboard fields of the map come from one stay of the Report ID. -/
def KbdOneStay (its : List Item) : Prop :=
  ∀ s k, RecordsKbd its s k → ∀ s' k', RecordsKbd its s' k' → Stays its k k'

/-- So do the fields of a map that declares its Report ID once, in front of them. -/
theorem kbdOneStay_of_declared (k₀ : ℕ) (id : U8)
    (hnone : ∀ s, ¬ ((before its k₀).outKbd.get s).Present)
    (hid : ∀ j, j ≤ its.length → k₀ ≤ j → (before its j).g.reportId = id) : KbdOneStay its := by
  intro s k hrec s' k' _
  refine stays_of_declared hid ?_
  by_contra hlt
  have hpresent : ((runItems (its.take (k + 1))).outKbd.get s).Present := hrec.2
  have hkeep := runItems_outKbd_get_of_present ((its.take k₀).drop (k + 1)) hpresent
  rw [take_append_drop_take (by omega)] at hkeep
  exact hnone s ((congrArg Field.Present hkeep).mpr hrec.2)

/-- **A recorded field lies in its item**, which records no other. -/
theorem insideItem_of_recordsKbd (hlen : m.length ≤ 512) (hsize : KbdFieldsSized (reportItems m))
    (h : RecordsKbd (reportItems m) s k) :
    InsideItem (reportItems m) k ((runItems (reportItems m)).outKbd.range s) ∧
      ∃ it, (reportItems m)[k]? = some it ∧ s = kbdTarget (itemU it.data) := by
  obtain ⟨it, hit, hin, hkbd⟩ := item_of_recordsKbd h
  have hsite := @kbdSite (itemU it.data) _ _ h.1
  have hout : (before (reportItems m) (k + 1)).outKbd =
      assignKbdInput (before (reportItems m) k).toWalk (before (reportItems m) k).bitCursor
        (itemU it.data) (before (reportItems m) k).outKbd := by
    rw [before_succ hit, handleItem_outKbd, if_pos ⟨hin, hkbd⟩]
  refine ⟨?_, it, hit, ?_⟩
  · have hplaced := (hsite.placed_iff (toNat_bitCursor_eq_min ((reportItems m).take k))).mpr
      fun n hn => endFits_of_size hlen (hsize s k h) (hsite.ends_le n hn)
    rw [← exactCursor_succ hit hin, ← hout] at hplaced
    rw [range_of_recordsKbd h]
    exact hplaced h.2
  · by_contra hs
    have hnew := h.2
    rw [hout, assignKbdInput_get_of_ne_target hs] at hnew
    exact h.1 hnew

/-- **The modifiers and the array of one stay share no bit.** -/
theorem kbdRanges_apart (hlen : m.length ≤ 512) (hstay : KbdOneStay (reportItems m))
    (hsize : KbdFieldsSized (reportItems m)) (hne : s ≠ s')
    (h : ((runItems (reportItems m)).outKbd.get s).Present)
    (h' : ((runItems (reportItems m)).outKbd.get s').Present) :
    let r := (runItems (reportItems m)).outKbd.range s
    let r' := (runItems (reportItems m)).outKbd.range s'
    r.start + r.len ≤ r'.start ∨ r'.start + r'.len ≤ r.start := by
  obtain ⟨k, hrec⟩ := exists_recordsKbd h
  obtain ⟨k', hrec'⟩ := exists_recordsKbd h'
  obtain ⟨hin, it, hit, htarget⟩ := insideItem_of_recordsKbd hlen hsize hrec
  obtain ⟨hin', it', hit', htarget'⟩ := insideItem_of_recordsKbd hlen hsize hrec'
  rcases Nat.lt_trichotomy k k' with hlt | rfl | hgt
  · exact .inl (stop_le_start_of_insideItem hlt (hstay s k hrec s' k' hrec') hin hin')
  · obtain rfl : it = it' := Option.some_inj.mp (hit.symm.trans hit')
    exact absurd (htarget.trans htarget'.symm) hne
  · exact .inr (stop_le_start_of_insideItem hgt (hstay s' k' hrec' s k hrec) hin' hin)

/-- No modifier run is signed. -/
theorem modifiers_plain (its : List Item) : (runItems its).outKbd.modifiers.isSigned = false := by
  refine runItems_outKbd_invariant (K := fun o => o.modifiers.isSigned = false) rfl ?_
  intro pre _ flags o ho
  have hlock : (lockKbdReport (walkItems pre) o).modifiers = o.modifiers := by
    unfold lockKbdReport
    split <;> rfl
  unfold assignKbdInput assignModifiers assignKeys
  split
  · split
    · rfl
    · rw [hlock, ho]
  · split
    · rw [hlock, ho]
    · rw [hlock, ho]

/-- **The reports of keys that such a map lets through are those in range.** -/
theorem kbdCarries_iff_inRange (hlen : m.length ≤ 512)
    (hacc : (zmkHidParseKeyboardReportMap m).1 = 0) (hstay : KbdOneStay (reportItems m))
    (hsize : KbdFieldsSized (reportItems m))
    (hkeys : (zmkHidParseKeyboardReportMap m).2.keys.bitSize.toNat ≤ 8) {n : ℕ}
    (hn : (kbdPayloadBits (zmkHidParseKeyboardReportMap m).2 + 7) / 8 ≤ n) (r : KeyboardReport) :
    (∃ p, p.length = n ∧
      zmkHidDecodeKeyboardReport (zmkHidParseKeyboardReportMap m).2 p = some r) ↔
        (zmkHidParseKeyboardReportMap m).2.InRange r := by
  have hsound := kbdSound_zmkHidParseKeyboardReportMap m
  have hsized : (zmkHidParseKeyboardReportMap m).2.Sized := by
    refine ⟨hsound.modifiers_le, ?_, hkeys, ?_⟩
    · rw [zmkHidParseKeyboardReportMap_snd]
      exact modifiers_plain _
    · rw [zmkHidParseKeyboardReportMap_snd]
      exact keysFit_runItems hlen
  constructor
  · rintro ⟨p, -, hdecode⟩
    exact kbdInRange_of_decode hsized hdecode
  · intro hr
    have hapart : (zmkHidParseKeyboardReportMap m).2.Apart := by
      rw [zmkHidParseKeyboardReportMap_snd]
      by_cases hp : (runItems (reportItems m)).outKbd.modifiers.Present
      · by_cases hp' : (runItems (reportItems m)).outKbd.keys.Present
        · have happart := kbdRanges_apart hlen hstay hsize
            (by decide : KbdSel.modifiers ≠ .keys) hp hp'
          exact .inr (.inr happart)
        · refine .inr (.inl ?_)
          show _ * (runItems (reportItems m)).outKbd.keys.bitSize.toNat = 0
          rw [not_not.mp hp']
          exact Nat.mul_zero _
      · exact .inl (congrArg BitVec.toNat (not_not.mp hp))
    refine ⟨_, length_bytesOf n _, kbdCarries_of_apart (zmkHidParseKeyboardReportMap_valid hacc)
      hsized hapart hr ?_⟩
    omega

end Keyboard

/-- The boot keyboard can hold six keys and its modifiers, but says nothing of a seventh. -/
theorem bootKeyboardMap_carries :
    (∃ p, p.length = 8 ∧ zmkHidDecodeKeyboardReport (zmkHidParseKeyboardReportMap bootKeyboardMap).2
      p = some ⟨0b10000001, [4, 5, 6, 7, 8, 255]⟩) ∧
    ¬ ∃ p, p.length = 8 ∧ zmkHidDecodeKeyboardReport
      (zmkHidParseKeyboardReportMap bootKeyboardMap).2 p = some ⟨0, [4, 5, 6, 7, 8, 9, 10]⟩ := by
  have hstay : KbdOneStay (reportItems bootKeyboardMap) := by
    refine kbdOneStay_of_declared 0 0 ?_ (by decide +kernel)
    intro s
    cases s <;> decide
  have hsize : KbdFieldsSized (reportItems bootKeyboardMap) := by
    intro s k hrec
    obtain ⟨it, hit, -⟩ := item_of_recordsKbd hrec
    have hlt := (List.getElem?_eq_some_iff.mp hit).1
    have hall : ∀ s ∈ [KbdSel.modifiers, .keys], ∀ k < (reportItems bootKeyboardMap).length,
        ((before (reportItems bootKeyboardMap) k).outKbd.get s).Present ∨
          ¬ ((before (reportItems bootKeyboardMap) (k + 1)).outKbd.get s).Present ∨
            (before (reportItems bootKeyboardMap) k).g.reportSize ≠ 0 := by decide +kernel
    have hmem : s ∈ [KbdSel.modifiers, .keys] := by cases s <;> decide
    exact ((hall s hmem k hlt).resolve_left hrec.1).resolve_left (not_not.mpr hrec.2)
  have hcarries := kbdCarries_iff_inRange (m := bootKeyboardMap) (n := 8) (by decide)
    (by decide +kernel) hstay hsize (by decide +kernel) (by decide +kernel)
  refine ⟨(hcarries _).mpr ⟨by decide +kernel, by decide +kernel, by decide +kernel⟩, ?_⟩
  exact fun h => absurd ((hcarries _).mp h).length (by decide +kernel)

end BleHidHost
