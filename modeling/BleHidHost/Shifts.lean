import BleHidHost.Coherence
import BleHidHost.LayoutBounds
import BleHidHost.Slicing

/-!
# Shift counts of the decoders

A shift of a 32-bit value by 32 or more is undefined in C.  The decoders shift by the
places of a field's bits, and the width of a field comes from the Report Map, where the
parser does not bound it.

## Main definitions

* `NarrowFields`, `NarrowKeys` — the Input items that declare the fields of a map have
  Report Sizes of at most 32.

## Main results

* `pointerShifts_lt_iff`, `keyboardShifts_lt_iff` — no shift is too wide exactly when no
  field is.
* `shifts_lt_iff` — **the decoders shift by less than 32 exactly when the payload is too
  short to be decoded or the map declares no field wider than 32 bits.**
-/

namespace BleHidHost

open Lib

/-! ### The shifts of one field -/

/-- A round shifts by its place, and by less than a byte. -/
theorem Round.shifts_lt {p : List U8} {r : Round} {n : ℕ} (hn : 8 ≤ n) (h : r.place < n) :
    ∀ s ∈ r.shifts p, s < n := by
  intro s hs
  unfold Round.shifts at hs
  split at hs
  · simp only [List.mem_cons, List.not_mem_nil, or_false] at hs
    rcases hs with rfl | rfl
    · have hmod : r.bit &&& 7 = r.bit % 8 := Nat.and_two_pow_sub_one_eq_mod r.bit 3
      omega
    · exact h
  · exact absurd hs List.not_mem_nil

/-- The sign extension is guarded. -/
theorem signShifts_lt (f : Field) (v : U32) : ∀ s ∈ signShifts f v, s < 32 := by
  intro s hs
  unfold signShifts at hs
  split at hs
  · next hc =>
    have hsize : f.bitSize.toNat < 32 := BitVec.lt_def.mp hc.2
    split at hs
    · simp only [List.mem_cons, List.not_mem_nil, or_false] at hs
      omega
    · rw [List.mem_singleton] at hs
      omega
  · exact absurd hs List.not_mem_nil

/-- A field of at most 32 bits is gathered without a wide shift. -/
theorem fieldShifts_lt {p : List U8} {f : Field} (h : f.bitSize.toNat ≤ 32) :
    ∀ s ∈ fieldShifts p f, s < 32 := by
  intro s hs
  unfold fieldShifts at hs
  split at hs
  · exact absurd hs List.not_mem_nil
  · rcases List.mem_append.mp hs with hs | hs
    · obtain ⟨r, hr, hs⟩ := List.mem_flatMap.mp hs
      have hplace := (mem_fieldRounds hr).2.2
      exact Round.shifts_lt (by decide) (by omega) s hs
    · exact signShifts_lt f _ s hs

/-- **A wider field that lies in the payload is gathered with a shift by 32.** -/
theorem mem_fieldShifts_of_wide {p : List U8} {f : Field} (h : 32 < f.bitSize.toNat)
    (hlen : f.endBit ≤ 8 * p.length) : 32 ∈ fieldShifts p f := by
  have h0 : f.bitSize ≠ 0 := fun h0 => by
    rw [h0] at h
    exact absurd h (by decide)
  unfold Field.endBit at hlen
  have hin : Round.Inside p ⟨f.bitOffset.toNat, 32⟩ := by
    rw [Round.inside_mk_iff]
    omega
  rw [fieldShifts, if_neg h0, List.mem_append, List.mem_flatMap]
  refine Or.inl ⟨_, mem_fieldRounds_of_lt h (by omega), ?_⟩
  rw [Round.shifts, if_pos hin]
  exact List.mem_cons_of_mem _ List.mem_cons_self

/-- A button of at most 32 bits is gathered, and one of the first 16 marked, without a
wide shift. -/
theorem buttonShifts_lt {l : ReportLayout} {p : List U8} {i : ℕ} (h : buttonStride l ≤ 32)
    (hi : i < maxButtons) : ∀ s ∈ buttonShifts l p i, s < 32 := by
  intro s hs
  rcases List.mem_append.mp hs with hs | hs
  · obtain ⟨r, hr, hs⟩ := List.mem_flatMap.mp hs
    have hplace := (mem_buttonRounds.mp hr).2
    exact Round.shifts_lt (by decide) (by omega) s hs
  · split at hs
    · rw [List.mem_singleton] at hs
      have hmax : maxButtons = 16 := rfl
      omega
    · exact absurd hs List.not_mem_nil

/-- A wider button that lies in the payload is gathered with a shift by 32. -/
theorem mem_buttonShifts_of_wide {l : ReportLayout} {p : List U8} {i : ℕ}
    (h : 32 < buttonStride l) (hlen : buttonBase l i + buttonStride l ≤ 8 * p.length) :
    32 ∈ buttonShifts l p i := by
  have hin : Round.Inside p ⟨buttonBase l i, 32⟩ := by
    rw [Round.inside_mk_iff]
    omega
  rw [buttonShifts, List.mem_append, List.mem_flatMap]
  refine Or.inl ⟨⟨buttonBase l i, 32⟩, mem_buttonRounds.mpr ⟨rfl, h⟩, ?_⟩
  rw [Round.shifts, if_pos hin]
  exact List.mem_cons_of_mem _ List.mem_cons_self

/-! ### The shifts of a report -/

/-- **No shift of the pointer decoder is too wide exactly when no field is**, on a payload
that is long enough. -/
theorem pointerShifts_lt_iff {l : ReportLayout} (hvalid : l.valid) (h : ButtonsSound l)
    {p : List U8} (hgate : (payloadBits l + 7) / 8 ≤ p.length) :
    (∀ s ∈ pointerShifts l p, s < 32) ↔
      (∀ f ∈ [l.x, l.y, l.wheel, l.hwheel], f.bitSize.toNat ≤ 32) ∧
        (l.buttonCount ≠ 0 → l.buttons.bitSize.toNat ≤ 32) := by
  have hshifts : pointerShifts l p = [l.x, l.y, l.wheel, l.hwheel].flatMap (fieldShifts p) ++
      (List.range (min l.buttonCount.toNat maxButtons)).flatMap (buttonShifts l p) := by
    rw [pointerShifts_eq, if_neg (not_not.mpr hvalid), if_neg (Nat.not_lt.mpr hgate)]
  obtain ⟨haxes, hbuttons⟩ := (payloadBits_le_iff l (payloadBits l)).mp le_rfl
  rw [hshifts]
  constructor
  · intro hlt
    constructor
    · intro f hf
      by_contra hwide
      have hpres : f.Present := fun h0 => hwide (by rw [h0]; decide)
      have hend := haxes f hf hpres
      have hmem := mem_fieldShifts_of_wide (p := p) (Nat.not_le.mp hwide) (by omega)
      exact absurd (hlt 32 (List.mem_append_left _ (List.mem_flatMap.mpr ⟨f, hf, hmem⟩)))
        (lt_irrefl 32)
    · -- the first button is gathered first
      intro hc
      by_contra hwide
      have hstride := buttonStride_of_present (h.present hc)
      have hpos : 0 < l.buttonCount.toNat :=
        Nat.pos_of_ne_zero fun h0 => hc (BitVec.toNat_inj.mp h0)
      have hend := le_trans (buttonField_end_le hpos) (hbuttons hc)
      have hmem := mem_buttonShifts_of_wide (l := l) (p := p) (i := 0) (by omega)
        (by unfold buttonBase; omega)
      have hfirst : 0 ∈ List.range (min l.buttonCount.toNat maxButtons) :=
        List.mem_range.mpr (lt_min hpos (by decide))
      exact absurd (hlt 32 (List.mem_append_right _ (List.mem_flatMap.mpr ⟨0, hfirst, hmem⟩)))
        (lt_irrefl 32)
  · rintro ⟨hnarrow, hbtn⟩ s hs
    rcases List.mem_append.mp hs with hs | hs
    · obtain ⟨f, hf, hs⟩ := List.mem_flatMap.mp hs
      exact fieldShifts_lt (hnarrow f hf) s hs
    · obtain ⟨i, hi, hs⟩ := List.mem_flatMap.mp hs
      have hi := lt_min_iff.mp (List.mem_range.mp hi)
      have hc : l.buttonCount ≠ 0 := fun h0 => by
        rw [h0] at hi
        exact absurd hi.1 (Nat.not_lt_zero i)
      exact buttonShifts_lt (buttonStride_le (hbtn hc) (by decide)) hi.2 s hs

/-- **No shift of the keyboard decoder is too wide exactly when no keycode is**, on a
payload that is long enough. -/
theorem keyboardShifts_lt_iff {l : KeyboardLayout} (hvalid : l.valid) (h : KbdSound l)
    {p : List U8} (hgate : (kbdPayloadBits l + 7) / 8 ≤ p.length) :
    (∀ s ∈ keyboardShifts l p, s < 32) ↔ l.keys.bitSize.toNat ≤ 32 := by
  have hshifts : keyboardShifts l p =
      fieldShifts p l.modifiers ++ (keyEntries l p).flatMap (fieldShifts p) := by
    rw [keyboardShifts_eq, if_neg (not_not.mpr hvalid), if_neg (Nat.not_lt.mpr hgate)]
  rw [hshifts]
  constructor
  · -- the first entry is always read
    intro hlt
    by_contra hwide
    have hpres : l.keys.Present := fun h0 => hwide (by rw [h0]; decide)
    have hc := h.keyCount_ne_zero_iff.mpr hpres
    have hend := ((kbdPayloadBits_le_iff l _).mp le_rfl).2 hc hpres
    have hpos : 0 < l.keyCount.toNat := Nat.pos_of_ne_zero fun h0 => hc (BitVec.toNat_inj.mp h0)
    have hmul : 1 * l.keys.bitSize.toNat ≤ l.keyCount.toNat * l.keys.bitSize.toNat :=
      Nat.mul_le_mul_right _ hpos
    have hoff : (keyEntry l 0).bitOffset = l.keys.bitOffset := by
      simp [keyEntry]
    have hsize : (keyEntry l 0).bitSize = l.keys.bitSize := rfl
    have hmem := mem_fieldShifts_of_wide (p := p) (f := keyEntry l 0)
      (by rw [hsize]; exact Nat.not_le.mp hwide)
      (by rw [Field.endBit, hoff, hsize]; omega)
    exact absurd (hlt 32 (List.mem_append_right _
      (List.mem_flatMap.mpr ⟨_, keyEntry_zero_mem p hc, hmem⟩))) (lt_irrefl 32)
  · intro hnarrow s hs
    rcases List.mem_append.mp hs with hs | hs
    · exact fieldShifts_lt (by have := h.modifiers_le; omega) s hs
    · obtain ⟨f, hf, hs⟩ := List.mem_flatMap.mp hs
      obtain ⟨i, -, rfl⟩ := mem_keyEntries hf
      exact fieldShifts_lt (f := keyEntry l i) hnarrow s hs

/-! ### What the map declares -/

/-- The first Input item to declare a pointer field, a button run of no buttons aside, has
a Report Size of at most 32. -/
def NarrowFields (its : List Item) : Prop :=
  ∀ s, ∀ w ∈ (pointerInputs its).find? (declaresField · s),
    (s = .buttons → w.g.reportCount ≠ 0) → w.g.reportSize.toNat ≤ 32

/-- The first Input item to declare the keycode array has a Report Size of at most 32. -/
def NarrowKeys (its : List Item) : Prop :=
  ∀ w ∈ (kbdInputs its).find? (declaresKbdField · .keys), w.1.g.reportSize.toNat ≤ 32

/-- A default width of at most 32 does not matter. -/
theorem toNat_sizeOr_le_iff (w : Walk) {width : U8} (h : width.toNat ≤ 32) :
    (sizeOr w width).toNat ≤ 32 ↔ w.g.reportSize.toNat ≤ 32 := by
  unfold sizeOr
  split
  · rfl
  · next h0 =>
    rw [not_not.mp h0]
    exact iff_of_true h (by decide)

/-- The width a pointer field is recorded with. -/
theorem toNat_bitSize_le_iff_of_recordedAt {its : List Item} {s : PointerSel} {k i : ℕ}
    (h : RecordedAt its s k i) : ((runItems its).out.get s).bitSize.toNat ≤ 32 ↔
      (before its k).g.reportSize.toNat ≤ 32 := by
  rw [runItems_out_get_of_recordedAt h]
  simp only
  split
  · exact toNat_sizeOr_le_iff _ (by decide)
  · rfl

/-- The fields of a pointer layout are narrow when their first declarations are. -/
theorem narrowFields_iff (its : List Item) :
    NarrowFields its ↔ ∀ s, (s = .buttons → (runItems its).out.buttonCount ≠ 0) →
      ((runItems its).out.get s).bitSize.toNat ≤ 32 := by
  constructor
  · intro hnarrow s hs
    by_cases hpres : ((runItems its).out.get s).Present
    · obtain ⟨k, i, hk⟩ := exists_recordedAt hpres
      rw [toNat_bitSize_le_iff_of_recordedAt hk]
      refine hnarrow s _ (find?_declaresField_of_recordedAt hk) ?_
      rintro rfl
      rw [← buttonRunCount_ne_zero, ← runItems_out_buttonCount_of_recordedAt hk]
      exact hs rfl
    · rw [not_not.mp hpres]
      decide
  · -- the first declaration is the one that is recorded
    intro hlayout s w hw hs
    obtain ⟨k, i, hk, rfl⟩ := exists_recordedAt_of_find? hw
    rw [← toNat_bitSize_le_iff_of_recordedAt hk]
    refine hlayout s ?_
    rintro rfl
    rw [runItems_out_buttonCount_of_recordedAt hk, buttonRunCount_ne_zero]
    exact hs rfl

/-- The keycodes of a keyboard layout are narrow when their first declaration is. -/
theorem narrowKeys_iff (its : List Item) :
    NarrowKeys its ↔ (runItems its).outKbd.keys.bitSize.toNat ≤ 32 := by
  have hwidth : ∀ {k}, KbdRecordedAt its .keys k →
      ((runItems its).outKbd.keys.bitSize.toNat ≤ 32 ↔
        (before its k).g.reportSize.toNat ≤ 32) := by
    intro k hk
    have hget : (runItems its).outKbd.keys = _ := (runItems_outKbd_get_of_recordedAt hk).2
    rw [hget]
    exact toNat_sizeOr_le_iff _ (by decide)
  by_cases hpres : ((runItems its).outKbd.get .keys).Present
  · obtain ⟨k, hk⟩ := exists_kbdRecordedAt hpres
    obtain ⟨flags, hfind⟩ := find?_declaresKbdField_of_recordedAt hk
    rw [NarrowKeys, hfind, hwidth hk]
    simp
  · -- no item declares the array
    have hsize : (runItems its).outKbd.keys.bitSize = 0 := not_not.mp hpres
    rw [hsize]
    refine iff_of_true ?_ (by decide)
    intro w hw
    exfalso
    apply hpres
    have hrun : kbdRecorder.present (runItems its).outKbd .keys = true := by
      rw [runItems_outKbd_eq_run, Recorder.present_run, Bool.or_eq_true, List.any_eq_true]
      exact Or.inr ⟨w, List.mem_of_find?_eq_some hw,
        List.find?_some (p := (declaresKbdField · .keys)) hw⟩
    exact of_decide_eq_true hrun

/-- **The decoders of an accepted map shift by less than 32 exactly when the payload is too
short, or no field of the map is declared wider than 32 bits.** -/
theorem shifts_lt_iff (m : List U8) (p : List U8) :
    ((zmkHidParseReportMap m).1 = 0 →
      ((∀ s ∈ pointerShifts (zmkHidParseReportMap m).2 p, s < 32) ↔
        p.length < (payloadBits (zmkHidParseReportMap m).2 + 7) / 8 ∨
          NarrowFields (reportItems m))) ∧
    ((zmkHidParseKeyboardReportMap m).1 = 0 →
      ((∀ s ∈ keyboardShifts (zmkHidParseKeyboardReportMap m).2 p, s < 32) ↔
        p.length < (kbdPayloadBits (zmkHidParseKeyboardReportMap m).2 + 7) / 8 ∨
          NarrowKeys (reportItems m))) := by
  constructor
  · intro hacc
    have hvalid := zmkHidParseReportMap_valid hacc
    by_cases hgate : p.length < (payloadBits (zmkHidParseReportMap m).2 + 7) / 8
    · -- nothing is shifted
      rw [pointerShifts_eq, if_neg (not_not.mpr hvalid), if_pos hgate]
      exact iff_of_true (fun s hs => absurd hs List.not_mem_nil) (Or.inl hgate)
    · rw [or_iff_right hgate, narrowFields_iff,
        pointerShifts_lt_iff hvalid (buttonsSound_zmkHidParseReportMap m) (Nat.not_lt.mp hgate),
        zmkHidParseReportMap_snd]
      simp only [List.forall_mem_cons]
      constructor
      · rintro ⟨⟨hx, hy, hw, hh, -⟩, hb⟩ s hs
        cases s with
        | x => exact hx
        | y => exact hy
        | wheel => exact hw
        | hwheel => exact hh
        | buttons => exact hb (hs rfl)
      · intro h
        exact ⟨⟨h .x (by simp), h .y (by simp), h .wheel (by simp), h .hwheel (by simp), by simp⟩,
          fun hc => h .buttons fun _ => hc⟩
  · intro hacc
    have hvalid := zmkHidParseKeyboardReportMap_valid hacc
    by_cases hgate : p.length < (kbdPayloadBits (zmkHidParseKeyboardReportMap m).2 + 7) / 8
    · rw [keyboardShifts_eq, if_neg (not_not.mpr hvalid), if_pos hgate]
      exact iff_of_true (fun s hs => absurd hs List.not_mem_nil) (Or.inl hgate)
    · rw [or_iff_right hgate, narrowKeys_iff,
        keyboardShifts_lt_iff hvalid (kbdSound_zmkHidParseKeyboardReportMap m)
          (Nat.not_lt.mp hgate), zmkHidParseKeyboardReportMap_snd]

/-- A mouse whose X and Y have 40 bits each. -/
def wideMap : List U8 :=
  [0x05, 0x01, 0x09, 0x02, 0xa1, 0x01, 0x09, 0x30, 0x09, 0x31, 0x15, 0x81, 0x75, 0x28, 0x95, 0x02,
   0x81, 0x06, 0xc0]

/-- Its first report is decoded with shifts by more than 31. -/
theorem wideMap_shifts :
    (zmkHidParseReportMap wideMap).1 = 0 ∧
      ¬ ∀ s ∈ pointerShifts (zmkHidParseReportMap wideMap).2 [0, 0, 0, 0, 1, 0, 0, 0, 0, 0],
        s < 32 := by
  decide +kernel

/-- The boot keyboard is narrow. -/
theorem bootKeyboardMap_shifts :
    (zmkHidParseKeyboardReportMap bootKeyboardMap).1 = 0 ∧
      ∀ s ∈ keyboardShifts (zmkHidParseKeyboardReportMap bootKeyboardMap).2
        [2, 0, 4, 5, 0, 0, 0, 0], s < 32 := by
  have hacc : (zmkHidParseKeyboardReportMap bootKeyboardMap).1 = 0 := by decide +kernel
  refine ⟨hacc, ((shifts_lt_iff bootKeyboardMap [2, 0, 4, 5, 0, 0, 0, 0]).2 hacc).mpr (Or.inr ?_)⟩
  rw [narrowKeys_iff]
  decide +kernel

end BleHidHost
