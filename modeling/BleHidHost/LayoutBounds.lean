import BleHidHost.BitStreams
import BleHidHost.Rounds

/-!
# Parsed layouts keep the decoders inside the payload

What the parser checks, in its 16-bit and 32-bit arithmetic, against what the decoders
compute from the layout once more: the length check of a decoder asks for exactly the
bytes up to the last recorded bit, and behind it no round of a loop leaves the payload.

## Main definitions

* `ButtonsSound`, `KbdSound`, `KeysFit` — what holds of every parsed layout.
* `ReportLayout.ends`, `KeyboardLayout.ends` — the ends of the recorded fields.
* `PointerSafe`, `KeyboardSafe` — a layout is safe for its decoder on a payload.

## Main results

* `payloadBits_eq_lastEnd`, `kbdPayloadBits_eq_lastEnd` — the bits a decoder asks for.
* `parsedLayouts_safe` — **every parsed layout is safe for its decoder.**
-/

namespace BleHidHost

open Lib

/-! ### The cursor stays small -/

/-- One item moves the cursor by at most the bits of an Input item. -/
theorem toNat_bitCursor_walkItem (w : Walk) (it : Item)
    (h : w.bitCursor.toNat + 65025 < 2 ^ 32) :
    (walkItem w it).bitCursor.toNat ≤ w.bitCursor.toNat + 65025 := by
  have htot : (totalBits w).toNat ≤ 65025 := toNat_totalBits w ▸ toNat_mul_le _ _
  have hkeep : w.bitCursor.toNat ≤ w.bitCursor.toNat + 65025 := Nat.le_add_right _ _
  unfold walkItem handleItem dispatch
  cases itemType it.type with
  | main =>
    cases mainTag it.tag with
    | input =>
      have hadv : (advance w.bitCursor (totalBits w)).toNat =
          w.bitCursor.toNat + (totalBits w).toNat := toNat_advance (by omega)
      exact le_trans (le_of_eq hadv) (by omega)
    | _ => exact hkeep
  | global =>
    cases globalTag it.tag with
    | reportId =>
      -- a change of Report ID zeroes the cursor
      simp only [handleGlobal]
      split
      · exact Nat.zero_le _
      · exact hkeep
    | _ => exact hkeep
  | «local» => cases localTag it.tag <;> exact hkeep
  | reserved => exact hkeep

theorem toNat_bitCursor_le {its : List Item} (h : its.length ≤ 512) :
    (walkItems its).bitCursor.toNat ≤ 65025 * its.length := by
  induction its using List.reverseRecOn with
  | nil => exact Nat.zero_le _
  | append_singleton its it ih =>
    rw [List.length_append, List.length_singleton] at h ⊢
    have hprev := ih (by omega)
    rw [walkItems_concat]
    have hstep := toNat_bitCursor_walkItem (walkItems its) it (by omega)
    omega

/-- **In a map of at most 512 bytes the cursor is far from wrapping.** -/
theorem toNat_bitCursor_lt {m : List U8} (hlen : m.length ≤ 512) {its : List Item}
    (h : its <+: reportItems m) : (walkItems its).bitCursor.toNat < 2 ^ 31 := by
  have hitems : its.length ≤ 512 := (h.length_le.trans (length_reportItems_le m)).trans hlen
  have hcur := toNat_bitCursor_le hitems
  omega

/-! ### What holds of every layout the walk fills -/

/-- What every Input item preserves holds of the pointer layout. -/
theorem runItems_out_invariant {K : ReportLayout → Prop} (hzero : K .zero)
    (hstep : ∀ w b o, K o → K (assignInput w b o)) (its : List Item) : K (runItems its).out := by
  induction its using List.reverseRecOn with
  | nil => exact hzero
  | append_singleton its it ih =>
    rw [runItems_concat, handleItem_out]
    split
    · exact hstep _ _ _ ih
    · exact ih

/-- What every Input item on the way preserves holds of the keyboard layout. -/
theorem runItems_outKbd_invariant {K : KeyboardLayout → Prop} {its : List Item} (hzero : K .zero)
    (hstep : ∀ pre, pre <+: its → ∀ flags o, K o →
      K (assignKbdInput (walkItems pre) (walkItems pre).bitCursor flags o)) :
    K (runItems its).outKbd := by
  induction its using List.reverseRecOn with
  | nil => exact hzero
  | append_singleton its it ih =>
    have hprev := ih fun pre hpre => hstep pre (hpre.trans (List.prefix_append its [it]))
    rw [runItems_concat, handleItem_outKbd]
    split
    · exact hstep its (List.prefix_append its [it]) _ _ hprev
    · exact hprev

/-- The button count is bounded, and counts fields of a recorded run. -/
structure ButtonsSound (o : ReportLayout) : Prop where
  count_le : o.buttonCount.toNat ≤ maxButtons
  present : o.buttonCount ≠ 0 → o.buttons.Present

/-- The modifiers fit a byte, and the array has entries exactly when it is recorded. -/
structure KbdSound (o : KeyboardLayout) : Prop where
  modifiers_le : o.modifiers.bitSize.toNat ≤ 8
  keyCount_ne_zero_iff : o.keyCount ≠ 0 ↔ o.keys.Present

/-- The keycode array ends below the largest 16-bit offset. -/
def KeysFit (o : KeyboardLayout) : Prop :=
  o.keys.bitOffset.toNat + o.keyCount.toNat * o.keys.bitSize.toNat ≤ 65535

/-- A width with a nonzero default is nonzero. -/
theorem sizeOr_ne_zero (w : Walk) {width : U8} (h : width ≠ 0) : sizeOr w width ≠ 0 := by
  unfold sizeOr
  split
  · next hs => exact hs
  · exact h

/-- The capped count of a button run. -/
theorem toNat_buttonRunCount_le (w : Walk) : (buttonRunCount w).toNat ≤ maxButtons := by
  unfold buttonRunCount
  split
  · exact le_rfl
  · next h => exact BitVec.le_def.mp (BitVec.not_lt.mp h)

theorem ButtonsSound.assignInput {o : ReportLayout} (h : ButtonsSound o) (w : Walk) (b : U32) :
    ButtonsSound (assignInput w b o) := by
  have hlock : ButtonsSound (lockReport w o) := by
    unfold lockReport
    split
    · exact ⟨h.count_le, h.present⟩
    · exact h
  unfold BleHidHost.assignInput
  split
  · unfold assignButtons
    split
    · exact ⟨toNat_buttonRunCount_le w, fun _ => sizeOr_ne_zero w (by decide)⟩
    · exact hlock
  · refine ⟨by rw [assignSlots_buttonCount]; exact hlock.count_le, fun hc => ?_⟩
    rw [assignSlots_buttonCount] at hc
    have hpres : ((assignSlots w b 0 (lockReport w o)).get .buttons).Present := hlock.present hc
    have hkeep := assignSlots_get_of_present (Nat.zero_le w.g.reportCount.toNat) hpres
    exact (congrArg Field.Present hkeep).mpr hpres

/-- **The buttons of every layout are sound.** -/
theorem buttonsSound_runItems (its : List Item) : ButtonsSound (runItems its).out :=
  runItems_out_invariant ⟨by decide, fun h => absurd rfl h⟩ (fun w b _ h => h.assignInput w b) its

theorem KbdSound.assignKbdInput {o : KeyboardLayout} (h : KbdSound o) (w : Walk) (b flags : U32) :
    KbdSound (assignKbdInput w b flags o) := by
  have hlock : KbdSound (lockKbdReport w o) := by
    unfold lockKbdReport
    split
    · exact ⟨h.modifiers_le, h.keyCount_ne_zero_iff⟩
    · exact h
  unfold BleHidHost.assignKbdInput
  split
  · unfold assignModifiers
    split
    · next hc =>
      -- at most eight bits are recorded, one for each key
      have hbits : (modifierBits w).toNat ≤ 8 := BitVec.le_def.mp hc.2.2.2.2.2.1
      refine ⟨?_, hlock.keyCount_ne_zero_iff⟩
      rw [BitVec.toNat_setWidth]
      exact (Nat.mod_le _ _).trans hbits
    · exact hlock
  · unfold assignKeys
    split
    · next hc =>
      have hcount : w.g.reportCount ≠ 0 := fun h0 => by
        rw [h0] at hc
        exact absurd hc.2.2.1 (by decide)
      exact ⟨hlock.modifiers_le, iff_of_true hcount (sizeOr_ne_zero w (by decide))⟩
    · exact hlock

/-- **Every keyboard layout is sound.** -/
theorem kbdSound_runItems (its : List Item) : KbdSound (runItems its).outKbd :=
  runItems_outKbd_invariant ⟨by decide, by decide⟩ fun _ _ flags _ h => h.assignKbdInput _ _ flags

/-- An extent that passes the check of the source at a small cursor ends below the
largest 16-bit offset, and the offset is narrowed without loss. -/
theorem offset_add_le_of_fits {b : U32} {count size : U8} (hb : b.toNat < 2 ^ 31)
    (h : b + count.setWidth 32 * size.setWidth 32 ≤ bitOffsetMax) :
    (b.setWidth 16 : U16).toNat + count.toNat * size.toNat ≤ 65535 := by
  have hlt := toNat_mul_setWidth_lt count size
  rw [toNat_setWidth_of_fits hb hlt h]
  rw [BitVec.le_def, BitVec.toNat_add, Nat.mod_eq_of_lt (by omega), toNat_mul_setWidth] at h
  exact h

theorem KeysFit.assignKbdInput {o : KeyboardLayout} (h : KeysFit o) (w : Walk) {b : U32}
    (hb : b.toNat < 2 ^ 31) (flags : U32) : KeysFit (assignKbdInput w b flags o) := by
  have hlock : KeysFit (lockKbdReport w o) := by
    unfold lockKbdReport
    split <;> exact h
  unfold BleHidHost.assignKbdInput
  split
  · unfold assignModifiers
    split <;> exact hlock
  · unfold assignKeys
    split
    · next hc => exact offset_add_le_of_fits hb hc.2.2.2
    · exact hlock

/-- **The keycode array of a map of at most 512 bytes ends below the largest 16-bit
offset.** -/
theorem keysFit_runItems {m : List U8} (hlen : m.length ≤ 512) :
    KeysFit (runItems (reportItems m)).outKbd :=
  runItems_outKbd_invariant (by unfold KeysFit; decide) fun _ hpre flags _ h =>
    h.assignKbdInput _ (toNat_bitCursor_lt hlen hpre) flags

/-! ### The bits a decoder asks for -/

/-- The ends of the fields recorded in a pointer layout, the button run taken over its
full count.  A run of no buttons has no bits, and no end. -/
def ReportLayout.ends (l : ReportLayout) : List ℕ :=
  ([l.x, l.y, l.wheel, l.hwheel].filter fun f => f.Present).map Field.endBit ++
    if l.buttons.Present ∧ l.buttonCount ≠ 0 then
      [l.buttons.bitOffset.toNat + l.buttonCount.toNat * l.buttons.bitSize.toNat]
    else []

/-- The ends of the fields recorded in a keyboard layout, the keycode array taken over
its full count. -/
def KeyboardLayout.ends (l : KeyboardLayout) : List ℕ :=
  (if l.modifiers.Present then [l.modifiers.endBit] else []) ++
    if l.keys.Present then [l.keys.bitOffset.toNat + l.keyCount.toNat * l.keys.bitSize.toNat]
    else []

/-- The largest of some ends, `0` for none. -/
def lastEnd (ends : List ℕ) : ℕ := ends.foldr max 0

theorem lastEnd_le_iff {ends : List ℕ} {n : ℕ} : lastEnd ends ≤ n ↔ ∀ e ∈ ends, e ≤ n := by
  induction ends with
  | nil => simp [lastEnd]
  | cons e ends ih => rw [lastEnd, List.foldr_cons, max_le_iff, List.forall_mem_cons, ← ih, lastEnd]

/-- Two numbers with the same upper bounds are equal. -/
theorem eq_of_le_iff {a b : ℕ} (h : ∀ n, a ≤ n ↔ b ≤ n) : a = b :=
  le_antisymm ((h b).mpr le_rfl) ((h a).mp le_rfl)

/-- A recorded run has the stride that is recorded. -/
theorem buttonStride_of_present {l : ReportLayout} (h : l.buttons.Present) :
    buttonStride l = l.buttons.bitSize.toNat := if_pos h

/-- **A pointer report is asked for up to the last recorded bit.** -/
theorem payloadBits_eq_lastEnd {l : ReportLayout} (h : ButtonsSound l) :
    payloadBits l = lastEnd l.ends := by
  apply eq_of_le_iff
  intro n
  rw [payloadBits_le_iff, lastEnd_le_iff, ReportLayout.ends, List.forall_mem_append]
  apply and_congr
  · simp only [List.forall_mem_map, List.mem_filter, decide_eq_true_iff, and_imp]
  · by_cases hc : l.buttonCount = 0
    · simp [hc]
    · have hpres := h.present hc
      rw [if_pos ⟨hpres, hc⟩, buttonsEnd, buttonStride_of_present hpres, List.forall_mem_singleton]
      exact ⟨fun hn => hn hc, fun hn _ => hn⟩

/-- A keyboard report needs the bits of its modifiers and of its array. -/
theorem kbdPayloadBits_le_iff (l : KeyboardLayout) (n : ℕ) :
    kbdPayloadBits l ≤ n ↔ (l.modifiers.Present → l.modifiers.endBit ≤ n) ∧
      (l.keyCount ≠ 0 → l.keys.Present →
        l.keys.bitOffset.toNat + l.keyCount.toNat * l.keys.bitSize.toNat ≤ n) := by
  unfold kbdPayloadBits Field.Present
  simp only
  generalize l.keys.bitOffset.toNat + l.keyCount.toNat * l.keys.bitSize.toNat = e
  by_cases hmod : l.modifiers.bitSize = 0
  · rw [if_neg (not_not.mpr hmod)]
    split <;> grind
  · rw [if_pos hmod]
    split <;> grind

/-- **A keyboard report is asked for up to the last recorded bit.** -/
theorem kbdPayloadBits_eq_lastEnd {l : KeyboardLayout} (h : KbdSound l) :
    kbdPayloadBits l = lastEnd l.ends := by
  apply eq_of_le_iff
  intro n
  rw [kbdPayloadBits_le_iff, lastEnd_le_iff, KeyboardLayout.ends, List.forall_mem_append,
    h.keyCount_ne_zero_iff]
  apply and_congr
  · split
    · next hp => simp [hp]
    · next hp => simp [hp]
  · split
    · next hp => simp [hp]
    · next hp => simp [hp]

/-! ### No round leaves the payload -/

/-- A round of a field lies below the field's end. -/
theorem bit_lt_endBit {p : List U8} {f : Field} {r : Round} (h : r ∈ fieldRounds p f) :
    r.bit < f.endBit := by
  obtain ⟨-, hbase, hplace⟩ := mem_fieldRounds h
  unfold Round.bit Field.endBit
  omega

/-- **The rounds of the pointer decoder lie in the bits it asks for.** -/
theorem bit_lt_payloadBits {l : ReportLayout} {p : List U8} {r : Round}
    (h : r ∈ pointerRounds l p) : r.bit < payloadBits l := by
  obtain ⟨haxes, hbuttons⟩ := (payloadBits_le_iff l (payloadBits l)).mp le_rfl
  rcases mem_pointerRounds h with ⟨f, hf, hr⟩ | ⟨i, hi, hbase, hplace⟩
  · exact lt_of_lt_of_le (bit_lt_endBit hr) (haxes f hf (mem_fieldRounds hr).1)
  · -- a button's field ends in its run
    have hlt : i < l.buttonCount.toNat := lt_of_lt_of_le hi (min_le_left _ _)
    have hne : l.buttonCount ≠ 0 := fun h0 => by
      rw [h0] at hlt
      exact absurd hlt (Nat.not_lt_zero i)
    have hmul : (i + 1) * buttonStride l ≤ l.buttonCount.toNat * buttonStride l :=
      Nat.mul_le_mul_right _ hlt
    have hend := hbuttons hne
    rw [Nat.succ_mul] at hmul
    unfold buttonsEnd at hend
    unfold Round.bit
    unfold buttonBase at hbase
    omega

/-- The offset of an entry of an array that fits is narrowed without loss. -/
theorem toNat_keyEntry {l : KeyboardLayout} (h : KeysFit l) {i : ℕ} (hi : i < l.keyCount.toNat) :
    (keyEntry l i).bitOffset.toNat = l.keys.bitOffset.toNat + i * l.keys.bitSize.toNat := by
  have hcount := l.keyCount.isLt
  have hmul : i * l.keys.bitSize.toNat ≤ l.keyCount.toNat * l.keys.bitSize.toNat :=
    Nat.mul_le_mul_right _ hi.le
  have hs := l.keys.bitSize.isLt
  have ho := l.keys.bitOffset.isLt
  unfold KeysFit at h
  have hprod : (BitVec.ofNat 32 i * l.keys.bitSize.setWidth 32 : U32).toNat =
      i * l.keys.bitSize.toNat := by
    rw [BitVec.toNat_mul, BitVec.toNat_ofNat, BitVec.toNat_setWidth,
      Nat.mod_eq_of_lt (a := i) (by omega),
      Nat.mod_eq_of_lt (a := l.keys.bitSize.toNat) (by omega), Nat.mod_eq_of_lt (by omega)]
  simp only [keyEntry]
  rw [BitVec.toNat_setWidth, BitVec.toNat_add, hprod, BitVec.toNat_setWidth,
    Nat.mod_eq_of_lt (a := l.keys.bitOffset.toNat) (by omega),
    Nat.mod_eq_of_lt (b := 2 ^ 32) (by omega), Nat.mod_eq_of_lt (by omega)]

/-- **The rounds of the keyboard decoder lie in the bits it asks for.** -/
theorem bit_lt_kbdPayloadBits {l : KeyboardLayout} (hfit : KeysFit l) {p : List U8} {r : Round}
    (h : r ∈ keyboardRounds l p) : r.bit < kbdPayloadBits l := by
  obtain ⟨hmods, hkeys⟩ := (kbdPayloadBits_le_iff l (kbdPayloadBits l)).mp le_rfl
  rcases mem_keyboardRounds h with hr | ⟨i, hi, hr⟩
  · exact lt_of_lt_of_le (bit_lt_endBit hr) (hmods (mem_fieldRounds hr).1)
  · -- an entry's field ends in the array
    obtain ⟨hpres, hbase, hplace⟩ := mem_fieldRounds hr
    have hne : l.keyCount ≠ 0 := fun h0 => by
      rw [h0] at hi
      exact absurd hi (Nat.not_lt_zero i)
    have hmul : (i + 1) * l.keys.bitSize.toNat ≤ l.keyCount.toNat * l.keys.bitSize.toNat :=
      Nat.mul_le_mul_right _ hi
    have hend := hkeys hne hpres
    rw [Nat.succ_mul] at hmul
    rw [toNat_keyEntry hfit hi] at hbase
    have hsize : (keyEntry l i).bitSize = l.keys.bitSize := rfl
    rw [hsize] at hplace
    unfold Round.bit
    omega

/-! ### Safety -/

/-- A pointer layout is safe for its decoder: behind the length check every round looks
at a bit of the payload, and the check fails exactly on payloads that are too short for
the last recorded bit. -/
structure PointerSafe (l : ReportLayout) (p : List U8) : Prop where
  inside : (payloadBits l + 7) / 8 ≤ p.length →
    ∀ r ∈ pointerRounds l p, r.bit < 8 * p.length ∧ r.Inside p
  buttonCount_le : l.buttonCount.toNat ≤ maxButtons
  error_iff : zmkHidDecodeReport l p = none ↔ p.length < (lastEnd l.ends + 7) / 8

/-- A keyboard layout is safe for its decoder. -/
structure KeyboardSafe (l : KeyboardLayout) (p : List U8) : Prop where
  inside : (kbdPayloadBits l + 7) / 8 ≤ p.length →
    ∀ r ∈ keyboardRounds l p, r.bit < 8 * p.length ∧ r.Inside p
  /-- The narrowing of an entry's offset is exact. -/
  entry_exact : ∀ i < l.keyCount.toNat,
    (keyEntry l i).bitOffset.toNat = l.keys.bitOffset.toNat + i * l.keys.bitSize.toNat
  modifiers_le : l.modifiers.bitSize.toNat ≤ 8
  error_iff : zmkHidDecodeKeyboardReport l p = none ↔ p.length < (lastEnd l.ends + 7) / 8

/-- A round below the bits that a long enough payload has lies in it. -/
theorem Round.inside_of_lt {p : List U8} {r : Round} {n : ℕ} (h : r.bit < n)
    (hgate : (n + 7) / 8 ≤ p.length) : r.bit < 8 * p.length ∧ r.Inside p := by
  have hlt : r.bit < 8 * p.length := by omega
  exact ⟨hlt, Round.inside_iff.mpr hlt⟩

theorem pointerSafe_of_sound {l : ReportLayout} (hvalid : l.valid) (h : ButtonsSound l)
    (p : List U8) : PointerSafe l p where
  inside hgate _ hr := Round.inside_of_lt (bit_lt_payloadBits hr) hgate
  buttonCount_le := h.count_le
  error_iff := by
    rw [zmkHidDecodeReport, if_neg (not_not.mpr hvalid), ← payloadBits_eq_lastEnd h]
    split
    · next hlen => exact iff_of_true rfl hlen
    · next hlen => exact iff_of_false (Option.some_ne_none _) hlen

theorem keyboardSafe_of_sound {l : KeyboardLayout} (hvalid : l.valid) (h : KbdSound l)
    (hfit : KeysFit l) (p : List U8) : KeyboardSafe l p where
  inside hgate _ hr := Round.inside_of_lt (bit_lt_kbdPayloadBits hfit hr) hgate
  entry_exact _ hi := toNat_keyEntry hfit hi
  modifiers_le := h.modifiers_le
  error_iff := by
    rw [zmkHidDecodeKeyboardReport, if_neg (not_not.mpr hvalid), ← kbdPayloadBits_eq_lastEnd h]
    split
    · next hlen => exact iff_of_true rfl hlen
    · next hlen => exact iff_of_false (Option.some_ne_none _) hlen

/-- An accepted map leaves a valid pointer layout. -/
theorem zmkHidParseReportMap_valid {m : List U8} (h : (zmkHidParseReportMap m).1 = 0) :
    (zmkHidParseReportMap m).2.valid = true := by
  unfold zmkHidParseReportMap at h ⊢
  simp only at h ⊢
  split at h
  · assumption
  · exact absurd h (by decide)

/-- An accepted map leaves a valid keyboard layout. -/
theorem zmkHidParseKeyboardReportMap_valid {m : List U8}
    (h : (zmkHidParseKeyboardReportMap m).1 = 0) :
    (zmkHidParseKeyboardReportMap m).2.valid = true := by
  unfold zmkHidParseKeyboardReportMap at h ⊢
  simp only at h ⊢
  split at h
  · assumption
  · exact absurd h (by decide)

/-- The pointer layout of a map is sound. -/
theorem buttonsSound_zmkHidParseReportMap (m : List U8) :
    ButtonsSound (zmkHidParseReportMap m).2 := by
  have h := buttonsSound_runItems (reportItems m)
  rw [zmkHidParseReportMap_snd]
  exact ⟨h.count_le, h.present⟩

/-- The keyboard layout of a map is sound. -/
theorem kbdSound_zmkHidParseKeyboardReportMap (m : List U8) :
    KbdSound (zmkHidParseKeyboardReportMap m).2 := by
  have h := kbdSound_runItems (reportItems m)
  rw [zmkHidParseKeyboardReportMap_snd]
  exact ⟨h.modifiers_le, h.keyCount_ne_zero_iff⟩

/-- **The layouts of every accepted map of at most 512 bytes are safe for the decoders**,
on every payload. -/
theorem parsedLayouts_safe (m : List U8) (hlen : m.length ≤ 512) :
    ((zmkHidParseReportMap m).1 = 0 → ∀ p, PointerSafe (zmkHidParseReportMap m).2 p) ∧
      ((zmkHidParseKeyboardReportMap m).1 = 0 →
        ∀ p, KeyboardSafe (zmkHidParseKeyboardReportMap m).2 p) := by
  constructor
  · intro hacc p
    exact pointerSafe_of_sound (zmkHidParseReportMap_valid hacc)
      (buttonsSound_zmkHidParseReportMap m) p
  · intro hacc p
    refine keyboardSafe_of_sound (zmkHidParseKeyboardReportMap_valid hacc)
      (kbdSound_zmkHidParseKeyboardReportMap m) ?_ p
    have hfit := keysFit_runItems hlen
    rw [zmkHidParseKeyboardReportMap_snd]
    exact hfit

/-- A keyboard with eight modifiers, a byte of padding and six keycodes. -/
def bootKeyboardMap : List U8 :=
  [0x05, 0x01, 0x09, 0x06, 0xa1, 0x01, 0x05, 0x07, 0x19, 0xe0, 0x29, 0xe7, 0x75, 0x01, 0x95, 0x08,
   0x81, 0x02, 0x95, 0x01, 0x75, 0x08, 0x81, 0x01, 0x95, 0x06, 0x75, 0x08, 0x81, 0x00, 0xc0]

/-- Seven bytes are too short for the boot keyboard, and X and Y need two. -/
theorem parsedLayouts_safe_boot :
    zmkHidDecodeKeyboardReport (zmkHidParseKeyboardReportMap bootKeyboardMap).2
        [0, 0, 4, 5, 6, 7, 8] = none ∧
      PointerSafe (zmkHidParseReportMap returningMap).2 [1, 2] := by
  have hkbd := (parsedLayouts_safe bootKeyboardMap (by decide)).2 (by decide +kernel)
    [0, 0, 4, 5, 6, 7, 8]
  exact ⟨hkbd.error_iff.mpr (by decide +kernel),
    (parsedLayouts_safe returningMap (by decide)).1 (by decide +kernel) _⟩

end BleHidHost
