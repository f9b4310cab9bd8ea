import BleHidHost.Lib.Bits
import BleHidHost.Report

/-!
# The report decoder

Decoding a raw input report against a layout.  HID packs fields least significant
bit first within the little-endian byte stream, so a field is a slice of the
payload's number, and a signed one its two's complement.

## Main definitions

* `extract` — one field of a payload.
* `payloadBits`, `kbdPayloadBits` — the payload a layout needs.
* `zmkHidDecodeReport`, `zmkHidDecodeKeyboardReport` — the two decoders.

## Main results

* `extract_eq_slice` — **a field is the slice of the payload at its offset.**
* `getLsbD_buttonBits` — a button is pressed when its stride is not all zero.
* `zmkHidDecodeReport_eq_some_iff` — when a payload decodes, and to what.
-/

namespace BleHidHost

open Lib

/-! ### Fields -/

/-- `((p[bit >> 3] >> (bit & 7)) & 1) << i`: one bit of the payload, moved to its
place in the value.  A shift by 32 or more, undefined in C, gives zero here. -/
def shiftedBit (p : List U8) (bit i : ℕ) : U32 :=
  ((p.getD (bit >>> 3) 0).setWidth 32 >>> (bit &&& 7) &&& 1) <<< i

/-- The loop of `extract`: `n` further bits of the field, from its bit `i` on.
It breaks off at the end of the payload. -/
def extractLoop (p : List U8) (off : ℕ) : ℕ → ℕ → U32 → U32
  | 0, _, v => v
  | n + 1, i, v =>
    if p.length ≤ (off + i) >>> 3 then v
    else extractLoop p off n (i + 1) (v ||| shiftedBit p (off + i) i)

/-- The sign extension of `extract`. -/
def extendSign (f : Field) (v : U32) : U32 :=
  if f.isSigned ∧ f.bitSize < 32 then
    if v &&& ((1 : U32) <<< (f.bitSize.toNat - 1)) ≠ 0 then
      v ||| ~~~((1 : U32) <<< f.bitSize.toNat - 1)
    else v
  else v

/-- `extract`: the value of a field, `0` for an absent one. -/
def extract (p : List U8) (f : Field) : ℤ :=
  if f.bitSize = 0 then 0
  else (extendSign f (extractLoop p f.bitOffset.toNat f.bitSize.toNat 0 0)).toInt

/-! ### Pointer reports -/

/-- The bit behind a field. -/
def Field.endBit (f : Field) : ℕ := f.bitOffset.toNat + f.bitSize.toNat

/-- The bits of one button's field. -/
def buttonStride (l : ReportLayout) : ℕ :=
  if l.buttons.bitSize ≠ 0 then l.buttons.bitSize.toNat else 1

/-- The bit behind the button run. -/
def buttonsEnd (l : ReportLayout) : ℕ :=
  l.buttons.bitOffset.toNat + l.buttonCount.toNat * buttonStride l

/-- `payload_bits`: the highest bit the layout touches. -/
def payloadBits (l : ReportLayout) : ℕ :=
  let bits := [l.x, l.y, l.wheel, l.hwheel].foldl
    (fun bits f => if f.bitSize ≠ 0 ∧ bits < f.endBit then f.endBit else bits) 0
  if l.buttonCount ≠ 0 ∧ bits < buttonsEnd l then buttonsEnd l else bits

/-- The field of one button, `stride` bits from bit `base` on. -/
def buttonField (p : List U8) (base stride : ℕ) : U32 :=
  (List.range stride).foldl
    (fun field b =>
      if (base + b) >>> 3 < p.length then field ||| shiftedBit p (base + b) b else field) 0

/-- The button loop: button `i` is pressed if its field is nonzero. -/
def buttonBits (l : ReportLayout) (p : List U8) : U32 :=
  (List.range (min l.buttonCount.toNat maxButtons)).foldl
    (fun buttons i =>
      if buttonField p (l.buttons.bitOffset.toNat + i * buttonStride l) (buttonStride l) ≠ 0 then
        buttons ||| (1 : U32) <<< i
      else buttons) 0

/-- `zmk_hid_decode_report`; `none` is its return code `-1`. -/
def zmkHidDecodeReport (l : ReportLayout) (report : List U8) : Option PointerReport :=
  if ¬ l.valid then none
  else if report.length < (payloadBits l + 7) / 8 then none
  else some
    { dx := extract report l.x
      dy := extract report l.y
      wheel := extract report l.wheel
      hwheel := extract report l.hwheel
      buttons := buttonBits l report }

/-! ### Keyboard reports -/

/-- `kbd_payload_bits`. -/
def kbdPayloadBits (l : KeyboardLayout) : ℕ :=
  let bits := if l.modifiers.bitSize ≠ 0 then l.modifiers.endBit else 0
  let keysEnd := l.keys.bitOffset.toNat + l.keyCount.toNat * l.keys.bitSize.toNat
  if l.keyCount ≠ 0 ∧ l.keys.bitSize ≠ 0 ∧ bits < keysEnd then keysEnd else bits

/-- Entry `i` of the keycode array. -/
def keyEntry (l : KeyboardLayout) (i : ℕ) : Field :=
  let off : U32 := l.keys.bitOffset.setWidth 32 + BitVec.ofNat 32 i * l.keys.bitSize.setWidth 32
  ⟨off.setWidth 16, l.keys.bitSize, false⟩

/-- One round of the keycode loop, which ends when the array is full: `0x00` is
no key and `0x01` is ErrorRollOver. -/
def decodeKey (l : KeyboardLayout) (report : List U8) (keys : List U8) (i : ℕ) : List U8 :=
  let code : U32 := BitVec.ofInt 32 (extract report (keyEntry l i))
  if keys.length < maxKeys ∧ code ≠ 0 ∧ code ≠ 0x01 then keys ++ [code.setWidth 8] else keys

/-- `zmk_hid_decode_keyboard_report`. -/
def zmkHidDecodeKeyboardReport (l : KeyboardLayout) (report : List U8) : Option KeyboardReport :=
  if ¬ l.valid then none
  else if report.length < (kbdPayloadBits l + 7) / 8 then none
  else some
    { modifiers :=
        if l.modifiers.bitSize ≠ 0 then BitVec.ofInt 8 (extract report l.modifiers) else 0
      keys := (List.range l.keyCount.toNat).foldl (decodeKey l report) [] }

/-! ### What a field reads -/

/-- A one-bit mask, as the source writes it. -/
theorem shiftLeft_one_eq_twoPow (k : ℕ) : (1 : U32) <<< k = BitVec.twoPow 32 k := rfl

theorem getLsbD_shiftedBit (p : List U8) (bit i j : ℕ) :
    (shiftedBit p bit i).getLsbD j = (decide (j = i ∧ j < 32) && bitAt p bit) := by
  have hidx : bit >>> 3 = bit / 8 := Nat.shiftRight_eq_div_pow bit 3
  have hmod : bit &&& 7 = bit % 8 := Nat.and_two_pow_sub_one_eq_mod bit 3
  have hlt : bit % 8 < 32 := by omega
  rw [shiftedBit, hidx, hmod, bitAt, BitVec.getLsbD_shiftLeft]
  by_cases hj : j = i
  · subst hj
    by_cases h32 : j < 32 <;> simp [h32, hlt]
  · -- beside bit `i` the shifted bit is clear
    have hne : ¬ (j = i ∧ j < 32) := fun h => hj h.1
    by_cases hlow : j < i
    · simp [hlow, hne]
    · have hpos : j - i ≠ 0 := by omega
      simp [hne, hpos]

/-- The bits the loop of `extract` gathers. -/
theorem getLsbD_extractLoop (p : List U8) (off n i j : ℕ) (v : U32) :
    (extractLoop p off n i v).getLsbD j =
      (v.getLsbD j || (decide (i ≤ j ∧ j < i + n ∧ j < 32) && bitAt p (off + j))) := by
  induction n generalizing i v with
  | zero =>
    have hempty : ¬ (i ≤ j ∧ j < i + 0 ∧ j < 32) := by omega
    rw [extractLoop, decide_eq_false hempty, Bool.false_and, Bool.or_false]
  | succ n ih =>
    rw [extractLoop]
    split
    · next hend =>
      -- every further bit lies past the payload's end
      rw [Nat.shiftRight_eq_div_pow] at hend
      by_cases hj : i ≤ j
      · rw [bitAt_of_length_le (by omega), Bool.and_false, Bool.or_false]
      · rw [decide_eq_false fun h => hj h.1, Bool.false_and, Bool.or_false]
    · rw [ih, BitVec.getLsbD_or, getLsbD_shiftedBit, Bool.or_assoc]
      -- bit `i` was gathered in this round, the others in the further ones
      congr 1
      by_cases hj : j = i
      · subst hj
        have hout : ¬ (j + 1 ≤ j ∧ j < j + 1 + n ∧ j < 32) := by omega
        by_cases h32 : j < 32 <;> simp [h32]
      · have hiff : (i ≤ j ∧ j < i + (n + 1) ∧ j < 32) ↔ (i + 1 ≤ j ∧ j < i + 1 + n ∧ j < 32) := by
          omega
        simp [hj, hiff]

/-- The loop of `extract` gathers a slice. -/
theorem extractLoop_eq_slice (p : List U8) (off n : ℕ) :
    extractLoop p off n 0 0 = (slice p off n).setWidth 32 := by
  apply BitVec.eq_of_getLsbD_eq
  intro j hj
  rw [getLsbD_extractLoop, BitVec.getLsbD_setWidth, getLsbD_slice]
  simp [hj]

/-- **A field is the slice of the payload at its offset**, in two's complement when
it is signed. -/
theorem extract_eq_slice (p : List U8) (f : Field) (h : f.bitSize.toNat ≤ 32) :
    extract p f =
      if f.isSigned then (slice p f.bitOffset.toNat f.bitSize.toNat).toInt
      else ((slice p f.bitOffset.toNat f.bitSize.toNat).setWidth 32).toInt := by
  obtain ⟨off, size, sgn⟩ := f
  simp only at h ⊢
  unfold extract
  by_cases h0 : size = 0
  · subst h0
    have hnil : ∀ x : BitVec (BitVec.toNat (0 : U8)), x = 0 := fun x =>
      BitVec.eq_of_getLsbD_eq fun j hj => absurd hj (by simp)
    rw [if_pos rfl, hnil (slice p off.toNat _)]
    split <;> rfl
  · rw [if_neg h0]
    simp only [extractLoop_eq_slice, extendSign]
    generalize hx : slice p off.toNat size.toNat = x
    have hsize : size.toNat ≠ 0 := fun hz => h0 (BitVec.toNat_inj.mp hz)
    cases sgn with
    | false => simp
    | true =>
      rw [if_pos rfl]
      by_cases hlt : size < 32
      · -- narrower than a word: the masks extend the sign
        rw [if_pos ⟨rfl, hlt⟩, ← BitVec.toInt_signExtend_of_le h]
        exact congrArg _ (or_not_mask_eq_signExtend (Nat.pos_of_ne_zero hsize) hlt x)
      · -- a full word is its own sign extension
        have heq : size.toNat = 32 := le_antisymm h (Nat.le_of_not_lt fun hl => hlt hl)
        rw [if_neg fun hc => hlt hc.2]
        clear hx
        revert x
        rw [heq]
        intro x
        rw [BitVec.setWidth_eq]

/-! ### What a payload needs -/

/-- Taking the larger of a bound and a present field's end, down a list. -/
theorem foldl_endBit_le_iff (fs : List Field) (b n : ℕ) :
    fs.foldl (fun bits f => if f.bitSize ≠ 0 ∧ bits < f.endBit then f.endBit else bits) b ≤ n ↔
      b ≤ n ∧ ∀ f ∈ fs, f.Present → f.endBit ≤ n := by
  induction fs generalizing b with
  | nil => simp
  | cons f fs ih =>
    have hstep : (if f.bitSize ≠ 0 ∧ b < f.endBit then f.endBit else b) ≤ n ↔
        b ≤ n ∧ (f.Present → f.endBit ≤ n) := by
      unfold Field.Present
      split
      · next h => exact ⟨fun hn => ⟨by omega, fun _ => hn⟩, fun hn => hn.2 h.1⟩
      · next h =>
        exact ⟨fun hn => ⟨hn, fun hp => le_trans (Nat.le_of_not_lt fun hl => h ⟨hp, hl⟩) hn⟩,
          fun hn => hn.1⟩
    rw [List.foldl_cons, ih, hstep, List.forall_mem_cons, and_assoc]

/-- **The bits a layout needs cover every present field and the button run**, and
no more. -/
theorem payloadBits_le_iff (l : ReportLayout) (n : ℕ) :
    payloadBits l ≤ n ↔
      (∀ f ∈ [l.x, l.y, l.wheel, l.hwheel], f.Present → f.endBit ≤ n) ∧
        (l.buttonCount ≠ 0 → buttonsEnd l ≤ n) := by
  have haxes := foldl_endBit_le_iff [l.x, l.y, l.wheel, l.hwheel] 0 n
  rw [and_iff_right (Nat.zero_le n)] at haxes
  unfold payloadBits
  -- `bits` is what the axes need; the button run may need more
  generalize List.foldl _ 0 [l.x, l.y, l.wheel, l.hwheel] = bits at haxes ⊢
  rw [← haxes]
  simp only
  split
  · next h => exact ⟨fun hn => ⟨by omega, fun _ => hn⟩, fun hn => hn.2 h.1⟩
  · next h =>
    exact ⟨fun hn => ⟨hn, fun hp => le_trans (Nat.le_of_not_lt fun hl => h ⟨hp, hl⟩) hn⟩,
      fun hn => hn.1⟩

/-! ### Buttons -/

/-- The bits of one button's field. -/
theorem getLsbD_buttonField (p : List U8) (base stride j : ℕ) :
    (buttonField p base stride).getLsbD j =
      (decide (j < stride ∧ j < 32) && bitAt p (base + j)) := by
  unfold buttonField
  induction stride with
  | zero => simp
  | succ n ih =>
    rw [List.range_succ, List.foldl_append, List.foldl_cons, List.foldl_nil]
    split
    · rw [BitVec.getLsbD_or, ih, getLsbD_shiftedBit]
      by_cases hj : j = n
      · subst hj
        simp
      · have hiff : decide (j < n + 1 ∧ j < 32) = decide (j < n ∧ j < 32) :=
          decide_eq_decide.mpr (by omega)
        rw [hiff]
        simp [hj]
    · next hend =>
      -- bit `n` lies past the payload's end, where the string reads clear
      rw [ih]
      rw [Nat.shiftRight_eq_div_pow] at hend
      by_cases hj : j = n
      · subst hj
        rw [bitAt_of_length_le (by omega), Bool.and_false, Bool.and_false]
      · have hiff : decide (j < n + 1 ∧ j < 32) = decide (j < n ∧ j < 32) :=
          decide_eq_decide.mpr (by omega)
        rw [hiff]

/-- The field of a button, up to 32 bits wide, is a slice. -/
theorem buttonField_ne_zero_iff (p : List U8) (base : ℕ) {stride : ℕ} (h : stride ≤ 32) :
    buttonField p base stride ≠ 0 ↔ slice p base stride ≠ BitVec.ofNat stride 0 := by
  have hzero : buttonField p base stride = 0#32 ↔ slice p base stride = BitVec.ofNat stride 0 := by
    rw [slice_eq_zero_iff]
    constructor
    · intro h0 j hj
      have hbit : (buttonField p base stride).getLsbD j = (0#32).getLsbD j := by rw [h0]
      rwa [getLsbD_buttonField, decide_eq_true ⟨hj, by omega⟩, Bool.true_and,
        BitVec.getLsbD_zero] at hbit
    · intro h0
      apply BitVec.eq_of_getLsbD_eq
      intro j _
      rw [getLsbD_buttonField, BitVec.getLsbD_zero]
      by_cases hj : j < stride
      · rw [h0 j hj, Bool.and_false]
      · rw [decide_eq_false fun hc => hj hc.1, Bool.false_and]
  exact not_congr hzero

/-- **Button `i` is pressed when its field is nonzero**, up to the layout's count. -/
theorem getLsbD_buttonBits (l : ReportLayout) (p : List U8) (i : ℕ) :
    (buttonBits l p).getLsbD i =
      decide (i < min l.buttonCount.toNat maxButtons ∧
        buttonField p (l.buttons.bitOffset.toNat + i * buttonStride l) (buttonStride l) ≠ 0) := by
  unfold buttonBits
  have hmax : min l.buttonCount.toNat maxButtons ≤ 16 := min_le_right _ _
  generalize min l.buttonCount.toNat maxButtons = n at hmax ⊢
  induction n with
  | zero => simp
  | succ n ih =>
    rw [List.range_succ, List.foldl_append, List.foldl_cons, List.foldl_nil]
    have hiff : ∀ j, j ≠ n → (j < n + 1 ↔ j < n) := fun j hj => by omega
    split
    · next hf =>
      -- button `n` is pressed: its bit is set, the others stand
      rw [BitVec.getLsbD_or, ih (by omega), shiftLeft_one_eq_twoPow, BitVec.getLsbD_twoPow]
      by_cases hj : i = n
      · subst hj
        rw [decide_eq_true (p := i < i + 1 ∧ _) ⟨Nat.lt_succ_self i, hf⟩]
        simp [show i < 32 by omega]
      · simp [hiff i hj, Ne.symm hj]
    · next hf =>
      rw [ih (by omega)]
      by_cases hj : i = n
      · subst hj
        rw [decide_eq_false fun hc => absurd hc.1 (lt_irrefl i), decide_eq_false fun hc => hf hc.2]
      · simp [hiff i hj]

/-- **A payload decodes when the layout is valid and every field fits in it**, and
then to the fields it holds. -/
theorem zmkHidDecodeReport_eq_some_iff (l : ReportLayout) (p : List U8) (r : PointerReport) :
    zmkHidDecodeReport l p = some r ↔
      l.valid ∧ payloadBits l ≤ 8 * p.length ∧
        r = ⟨extract p l.x, extract p l.y, extract p l.wheel, extract p l.hwheel,
          buttonBits l p⟩ := by
  unfold zmkHidDecodeReport
  by_cases hv : l.valid
  · rw [if_neg (not_not.mpr hv)]
    split
    · next hlen => exact iff_of_false (by simp) fun h => by omega
    · next hlen =>
      rw [Option.some.injEq, eq_comm]
      exact ⟨fun h => ⟨hv, by omega, h⟩, fun h => h.2.2⟩
  · rw [if_pos hv]
    exact iff_of_false (by simp) fun h => hv h.1

end BleHidHost
