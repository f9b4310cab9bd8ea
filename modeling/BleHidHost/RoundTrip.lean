import BleHidHost.Decode
import BleHidHost.MouseDescriptor

/-!
# Descriptor and report round trip

A mouse packs its report as its descriptor says: segment after segment, least
significant bit first.  Parsing the descriptor and decoding the payload gives
back the values that were packed, whatever the padding bits and trailing bytes.

## Main definitions

* `Packs` — a payload packs axis values and button states.
* `ValuesInRange` — the values fit their axes.

## Main results

* `Packs.slice_eq` — a placed axis is packed where it lies.
* `mouse_roundTrip` — **parsing and decoding give back what was packed.**
-/

namespace BleHidHost

open Lib

/-! ### Packing -/

/-- The low bits of a value, least significant first. -/
def valueBits (size : ℕ) (v : ℤ) : List Bool :=
  (List.range size).map (BitVec.ofInt size v).getLsbD

/-- The bits of one segment: padding is arbitrary. -/
def Segment.Packs (v : Axis → ℤ) (held : ℕ → Bool) : Segment → List Bool → Prop
  | .padding size count, bits => bits.length = size.toNat * count.toNat
  | .buttons n, bits => bits = (List.range n).map held
  | .axes us size, bits => bits = us.flatMap fun a => valueBits size (v a)

/-- The payload starts with the segments' bits; trailing bytes are arbitrary. -/
def Packs (segs : List Segment) (v : Axis → ℤ) (held : ℕ → Bool) (payload : List U8) : Prop :=
  ∃ parts, List.Forall₂ (Segment.Packs v held) segs parts ∧ parts.flatten <+: bitsOf payload

/-- Every axis value is in the range of its axis. -/
def ValuesInRange (segs : List Segment) (v : Axis → ℤ) : Prop :=
  ∀ us size, Segment.axes us size ∈ segs → ∀ a ∈ us,
    -2 ^ (size - 1) ≤ v a ∧ v a < 2 ^ (size - 1)

/-- The segment has a button `i`, counted from zero. -/
def Segment.hasButton (i : ℕ) : Segment → Bool
  | .buttons n => i < n
  | _ => false

@[simp] theorem length_valueBits (size : ℕ) (v : ℤ) : (valueBits size v).length = size := by
  simp [valueBits]

section Packing

variable {v : Axis → ℤ} {held : ℕ → Bool} {segs : List Segment} {payload : List U8}

theorem length_flatMap_valueBits (us : List Axis) (size : ℕ) :
    (us.flatMap fun a => valueBits size (v a)).length = us.length * size := by
  induction us with
  | nil => simp
  | cons a us ih => rw [List.flatMap_cons, List.length_append, ih, length_valueBits,
      List.length_cons, Nat.succ_mul, Nat.add_comm]

/-- Bit `j` of value `i` in a row of values. -/
theorem getElem?_flatMap_valueBits {us : List Axis} {size i j : ℕ} {a : Axis}
    (hi : us[i]? = some a) (hj : j < size) :
    (us.flatMap fun a => valueBits size (v a))[i * size + j]? =
      some ((BitVec.ofInt size (v a)).getLsbD j) := by
  induction us generalizing i with
  | nil => simp at hi
  | cons b us ih =>
    rw [List.flatMap_cons]
    cases i with
    | zero =>
      -- the bit lies in the first value
      obtain rfl : b = a := by simpa using hi
      rw [Nat.zero_mul, Nat.zero_add, List.getElem?_append_left (by simpa using hj), valueBits,
        List.getElem?_map, List.getElem?_range hj, Option.map_some]
    | succ i =>
      rw [List.getElem?_append_right (by rw [length_valueBits, Nat.succ_mul]; omega),
        length_valueBits, show (i + 1) * size + j - size = i * size + j by rw [Nat.succ_mul]; omega]
      exact ih (by simpa using hi)

theorem Segment.Packs.length {seg : Segment} {bits : List Bool} (h : seg.Packs v held bits) :
    bits.length = seg.bits := by
  cases seg with
  | padding size count => exact h
  | buttons n => rw [show bits = _ from h]; simp [Segment.bits]
  | axes us size => rw [show bits = _ from h, length_flatMap_valueBits]; rfl

/-- The packed bits are as many as the segments have. -/
theorem length_flatten_of_packs {parts : List (List Bool)}
    (h : List.Forall₂ (Segment.Packs v held) segs parts) :
    parts.flatten.length = totalBitsOf segs := by
  induction h with
  | nil => rfl
  | cons hseg _ ih =>
    rw [List.flatten_cons, List.length_append, ih, hseg.length]
    simp [totalBitsOf]

/-- A payload holds at least the bits of its segments. -/
theorem Packs.totalBitsOf_le (h : Packs segs v held payload) :
    totalBitsOf segs ≤ 8 * payload.length := by
  obtain ⟨parts, hparts, hpre⟩ := h
  rw [← length_flatten_of_packs hparts, ← length_bitsOf]
  exact hpre.length_le

/-- **A segment's bits stand in the payload behind those of the segments before it.** -/
theorem Packs.bitAt_eq {front back : List Segment} {seg : Segment}
    (h : Packs (front ++ seg :: back) v held payload) :
    ∃ bits, seg.Packs v held bits ∧
      ∀ j b, bits[j]? = some b → bitAt payload (totalBitsOf front + j) = b := by
  obtain ⟨parts, hparts, rest, hrest⟩ := h
  obtain ⟨fparts, bits, bparts, rfl, hfront, hseg⟩ := forall₂_append_cons_left hparts
  refine ⟨bits, hseg, ?_⟩
  intro j b hj
  have hlen := length_flatten_of_packs hfront
  obtain ⟨hjlt, -⟩ := List.getElem?_eq_some_iff.mp hj
  have hat : (bitsOf payload)[totalBitsOf front + j]? = some b := by
    rw [← hrest, List.flatten_append, List.flatten_cons, List.append_assoc, List.append_assoc,
      List.getElem?_append_right (by omega), hlen, Nat.add_sub_cancel_left,
      List.getElem?_append_left hjlt, hj]
  obtain ⟨hlt, -⟩ := List.getElem?_eq_some_iff.mp hat
  rw [length_bitsOf] at hlt
  rw [getElem?_bitsOf payload hlt] at hat
  exact Option.some.inj hat

/-- **A placed axis is packed where it lies.** -/
theorem Packs.slice_eq (h : Packs segs v held payload) {a : Axis} {off size : ℕ}
    (hpl : Placed segs a off size) : slice payload off size = BitVec.ofInt size (v a) := by
  obtain ⟨front, us, back, i, rfl, hi, rfl⟩ := hpl
  obtain ⟨bits, hbits, hat⟩ := h.bitAt_eq
  apply slice_eq_of_bitAt
  intro j hj
  rw [Nat.add_assoc]
  apply hat _ _
  rw [show bits = _ from hbits]
  exact getElem?_flatMap_valueBits hi hj

/-- **A placed button is packed where it lies.** -/
theorem Packs.bitAt_button (h : Packs segs v held payload) {off n i : ℕ}
    (hpl : RunPlaced segs off n) (hi : i < n) : bitAt payload (off + i) = held i := by
  obtain ⟨front, back, rfl, rfl⟩ := hpl
  obtain ⟨bits, hbits, hat⟩ := h.bitAt_eq
  apply hat i _
  rw [show bits = _ from hbits, List.getElem?_map, List.getElem?_range hi, Option.map_some]

end Packing

/-! ### Positions -/

section Positions

variable {segs : List Segment}

/-- Every axis of the segments lies somewhere. -/
theorem exists_placed {a : Axis} (h : a ∈ axesOf segs) : ∃ off size, Placed segs a off size := by
  obtain ⟨seg, hseg, ha⟩ := List.mem_flatMap.mp h
  cases seg with
  | axes us size =>
    obtain ⟨front, back, rfl⟩ := List.append_of_mem hseg
    obtain ⟨i, hi⟩ := List.mem_iff_getElem?.mp ha
    exact ⟨_, size, front, us, back, i, rfl, hi, rfl⟩
  | _ => simp [Segment.axisList] at ha

/-- A placed axis belongs to an axis item of its size. -/
theorem Placed.mem_axes {a : Axis} {off size : ℕ} (h : Placed segs a off size) :
    ∃ us, Segment.axes us size ∈ segs ∧ a ∈ us := by
  obtain ⟨front, us, back, i, rfl, hi, -⟩ := h
  exact ⟨us, by simp, List.mem_of_getElem? hi⟩

theorem totalBitsOf_append_cons (front back : List Segment) (seg : Segment) :
    totalBitsOf (front ++ seg :: back) = totalBitsOf front + seg.bits + totalBitsOf back := by
  simp [totalBitsOf, Nat.add_assoc]

/-- A placed axis ends within the report. -/
theorem Placed.end_le {a : Axis} {off size : ℕ} (h : Placed segs a off size) :
    off + size ≤ totalBitsOf segs := by
  obtain ⟨front, us, back, i, rfl, hi, rfl⟩ := h
  obtain ⟨hilt, -⟩ := List.getElem?_eq_some_iff.mp hi
  have hmul : (i + 1) * size ≤ us.length * size := Nat.mul_le_mul_right size hilt
  rw [Nat.succ_mul] at hmul
  rw [totalBitsOf_append_cons, Segment.bits]
  omega

/-- The run of buttons ends within the report. -/
theorem RunPlaced.end_le {off n : ℕ} (h : RunPlaced segs off n) : off + n ≤ totalBitsOf segs := by
  obtain ⟨front, back, rfl, rfl⟩ := h
  rw [totalBitsOf_append_cons, Segment.bits]
  omega

/-- With one run of buttons at most, the report has button `i` exactly when that
run is long enough. -/
theorem any_hasButton_of_runPlaced (hone : (segs.filter Segment.isButtons).length ≤ 1) {off n : ℕ}
    (h : RunPlaced segs off n) (i : ℕ) : segs.any (Segment.hasButton i) = decide (i < n) := by
  obtain ⟨front, back, rfl, -⟩ := h
  have hself : (Segment.buttons n :: back).filter Segment.isButtons =
      .buttons n :: back.filter Segment.isButtons := rfl
  rw [List.filter_append, hself, List.length_append, List.length_cons] at hone
  -- a list without runs has no button
  have hother : ∀ l : List Segment, (l.filter Segment.isButtons).length = 0 →
      l.any (Segment.hasButton i) = false := by
    intro l hl
    rw [List.any_eq_false]
    intro seg hseg hbtn
    cases seg with
    | buttons m =>
      have hmem : Segment.buttons m ∈ l.filter Segment.isButtons := List.mem_filter.mpr ⟨hseg, rfl⟩
      have := List.length_pos_of_mem hmem
      omega
    | _ => simp [Segment.hasButton] at hbtn
  rw [List.any_append, List.any_cons, hother front (by omega), hother back (by omega)]
  simp [Segment.hasButton]

end Positions

/-! ### Decoding -/

section Decoding

variable {r : Option U8} {segs : List Segment} (d : MouseDescriptor r segs)

/-- A recorded axis is present. -/
theorem Ready.present {id : U8} {p : Parser} (hr : Ready id segs p) (h : WellFormed segs) {a : Axis}
    (ha : a ∈ axesOf segs) : (p.out.get a.sel).Present := by
  obtain ⟨off, size, hpl⟩ := exists_placed ha
  obtain ⟨us, hus, -⟩ := hpl.mem_axes
  have hsize : 1 ≤ size ∧ size ≤ 32 := h.inRange _ hus
  rw [hr.axis a off size hpl]
  intro h0
  have hnat : (BitVec.ofNat 8 size).toNat = 0 := congrArg BitVec.toNat h0
  rw [BitVec.toNat_ofNat] at hnat
  omega

/-- The two End Collections leave the layout and close both collections. -/
theorem MouseDescriptor.closed {p : Parser} (h : p.depth = 2) :
    ([d.endPhysical, d.endApplication].foldl handleItem p).depth = 0 ∧
      ([d.endPhysical, d.endApplication].foldl handleItem p).out = p.out := by
  rw [List.foldl_cons, List.foldl_cons, List.foldl_nil, d.endApplication_spec.handleItem_eq,
    d.endPhysical_spec.handleItem_eq]
  refine ⟨?_, rfl⟩
  simp [clearLocal, handleEndCollection, h]

/-- **The layout of a descriptor**: the parser's, and it is valid. -/
theorem MouseDescriptor.parse_eq (h : WellFormed segs) :
    zmkHidParseReportMap d.bytes =
      (0, { (runItems (d.header ++ d.body.flatten)).out with valid := true }) := by
  have hready := d.ready h
  have hitems : runItems (reportItems d.bytes) = [d.endPhysical, d.endApplication].foldl handleItem
      (runItems (d.header ++ d.body.flatten)) := by
    rw [MouseDescriptor.bytes, reportItems_flatMap_encode _ d.head_ne_long, MouseDescriptor.items,
      runItems, List.foldl_append, ← runItems]
  have hx : (runItems (d.header ++ d.body.flatten)).out.x.Present := hready.present h h.hasX
  have hy : (runItems (d.header ++ d.body.flatten)).out.y.Present := hready.present h h.hasY
  obtain ⟨hdepth, hout⟩ := d.closed hready.depth
  rw [zmkHidParseReportMap, runParser_eq_foldl, hitems]
  unfold Field.Present at hx hy
  simp only [hdepth, hout, bne_iff_ne.mpr hx, bne_iff_ne.mpr hy, BEq.rfl, Bool.and_self, if_true]

variable {v : Axis → ℤ} {held : ℕ → Bool} {payload : List U8}

/-- A placed axis reads back its value. -/
theorem extract_placed {a : Axis} {off size : ℕ} (hpl : Placed segs a off size)
    (h : WellFormed segs) (hv : ValuesInRange segs v) (hp : Packs segs v held payload) :
    extract payload ⟨BitVec.ofNat 16 off, BitVec.ofNat 8 size, true⟩ = v a := by
  obtain ⟨us, hus, ha⟩ := hpl.mem_axes
  have hsize : 1 ≤ size ∧ size ≤ 32 := h.inRange _ hus
  have hend := hpl.end_le
  have hbits := h.bits_le
  have hoff : (BitVec.ofNat 16 off).toNat = off := by
    rw [BitVec.toNat_ofNat]
    exact Nat.mod_eq_of_lt (by omega)
  have hs : (BitVec.ofNat 8 size).toNat = size := by
    rw [BitVec.toNat_ofNat]
    exact Nat.mod_eq_of_lt (by omega)
  obtain ⟨hlo, hhi⟩ := hv us size hus a ha
  rw [extract_eq_slice _ _ (by simp only [hs]; exact hsize.2), if_pos rfl]
  simp only [hoff]
  rw [hs, hp.slice_eq hpl, BitVec.toInt_ofInt_eq_self hsize.1 hlo hhi]

/-- An absent field reads zero. -/
theorem extract_of_not_present {p : List U8} {f : Field} (h : ¬ f.Present) : extract p f = 0 :=
  if_pos (not_not.mp h)

/-- An axis of a descriptor's report reads back its value, and one it has not
reads zero. -/
theorem Ready.extract_axis {id : U8} {p : Parser} (hr : Ready id segs p) (h : WellFormed segs)
    (hv : ValuesInRange segs v) (hp : Packs segs v held payload) (a : Axis) :
    extract payload (p.out.get a.sel) = if a ∈ axesOf segs then v a else 0 := by
  split
  · next ha =>
    obtain ⟨off, size, hpl⟩ := exists_placed ha
    rw [hr.axis a off size hpl, extract_placed hpl h hv hp]
  · next ha => exact extract_of_not_present (hr.noAxis a ha)

/-- Button `i` of a descriptor's report reads back its state. -/
theorem Ready.buttonBits_eq {id : U8} {p : Parser} (hr : Ready id segs p) (h : WellFormed segs)
    (hp : Packs segs v held payload) (i : ℕ) :
    (buttonBits { p.out with valid := true } payload).getLsbD i =
      (segs.any (Segment.hasButton i) && held i) := by
  rw [getLsbD_buttonBits]
  by_cases hrun : ∃ n, .buttons n ∈ segs
  · -- the run lies behind `front`, one bit a button
    obtain ⟨n, hn⟩ := hrun
    have hrange : 1 ≤ n ∧ n ≤ 16 := h.inRange _ hn
    obtain ⟨front, back, hsegs⟩ := List.append_of_mem hn
    have hpl : RunPlaced segs (totalBitsOf front) n := ⟨front, back, hsegs, rfl⟩
    obtain ⟨hbtn, hbc⟩ := hr.run _ _ hpl
    have hend := hpl.end_le
    have hbits := h.bits_le
    have hstride : buttonStride { p.out with valid := true } = 1 := by
      simp only [buttonStride, hbtn]
      rfl
    have hcount : min p.out.buttonCount.toNat maxButtons = n := by
      rw [hbc, BitVec.toNat_ofNat, maxButtons]
      omega
    have hoff : (BitVec.ofNat 16 (totalBitsOf front)).toNat = totalBitsOf front := by
      rw [BitVec.toNat_ofNat]
      exact Nat.mod_eq_of_lt (by omega)
    rw [any_hasButton_of_runPlaced h.oneRun hpl, hstride, hcount, hbtn]
    simp only [hoff, Nat.mul_one]
    by_cases hi : i < n
    · -- the field of button `i` is its one packed bit
      have hbit := hp.bitAt_button hpl hi
      have hne := (buttonField_ne_zero_iff payload (totalBitsOf front + i) (Nat.one_le_ofNat)).trans
        (not_congr slice_eq_zero_iff)
      have hone : (∀ j, j < 1 → bitAt payload (totalBitsOf front + i + j) = false) ↔
          held i = false :=
        ⟨fun hj => hbit ▸ hj 0 Nat.one_pos, fun hf j hj => by
          obtain rfl : j = 0 := by omega
          rw [Nat.add_zero, hbit, hf]⟩
      rw [hone] at hne
      simp only [hi, true_and, hne, decide_true, Bool.true_and]
      cases held i <;> rfl
    · simp [hi]
  · -- without a run no button is decoded
    push Not at hrun
    obtain ⟨-, hbc⟩ := hr.noRun hrun
    have hnone : segs.any (Segment.hasButton i) = false := by
      rw [List.any_eq_false]
      intro seg hseg hb
      cases seg with
      | buttons n => exact hrun n hseg
      | _ => simp [Segment.hasButton] at hb
    simp [hnone, hbc]

/-- The payload of a packed report is long enough for the descriptor's layout. -/
theorem Ready.payloadBits_le {id : U8} {p : Parser} (hr : Ready id segs p) (h : WellFormed segs)
    (hp : Packs segs v held payload) :
    payloadBits { p.out with valid := true } ≤ 8 * payload.length := by
  have hlen := hp.totalBitsOf_le
  have hbits := h.bits_le
  have haxis : ∀ a : Axis, (p.out.get a.sel).Present → (p.out.get a.sel).endBit ≤
      8 * payload.length := by
    intro a ha
    obtain ⟨off, size, hpl⟩ := exists_placed (by_contra fun hn => hr.noAxis a hn ha)
    obtain ⟨us, hus, -⟩ := hpl.mem_axes
    have hsize : 1 ≤ size ∧ size ≤ 32 := h.inRange _ hus
    have hend := hpl.end_le
    rw [hr.axis a off size hpl, Field.endBit, BitVec.toNat_ofNat, BitVec.toNat_ofNat]
    omega
  rw [payloadBits_le_iff]
  constructor
  · simp only [List.forall_mem_cons, List.not_mem_nil, false_implies, implies_true, and_true]
    exact ⟨haxis .x, haxis .y, haxis .wheel, haxis .acPan⟩
  · intro hbc
    by_cases hrun : ∃ n, .buttons n ∈ segs
    · obtain ⟨n, hn⟩ := hrun
      have hrange : 1 ≤ n ∧ n ≤ 16 := h.inRange _ hn
      obtain ⟨front, back, hsegs⟩ := List.append_of_mem hn
      have hpl : RunPlaced segs (totalBitsOf front) n := ⟨front, back, hsegs, rfl⟩
      obtain ⟨hbtn, hcount⟩ := hr.run _ _ hpl
      have hend := hpl.end_le
      have hstride : buttonStride { p.out with valid := true } = 1 := by
        simp only [buttonStride, hbtn]
        rfl
      rw [buttonsEnd, hstride, hbtn, hcount]
      simp only [BitVec.toNat_ofNat]
      omega
    · push Not at hrun
      exact absurd (hr.noRun hrun).2 hbc

/-- **Parsing a mouse descriptor and decoding a report packed as it says gives
back the packed values.** -/
theorem mouse_roundTrip (h : WellFormed segs) :
    (zmkHidParseReportMap d.bytes).1 = 0 ∧
      (zmkHidParseReportMap d.bytes).2.reportId = r.getD 0 ∧
      ∀ v held payload, ValuesInRange segs v → Packs segs v held payload →
        ∃ rep, zmkHidDecodeReport (zmkHidParseReportMap d.bytes).2 payload = some rep ∧
          rep.dx = v .x ∧ rep.dy = v .y ∧
          rep.wheel = (if .wheel ∈ axesOf segs then v .wheel else 0) ∧
          rep.hwheel = (if .acPan ∈ axesOf segs then v .acPan else 0) ∧
          ∀ i, rep.buttons.getLsbD i = (segs.any (Segment.hasButton i) && held i) := by
  have hready := d.ready h
  rw [d.parse_eq h]
  refine ⟨rfl, ?_, ?_⟩
  · -- X is recorded, so the Report ID is locked
    rcases hready.lock with ⟨-, hopen⟩ | hlock
    · have hx := hready.present h h.hasX
      simp only [pointerClosed, Bool.or_eq_false_iff, decide_eq_false_iff_not] at hopen
      exact absurd hx hopen.1.2
    · exact hlock
  · intro v held payload hv hp
    refine ⟨_, (zmkHidDecodeReport_eq_some_iff _ _ _).mpr ⟨rfl, hready.payloadBits_le h hp, rfl⟩,
      ?_, ?_, ?_, ?_, fun i => hready.buttonBits_eq h hp i⟩
    · exact (hready.extract_axis h hv hp .x).trans (if_pos h.hasX)
    · exact (hready.extract_axis h hv hp .y).trans (if_pos h.hasY)
    · exact hready.extract_axis h hv hp .wheel
    · exact hready.extract_axis h hv hp .acPan

end Decoding

/-- Three buttons and their padding, X and Y of twelve bits, and a wheel. -/
def wheelMouseSegments : List Segment :=
  [.buttons 3, .padding 5 1, .axes [.x, .y] 12, .axes [.wheel] 8]

/-- A mouse with these segments under Report ID 2. -/
def wheelMouse : MouseDescriptor (some 2) wheelMouseSegments where
  page := ⟨1, 0x0, 1, [0x01], rfl⟩
  mouse := ⟨2, 0x0, 1, [0x02], rfl⟩
  application := ⟨0, 0xA, 1, [0x01], rfl⟩
  reportId := [⟨1, 0x8, 1, [0x02], rfl⟩]
  pointer := ⟨2, 0x0, 1, [0x01], rfl⟩
  physical := ⟨0, 0xA, 0, [], rfl⟩
  body :=
    [[⟨1, 0x0, 1, [0x09], rfl⟩, ⟨2, 0x1, 1, [0x01], rfl⟩, ⟨2, 0x2, 1, [0x03], rfl⟩,
        ⟨1, 0x9, 1, [0x03], rfl⟩, ⟨1, 0x7, 1, [0x01], rfl⟩, ⟨0, 0x8, 1, [0x02], rfl⟩],
      [⟨1, 0x7, 1, [0x05], rfl⟩, ⟨1, 0x9, 1, [0x01], rfl⟩, ⟨0, 0x8, 1, [0x01], rfl⟩],
      [⟨1, 0x0, 1, [0x01], rfl⟩, ⟨2, 0x0, 1, [0x30], rfl⟩, ⟨2, 0x0, 1, [0x31], rfl⟩,
        ⟨1, 0x1, 2, [0x01, 0xf8], rfl⟩, ⟨1, 0x2, 2, [0xff, 0x07], rfl⟩,
        ⟨1, 0x7, 1, [0x0c], rfl⟩, ⟨1, 0x9, 1, [0x02], rfl⟩, ⟨0, 0x8, 1, [0x06], rfl⟩],
      [⟨1, 0x0, 1, [0x01], rfl⟩, ⟨2, 0x0, 1, [0x38], rfl⟩, ⟨1, 0x1, 1, [0x81], rfl⟩,
        ⟨1, 0x7, 1, [0x08], rfl⟩, ⟨1, 0x9, 1, [0x01], rfl⟩, ⟨0, 0x8, 1, [0x06], rfl⟩]]
  endPhysical := ⟨0, 0xC, 0, [], rfl⟩
  endApplication := ⟨0, 0xC, 0, [], rfl⟩
  page_spec := by decide
  mouse_spec := by decide
  application_spec := by decide
  reportId_spec := .cons (by decide) .nil
  pointer_spec := by decide
  physical_spec := by decide
  body_spec :=
    .cons ⟨_, _, (List.dropLast_append_getLast (by simp)).symm, by decide,
      ⟨rfl, rfl, rfl, Or.inl ⟨rfl, rfl, rfl⟩⟩, by decide, by decide⟩ <|
    .cons ⟨_, _, (List.dropLast_append_getLast (by simp)).symm, by decide, ⟨rfl, rfl, rfl⟩,
      by decide, by decide⟩ <|
    .cons ⟨_, _, (List.dropLast_append_getLast (by simp)).symm, by decide,
      ⟨rfl, rfl, rfl, ⟨-2047, rfl, by decide⟩, rfl, rfl, rfl⟩, by decide, by decide⟩ <|
    .cons ⟨_, _, (List.dropLast_append_getLast (by simp)).symm, by decide,
      ⟨rfl, rfl, rfl, ⟨-127, rfl, by decide⟩, rfl, rfl, rfl⟩, by decide, by decide⟩ .nil
  endPhysical_spec := by decide
  endApplication_spec := by decide

theorem wheelMouseSegments_wellFormed : WellFormed wheelMouseSegments where
  inRange := by simp [wheelMouseSegments, Segment.InRange]
  oneRun := by decide
  nodup := by decide
  hasX := by decide
  hasY := by decide
  bits_le := by decide

/-- X at -5, Y at 7 and the wheel at -1. -/
def wheelMouseMotion : Axis → ℤ
  | .x => -5
  | .y => 7
  | .wheel => -1
  | .acPan => 0

/-- A report of `wheelMouse` with the first button held, X at -5, Y at 7 and the
wheel at -1, set padding bits and a trailing byte. -/
theorem wheelMouse_roundTrip :
    ∃ rep, zmkHidDecodeReport (zmkHidParseReportMap wheelMouse.bytes).2
        [0xF9, 0xFB, 0x7F, 0x00, 0xFF, 0xAA] = some rep ∧
      rep.dx = -5 ∧ rep.dy = 7 ∧ rep.wheel = -1 ∧ rep.hwheel = 0 ∧ rep.buttons.getLsbD 0 := by
  have hv : ValuesInRange wheelMouseSegments wheelMouseMotion := by
    intro us size hseg a ha
    have hcases : us = [.x, .y] ∧ size = 12 ∨ us = [.wheel] ∧ size = 8 := by
      simpa [wheelMouseSegments] using hseg
    rcases hcases with ⟨rfl, rfl⟩ | ⟨rfl, rfl⟩ <;> cases a <;> simp [wheelMouseMotion] at ha ⊢
  have hp : Packs wheelMouseSegments wheelMouseMotion (· == 0)
      [0xF9, 0xFB, 0x7F, 0x00, 0xFF, 0xAA] :=
    ⟨[_, [true, true, true, true, true], _, _], .cons rfl (.cons rfl (.cons rfl (.cons rfl .nil))),
      by decide⟩
  obtain ⟨-, -, hall⟩ := mouse_roundTrip wheelMouse wheelMouseSegments_wellFormed
  obtain ⟨rep, hrep, hx, hy, hw, hh, hb⟩ := hall wheelMouseMotion (· == 0) _ hv hp
  exact ⟨rep, hrep, hx, hy, hw, hh, (hb 0).trans rfl⟩

end BleHidHost
