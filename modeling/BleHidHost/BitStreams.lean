import BleHidHost.Recording

/-!
# One bit stream for each Report ID

In a HID descriptor the fields of a report are packed in the order of the Input
items declared under its Report ID, wherever in the descriptor those items
stand.  The parser keeps a single bit cursor and zeroes it at every change of
Report ID.  `census` is the declared history of an item list in unbounded
numbers: the Report Size, Count and ID in force, and the Input items met so far
with the bits of each, split at the last change of the one-byte Report ID.

## Main definitions

* `Census`, `census` — what a list of items declares.
* `streamBits` — the bits of all earlier Input items under the same Report ID.
* `strayBits`, `alienBits` — what the single cursor misses, and what it counts
  although it belongs to another Report ID.

## Main results

* `tracks_walkItems` — the parser's cursor counts the Input items since the last
  show of Report ID.
* `bitOffset_eq_streamBits_iff` — **a recorded offset is its stream's offset
  exactly when the cursor misses as much as it counts in excess.**
-/

namespace BleHidHost

open Lib

/-! ### The declared history -/

/-- What a list of items declares: the most recent Report Size, Count and ID, and
each Input item's Report ID and bits, those since the last change of the
one-byte Report ID apart from the older ones. -/
structure Census where
  size : ℕ
  count : ℕ
  id : ℕ
  old : List (ℕ × ℕ)
  run : List (ℕ × ℕ)
  deriving DecidableEq, Repr

/-- All Input items met so far. -/
def Census.inputs (c : Census) : List (ℕ × ℕ) := c.old ++ c.run

/-- One item of the declared history. -/
def Census.step (c : Census) (it : Item) : Census :=
  match itemType it.type with
  | .main =>
    match mainTag it.tag with
    | .input => { c with run := c.run ++ [(c.id, c.size * c.count)] }
    | _ => c
  | .global =>
    match globalTag it.tag with
    | .reportSize => { c with size := leNat it.data }
    | .reportCount => { c with count := leNat it.data }
    | .reportId =>
      if leNat it.data % 256 = c.id % 256 then { c with id := leNat it.data }
      else { c with id := leNat it.data, old := c.old ++ c.run, run := [] }
    | _ => c
  | _ => c

/-- The declared history of a list of items. -/
def census (its : List Item) : Census := its.foldl Census.step ⟨0, 0, 0, [], []⟩

theorem census_concat (its : List Item) (it : Item) :
    census (its ++ [it]) = (census its).step it := by
  simp [census, List.foldl_append]

/-- The bits of the Input items declared under Report ID `r`. -/
def bitsUnder (r : ℕ) (inputs : List (ℕ × ℕ)) : ℕ :=
  ((inputs.filter (·.1 = r)).map Prod.snd).sum

/-- The bits of the Input items declared under another Report ID than `r`. -/
def bitsBeside (r : ℕ) (inputs : List (ℕ × ℕ)) : ℕ :=
  ((inputs.filter (·.1 ≠ r)).map Prod.snd).sum

/-- The bits of all Input items. -/
def bitsOfAll (inputs : List (ℕ × ℕ)) : ℕ := (inputs.map Prod.snd).sum

/-- The bits of all Input items before item `k` declared under the Report ID in
force at item `k`. -/
def streamBits (its : List Item) (k : ℕ) : ℕ :=
  bitsUnder (census (its.take k)).id (census (its.take k)).inputs

/-- Of these, the bits declared before the last change of Report ID. -/
def strayBits (its : List Item) (k : ℕ) : ℕ :=
  bitsUnder (census (its.take k)).id (census (its.take k)).old

/-- The bits declared since the last change of the one-byte Report ID under a
wider Report ID that only shares its low byte. -/
def alienBits (its : List Item) (k : ℕ) : ℕ :=
  bitsBeside (census (its.take k)).id (census (its.take k)).run

/-- The list has no Push and no Pop. -/
def NoPushPop (its : List Item) : Prop :=
  ∀ it ∈ its, itemType it.type = .global → globalTag it.tag ≠ .push ∧ globalTag it.tag ≠ .pop

/-- Every Report Size and Report Count value fits in 8 bits. -/
def SizesFit (its : List Item) : Prop :=
  ∀ it ∈ its, itemType it.type = .global →
    globalTag it.tag = .reportSize ∨ globalTag it.tag = .reportCount → leNat it.data ≤ 255

instance (its : List Item) : Decidable (NoPushPop its) := by unfold NoPushPop; exact inferInstance

instance (its : List Item) : Decidable (SizesFit its) := by unfold SizesFit; exact inferInstance

theorem bitsUnder_append (r : ℕ) (l₁ l₂ : List (ℕ × ℕ)) :
    bitsUnder r (l₁ ++ l₂) = bitsUnder r l₁ + bitsUnder r l₂ := by
  simp [bitsUnder]

/-- A list's bits are those under a Report ID and those beside it. -/
theorem bitsUnder_add_bitsBeside (r : ℕ) (l : List (ℕ × ℕ)) :
    bitsUnder r l + bitsBeside r l = bitsOfAll l := by
  induction l with
  | nil => rfl
  | cons a l ih =>
    unfold bitsUnder bitsBeside bitsOfAll at ih ⊢
    by_cases h : a.1 = r
    · simp [h, ← ih, Nat.add_assoc]
    · simp [h, ← ih, Nat.add_left_comm]

/-! ### The parser's state against the declared history -/

/-- The walk follows the declared history: its registers hold the declared
values, and its cursor the bits since the last change of Report ID, `n` items
being too few to fill it. -/
structure Tracks (w : Walk) (c : Census) (n : ℕ) : Prop where
  size : w.g.reportSize.toNat = c.size
  count : w.g.reportCount.toNat = c.count
  id : w.g.reportId.toNat = c.id % 256
  cursor : w.bitCursor.toNat = bitsOfAll c.run
  bound : bitsOfAll c.run ≤ 65025 * n

/-- The low byte of an item's value. -/
theorem toNat_itemU_low (it : Item) :
    ((itemU it.data).setWidth 8 : U8).toNat = leNat it.data % 256 := by
  rw [BitVec.toNat_setWidth, toNat_itemU _ it.length_data_le]

/-- A Report Size or Count that fits is held as declared. -/
theorem toNat_itemU_of_le {it : Item} (h : leNat it.data ≤ 255) :
    ((itemU it.data).setWidth 8 : U8).toNat = leNat it.data := by
  rw [toNat_itemU_low, Nat.mod_eq_of_lt (by omega)]

/-- The bits of one Input item are at most 255 × 255. -/
theorem Tracks.mul_le {w : Walk} {c : Census} {n : ℕ} (h : Tracks w c n) :
    c.size * c.count ≤ 65025 := by
  have hs : c.size ≤ 255 := by have := w.g.reportSize.isLt; have := h.size; omega
  have hc : c.count ≤ 255 := by have := w.g.reportCount.isLt; have := h.count; omega
  calc c.size * c.count ≤ 255 * 255 := Nat.mul_le_mul hs hc
    _ = 65025 := rfl

/-- A product of two bytes is small. -/
theorem toNat_mul_le (a b : U8) : a.toNat * b.toNat ≤ 65025 := by
  have ha := a.isLt
  have hb := b.isLt
  exact Nat.mul_le_mul (by omega : _ ≤ 255) (by omega : _ ≤ 255)

/-- The product of two bytes as words does not wrap. -/
theorem toNat_mul_setWidth (a b : U8) :
    (a.setWidth 32 * b.setWidth 32 : U32).toNat = a.toNat * b.toNat := by
  have ha := a.isLt
  have hb := b.isLt
  have hmul := toNat_mul_le a b
  rw [BitVec.toNat_mul, BitVec.toNat_setWidth, BitVec.toNat_setWidth,
    Nat.mod_eq_of_lt (a := a.toNat) (by omega), Nat.mod_eq_of_lt (a := b.toNat) (by omega),
    Nat.mod_eq_of_lt (by omega)]

/-- The product the source computes is the declared one. -/
theorem toNat_totalBits (w : Walk) :
    (totalBits w).toNat = w.g.reportSize.toNat * w.g.reportCount.toNat :=
  toNat_mul_setWidth _ _

/-- Below the saturation point the cursor advances by the item's bits. -/
theorem toNat_advance {cursor bits : U32} (h : cursor.toNat + bits.toNat < 2 ^ 32) :
    (advance cursor bits).toNat = cursor.toNat + bits.toNat := by
  have hsum : (cursor + bits).toNat = cursor.toNat + bits.toNat := by
    rw [BitVec.toNat_add, Nat.mod_eq_of_lt h]
  rw [advance, if_neg, hsum]
  rw [BitVec.lt_def, hsum]
  omega

/-- **One item keeps the walk with the declared history.** -/
theorem Tracks.step {w : Walk} {c : Census} {n : ℕ} {it : Item} (h : Tracks w c n)
    (hn : n ≤ 60000)
    (hpp : itemType it.type = .global → globalTag it.tag ≠ .push ∧ globalTag it.tag ≠ .pop)
    (hfit : itemType it.type = .global →
      globalTag it.tag = .reportSize ∨ globalTag it.tag = .reportCount → leNat it.data ≤ 255) :
    Tracks (walkItem w it) (c.step it) (n + 1) := by
  have hmul := h.mul_le
  have hb := h.bound
  -- an item that leaves registers and cursor alone only loosens the bound
  have hkeep : Tracks w c (n + 1) := ⟨h.size, h.count, h.id, h.cursor, by omega⟩
  unfold walkItem handleItem dispatch Census.step
  cases ht : itemType it.type with
  | main =>
    cases hg : mainTag it.tag with
    | input =>
      -- the cursor grows by the declared product, far from saturating
      have htot := toNat_totalBits w
      rw [h.size, h.count] at htot
      have hall : bitsOfAll (c.run ++ [(c.id, c.size * c.count)]) =
          bitsOfAll c.run + c.size * c.count := by simp [bitsOfAll]
      refine ⟨h.size, h.count, h.id, ?_, by rw [hall]; omega⟩
      rw [hall, ← h.cursor, ← htot]
      exact toNat_advance (by rw [h.cursor, htot]; omega)
    | _ => exact ⟨h.size, h.count, h.id, h.cursor, hkeep.bound⟩
  | global =>
    cases hg : globalTag it.tag with
    | reportSize =>
      exact ⟨toNat_itemU_of_le (hfit ht (Or.inl hg)), h.count, h.id, h.cursor, hkeep.bound⟩
    | reportCount =>
      exact ⟨h.size, toNat_itemU_of_le (hfit ht (Or.inr hg)), h.id, h.cursor, hkeep.bound⟩
    | reportId =>
      -- the parser zeroes its cursor exactly when the low byte changes
      have hlow := toNat_itemU_low it
      have hiff : ((itemU it.data).setWidth 8 : U8) = w.g.reportId ↔
          leNat it.data % 256 = c.id % 256 := by
        rw [← BitVec.toNat_inj, hlow, h.id]
      by_cases hsame : leNat it.data % 256 = c.id % 256
      · rw [if_pos hsame]
        refine ⟨h.size, h.count, hlow, ?_, hkeep.bound⟩
        simp only [handleGlobal, ne_eq, hiff.mpr hsame, not_true_eq_false, if_false]
        exact h.cursor
      · -- a new stream: the run starts empty, and the cursor at zero
        rw [if_neg hsame]
        refine ⟨h.size, h.count, hlow, ?_, Nat.zero_le _⟩
        simp only [handleGlobal, ne_eq, mt hiff.mp hsame, not_false_eq_true, if_true]
        rfl
    | push => exact absurd hg (hpp ht).1
    | pop => exact absurd hg (hpp ht).2
    | _ => exact ⟨h.size, h.count, h.id, h.cursor, hkeep.bound⟩
  | «local» =>
    cases localTag it.tag <;> exact ⟨h.size, h.count, h.id, h.cursor, hkeep.bound⟩
  | reserved => exact hkeep

/-- **The walk over a list of items keeps with the declared history.** -/
theorem tracks_walkItems {its : List Item} (hlen : its.length ≤ 60000) (hpp : NoPushPop its)
    (hfit : SizesFit its) : Tracks (walkItems its) (census its) its.length := by
  induction its using List.reverseRecOn with
  | nil => exact ⟨rfl, rfl, rfl, rfl, le_rfl⟩
  | append_singleton its it ih =>
    rw [List.length_append, List.length_singleton] at hlen ⊢
    have hmem : ∀ it' ∈ its, it' ∈ its ++ [it] := fun it' h => List.mem_append_left _ h
    rw [walkItems_concat, census_concat]
    exact (ih (by omega) (fun it' h => hpp it' (hmem it' h))
      (fun it' h => hfit it' (hmem it' h))).step (by omega) (hpp it (by simp)) (hfit it (by simp))

/-! ### Recorded offsets against the streams -/

/-- A prefix of a list keeps the list's promises. -/
theorem tracks_before {m : List U8} (hlen : m.length ≤ 512) (hpp : NoPushPop (reportItems m))
    (hfit : SizesFit (reportItems m)) (k : ℕ) :
    ∃ n ≤ 512, Tracks (before (reportItems m) k).toWalk (census ((reportItems m).take k)) n := by
  have hitems := length_reportItems_le m
  have htake : ((reportItems m).take k).length ≤ 512 := by
    rw [List.length_take]
    omega
  exact ⟨_, htake, tracks_walkItems (by omega) (fun it h => hpp it (List.mem_of_mem_take h))
    (fun it h => hfit it (List.mem_of_mem_take h))⟩

/-- The cursor misses the stray bits of the stream and counts the alien ones. -/
theorem cursor_add_strayBits {w : Walk} {its : List Item} {k n : ℕ}
    (h : Tracks w (census (its.take k)) n) :
    w.bitCursor.toNat + strayBits its k = streamBits its k + alienBits its k := by
  have hsplit := bitsUnder_add_bitsBeside (census (its.take k)).id (census (its.take k)).run
  rw [h.cursor, ← hsplit, streamBits, strayBits, alienBits, Census.inputs, bitsUnder_append]
  omega

/-- The offset of a slot in the arithmetic of the source. -/
theorem toNat_slotOffset_mod (w : Walk) (b : U32) (i : ℕ) :
    (slotOffset w b i).toNat = (b.toNat + i * w.g.reportSize.toNat) % 2 ^ 32 := by
  have hs := w.g.reportSize.isLt
  rw [slotOffset, BitVec.toNat_add, BitVec.toNat_mul, BitVec.toNat_ofNat, BitVec.toNat_setWidth,
    Nat.mod_eq_of_lt (a := w.g.reportSize.toNat) (by omega), Nat.mod_mul_mod, Nat.add_mod_mod]

/-- A slot of a recorded field lies where the numbers say: nothing wraps. -/
theorem toNat_slotOffset {w : Walk} {c : Census} {n i : ℕ} (h : Tracks w c n) (hn : n ≤ 512)
    (hi : i ≤ 255) : (slotOffset w w.bitCursor i).toNat = w.bitCursor.toNat + i * c.size := by
  have hb := h.bound
  have hs := w.g.reportSize.isLt
  have hsize := h.size
  have hcur := h.cursor
  have hmul : i * c.size ≤ 255 * 255 := Nat.mul_le_mul hi (by omega)
  rw [toNat_slotOffset_mod, hsize, Nat.mod_eq_of_lt (by omega)]

/-- An offset whose end fits 16 bits is narrowed without loss. -/
theorem toNat_setWidth_of_fits {off size : U32} (hoff : off.toNat < 2 ^ 31)
    (hsize : size.toNat < 2 ^ 31) (h : off + size ≤ bitOffsetMax) :
    (off.setWidth 16 : U16).toNat = off.toNat := by
  rw [BitVec.le_def, BitVec.toNat_add, Nat.mod_eq_of_lt (by omega)] at h
  have hmax : bitOffsetMax.toNat = 65535 := rfl
  rw [BitVec.toNat_setWidth, Nat.mod_eq_of_lt (by omega)]

/-- A product of two register-sized numbers is far from wrapping. -/
theorem toNat_mul_setWidth_lt (a b : U8) :
    (a.setWidth 32 * b.setWidth 32 : U32).toNat < 2 ^ 31 := by
  have hmul := toNat_mul_le a b
  rw [toNat_mul_setWidth]
  omega

/-- **The offset of a recorded pointer field is the cursor plus the slots before
it**, as numbers. -/
theorem toNat_bitOffset_of_recordedAt {m : List U8} (hlen : m.length ≤ 512)
    (hpp : NoPushPop (reportItems m)) (hfit : SizesFit (reportItems m)) {s : PointerSel} {k i : ℕ}
    (h : RecordedAt (reportItems m) s k i) :
    ((zmkHidParseReportMap m).2.get s).bitOffset.toNat =
      (before (reportItems m) k).bitCursor.toNat +
        i * (census ((reportItems m).take k)).size := by
  obtain ⟨n, hn, htr⟩ := tracks_before hlen hpp hfit k
  obtain ⟨-, -, -, -, hrec⟩ := id h
  have hoff := toNat_slotOffset htr hn hrec.slot_le
  have hcur := htr.cursor
  have hbound := htr.bound
  have hsmall : (slotOffset (before (reportItems m) k).toWalk
      (before (reportItems m) k).bitCursor i).toNat < 2 ^ 31 := by
    have hsize := htr.size
    have hs := (before (reportItems m) k).g.reportSize.isLt
    have hmul : i * (census ((reportItems m).take k)).size ≤ 255 * 255 :=
      Nat.mul_le_mul hrec.slot_le (by omega)
    omega
  have hget : (zmkHidParseReportMap m).2.get s = (runItems (reportItems m)).out.get s := by
    rw [zmkHidParseReportMap_snd]
    cases s <;> rfl
  rw [hget, runItems_out_get_of_recordedAt h, ← hoff]
  -- the field was recorded, so its end fits 16 bits and so does its offset
  refine toNat_setWidth_of_fits hsmall ?_ hrec.fits
  split
  · exact toNat_mul_setWidth_lt _ _
  · have := (before (reportItems m) k).g.reportSize.isLt
    rw [BitVec.toNat_setWidth]
    omega

/-- The same for a keyboard field, which always starts at the cursor. -/
theorem toNat_bitOffset_of_kbdRecordedAt {m : List U8} (hlen : m.length ≤ 512)
    (hpp : NoPushPop (reportItems m)) (hfit : SizesFit (reportItems m)) {s : KbdSel} {k : ℕ}
    (h : KbdRecordedAt (reportItems m) s k) :
    ((zmkHidParseKeyboardReportMap m).2.get s).bitOffset.toNat =
      (before (reportItems m) k).bitCursor.toNat := by
  obtain ⟨n, hn, htr⟩ := tracks_before hlen hpp hfit k
  have hcur := htr.cursor
  have hbound := htr.bound
  have hget : (zmkHidParseKeyboardReportMap m).2.get s =
      (runItems (reportItems m)).outKbd.get s := by
    rw [zmkHidParseKeyboardReportMap_snd]
    cases s <;> rfl
  obtain ⟨hfits, hrec⟩ := runItems_outKbd_get_of_recordedAt h
  rw [hget, hrec]
  refine toNat_setWidth_of_fits (by omega) ?_ hfits
  cases s <;> exact toNat_mul_setWidth_lt _ _

/-- **A recorded offset is its stream's offset exactly when the cursor misses as
much of the stream as it counts in excess.**  For the one-byte Report IDs of the
HID specification nothing is counted in excess, and the offset is right exactly
when no bits were declared under the same Report ID before its last change. -/
theorem bitOffset_eq_streamBits_iff {m : List U8} (hlen : m.length ≤ 512)
    (hpp : NoPushPop (reportItems m)) (hfit : SizesFit (reportItems m)) :
    (∀ s k i, RecordedAt (reportItems m) s k i →
      (((zmkHidParseReportMap m).2.get s).bitOffset.toNat =
          streamBits (reportItems m) k + i * (census ((reportItems m).take k)).size ↔
        alienBits (reportItems m) k = strayBits (reportItems m) k)) ∧
    (∀ s k, KbdRecordedAt (reportItems m) s k →
      (((zmkHidParseKeyboardReportMap m).2.get s).bitOffset.toNat =
          streamBits (reportItems m) k ↔
        alienBits (reportItems m) k = strayBits (reportItems m) k)) := by
  constructor
  · -- pointer fields: `i * size` stands on both sides
    intro s k i h
    obtain ⟨n, -, htr⟩ := tracks_before hlen hpp hfit k
    have hcursor := cursor_add_strayBits htr
    rw [toNat_bitOffset_of_recordedAt hlen hpp hfit h]
    omega
  · intro s k h
    obtain ⟨n, -, htr⟩ := tracks_before hlen hpp hfit k
    have hcursor := cursor_add_strayBits htr
    rw [toNat_bitOffset_of_kbdRecordedAt hlen hpp hfit h]
    omega

/-- A mouse that declares its buttons under Report ID 1, a Feature report under
Report ID 2, and X and Y under Report ID 1 again. -/
def returningMap : List U8 :=
  [0x05, 0x01, 0x09, 0x02, 0xa1, 0x01,
   0x85, 0x01, 0x05, 0x09, 0x95, 0x08, 0x75, 0x01, 0x81, 0x02,
   0x85, 0x02, 0xb1, 0x02,
   0x85, 0x01, 0x05, 0x01, 0x09, 0x30, 0x09, 0x31, 0x15, 0x81, 0x75, 0x08, 0x95, 0x02, 0x81, 0x06,
   0xc0]

/-- X of `returningMap` lies behind the eight buttons of its stream, and the
parser puts it on top of them. -/
theorem returningMap_x_misplaced :
    returningMap.length ≤ 512 ∧ NoPushPop (reportItems returningMap) ∧
      SizesFit (reportItems returningMap) ∧ (zmkHidParseReportMap returningMap).1 = 0 ∧
      RecordedAt (reportItems returningMap) .x 17 0 ∧
      streamBits (reportItems returningMap) 17 = 8 ∧
      ((zmkHidParseReportMap returningMap).2.get .x).bitOffset.toNat ≠
        streamBits (reportItems returningMap) 17 +
          0 * (census ((reportItems returningMap).take 17)).size := by
  decide +kernel

/-- A mouse with two bytes under Report ID 2, and under Report ID 1 its buttons, X and Y. -/
def twoStreamMap : List U8 :=
  [0x05, 0x01, 0x09, 0x02, 0xa1, 0x01,
   0x85, 0x02, 0x75, 0x08, 0x95, 0x02, 0x81, 0x03,
   0x85, 0x01, 0x05, 0x09, 0x75, 0x01, 0x95, 0x08, 0x81, 0x02,
   0x05, 0x01, 0x09, 0x30, 0x09, 0x31, 0x15, 0x81, 0x75, 0x08, 0x95, 0x02, 0x81, 0x06, 0xc0]

/-- Y of `twoStreamMap` lies behind the buttons and X of its stream, and the bytes of the
other stream do not count. -/
theorem twoStreamMap_y_offset :
    (zmkHidParseReportMap twoStreamMap).1 = 0 ∧ streamBits (reportItems twoStreamMap) 18 = 8 ∧
      (census ((reportItems twoStreamMap).take 18)).size = 8 ∧
      ((zmkHidParseReportMap twoStreamMap).2.get .y).bitOffset.toNat =
        streamBits (reportItems twoStreamMap) 18 +
          1 * (census ((reportItems twoStreamMap).take 18)).size := by
  have hrecorded : RecordedAt (reportItems twoStreamMap) .y 18 1 := by decide +kernel
  have hnone :
      alienBits (reportItems twoStreamMap) 18 = strayBits (reportItems twoStreamMap) 18 := by
    decide +kernel
  exact ⟨by decide +kernel, by decide +kernel, by decide +kernel,
    ((bitOffset_eq_streamBits_iff (by decide) (by decide +kernel) (by decide +kernel)).1 .y 18 1
      hrecorded).mpr hnone⟩

end BleHidHost
