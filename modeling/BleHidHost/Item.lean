import BleHidHost.Lib.Bits
import BleHidHost.Report

/-!
# The item stream of a Report Map

A HID Report Map is a sequence of items.  A short item is a prefix byte, whose
bits give the item's type, its tag and the size of its data, and then 0, 1, 2 or
4 data bytes; a long item is the byte `0xFE`, a data size, a tag and its data.
`nextItem` reads one item off the front of a byte string, and `reportItems` is
the sequence of short items that a walk over the bytes meets: long items are
skipped, and a truncated item ends it.

## Main definitions

* `Item` — a short item; `Item.encode` is its byte form.
* `itemU`, `itemS` — the unsigned and the sign-extended value of item data.
* `reportItems` — the short items of a byte string.

## Main results

* `reportItems_encode_append` — an encoded short item is read back, and the
  walk goes on behind it.
* `reportItems_flatMap_encode` — encoding a list of short items and reading it
  back gives the list.
-/

namespace BleHidHost

open Lib

/-! ### Prefix decoding -/

/-- `bType` of a short item's prefix; `reserved` is the unassigned value 3. -/
inductive ItemType where
  | main
  | global
  | local
  | reserved
  deriving DecidableEq, Repr, Inhabited

/-- The tags of Main items that the walk tells apart. -/
inductive MainTag where
  | input
  | output
  | feature
  | collection
  | endCollection
  | other
  deriving DecidableEq, Repr, Inhabited

/-- The tags of Global items that the walk tells apart. -/
inductive GlobalTag where
  | usagePage
  | logicalMin
  | logicalMax
  | reportSize
  | reportId
  | reportCount
  | push
  | pop
  | other
  deriving DecidableEq, Repr, Inhabited

/-- The tags of Local items that the walk tells apart. -/
inductive LocalTag where
  | usage
  | usageMin
  | usageMax
  | other
  deriving DecidableEq, Repr, Inhabited

/-- `HID_TYPE_*`. -/
def itemType (t : BitVec 2) : ItemType :=
  if t = 0 then .main else if t = 1 then .global else if t = 2 then .local else .reserved

/-- `HID_MAIN_*`. -/
def mainTag (t : BitVec 4) : MainTag :=
  if t = 0x8 then .input
  else if t = 0x9 then .output
  else if t = 0xB then .feature
  else if t = 0xA then .collection
  else if t = 0xC then .endCollection
  else .other

/-- `HID_GLOBAL_*`. -/
def globalTag (t : BitVec 4) : GlobalTag :=
  if t = 0x0 then .usagePage
  else if t = 0x1 then .logicalMin
  else if t = 0x2 then .logicalMax
  else if t = 0x7 then .reportSize
  else if t = 0x8 then .reportId
  else if t = 0x9 then .reportCount
  else if t = 0xA then .push
  else if t = 0xB then .pop
  else .other

/-- `HID_LOCAL_*`. -/
def localTag (t : BitVec 4) : LocalTag :=
  if t = 0x0 then .usage
  else if t = 0x1 then .usageMin
  else if t = 0x2 then .usageMax
  else .other

/-! ### Items and their values -/

/-- The data size that the two low bits of a prefix stand for: 3 means 4. -/
def dataLen (bsize : BitVec 2) : ℕ := if bsize = 3 then 4 else bsize.toNat

/-- A short item: its `bType` and `bTag` bits, the size code of its prefix, and
data of exactly the size the code stands for. -/
structure Item where
  type : BitVec 2
  tag : BitVec 4
  bsize : BitVec 2
  data : List U8
  length_data : data.length = dataLen bsize
  deriving DecidableEq, Repr

/-- `item_u`: the data bytes read little-endian. -/
def itemU : List U8 → U32
  | [] => 0
  | b :: bs => b.setWidth 32 ||| itemU bs <<< 8

/-- `item_s`: the data bytes read little-endian and sign-extended, as the
`int32_t` they stand for. -/
def itemS (data : List U8) : ℤ :=
  let v := itemU data
  let size := data.length
  if 0 < size ∧ size < 4 then
    let signBit : U32 := 1 <<< (8 * size - 1)
    if v &&& signBit ≠ 0 then (v ||| ~~~((1 : U32) <<< (8 * size) - 1)).toInt else v.toInt
  else v.toInt

/-- The prefix byte of a short item. -/
def Item.head (it : Item) : U8 := it.tag ++ it.type ++ it.bsize

/-- The bytes of a short item. -/
def Item.encode (it : Item) : List U8 := it.head :: it.data

/-! ### Reading the stream -/

/-- `HID_ITEM_LONG`. -/
def itemLong : U8 := 0xFE

/-- What stands at the front of a byte string. -/
inductive Next where
  /-- Nothing more can be read: the string is empty or its item is truncated. -/
  | stop
  /-- A long item; `rest` starts behind it. -/
  | skip (rest : List U8)
  /-- A short item, and what follows it. -/
  | item (it : Item) (rest : List U8)
  deriving DecidableEq, Repr

/-- Read one item off the front of a byte string. -/
def nextItem : List U8 → Next
  | [] => .stop
  | h :: bs =>
    if h = itemLong then
      match bs with
      | [] => .stop
      | dsize :: _ => .skip (bs.drop (2 + dsize.toNat))
    else
      let bsize := h.extractLsb' 0 2
      if hlen : dataLen bsize ≤ bs.length then
        .item ⟨h.extractLsb' 2 2, h.extractLsb' 4 4, bsize, bs.take (dataLen bsize),
          by rw [List.length_take, Nat.min_eq_left hlen]⟩ (bs.drop (dataLen bsize))
      else .stop

/-- The short items met by a walk of at most `fuel` items. -/
def itemsAux : ℕ → List U8 → List Item
  | 0, _ => []
  | fuel + 1, bs =>
    match nextItem bs with
    | .stop => []
    | .skip rest => itemsAux fuel rest
    | .item it rest => it :: itemsAux fuel rest

/-- The short items of a byte string.  Every item takes at least one byte, so
the length of the string is fuel enough. -/
def reportItems (bs : List U8) : List Item := itemsAux bs.length bs

/-! ### Values -/

theorem dataLen_le (bsize : BitVec 2) : dataLen bsize ≤ 4 := by
  unfold dataLen
  split <;> omega

theorem Item.length_data_le (it : Item) : it.data.length ≤ 4 := by
  rw [it.length_data]
  exact dataLen_le it.bsize

/-- Data of fewer than four bytes are at most two. -/
theorem Item.length_data_le_two {it : Item} (h : it.data.length < 4) : it.data.length ≤ 2 := by
  have hcode := it.length_data
  unfold dataLen at hcode
  split at hcode
  · omega
  · next hne =>
    have hlt := it.bsize.isLt
    have h3 : it.bsize.toNat ≠ 3 := fun h3 => hne (BitVec.eq_of_toNat_eq h3)
    omega

/-- **`item_u` reads the little-endian number**, the data being at most four
bytes. -/
theorem toNat_itemU (data : List U8) (h : data.length ≤ 4) :
    (itemU data).toNat = leNat data := by
  induction data with
  | nil => rfl
  | cons b bs ih =>
    have hbs := ih (by simp at h; omega)
    have hlt : leNat bs < 256 ^ 3 :=
      lt_of_lt_of_le (leNat_lt bs) (Nat.pow_le_pow_right (by decide) (Nat.le_of_succ_le_succ h))
    have hsh : (itemU bs <<< 8).toNat = leNat bs <<< 8 := by
      rw [BitVec.toNat_shiftLeft, hbs, Nat.mod_eq_of_lt]
      rw [Nat.shiftLeft_eq]
      omega
    rw [itemU, BitVec.toNat_or, hsh, BitVec.toNat_setWidth, Nat.mod_eq_of_lt (by omega),
      Nat.or_comm, ← Nat.shiftLeft_add_eq_or_of_lt b.isLt, Nat.shiftLeft_eq, leNat_cons]
    omega

/-- A value in fewer than four bytes has at most 16 bits. -/
theorem Item.toNat_itemU_lt {it : Item} (h : it.data.length < 4) :
    (itemU it.data).toNat < 65536 := by
  rw [toNat_itemU _ it.length_data_le]
  exact (leNat_lt it.data).trans_le (Nat.pow_le_pow_right (by decide) (it.length_data_le_two h))

/-- The data bytes as a slice of their own number. -/
theorem itemU_eq_slice (data : List U8) (h : data.length ≤ 4) :
    itemU data = (slice data 0 (8 * data.length)).setWidth 32 := by
  have hlt := leNat_lt data
  rw [show 256 = 2 ^ 8 by rfl, ← pow_mul] at hlt
  apply BitVec.eq_of_toNat_eq
  rw [toNat_itemU data h, BitVec.toNat_setWidth, toNat_slice, pow_zero, Nat.div_one,
    Nat.mod_eq_of_lt hlt, Nat.mod_eq_of_lt]
  exact lt_of_lt_of_le hlt (Nat.pow_le_pow_right (by decide) (by omega))

/-- **`item_s` reads the little-endian number in two's complement.** -/
theorem itemS_eq_toInt (data : List U8) (h : data.length ≤ 4) :
    itemS data = (slice data 0 (8 * data.length)).toInt := by
  unfold itemS
  -- with the data read as a slice, only its width is left to look at
  rw [itemU_eq_slice data h]
  generalize slice data 0 (8 * data.length) = x
  generalize hs : data.length = s at x h
  simp only
  split
  · next hc =>
    have hext := congrArg BitVec.toInt
      (or_not_mask_eq_signExtend (w := 32) (s := 8 * s) (by omega) (by omega) x)
    rw [BitVec.toInt_signExtend_of_le (by omega)] at hext
    rw [← hext]
    split <;> split <;> first | rfl | contradiction
  · next hc =>
    -- no data, or a full word: there is no sign to extend
    rcases Nat.eq_zero_or_pos s with rfl | hpos
    · rw [BitVec.toInt_zero_length, BitVec.eq_nil x]
      rfl
    · obtain rfl : s = 4 := by omega
      rw [BitVec.setWidth_eq]

/-! ### Reading back -/

/-- The three bit groups of a prefix are the ones it was built from. -/
theorem extractLsb'_append₃ (t : BitVec 4) (y b : BitVec 2) :
    (t ++ y ++ b : U8).extractLsb' 0 2 = b ∧ (t ++ y ++ b : U8).extractLsb' 2 2 = y ∧
      (t ++ y ++ b : U8).extractLsb' 4 4 = t := by
  refine ⟨?_, ?_, ?_⟩ <;> ext i hi <;> simp <;> grind

/-- **An encoded short item is read back**, and what follows it is left. -/
theorem nextItem_encode_append (it : Item) (rest : List U8) (h : it.head ≠ itemLong) :
    nextItem (it.encode ++ rest) = .item it rest := by
  obtain ⟨type, tag, bsize, data, hlen⟩ := it
  obtain ⟨hb, ht, hg⟩ := extractLsb'_append₃ tag type bsize
  simp only [Item.encode, Item.head, List.cons_append, nextItem] at h ⊢
  rw [if_neg h]
  simp only [hb, ht, hg, ← hlen, List.length_append, Nat.le_add_right, dite_true,
    List.take_left, List.drop_left]

/-- Only an item of the reserved type can begin like a long item. -/
theorem Item.head_ne_itemLong {it : Item} (h : itemType it.type ≠ .reserved) :
    it.head ≠ itemLong := by
  intro hlong
  obtain ⟨-, hy, -⟩ := extractLsb'_append₃ it.tag it.type it.bsize
  rw [← Item.head, hlong] at hy
  rw [← hy] at h
  exact h (by decide)

/-- Reading an item leaves less to read. -/
theorem nextItem_skip_length {bs rest : List U8} (h : nextItem bs = .skip rest) :
    rest.length < bs.length := by
  cases bs with
  | nil => simp [nextItem] at h
  | cons b bs =>
    simp only [nextItem] at h
    split at h
    · cases bs with
      | nil => simp at h
      | cons d bs =>
        simp only [Next.skip.injEq] at h
        rw [← h]
        simp only [List.length_drop, List.length_cons]
        omega
    · -- a short item is not skipped
      split at h <;> simp at h

theorem nextItem_item_length {bs rest : List U8} {it : Item} (h : nextItem bs = .item it rest) :
    rest.length < bs.length := by
  cases bs with
  | nil => simp [nextItem] at h
  | cons b bs =>
    simp only [nextItem] at h
    split at h
    · cases bs <;> simp at h
    · split at h
      · simp only [Next.item.injEq] at h
        rw [← h.2, List.length_drop, List.length_cons]
        omega
      · simp at h

/-- Fuel beyond the length of the string changes nothing. -/
theorem itemsAux_eq_of_le {fuel fuel' : ℕ} {bs : List U8} (h : bs.length ≤ fuel)
    (h' : bs.length ≤ fuel') : itemsAux fuel bs = itemsAux fuel' bs := by
  induction fuel generalizing fuel' bs with
  | zero =>
    obtain rfl : bs = [] := List.length_eq_zero_iff.mp (by omega)
    cases fuel' <;> simp [itemsAux, nextItem]
  | succ fuel ih =>
    cases fuel' with
    | zero =>
      obtain rfl : bs = [] := List.length_eq_zero_iff.mp (by omega)
      simp [itemsAux, nextItem]
    | succ fuel' =>
      simp only [itemsAux]
      cases hn : nextItem bs with
      | stop => rfl
      | skip rest =>
        have := nextItem_skip_length hn
        exact ih (by omega) (by omega)
      | item it rest =>
        have := nextItem_item_length hn
        exact congrArg _ (ih (by omega) (by omega))

/-- There are at most as many items as bytes. -/
theorem length_reportItems_le (bs : List U8) : (reportItems bs).length ≤ bs.length := by
  have haux : ∀ (fuel : ℕ) (bs : List U8), (itemsAux fuel bs).length ≤ fuel := by
    intro fuel
    induction fuel with
    | zero => intro bs; simp [itemsAux]
    | succ fuel ih =>
      intro bs
      rw [itemsAux]
      cases nextItem bs with
      | stop => simp
      | skip rest => exact (ih rest).trans (Nat.le_succ fuel)
      | item it rest => simpa using ih rest
  exact haux bs.length bs

@[simp] theorem reportItems_nil : reportItems [] = [] := rfl

/-- The stream read item by item. -/
theorem reportItems_eq (bs : List U8) :
    reportItems bs = match nextItem bs with
      | .stop => []
      | .skip rest => reportItems rest
      | .item it rest => it :: reportItems rest := by
  unfold reportItems
  rw [itemsAux_eq_of_le le_rfl (Nat.le_succ bs.length), itemsAux]
  cases hn : nextItem bs with
  | stop => rfl
  | skip rest => exact itemsAux_eq_of_le (nextItem_skip_length hn).le le_rfl
  | item it rest => exact congrArg _ (itemsAux_eq_of_le (nextItem_item_length hn).le le_rfl)

/-- **An encoded short item is the first item of the stream**, and the walk goes
on behind it. -/
theorem reportItems_encode_append (it : Item) (rest : List U8) (h : it.head ≠ itemLong) :
    reportItems (it.encode ++ rest) = it :: reportItems rest := by
  rw [reportItems_eq, nextItem_encode_append it rest h]

/-- **Encoding a list of short items and reading it back gives the list.** -/
theorem reportItems_flatMap_encode (its : List Item) (h : ∀ it ∈ its, it.head ≠ itemLong) :
    reportItems (its.flatMap Item.encode) = its := by
  induction its with
  | nil => rfl
  | cons it its ih =>
    rw [List.flatMap_cons, reportItems_encode_append it _ (h it List.mem_cons_self),
      ih fun it' hit => h it' (List.mem_cons_of_mem _ hit)]

end BleHidHost
