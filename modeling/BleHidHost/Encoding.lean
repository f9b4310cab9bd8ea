import BleHidHost.Nesting

/-!
# The width of an encoding

The size of a short item's data is a matter of its encoding: a value may be written in
more bytes than it takes, and a usage may carry the page it is on.  Long items, and short
items of the reserved type, say nothing.  A map may be rewritten accordingly, item by item,
and is read at other offsets from then on.

## Main definitions

* `SameValue` — an item that has the value of another.
* `Reencodes` — a byte string that spells a list of items, with what says nothing between.

## Main results

* `handleItem_eq_of_sameValue` — the parser does not tell such items apart.
* `zmkHidParse_eq_of_reencodes` — **both layouts are those of the list of items.**
-/

namespace BleHidHost

open Lib

/-! ### Items of one value -/

/-- The item's value is an unsigned number: a Main item, a Global item other than Logical
Minimum, a Usage Minimum or a Usage Maximum. -/
def Item.isUnsigned (it : Item) : Bool :=
  match itemType it.type with
  | .main => true
  | .global => globalTag it.tag != .logicalMin
  | .local => localTag it.tag == .usageMin || localTag it.tag == .usageMax
  | .reserved => false

/-- `it'` has the value of `it`, where the current Usage Page is `page`.  Its data may be of
another size. -/
inductive SameValue (page : U16) (it it' : Item) : Prop
  | kept (heq : it' = it)
  /-- The number is the same, with zeros behind it or without. -/
  | unsigned (htype : it'.type = it.type) (htag : it'.tag = it.tag) (hit : it.isUnsigned)
    (hvalue : leNat it'.data = leNat it.data)
  /-- A Logical Minimum is the same number in two's complement. -/
  | signed (htype : it'.type = it.type) (htag : it'.tag = it.tag)
    (hit : itemType it.type = .global ∧ globalTag it.tag = .logicalMin)
    (hvalue : leInt it'.data = leInt it.data)
  /-- A Usage without a page is given the current one, in the high half of four bytes. -/
  | usage (htype : it'.type = it.type) (htag : it'.tag = it.tag)
    (hit : itemType it.type = .local ∧ localTag it.tag = .usage) (hshort : it.data.length < 4)
    (hlong : it'.data.length = 4)
    (hvalue : leNat it'.data = page.toNat * 65536 + leNat it.data)

variable {page : U16} {it it' : Item} {p : Parser}

/-- Items of one unsigned number have one value. -/
theorem itemU_eq_of_leNat (h : leNat it'.data = leNat it.data) : itemU it'.data = itemU it.data := by
  apply BitVec.eq_of_toNat_eq
  rw [toNat_itemU _ it'.length_data_le, toNat_itemU _ it.length_data_le, h]

/-- Items of one number in two's complement have one signed value. -/
theorem itemS_eq_of_leInt (h : leInt it'.data = leInt it.data) : itemS it'.data = itemS it.data := by
  rw [itemS_eq_toInt _ it'.length_data_le, itemS_eq_toInt _ it.length_data_le,
    toInt_slice_eq_leInt, toInt_slice_eq_leInt, h]

/-- The usage that carries its page is the one made of the two. -/
theorem itemU_eq_makeUsage (hshort : it.data.length < 4)
    (h : leNat it'.data = page.toNat * 65536 + leNat it.data) :
    itemU it'.data = makeUsage page (itemU it.data) := by
  have hlow := it.toNat_itemU_lt hshort
  apply BitVec.eq_of_toNat_eq
  rw [toNat_itemU _ it'.length_data_le, h, toNat_makeUsage, Nat.mod_eq_of_lt hlow,
    toNat_itemU _ it.length_data_le]

/-- The new item is short where the old one is. -/
theorem SameValue.head_ne_itemLong (h : SameValue page it it') (hit : it.head ≠ itemLong) :
    it'.head ≠ itemLong := by
  cases h with
  | kept heq => rwa [heq]
  | unsigned htype htag hunsigned =>
    apply Item.head_ne_itemLong
    intro hres
    rw [htype] at hres
    simp [Item.isUnsigned, hres] at hunsigned
  | signed htype htag hmin =>
    apply Item.head_ne_itemLong
    rw [htype, hmin.1]
    decide
  | usage htype htag husage =>
    apply Item.head_ne_itemLong
    rw [htype, husage.1]
    decide

/-- The handlers read nothing of an unsigned item but its number. -/
theorem handleItem_eq_of_unsigned (htype : it'.type = it.type) (htag : it'.tag = it.tag)
    (hit : it.isUnsigned) (hvalue : itemU it'.data = itemU it.data) :
    handleItem p it' = handleItem p it := by
  unfold handleItem dispatch
  rw [htype, htag]
  unfold Item.isUnsigned at hit
  cases ht : itemType it.type with
  | main => simp only [handleMain, hvalue]
  | global =>
    rw [ht] at hit
    cases hg : globalTag it.tag with
    | logicalMin => simp [hg] at hit
    | _ => simp only [handleGlobal, hvalue]
  | «local» =>
    rw [ht] at hit
    cases hl : localTag it.tag with
    | usage => simp [hl] at hit
    | _ => simp only [handleLocal, hvalue]
  | reserved => simp [ht] at hit

/-- **The parser does not tell items of one value apart.** -/
theorem handleItem_eq_of_sameValue (h : SameValue p.g.usagePage it it') :
    handleItem p it' = handleItem p it := by
  cases h with
  | kept heq => rw [heq]
  | unsigned htype htag hit hvalue =>
    exact handleItem_eq_of_unsigned htype htag hit (itemU_eq_of_leNat hvalue)
  | signed htype htag hit hvalue =>
    have hS := itemS_eq_of_leInt hvalue
    unfold handleItem dispatch
    rw [htype, htag, hit.1, hit.2]
    simp only [handleGlobal, hS]
  | usage htype htag hit hshort hlong hvalue =>
    have hU := itemU_eq_makeUsage hshort hvalue
    unfold handleItem dispatch
    rw [htype, htag, hit.1, hit.2]
    simp only [handleLocal, hlong, if_true, hU, if_neg hshort.ne]

/-- An item of the reserved type says nothing. -/
theorem handleItem_reserved (h : itemType it.type = .reserved) : handleItem p it = p := by
  unfold handleItem dispatch
  rw [h]

/-! ### Byte strings -/

/-- Behind the items `before`, the bytes spell the list of items: each is one of its value,
and long items and items of the reserved type may stand before it and at the end. -/
inductive Reencodes : List Item → List Item → List U8 → Prop
  | nil (before : List Item) : Reencodes before [] []
  | item {before its : List Item} {bytes : List U8} {it it' : Item}
    (hvalue : SameValue (runItems before).g.usagePage it it')
    (hrest : Reencodes (before ++ [it]) its bytes) :
    Reencodes before (it :: its) (it'.encode ++ bytes)
  | long {before its : List Item} {bytes : List U8} (tag : U8) (data : List U8)
    (hdata : data.length < 256) (hrest : Reencodes before its bytes) :
    Reencodes before its (itemLong :: BitVec.ofNat 8 data.length :: tag :: (data ++ bytes))
  | reserved {before its : List Item} {bytes : List U8} (it : Item)
    (hit : itemType it.type = .reserved) (hshort : it.head ≠ itemLong)
    (hrest : Reencodes before its bytes) : Reencodes before its (it.encode ++ bytes)

/-- **The parser ends in the state it ends in behind the list.** -/
theorem foldl_reportItems_of_reencodes {before its : List Item} {bytes : List U8}
    (h : Reencodes before its bytes) (hits : ∀ it ∈ its, it.head ≠ itemLong) :
    (reportItems bytes).foldl handleItem (runItems before) =
      its.foldl handleItem (runItems before) := by
  induction h with
  | nil => rfl
  | item hvalue hrest ih =>
    have hhead := hits _ List.mem_cons_self
    have htail := ih fun it hit => hits it (List.mem_cons_of_mem _ hit)
    rw [runItems_concat] at htail
    rw [reportItems_encode_append _ _ (hvalue.head_ne_itemLong hhead), List.foldl_cons,
      List.foldl_cons, handleItem_eq_of_sameValue hvalue]
    exact htail
  | long tag data hdata hrest ih =>
    rw [reportItems_long tag data _ hdata]
    exact ih hits
  | reserved it hit hshort hrest ih =>
    rw [reportItems_encode_append it _ hshort, List.foldl_cons, handleItem_reserved hit]
    exact ih hits

/-- **The width of an encoding does not matter**, nor does what stands between the items:
both parsers make of the bytes what they make of the items. -/
theorem zmkHidParse_eq_of_reencodes {its : List Item} {bytes : List U8}
    (hits : ∀ it ∈ its, it.head ≠ itemLong) (h : Reencodes [] its bytes) :
    zmkHidParseReportMap bytes = zmkHidParseReportMap (its.flatMap Item.encode) ∧
      zmkHidParseKeyboardReportMap bytes =
        zmkHidParseKeyboardReportMap (its.flatMap Item.encode) := by
  have hrun : runParser bytes .zero = runParser (its.flatMap Item.encode) .zero := by
    rw [runParser_eq_foldl, runParser_eq_foldl, reportItems_flatMap_encode its hits]
    exact foldl_reportItems_of_reencodes h hits
  unfold zmkHidParseReportMap zmkHidParseKeyboardReportMap
  rw [hrun]
  exact ⟨rfl, rfl⟩

/-- A mouse with an eight-bit X and Y: the Generic Desktop page, the application, the usages,
the minimum `-127`, and two fields of eight bits. -/
def narrowMouse : List U8 :=
  [0x05, 0x01, 0x09, 0x02, 0xA1, 0x01, 0x09, 0x30, 0x09, 0x31, 0x15, 0x81, 0x75, 0x08, 0x95, 0x02,
   0x81, 0x06, 0xC0]

/-- The same in more bytes, with a long item and a reserved one between. -/
def wideMouse : List U8 :=
  [0x06, 0x01, 0x00, 0xFE, 0x01, 0x00, 0x55, 0x0B, 0x02, 0x00, 0x01, 0x00, 0xA2, 0x01, 0x00,
   0x0B, 0x30, 0x00, 0x01, 0x00, 0x09, 0x31, 0x17, 0x81, 0xFF, 0xFF, 0xFF, 0x0C, 0x75, 0x08,
   0x97, 0x02, 0x00, 0x00, 0x00, 0x82, 0x06, 0x00, 0xC0]

/-- Both make one layout, that of a mouse. -/
theorem wideMouse_parses :
    (zmkHidParseReportMap wideMouse).1 = 0 ∧
      (zmkHidParseReportMap wideMouse).2.y = ⟨8, 8, true⟩ ∧
      zmkHidParseReportMap wideMouse = zmkHidParseReportMap narrowMouse ∧
      zmkHidParseKeyboardReportMap wideMouse = zmkHidParseKeyboardReportMap narrowMouse := by
  have hits : ∀ it ∈ reportItems narrowMouse, it.head ≠ itemLong := by decide
  have hbytes : (reportItems narrowMouse).flatMap Item.encode = narrowMouse := by decide
  have hpage : SameValue 0 ⟨1, 0, 1, [0x01], rfl⟩ ⟨1, 0, 2, [0x01, 0x00], rfl⟩ :=
    .unsigned rfl rfl rfl rfl
  have hmouse : SameValue 1 ⟨2, 0, 1, [0x02], rfl⟩ ⟨2, 0, 3, [0x02, 0x00, 0x01, 0x00], rfl⟩ :=
    .usage rfl rfl ⟨rfl, rfl⟩ (by decide) rfl rfl
  have hopen : SameValue 1 ⟨0, 10, 1, [0x01], rfl⟩ ⟨0, 10, 2, [0x01, 0x00], rfl⟩ :=
    .unsigned rfl rfl rfl rfl
  have hx : SameValue 1 ⟨2, 0, 1, [0x30], rfl⟩ ⟨2, 0, 3, [0x30, 0x00, 0x01, 0x00], rfl⟩ :=
    .usage rfl rfl ⟨rfl, rfl⟩ (by decide) rfl rfl
  have hy : SameValue 1 ⟨2, 0, 1, [0x31], rfl⟩ ⟨2, 0, 1, [0x31], rfl⟩ := .kept rfl
  have hmin : SameValue 1 ⟨1, 1, 1, [0x81], rfl⟩ ⟨1, 1, 3, [0x81, 0xFF, 0xFF, 0xFF], rfl⟩ :=
    .signed rfl rfl ⟨rfl, rfl⟩ (by decide)
  have hsize : SameValue 1 ⟨1, 7, 1, [0x08], rfl⟩ ⟨1, 7, 1, [0x08], rfl⟩ := .kept rfl
  have hcount : SameValue 1 ⟨1, 9, 1, [0x02], rfl⟩ ⟨1, 9, 3, [0x02, 0x00, 0x00, 0x00], rfl⟩ :=
    .unsigned rfl rfl rfl rfl
  have hinput : SameValue 1 ⟨0, 8, 1, [0x06], rfl⟩ ⟨0, 8, 2, [0x06, 0x00], rfl⟩ :=
    .unsigned rfl rfl rfl rfl
  have hclose : SameValue 1 ⟨0, 12, 0, [], rfl⟩ ⟨0, 12, 0, [], rfl⟩ := .kept rfl
  have hreencodes : Reencodes [] (reportItems narrowMouse) wideMouse := by
    refine @Reencodes.item [] (reportItems (narrowMouse.drop 2)) (wideMouse.drop 3) _ _ hpage ?_
    refine @Reencodes.long _ _ (wideMouse.drop 7) 0x00 [0x55] (by decide) ?_
    refine @Reencodes.item (reportItems (narrowMouse.take 2)) (reportItems (narrowMouse.drop 4))
      (wideMouse.drop 12) _ _ hmouse ?_
    refine @Reencodes.item (reportItems (narrowMouse.take 4)) (reportItems (narrowMouse.drop 6))
      (wideMouse.drop 15) _ _ hopen ?_
    refine @Reencodes.item (reportItems (narrowMouse.take 6)) (reportItems (narrowMouse.drop 8))
      (wideMouse.drop 20) _ _ hx ?_
    refine @Reencodes.item (reportItems (narrowMouse.take 8)) (reportItems (narrowMouse.drop 10))
      (wideMouse.drop 22) _ _ hy ?_
    refine @Reencodes.item (reportItems (narrowMouse.take 10)) (reportItems (narrowMouse.drop 12))
      (wideMouse.drop 27) _ _ hmin ?_
    refine @Reencodes.reserved _ _ (wideMouse.drop 28) ⟨3, 0, 0, [], rfl⟩ rfl (by decide) ?_
    refine @Reencodes.item (reportItems (narrowMouse.take 12)) (reportItems (narrowMouse.drop 14))
      (wideMouse.drop 30) _ _ hsize ?_
    refine @Reencodes.item (reportItems (narrowMouse.take 14)) (reportItems (narrowMouse.drop 16))
      (wideMouse.drop 35) _ _ hcount ?_
    refine @Reencodes.item (reportItems (narrowMouse.take 16)) (reportItems (narrowMouse.drop 18))
      (wideMouse.drop 38) _ _ hinput ?_
    exact @Reencodes.item (reportItems (narrowMouse.take 18)) [] [] _ _ hclose (.nil _)
  have hparse := zmkHidParse_eq_of_reencodes hits hreencodes
  rw [hbytes] at hparse
  exact ⟨by decide +kernel, by decide +kernel, hparse⟩

end BleHidHost
