import BleHidHost.BitStreams
import BleHidHost.Coherence
import Mathlib.Data.List.Perm.Subperm

/-!
# Mouse descriptors

A family of mouse descriptors, and what parsing one leaves in the layout.  A
descriptor opens a Mouse application and a Pointer collection, and between them
and their ends comes a list of segments: padding, one run of buttons, and axis
items.  A segment is given by what its items declare, in whatever order and data
size they do so, and by the kind of its Input item.

## Main definitions

* `Segment` — a piece of the report.
* `Decl` — what the items before an Input item declare.
* `MouseDescriptor` — the items of a descriptor with given segments.
* `WellFormed` — the segments make up one mouse report.
* `Ready` — the parser between two segments.

## Main results

* `Declared.step` — the parser keeps with what is declared.
* `Ready.segment` — **one segment records its fields where it lies.**
* `MouseDescriptor.ready` — the parser behind the last segment.
-/

namespace BleHidHost

open Lib

/-! ### Segments -/

/-- The motion axes of a mouse. -/
inductive Axis where
  | x
  | y
  | wheel
  | acPan
  deriving DecidableEq, Repr, Inhabited

/-- The layout field of an axis. -/
def Axis.sel : Axis → PointerSel
  | .x => .x
  | .y => .y
  | .wheel => .wheel
  | .acPan => .hwheel

/-- Usage page and usage of an axis: X, Y and Wheel are on the Generic Desktop
page, AC Pan on the Consumer page. -/
def Axis.usage : Axis → ℕ × ℕ
  | .x => (0x01, 0x30)
  | .y => (0x01, 0x31)
  | .wheel => (0x01, 0x38)
  | .acPan => (0x0C, 0x0238)

/-- A piece of the report: the fields of one Input item. -/
inductive Segment where
  /-- Constant bits. -/
  | padding (size count : U8)
  /-- Buttons 1 to `n`, one bit each. -/
  | buttons (n : ℕ)
  /-- Some axes, `size` bits each. -/
  | axes (us : List Axis) (size : ℕ)
  deriving DecidableEq, Repr, Inhabited

namespace Segment

/-- The bits of a segment. -/
def bits : Segment → ℕ
  | padding size count => size.toNat * count.toNat
  | buttons n => n
  | axes us size => us.length * size

/-- The axes of a segment. -/
def axisList : Segment → List Axis
  | axes us _ => us
  | _ => []

/-- The segment is a run of buttons. -/
def isButtons : Segment → Bool
  | buttons _ => true
  | _ => false

/-- One to sixteen buttons, axes one to thirty-two bits wide. -/
def InRange : Segment → Prop
  | padding _ _ => True
  | buttons n => 1 ≤ n ∧ n ≤ 16
  | axes _ size => 1 ≤ size ∧ size ≤ 32

end Segment

/-- The bits of a list of segments. -/
def totalBitsOf (segs : List Segment) : ℕ := (segs.map Segment.bits).sum

/-- The axes of a list of segments. -/
def axesOf (segs : List Segment) : List Axis := segs.flatMap Segment.axisList

/-- The segments make up one mouse report: X and Y once each, the wheels at most
once, at most one run of buttons, and no more than 65535 bits. -/
structure WellFormed (segs : List Segment) : Prop where
  inRange : ∀ seg ∈ segs, seg.InRange
  oneRun : (segs.filter Segment.isButtons).length ≤ 1
  nodup : (axesOf segs).Nodup
  hasX : .x ∈ axesOf segs
  hasY : .y ∈ axesOf segs
  bits_le : totalBitsOf segs ≤ 65535

/-! ### Declarations -/

/-- What the items of a segment declare before its Input item: the last Usage
Page, Logical Minimum, Report Size and Report Count, the usages with the page
each is declared under, and the ends of a usage range. -/
structure Decl where
  page : Option ℕ
  logicalMin : Option ℤ
  size : Option ℕ
  count : Option ℕ
  usages : List (Option ℕ × ℕ)
  usageMin : Option ℕ
  usageMax : Option ℕ
  deriving DecidableEq, Repr, Inhabited

/-- Nothing is declared. -/
def Decl.blank : Decl := ⟨none, none, none, none, [], none, none⟩

/-- A usage and its page: a 4-byte usage embeds its own page. -/
def Decl.usageOf (d : Decl) (data : List U8) : Option ℕ × ℕ :=
  if data.length = 4 then (some (leNat data / 65536), leNat data % 65536) else (d.page, leNat data)

/-- One item of a declaration. -/
def Decl.step (d : Decl) (it : Item) : Decl :=
  match itemType it.type with
  | .global =>
    match globalTag it.tag with
    | .usagePage => { d with page := some (leNat it.data) }
    | .logicalMin => { d with logicalMin := some (slice it.data 0 (8 * it.data.length)).toInt }
    | .reportSize => { d with size := some (leNat it.data) }
    | .reportCount => { d with count := some (leNat it.data) }
    | _ => d
  | .local =>
    match localTag it.tag with
    | .usage => { d with usages := d.usages ++ [d.usageOf it.data] }
    | .usageMin => { d with usageMin := some (leNat it.data) }
    | .usageMax => { d with usageMax := some (leNat it.data) }
    | .other => d
  | _ => d

/-- What a list of items declares. -/
def declare (its : List Item) : Decl := its.foldl Decl.step .blank

/-- An item that may stand in a segment before its Input item: a Global or Local
item that neither changes the Report ID nor touches the global stack. -/
def Item.isPreamble (it : Item) : Bool :=
  match itemType it.type with
  | .global => globalTag it.tag ∉ [GlobalTag.reportId, .push, .pop]
  | .local => true
  | _ => false

/-- The declaration that belongs to a segment.  Padding has a size and a count;
buttons 1 to `n` are listed or given as a range; each axis is listed under its
own Usage Page, and the axes share a negative Logical Minimum. -/
def Segment.Declares : Segment → Decl → Prop
  | .padding size count, d =>
    d.page = none ∧ d.size = some size.toNat ∧ d.count = some count.toNat
  | .buttons n, d =>
    d.page = some 0x09 ∧ d.size = some 1 ∧ d.count = some n ∧
      ((d.usages = [] ∧ d.usageMin = some 1 ∧ d.usageMax = some n) ∨
        (d.usages = (List.range n).map fun i => (some 0x09, i + 1)) ∧
          d.usageMin = none ∧ d.usageMax = none)
  | .axes us size, d =>
    d.page = us.getLast?.map (·.usage.1) ∧ d.size = some size ∧ d.count = some us.length ∧
      (∃ v ∈ d.logicalMin, v < 0) ∧ d.usages = us.map (fun a => (some a.usage.1, a.usage.2)) ∧
      d.usageMin = none ∧ d.usageMax = none

/-- The flags of a segment's Input item: Constant, or Data and Variable, and for
axes Relative. -/
def Segment.Flags : Segment → ℕ → Prop
  | .padding _ _, flags => flags.testBit 0
  | .buttons _, flags => ¬ flags.testBit 0 ∧ flags.testBit 1
  | .axes _ _, flags => ¬ flags.testBit 0 ∧ flags.testBit 1 ∧ flags.testBit 2

instance : ∀ (seg : Segment) (flags : ℕ), Decidable (seg.Flags flags)
  | .padding _ _, flags => inferInstanceAs (Decidable (flags.testBit 0 = true))
  | .buttons _, _ => inferInstanceAs (Decidable (_ ∧ _))
  | .axes _ _, _ => inferInstanceAs (Decidable (_ ∧ _))

/-- The items are a segment: a declaration, then its Input item. -/
def Segment.Renders (seg : Segment) (its : List Item) : Prop :=
  ∃ pre inp, its = pre ++ [inp] ∧ (∀ it ∈ pre, it.isPreamble) ∧ seg.Declares (declare pre) ∧
    inp.isInput ∧ seg.Flags (leNat inp.data)

/-! ### Descriptors -/

/-- A Global item with this value. -/
def Item.IsGlobal (it : Item) (tag : GlobalTag) (n : ℕ) : Prop :=
  itemType it.type = .global ∧ globalTag it.tag = tag ∧ leNat it.data = n

/-- A Usage item, in a short form or with its page embedded. -/
def Item.IsUsage (it : Item) (page id : ℕ) : Prop :=
  itemType it.type = .local ∧ localTag it.tag = .usage ∧
    (it.data.length < 4 ∧ leNat it.data = id ∨
      it.data.length = 4 ∧ leNat it.data = page * 65536 + id)

/-- A Collection item of this kind. -/
def Item.IsCollection (it : Item) (kind : ℕ) : Prop :=
  itemType it.type = .main ∧ mainTag it.tag = .collection ∧ leNat it.data = kind

/-- An End Collection item. -/
def Item.IsEnd (it : Item) : Prop :=
  itemType it.type = .main ∧ mainTag it.tag = .endCollection

instance (it : Item) (tag : GlobalTag) (n : ℕ) : Decidable (it.IsGlobal tag n) :=
  inferInstanceAs (Decidable (_ ∧ _))

instance (it : Item) (page id : ℕ) : Decidable (it.IsUsage page id) :=
  inferInstanceAs (Decidable (_ ∧ _))

instance (it : Item) (kind : ℕ) : Decidable (it.IsCollection kind) :=
  inferInstanceAs (Decidable (_ ∧ _))

instance (it : Item) : Decidable it.IsEnd := inferInstanceAs (Decidable (_ ∧ _))

/-- A mouse descriptor with Report ID `r`, or none, and these segments. -/
structure MouseDescriptor (r : Option U8) (segs : List Segment) where
  page : Item
  mouse : Item
  application : Item
  reportId : List Item
  pointer : Item
  physical : Item
  body : List (List Item)
  endPhysical : Item
  endApplication : Item
  page_spec : page.IsGlobal .usagePage 0x01
  mouse_spec : mouse.IsUsage 0x01 0x02
  application_spec : application.IsCollection 0x01
  reportId_spec :
    List.Forall₂ (fun (id : U8) it => it.IsGlobal .reportId id.toNat) r.toList reportId
  pointer_spec : pointer.IsUsage 0x01 0x01
  physical_spec : physical.IsCollection 0x00
  body_spec : List.Forall₂ Segment.Renders segs body
  endPhysical_spec : endPhysical.IsEnd
  endApplication_spec : endApplication.IsEnd

namespace MouseDescriptor

variable {r : Option U8} {segs : List Segment}

/-- The items that open the two collections. -/
def header (d : MouseDescriptor r segs) : List Item :=
  [d.page, d.mouse, d.application] ++ d.reportId ++ [d.pointer, d.physical]

/-- The items of a descriptor. -/
def items (d : MouseDescriptor r segs) : List Item :=
  d.header ++ d.body.flatten ++ [d.endPhysical, d.endApplication]

/-- The bytes of a descriptor. -/
def bytes (d : MouseDescriptor r segs) : List U8 := d.items.flatMap Item.encode

end MouseDescriptor

/-! ### Where the segments lie -/

/-- Axis `a` lies in the report from bit `off` on, `size` bits wide. -/
def Placed (segs : List Segment) (a : Axis) (off size : ℕ) : Prop :=
  ∃ front us back, ∃ i : ℕ, segs = front ++ .axes us size :: back ∧ us[i]? = some a ∧
    off = totalBitsOf front + i * size

/-- The run of `n` buttons lies in the report from bit `off` on. -/
def RunPlaced (segs : List Segment) (off n : ℕ) : Prop :=
  ∃ front back, segs = front ++ .buttons n :: back ∧ off = totalBitsOf front

/-! ### The parser along a declaration -/

/-- Parser `q` is `p` behind items that declare `d`: only the declared globals and
the local usages differ. -/
structure Declared (p q : Parser) (d : Decl) : Prop where
  depth : q.depth = p.depth
  level : q.mouseLevel = p.mouseLevel
  cursor : q.bitCursor = p.bitCursor
  out : q.out = p.out
  id : q.g.reportId = p.g.reportId
  page : q.g.usagePage = (d.page.map (BitVec.ofNat 16)).getD p.g.usagePage
  logicalMin : q.g.logicalMin = d.logicalMin.getD p.g.logicalMin
  size : q.g.reportSize = (d.size.map (BitVec.ofNat 8)).getD p.g.reportSize
  count : q.g.reportCount = (d.count.map (BitVec.ofNat 8)).getD p.g.reportCount
  usages : d.usages.length ≤ maxLocalUsages → q.usages = d.usages.map fun u =>
    makeUsage ((u.1.map (BitVec.ofNat 16)).getD p.g.usagePage) (BitVec.ofNat 32 u.2)

theorem setWidth_itemU {n : ℕ} (data : List U8) (h : data.length ≤ 4) :
    (itemU data).setWidth n = BitVec.ofNat n (leNat data) := by
  apply BitVec.eq_of_toNat_eq
  rw [BitVec.toNat_setWidth, toNat_itemU data h, BitVec.toNat_ofNat]

theorem Declared.refl {p : Parser} (h : p.usages = []) : Declared p p .blank :=
  ⟨rfl, rfl, rfl, rfl, rfl, rfl, rfl, rfl, rfl, fun _ => h⟩

/-- The parser resolves a usage as it is declared. -/
theorem Declared.usage_eq {p q : Parser} {d : Decl} {data : List U8} (h : Declared p q d)
    (hlen : data.length ≤ 4) :
    (if data.length = 4 then itemU data else makeUsage q.g.usagePage (itemU data)) =
      makeUsage (((d.usageOf data).1.map (BitVec.ofNat 16)).getD p.g.usagePage)
        (BitVec.ofNat 32 (d.usageOf data).2) := by
  have hlt := leNat_lt data
  have hu := toNat_itemU data hlen
  unfold Decl.usageOf
  split
  · next h4 =>
    -- the data are page and usage at once
    rw [h4] at hlt
    apply BitVec.eq_of_toNat_eq
    simp only [Option.map_some, Option.getD_some]
    rw [toNat_makeUsage, hu, BitVec.toNat_ofNat, BitVec.toNat_ofNat]
    omega
  · simp only
    rw [h.page, ← hu, BitVec.ofNat_toNat, BitVec.setWidth_eq]

/-- **The parser keeps with what is declared.** -/
theorem Declared.step {p q : Parser} {d : Decl} {it : Item} (h : Declared p q d)
    (hit : it.isPreamble) : Declared p (handleItem q it) (d.step it) := by
  have hlen := it.length_data_le
  unfold Item.isPreamble at hit
  unfold Decl.step handleItem dispatch
  cases ht : itemType it.type with
  | main => simp [ht] at hit
  | reserved => simp [ht] at hit
  | global =>
    simp only [ht] at hit ⊢
    cases hg : globalTag it.tag with
    | usagePage => exact { h with page := setWidth_itemU _ hlen }
    | logicalMin => exact { h with logicalMin := itemS_eq_toInt _ hlen }
    | reportSize => exact { h with size := setWidth_itemU _ hlen }
    | reportCount => exact { h with count := setWidth_itemU _ hlen }
    | reportId => simp [hg] at hit
    | push => simp [hg] at hit
    | pop => simp [hg] at hit
    | _ => exact h
  | «local» =>
    simp only
    cases localTag it.tag with
    | usage =>
      -- the usage is appended, there being room for it
      refine { h with usages := fun hn => ?_ }
      simp only [List.length_append, List.length_singleton] at hn
      have husages := h.usages (by omega)
      have hroom : q.usages.length < maxLocalUsages := by
        rw [husages, List.length_map]
        omega
      show (if q.usages.length < maxLocalUsages then _ else _) = _
      rw [if_pos hroom, husages, List.map_append, List.map_singleton, h.usage_eq hlen]
    | usageMin => exact { h with }
    | usageMax => exact { h with }
    | other => exact h

/-- The parser behind a whole declaration. -/
theorem Declared.foldl {p q : Parser} {d : Decl} (its : List Item) (h : Declared p q d)
    (hits : ∀ it ∈ its, it.isPreamble) :
    Declared p (its.foldl handleItem q) (its.foldl Decl.step d) := by
  induction its generalizing q d with
  | nil => exact h
  | cons it its ih =>
    apply ih (h.step (hits it List.mem_cons_self))
    intro it' h'
    exact hits it' (List.mem_cons_of_mem _ h')

/-! ### Positions -/

/-- Related lists split alike. -/
theorem forall₂_append_cons_left {α β : Type} {R : α → β → Prop} {front back : List α} {a : α}
    {bs : List β} (h : List.Forall₂ R (front ++ a :: back) bs) :
    ∃ fs b gs, bs = fs ++ b :: gs ∧ List.Forall₂ R front fs ∧ R a b := by
  induction front generalizing bs with
  | nil =>
    obtain ⟨b, gs, hb, -, rfl⟩ := List.forall₂_cons_left_iff.mp h
    exact ⟨[], b, gs, rfl, .nil, hb⟩
  | cons c front ih =>
    obtain ⟨d, ds, hd, hds, rfl⟩ := List.forall₂_cons_left_iff.mp h
    obtain ⟨fs, b, gs, rfl, hfs, hb⟩ := ih hds
    exact ⟨d :: fs, b, gs, rfl, .cons hd hfs, hb⟩

/-- A member of the second of two related lists is related to one of the first. -/
theorem exists_of_forall₂_mem_right {α β : Type} {R : α → β → Prop} {l : List α} {l' : List β}
    (h : List.Forall₂ R l l') {b : β} (hb : b ∈ l') : ∃ a ∈ l, R a b := by
  induction h with
  | nil => simp at hb
  | @cons a b' l l' hR _ ih =>
    rcases List.mem_cons.mp hb with rfl | hb
    · exact ⟨a, List.mem_cons_self, hR⟩
    · obtain ⟨a', ha', hR'⟩ := ih hb
      exact ⟨a', List.mem_cons_of_mem _ ha', hR'⟩

theorem totalBitsOf_concat (segs : List Segment) (seg : Segment) :
    totalBitsOf (segs ++ [seg]) = totalBitsOf segs + seg.bits := by
  simp [totalBitsOf]

theorem axesOf_concat (segs : List Segment) (seg : Segment) :
    axesOf (segs ++ [seg]) = axesOf segs ++ seg.axisList := by
  simp [axesOf]

/-- Where a list with one more entry splits. -/
theorem concat_eq_append_cons {α : Type} {l front back : List α} {a b : α}
    (h : l ++ [a] = front ++ b :: back) :
    (∃ back', l = front ++ b :: back') ∨ (l = front ∧ a = b) := by
  rcases List.eq_nil_or_concat back with rfl | ⟨back', c, rfl⟩
  · have := List.append_inj' h rfl
    exact Or.inr ⟨this.1, by simpa using this.2⟩
  · refine Or.inl ⟨back', ?_⟩
    rw [List.concat_eq_append, ← List.cons_append, ← List.append_assoc] at h
    exact (List.append_inj' h rfl).1

theorem placed_concat {done : List Segment} {seg : Segment} {a : Axis} {off size : ℕ} :
    Placed (done ++ [seg]) a off size ↔
      Placed done a off size ∨
        ∃ us, ∃ i : ℕ, seg = .axes us size ∧ us[i]? = some a ∧
          off = totalBitsOf done + i * size := by
  constructor
  · rintro ⟨front, us, back, i, hsegs, hi, hoff⟩
    rcases concat_eq_append_cons hsegs with ⟨back', hdone⟩ | ⟨rfl, hseg⟩
    · exact Or.inl ⟨front, us, back', i, hdone, hi, hoff⟩
    · exact Or.inr ⟨us, i, hseg, hi, hoff⟩
  · rintro (⟨front, us, back, i, rfl, hi, hoff⟩ | ⟨us, i, rfl, hi, hoff⟩)
    · exact ⟨front, us, back ++ [seg], i, by simp, hi, hoff⟩
    · exact ⟨done, us, [], i, rfl, hi, hoff⟩

theorem runPlaced_concat {done : List Segment} {seg : Segment} {off n : ℕ} :
    RunPlaced (done ++ [seg]) off n ↔
      RunPlaced done off n ∨ (seg = .buttons n ∧ off = totalBitsOf done) := by
  constructor
  · rintro ⟨front, back, hsegs, hoff⟩
    rcases concat_eq_append_cons hsegs with ⟨back', hdone⟩ | ⟨rfl, hseg⟩
    · exact Or.inl ⟨front, back', hdone, hoff⟩
    · exact Or.inr ⟨hseg, hoff⟩
  · rintro (⟨front, back, rfl, hoff⟩ | ⟨rfl, hoff⟩)
    · exact ⟨front, back ++ [seg], by simp, hoff⟩
    · exact ⟨done, [], rfl, hoff⟩

theorem Placed.mem {segs : List Segment} {a : Axis} {off size : ℕ} (h : Placed segs a off size) :
    a ∈ axesOf segs := by
  obtain ⟨front, us, back, i, rfl, hi, -⟩ := h
  rw [axesOf, List.mem_flatMap]
  exact ⟨.axes us size, by simp, List.mem_of_getElem? hi⟩

/-- The axes are four. -/
theorem length_le_of_nodup {us : List Axis} (h : us.Nodup) : us.length ≤ 4 := by
  have hsub : us ⊆ [.x, .y, .wheel, .acPan] := fun a _ => by cases a <;> simp
  exact (List.subperm_of_subset h hsub).length_le

/-! ### One Input item -/

theorem Axis.sel_usage (a : Axis) :
    a.sel.usage = some (BitVec.ofNat 16 a.usage.1, BitVec.ofNat 16 a.usage.2) := by
  cases a <;> rfl

theorem Axis.sel_ne_buttons (a : Axis) : a.sel ≠ .buttons := by cases a <;> simp [Axis.sel]

theorem Axis.page_ne_button (a : Axis) : BitVec.ofNat 16 a.usage.1 ≠ pageButton := by
  cases a <;> decide

/-- An axis is told by its usage. -/
theorem Axis.sel_usage_inj {a b : Axis} (h : a.sel.usage = b.sel.usage) : a = b := by
  cases a <;> cases b <;> first | rfl | (exact absurd h (by decide))

/-- **The slots of an axis item record its axes one after the other.** -/
theorem assignSlots_axes_get {w : Walk} {b : U32} {o : ReportLayout} {us : List Axis}
    (hnd : us.Nodup) (hslot : ∀ i a, us[i]? = some a → a.sel.usage = some (slotUsage w i))
    (a : Axis) {n : ℕ} (hn : n ≤ us.length) :
    (assignSlots w b n o).get a.sel =
      if us.idxOf a < n then setSlot w b (us.idxOf a) (o.get a.sel) else o.get a.sel := by
  induction n with
  | zero => rw [if_neg (Nat.not_lt_zero _), assignSlots_zero]
  | succ n ih =>
    have hlt : n < us.length := hn
    have hat := hslot n us[n] (List.getElem?_eq_getElem hlt)
    rw [assignSlots_succ, assignSlot_get, ih hlt.le, ← hat]
    by_cases ha : a = us[n]
    · -- slot `n` is the first of axis `a`
      have hidx : us.idxOf a = n := by rw [ha, hnd.idxOf_getElem]
      rw [if_pos (by rw [ha]), if_neg (by omega), if_pos (by omega), hidx]
    · -- slot `n` carries another axis
      have hidx : us.idxOf a ≠ n := fun he => ha (by
        subst he
        exact (List.getElem_idxOf hlt).symm)
      rw [if_neg fun he => ha (Axis.sel_usage_inj he)]
      by_cases hin : us.idxOf a < n
      · rw [if_pos hin, if_pos (by omega)]
      · rw [if_neg hin, if_neg (by omega)]

/-- The slots leave the button run alone. -/
theorem assignSlots_get_buttons (w : Walk) (b : U32) (n : ℕ) (o : ReportLayout) :
    (assignSlots w b n o).get .buttons = o.get .buttons := by
  induction n with
  | zero => rfl
  | succ n ih => rw [assignSlots_succ, assignSlot_get, if_neg (by simp [PointerSel.usage]), ih]

/-- What an Input item behind a declaration does. -/
theorem handleItem_input (q : Parser) {inp : Item} (h : inp.isInput) :
    handleItem q inp = clearLocal (handleInput q (itemU inp.data)) := by
  obtain ⟨ht, hg⟩ := inp.isInput_iff.mp h
  unfold handleItem dispatch
  simp only [ht, hg, handleMain]

/-- A flag of the source, as a bit of the item's value. -/
theorem and_flag_eq_zero_iff (inp : Item) (k : ℕ) (hk : k < 32) :
    itemU inp.data &&& BitVec.twoPow 32 k = 0 ↔ ¬ (leNat inp.data).testBit k := by
  rw [← toNat_itemU inp.data inp.length_data_le, BitVec.testBit_toNat, BitVec.and_twoPow]
  split
  · next h =>
    refine iff_of_false (fun hz => ?_) (not_not.mpr h)
    have := congrArg (BitVec.getLsbD · k) hz
    simp [hk] at this
  · next h => exact iff_of_true rfl h

/-- When an Input item reaches the pointer recorder. -/
theorem isPointerInput_iff {w : Walk} (hw : w.mouseLevel = 0) (inp : Item) :
    isPointerInput w (itemU inp.data) ↔
      ¬ (leNat inp.data).testBit 0 ∧ (leNat inp.data).testBit 1 := by
  have h0 := and_flag_eq_zero_iff inp 0 (by decide)
  have h1 := and_flag_eq_zero_iff inp 1 (by decide)
  have hm : inMouse w = true := by simp [inMouse, hw]
  unfold isPointerInput
  rw [hm, Bool.true_and, Bool.and_eq_true, beq_iff_eq, bne_iff_ne, ne_eq]
  exact and_congr h0 (by rw [← not_not (a := (leNat inp.data).testBit 1 = true), ← h1]; rfl)

/-! ### Segments -/

/-- The parser between two segments of a report with Report ID `r`. -/
structure Ready (r : U8) (done : List Segment) (p : Parser) : Prop where
  depth : p.depth = 2
  level : p.mouseLevel = 0
  usages : p.usages = []
  id : p.g.reportId = r
  cursor : p.bitCursor.toNat = totalBitsOf done
  lock : p.out.reportId = 0 ∧ pointerClosed p.out = false ∨ p.out.reportId = r
  axis : ∀ a off size, Placed done a off size →
    p.out.get a.sel = ⟨BitVec.ofNat 16 off, BitVec.ofNat 8 size, true⟩
  noAxis : ∀ a, a ∉ axesOf done → ¬ (p.out.get a.sel).Present
  run : ∀ off n, RunPlaced done off n →
    p.out.buttons = ⟨BitVec.ofNat 16 off, 1, false⟩ ∧ p.out.buttonCount = BitVec.ofNat 8 n
  noRun : (∀ n, .buttons n ∉ done) → ¬ p.out.buttons.Present ∧ p.out.buttonCount = 0
  page : p.g.usagePage = pageButton → p.out.buttons.Present

section Step

variable {r : U8} {done : List Segment} {p q : Parser} {d : Decl} {inp : Item}

/-- The cursor behind an Input item of `bits` bits. -/
theorem Ready.cursor_step (h : Ready r done p) (hd : Declared p q d) (bits : ℕ)
    (hbits : q.g.reportSize.toNat * q.g.reportCount.toNat = bits)
    (hle : totalBitsOf done + bits ≤ 65535) :
    (advance q.bitCursor (totalBits q.toWalk)).toNat = totalBitsOf done + bits := by
  have hcur : q.bitCursor.toNat = totalBitsOf done := by rw [hd.cursor, h.cursor]
  have htot : (totalBits q.toWalk).toNat = bits := (toNat_totalBits q.toWalk).trans hbits
  rw [toNat_advance (by omega), hcur, htot]

/-- The Report ID of the layout behind a recorded item. -/
theorem Ready.lock_step (h : Ready r done p) (hd : Declared p q d) (b : U32) :
    (assignInput q.toWalk b q.out).reportId = r := by
  rw [assignInput_reportId, hd.out, hd.id, h.id]
  rcases h.lock with hopen | hlocked
  · rw [if_pos hopen]
  · rw [hlocked, ite_self]

/-- **What an Input item does to the walk**, whatever it records. -/
theorem Ready.walk_step (h : Ready r done p) (hd : Declared p q d) (hin : inp.isInput)
    {seg : Segment} (hbits : q.g.reportSize.toNat * q.g.reportCount.toNat = seg.bits)
    (hle : totalBitsOf (done ++ [seg]) ≤ 65535) :
    (handleItem q inp).depth = 2 ∧ (handleItem q inp).mouseLevel = 0 ∧
      (handleItem q inp).usages = [] ∧ (handleItem q inp).g.reportId = r ∧
      (handleItem q inp).g.usagePage = q.g.usagePage ∧
      (handleItem q inp).bitCursor.toNat = totalBitsOf (done ++ [seg]) := by
  rw [totalBitsOf_concat] at hle
  have hcursor := h.cursor_step hd seg.bits hbits hle
  rw [handleItem_input q hin]
  refine ⟨hd.depth.trans h.depth, hd.level.trans h.level, rfl, hd.id.trans h.id, rfl, ?_⟩
  rw [totalBitsOf_concat]
  exact hcursor

/-- Padding records nothing. -/
theorem Ready.padding (h : Ready r done p) (hd : Declared p q d) {size count : U8}
    (hdecl : (Segment.padding size count).Declares d) (hin : inp.isInput)
    (hflags : (Segment.padding size count).Flags (leNat inp.data))
    (hle : totalBitsOf (done ++ [.padding size count]) ≤ 65535) :
    Ready r (done ++ [.padding size count]) (handleItem q inp) := by
  obtain ⟨hpage, hsize, hcount⟩ := hdecl
  have hlevel : q.mouseLevel = 0 := by rw [hd.level, h.level]
  have hnot : ¬ isPointerInput q.toWalk (itemU inp.data) := by
    rw [isPointerInput_iff hlevel]
    intro hc
    exact hc.1 hflags
  have hout : (handleItem q inp).out = p.out := by
    rw [handleItem_input q hin, ← hd.out]
    exact if_neg hnot
  obtain ⟨hdepth, hlevel', husages, hid, hpage', hcursor⟩ := h.walk_step hd hin
    (by rw [hd.size, hd.count, hsize, hcount]; simp [Segment.bits]) hle
  constructor
  case depth => exact hdepth
  case level => exact hlevel'
  case usages => exact husages
  case id => exact hid
  case cursor => exact hcursor
  case lock => rw [hout]; exact h.lock
  case axis =>
    intro a off size' hpl
    rw [hout]
    rcases placed_concat.mp hpl with hpl | ⟨us, i, hseg, -⟩
    · exact h.axis a off size' hpl
    · simp at hseg
  case noAxis =>
    intro a ha
    rw [hout]
    rw [axesOf_concat] at ha
    exact h.noAxis a fun hm => ha (List.mem_append_left _ hm)
  case run =>
    intro off n hpl
    rw [hout]
    rcases runPlaced_concat.mp hpl with hpl | ⟨hseg, -⟩
    · exact h.run off n hpl
    · simp at hseg
  case noRun =>
    intro hno
    rw [hout]
    exact h.noRun fun n hm => hno n (List.mem_append_left _ hm)
  case page =>
    rw [hpage', hd.page, hpage, hout]
    exact h.page

/-- A run of buttons is recorded at the cursor. -/
theorem assignInput_buttonRun {w : Walk} {b : U32} {o : ReportLayout} {n : ℕ}
    (hpage : w.g.usagePage = pageButton) (hsize : w.g.reportSize = 1)
    (hcount : w.g.reportCount = BitVec.ofNat 8 n) (hn : n ≤ 16) (habs : ¬ o.buttons.Present)
    (hfits : b.toNat + n ≤ 65535) :
    (assignInput w b o).buttons = ⟨b.setWidth 16, 1, false⟩ ∧
      (assignInput w b o).buttonCount = BitVec.ofNat 8 n ∧
      ∀ s, s ≠ .buttons → (assignInput w b o).get s = o.get s := by
  have hrun : buttonRunCount w = BitVec.ofNat 8 n := by
    rw [buttonRunCount, hcount, if_neg]
    rw [BitVec.lt_def, BitVec.toNat_ofNat, BitVec.toNat_ofNat, maxButtons]
    omega
  have hone : sizeOr w 1 = 1 := by rw [sizeOr, hsize]; rfl
  have hlock : ¬ ((lockReport w o).get .buttons).Present := by
    rw [lockReport_get]
    exact habs
  have hcond : (lockReport w o).buttons.bitSize = 0 ∧
      b + (buttonRunCount w).setWidth 32 * (sizeOr w 1).setWidth 32 ≤ bitOffsetMax := by
    refine ⟨not_not.mp hlock, ?_⟩
    have hmax : bitOffsetMax.toNat = 65535 := rfl
    have hw : ((BitVec.ofNat 8 n).setWidth 32 * (1 : U8).setWidth 32 : U32).toNat = n := by
      have h1 : ((1 : U8).setWidth 32 : U32) = 1#32 := rfl
      rw [h1, BitVec.mul_one, BitVec.toNat_setWidth, BitVec.toNat_ofNat]
      omega
    rw [hrun, hone, BitVec.le_def, BitVec.toNat_add, hw, hmax]
    omega
  rw [assignInput, if_pos hpage]
  refine ⟨?_, ?_, ?_⟩
  · rw [assignButtons, if_pos hcond, hone]
  · rw [assignButtons, if_pos hcond, hrun]
  · intro s hs
    rw [assignButtons_get_of_ne w b _ hs, lockReport_get]

/-- A run of buttons is recorded where it lies. -/
theorem Ready.buttonRun (h : Ready r done p) (hd : Declared p q d) {n : ℕ}
    (hdecl : (Segment.buttons n).Declares d) (hin : inp.isInput)
    (hflags : (Segment.buttons n).Flags (leNat inp.data)) (hn : n ≤ 16)
    (hle : totalBitsOf (done ++ [.buttons n]) ≤ 65535) (hnone : ∀ m, .buttons m ∉ done) :
    Ready r (done ++ [.buttons n]) (handleItem q inp) := by
  obtain ⟨hpage, hsize, hcount, -⟩ := hdecl
  have hlevel : q.mouseLevel = 0 := by rw [hd.level, h.level]
  have hyes : isPointerInput q.toWalk (itemU inp.data) := (isPointerInput_iff hlevel inp).mpr hflags
  have hqpage : q.g.usagePage = pageButton := by rw [hd.page, hpage]; rfl
  have hqsize : q.g.reportSize = 1 := by rw [hd.size, hsize]; rfl
  have hqcount : q.g.reportCount = BitVec.ofNat 8 n := by rw [hd.count, hcount]; rfl
  have hcur : q.bitCursor.toNat = totalBitsOf done := by rw [hd.cursor, h.cursor]
  have hfits : totalBitsOf done + n ≤ 65535 := by
    rw [totalBitsOf_concat] at hle
    exact hle
  obtain ⟨hbtn, hbc, hother⟩ := assignInput_buttonRun (b := q.bitCursor) (o := q.out) hqpage hqsize
    hqcount hn (by rw [hd.out]; exact (h.noRun hnone).1) (by omega)
  have hout : (handleItem q inp).out = assignInput q.toWalk q.bitCursor q.out := by
    rw [handleItem_input q hin]
    exact if_pos hyes
  obtain ⟨hdepth, hlevel', husages, hid, -, hcursor⟩ := h.walk_step hd hin
    (by rw [hqsize, hqcount, BitVec.toNat_ofNat, Nat.mod_eq_of_lt (by omega)]; exact Nat.one_mul n)
    hle
  constructor
  case depth => exact hdepth
  case level => exact hlevel'
  case usages => exact husages
  case id => exact hid
  case cursor => exact hcursor
  case lock => rw [hout]; exact Or.inr (h.lock_step hd _)
  case axis =>
    intro a off size hpl
    rw [hout, hother _ a.sel_ne_buttons, hd.out]
    rcases placed_concat.mp hpl with hpl | ⟨us, i, hseg, -⟩
    · exact h.axis a off size hpl
    · simp at hseg
  case noAxis =>
    intro a ha
    rw [hout, hother _ a.sel_ne_buttons, hd.out]
    rw [axesOf_concat] at ha
    exact h.noAxis a fun hm => ha (List.mem_append_left _ hm)
  case run =>
    -- the run is this one: none came before it
    intro off m hpl
    rw [hout, hbtn, hbc]
    rcases runPlaced_concat.mp hpl with ⟨front, back, hdone, -⟩ | ⟨hseg, rfl⟩
    · exact absurd (by rw [hdone]; simp) (hnone m)
    · obtain rfl : n = m := by simpa using hseg
      rw [← hcur, BitVec.ofNat_toNat]
      exact ⟨rfl, rfl⟩
  case noRun =>
    intro hno
    exact absurd (by simp) (hno n)
  case page =>
    intro _
    rw [hout, hbtn]
    exact (by decide : (1 : U8) ≠ 0)

/-- What a slot leaves of an absent field, where it fits. -/
theorem setSlot_of_fits {w : Walk} {b : U32} {i : ℕ} {f : Field} (habs : ¬ f.Present)
    (hneg : w.g.logicalMin < 0)
    (hfits : b.toNat + i * w.g.reportSize.toNat + w.g.reportSize.toNat ≤ 65535) :
    setSlot w b i f =
      ⟨BitVec.ofNat 16 (b.toNat + i * w.g.reportSize.toNat), w.g.reportSize, true⟩ := by
  have hmax : bitOffsetMax.toNat = 65535 := rfl
  have hsize := w.g.reportSize.isLt
  have hoff : (slotOffset w b i).toNat = b.toNat + i * w.g.reportSize.toNat := by
    rw [toNat_slotOffset_mod, Nat.mod_eq_of_lt (by omega)]
  unfold Field.Present at habs
  rw [setSlot, setField, if_neg habs, if_neg, decide_eq_true hneg, ← hoff, BitVec.ofNat_toNat]
  rw [BitVec.lt_def, BitVec.toNat_add, hoff, BitVec.toNat_setWidth, hmax]
  omega

/-- The slots of an item whose declared usages are axes carry those axes. -/
theorem Declared.slotUsage_eq (hd : Declared p q d) {us : List Axis} (hlen : us.length ≤ 16)
    (husages : d.usages = us.map fun a => (some a.usage.1, a.usage.2)) {i : ℕ} {a : Axis}
    (hi : us[i]? = some a) : a.sel.usage = some (slotUsage q.toWalk i) := by
  have hq : q.usages = us.map fun a =>
      makeUsage (BitVec.ofNat 16 a.usage.1) (BitVec.ofNat 32 a.usage.2) := by
    rw [hd.usages (by rw [husages, List.length_map, maxLocalUsages]; omega), husages, List.map_map]
    rfl
  obtain ⟨hilt, -⟩ := List.getElem?_eq_some_iff.mp hi
  have hu : usageForSlot q.toWalk i =
      makeUsage (BitVec.ofNat 16 a.usage.1) (BitVec.ofNat 32 a.usage.2) := by
    rw [usageForSlot, hq, if_pos (by rw [List.length_map]; omega), List.length_map, if_pos hilt,
      List.getD_eq_getElem?_getD, List.getElem?_map, hi]
    rfl
  rw [Axis.sel_usage, slotUsage, hu, usagePage_makeUsage, usageId_makeUsage]
  cases a <;> rfl

/-- An item of axes writes the fields of its axes and no other.  A Button page in
force then belongs to a run already recorded. -/
theorem assignInput_axes {w : Walk} {b : U32} {o : ReportLayout} {us : List Axis} (hnd : us.Nodup)
    (hslot : ∀ i a, us[i]? = some a → a.sel.usage = some (slotUsage w i))
    (hcount : w.g.reportCount.toNat = us.length)
    (hpage : w.g.usagePage = pageButton → us = [] ∧ o.buttons.Present) :
    (∀ a : Axis, (assignInput w b o).get a.sel =
      if us.idxOf a < us.length then setSlot w b (us.idxOf a) (o.get a.sel) else o.get a.sel) ∧
      (assignInput w b o).buttons = o.buttons ∧
      (assignInput w b o).buttonCount = o.buttonCount := by
  unfold assignInput
  split
  · next hb =>
    -- an item without axes on the Button page would be a run of none
    obtain ⟨rfl, hpres⟩ := hpage hb
    have hbtn : (lockReport w o).buttons = o.buttons := lockReport_get w o .buttons
    rw [assignButtons_of_present (by rw [hbtn]; exact hpres)]
    exact ⟨fun a => by rw [lockReport_get]; rfl, hbtn, lockReport_buttonCount w o⟩
  · rw [hcount]
    refine ⟨?_, ?_, ?_⟩
    · intro a
      rw [assignSlots_axes_get hnd hslot a le_rfl, lockReport_get]
    · exact (assignSlots_get_buttons w b _ _).trans (lockReport_get w o .buttons)
    · rw [assignSlots_buttonCount, lockReport_buttonCount]

/-- The page in force at an axis item is the Button page only when the item lists
no axis, and then a run is recorded. -/
theorem Ready.axisPage (h : Ready r done p) (hd : Declared p q d) {us : List Axis}
    (hpage : d.page = us.getLast?.map (·.usage.1)) (hb : q.g.usagePage = pageButton) :
    us = [] ∧ p.out.buttons.Present := by
  rw [hd.page, hpage] at hb
  rcases List.eq_nil_or_concat us with rfl | ⟨us', a, rfl⟩
  · exact ⟨rfl, h.page hb⟩
  · rw [List.concat_eq_append, List.getLast?_concat] at hb
    exact absurd hb a.page_ne_button

/-- An axis item records its axes where they lie. -/
theorem Ready.axisItem (h : Ready r done p) (hd : Declared p q d) {us : List Axis} {size : ℕ}
    (hdecl : (Segment.axes us size).Declares d) (hin : inp.isInput)
    (hflags : (Segment.axes us size).Flags (leNat inp.data)) (hsize32 : size ≤ 32)
    (hle : totalBitsOf (done ++ [.axes us size]) ≤ 65535)
    (hnd : (axesOf (done ++ [.axes us size])).Nodup) :
    Ready r (done ++ [.axes us size]) (handleItem q inp) := by
  obtain ⟨hpage, hsize, hcount, ⟨v, hv, hneg⟩, husages, -, -⟩ := hdecl
  rw [axesOf_concat, show (Segment.axes us size).axisList = us from rfl] at hnd
  obtain ⟨-, hus, hdisj⟩ := List.nodup_append.mp hnd
  have hnew : ∀ a ∈ us, a ∉ axesOf done := fun a ha hm => hdisj a hm a ha rfl
  have hlen := length_le_of_nodup hus
  have hlevel : q.mouseLevel = 0 := by rw [hd.level, h.level]
  have hyes : isPointerInput q.toWalk (itemU inp.data) :=
    (isPointerInput_iff hlevel inp).mpr ⟨hflags.1, hflags.2.1⟩
  have hqsize : q.g.reportSize.toNat = size := by
    rw [hd.size, hsize, Option.map_some, Option.getD_some, BitVec.toNat_ofNat,
      Nat.mod_eq_of_lt (by omega)]
  have hqcount : q.g.reportCount.toNat = us.length := by
    rw [hd.count, hcount, Option.map_some, Option.getD_some, BitVec.toNat_ofNat,
      Nat.mod_eq_of_lt (by omega)]
  have hqmin : q.g.logicalMin < 0 := by
    rw [hd.logicalMin, Option.mem_def.mp hv]
    exact hneg
  have hcur : q.bitCursor.toNat = totalBitsOf done := by rw [hd.cursor, h.cursor]
  have hfits : totalBitsOf done + us.length * size ≤ 65535 := by
    rw [totalBitsOf_concat] at hle
    exact hle
  obtain ⟨hget, hbtn, hbc⟩ := assignInput_axes (b := q.bitCursor) (o := q.out) hus
    (fun i a => hd.slotUsage_eq (by omega) husages) hqcount
    (fun hb => hd.out ▸ h.axisPage hd hpage hb)
  have hnone : ∀ a, a ∉ us → (assignInput q.toWalk q.bitCursor q.out).get a.sel =
      p.out.get a.sel := fun a ha => by
    rw [hget, if_neg (by rw [List.idxOf_eq_length_iff.mpr ha]; exact lt_irrefl _), hd.out]
  have hout : (handleItem q inp).out = assignInput q.toWalk q.bitCursor q.out := by
    rw [handleItem_input q hin]
    exact if_pos hyes
  obtain ⟨hdepth, hlevel', husages', hid, hpage', hcursor⟩ := h.walk_step hd hin
    (by rw [hqsize, hqcount]; exact Nat.mul_comm _ _) hle
  constructor
  case depth => exact hdepth
  case level => exact hlevel'
  case usages => exact husages'
  case id => exact hid
  case cursor => exact hcursor
  case lock => rw [hout]; exact Or.inr (h.lock_step hd _)
  case axis =>
    intro a off size' hpl
    rw [hout]
    rcases placed_concat.mp hpl with hpl | ⟨us', i, hseg, hi, rfl⟩
    · -- an axis of an earlier segment is none of these
      rw [hnone a fun ha => hnew a ha hpl.mem]
      exact h.axis a off size' hpl
    · -- axis `i` of this item was absent, and its slot fits
      obtain ⟨rfl, rfl⟩ : us = us' ∧ size = size' := by simpa using hseg
      obtain ⟨hilt, rfl⟩ := List.getElem?_eq_some_iff.mp hi
      have habs := h.noAxis _ (hnew _ (List.getElem_mem hilt))
      have hmul : i * size + size ≤ us.length * size := by
        rw [← Nat.succ_mul]
        exact Nat.mul_le_mul_right size hilt
      rw [hget, hd.out, hus.idxOf_getElem, if_pos hilt,
        setSlot_of_fits habs hqmin (by rw [hcur, hqsize]; omega), hcur, hqsize, ← hqsize,
        BitVec.ofNat_toNat, BitVec.setWidth_eq]
  case noAxis =>
    intro a ha
    rw [axesOf_concat] at ha
    rw [hout, hnone a fun hm => ha (List.mem_append_right _ hm)]
    exact h.noAxis a fun hm => ha (List.mem_append_left _ hm)
  case run =>
    intro off n hpl
    rw [hout, hbtn, hbc, hd.out]
    rcases runPlaced_concat.mp hpl with hpl | ⟨hseg, -⟩
    · exact h.run off n hpl
    · simp at hseg
  case noRun =>
    intro hno
    rw [hout, hbtn, hbc, hd.out]
    exact h.noRun fun n hm => hno n (List.mem_append_left _ hm)
  case page =>
    intro hb
    rw [hpage'] at hb
    rw [hout, hbtn, hd.out]
    exact (h.axisPage hd hpage hb).2

end Step

/-- **One segment records its fields where it lies.** -/
theorem Ready.segment {r : U8} {done : List Segment} {seg : Segment} {its : List Item} {p : Parser}
    (h : Ready r done p) (hr : seg.Renders its) (hin : seg.InRange)
    (hle : totalBitsOf (done ++ [seg]) ≤ 65535) (hnd : (axesOf (done ++ [seg])).Nodup)
    (hone : ((done ++ [seg]).filter Segment.isButtons).length ≤ 1) :
    Ready r (done ++ [seg]) (its.foldl handleItem p) := by
  obtain ⟨pre, inp, rfl, hpre, hdecl, hinp, hflags⟩ := hr
  have hd := (Declared.refl h.usages).foldl pre hpre
  rw [List.foldl_append, List.foldl_cons, List.foldl_nil]
  cases seg with
  | padding size count => exact h.padding hd hdecl hinp hflags hle
  | axes us size => exact h.axisItem hd hdecl hinp hflags hin.2 hle hnd
  | buttons n =>
    apply h.buttonRun hd hdecl hinp hflags hin.2 hle
    intro m hm
    -- a second run would make two
    have hmem : Segment.buttons m ∈ done.filter Segment.isButtons := by simp [hm, Segment.isButtons]
    have := List.length_pos_of_mem hmem
    have hself : [Segment.buttons n].filter Segment.isButtons = [Segment.buttons n] := rfl
    rw [List.filter_append, List.length_append, hself, List.length_singleton] at hone
    omega

/-- The parser behind further segments. -/
theorem Ready.segments {r : U8} {done segs : List Segment} {body : List (List Item)} {p : Parser}
    (h : Ready r done p) (hr : List.Forall₂ Segment.Renders segs body)
    (hin : ∀ seg ∈ segs, seg.InRange) (hle : totalBitsOf (done ++ segs) ≤ 65535)
    (hnd : (axesOf (done ++ segs)).Nodup)
    (hone : ((done ++ segs).filter Segment.isButtons).length ≤ 1) :
    Ready r (done ++ segs) (body.flatten.foldl handleItem p) := by
  induction hr generalizing done p with
  | nil =>
    rw [List.append_nil]
    exact h
  | @cons seg its segs body hseg hrest ih =>
    have hsplit : done ++ seg :: segs = done ++ [seg] ++ segs := by simp
    rw [hsplit] at hle hnd hone ⊢
    rw [List.flatten_cons, List.foldl_append]
    refine ih (h.segment hseg (hin seg List.mem_cons_self) ?_ ?_ ?_)
      (fun s hs => hin s (List.mem_cons_of_mem _ hs)) hle hnd hone
    · rw [totalBitsOf, List.map_append, List.sum_append] at hle
      exact le_trans (Nat.le_add_right _ _) hle
    · rw [axesOf, List.flatMap_append] at hnd
      exact (List.nodup_append.mp hnd).1
    · rw [List.filter_append, List.length_append] at hone
      omega

/-! ### The frame of a descriptor -/

theorem Item.IsGlobal.handleItem_eq {it : Item} {tag : GlobalTag} {n : ℕ} (h : it.IsGlobal tag n)
    (p : Parser) : handleItem p it = handleGlobal p tag it.data := by
  obtain ⟨ht, hg, -⟩ := h
  rw [handleItem, dispatch, ht, ← hg]

/-- A Usage item on its page is the extended usage it names. -/
theorem Item.IsUsage.handleItem_eq {it : Item} {page id : ℕ} (h : it.IsUsage page id)
    (hid : id < 65536) {p : Parser} (hempty : p.usages = [])
    (hpage : p.g.usagePage = BitVec.ofNat 16 page) :
    ∃ u, handleItem p it = { p with usages := [u] } ∧ usagePage u = BitVec.ofNat 16 page ∧
      usageId u = BitVec.ofNat 16 id := by
  obtain ⟨ht, hg, hdata⟩ := h
  have hu := toNat_itemU it.data it.length_data_le
  have hhandle : handleItem p it = { p with
      usages :=
        [if it.data.length = 4 then itemU it.data
          else makeUsage p.g.usagePage (itemU it.data)] } := by
    rw [handleItem, dispatch, ht]
    simp only [hg, handleLocal, hempty, List.length_nil, List.nil_append]
    rfl
  refine ⟨_, hhandle, ?_⟩
  rcases hdata with ⟨hlen, hval⟩ | ⟨hlen, hval⟩
  · -- a short usage is on the page in force
    rw [if_neg hlen.ne, hpage, usagePage_makeUsage, usageId_makeUsage]
    refine ⟨rfl, BitVec.eq_of_toNat_eq ?_⟩
    rw [BitVec.toNat_setWidth, hu, hval, BitVec.toNat_ofNat]
  · -- a 4-byte usage is its own extended usage
    have hmask : (0xFFFF : U32).toNat = 2 ^ 16 - 1 := rfl
    rw [if_pos hlen]
    constructor <;> refine BitVec.eq_of_toNat_eq ?_
    · rw [usagePage, BitVec.toNat_setWidth, BitVec.toNat_ushiftRight, hu, hval,
        Nat.shiftRight_eq_div_pow, BitVec.toNat_ofNat]
      omega
    · rw [usageId, BitVec.toNat_setWidth, BitVec.toNat_and, hmask, Nat.and_two_pow_sub_one_eq_mod,
        hu, hval, BitVec.toNat_ofNat]
      omega

theorem Item.IsCollection.handleItem_eq {it : Item} {kind : ℕ} (h : it.IsCollection kind)
    (p : Parser) : handleItem p it = clearLocal (handleCollection p (BitVec.ofNat 32 kind)) := by
  obtain ⟨ht, hg, hval⟩ := h
  have hu : itemU it.data = BitVec.ofNat 32 kind := by
    rw [← hval, ← toNat_itemU it.data it.length_data_le, BitVec.ofNat_toNat, BitVec.setWidth_eq]
  rw [handleItem, dispatch, ht]
  simp only [hg, handleMain, hu]

theorem Item.IsEnd.handleItem_eq {it : Item} (h : it.IsEnd) (p : Parser) :
    handleItem p it = clearLocal (handleEndCollection p) := by
  obtain ⟨ht, hg⟩ := h
  rw [handleItem, dispatch, ht]
  simp only [hg, handleMain]

/-- A collection is named by its last usage. -/
theorem opensAs_singleton {w : Walk} {u : U32} {page id : ℕ} (h : w.usages = [u])
    (hpage : usagePage u = BitVec.ofNat 16 page) (hid : usageId u = BitVec.ofNat 16 id) (x : U16) :
    opensAs w x = decide (BitVec.ofNat 16 page = pageGenericDesktop ∧ BitVec.ofNat 16 id = x) := by
  rw [opensAs, h]
  simp only [List.getLast?_singleton, hpage, hid]

namespace MouseDescriptor

variable {r : Option U8} {segs : List Segment} (d : MouseDescriptor r segs)

/-- No item of a descriptor is taken for a long item. -/
theorem head_ne_long : ∀ it ∈ d.items, it.head ≠ itemLong := by
  intro it hit
  apply Item.head_ne_itemLong
  intro hres
  -- no item of a descriptor is of the reserved type
  simp only [items, header, List.mem_append, List.mem_cons, List.not_mem_nil, or_false] at hit
  rcases hit with ((((rfl | rfl | rfl) | hid) | rfl | rfl) | hbody) | rfl | rfl
  · simp [d.page_spec.1] at hres
  · simp [d.mouse_spec.1] at hres
  · simp [d.application_spec.1] at hres
  · obtain ⟨id, -, hspec⟩ := exists_of_forall₂_mem_right d.reportId_spec hid
    simp [hspec.1] at hres
  · simp [d.pointer_spec.1] at hres
  · simp [d.physical_spec.1] at hres
  · obtain ⟨its, hits, hit⟩ := List.mem_flatten.mp hbody
    obtain ⟨seg, -, pre, inp, rfl, hpre, -, hin, -⟩ := exists_of_forall₂_mem_right d.body_spec hits
    rcases List.mem_append.mp hit with hit | hit
    · have := hpre it hit
      simp [Item.isPreamble, hres] at this
    · rw [List.mem_singleton.mp hit, (inp.isInput_iff.mp hin).1] at hres
      simp at hres
  · simp [d.endPhysical_spec.1] at hres
  · simp [d.endApplication_spec.1] at hres

/-- The parser inside the mouse application. -/
theorem opened : ∃ p, [d.page, d.mouse, d.application].foldl handleItem Parser.start = p ∧
    p.depth = 1 ∧ p.mouseLevel = 0 ∧ p.usages = [] ∧ p.g.reportId = 0 ∧ p.bitCursor = 0 ∧
    p.out = .zero ∧ p.g.usagePage = BitVec.ofNat 16 0x01 := by
  have hpage := d.page_spec.handleItem_eq Parser.start
  have hone : ((itemU d.page.data).setWidth 16 : U16) = BitVec.ofNat 16 0x01 := by
    rw [setWidth_itemU _ d.page.length_data_le, d.page_spec.2.2]
  rw [handleGlobal] at hpage
  obtain ⟨u, hmouse, hup, hui⟩ := d.mouse_spec.handleItem_eq (by decide)
    (p := handleItem Parser.start d.page) (by rw [hpage]; rfl) (by rw [hpage]; exact hone)
  refine ⟨_, rfl, ?_⟩
  have hopens := fun x => opensAs_singleton (w := (handleItem (handleItem Parser.start d.page)
    d.mouse).toWalk) (u := u) (by rw [hmouse]) hup hui x
  simp only [List.foldl_cons, List.foldl_nil]
  rw [d.application_spec.handleItem_eq]
  simp only [clearLocal, handleCollection, hopens]
  rw [hmouse, hpage]
  refine ⟨rfl, ?_, trivial, rfl, rfl, rfl, hone⟩
  simp [Parser.start, Parser.zero, Walk.zero, hidCollectionApplication, pageGenericDesktop,
    usageGdMouse]

/-- The parser behind the Report ID, if there is one. -/
theorem identified : ∃ p, ([d.page, d.mouse, d.application] ++ d.reportId).foldl handleItem
      Parser.start = p ∧
    p.depth = 1 ∧ p.mouseLevel = 0 ∧ p.usages = [] ∧ p.g.reportId = r.getD 0 ∧ p.bitCursor = 0 ∧
    p.out = .zero ∧ p.g.usagePage = BitVec.ofNat 16 0x01 := by
  obtain ⟨p, hp, hdepth, hlevel, husages, hid, hcur, hout, hpage⟩ := d.opened
  have hspec := d.reportId_spec
  rw [List.foldl_append, hp]
  cases r with
  | none =>
    cases hspec' : d.reportId with
    | nil => exact ⟨p, rfl, hdepth, hlevel, husages, hid, hcur, hout, hpage⟩
    | cons it its => rw [hspec'] at hspec; simp at hspec
  | some id =>
    cases hspec' : d.reportId with
    | nil => rw [hspec'] at hspec; simp at hspec
    | cons it its =>
      rw [hspec'] at hspec
      simp only [Option.toList_some, List.forall₂_cons, List.forall₂_nil_left_iff] at hspec
      obtain ⟨hit, rfl⟩ := hspec
      have hval : ((itemU it.data).setWidth 8 : U8) = id := by
        rw [setWidth_itemU _ it.length_data_le, hit.2.2, BitVec.ofNat_toNat, BitVec.setWidth_eq]
      refine ⟨_, rfl, ?_⟩
      rw [List.foldl_cons, List.foldl_nil, hit.handleItem_eq]
      refine ⟨hdepth, hlevel, husages, hval, ?_, hout, hpage⟩
      show (if _ then (0 : U32) else p.bitCursor) = 0
      rw [hcur, ite_self]

/-- **Behind its header a descriptor is ready for its segments.** -/
theorem ready_header : Ready (r.getD 0) [] (runItems d.header) := by
  obtain ⟨p, hp, hdepth, hlevel, husages, hid, hcur, hout, hpage⟩ := d.identified
  obtain ⟨u, hptr, hup, hui⟩ := d.pointer_spec.handleItem_eq (by decide) husages hpage
  have hopens := fun x => opensAs_singleton (w := (handleItem p d.pointer).toWalk) (u := u)
    (by rw [hptr]) hup hui x
  have hrun : runItems d.header = clearLocal (handleCollection (handleItem p d.pointer) 0) := by
    rw [runItems, header, List.foldl_append, hp]
    exact d.physical_spec.handleItem_eq _
  have hempty : ∀ a : Axis, ¬ (p.out.get a.sel).Present := by
    intro a
    rw [hout]
    exact ReportLayout.not_present_zero _
  have hphys : ¬ ((0 : U32) = hidCollectionApplication) := by decide
  rw [hrun]
  simp only [clearLocal, handleCollection, hphys, false_and, if_false]
  rw [hptr]
  constructor
  case depth => rw [hdepth]; rfl
  case level => exact hlevel
  case usages => rfl
  case id => exact hid
  case cursor => rw [hcur]; rfl
  case lock =>
    -- nothing is recorded, so the lock is still open
    apply Or.inl
    rw [hout]
    exact ⟨rfl, by decide⟩
  case axis =>
    rintro a off size ⟨front, us, back, i, hnil, -⟩
    simp at hnil
  case noAxis => exact fun a _ => hempty a
  case run =>
    rintro off n ⟨front, back, hnil, -⟩
    simp at hnil
  case noRun =>
    intro _
    rw [hout]
    exact ⟨Field.not_present_zero, rfl⟩
  case page =>
    intro hb
    rw [hpage] at hb
    exact absurd hb (by decide)

/-- **Behind its last segment every field of a descriptor is recorded where it lies.** -/
theorem ready (h : WellFormed segs) :
    Ready (r.getD 0) segs (runItems (d.header ++ d.body.flatten)) := by
  rw [runItems, List.foldl_append]
  exact d.ready_header.segments d.body_spec h.inRange h.bits_le h.nodup h.oneRun

end MouseDescriptor

end BleHidHost
