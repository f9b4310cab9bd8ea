import BleHidHost.RelativeAxes

/-!
# Slot usages and declaration order

The local items in front of an Input item declare usages: a Usage one, a Usage Minimum and a
Usage Maximum together a range of them.  Read in their order, they are a sequence, and slot `i`
would have its `i`-th entry, the last one past the end.  The parser keeps less than that
sequence: at most 16 of the Usages, and the ends of one range, which it looks at only where
there is no Usage.

## Main definitions

* `declarations` — the declarations in force behind a list of items.
* `declaredUsages` — the usages they declare, in their order.
* `keptUsages` — what the parser has kept of them.

## Main results

* `keepsDeclared_walkItems` — the registers of the walk stand for the declarations.
* `usageForSlot_eq_nthUsage` — a slot has its entry of what was kept.
* `nthUsage_keptUsages_of_inOrder` — where that is the declared one.
* `slotUsages_declared` — **the usages of the slots, and from which of them an axis is
  recorded.**
-/

namespace BleHidHost

open Lib

/-! ### Declarations -/

/-- A local item that declares usages.  A Usage stands with the page it is on; a range is on
the page of its Input item. -/
inductive Declaration where
  | usage (u : U32)
  | minimum (it : Item)
  | maximum (it : Item)
  deriving DecidableEq, Repr

/-- The extended usage an item names on a page: four bytes carry a page of their own. -/
def extendedUsage (page : U16) (it : Item) : U32 :=
  if it.data.length = 4 then itemU it.data else makeUsage page (itemU it.data)

/-- What an item declares where the current Usage Page is `page`. -/
def Item.declares (page : U16) (it : Item) : Option Declaration :=
  match itemType it.type with
  | .local =>
    match localTag it.tag with
    | .usage => some (.usage (extendedUsage page it))
    | .usageMin => some (.minimum it)
    | .usageMax => some (.maximum it)
    | .other => none
  | _ => none

/-- The declarations in force behind one more item.  A Main item ends them. -/
def declareNext (page : U16) (ds : List Declaration) (it : Item) : List Declaration :=
  if itemType it.type = .main then [] else ds ++ (it.declares page).toList

/-- One item: the walk behind it, and the declarations in force. -/
def declareItem (s : Walk × List Declaration) (it : Item) : Walk × List Declaration :=
  (walkItem s.1 it, declareNext s.1.g.usagePage s.2 it)

/-- The declarations in force behind a list of items: those since the last Main item. -/
def declarations (its : List Item) : List Declaration :=
  (its.foldl declareItem (Parser.start.toWalk, [])).2

theorem foldl_declareItem (its : List Item) :
    its.foldl declareItem (Parser.start.toWalk, []) = (walkItems its, declarations its) := by
  have hwalk : (its.foldl declareItem (Parser.start.toWalk, [])).1 = walkItems its := by
    induction its using List.reverseRecOn with
    | nil => rfl
    | append_singleton its it ih =>
      rw [List.foldl_append, List.foldl_cons, List.foldl_nil, walkItems_concat, ← ih]
      rfl
  rw [← hwalk]
  rfl

@[simp] theorem declarations_nil : declarations [] = [] := rfl

theorem declarations_concat (its : List Item) (it : Item) :
    declarations (its ++ [it]) = declareNext (walkItems its).g.usagePage (declarations its) it := by
  rw [declarations, List.foldl_append, foldl_declareItem]
  rfl

/-! ### The declared sequence -/

/-- The usages from `lo` to `hi`. -/
def rangeUsages (lo hi : U32) : List U32 :=
  (List.range' lo.toNat (hi.toNat + 1 - lo.toNat)).map (BitVec.ofNat 32)

/-- The usages that declarations declare, where `lo` and `hi` are the ends of a range that
wait for the other one.  A range stands where it is complete. -/
def usagesFrom (page : U16) : Option U32 → Option U32 → List Declaration → List U32
  | _, _, [] => []
  | lo, hi, .usage u :: ds => u :: usagesFrom page lo hi ds
  | _, none, .minimum it :: ds => usagesFrom page (some (extendedUsage page it)) none ds
  | _, some hi, .minimum it :: ds =>
    rangeUsages (extendedUsage page it) hi ++ usagesFrom page none none ds
  | none, _, .maximum it :: ds => usagesFrom page none (some (extendedUsage page it)) ds
  | some lo, _, .maximum it :: ds =>
    rangeUsages lo (extendedUsage page it) ++ usagesFrom page none none ds

/-- The declared sequence: the Usages and the expanded ranges, in their order. -/
def declaredUsages (page : U16) (ds : List Declaration) : List U32 := usagesFrom page none none ds

/-- Entry `i` of a sequence, the last one past the end.  An empty one stands for usage 0. -/
def nthUsage (page : U16) (us : List U32) (i : ℕ) : U32 :=
  us.getD (min i (us.length - 1)) (makeUsage page 0)

/-! ### What the parser keeps -/

/-- The usage of a Usage. -/
def Declaration.usage? : Declaration → Option U32
  | .usage u => some u
  | _ => none

/-- The item of a Usage Minimum. -/
def Declaration.minimum? : Declaration → Option Item
  | .minimum it => some it
  | _ => none

/-- The item of a Usage Maximum. -/
def Declaration.maximum? : Declaration → Option Item
  | .maximum it => some it
  | _ => none

/-- The declaration is of an end of a range. -/
def Declaration.isBound (d : Declaration) : Bool := d.minimum?.isSome || d.maximum?.isSome

/-- The Usages, in their order. -/
def explicitUsages (ds : List Declaration) : List U32 := ds.filterMap Declaration.usage?

/-- The last Usage Minimum. -/
def lastMinimum (ds : List Declaration) : Option Item :=
  (ds.filterMap Declaration.minimum?).getLast?

/-- The last Usage Maximum. -/
def lastMaximum (ds : List Declaration) : Option Item :=
  (ds.filterMap Declaration.maximum?).getLast?

/-- The usage of an end of a range, 0 where it was not declared. -/
def boundUsage (page : U16) : Option Item → U32
  | some it => extendedUsage page it
  | none => makeUsage page 0

/-- The value of an end of a range, 0 where it was not declared. -/
def boundValue : Option Item → U32
  | some it => itemU it.data
  | none => 0

/-- What is kept of the declarations: the first 16 Usages, or without any the range between
the last Minimum and the last Maximum.  A range the wrong way round is its Maximum alone. -/
def keptUsages (page : U16) (ds : List Declaration) : List U32 :=
  if explicitUsages ds = [] then
    let lo := boundUsage page (lastMinimum ds)
    let hi := boundUsage page (lastMaximum ds)
    rangeUsages (if hi < lo then hi else lo) hi
  else (explicitUsages ds).take maxLocalUsages

/-- The ends of a range that is looked at are given without a page of their own. -/
def ShortBounds (ds : List Declaration) : Prop :=
  explicitUsages ds = [] →
    (∀ it ∈ lastMinimum ds, it.data.length < 4) ∧ ∀ it ∈ lastMaximum ds, it.data.length < 4

instance (ds : List Declaration) : Decidable (ShortBounds ds) := by
  unfold ShortBounds
  exact inferInstance

/-- The registers of a walk stand for the declarations in force. -/
structure KeepsDeclared (w : Walk) (ds : List Declaration) : Prop where
  usages : w.usages = (explicitUsages ds).take maxLocalUsages
  usageMin : w.usageMin = boundValue (lastMinimum ds)
  usageMax : w.usageMax = boundValue (lastMaximum ds)
  hasUsageRange : w.hasUsageRange = ds.any Declaration.isBound

section Concat

variable (ds : List Declaration) (d : Declaration)

theorem explicitUsages_concat :
    explicitUsages (ds ++ [d]) = explicitUsages ds ++ d.usage?.toList := by
  simp only [explicitUsages, List.filterMap_append]
  cases d <;> rfl

theorem lastMinimum_concat : lastMinimum (ds ++ [d]) = d.minimum?.or (lastMinimum ds) := by
  rw [lastMinimum, List.filterMap_append]
  cases d <;> simp [lastMinimum, Declaration.minimum?]

theorem lastMaximum_concat : lastMaximum (ds ++ [d]) = d.maximum?.or (lastMaximum ds) := by
  rw [lastMaximum, List.filterMap_append]
  cases d <;> simp [lastMaximum, Declaration.maximum?]

theorem any_isBound_concat :
    (ds ++ [d]).any Declaration.isBound = (ds.any Declaration.isBound || d.isBound) := by
  rw [List.any_append, List.any_cons, List.any_nil, Bool.or_false]

end Concat

/-- Without declarations the registers are cleared. -/
theorem keepsDeclared_nil {w : Walk} (husages : w.usages = []) (hmin : w.usageMin = 0)
    (hmax : w.usageMax = 0) (hrange : w.hasUsageRange = false) : KeepsDeclared w [] :=
  ⟨husages, hmin, hmax, hrange⟩

/-- A capped list takes one more entry where it has room. -/
theorem take_concat {α : Type} (l : List α) (a : α) (n : ℕ) :
    (l ++ [a]).take n = if (l.take n).length < n then l.take n ++ [a] else l.take n := by
  rw [List.length_take]
  split
  · next hlt =>
    have hle : l.length ≤ n := by omega
    rw [List.take_of_length_le hle, List.take_of_length_le]
    rw [List.length_append, List.length_singleton]
    omega
  · next hge => rw [List.take_append_of_le_length (by omega)]

/-- **One item keeps the registers with the declarations.** -/
theorem KeepsDeclared.step {w : Walk} {ds : List Declaration} (h : KeepsDeclared w ds) (it : Item) :
    KeepsDeclared (walkItem w it) (declareNext w.g.usagePage ds it) := by
  obtain ⟨husages, hmin, hmax, hrange⟩ := h
  unfold walkItem handleItem dispatch declareNext Item.declares
  cases ht : itemType it.type with
  | main =>
    -- a Main item clears the registers
    rw [if_pos rfl]
    exact keepsDeclared_nil rfl rfl rfl rfl
  | global =>
    rw [if_neg (by decide), Option.toList_none, List.append_nil]
    cases globalTag it.tag <;> exact ⟨husages, hmin, hmax, hrange⟩
  | «local» =>
    rw [if_neg (by decide)]
    cases localTag it.tag with
    | usage =>
      refine ⟨?_, ?_, ?_, ?_⟩
      · rw [Option.toList_some, explicitUsages_concat]
        show _ = (explicitUsages ds ++ [extendedUsage w.g.usagePage it]).take maxLocalUsages
        rw [take_concat, ← husages]
        rfl
      · rw [Option.toList_some, lastMinimum_concat]
        exact hmin
      · rw [Option.toList_some, lastMaximum_concat]
        exact hmax
      · rw [Option.toList_some, any_isBound_concat]
        exact hrange.trans (Bool.or_false _).symm
    | usageMin =>
      refine ⟨?_, ?_, ?_, ?_⟩
      · rw [Option.toList_some, explicitUsages_concat]
        exact husages.trans (congrArg _ (List.append_nil _).symm)
      · rw [Option.toList_some, lastMinimum_concat]
        rfl
      · rw [Option.toList_some, lastMaximum_concat]
        exact hmax
      · rw [Option.toList_some, any_isBound_concat]
        exact (Bool.or_true _).symm
    | usageMax =>
      refine ⟨?_, ?_, ?_, ?_⟩
      · rw [Option.toList_some, explicitUsages_concat]
        exact husages.trans (congrArg _ (List.append_nil _).symm)
      · rw [Option.toList_some, lastMinimum_concat]
        exact hmin
      · rw [Option.toList_some, lastMaximum_concat]
        rfl
      · rw [Option.toList_some, any_isBound_concat]
        exact (Bool.or_true _).symm
    | other =>
      rw [Option.toList_none, List.append_nil]
      exact ⟨husages, hmin, hmax, hrange⟩
  | reserved =>
    rw [if_neg (by decide), Option.toList_none, List.append_nil]
    exact ⟨husages, hmin, hmax, hrange⟩

/-- **The registers of the walk stand for the declarations in force.** -/
theorem keepsDeclared_walkItems (its : List Item) :
    KeepsDeclared (walkItems its) (declarations its) := by
  induction its using List.reverseRecOn with
  | nil => exact keepsDeclared_nil rfl rfl rfl rfl
  | append_singleton its it ih =>
    rw [walkItems_concat, declarations_concat]
    exact ih.step it

/-! ### Slots -/

section Slots

variable {page : U16} {w : Walk} {ds : List Declaration} {i : ℕ}

/-- Entry `i` of a sequence that has it. -/
theorem nthUsage_of_lt {us : List U32} (h : i < us.length) : nthUsage page us i = us[i] := by
  rw [nthUsage, Nat.min_eq_left (by omega), List.getD_eq_getElem?_getD,
    List.getElem?_eq_getElem h, Option.getD_some]

/-- Entry `i` of a range, clamped at its upper end. -/
theorem nthUsage_rangeUsages {lo hi : U32} (h : lo ≤ hi) (i : ℕ) :
    nthUsage page (rangeUsages lo hi) i = BitVec.ofNat 32 (min (lo.toNat + i) hi.toNat) := by
  have hle : lo.toNat ≤ hi.toNat := h
  have hlen : (rangeUsages lo hi).length = hi.toNat + 1 - lo.toNat := by
    simp only [rangeUsages, List.length_map, List.length_range']
  have hlt : min i (hi.toNat - lo.toNat) < (rangeUsages lo hi).length := by omega
  have hlast : hi.toNat + 1 - lo.toNat - 1 = hi.toNat - lo.toNat := by omega
  have hsum : lo.toNat + 1 * min i (hi.toNat - lo.toNat) = min (lo.toNat + i) hi.toNat := by omega
  rw [nthUsage, hlen, hlast, List.getD_eq_getElem?_getD, List.getElem?_eq_getElem hlt,
    Option.getD_some]
  simp only [rangeUsages, List.getElem_map, List.getElem_range', hsum]

/-- The end of a range without a page of its own is on the current one. -/
theorem boundUsage_of_short {b : Option Item} (h : ∀ it ∈ b, it.data.length < 4) :
    boundUsage page b = makeUsage page (boundValue b) := by
  cases b with
  | none => rfl
  | some it => exact if_neg (h it rfl).ne

theorem toNat_boundValue_lt {b : Option Item} (h : ∀ it ∈ b, it.data.length < 4) :
    (boundValue b).toNat < 65536 := by
  cases b with
  | none => decide
  | some it => exact it.toNat_itemU_lt (h it rfl)

/-- The extended usage of a value of 16 bits. -/
theorem toNat_makeUsage_of_lt (page : U16) {id : U32} (h : id.toNat < 65536) :
    (makeUsage page id).toNat = page.toNat * 65536 + id.toNat := by
  rw [toNat_makeUsage, Nat.mod_eq_of_lt h]

/-- **With Usages a slot has its entry of the first 16.** -/
theorem KeepsDeclared.usageForSlot_of_usages (h : KeepsDeclared w ds)
    (hne : explicitUsages ds ≠ []) (i : ℕ) :
    usageForSlot w i = nthUsage page ((explicitUsages ds).take maxLocalUsages) i := by
  have hpos : 0 < w.usages.length := by
    rw [h.usages, List.length_take]
    have hlen := List.length_pos_iff.mpr hne
    exact lt_min (by decide) hlen
  have hlast : (if i < w.usages.length then i else w.usages.length - 1) =
      min i (w.usages.length - 1) := by
    split <;> omega
  have hlt : min i (w.usages.length - 1) < w.usages.length := by omega
  rw [usageForSlot, if_pos hpos, hlast, ← h.usages, nthUsage, List.getD_eq_getElem?_getD,
    List.getD_eq_getElem?_getD, List.getElem?_eq_getElem hlt, Option.getD_some, Option.getD_some]

/-- Without an end of a range both are 0. -/
theorem lastBounds_of_any_isBound (h : ds.any Declaration.isBound = false) :
    lastMinimum ds = none ∧ lastMaximum ds = none := by
  have hnone (d : Declaration) (hd : d ∈ ds) : d.minimum? = none ∧ d.maximum? = none := by
    have hbound := List.any_eq_false.mp h d hd
    cases d with
    | usage u => exact ⟨rfl, rfl⟩
    | minimum it => exact absurd rfl hbound
    | maximum it => exact absurd rfl hbound
  have hmin : ds.filterMap Declaration.minimum? = [] :=
    List.filterMap_eq_nil_iff.mpr fun d hd => (hnone d hd).1
  have hmax : ds.filterMap Declaration.maximum? = [] :=
    List.filterMap_eq_nil_iff.mpr fun d hd => (hnone d hd).2
  simp only [lastMinimum, lastMaximum, hmin, hmax]
  exact ⟨rfl, rfl⟩

/-- Entry `i` of a range whose lower end is cut down to the upper one. -/
theorem nthUsage_rangeUsages_of_cut (lo hi : U32) (i : ℕ) :
    nthUsage page (rangeUsages (if hi < lo then hi else lo) hi) i =
      BitVec.ofNat 32 (min (min lo.toNat hi.toNat + i) hi.toNat) := by
  split
  · next hlt =>
    rw [nthUsage_rangeUsages (BitVec.le_refl hi), Nat.min_eq_right (BitVec.lt_def.mp hlt).le]
  · next hge =>
    rw [nthUsage_rangeUsages (BitVec.not_lt.mp hge), Nat.min_eq_left (BitVec.not_lt.mp hge)]

/-- A place in a range, clamped at the upper end, on the page of the slot. -/
theorem makeUsage_clamp {a b : U32} (ha : a.toNat < 65536) (hb : b.toNat < 65536) (hi : i < 256) :
    makeUsage page (if b < a + BitVec.ofNat 32 i then b else a + BitVec.ofNat 32 i) =
      nthUsage page (rangeUsages
        (if makeUsage page b < makeUsage page a then makeUsage page b else makeUsage page a)
        (makeUsage page b)) i := by
  have hpage := page.isLt
  have hsum : (a + BitVec.ofNat 32 i).toNat = a.toNat + i := by
    rw [BitVec.toNat_add, BitVec.toNat_ofNat]
    omega
  have hclamp : (if b < a + BitVec.ofNat 32 i then b else a + BitVec.ofNat 32 i).toNat =
      min (a.toNat + i) b.toNat := by
    split
    · next hlt =>
      rw [BitVec.lt_def, hsum] at hlt
      omega
    · next hge =>
      rw [BitVec.lt_def, hsum] at hge
      omega
  rw [nthUsage_rangeUsages_of_cut]
  apply BitVec.eq_of_toNat_eq
  rw [toNat_makeUsage_of_lt page (by omega), hclamp, BitVec.toNat_ofNat,
    toNat_makeUsage_of_lt page ha, toNat_makeUsage_of_lt page hb]
  omega

/-- **Without Usages a slot has its place in the range.** -/
theorem KeepsDeclared.usageForSlot_of_range (h : KeepsDeclared w ds)
    (hnone : explicitUsages ds = []) (hshort : ShortBounds ds) (hi : i < 256) :
    usageForSlot w i = nthUsage w.g.usagePage (keptUsages w.g.usagePage ds) i := by
  have hempty : ¬ 0 < w.usages.length := by
    rw [h.usages, hnone]
    exact lt_irrefl 0
  -- without a range both ends are 0, and so is what is between them
  have hslot : usageForSlot w i = makeUsage w.g.usagePage
      (if w.usageMax < w.usageMin + BitVec.ofNat 32 i then w.usageMax
        else w.usageMin + BitVec.ofNat 32 i) := by
    simp only [usageForSlot, if_neg hempty]
    split
    · rfl
    · next hrange =>
      rw [Bool.not_eq_true, h.hasUsageRange] at hrange
      have hzero : w.usageMax = 0 := by
        rw [h.usageMax, (lastBounds_of_any_isBound hrange).2]
        rfl
      rw [hzero]
      split
      · rfl
      · next hnot =>
        rw [BitVec.le_zero_iff.mp (BitVec.not_lt.mp hnot)]
        rfl
  obtain ⟨hmin, hmax⟩ := hshort hnone
  rw [hslot, h.usageMin, h.usageMax,
    makeUsage_clamp (toNat_boundValue_lt hmin) (toNat_boundValue_lt hmax) hi, keptUsages,
    if_pos hnone, boundUsage_of_short hmin, boundUsage_of_short hmax]

/-- **A slot has its entry of what was kept.** -/
theorem usageForSlot_eq_nthUsage (its : List Item) (hi : i < (walkItems its).g.reportCount.toNat)
    (hshort : ShortBounds (declarations its)) :
    usageForSlot (walkItems its) i = nthUsage (walkItems its).g.usagePage
      (keptUsages (walkItems its).g.usagePage (declarations its)) i := by
  have hkeeps := keepsDeclared_walkItems its
  have hcount := (walkItems its).g.reportCount.isLt
  by_cases hnone : explicitUsages (declarations its) = []
  · exact hkeeps.usageForSlot_of_range hnone hshort (by omega)
  · rw [hkeeps.usageForSlot_of_usages hnone, keptUsages, if_neg hnone]

end Slots

/-! ### Slots in declaration order -/

/-- Slot `i` has its entry of the declared sequence: it is one of the Usages the sequence
begins with, or there are Usages alone, or one range alone. -/
inductive InOrder (i : ℕ) : List Declaration → Prop
  | leading (us : List U32) (rest : List Declaration) (hi : i < us.length)
    (hcap : i < maxLocalUsages) : InOrder i (us.map .usage ++ rest)
  | usages (us : List U32) (hcap : us.length ≤ maxLocalUsages) : InOrder i (us.map .usage)
  | range {lo hi : Item} (hlo : lo.data.length < 4) (hhi : hi.data.length < 4)
    (hle : itemU lo.data ≤ itemU hi.data) : InOrder i [.minimum lo, .maximum hi]
  | reversed {lo hi : Item} (hlo : lo.data.length < 4) (hhi : hi.data.length < 4)
    (hle : itemU lo.data ≤ itemU hi.data) : InOrder i [.maximum hi, .minimum lo]

section InOrder

variable {page : U16} {ds : List Declaration} {i : ℕ}

theorem explicitUsages_map_append (us : List U32) (rest : List Declaration) :
    explicitUsages (us.map .usage ++ rest) = us ++ explicitUsages rest := by
  induction us with
  | nil => rfl
  | cons u us ih => exact congrArg (u :: ·) ih

theorem usagesFrom_map_append (page : U16) (lo hi : Option U32) (us : List U32)
    (rest : List Declaration) :
    usagesFrom page lo hi (us.map .usage ++ rest) = us ++ usagesFrom page lo hi rest := by
  induction us with
  | nil => rfl
  | cons u us ih => rw [List.map_cons, List.cons_append, usagesFrom, ih, List.cons_append]

/-- The ends of one range alone are the right way round on its page. -/
theorem extendedUsage_le {lo hi : Item} (hlo : lo.data.length < 4) (hhi : hi.data.length < 4)
    (hle : itemU lo.data ≤ itemU hi.data) : extendedUsage page lo ≤ extendedUsage page hi := by
  rw [extendedUsage, if_neg hlo.ne, extendedUsage, if_neg hhi.ne, BitVec.le_def,
    toNat_makeUsage_of_lt page (lo.toNat_itemU_lt hlo),
    toNat_makeUsage_of_lt page (hi.toNat_itemU_lt hhi)]
  exact Nat.add_le_add_left hle _

/-- One range the right way round is kept as it was declared. -/
theorem keptUsages_of_range {lo hi : Item} (hnone : explicitUsages ds = [])
    (hmin : lastMinimum ds = some lo) (hmax : lastMaximum ds = some hi) (hlo : lo.data.length < 4)
    (hhi : hi.data.length < 4) (hle : itemU lo.data ≤ itemU hi.data) :
    keptUsages page ds = rangeUsages (extendedUsage page lo) (extendedUsage page hi) := by
  simp only [keptUsages, if_pos hnone, hmin, hmax]
  exact congrArg (rangeUsages · _) (if_neg (BitVec.not_lt.mpr (extendedUsage_le hlo hhi hle)))

theorem declaredUsages_range (lo hi : Item) :
    declaredUsages page [.minimum lo, .maximum hi] =
      rangeUsages (extendedUsage page lo) (extendedUsage page hi) :=
  List.append_nil _

theorem declaredUsages_reversed (lo hi : Item) :
    declaredUsages page [.maximum hi, .minimum lo] =
      rangeUsages (extendedUsage page lo) (extendedUsage page hi) :=
  List.append_nil _

/-- **Slots in declaration order have their entries among what was kept.** -/
theorem nthUsage_keptUsages_of_inOrder (h : InOrder i ds) :
    nthUsage page (keptUsages page ds) i = nthUsage page (declaredUsages page ds) i := by
  cases h with
  | leading us rest hi hcap =>
    have hne : us ++ explicitUsages rest ≠ [] := by
      intro hnil
      rw [(List.append_eq_nil_iff.mp hnil).1] at hi
      exact Nat.not_lt_zero i hi
    have htake : i < ((us ++ explicitUsages rest).take maxLocalUsages).length := by
      rw [List.length_take, List.length_append]
      omega
    have hdecl : i < (us ++ usagesFrom page none none rest).length := by
      rw [List.length_append]
      omega
    rw [keptUsages, explicitUsages_map_append, if_neg hne, declaredUsages, usagesFrom_map_append,
      nthUsage_of_lt htake, nthUsage_of_lt hdecl, List.getElem_take, List.getElem_append_left hi,
      List.getElem_append_left hi]
  | usages us hcap =>
    have hexplicit := (explicitUsages_map_append us []).trans (List.append_nil us)
    have hdecl := (usagesFrom_map_append page none none us []).trans (List.append_nil us)
    rw [List.append_nil] at hexplicit hdecl
    simp only [keptUsages, hexplicit, declaredUsages, hdecl]
    split
    · next hnil =>
      -- without any declaration every slot has usage 0
      subst hnil
      show nthUsage page (rangeUsages (if makeUsage page 0 < makeUsage page 0 then
        makeUsage page 0 else makeUsage page 0) (makeUsage page 0)) i = makeUsage page 0
      rw [ite_self, nthUsage_rangeUsages (BitVec.le_refl _),
        Nat.min_eq_right (Nat.le_add_right _ _), BitVec.ofNat_toNat, BitVec.setWidth_eq]
    · rw [List.take_of_length_le hcap]
  | range hlo hhi hle =>
    rw [keptUsages_of_range rfl rfl rfl hlo hhi hle, declaredUsages_range]
  | reversed hlo hhi hle =>
    rw [keptUsages_of_range rfl rfl rfl hlo hhi hle, declaredUsages_reversed]

theorem short_of_mem_some {it : Item} (h : it.data.length < 4) :
    ∀ it' ∈ some it, it'.data.length < 4 := by
  intro it' hmem
  cases hmem
  exact h

/-- A range in declaration order is on the current page. -/
theorem shortBounds_of_inOrder (h : InOrder i ds) : ShortBounds ds := by
  intro hnone
  cases h with
  | leading us rest hi hcap =>
    rw [explicitUsages_map_append, List.append_eq_nil_iff] at hnone
    rw [hnone.1] at hi
    exact absurd hi (Nat.not_lt_zero i)
  | usages us hcap =>
    cases us with
    | nil => exact ⟨nofun, nofun⟩
    | cons u us => cases hnone
  | range hlo hhi hle => exact ⟨short_of_mem_some hlo, short_of_mem_some hhi⟩
  | reversed hlo hhi hle => exact ⟨short_of_mem_some hlo, short_of_mem_some hhi⟩

end InOrder

/-! ### Recorded slots -/

/-- The bits of slot `i` end within the offsets of a layout. -/
def SlotFits (w : Walk) (i : ℕ) : Prop :=
  slotOffset w w.bitCursor i + w.g.reportSize.setWidth 32 ≤ bitOffsetMax

instance (w : Walk) (i : ℕ) : Decidable (SlotFits w i) := by
  unfold SlotFits
  exact inferInstance

/-- The extended usage is that of the axis. -/
def PointerSel.Names (s : PointerSel) (u : U32) : Prop := s.usage = some (usagePage u, usageId u)

instance (s : PointerSel) (u : U32) : Decidable (s.Names u) := by
  unfold PointerSel.Names
  exact inferInstance

/-- Where slot `j` has the usage `u j`, slot `i` is the first with the usage of the axis whose
bits end within the offsets of a layout. -/
def FirstNamed (w : Walk) (u : ℕ → U32) (s : PointerSel) (i : ℕ) : Prop :=
  (i < w.g.reportCount.toNat ∧ SlotFits w i ∧ s.Names (u i)) ∧
    ∀ j < i, SlotFits w j → ¬ s.Names (u j)

instance (w : Walk) (u : ℕ → U32) (s : PointerSel) (i : ℕ) : Decidable (FirstNamed w u s i) := by
  unfold FirstNamed
  exact inferInstance

/-- Only the usages of the slots count. -/
theorem firstNamed_congr {w : Walk} {u u' : ℕ → U32} {s : PointerSel}
    (h : ∀ j < w.g.reportCount.toNat, u j = u' j) (i : ℕ) :
    FirstNamed w u s i ↔ FirstNamed w u' s i := by
  unfold FirstNamed
  by_cases hi : i < w.g.reportCount.toNat
  · have hbefore : (∀ j < i, SlotFits w j → ¬ s.Names (u j)) ↔
        ∀ j < i, SlotFits w j → ¬ s.Names (u' j) :=
      forall_congr' fun j => forall_congr' fun hj => by rw [h j (hj.trans hi)]
    rw [h i hi, hbefore]
  · exact iff_of_false (fun hc => hi hc.1.1) fun hc => hi hc.1.1

/-- **An axis is recorded from the first slot of an item that can record it.** -/
theorem recordsSlot_iff {p : Parser} {s : PointerSel} (hs : s ≠ .buttons) (i : ℕ) :
    RecordsSlot p s i ↔
      (p.g.usagePage ≠ pageButton ∧ ¬ (p.out.get s).Present ∧ p.g.reportSize ≠ 0) ∧
        FirstNamed p.toWalk (usageForSlot p.toWalk) s i := by
  unfold RecordsSlot
  split
  · next hpage => exact iff_of_false (fun hc => hs hc.1) fun hc => hc.1.1 hpage
  · next hpage =>
    by_cases hpres : (p.out.get s).Present
    · -- a present field is present behind any slots
      have hkept (n : ℕ) :
          ((assignSlots p.toWalk p.bitCursor n (lockReport p.toWalk p.out)).get s).Present := by
        rw [assignSlots_get_of_present (Nat.zero_le n)]
        · rwa [assignSlots_zero, lockReport_get]
        · rwa [assignSlots_zero, lockReport_get]
      exact iff_of_false (fun hc => hc.2.1 (hkept i)) fun hc => hc.1.2.1 hpres
    · have habs := hpres
      rw [← lockReport_get p.toWalk] at habs
      rw [assignSlots_present_iff habs, assignSlots_present_iff habs]
      constructor
      · intro h
        obtain ⟨hi, hbefore, hsize, j, hj, hu, hfit⟩ := h
        have hfirst (j : ℕ) (hj : j < i) (hfit : SlotFits p.toWalk j) :
            ¬ s.Names (usageForSlot p.toWalk j) :=
          fun hu => hbefore ⟨hsize, j, hj, hu, hfit⟩
        -- the slot that records is none of those in front
        obtain rfl : j = i := by
          by_contra hne
          exact hfirst j (by omega) hfit hu
        exact ⟨⟨hpage, hpres, hsize⟩, ⟨hi, hfit, hu⟩, hfirst⟩
      · intro h
        obtain ⟨⟨-, -, hsize⟩, ⟨hi, hfit, hu⟩, hfirst⟩ := h
        refine ⟨hi, ?_, hsize, i, Nat.lt_succ_self i, hu, hfit⟩
        intro hbefore
        obtain ⟨-, j, hj, huj, hfitj⟩ := hbefore
        exact hfirst j hj hfitj huj

/-- **The usages of the slots.**  A slot has its entry of what was kept of the declarations:
the first 16 Usages where there is one, the last range otherwise.  That is its entry of the
declared sequence where the slot is in declaration order.  An axis is recorded from the first
slot that has its usage among what was kept and whose bits end within the offsets of a
layout. -/
theorem slotUsages_declared (its : List Item) :
    let w := walkItems its
    let page := w.g.usagePage
    let ds := declarations its
    (∀ i < w.g.reportCount.toNat,
      (ShortBounds ds → usageForSlot w i = nthUsage page (keptUsages page ds) i) ∧
      (InOrder i ds → usageForSlot w i = nthUsage page (declaredUsages page ds) i)) ∧
    (ShortBounds ds → ∀ s, s ≠ .buttons → ∀ i, RecordsSlot (runItems its) s i ↔
      (page ≠ pageButton ∧ ¬ ((runItems its).out.get s).Present ∧ w.g.reportSize ≠ 0) ∧
        FirstNamed w (nthUsage page (keptUsages page ds)) s i) := by
  intro w page ds
  refine ⟨?_, ?_⟩
  · intro i hi
    refine ⟨usageForSlot_eq_nthUsage its hi, ?_⟩
    intro horder
    rw [usageForSlot_eq_nthUsage its hi (shortBounds_of_inOrder horder)]
    exact nthUsage_keptUsages_of_inOrder horder
  · intro hshort s hs i
    rw [recordsSlot_iff hs]
    exact and_congr_right fun _ =>
      firstNamed_congr (fun j hj => usageForSlot_eq_nthUsage its hj hshort) i

/-- A mouse with X and Y. -/
def axesMap : List U8 :=
  [0x05, 0x01, 0x09, 0x02, 0xa1, 0x01, 0x09, 0x30, 0x09, 0x31, 0x75, 0x08, 0x95, 0x02, 0x81, 0x06,
   0xc0]

/-- Slot 1 has the second Usage, and Y is recorded from it. -/
theorem axesMap_declared :
    usageForSlot (walkItems ((reportItems axesMap).take 7)) 1 =
        nthUsage 1 [0x00010030, 0x00010031] 1 ∧
      RecordsSlot (runItems ((reportItems axesMap).take 7)) .y 1 := by
  have hdecl : declarations ((reportItems axesMap).take 7) =
      [0x00010030, 0x00010031].map .usage := by decide +kernel
  obtain ⟨hslot, haxis⟩ := slotUsages_declared ((reportItems axesMap).take 7)
  exact ⟨(hslot 1 (by decide +kernel)).2 (hdecl ▸ .usages _ (by decide)),
    (haxis (by decide +kernel) .y (by decide) 1).mpr (by decide +kernel)⟩

/-- The range X to Y, and Wheel. -/
def mixedMap : List U8 :=
  [0x05, 0x01, 0x09, 0x02, 0xa1, 0x01, 0x19, 0x30, 0x29, 0x31, 0x09, 0x38, 0x75, 0x08, 0x95, 0x03,
   0x81, 0x06, 0xc0]

/-- The three slots are all Wheel. -/
theorem mixedMap_wheel :
    ¬ ∀ (m : List U8) (k i : ℕ) (it : Item), (reportItems m)[k]? = some it → it.isInput →
      it.isVariable → i < (before (reportItems m) k).g.reportCount.toNat →
      usageForSlot (before (reportItems m) k).toWalk i =
        nthUsage (before (reportItems m) k).g.usagePage
          (declaredUsages (before (reportItems m) k).g.usagePage
            (declarations ((reportItems m).take k))) i := by
  intro hall
  have hslot := hall mixedMap 8 0 ⟨0, 8, 1, [0x06], rfl⟩ (by decide +kernel) (by decide)
    (by decide) (by decide +kernel)
  exact absurd hslot (by decide +kernel)

end BleHidHost
