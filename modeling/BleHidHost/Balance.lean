import BleHidHost.Extension

/-!
# Balanced descriptors

The parser accepts a map whose depth is zero in the end, but it does not let the depth
fall below zero on the way: an End Collection that closes nothing is passed over.  So the
depth never falls short of the collections still open, and what it exceeds them by is the
number of such items.

## Main definitions

* `collections`, `endCollections` — the brackets of a list of items.
* `ProperlyNested` — every End Collection closes a Collection, and every Collection is
  closed.

## Main results

* `properlyNested_iff` — **an accepted map is properly nested exactly when it has no more
  End Collection than Collection items.**
-/

namespace BleHidHost

/-- A Collection item. -/
def Item.isCollection (it : Item) : Bool :=
  match it.nesting with
  | .opens _ => true
  | _ => false

/-- An End Collection item. -/
def Item.isEndCollection (it : Item) : Bool := it.nesting == .closes

/-- The number of Collection items. -/
def collections (its : List Item) : ℕ := its.countP Item.isCollection

/-- The number of End Collection items. -/
def endCollections (its : List Item) : ℕ := its.countP Item.isEndCollection

/-- No prefix has more End Collection than Collection items, and the totals are equal. -/
def ProperlyNested (its : List Item) : Prop :=
  (∀ pre, pre <+: its → endCollections pre ≤ collections pre) ∧
    endCollections its = collections its

/-- By how much the depth exceeds the collections that are open. -/
def surplus (its : List Item) : ℤ :=
  (walkItems its).depth + endCollections its - collections its

/-- **One item never lowers the surplus**: an End Collection at depth zero raises it. -/
theorem surplus_le_concat (its : List Item) (it : Item) :
    surplus its ≤ surplus (its ++ [it]) := by
  unfold surplus collections endCollections
  rw [walkItems_concat, walkItem_depth, List.countP_append, List.countP_append,
    List.countP_singleton, List.countP_singleton, Item.isCollection, Item.isEndCollection]
  cases it.nesting with
  | opens type =>
    have hends : (Nesting.opens type == .closes) = false := rfl
    simp only [depthAfter, hends, if_true, Bool.false_eq_true, if_false]
    omega
  | closes =>
    simp only [depthAfter, beq_self_eq_true, if_true, Bool.false_eq_true, if_false]
    split <;> omega
  | flat =>
    have hends : (Nesting.flat == .closes) = false := rfl
    simp only [depthAfter, hends, Bool.false_eq_true, if_false, Nat.add_zero]
    exact le_rfl

/-- **The surplus never falls** along a list of items. -/
theorem surplus_take_le {pre its : List Item} (h : pre <+: its) :
    surplus pre ≤ surplus its := by
  obtain ⟨more, rfl⟩ := h
  induction more using List.reverseRecOn with
  | nil => rw [List.append_nil]
  | append_singleton more it ih =>
    rw [← List.append_assoc]
    exact le_trans ih (surplus_le_concat _ it)

/-- What is accepted ends at depth zero. -/
theorem Accepted.depth_eq_zero {a : App} {m : List U8} (h : Accepted a m) :
    (walkItems (reportItems m)).depth = 0 := by
  cases a with
  | mouse => exact ((zmkHidParseReportMap_fst_eq_zero m).mp h).2.2
  | keyboard => exact ((zmkHidParseKeyboardReportMap_fst_eq_zero m).mp h).2

/-- **An accepted map is properly nested exactly when it has no more End Collection than
Collection items.** -/
theorem properlyNested_iff {a : App} {m : List U8} (hacc : Accepted a m) :
    ProperlyNested (reportItems m) ↔
      endCollections (reportItems m) ≤ collections (reportItems m) := by
  constructor
  · rintro ⟨-, htotal⟩
    exact htotal.le
  · intro hle
    have hdepth := hacc.depth_eq_zero
    -- no End Collection was passed over, so the depth was exact all along
    have hpre (pre : List Item) (hp : pre <+: reportItems m) : surplus pre ≤ 0 := by
      apply le_trans (surplus_take_le hp)
      unfold surplus
      omega
    have hnonneg (its : List Item) : 0 ≤ surplus its := surplus_take_le List.nil_prefix
    constructor
    · intro pre hp
      have hsur := hpre pre hp
      have hd := (nested_walkItems pre).depth_nonneg
      unfold surplus at hsur
      omega
    · have hall := hnonneg (reportItems m)
      unfold surplus at hall
      omega

/-- A mouse behind an End Collection that closes nothing. -/
def strayEndMap : List U8 :=
  [0xc0, 0x05, 0x01, 0x09, 0x02, 0xa1, 0x01, 0x09, 0x30, 0x09, 0x31, 0x75, 0x08, 0x95, 0x02,
   0x81, 0x06, 0xc0]

/-- The map is accepted all the same. -/
theorem strayEndMap_accepted :
    Accepted .mouse strayEndMap ∧ ¬ ProperlyNested (reportItems strayEndMap) := by
  constructor
  · show (zmkHidParseReportMap strayEndMap).1 = 0
    decide +kernel
  · rintro ⟨-, htotal⟩
    exact absurd htotal (by decide +kernel)

/-- Without its first byte the map is properly nested. -/
theorem strayEndMap_tail_properlyNested : ProperlyNested (reportItems strayEndMap.tail) := by
  have hacc : Accepted .mouse strayEndMap.tail := by
    show (zmkHidParseReportMap strayEndMap.tail).1 = 0
    decide +kernel
  exact (properlyNested_iff hacc).mpr (by decide +kernel)

end BleHidHost
