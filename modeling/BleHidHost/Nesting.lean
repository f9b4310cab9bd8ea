import BleHidHost.Recording

/-!
# Item streams and their nesting

What is known of a stream that is cut short or continued, and how the collections in it
move the depth of the walk and the levels of the two applications.  A level is the depth
an application was opened at, so while one is open the walk is deeper than its level, and
an application that was closed is never entered again.

## Main definitions

* `Complete` — a byte string that ends behind an item.
* `Item.nesting`, `Balanced` — what an item does to the nesting; a list that closes what
  it opens.
* `App`, `Walk.level` — the two applications, and their levels.
* `Nested` — an open application is deeper than its level.

## Main results

* `reportItems_prefix_append` — a stream that is continued begins with the same items.
* `walkItem_depth`, `walkItem_level` — what an item does to depth and levels.
* `nested_walkItems` — **an open application forces the walk to be deeper than its level.**
-/

namespace BleHidHost

open Lib

/-! ### Streams that are continued -/

/-- The byte string consists of whole items. -/
inductive Complete : List U8 → Prop
  | nil : Complete []
  | short (it : Item) (rest : List U8) :
    it.head ≠ itemLong → Complete rest → Complete (it.encode ++ rest)
  | long (tag : U8) (data rest : List U8) : data.length < 256 → Complete rest →
    Complete (itemLong :: BitVec.ofNat 8 data.length :: tag :: (data ++ rest))

/-- Encoded items are complete. -/
theorem complete_flatMap_encode {its : List Item} (h : ∀ it ∈ its, it.head ≠ itemLong) :
    Complete (its.flatMap Item.encode) := by
  induction its with
  | nil => exact .nil
  | cons it its ih =>
    rw [List.flatMap_cons]
    have htail : ∀ it' ∈ its, it'.head ≠ itemLong := by
      intro it' hit
      exact h it' (List.mem_cons_of_mem _ hit)
    exact .short it _ (h it List.mem_cons_self) (ih htail)

/-- A map that is the encoding of its items is complete. -/
theorem complete_of_encode {m : List U8} (henc : (reportItems m).flatMap Item.encode = m)
    (h : ∀ it ∈ reportItems m, it.head ≠ itemLong) : Complete m := by
  rw [← henc]
  exact complete_flatMap_encode h

/-- A long item is passed over. -/
theorem reportItems_long (tag : U8) (data rest : List U8) (h : data.length < 256) :
    reportItems (itemLong :: BitVec.ofNat 8 data.length :: tag :: (data ++ rest)) =
      reportItems rest := by
  have hsize : (BitVec.ofNat 8 data.length).toNat = data.length := by
    rw [BitVec.toNat_ofNat, Nat.mod_eq_of_lt h]
  have hdrop : (BitVec.ofNat 8 data.length :: tag :: (data ++ rest)).drop
      (2 + (BitVec.ofNat 8 data.length).toNat) = rest := by
    rw [hsize, Nat.add_comm, List.drop_succ_cons, List.drop_succ_cons, List.drop_left]
  rw [reportItems_eq]
  simp only [nextItem, if_pos, hdrop]

/-- **A complete stream is continued behind its last item.** -/
theorem reportItems_append {a : List U8} (h : Complete a) (b : List U8) :
    reportItems (a ++ b) = reportItems a ++ reportItems b := by
  induction h with
  | nil => rfl
  | short it rest hne _ ih =>
    rw [List.append_assoc, reportItems_encode_append it _ hne, reportItems_encode_append it _ hne,
      ih, List.cons_append]
  | long tag data rest hlen _ ih =>
    have hassoc : (itemLong :: BitVec.ofNat 8 data.length :: tag :: (data ++ rest)) ++ b =
        itemLong :: BitVec.ofNat 8 data.length :: tag :: (data ++ (rest ++ b)) := by simp
    rw [hassoc, reportItems_long tag data _ hlen, reportItems_long tag data _ hlen, ih]

theorem Complete.append {a b : List U8} (ha : Complete a) (hb : Complete b) :
    Complete (a ++ b) := by
  induction ha with
  | nil => exact hb
  | short it rest hne _ ih =>
    rw [List.append_assoc]
    exact .short it _ hne ih
  | long tag data rest hlen _ ih =>
    have hassoc : (itemLong :: BitVec.ofNat 8 data.length :: tag :: (data ++ rest)) ++ b =
        itemLong :: BitVec.ofNat 8 data.length :: tag :: (data ++ (rest ++ b)) := by simp
    rw [hassoc]
    exact .long tag data _ hlen ih

/-- An item at the front is there in every continuation. -/
theorem nextItem_append_item {a rest : List U8} {it : Item} (h : nextItem a = .item it rest)
    (b : List U8) : nextItem (a ++ b) = .item it (rest ++ b) := by
  cases a with
  | nil => simp [nextItem] at h
  | cons x bs =>
    simp only [nextItem, List.cons_append] at h ⊢
    split at h
    · cases bs <;> simp at h
    · next hx =>
      split at h
      · next hlen =>
        rcases Next.item.inj h with ⟨rfl, rfl⟩
        rw [if_neg hx, dif_pos (by rw [List.length_append]; omega)]
        simp only [List.take_append_of_le_length hlen, List.drop_append_of_le_length hlen]
      · simp at h

/-- A long item at the front is too; if it is cut off, nothing was left behind it. -/
theorem nextItem_append_skip {a rest : List U8} (h : nextItem a = .skip rest) (b : List U8) :
    nextItem (a ++ b) = .skip (rest ++ b) ∨ rest = [] := by
  cases a with
  | nil => simp [nextItem] at h
  | cons x bs =>
    simp only [nextItem, List.cons_append] at h ⊢
    split at h
    · next hx =>
      cases bs with
      | nil => simp at h
      | cons d bs =>
        obtain rfl := Next.skip.inj h
        by_cases hlen : 2 + d.toNat ≤ (d :: bs).length
        · left
          rw [if_pos hx]
          simp only [List.cons_append]
          rw [← List.cons_append, List.drop_append_of_le_length hlen]
        · exact Or.inr (List.drop_eq_nil_of_le (by omega))
    · split at h <;> simp at h

/-- **A stream that is continued begins with the same items**, even where it is cut off
within one. -/
theorem reportItems_prefix_append (a b : List U8) : reportItems a <+: reportItems (a ++ b) := by
  induction hn : a.length using Nat.strong_induction_on generalizing a with
  | _ n ih =>
    rw [reportItems_eq a, reportItems_eq (a ++ b)]
    cases hnext : nextItem a with
    | stop => exact List.nil_prefix
    | skip rest =>
      have hlt := nextItem_skip_length hnext
      rcases nextItem_append_skip hnext b with happ | rfl
      · rw [happ]
        exact ih rest.length (by omega) rest rfl
      · exact List.nil_prefix
    | item it rest =>
      have hlt := nextItem_item_length hnext
      rw [nextItem_append_item hnext b]
      exact List.cons_prefix_cons.mpr ⟨rfl, ih rest.length (by omega) rest rfl⟩

/-! ### Nesting -/

/-- What an item does to the nesting of collections. -/
inductive Nesting where
  /-- A collection of this type is opened. -/
  | opens (type : U32)
  | closes
  | flat
  deriving DecidableEq, Repr

/-- The nesting of an item. -/
def Item.nesting (it : Item) : Nesting :=
  match itemType it.type with
  | .main =>
    match mainTag it.tag with
    | .collection => .opens (itemU it.data)
    | .endCollection => .closes
    | _ => .flat
  | _ => .flat

/-- The depth behind an item, `none` where it closes a collection that is not open. -/
def Nesting.step : Nesting → ℕ → Option ℕ
  | .opens _, d => some (d + 1)
  | .closes, 0 => none
  | .closes, d + 1 => some d
  | .flat, d => some d

/-- The depth behind a list of items. -/
def endDepth : List Item → ℕ → Option ℕ
  | [], d => some d
  | it :: its, d => (it.nesting.step d).bind (endDepth its)

/-- The list closes the collections it opens, and no others. -/
def Balanced (its : List Item) : Prop := endDepth its 0 = some 0

instance (its : List Item) : Decidable (Balanced its) := inferInstanceAs (Decidable (_ = _))

theorem endDepth_append (its more : List Item) (d : ℕ) :
    endDepth (its ++ more) d = (endDepth its d).bind (endDepth more) := by
  induction its generalizing d with
  | nil => rfl
  | cons it its ih =>
    rw [List.cons_append, endDepth, endDepth, Option.bind_assoc]
    exact congrArg _ (funext ih)

theorem Balanced.append {its more : List Item} (h : Balanced its) (h' : Balanced more) :
    Balanced (its ++ more) := by
  unfold Balanced at *
  rw [endDepth_append, h, Option.bind_some, h']

/-- The depth of the walk behind an item. -/
def depthAfter (d : ℤ) : Nesting → ℤ
  | .opens _ => d + 1
  | .closes => if 0 < d then d - 1 else d
  | .flat => d

/-- **What an item does to the depth.** -/
theorem walkItem_depth (w : Walk) (it : Item) :
    (walkItem w it).depth = depthAfter w.depth it.nesting := by
  unfold walkItem handleItem dispatch Item.nesting
  cases itemType it.type with
  | main => cases mainTag it.tag <;> rfl
  | global => cases globalTag it.tag <;> rfl
  | «local» => cases localTag it.tag <;> rfl
  | reserved => rfl

/-- The walk counts the depth of a list that closes no collection it has not opened. -/
theorem foldl_walkItem_depth {its : List Item} {d e : ℕ} (h : endDepth its d = some e) {w : Walk}
    (hw : w.depth = d) : (its.foldl walkItem w).depth = e := by
  induction its generalizing d w with
  | nil =>
    cases h
    exact hw
  | cons it its ih =>
    rcases Option.bind_eq_some_iff.mp h with ⟨d', hd', hrest⟩
    refine ih hrest ?_
    rw [walkItem_depth, hw]
    cases hn : it.nesting with
    | opens type =>
      rw [hn] at hd'
      cases hd'
      rfl
    | closes =>
      rw [hn] at hd'
      cases d with
      | zero => cases hd'
      | succ d =>
        cases hd'
        simp only [depthAfter]
        omega
    | flat =>
      rw [hn] at hd'
      cases hd'
      rfl

/-! ### The two applications -/

/-- The application collections that the parser looks for. -/
inductive App where
  | mouse
  | keyboard
  deriving DecidableEq, Repr, Inhabited

/-- The usage that names an application on the Generic Desktop page. -/
def App.usage : App → U16
  | .mouse => usageGdMouse
  | .keyboard => usageGdKeyboard

/-- `mouse_level` and `kbd_level`. -/
def Walk.level (w : Walk) : App → ℤ
  | .mouse => w.mouseLevel
  | .keyboard => w.kbdLevel

/-- The item opens an application of this kind. -/
def Opens (w : Walk) (a : App) (type : U32) : Prop :=
  type = hidCollectionApplication ∧ opensAs w a.usage

instance (w : Walk) (a : App) (type : U32) : Decidable (Opens w a type) :=
  inferInstanceAs (Decidable (_ ∧ _))

/-- The level of an application behind an item. -/
def levelAfter (w : Walk) (a : App) : Nesting → ℤ
  | .opens type => if Opens w a type ∧ w.level a = -1 then w.depth else w.level a
  | .closes => closeLevel (w.level a) (depthAfter w.depth .closes)
  | .flat => w.level a

/-- **What an item does to the level of an application.** -/
theorem walkItem_level (w : Walk) (it : Item) (a : App) :
    (walkItem w it).level a = levelAfter w a it.nesting := by
  unfold walkItem handleItem dispatch Item.nesting
  cases itemType it.type with
  | main =>
    cases mainTag it.tag with
    | collection =>
      cases a <;> simp only [levelAfter, Opens, and_assoc] <;> rfl
    | _ => cases a <;> rfl
  | global => cases globalTag it.tag <;> cases a <;> rfl
  | «local» => cases localTag it.tag <;> cases a <;> rfl
  | reserved => cases a <;> rfl

/-- **An application that was closed stays closed.** -/
theorem level_closed_walkItem {w : Walk} {a : App} (h : w.level a = -2) (it : Item) :
    (walkItem w it).level a = -2 := by
  rw [walkItem_level]
  cases it.nesting with
  | opens type => rw [levelAfter, if_neg fun hc => by omega, h]
  | closes => rw [levelAfter, closeLevel, if_neg fun hc => by omega, h]
  | flat => exact h

/-- An application that is unopened behind an item was unopened in front of it. -/
theorem level_of_unopened_walkItem {a : App} {w : Walk} {it : Item}
    (h : (walkItem w it).level a = -1) : w.level a = -1 := by
  rw [walkItem_level] at h
  cases hn : it.nesting with
  | opens type =>
    rw [hn, levelAfter] at h
    split at h
    · next hc => exact hc.2
    · exact h
  | closes =>
    rw [hn, levelAfter, closeLevel] at h
    split at h
    · omega
    · exact h
  | flat =>
    rw [hn] at h
    exact h

theorem level_of_unopened_foldl {a : App} {w : Walk} {its : List Item}
    (h : (its.foldl walkItem w).level a = -1) : w.level a = -1 := by
  induction its generalizing w with
  | nil => exact h
  | cons it its ih => exact level_of_unopened_walkItem (ih h)

/-- The depth is never negative. -/
theorem depth_nonneg_walkItem {w : Walk} (h : 0 ≤ w.depth) (it : Item) :
    0 ≤ (walkItem w it).depth := by
  rw [walkItem_depth]
  cases it.nesting with
  | opens type =>
    simp only [depthAfter]
    omega
  | closes =>
    simp only [depthAfter]
    split <;> omega
  | flat => exact h

/-- The walk is nested: an application has not been opened, or it was closed, or it is
open and the walk is deeper than its level. -/
structure Nested (w : Walk) : Prop where
  depth_nonneg : 0 ≤ w.depth
  level (a : App) : w.level a = -1 ∨ w.level a = -2 ∨ 0 ≤ w.level a ∧ w.level a < w.depth

theorem Nested.walkItem {w : Walk} (h : Nested w) (it : Item) : Nested (walkItem w it) := by
  have hdepth := h.depth_nonneg
  constructor
  · exact depth_nonneg_walkItem hdepth it
  · intro a
    have hlevel := h.level a
    rw [walkItem_level, walkItem_depth]
    cases it.nesting with
    | opens type =>
      -- an application that is opened here lies one below the new depth
      simp only [levelAfter, depthAfter]
      split <;> omega
    | closes =>
      simp only [levelAfter, closeLevel, depthAfter]
      split <;> split <;> omega
    | flat => exact hlevel

/-- **An open application forces the walk to be deeper than its level.** -/
theorem nested_walkItems (its : List Item) : Nested (walkItems its) := by
  induction its using List.reverseRecOn with
  | nil => exact ⟨le_rfl, fun a => by cases a <;> exact Or.inl rfl⟩
  | append_singleton its it ih =>
    rw [walkItems_concat]
    exact ih.walkItem it

end BleHidHost
