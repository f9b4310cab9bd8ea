import BleHidHost.Lib.Recorder
import BleHidHost.Recording
import Mathlib.Data.BitVec

/-!
# Whether a layout describes a single report

A layout carries one Report ID, and its offsets are meant to lie in the payload
of that report.  The Report ID is locked by a condition of its own, though, that
looks neither at the fields an item records nor at the items behind it.  Seen
from the layouts, the walk over a map is a list of Input items, each with the
state it is met in, and both layouts are recorders over such lists.

## Main definitions

* `pointerInputs`, `kbdInputs` — the Input items that reach the two recorders.
* `pointerRecorder`, `kbdRecorder` — the recorders.
* `Coherent`, `KbdCoherent` — every present field was recorded under the layout's
  Report ID.

## Main results

* `runItems_out_eq_run`, `runItems_outKbd_eq_run` — a layout is its recorder's
  output.
* `coherent_iff` — **a layout is coherent exactly when each field's first
  declaration carries the one-byte Report ID the layout is locked to.**
-/

namespace BleHidHost

open Lib

/-! ### Recording does not depend on other fields -/

/-- The Input item met in state `w` declares field `s`: recorded into a cleared
layout, the field is present. -/
def declaresField (w : Walk) (s : PointerSel) : Bool :=
  ((assignInput w w.bitCursor .zero).get s).Present

/-- The same for a keyboard field and an item with these flags. -/
def declaresKbdField (w : Walk × U32) (s : KbdSel) : Bool :=
  ((assignKbdInput w.1 w.1.bitCursor w.2 .zero).get s).Present

@[simp] theorem ReportLayout.not_present_zero (s : PointerSel) :
    ¬ (ReportLayout.zero.get s).Present := by
  cases s <;> exact Field.not_present_zero

@[simp] theorem KeyboardLayout.not_present_zero (s : KbdSel) :
    ¬ (KeyboardLayout.zero.get s).Present := by
  cases s <;> exact Field.not_present_zero

/-- Whether an item records an absent field does not depend on the other fields. -/
theorem assignInput_present_iff {w : Walk} {b : U32} {o o' : ReportLayout} {s : PointerSel}
    (h : ¬ (o.get s).Present) (h' : ¬ (o'.get s).Present) :
    ((assignInput w b o).get s).Present ↔ ((assignInput w b o').get s).Present := by
  rw [← lockReport_get w o] at h
  rw [← lockReport_get w o'] at h'
  unfold assignInput
  split
  · by_cases hs : s = .buttons
    · subst hs
      have h0 : (lockReport w o).buttons.bitSize = 0 := not_not.mp h
      have h0' : (lockReport w o').buttons.bitSize = 0 := not_not.mp h'
      unfold assignButtons
      rw [h0, h0']
      split
      · rfl
      · exact iff_of_false h h'
    · -- a Button-page item leaves the other fields absent
      rw [assignButtons_get_of_ne _ _ _ hs, assignButtons_get_of_ne _ _ _ hs]
      exact iff_of_false h h'
  · rw [assignSlots_present_iff h, assignSlots_present_iff h']

/-- Whether an item records an absent keyboard field does not depend on the
other one. -/
theorem assignKbdInput_present_iff {w : Walk} {b f : U32} {o o' : KeyboardLayout} {s : KbdSel}
    (h : ¬ (o.get s).Present) (h' : ¬ (o'.get s).Present) :
    ((assignKbdInput w b f o).get s).Present ↔ ((assignKbdInput w b f o').get s).Present := by
  rw [← lockKbdReport_get w o] at h
  rw [← lockKbdReport_get w o'] at h'
  have h0 := not_not.mp h
  have h0' := not_not.mp h'
  unfold assignKbdInput
  cases s with
  | modifiers =>
    change (lockKbdReport w o).modifiers.bitSize = 0 at h0
    change (lockKbdReport w o').modifiers.bitSize = 0 at h0'
    split
    · unfold assignModifiers
      rw [h0, h0']
      split
      · rfl
      · exact iff_of_false h h'
    · -- an Array item leaves the modifiers absent
      unfold assignKeys
      split <;> split <;> exact iff_of_false h h'
  | keys =>
    change (lockKbdReport w o).keys.bitSize = 0 at h0
    change (lockKbdReport w o').keys.bitSize = 0 at h0'
    split
    · -- a Variable item leaves the keys absent
      unfold assignModifiers
      split <;> split <;> exact iff_of_false h h'
    · unfold assignKeys
      rw [h0, h0']
      split
      · rfl
      · exact iff_of_false h h'

/-- **An item leaves a field present when it was, or when the item declares it.** -/
theorem assignInput_present (w : Walk) (o : ReportLayout) (s : PointerSel) :
    ((assignInput w w.bitCursor o).get s).Present ↔ (o.get s).Present ∨ declaresField w s := by
  rw [declaresField, decide_eq_true_iff]
  by_cases h : (o.get s).Present
  · rw [assignInput_get_of_present h]
    exact iff_of_true h (Or.inl h)
  · rw [assignInput_present_iff h (ReportLayout.not_present_zero s), or_iff_right h]

/-- The same for a keyboard field. -/
theorem assignKbdInput_present (w : Walk × U32) (o : KeyboardLayout) (s : KbdSel) :
    ((assignKbdInput w.1 w.1.bitCursor w.2 o).get s).Present ↔
      (o.get s).Present ∨ declaresKbdField w s := by
  rw [declaresKbdField, decide_eq_true_iff]
  by_cases h : (o.get s).Present
  · refine iff_of_true ?_ (Or.inl h)
    rcases assignKbdInput_get w.1 w.1.bitCursor w.2 o s with hk | ⟨-, habs, -⟩
    · rwa [hk]
    · exact absurd h habs
  · rw [assignKbdInput_present_iff h (KeyboardLayout.not_present_zero s), or_iff_right h]

/-! ### The two recorders -/

/-- A closing field of the pointer layout is present: the button run, X or Y. -/
def pointerClosed (o : ReportLayout) : Bool :=
  (o.get .buttons).Present || (o.get .x).Present || (o.get .y).Present

/-- A field of the keyboard layout is present. -/
def kbdClosed (o : KeyboardLayout) : Bool :=
  (o.get .modifiers).Present || (o.get .keys).Present

theorem assignInput_reportId (w : Walk) (b : U32) (o : ReportLayout) :
    (assignInput w b o).reportId =
      if o.reportId = 0 ∧ pointerClosed o = false then w.g.reportId else o.reportId := by
  -- only the lock at the head writes the Report ID
  have hlock : (assignInput w b o).reportId = (lockReport w o).reportId := by
    unfold assignInput
    split
    · exact assignButtons_reportId _ _ _
    · exact assignSlots_reportId _ _ _ _
  have hiff : (o.reportId = 0 ∧ pointerClosed o = false) ↔
      (o.reportId = 0 ∧ o.buttons.bitSize = 0 ∧ o.x.bitSize = 0 ∧ o.y.bitSize = 0) := by
    simp only [pointerClosed, Bool.or_eq_false_iff, decide_eq_false_iff_not]
    simp [Field.Present, ReportLayout.get, and_assoc]
  rw [hlock, lockReport]
  by_cases h : o.reportId = 0 ∧ pointerClosed o = false
  · rw [if_pos h, if_pos (hiff.mp h)]
  · rw [if_neg h, if_neg (mt hiff.mpr h)]

theorem assignKbdInput_reportId (w : Walk) (b f : U32) (o : KeyboardLayout) :
    (assignKbdInput w b f o).reportId =
      if o.reportId = 0 ∧ kbdClosed o = false then w.g.reportId else o.reportId := by
  have hlock : (assignKbdInput w b f o).reportId = (lockKbdReport w o).reportId := by
    unfold assignKbdInput assignModifiers assignKeys
    split <;> split <;> rfl
  have hiff : (o.reportId = 0 ∧ kbdClosed o = false) ↔
      (o.reportId = 0 ∧ o.modifiers.bitSize = 0 ∧ o.keys.bitSize = 0) := by
    simp only [kbdClosed, Bool.or_eq_false_iff, decide_eq_false_iff_not]
    simp [Field.Present, KeyboardLayout.get]
  rw [hlock, lockKbdReport]
  by_cases h : o.reportId = 0 ∧ kbdClosed o = false
  · rw [if_pos h, if_pos (hiff.mp h)]
  · rw [if_neg h, if_neg (mt hiff.mpr h)]

/-- The pointer layout as a recorder, its Report ID as the tag. -/
def pointerRecorder : Recorder Walk ReportLayout PointerSel U8 where
  record w o := assignInput w w.bitCursor o
  present o s := (o.get s).Present
  declares := declaresField
  closed := pointerClosed
  closes w := declaresField w .buttons || declaresField w .x || declaresField w .y
  tag w := w.g.reportId
  lock o := o.reportId
  present_record w o s := by
    rw [Bool.eq_iff_iff]
    simp [assignInput_present]
  closed_record w o := by
    rw [Bool.eq_iff_iff]
    simp only [pointerClosed, Bool.or_eq_true, decide_eq_true_iff, assignInput_present]
    tauto
  lock_record w o := assignInput_reportId w w.bitCursor o

/-- The keyboard layout as a recorder, of Input items with their flags. -/
def kbdRecorder : Recorder (Walk × U32) KeyboardLayout KbdSel U8 where
  record w o := assignKbdInput w.1 w.1.bitCursor w.2 o
  present o s := (o.get s).Present
  declares := declaresKbdField
  closed := kbdClosed
  closes w := declaresKbdField w .modifiers || declaresKbdField w .keys
  tag w := w.1.g.reportId
  lock o := o.reportId
  present_record w o s := by
    rw [Bool.eq_iff_iff]
    simp [assignKbdInput_present]
  closed_record w o := by
    rw [Bool.eq_iff_iff]
    simp only [kbdClosed, Bool.or_eq_true, decide_eq_true_iff, assignKbdInput_present]
    tauto
  lock_record w o := assignKbdInput_reportId w.1 w.1.bitCursor w.2 o

/-! ### The Input items of a map -/

section Inputs

variable {ω : Type} (f : Walk → Item → Option ω)

/-- What `f` selects along the walk over a list of items. -/
def selectFrom (w : Walk) : List Item → List ω
  | [] => []
  | it :: its => (f w it).toList ++ selectFrom (walkItem w it) its

/-- What `f` selects along the walk from the start of a map. -/
def select (its : List Item) : List ω := selectFrom f Parser.start.toWalk its

theorem selectFrom_append (w : Walk) (its more : List Item) :
    selectFrom f w (its ++ more) =
      selectFrom f w its ++ selectFrom f (its.foldl walkItem w) more := by
  induction its generalizing w with
  | nil => rfl
  | cons it its ih => simp [selectFrom, ih]

theorem walkItems_eq_foldl (its : List Item) :
    walkItems its = its.foldl walkItem Parser.start.toWalk := by
  induction its using List.reverseRecOn with
  | nil => rfl
  | append_singleton its it ih => rw [walkItems_concat, ih, List.foldl_append]; rfl

theorem select_concat (its : List Item) (it : Item) :
    select f (its ++ [it]) = select f its ++ (f (walkItems its) it).toList := by
  rw [select, selectFrom_append, ← walkItems_eq_foldl, select]
  simp [selectFrom]

/-- The selection splits at every item it takes. -/
theorem select_split {its : List Item} {k : ℕ} {it : Item} {a : ω} (hit : it ∈ its[k]?)
    (ha : f (before its k).toWalk it = some a) :
    ∃ post, select f its = select f (its.take k) ++ a :: post := by
  have hsplit : its = its.take k ++ [it] ++ its.drop (k + 1) := by
    rw [← take_succ_of_mem hit, List.take_append_drop]
  have hwalk : walkItems (its.take k) = (before its k).toWalk := rfl
  refine ⟨selectFrom f ((its.take k ++ [it]).foldl walkItem Parser.start.toWalk)
    (its.drop (k + 1)), ?_⟩
  conv_lhs => rw [hsplit]
  rw [select, selectFrom_append, ← select, select_concat, hwalk, ha]
  simp

end Inputs

/-- The Input item reaches `assign_input`. -/
def pointerInput? (w : Walk) (it : Item) : Option Walk :=
  if it.isInput ∧ isPointerInput w (itemU it.data) then some w else none

/-- The Input item reaches `assign_kbd_input`, with its flags. -/
def kbdInput? (w : Walk) (it : Item) : Option (Walk × U32) :=
  if it.isInput ∧ isKeyboardInput w (itemU it.data) then some (w, itemU it.data) else none

/-- The states in which the pointer collection's Input items are met. -/
def pointerInputs (its : List Item) : List Walk := select pointerInput? its

/-- The states in which the keyboard collection's Input items are met, and their
flags. -/
def kbdInputs (its : List Item) : List (Walk × U32) := select kbdInput? its

/-- **The pointer layout is the recorder's output.** -/
theorem runItems_out_eq_run (its : List Item) :
    (runItems its).out = pointerRecorder.run (pointerInputs its) .zero := by
  induction its using List.reverseRecOn with
  | nil => rfl
  | append_singleton its it ih =>
    rw [runItems_concat, handleItem_out, pointerInputs, select_concat, Recorder.run_append,
      ← pointerInputs, ← ih]
    have hwalk : (runItems its).toWalk = walkItems its := rfl
    simp only [pointerInput?, hwalk]
    split <;> rfl

/-- **The keyboard layout is the recorder's output.** -/
theorem runItems_outKbd_eq_run (its : List Item) :
    (runItems its).outKbd = kbdRecorder.run (kbdInputs its) .zero := by
  induction its using List.reverseRecOn with
  | nil => rfl
  | append_singleton its it ih =>
    rw [runItems_concat, handleItem_outKbd, kbdInputs, select_concat, Recorder.run_append,
      ← kbdInputs, ← ih]
    have hwalk : (runItems its).toWalk = walkItems its := rfl
    simp only [kbdInput?, hwalk]
    split <;> rfl

/-! ### The item a field comes from -/

/-- **A pointer field was recorded from the first Input item to declare it.** -/
theorem find?_declaresField_of_recordedAt {its : List Item} {s : PointerSel} {k i : ℕ}
    (h : RecordedAt its s k i) :
    (pointerInputs its).find? (declaresField · s) = some (before its k).toWalk := by
  obtain ⟨it, hit, hin, hptr, hrec⟩ := h
  obtain ⟨post, hsplit⟩ := select_split (f := pointerInput?) hit (if_pos ⟨hin, hptr⟩)
  have hout : pointerRecorder.run (pointerInputs (its.take k)) .zero = (before its k).out :=
    (runItems_out_eq_run _).symm
  -- the field is absent before item `k` and present behind it
  apply pointerRecorder.find?_declares_of_split (o := .zero) hsplit
  · exact decide_eq_false (hout ▸ hrec.not_present)
  · apply decide_eq_true
    change
      ((assignInput _ _ (pointerRecorder.run (pointerInputs (its.take k)) .zero)).get s).Present
    rw [hout]
    exact hrec.present

/-- The first Input item to declare a pointer field records it. -/
theorem exists_recordedAt_of_find? {its : List Item} {s : PointerSel} {w : Walk}
    (h : (pointerInputs its).find? (declaresField · s) = some w) :
    ∃ k i, RecordedAt its s k i ∧ (before its k).toWalk = w := by
  have hpres : pointerRecorder.present (runItems its).out s = true := by
    rw [runItems_out_eq_run, Recorder.present_run, Bool.or_eq_true, List.any_eq_true]
    exact Or.inr ⟨w, List.mem_of_find?_eq_some h, List.find?_some (p := (declaresField · s)) h⟩
  obtain ⟨k, i, hk⟩ := exists_recordedAt (of_decide_eq_true hpres)
  exact ⟨k, i, hk, Option.some.inj ((find?_declaresField_of_recordedAt hk).symm.trans h)⟩

/-- **A keyboard field was recorded from the first Input item to declare it.** -/
theorem find?_declaresKbdField_of_recordedAt {its : List Item} {s : KbdSel} {k : ℕ}
    (h : KbdRecordedAt its s k) :
    ∃ flags, (kbdInputs its).find? (declaresKbdField · s) =
      some ((before its k).toWalk, flags) := by
  obtain ⟨it, hit, hin, hkbd, habs, hpres⟩ := h
  obtain ⟨post, hsplit⟩ := select_split (f := kbdInput?) hit (if_pos ⟨hin, hkbd⟩)
  have hout : kbdRecorder.run (kbdInputs (its.take k)) .zero = (before its k).outKbd :=
    (runItems_outKbd_eq_run _).symm
  refine ⟨itemU it.data, kbdRecorder.find?_declares_of_split (o := .zero) hsplit ?_ ?_⟩
  · exact decide_eq_false (hout ▸ habs)
  · apply decide_eq_true
    show ((assignKbdInput _ _ _ (kbdRecorder.run (kbdInputs (its.take k)) .zero)).get s).Present
    rw [hout]
    exact hpres

/-- The Report ID a pointer layout is locked to. -/
theorem runItems_out_reportId (its : List Item) :
    (runItems its).out.reportId = pointerRecorder.lockOf (pointerInputs its) := by
  rw [runItems_out_eq_run]
  exact pointerRecorder.lock_run _ _ rfl (by decide)

/-- The Report ID a keyboard layout is locked to. -/
theorem runItems_outKbd_reportId (its : List Item) :
    (runItems its).outKbd.reportId = kbdRecorder.lockOf (kbdInputs its) := by
  rw [runItems_outKbd_eq_run]
  exact kbdRecorder.lock_run _ _ rfl (by decide)

/-! ### Coherent layouts -/

/-- Every field present in the pointer layout, the buttons when there are any,
was recorded from an Input item under the layout's Report ID. -/
def Coherent (m : List U8) : Prop :=
  ∀ s, ((zmkHidParseReportMap m).2.get s).Present →
    (s = .buttons → (zmkHidParseReportMap m).2.buttonCount ≠ 0) →
    ∃ k i, RecordedAt (reportItems m) s k i ∧
      (before (reportItems m) k).g.reportId = (zmkHidParseReportMap m).2.reportId

/-- The same for the keyboard layout. -/
def KbdCoherent (m : List U8) : Prop :=
  ∀ s, ((zmkHidParseKeyboardReportMap m).2.get s).Present →
    ∃ k, KbdRecordedAt (reportItems m) s k ∧
      (before (reportItems m) k).g.reportId = (zmkHidParseKeyboardReportMap m).2.reportId

/-- The first Input item to declare a pointer field carries the Report ID of the
first one that has a nonzero Report ID or declares buttons, X or Y. -/
def DeclaresOneReport (its : List Item) : Prop :=
  ∀ s, ∀ w ∈ (pointerInputs its).find? (declaresField · s),
    (s = .buttons → w.g.reportCount ≠ 0) →
    w.g.reportId = pointerRecorder.lockOf (pointerInputs its)

/-- The first Input item to declare a keyboard field carries the Report ID of the
first one that has a nonzero Report ID or declares a field. -/
def DeclaresOneKbdReport (its : List Item) : Prop :=
  ∀ s, ∀ w ∈ (kbdInputs its).find? (declaresKbdField · s),
    w.1.g.reportId = kbdRecorder.lockOf (kbdInputs its)

/-- A capped button count is zero only when the declared one is. -/
theorem buttonRunCount_ne_zero (w : Walk) : buttonRunCount w ≠ 0 ↔ w.g.reportCount ≠ 0 := by
  unfold buttonRunCount
  split
  · next h =>
    apply iff_of_true (by decide)
    rintro h0
    rw [h0] at h
    exact absurd h (by decide)
  · rfl

/-- The pointer layout refers to one report when its fields' first declarations do. -/
theorem coherent_iff_declaresOneReport (m : List U8) :
    Coherent m ↔ DeclaresOneReport (reportItems m) := by
  have hget : ∀ s, (zmkHidParseReportMap m).2.get s = (runItems (reportItems m)).out.get s := by
    intro s
    rw [zmkHidParseReportMap_snd]
    cases s <;> rfl
  have hcount : (zmkHidParseReportMap m).2.buttonCount =
      (runItems (reportItems m)).out.buttonCount := by rw [zmkHidParseReportMap_snd]
  have hid : (zmkHidParseReportMap m).2.reportId =
      pointerRecorder.lockOf (pointerInputs (reportItems m)) := by
    rw [zmkHidParseReportMap_snd, ← runItems_out_reportId]
  constructor
  · -- the item of a first declaration records its field
    intro hco s w hw hn
    obtain ⟨k, i, hk, rfl⟩ := exists_recordedAt_of_find? hw
    have hpres : ((zmkHidParseReportMap m).2.get s).Present := by
      rw [hget, runItems_out_get_of_recordedAt_eq hk]
      exact hk.choose_spec.2.2.2.present
    obtain ⟨k', i', hk', hid'⟩ := hco s hpres (by
      rintro rfl
      rw [hcount, runItems_out_buttonCount_of_recordedAt hk, buttonRunCount_ne_zero]
      exact hn rfl)
    -- the field was recorded once only
    have hsame := Option.some.inj
      ((find?_declaresField_of_recordedAt hk').symm.trans (find?_declaresField_of_recordedAt hk))
    rw [← hid, ← hid', hsame]
  · -- a present field comes from its first declaration
    intro hone s hpres hn
    rw [hget] at hpres
    obtain ⟨k, i, hk⟩ := exists_recordedAt hpres
    refine ⟨k, i, hk, ?_⟩
    rw [hid]
    refine hone s _ (find?_declaresField_of_recordedAt hk) ?_
    rintro rfl
    rw [← buttonRunCount_ne_zero, ← runItems_out_buttonCount_of_recordedAt hk, ← hcount]
    exact hn rfl

/-- The keyboard layout refers to one report when its fields' first declarations do. -/
theorem kbdCoherent_iff_declaresOneKbdReport (m : List U8) :
    KbdCoherent m ↔ DeclaresOneKbdReport (reportItems m) := by
  have hget : ∀ s, (zmkHidParseKeyboardReportMap m).2.get s =
      (runItems (reportItems m)).outKbd.get s := by
    intro s
    rw [zmkHidParseKeyboardReportMap_snd]
    cases s <;> rfl
  have hid : (zmkHidParseKeyboardReportMap m).2.reportId =
      kbdRecorder.lockOf (kbdInputs (reportItems m)) := by
    rw [zmkHidParseKeyboardReportMap_snd, ← runItems_outKbd_reportId]
  constructor
  · intro hco s w hw
    have hpres : kbdRecorder.present (runItems (reportItems m)).outKbd s = true := by
      rw [runItems_outKbd_eq_run, Recorder.present_run, Bool.or_eq_true, List.any_eq_true]
      exact Or.inr ⟨w, List.mem_of_find?_eq_some hw,
        List.find?_some (p := (declaresKbdField · s)) hw⟩
    obtain ⟨k', hk', hid'⟩ := hco s (by rw [hget]; exact of_decide_eq_true hpres)
    obtain ⟨flags, hfind⟩ := find?_declaresKbdField_of_recordedAt hk'
    -- the field was recorded once only
    rw [← hid, ← hid', ← Option.some.inj (hfind.symm.trans hw)]
  · intro hone s hpres
    rw [hget] at hpres
    obtain ⟨k, hk⟩ := exists_kbdRecordedAt hpres
    obtain ⟨flags, hfind⟩ := find?_declaresKbdField_of_recordedAt hk
    exact ⟨k, hk, by rw [hid]; exact hone s _ hfind⟩

/-- **A layout refers to a single report exactly when, in its collection, the
first Input item to declare each of its fields carries the Report ID of the item
that locks the layout.**  Report IDs are compared as the byte that `report_id` keeps
of them: one byte is what a report is tagged with, and two wider declarations that agree
in it are one ID. -/
theorem coherent_iff (m : List U8) :
    (Coherent m ↔ DeclaresOneReport (reportItems m)) ∧
      (KbdCoherent m ↔ DeclaresOneKbdReport (reportItems m)) :=
  ⟨coherent_iff_declaresOneReport m, kbdCoherent_iff_declaresOneKbdReport m⟩

/-- A mouse that declares a vendor byte under Report ID 1, and X and Y under
Report ID 2. -/
def vendorFirstMap : List U8 :=
  [0x05, 0x01, 0x09, 0x02, 0xa1, 0x01,
   0x85, 0x01, 0x06, 0x00, 0xff, 0x09, 0x01, 0x75, 0x08, 0x95, 0x01, 0x81, 0x02,
   0x85, 0x02, 0x05, 0x01, 0x09, 0x30, 0x09, 0x31, 0x15, 0x81, 0x95, 0x02, 0x81, 0x06,
   0xc0]

/-- The layout of `vendorFirstMap` is locked to Report ID 1, where it has no
field. -/
theorem vendorFirstMap_not_coherent :
    (zmkHidParseReportMap vendorFirstMap).1 = 0 ∧
      (zmkHidParseReportMap vendorFirstMap).2.reportId = 1 ∧ ¬ Coherent vendorFirstMap := by
  refine ⟨by decide +kernel, by decide +kernel, ?_⟩
  intro h
  obtain ⟨k, i, hk, hid⟩ := h .x (by decide +kernel) (by decide)
  -- X is first declared under Report ID 2
  have hfind := find?_declaresField_of_recordedAt hk
  have hfirst : ((pointerInputs (reportItems vendorFirstMap)).find?
      (declaresField · .x)).map (·.g.reportId) = some 2 := by decide +kernel
  rw [hfind, Option.map_some, Option.some.injEq] at hfirst
  rw [hfirst] at hid
  exact absurd hid (by decide +kernel)

end BleHidHost
