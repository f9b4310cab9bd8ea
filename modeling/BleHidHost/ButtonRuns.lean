import BleHidHost.DeclarationOrder
import BleHidHost.UsageRuns

/-!
# Button runs by their usages

A layout numbers the buttons of its run from 1 on.  The parser records a run without looking
at its usages: of the Input item it looks at the usage page only.  Which control a slot of
the item is, its Usages and ranges declare, a four-byte one on a page of its own.

## Main definitions

* `controlUsage` — the usage that is declared for a slot.
* `usageBlocks` — the Usages and the complete ranges, in their order, by their ends.
* `countsButtons` — each block begins where the one before has ended.

## Main results

* `take_declared_iff` — a sequence of blocks begins with these buttons exactly when its
  blocks count them.
* `buttonRun_iff` — **when a bit of a report means the button of its place.**
-/

namespace BleHidHost

open Lib

/-- Button `k`, as an extended usage. -/
def buttonUsage (k : ℕ) : U32 := makeUsage pageButton (BitVec.ofNat 32 k)

/-- The usage that the local items of item `k` declare for its slot `i`. -/
def controlUsage (its : List Item) (k i : ℕ) : U32 :=
  nthUsage (before its k).g.usagePage
    (declaredUsages (before its k).g.usagePage (declarations (its.take k))) i

theorem toNat_buttonUsage {k : ℕ} (h : k < 65536) : (buttonUsage k).toNat = 9 * 65536 + k := by
  have hid : (BitVec.ofNat 32 k).toNat = k := by
    rw [BitVec.toNat_ofNat, Nat.mod_eq_of_lt (by omega)]
  rw [buttonUsage, toNat_makeUsage, hid, Nat.mod_eq_of_lt h]
  rfl

/-! ### Blocks -/

/-- The lower and the upper ends of the Usages and the complete ranges that declarations
declare, where `lo` and `hi` are the ends of a range that wait for the other one. -/
def usageBlocks (page : U16) : Option U32 → Option U32 → List Declaration → List (U32 × U32)
  | _, _, [] => []
  | lo, hi, .usage u :: ds => (u, u) :: usageBlocks page lo hi ds
  | _, none, .minimum it :: ds => usageBlocks page (some (extendedUsage page it)) none ds
  | _, some hi, .minimum it :: ds => (extendedUsage page it, hi) :: usageBlocks page none none ds
  | none, _, .maximum it :: ds => usageBlocks page none (some (extendedUsage page it)) ds
  | some lo, _, .maximum it :: ds => (lo, extendedUsage page it) :: usageBlocks page none none ds

/-- The blocks of item `k`, each with the page it is on. -/
def itemBlocks (its : List Item) (k : ℕ) : List (U32 × U32) :=
  usageBlocks (before its k).g.usagePage none none (declarations (its.take k))

/-- The number of usages of a block: none where its ends are the wrong way round. -/
def blockLength (lo hi : U32) : ℕ := hi.toNat + 1 - lo.toNat

/-- The blocks count `n` buttons from `first` on: each that is not empty begins with the
next button, until `n` are counted. -/
def countsButtons : ℕ → ℕ → List (U32 × U32) → Bool
  | _, 0, _ => true
  | _, _ + 1, [] => false
  | first, n + 1, (lo, hi) :: bs =>
    if hi < lo then countsButtons first (n + 1) bs
    else lo == buttonUsage first &&
      countsButtons (first + blockLength lo hi) (n + 1 - blockLength lo hi) bs

/-- The usages of a sequence of blocks. -/
def blockUsages (bs : List (U32 × U32)) : List U32 := bs.flatMap fun b => rangeUsages b.1 b.2

theorem length_rangeUsages (lo hi : U32) : (rangeUsages lo hi).length = blockLength lo hi := by
  rw [rangeUsages, List.length_map, List.length_range', blockLength]

theorem rangeUsages_of_lt {lo hi : U32} (h : hi < lo) : rangeUsages lo hi = [] := by
  rw [← List.length_eq_zero_iff, length_rangeUsages, blockLength]
  rw [BitVec.lt_def] at h
  omega

theorem rangeUsages_self (u : U32) : rangeUsages u u = [u] := by
  have hlen : u.toNat + 1 - u.toNat = 1 := by omega
  rw [rangeUsages, hlen]
  simp

/-- **The declared sequence is that of its blocks.** -/
theorem usagesFrom_eq_blockUsages (page : U16) (lo hi : Option U32) (ds : List Declaration) :
    usagesFrom page lo hi ds = blockUsages (usageBlocks page lo hi ds) := by
  unfold blockUsages
  induction ds generalizing lo hi with
  | nil => rfl
  | cons d ds ih =>
    cases d with
    | usage u => rw [usagesFrom, usageBlocks, List.flatMap_cons, ih, rangeUsages_self]; rfl
    | minimum it =>
      cases hi with
      | none => exact ih _ _
      | some hi => rw [usagesFrom, usageBlocks, List.flatMap_cons, ih]
    | maximum it =>
      cases lo with
      | none => exact ih _ _
      | some lo => rw [usagesFrom, usageBlocks, List.flatMap_cons, ih]

/-! ### Counting -/

/-- The `n` buttons from `first` on. -/
def buttonsFrom (first n : ℕ) : List U32 :=
  (List.range n).map fun i => buttonUsage (first + i)

@[simp] theorem length_buttonsFrom (first n : ℕ) : (buttonsFrom first n).length = n := by
  rw [buttonsFrom, List.length_map, List.length_range]

theorem buttonsFrom_add (first k n : ℕ) :
    buttonsFrom first (k + n) = buttonsFrom first k ++ buttonsFrom (first + k) n := by
  rw [buttonsFrom, List.range_add, List.map_append, List.map_map]
  refine congrArg (_ ++ ·) (List.map_congr_left fun i _ => ?_)
  rw [Function.comp_apply, Nat.add_assoc]

/-- A block that begins with a button goes on with the buttons behind it. -/
theorem take_rangeUsages {lo hi : U32} {first k : ℕ} (hlo : lo = buttonUsage first)
    (hk : k ≤ blockLength lo hi) (hfirst : first + k ≤ 65536) :
    (rangeUsages lo hi).take k = buttonsFrom first k := by
  apply List.ext_getElem
  · rw [List.length_take, length_rangeUsages, length_buttonsFrom, Nat.min_eq_left hk]
  · intro i hi₁ hi₂
    rw [length_buttonsFrom] at hi₂
    apply BitVec.eq_of_toNat_eq
    have hval : lo.toNat + i = (buttonUsage (first + i)).toNat := by
      rw [hlo, toNat_buttonUsage (by omega), toNat_buttonUsage (by omega), Nat.add_assoc]
    have hlt := (buttonUsage (first + i)).isLt
    simp only [List.getElem_take, rangeUsages, buttonsFrom, List.getElem_map, List.getElem_range',
      List.getElem_range, BitVec.toNat_ofNat]
    omega

/-- A block that is not empty begins with its lower end. -/
theorem head?_rangeUsages {lo hi : U32} (h : 0 < blockLength lo hi) :
    (rangeUsages lo hi).head? = some lo := by
  obtain ⟨d, hd⟩ : ∃ d, hi.toNat + 1 - lo.toNat = d + 1 := ⟨blockLength lo hi - 1, by
    rw [blockLength] at h ⊢; omega⟩
  simp [rangeUsages, hd, List.range'_succ]

/-- **A block has these buttons exactly when it begins with the first of them.** -/
theorem take_rangeUsages_eq_iff {lo hi : U32} {first k : ℕ} (hpos : 0 < k)
    (hk : k ≤ blockLength lo hi) (hfirst : first + k ≤ 65536) :
    (rangeUsages lo hi).take k = buttonsFrom first k ↔ lo = buttonUsage first := by
  constructor
  · intro heq
    obtain ⟨j, rfl⟩ : ∃ j, k = j + 1 := ⟨k - 1, by omega⟩
    have hhead := congrArg List.head? heq
    rw [List.head?_take, if_neg (Nat.succ_ne_zero j), head?_rangeUsages (by omega)] at hhead
    simpa [buttonsFrom, List.range_succ_eq_map] using hhead
  · exact fun hlo => take_rangeUsages hlo hk hfirst

/-- **A sequence of blocks begins with the buttons from `first` on exactly when its blocks
count them.** -/
theorem take_declared_iff (bs : List (U32 × U32)) {first n : ℕ} (hfirst : first + n ≤ 65536) :
    (blockUsages bs).take n = buttonsFrom first n ↔ countsButtons first n bs := by
  induction bs generalizing first n with
  | nil =>
    cases n with
    | zero => exact iff_of_true rfl (by rw [countsButtons])
    | succ n =>
      refine iff_of_false (fun heq => ?_) (by simp [countsButtons])
      have hlen := congrArg List.length heq
      simp [blockUsages] at hlen
  | cons b bs ih =>
    obtain ⟨lo, hi⟩ := b
    cases n with
    | zero => exact iff_of_true rfl (by rw [countsButtons])
    | succ n =>
      have hsplit : blockUsages ((lo, hi) :: bs) = rangeUsages lo hi ++ blockUsages bs := rfl
      rw [countsButtons, hsplit]
      by_cases hempty : hi < lo
      · rw [if_pos hempty, rangeUsages_of_lt hempty, List.nil_append]
        exact ih hfirst
      rw [if_neg hempty, Bool.and_eq_true, beq_iff_eq, List.take_append, length_rangeUsages]
      have hpos : 0 < blockLength lo hi := by
        rw [BitVec.not_lt, BitVec.le_def] at hempty
        rw [blockLength]
        omega
      by_cases hle : n + 1 ≤ blockLength lo hi
      · -- the block has all that are left
        have hzero : n + 1 - blockLength lo hi = 0 := by omega
        rw [hzero, List.take_zero, List.append_nil, countsButtons,
          take_rangeUsages_eq_iff (Nat.succ_pos n) hle hfirst]
        exact (and_iff_left rfl).symm
      · -- the block has the first of them, and the further blocks the rest
        obtain ⟨r, hr⟩ : ∃ r, n + 1 = blockLength lo hi + r := ⟨n + 1 - blockLength lo hi, by omega⟩
        have hall :
            (rangeUsages lo hi).take (n + 1) = (rangeUsages lo hi).take (blockLength lo hi) := by
          rw [List.take_of_length_le (by rw [length_rangeUsages]; omega),
            List.take_of_length_le (by rw [length_rangeUsages])]
        have hrest : n + 1 - blockLength lo hi = r := by omega
        have hblocks := @ih (first + blockLength lo hi) r (by omega)
        rw [hall, hrest, ← hblocks, ← take_rangeUsages_eq_iff hpos le_rfl (by omega), hr,
          buttonsFrom_add]
        constructor
        · intro heq
          exact List.append_inj heq (by
            rw [List.length_take, length_rangeUsages, Nat.min_self, length_buttonsFrom])
        · rintro ⟨hblock, hfurther⟩
          rw [hblock, hfurther]

/-- No button is usage 0 of a page. -/
theorem buttonUsage_succ_ne {i : ℕ} (hi : i + 1 < 65536) (page : U16) :
    buttonUsage (i + 1) ≠ makeUsage page 0 := by
  intro heq
  have hnat := congrArg (fun u : U32 => u.toNat % 65536) heq
  simp only [toNat_buttonUsage hi, toNat_makeUsage] at hnat
  simp at hnat
  omega

/-- The last of the usages repeats. -/
theorem nthUsage_eq_getD (page : U16) {us : List U32} (hne : us ≠ []) (i : ℕ) :
    nthUsage page us i =
      us.getD (if i < us.length then i else us.length - 1) (makeUsage page 0) := by
  have hpos : 0 < us.length := List.length_pos_iff.mpr hne
  have hmin : min i (us.length - 1) = if i < us.length then i else us.length - 1 := by
    split <;> omega
  rw [nthUsage, hmin]

/-- **The slots of an item are the buttons from 1 on exactly when its blocks count them.** -/
theorem forall_controlUsage_iff (its : List Item) (k : ℕ) {n : ℕ} (hn : n < 65536) :
    (∀ i < n, controlUsage its k i = buttonUsage (i + 1)) ↔
      countsButtons 1 n (itemBlocks its k) := by
  rw [itemBlocks, ← take_declared_iff _ (by omega), ← usagesFrom_eq_blockUsages, ← declaredUsages]
  unfold controlUsage
  generalize declaredUsages (before its k).g.usagePage (declarations (its.take k)) = us
  generalize (before its k).g.usagePage = page
  by_cases hnil : us = []
  · -- without a usage every slot has usage 0
    subst hnil
    rcases Nat.eq_zero_or_pos n with rfl | hpos
    · exact iff_of_true (fun i hi => absurd hi (Nat.not_lt_zero i)) rfl
    · refine iff_of_false (fun hall => ?_) (fun heq => ?_)
      · exact buttonUsage_succ_ne (by omega) page (hall 0 hpos).symm
      · have hlen := congrArg List.length heq
        rw [List.take_nil, length_buttonsFrom, List.length_nil] at hlen
        omega
  · have hlist := forall_getD_eq_iff (d := makeUsage page 0) (f := id)
      (t := fun i => buttonUsage (1 + i)) (n := n) hnil ?_
    · rw [List.map_id] at hlist
      rw [buttonsFrom, ← hlist]
      refine forall_congr' fun i => forall_congr' fun _ => ?_
      rw [nthUsage_eq_getD page hnil, Nat.add_comm i 1, id]
    · intro i hi heq
      have hnat := congrArg BitVec.toNat heq
      rw [toNat_buttonUsage (by omega), toNat_buttonUsage (by omega)] at hnat
      omega

/-! ### Buttons -/

/-- A recorded button run counts at most 16 buttons. -/
theorem toNat_buttonCount_of_recordedAt {its : List Item} {k j : ℕ}
    (h : RecordedAt its .buttons k j) :
    (runItems its).out.buttonCount.toNat ≤ 16 := by
  rw [runItems_out_buttonCount_of_recordedAt h]
  exact toNat_buttonRunCount_le _

/-- **Bit `i` of the buttons means button `i + 1`**, in whatever item the run was recorded
from, exactly when the Usages and ranges of that item count the buttons from 1 on.  The run
of a nonzero count was recorded from some item, and a bit that is set in a decoded report is
that of a slot of the run that is not zero. -/
theorem buttonRun_iff (m : List U8) :
    let l := (zmkHidParseReportMap m).2
    ((∀ k j, RecordedAt (reportItems m) .buttons k j → ∀ i < l.buttonCount.toNat,
        controlUsage (reportItems m) k i = buttonUsage (i + 1)) ↔
      ∀ k j, RecordedAt (reportItems m) .buttons k j →
        countsButtons 1 l.buttonCount.toNat (itemBlocks (reportItems m) k)) ∧
    (l.buttonCount ≠ 0 → ∃ k j, RecordedAt (reportItems m) .buttons k j) ∧
    ∀ p r, zmkHidDecodeReport l p = some r → ∀ i, r.buttons.getLsbD i →
      i < l.buttonCount.toNat ∧ ∃ b < buttonStride l,
        bitAt p (l.buttons.bitOffset.toNat + i * buttonStride l + b) := by
  intro l
  have hl : l.buttonCount = (runItems (reportItems m)).out.buttonCount := by
    show (zmkHidParseReportMap m).2.buttonCount = _
    rw [zmkHidParseReportMap_snd]
  refine ⟨?_, ?_, ?_⟩
  · refine forall_congr' fun k => forall_congr' fun j => forall_congr' fun h => ?_
    have hcount := toNat_buttonCount_of_recordedAt h
    rw [← hl] at hcount
    exact forall_controlUsage_iff _ k (by omega)
  · intro hcount
    rw [hl] at hcount
    exact exists_recordedAt (s := .buttons) ((buttonsSound_runItems _).present hcount)
  · intro p r hdec i hi
    obtain ⟨-, -, rfl⟩ := (zmkHidDecodeReport_eq_some_iff l p r).mp hdec
    obtain ⟨hlt, hfield⟩ := of_decide_eq_true ((getLsbD_buttonBits l p i).symm.trans hi)
    refine ⟨lt_of_lt_of_le hlt (min_le_left _ _), ?_⟩
    -- a field of clear bits would be zero
    by_contra hclear
    apply hfield
    apply BitVec.eq_of_getLsbD_eq
    intro b _
    have hzero : (0 : U32).getLsbD b = false := BitVec.getLsbD_zero
    rw [getLsbD_buttonField, hzero]
    by_cases hb : b < buttonStride l
    · rw [(Bool.not_eq_true _).mp fun hc => hclear ⟨b, hb, hc⟩, Bool.and_false]
    · rw [decide_eq_false fun hc => hb hc.1, Bool.false_and]

/-- A Usage and a range may count the buttons together; a range on the keyboard page does not
count them. -/
example : countsButtons 1 3 [(0x00090001, 0x00090001), (0x00090002, 0x00090003)] ∧
    ¬ countsButtons 1 3 [(0x00070001, 0x00070003)] := by decide

/-- A mouse with buttons 2 to 4. -/
def sideButtonsMap : List U8 :=
  [0x05, 0x01, 0x09, 0x02, 0xa1, 0x01, 0x05, 0x09, 0x19, 0x02, 0x29, 0x04, 0x75, 0x01, 0x95, 0x03,
   0x81, 0x02, 0x75, 0x05, 0x95, 0x01, 0x81, 0x01, 0x05, 0x01, 0x09, 0x30, 0x09, 0x31, 0x75, 0x08,
   0x95, 0x02, 0x81, 0x06, 0xc0]

/-- Button 2 comes out as bit 0. -/
theorem sideButtons_shifted :
    ¬ ∀ m : List U8, (zmkHidParseReportMap m).1 = 0 →
      ∀ k j, RecordedAt (reportItems m) .buttons k j →
        ∀ i < (zmkHidParseReportMap m).2.buttonCount.toNat,
          controlUsage (reportItems m) k i = buttonUsage (i + 1) := by
  intro hall
  have hslot := hall sideButtonsMap (by decide +kernel) 8 0 (by decide +kernel) 0
    (by decide +kernel)
  exact absurd hslot (by decide +kernel)

end BleHidHost
