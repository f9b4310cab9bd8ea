import BleHidHost.Extension
import BleHidHost.LayoutBounds

/-!
# Declared values and the parser's registers

The value of a global item has up to 32 bits, the register that takes it 8 or 16: the
parser keeps the low bits of a Report Size, Report Count or Report ID from 256 on, and
of a Usage Page from 65536 on, without a word.

## Main definitions

* `GlobalDecl`, `globalDecl` — the values a list of items has declared, in unbounded numbers.
* `Honoured` — an Input item is handled with the declared values.
* `ValuesFit` — every declared value fits its register.

## Main results

* `holds_walkItems` — the registers hold the declared values, reduced to their widths.
* `honoured_iff` — **an Input item is handled as declared exactly when the values in force
  fit, or it has no bits.**
* `honoursDeclared_iff` — what is accepted is parsed as declared exactly when every value
  fits.
-/

namespace BleHidHost

open Lib

/-- The most recent Report Size, Report Count, Report ID and Usage Page. -/
structure GlobalDecl where
  size : ℕ
  count : ℕ
  id : ℕ
  page : ℕ
  deriving DecidableEq, Repr

/-- One item's declaration. -/
def GlobalDecl.step (d : GlobalDecl) (it : Item) : GlobalDecl :=
  match itemType it.type with
  | .global =>
    match globalTag it.tag with
    | .reportSize => { d with size := leNat it.data }
    | .reportCount => { d with count := leNat it.data }
    | .reportId => { d with id := leNat it.data }
    | .usagePage => { d with page := leNat it.data }
    | _ => d
  | _ => d

/-- What a list of items has declared. -/
def globalDecl (its : List Item) : GlobalDecl := its.foldl GlobalDecl.step ⟨0, 0, 0, 0⟩

theorem globalDecl_concat (its : List Item) (it : Item) :
    globalDecl (its ++ [it]) = (globalDecl its).step it := by
  simp [globalDecl, List.foldl_append]

/-- The registers hold the declared values, reduced to their widths. -/
structure Holds (w : Walk) (d : GlobalDecl) : Prop where
  size : w.g.reportSize.toNat = d.size % 256
  count : w.g.reportCount.toNat = d.count % 256
  id : w.g.reportId.toNat = d.id % 256
  page : w.g.usagePage.toNat = d.page % 65536

/-- The low half of an item's value. -/
theorem toNat_itemU_half (it : Item) :
    ((itemU it.data).setWidth 16 : U16).toNat = leNat it.data % 65536 := by
  rw [BitVec.toNat_setWidth, toNat_itemU _ it.length_data_le]

/-- **One item keeps the registers with the declarations.** -/
theorem Holds.step {w : Walk} {d : GlobalDecl} {it : Item} (h : Holds w d)
    (hpp : itemType it.type = .global → globalTag it.tag ≠ .push ∧ globalTag it.tag ≠ .pop) :
    Holds (walkItem w it) (d.step it) := by
  unfold walkItem handleItem dispatch GlobalDecl.step
  cases ht : itemType it.type with
  | main => cases mainTag it.tag <;> exact ⟨h.size, h.count, h.id, h.page⟩
  | global =>
    cases hg : globalTag it.tag with
    | reportSize => exact ⟨toNat_itemU_low it, h.count, h.id, h.page⟩
    | reportCount => exact ⟨h.size, toNat_itemU_low it, h.id, h.page⟩
    | reportId => exact ⟨h.size, h.count, toNat_itemU_low it, h.page⟩
    | usagePage => exact ⟨h.size, h.count, h.id, toNat_itemU_half it⟩
    | push => exact absurd hg (hpp ht).1
    | pop => exact absurd hg (hpp ht).2
    | _ => exact ⟨h.size, h.count, h.id, h.page⟩
  | «local» => cases localTag it.tag <;> exact ⟨h.size, h.count, h.id, h.page⟩
  | reserved => exact h

/-- **The registers hold the declared values, reduced to their widths.** -/
theorem holds_walkItems {its : List Item} (hpp : NoPushPop its) :
    Holds (walkItems its) (globalDecl its) := by
  induction its using List.reverseRecOn with
  | nil => exact ⟨rfl, rfl, rfl, rfl⟩
  | append_singleton its it ih =>
    rw [walkItems_concat, globalDecl_concat]
    exact (ih fun it' h => hpp it' (List.mem_append_left _ h)).step (hpp it (by simp))

/-! ### Input items -/

/-- Input item `k` is handled with the declared values: the cursor advances by the declared
bits, and the Report ID and the Usage Page are the declared ones. -/
structure Honoured (its : List Item) (k : ℕ) : Prop where
  cursor : (before its (k + 1)).bitCursor.toNat = (before its k).bitCursor.toNat +
    (globalDecl (its.take k)).size * (globalDecl (its.take k)).count
  id : (before its k).g.reportId.toNat = (globalDecl (its.take k)).id
  page : (before its k).g.usagePage.toNat = (globalDecl (its.take k)).page

/-- The declared values fit their registers, as far as an Input item uses them: with a Size
or a Count of zero it has no bits, whatever the other is. -/
def GlobalDecl.Fits (d : GlobalDecl) : Prop :=
  (d.size < 256 ∧ d.count < 256 ∨ d.size = 0 ∨ d.count = 0) ∧ d.id < 256 ∧ d.page < 65536

instance (d : GlobalDecl) : Decidable d.Fits := inferInstanceAs (Decidable (_ ∧ _))

/-- Reducing both factors keeps the product only where it changes neither, or the product
is zero. -/
theorem mod_mul_mod_eq_iff (s c : ℕ) :
    s % 256 * (c % 256) = s * c ↔ s < 256 ∧ c < 256 ∨ s = 0 ∨ c = 0 := by
  constructor
  · intro heq
    by_contra hc
    obtain ⟨hwide, hzero⟩ := not_or.mp hc
    obtain ⟨hs0, hc0⟩ := not_or.mp hzero
    have hs := Nat.mod_le s 256
    have hcnt := Nat.mod_le c 256
    have hpos : 0 < s := Nat.pos_of_ne_zero hs0
    by_cases hs256 : s < 256
    · -- the count is the one that is reduced
      have hlt : c % 256 < c := by omega
      have hprod : s % 256 * (c % 256) < s * c :=
        lt_of_le_of_lt (Nat.mul_le_mul_right _ hs) (Nat.mul_lt_mul_of_pos_left hlt hpos)
      omega
    · have hlt : s % 256 < s := by omega
      have hprod : s % 256 * (c % 256) < s * c :=
        lt_of_le_of_lt (Nat.mul_le_mul_left _ hcnt)
          (Nat.mul_lt_mul_of_pos_right hlt (Nat.pos_of_ne_zero hc0))
      omega
  · rintro (⟨hs, hc⟩ | rfl | rfl)
    · rw [Nat.mod_eq_of_lt hs, Nat.mod_eq_of_lt hc]
    · rw [Nat.zero_mod, Nat.zero_mul, Nat.zero_mul]
    · rw [Nat.zero_mod, Nat.mul_zero, Nat.mul_zero]

/-- The cursor behind an Input item of a map of at most 512 bytes. -/
theorem toNat_bitCursor_succ {m : List U8} (hlen : m.length ≤ 512) {k : ℕ} {it : Item}
    (hit : it ∈ (reportItems m)[k]?) (hin : it.isInput) :
    (before (reportItems m) (k + 1)).bitCursor.toNat = (before (reportItems m) k).bitCursor.toNat +
      (before (reportItems m) k).g.reportSize.toNat *
        (before (reportItems m) k).g.reportCount.toNat := by
  have hcur := toNat_bitCursor_lt hlen (List.take_prefix k (reportItems m))
  obtain ⟨ht, hg⟩ := it.isInput_iff.mp hin
  have htot := toNat_totalBits (before (reportItems m) k).toWalk
  have hle : (totalBits (before (reportItems m) k).toWalk).toNat ≤ 65025 :=
    htot ▸ toNat_mul_le _ _
  have hnext : (before (reportItems m) (k + 1)).bitCursor =
      advance (before (reportItems m) k).bitCursor
        (totalBits (before (reportItems m) k).toWalk) := by
    simp only [before, take_succ_of_mem hit, runItems_concat, handleItem, dispatch, ht]
    simp only [handleMain, hg]
    rfl
  rw [hnext, ← htot]
  apply toNat_advance
  have hsame : (walkItems ((reportItems m).take k)).bitCursor =
      (before (reportItems m) k).bitCursor := rfl
  rw [hsame] at hcur
  omega

/-- **An Input item is handled as declared exactly when the values in force fit, or it has
no bits.** -/
theorem honoured_iff {m : List U8} (hlen : m.length ≤ 512) (hpp : NoPushPop (reportItems m))
    {k : ℕ} {it : Item} (hit : it ∈ (reportItems m)[k]?) (hin : it.isInput) :
    Honoured (reportItems m) k ↔ (globalDecl ((reportItems m).take k)).Fits := by
  have hcur := toNat_bitCursor_succ hlen hit hin
  have hholds : Holds (before (reportItems m) k).toWalk (globalDecl ((reportItems m).take k)) :=
    holds_walkItems fun it' h => hpp it' (List.mem_of_mem_take h)
  rw [hholds.size, hholds.count] at hcur
  unfold GlobalDecl.Fits
  rw [← mod_mul_mod_eq_iff]
  constructor
  · rintro ⟨hcursor, hid, hpage⟩
    rw [hholds.id] at hid
    rw [hholds.page] at hpage
    omega
  · rintro ⟨hmul, hid, hpage⟩
    refine ⟨by rw [hcur, hmul], ?_, ?_⟩
    · rw [hholds.id, Nat.mod_eq_of_lt hid]
    · rw [hholds.page, Nat.mod_eq_of_lt hpage]

/-! ### Maps -/

/-- Every Report Size, Report Count and Report ID of the list fits 8 bits, and every Usage
Page 16. -/
def ValuesFit (its : List Item) : Prop :=
  ∀ it ∈ its, itemType it.type = .global →
    (globalTag it.tag = .reportSize ∨ globalTag it.tag = .reportCount ∨
      globalTag it.tag = .reportId → leNat it.data < 256) ∧
    (globalTag it.tag = .usagePage → leNat it.data < 65536)

instance (its : List Item) : Decidable (ValuesFit its) := by unfold ValuesFit; exact inferInstance

/-- Where every value fits, those in force do. -/
theorem fits_globalDecl {its : List Item} (hfit : ValuesFit its) :
    (globalDecl its).size < 256 ∧ (globalDecl its).count < 256 ∧
      (globalDecl its).id < 256 ∧ (globalDecl its).page < 65536 := by
  induction its using List.reverseRecOn with
  | nil => decide
  | append_singleton its it ih =>
    obtain ⟨hs, hc, hid, hpage⟩ := ih fun it' h => hfit it' (List.mem_append_left _ h)
    simp only [globalDecl_concat, GlobalDecl.step]
    cases ht : itemType it.type with
    | global =>
      obtain ⟨hlow, hhalf⟩ := hfit it (by simp) ht
      cases hg : globalTag it.tag with
      | reportSize => exact ⟨hlow (.inl hg), hc, hid, hpage⟩
      | reportCount => exact ⟨hs, hlow (.inr (.inl hg)), hid, hpage⟩
      | reportId => exact ⟨hs, hc, hlow (.inr (.inr hg)), hpage⟩
      | usagePage => exact ⟨hs, hc, hid, hhalf hg⟩
      | _ => exact ⟨hs, hc, hid, hpage⟩
    | _ => exact ⟨hs, hc, hid, hpage⟩

/-- The map is parsed with its declared values: every Input item is handled with them, and a
map with a value that does not fit is rejected. -/
def HonoursDeclared (a : App) (m : List U8) : Prop :=
  (∀ k it, (reportItems m)[k]? = some it → it.isInput → Honoured (reportItems m) k) ∧
    (¬ ValuesFit (reportItems m) → ¬ Accepted a m)

/-- **An accepted map is parsed with its declared values exactly when every one of them
fits.**  Item by item, an Input item is handled as declared exactly when the values in
force fit, or it has no bits. -/
theorem honoursDeclared_iff {m : List U8} (hlen : m.length ≤ 512)
    (hpp : NoPushPop (reportItems m)) {a : App} (hacc : Accepted a m) :
    (HonoursDeclared a m ↔ ValuesFit (reportItems m)) ∧
      ∀ k it, (reportItems m)[k]? = some it → it.isInput →
        (Honoured (reportItems m) k ↔ (globalDecl ((reportItems m).take k)).Fits) := by
  constructor
  · constructor
    · rintro ⟨-, hreject⟩
      by_contra hwide
      exact hreject hwide hacc
    · intro hfit
      refine ⟨?_, fun hwide => absurd hfit hwide⟩
      intro k it hit hin
      rw [honoured_iff hlen hpp hit hin]
      have hbefore : ValuesFit ((reportItems m).take k) :=
        fun it' h => hfit it' (List.mem_of_mem_take h)
      obtain ⟨hs, hc, hid, hpage⟩ := fits_globalDecl hbefore
      exact ⟨.inl ⟨hs, hc⟩, hid, hpage⟩
  · intro k it hit hin
    exact honoured_iff hlen hpp hit hin

/-- A mouse whose X and Y are declared 264 bits wide. -/
def wideAxesMap : List U8 :=
  [0x05, 0x01, 0x09, 0x02, 0xa1, 0x01, 0x09, 0x30, 0x09, 0x31, 0x76, 0x08, 0x01, 0x95, 0x02,
   0x81, 0x06, 0xc0]

/-- The map is accepted, with X and Y of 8 bits each. -/
theorem wideAxesMap_reduced :
    wideAxesMap.length ≤ 512 ∧ NoPushPop (reportItems wideAxesMap) ∧ Accepted .mouse wideAxesMap ∧
      ¬ HonoursDeclared .mouse wideAxesMap ∧ ¬ Honoured (reportItems wideAxesMap) 7 := by
  have hacc : Accepted .mouse wideAxesMap := by
    show (zmkHidParseReportMap wideAxesMap).1 = 0
    decide +kernel
  refine ⟨by decide, by decide +kernel, hacc, ?_, ?_⟩
  · rintro ⟨-, hreject⟩
    exact hreject (by decide +kernel) hacc
  · rintro ⟨hcursor, -, -⟩
    exact absurd hcursor (by decide +kernel)

/-- The values of the mouse that comes back to its Report ID fit. -/
theorem honoursDeclared_returning : HonoursDeclared .mouse returningMap := by
  have hacc : Accepted .mouse returningMap := by
    show (zmkHidParseReportMap returningMap).1 = 0
    decide +kernel
  exact (honoursDeclared_iff (by decide) (by decide +kernel) hacc).1.mpr (by decide +kernel)

end BleHidHost
