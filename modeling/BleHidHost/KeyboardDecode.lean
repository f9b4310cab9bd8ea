import BleHidHost.LayoutBounds

/-!
# The keycodes of a keyboard report

The keycode array of a report is filtered into at most 16 keycodes.  An entry has the
width that the descriptor declares, up to 255 bits, but a keycode is a byte: an entry
comes out with its full value exactly when it fits one.

## Main definitions

* `keyValue` — the full value of an entry of the array.
* `heldKeys` — the first 16 entries that are keys, at full value.

## Main results

* `keys_decodeKey` — what the loop over the array collects.
* `keys_eq_heldKeys_iff` — **the keycodes are the keys held exactly when each of these
  fits a byte.**
-/

namespace BleHidHost

open Lib

/-! ### Collecting -/

section Collect

variable {α β : Type} (n : ℕ) (q : α → Bool) (f : α → β)

/-- A loop that collects into an array of `n` places takes the first `n` that pass. -/
theorem foldl_collect (is : List α) (acc : List β) :
    is.foldl (fun acc i => if acc.length < n ∧ q i then acc ++ [f i] else acc) acc =
      acc ++ ((is.filter q).map f).take (n - acc.length) := by
  induction is generalizing acc with
  | nil => simp
  | cons i is ih =>
    rw [List.foldl_cons, ih]
    by_cases hq : q i
    · rw [List.filter_cons_of_pos hq, List.map_cons]
      by_cases hn : acc.length < n
      · -- one more place is taken
        obtain ⟨k, hk⟩ := Nat.exists_eq_succ_of_ne_zero (Nat.sub_ne_zero_of_lt hn)
        have hrest : n - (acc.length + 1) = k := by omega
        rw [if_pos ⟨hn, hq⟩, hk, List.take_succ_cons, List.length_append, List.length_singleton,
          hrest, List.append_assoc, List.singleton_append]
      · have hfull : n - acc.length = 0 := by omega
        rw [if_neg fun hc => hn hc.1, hfull, List.take_zero, List.take_zero]
    · rw [List.filter_cons_of_neg hq, if_neg fun hc => hq hc.2]

end Collect

/-! ### Keys -/

/-- The value of an entry names a key: `0` is no key and `1` is ErrorRollOver. -/
def isKey (v : ℕ) : Bool := v != 0 && v != 1

/-- Entry `i` of the keycode array, read at its full width. -/
def keyValue (l : KeyboardLayout) (p : List U8) (i : ℕ) : ℕ :=
  leNat p / 2 ^ (l.keys.bitOffset.toNat + i * l.keys.bitSize.toNat) % 2 ^ l.keys.bitSize.toNat

/-- The keycode array, every entry at its full width. -/
def keyValues (l : KeyboardLayout) (p : List U8) : List ℕ :=
  (List.range l.keyCount.toNat).map (keyValue l p)

/-- The first keys of the array. -/
def heldKeys (l : KeyboardLayout) (p : List U8) : List ℕ :=
  ((keyValues l p).filter isKey).take maxKeys

/-- The code `extract` finds is the low word of the entry. -/
theorem toNat_extract_keyEntry {l : KeyboardLayout} (hfit : KeysFit l) (p : List U8) {i : ℕ}
    (hi : i < l.keyCount.toNat) :
    (BitVec.ofInt 32 (extract p (keyEntry l i))).toNat = keyValue l p i % 2 ^ 32 := by
  have hsize : (keyEntry l i).bitSize = l.keys.bitSize := rfl
  unfold keyValue
  by_cases h0 : l.keys.bitSize = 0
  · simp only [extract, if_pos (hsize.trans h0), h0]
    show 0 = _ % 1 % _
    rw [Nat.mod_one, Nat.zero_mod]
  · have hplain : extendSign (keyEntry l i) = id := by
      funext v
      exact if_neg fun hc => Bool.false_ne_true hc.1
    rw [extract, if_neg (mt hsize.symm.trans h0), hplain, id, BitVec.ofInt_toInt,
      extractLoop_eq_slice, BitVec.toNat_setWidth, toNat_slice, toNat_keyEntry hfit hi, hsize]

/-- What the source keeps of an entry: its low word decides, and its low byte is the
keycode. -/
def lowKeys (vs : List ℕ) : List ℕ := ((vs.map (· % 2 ^ 32)).filter isKey).map (· % 256)

/-- **The loop over the array** collects the low bytes of the first 16 entries whose low
word is a key. -/
theorem keys_decodeKey {l : KeyboardLayout} (hfit : KeysFit l) (p : List U8) :
    ((List.range l.keyCount.toNat).foldl (decodeKey l p) []).map BitVec.toNat =
      (lowKeys (keyValues l p)).take maxKeys := by
  have hround : ∀ acc, ∀ i ∈ List.range l.keyCount.toNat, decodeKey l p acc i =
      if acc.length < maxKeys ∧ isKey (keyValue l p i % 2 ^ 32) then
        acc ++ [BitVec.ofNat 8 (keyValue l p i)] else acc := by
    intro acc i hi
    have hcode := toNat_extract_keyEntry hfit p (List.mem_range.mp hi)
    unfold decodeKey
    generalize BitVec.ofInt 32 (extract p (keyEntry l i)) = code at hcode
    have hkey : (code ≠ 0 ∧ code ≠ 0x01) ↔ isKey (keyValue l p i % 2 ^ 32) := by
      rw [← hcode, isKey, Bool.and_eq_true, bne_iff_ne, bne_iff_ne, ne_eq, ne_eq,
        ← BitVec.toNat_inj, ← BitVec.toNat_inj]
      rfl
    have hbyte : code.setWidth 8 = BitVec.ofNat 8 (keyValue l p i) := by
      apply BitVec.eq_of_toNat_eq
      rw [BitVec.toNat_setWidth, BitVec.toNat_ofNat, hcode]
      omega
    simp only [hkey, hbyte]
  rw [List.foldl_ext _ _ _ hround, foldl_collect maxKeys
    (fun i => isKey (keyValue l p i % 2 ^ 32)) (fun i => BitVec.ofNat 8 (keyValue l p i)),
    List.nil_append, List.length_nil, Nat.sub_zero, List.map_take, List.map_map]
  have hlow : BitVec.toNat ∘ (fun i => BitVec.ofNat 8 (keyValue l p i)) =
      (· % 256) ∘ (· % 2 ^ 32) ∘ keyValue l p := by
    funext i
    show (BitVec.ofNat 8 (keyValue l p i)).toNat = keyValue l p i % 2 ^ 32 % 256
    rw [BitVec.toNat_ofNat]
    omega
  unfold lowKeys keyValues
  rw [hlow, List.map_map, List.filter_map, List.map_map]
  rfl

/-- Narrowing loses nothing of the first `n` keys exactly when each of them fits a byte. -/
theorem take_lowKeys_eq_iff (vs : List ℕ) (n : ℕ) :
    (lowKeys vs).take n = (vs.filter isKey).take n ↔ ∀ v ∈ (vs.filter isKey).take n, v < 256 := by
  constructor
  · intro heq v hv
    rw [← heq] at hv
    obtain ⟨w, -, rfl⟩ := List.mem_map.mp (List.mem_of_mem_take hv)
    exact Nat.mod_lt w (by decide)
  · intro hfit
    induction vs generalizing n with
    | nil => rfl
    | cons v vs ih =>
      unfold lowKeys at ih ⊢
      rw [List.map_cons]
      by_cases hv : isKey v
      · rw [List.filter_cons_of_pos hv] at hfit ⊢
        cases n with
        | zero => rfl
        | succ n =>
          rw [List.take_succ_cons] at hfit ⊢
          obtain ⟨hlt, hrest⟩ := List.forall_mem_cons.mp hfit
          have hword : v % 2 ^ 32 = v := Nat.mod_eq_of_lt (by omega)
          rw [hword, List.filter_cons_of_pos hv, List.map_cons, List.take_succ_cons, ih n hrest,
            Nat.mod_eq_of_lt hlt]
      · rw [List.filter_cons_of_neg hv] at hfit ⊢
        -- no key is `0` or `1`, which are their own low words
        have hword : v % 2 ^ 32 = v := by
          have h01 : v = 0 ∨ v = 1 := by
            simp only [isKey, Bool.and_eq_true, bne_iff_ne, ne_eq] at hv
            omega
          exact Nat.mod_eq_of_lt (by omega)
        rw [hword, List.filter_cons_of_neg hv]
        exact ih n hfit

/-- **The keycodes of a report are the keys held, at full value, exactly when each of these
fits a byte.** -/
theorem keys_eq_heldKeys_iff {m : List U8} (hlen : m.length ≤ 512)
    (hacc : (zmkHidParseKeyboardReportMap m).1 = 0) (p : List U8)
    (hgate : (kbdPayloadBits (zmkHidParseKeyboardReportMap m).2 + 7) / 8 ≤ p.length) :
    ∃ r, zmkHidDecodeKeyboardReport (zmkHidParseKeyboardReportMap m).2 p = some r ∧
      (r.keys.map BitVec.toNat = heldKeys (zmkHidParseKeyboardReportMap m).2 p ↔
        ∀ v ∈ heldKeys (zmkHidParseKeyboardReportMap m).2 p, v < 256) := by
  have hvalid := zmkHidParseKeyboardReportMap_valid hacc
  have hfit : KeysFit (zmkHidParseKeyboardReportMap m).2 := by
    have hitems := keysFit_runItems hlen
    rw [zmkHidParseKeyboardReportMap_snd]
    exact hitems
  generalize (zmkHidParseKeyboardReportMap m).2 = l at hgate hvalid hfit
  simp only [zmkHidDecodeKeyboardReport, if_neg (not_not.mpr hvalid), if_neg (Nat.not_lt.mpr hgate)]
  refine ⟨_, rfl, ?_⟩
  simp only
  rw [keys_decodeKey hfit]
  exact take_lowKeys_eq_iff (keyValues l p) maxKeys

/-- A keyboard with one keycode of 16 bits. -/
def wideKeysMap : List U8 :=
  [0x05, 0x01, 0x09, 0x06, 0xa1, 0x01, 0x05, 0x07, 0x75, 0x10, 0x95, 0x02, 0x81, 0x00, 0xc0]

/-- Keys `0x0104` and `0x0204` are both read as keycode `0x04`. -/
theorem wideKeys_confused :
    ¬ ∀ (m : List U8), m.length ≤ 512 → (zmkHidParseKeyboardReportMap m).1 = 0 →
      ∀ p, (kbdPayloadBits (zmkHidParseKeyboardReportMap m).2 + 7) / 8 ≤ p.length →
        ∃ r, zmkHidDecodeKeyboardReport (zmkHidParseKeyboardReportMap m).2 p = some r ∧
          r.keys.map BitVec.toNat = heldKeys (zmkHidParseKeyboardReportMap m).2 p := by
  intro hall
  obtain ⟨r, hdec, hkeys⟩ := hall wideKeysMap (by decide) (by decide +kernel) [4, 1, 4, 2]
    (by decide +kernel)
  have hlayout : (zmkHidParseKeyboardReportMap wideKeysMap).2 =
      ⟨0, .zero, ⟨0, 16, false⟩, 2, true⟩ := by decide +kernel
  rw [hlayout] at hdec hkeys
  have hr : some r = some ⟨0, [4, 4]⟩ := hdec.symm.trans (by decide +kernel)
  rw [Option.some_inj.mp hr] at hkeys
  exact absurd hkeys (by decide +kernel)

/-- Entry `0` is no key, and the boot keyboard's keycodes are bytes. -/
theorem keys_eq_heldKeys_boot :
    ∃ r, zmkHidDecodeKeyboardReport (zmkHidParseKeyboardReportMap bootKeyboardMap).2
        [2, 0, 4, 0, 1, 5, 0, 0] = some r ∧ r.keys.map BitVec.toNat = [4, 5] := by
  obtain ⟨r, hdec, hiff⟩ := keys_eq_heldKeys_iff (m := bootKeyboardMap) (by decide)
    (by decide +kernel) [2, 0, 4, 0, 1, 5, 0, 0] (by decide +kernel)
  have hheld : heldKeys (zmkHidParseKeyboardReportMap bootKeyboardMap).2 [2, 0, 4, 0, 1, 5, 0, 0] =
      [4, 5] := by decide +kernel
  rw [hheld] at hiff
  exact ⟨r, hdec, hiff.mpr (by decide)⟩

end BleHidHost
