import BleHidHost.System

/-!
# The device-name filter

With a name filter configured the central is meant to connect to peers of that name only,
beside the bonded ones.  `ad_parse_cb` accumulates a single match flag over the AD
structures of a report, though, and a mouse Appearance sets it whatever the filter says.

## Main definitions

* `StartsConnection` — `device_found` may request a connection to the advertiser.
* `CarriesName` — the report has a name field equal to the filter.
* `HasMouseAppearance`, `HasCutName` — what else sets the match flag.

## Main results

* `startsConnection_iff` — the request is made exactly for a target.
* `nameFilter_exclusive_iff` — **the filter is exclusive exactly where nothing else sets
  the match flag.**
-/

namespace BleHidHost

open Lib Lib.Prog

variable {cfg : Setup} {m : Central} {addr : Addr} {type : AdvType} {ad : List BtData}
  {filter : List U8}

/-- `device_found` may request a connection to the advertiser. -/
def StartsConnection (cfg : Setup) (m : Central) (addr : Addr) (type : AdvType)
    (ad : List BtData) : Prop :=
  ¬ (deviceFound cfg addr type ad).Avoids (central cfg) (.connLeCreate addr) (fun _ _ => True) m

/-- For a target a connection is requested once the scan has stopped. -/
theorem not_avoids_connectTo :
    ¬ (connectTo addr).Avoids (central cfg) (.connLeCreate addr) (fun _ _ => True) m := by
  intro h
  rw [connectTo, avoids_bind, avoids_ask] at h
  have hgo := h.2 .success _ rfl
  rw [if_neg (not_not.mpr rfl), askOr, avoids_bind, avoids_ask] at hgo
  exact hgo.1 rfl

/-- **A connection is requested exactly for a target.** -/
theorem startsConnection_iff :
    StartsConnection cfg m addr type ad ↔ isTarget cfg m addr type ad := by
  rw [StartsConnection, deviceFound, avoids_bind, avoids_look]
  by_cases h : isTarget cfg m addr type ad
  · rw [if_pos h]
    exact iff_of_true not_avoids_connectTo h
  · rw [if_neg h, avoids_pure]
    exact iff_of_false (not_not.mpr trivial) h

/-! ### What sets the match flag -/

/-- A shortened or complete name. -/
def BtData.IsName (d : BtData) : Prop := d.type = .nameShortened ∨ d.type = .nameComplete

instance (d : BtData) : Decidable d.IsName := inferInstanceAs (Decidable (_ ∨ _))

/-- An Appearance that is a mouse. -/
def BtData.isMouseAppearance (d : BtData) : Bool :=
  d.type == .gapAppearance && (le16s d.data).head? == some appearanceMouse

/-- The report carries a shortened or complete name equal to the filter. -/
def CarriesName (filter : List U8) (ad : List BtData) : Prop :=
  ∃ d ∈ ad, d.IsName ∧ d.data = filter

/-- The report has an Appearance that is a mouse. -/
def HasMouseAppearance (ad : List BtData) : Prop := ∃ d ∈ ad, d.isMouseAppearance

/-- The report has a name that becomes the filter only where it is cut, behind 31 bytes
or at a zero byte. -/
def HasCutName (filter : List U8) (ad : List BtData) : Prop :=
  ∃ d ∈ ad, d.IsName ∧ d.data ≠ filter ∧ cString (d.data.take 31) = filter

instance : Decidable (CarriesName filter ad) := inferInstanceAs (Decidable (∃ _ ∈ _, _))

instance : Decidable (HasMouseAppearance ad) := inferInstanceAs (Decidable (∃ _ ∈ _, _))

instance : Decidable (HasCutName filter ad) := inferInstanceAs (Decidable (∃ _ ∈ _, _))

/-- One AD structure sets the match flag: a mouse Appearance, or a name that is the
filter once it is cut. -/
def BtData.Matches (filter : List U8) (d : BtData) : Prop :=
  d.isMouseAppearance ∨ d.IsName ∧ cString (d.data.take 31) = filter

/-- **One AD structure keeps the match flag or sets it.** -/
theorem adParseCb_isMatch (ai : AdInfo) (d : BtData) :
    (adParseCb (some filter) ai d).isMatch = true ↔ ai.isMatch = true ∨ d.Matches filter := by
  obtain ⟨type, data⟩ := d
  have hname : ∀ t, t = BtDataType.nameShortened ∨ t = .nameComplete →
      ((ai.isMatch || nameMatches (some filter) (cString (data.take 31))) = true ↔
        ai.isMatch = true ∨ BtData.Matches filter ⟨t, data⟩) := by
    intro t ht
    have hother : ¬ BtData.isMouseAppearance ⟨t, data⟩ = true := by
      rcases ht with rfl | rfl <;> simp [BtData.isMouseAppearance]
    rw [Bool.or_eq_true, nameMatches, beq_iff_eq, BtData.Matches, or_iff_right hother]
    exact or_congr_right (and_iff_right ht).symm
  have hnone : ∀ t, BtData.isMouseAppearance ⟨t, data⟩ = false → t ≠ .nameShortened →
      t ≠ .nameComplete → (ai.isMatch = true ↔ ai.isMatch = true ∨
        BtData.Matches filter ⟨t, data⟩) := by
    intro t happ hs hc
    refine (or_iff_left ?_).symm
    rintro (h | ⟨h | h, -⟩)
    · exact absurd (happ.symm.trans h) Bool.false_ne_true
    · exact hs h
    · exact hc h
  cases type with
  | nameShortened => exact hname .nameShortened (Or.inl rfl)
  | nameComplete => exact hname .nameComplete (Or.inr rfl)
  | gapAppearance =>
    cases data with
    | nil => exact hnone .gapAppearance rfl (by decide) (by decide)
    | cons lo data =>
      cases data with
      | nil => exact hnone .gapAppearance rfl (by decide) (by decide)
      | cons hi rest =>
        -- the first two bytes are the appearance
        simp [adParseCb, BtData.Matches, BtData.isMouseAppearance, BtData.IsName, le16s]
  | uuid16Some => exact hnone .uuid16Some rfl (by decide) (by decide)
  | uuid16All => exact hnone .uuid16All rfl (by decide) (by decide)
  | other => exact hnone .other rfl (by decide) (by decide)

/-- **The match flag is set when some AD structure sets it.** -/
theorem parseAd_isMatch :
    (parseAd (some filter) ad).isMatch = true ↔ ∃ d ∈ ad, d.Matches filter := by
  have hfold : ∀ ai : AdInfo, (ad.foldl (adParseCb (some filter)) ai).isMatch = true ↔
      ai.isMatch = true ∨ ∃ d ∈ ad, d.Matches filter := by
    induction ad with
    | nil => simp
    | cons d ad ih =>
      intro ai
      rw [List.foldl_cons, ih, adParseCb_isMatch, or_assoc, List.exists_mem_cons_iff]
  rw [parseAd, hfold, or_iff_right Bool.false_ne_true]

/-- The flag is set by the name itself, by a mouse Appearance, or by a name that is cut. -/
theorem carriesName_or_of_isMatch (h : (parseAd (some filter) ad).isMatch = true) :
    CarriesName filter ad ∨ HasMouseAppearance ad ∨ HasCutName filter ad := by
  rcases parseAd_isMatch.mp h with ⟨d, hd, happ | ⟨hname, hcut⟩⟩
  · exact Or.inr (Or.inl ⟨d, hd, happ⟩)
  · by_cases hexact : d.data = filter
    · exact Or.inl ⟨d, hd, hname, hexact⟩
    · exact Or.inr (Or.inr ⟨d, hd, hname, hexact, hcut⟩)

/-- A mouse Appearance and a name that is cut set the flag. -/
theorem isMatch_of_hasMouseAppearance_or (h : HasMouseAppearance ad ∨ HasCutName filter ad) :
    (parseAd (some filter) ad).isMatch = true := by
  rw [parseAd_isMatch]
  rcases h with ⟨d, hd, happ⟩ | ⟨d, hd, hname, -, hcut⟩
  · exact ⟨d, hd, Or.inl happ⟩
  · exact ⟨d, hd, Or.inr ⟨hname, hcut⟩⟩

/-! ### Exclusivity -/

/-- `device_found` ignores the report whatever it carries: the central is connected, the
advertising is of another type, or the advertiser has just failed pairing. -/
def Ignored (m : Central) (addr : Addr) (type : AdvType) : Prop :=
  m.defaultConn ≠ none ∨ type = .other ∨ inCooldown m addr

instance : Decidable (Ignored m addr type) := inferInstanceAs (Decidable (_ ∨ _))

/-- When an advertiser that is not bonded is a target. -/
theorem isTarget_iff_of_not_bonded (hbond : ¬ addrIsBonded m addr) :
    isTarget cfg m addr type ad ↔
      ¬ Ignored m addr type ∧ (parseAd cfg.nameFilter ad).isMatch = true := by
  unfold isTarget Ignored
  constructor
  · rintro ⟨hconn, htype, hmatch, hcool⟩
    refine ⟨?_, hmatch.resolve_left hbond⟩
    rintro (h | h | h)
    · exact h hconn
    · exact htype h
    · exact hcool ⟨hbond, h⟩
  · rintro ⟨hign, hmatch⟩
    push Not at hign
    exact ⟨hign.1, hign.2.1, Or.inr hmatch, fun h => hign.2.2 h.2⟩

/-- **The name filter is exclusive exactly where nothing else sets the match flag**: an
advertiser that is not bonded is connected to only if it carries the name, unless its
report has a mouse Appearance or a name that is cut to the filter, does not carry the name
itself, and is not ignored. -/
theorem nameFilter_exclusive_iff (cfg : Setup) (filter : List U8)
    (hfilter : cfg.nameFilter = some filter) (m : Central) (addr : Addr) (type : AdvType)
    (ad : List BtData) :
    (¬ addrIsBonded m addr → StartsConnection cfg m addr type ad → CarriesName filter ad) ↔
      addrIsBonded m addr ∨ Ignored m addr type ∨ CarriesName filter ad ∨
        ¬ (HasMouseAppearance ad ∨ HasCutName filter ad) := by
  by_cases hbond : addrIsBonded m addr
  · exact iff_of_true (fun h => absurd hbond h) (Or.inl hbond)
  rw [or_iff_right hbond, startsConnection_iff, isTarget_iff_of_not_bonded hbond, hfilter]
  constructor
  · intro hexcl
    by_cases hign : Ignored m addr type
    · exact Or.inl hign
    · right
      by_cases hset : HasMouseAppearance ad ∨ HasCutName filter ad
      · exact Or.inl (hexcl hbond ⟨hign, isMatch_of_hasMouseAppearance_or hset⟩)
      · exact Or.inr hset
  · rintro hcond - ⟨hign, hmatch⟩
    rcases hcond with h | h | h
    · exact absurd h hign
    · exact h
    · exact (carriesName_or_of_isMatch hmatch).resolve_right h

/-- A setup that is configured for the name `IST PRO`. -/
def filteredSetup : Setup :=
  ⟨some [0x49, 0x53, 0x54, 0x20, 0x50, 0x52, 0x4F], ⟨false, false⟩, fun _ => [], fun _ => []⟩

/-- A stranger that advertises a mouse Appearance and no name is connected to. -/
theorem filter_ignores_appearance :
    filteredSetup.nameFilter = some [0x49, 0x53, 0x54, 0x20, 0x50, 0x52, 0x4F] ∧
      ¬ (¬ addrIsBonded (Central.start [] 0) 7 →
        StartsConnection filteredSetup (Central.start [] 0) 7 .advInd
          [⟨.gapAppearance, [0xC2, 0x03]⟩] →
        CarriesName [0x49, 0x53, 0x54, 0x20, 0x50, 0x52, 0x4F]
          [⟨.gapAppearance, [0xC2, 0x03]⟩]) := by
  refine ⟨rfl, ?_⟩
  rw [startsConnection_iff]
  decide

/-- A keyboard of another name is not. -/
theorem filter_excludes_keyboard :
    ¬ StartsConnection filteredSetup (Central.start [] 0) 7 .advInd
      [⟨.gapAppearance, [0xC1, 0x03]⟩, ⟨.nameComplete, [0x4B, 0x42, 0x44]⟩] := by
  intro h
  have hname := (nameFilter_exclusive_iff filteredSetup [0x49, 0x53, 0x54, 0x20, 0x50, 0x52, 0x4F]
    rfl (Central.start [] 0) 7 .advInd
    [⟨.gapAppearance, [0xC1, 0x03]⟩, ⟨.nameComplete, [0x4B, 0x42, 0x44]⟩]).mpr (by decide)
    (by decide) h
  exact absurd hname (by decide)

end BleHidHost
