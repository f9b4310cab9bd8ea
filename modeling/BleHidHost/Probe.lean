import BleHidHost.Connection
import BleHidHost.Lib.Sightings

/-!
# What the probe logs of the air

The probe firmware scans as the host does, and logs the advertisers it meets: each one of
interest once, and once more when it first gives a name.  It remembers 24 of them in a
table that is never cleared; an advertiser that finds the table full is logged each time.

## Main definitions

* `shouldLog` — the table's answer, and what it makes of the table.
* `logAdvert`, `scan` — what `device_found` logs of one report, and of a run of them.
* `sightings` — what of a run is of interest.

## Main results

* `scan_eq` — the table and the log are functions of the sightings.
* `logAdvert_iff` — a report is logged when it tells more than the table.
* `count_scan` — **the table bounds the log**, of the advertisers it holds and of no others.
-/

namespace BleHidHost.Probe

open Lib

/-! ### The table -/

/-- `MAX_SEEN`. -/
def maxSeen : ℕ := 24

/-- `struct seen_dev`. -/
structure SeenDev where
  addr : Addr
  named : Bool
  deriving DecidableEq, Repr

/-- The loop of `should_log`: the answer where the address has a row. -/
def findSeen : List SeenDev → Addr → Bool → Option (Bool × List SeenDev)
  | [], _, _ => none
  | d :: rest, addr, hasName =>
    if d.addr = addr then
      if hasName && !d.named then some (true, { d with named := true } :: rest)
      else some (false, d :: rest)
    else (findSeen rest addr hasName).map fun r => (r.1, d :: r.2)

/-- `should_log`, on the rows below `seen_count`. -/
def shouldLog (seen : List SeenDev) (addr : Addr) (hasName : Bool) : Bool × List SeenDev :=
  match findSeen seen addr hasName with
  | some r => r
  | none => (true, if seen.length < maxSeen then seen ++ [⟨addr, hasName⟩] else seen)

/-! ### Advertising reports -/

/-- An advertising report: whose it is, and its AD structures. -/
structure Advert where
  addr : Addr
  ad : List BtData
  deriving DecidableEq, Repr

/-- What `ad_parse_cb` makes of a report. -/
def Advert.info (a : Advert) : AdInfo := parseAd none a.ad

/-- The report carries a name. -/
def Advert.named (a : Advert) : Bool := a.info.name ≠ []

/-- The test of `device_found` that keeps nameless beacons out of the table. -/
def Advert.interesting (a : Advert) : Bool := a.info.isMatch || a.info.hasHids || a.named

/-- The table, and what was logged. -/
structure Record where
  seen : List SeenDev
  log : List (Addr × AdInfo)
  deriving DecidableEq, Repr

/-- What `device_found` does before it looks for a target. -/
def logAdvert (r : Record) (a : Advert) : Record :=
  if a.interesting then
    let (fresh, seen) := shouldLog r.seen a.addr a.named
    ⟨seen, if fresh then r.log ++ [(a.addr, a.info)] else r.log⟩
  else r

/-- A run of reports, from an empty table. -/
def scan (as : List Advert) : Record := as.foldl logAdvert ⟨[], []⟩

theorem scan_concat (as : List Advert) (a : Advert) : scan (as ++ [a]) = logAdvert (scan as) a := by
  rw [scan, List.foldl_append]
  rfl

/-- What of a run is of interest: the addresses, and whether they came with a name. -/
def sightings (as : List Advert) : List (Addr × Bool) :=
  (as.filter Advert.interesting).map fun a => (a.addr, a.named)

theorem sightings_concat (as : List Advert) (a : Advert) : sightings (as ++ [a]) =
    sightings as ++ if a.interesting then [(a.addr, a.named)] else [] := by
  rw [sightings, List.filter_append, List.map_append, List.filter_singleton]
  cases a.interesting with
  | true => rfl
  | false => rfl

/-! ### The table as a function of the sightings -/

/-- The row of an address behind a history. -/
def row (h : List (Addr × Bool)) (addr : Addr) : SeenDev := ⟨addr, decide ((addr, true) ∈ h)⟩

/-- The table behind a history. -/
def tableOf (h : List (Addr × Bool)) : List SeenDev := (firstSeen maxSeen h).map (row h)

variable {h : List (Addr × Bool)} {addr : Addr} {hasName : Bool}

@[simp] theorem row_addr (h : List (Addr × Bool)) (addr : Addr) : (row h addr).addr = addr := rfl

/-- A sighting does not change the rows of other addresses. -/
theorem map_row_concat {ks : List Addr} (hks : addr ∉ ks) :
    ks.map (row (h ++ [(addr, hasName)])) = ks.map (row h) := by
  refine List.map_congr_left fun k hk => ?_
  have hne : k ≠ addr := fun heq => hks (heq ▸ hk)
  simp [row, hne]

/-- The loop answers for the addresses that have a row. -/
theorem findSeen_map_row (ks : List Addr) (hks : ks.Nodup) :
    findSeen (ks.map (row h)) addr hasName =
      if addr ∈ ks then
        some (decide (hasName ∧ (addr, true) ∉ h), ks.map (row (h ++ [(addr, hasName)])))
      else none := by
  induction ks with
  | nil => rfl
  | cons k ks ih =>
    obtain ⟨hk, hks⟩ := List.nodup_cons.mp hks
    rw [List.map_cons, List.map_cons, findSeen, row_addr]
    by_cases heq : k = addr
    · subst heq
      -- the row is this one, and the others keep theirs
      rw [map_row_concat hk, if_pos rfl, if_pos List.mem_cons_self]
      cases hasName <;> by_cases hmem : (k, true) ∈ h <;> simp [row, hmem]
    · have hrow : row (h ++ [(addr, hasName)]) k = row h k := by simp [row, heq]
      have hne : addr ≠ k := fun hak => heq hak.symm
      rw [if_neg heq, ih hks, hrow]
      by_cases hmem : addr ∈ ks
      · rw [if_pos hmem, if_pos (List.mem_cons_of_mem k hmem), Option.map_some]
      · rw [if_neg hmem, if_neg (List.not_mem_cons_of_ne_of_not_mem hne hmem), Option.map_none]

/-- **The table answers by the history**, and is the table of the longer one. -/
theorem shouldLog_tableOf (h : List (Addr × Bool)) (addr : Addr) (hasName : Bool) :
    shouldLog (tableOf h) addr hasName =
      (decide (Novel maxSeen h (addr, hasName)), tableOf (h ++ [(addr, hasName)])) := by
  have hnodup : (firstSeen maxSeen h).Nodup := nodup_firstSeen maxSeen h
  rw [shouldLog, tableOf, findSeen_map_row _ hnodup]
  by_cases hrow : addr ∈ firstSeen maxSeen h
  · rw [if_pos hrow]
    have hsame : firstSeen maxSeen (h ++ [(addr, hasName)]) = firstSeen maxSeen h := by
      rw [firstSeen_concat, if_pos (Or.inl hrow)]
    rw [tableOf, hsame]
    simp [Novel, hrow]
  · rw [if_neg hrow, List.length_map]
    have hnovel : Novel maxSeen h (addr, hasName) := Or.inl hrow
    have hle := length_firstSeen_le maxSeen h
    refine Prod.ext (decide_eq_true hnovel).symm ?_
    by_cases hfull : (firstSeen maxSeen h).length = maxSeen
    · rw [tableOf, firstSeen_concat, if_pos (Or.inr hfull), map_row_concat hrow]
      exact if_neg (by omega)
    · have hfirst : (addr, true) ∉ h := fun hmem =>
        hfull (length_firstSeen_of_notMem (List.mem_map_of_mem hmem) hrow)
      rw [tableOf, firstSeen_concat, if_neg (not_or.mpr ⟨hrow, hfull⟩), List.map_append,
        map_row_concat hrow]
      refine (if_pos (by omega)).trans ?_
      cases hasName <;> simp [row, hfirst]

/-- **The table and the log** behind a run are those of its sightings. -/
theorem scan_eq (as : List Advert) : (scan as).seen = tableOf (sightings as) ∧
    (scan as).log.map Prod.fst = told maxSeen [] (sightings as) := by
  induction as using List.reverseRecOn with
  | nil => exact ⟨rfl, rfl⟩
  | append_singleton as a ih =>
    obtain ⟨hseen, hlog⟩ := ih
    rw [scan_concat, sightings_concat, logAdvert]
    split
    · rw [hseen, shouldLog_tableOf, told_concat, List.nil_append, ← hlog]
      refine ⟨rfl, ?_⟩
      by_cases hnovel : Novel maxSeen (sightings as) (a.addr, a.named)
      · simp [hnovel]
      · simp [hnovel]
    · rw [List.append_nil]
      exact ⟨hseen, hlog⟩

/-- **A report is logged when it is of interest and tells more than the table**: its address
was not among the first 24 of interest, or it is the first to name it. -/
theorem logAdvert_iff (as : List Advert) (a : Advert) : (scan (as ++ [a])).log =
    (scan as).log ++
      if a.interesting ∧ Novel maxSeen (sightings as) (a.addr, a.named) then [(a.addr, a.info)]
      else [] := by
  rw [scan_concat, logAdvert]
  by_cases hint : a.interesting
  · rw [if_pos hint, (scan_eq as).1, shouldLog_tableOf]
    by_cases hnovel : Novel maxSeen (sightings as) (a.addr, a.named)
    · rw [if_pos ⟨hint, hnovel⟩]
      exact if_pos (decide_eq_true hnovel)
    · rw [if_neg fun hboth => hnovel hboth.2, List.append_nil]
      exact if_neg fun heq => hnovel (of_decide_eq_true heq)
  · rw [if_neg hint, if_neg fun hboth => hint hboth.1, List.append_nil]

/-- **An advertiser that has a row was logged** when it was given the row. -/
theorem one_le_count_scan (as : List Advert) (addr : Addr)
    (h : addr ∈ firstSeen maxSeen (sightings as)) :
    1 ≤ ((scan as).log.map Prod.fst).count addr := by
  induction as using List.reverseRecOn with
  | nil => exact absurd h List.not_mem_nil
  | append_singleton as a ih =>
    rw [logAdvert_iff, List.map_append, List.count_append]
    by_cases hrow : addr ∈ firstSeen maxSeen (sightings as)
    · exact (ih hrow).trans (Nat.le_add_right _ _)
    · -- the row is new, so this report tells more than the table
      rw [sightings_concat] at h
      have hint : a.interesting := by
        by_contra hno
        rw [if_neg hno, List.append_nil] at h
        exact hrow h
      rw [if_pos hint, firstSeen_concat] at h
      have haddr : addr = a.addr := by
        split at h
        · exact absurd h hrow
        · exact (List.mem_append.mp h).elim (absurd · hrow) List.mem_singleton.mp
      subst haddr
      rw [if_pos ⟨hint, Or.inl hrow⟩]
      simp

/-- **The table bounds the log.**  However often an advertiser is met, one that is among the
first 24 of interest is logged once, and once more at most, if it was met with a name; any
other is logged each time it is of interest. -/
theorem count_scan (as : List Advert) (addr : Addr) :
    if addr ∈ firstSeen maxSeen (sightings as) then
      1 ≤ ((scan as).log.map Prod.fst).count addr ∧
        ((scan as).log.map Prod.fst).count addr ≤ if (addr, true) ∈ sightings as then 2 else 1
    else ((scan as).log.map Prod.fst).count addr = ((sightings as).map Prod.fst).count addr := by
  split
  · next hrow =>
    refine ⟨one_le_count_scan as addr hrow, ?_⟩
    rw [(scan_eq as).2]
    exact count_told_le hrow
  · next hrow =>
    rw [(scan_eq as).2]
    exact count_told_of_notMem hrow

/-- The name comes in the scan response, behind the service. -/
example : (scan [⟨7, [⟨.uuid16All, [0x12, 0x18]⟩]⟩, ⟨7, [⟨.uuid16All, [0x12, 0x18]⟩]⟩,
    ⟨7, [⟨.nameComplete, [0x49, 0x53, 0x54]⟩]⟩, ⟨7, [⟨.nameComplete, [0x49, 0x53, 0x54]⟩]⟩]).log =
    [(7, ⟨false, true, 0, []⟩), (7, ⟨true, false, 0, [0x49, 0x53, 0x54]⟩)] := by
  decide

end BleHidHost.Probe
