import BleHidHost.Lib.Log
import BleHidHost.Sequence
import BleHidHost.Tables

/-!
# Wiring the reports

After the Report characteristics are collected the central wires them one by one: it looks
for the Report Reference of each, reads it, looks for its CCC and subscribes.  The loop is
spread over callbacks that the stack enters later, so what it has done is written to a log.

## Main definitions

* `WiringLog`, `wiringScribe` — what is written of the wiring.
* `collectsWhole`, `cccAccepted` — conditions on the steps of a run.
* `Sourced` — a subscription whose handles were found where they are looked for.
* `Tally`, `Progress` — how far the wiring has come.

## Main results

* `reachable_iff_loggedReachable` — every run has a log.
* `Progress.visit`, `Progress.skip`, `Progress.wire` — **what one round of the loop keeps.**
-/

namespace BleHidHost

open Lib

/-! ### The log -/

/-- What is written of the wiring since it began; `reads` goes back to bring-up. -/
structure WiringLog where
  /-- The pass that collects the reports has ended. -/
  collected : Bool
  /-- The reports whose Report Reference was looked for. -/
  visited : List U16
  /-- The reports whose CCC was found. -/
  found : List U16
  /-- The reports that `bt_gatt_subscribe` was called for. -/
  attempted : List U16
  /-- The Report IDs that were read: the report, the descriptor and the ID. -/
  idsRead : List (U16 × U16 × U8)
  /-- The indexes at which `pending_reports` was read, each with `pending_count`. -/
  reads : List (ℕ × ℕ)
  /-- The stack has ended a subscription. -/
  tornDown : Bool
  deriving DecidableEq, Repr

/-- Nothing is written. -/
def WiringLog.start : WiringLog := ⟨false, [], [], [], [], [], false⟩

/-- The wiring begins anew. -/
def WiringLog.restart (log : WiringLog) : WiringLog := { WiringLog.start with reads := log.reads }

/-- `pending_reports[pending_idx]` is read. -/
def WiringLog.read (log : WiringLog) (m : Central) : WiringLog :=
  { log with reads := log.reads ++ [(m.pendingIdx, m.pendingCount)] }

/-- The range of a search for a descriptor is read off `pending_reports`. -/
def WiringLog.readWindow (log : WiringLog) (m : Central) : WiringLog :=
  { log with
    reads := log.reads ++ (m.pendingIdx, m.pendingCount) ::
      if m.pendingIdx + 1 < m.pendingCount then [(m.pendingIdx + 1, m.pendingCount)] else [] }

/-- What is written at a call. -/
def noteCall (m : Central) (c : Request) (log : WiringLog) : WiringLog :=
  match c with
  | .gattDiscover p =>
    if p.uuid = uuidHidsReport then log.restart
    else if p.uuid = uuidHidsReportRef then
      { log.readWindow m with visited := log.visited ++ [pendingReport m] }
    else if p.uuid = uuidGattCcc then log.readWindow m
    else log
  | .gattSubscribe slot =>
    { log.read m with attempted := log.attempted ++ [(subscription m slot).valueHandle] }
  | _ => log

/-- The Report ID that a response of the read of this procedure gives. -/
def noteResponse (m : Central) (err : Bool) (data : List U8) (log : WiringLog) : Proc → WiringLog
  | .readRef h =>
    { log with
      idsRead := log.idsRead ++ [(pendingReport m, h, if err then 0 else data.headD 0)] }
  | _ => log

/-- What is written at an event. -/
def noteEvent (m : Central) (e : Event) (log : WiringLog) : WiringLog :=
  match e with
  | .disconnected => log.restart
  | .discovered _ =>
    if m.discState = .ccc then { log with found := log.found ++ [pendingReport m] } else log
  | .discoverDone _ =>
    match m.discState with
    | .reportChrc => { log with collected := true }
    -- the report that is skipped is named in a message
    | .ccc => log.read m
    | _ => log
  | .readResponse n err data => (m.procs[n]?).elim log (noteResponse m err data log)
  | .unsubscribed _ => { log with tornDown := true }
  | _ => log

/-- The scribe of the wiring. -/
def wiringScribe : Scribe Central Request Errno Event WiringLog where
  onAnswer m c _ := noteCall m c
  onEvent := noteEvent

/-- Every read of `pending_reports` was below `pending_count`. -/
def InBounds (log : WiringLog) : Prop := ∀ r ∈ log.reads, r.1 < r.2

instance (log : WiringLog) : Decidable (InBounds log) := inferInstanceAs (Decidable (∀ r ∈ _, _))

/-- A run whose steps all meet the condition reaches the state, and has this log. -/
def LoggedReachable (cfg : Setup) (P : Condition) (s : System) (log : WiringLog) : Prop :=
  ∃ bonds uptime accepts,
    (central cfg).LoggedUnder P wiringScribe (start bonds uptime accepts) .start s log

/-- What holds of the logged runs holds of all runs. -/
theorem reachable_iff_loggedReachable {cfg : Setup} {P : Condition} {s : System} :
    Reachable cfg P s ↔ ∃ log, LoggedReachable cfg P s log := by
  constructor
  · rintro ⟨bonds, uptime, accepts, h⟩
    rcases (Machine.reachedUnder_iff_loggedUnder wiringScribe .start).mp h with ⟨log, hlog⟩
    exact ⟨log, bonds, uptime, accepts, hlog⟩
  · rintro ⟨log, bonds, uptime, accepts, h⟩
    exact ⟨bonds, uptime, accepts, h.reachedUnder⟩

/-- The state and the log behind a list of actions, from bring-up without bonds. -/
def loggedAfter (cfg : Setup) (as : List (Action Errno Event)) : Option (System × WiringLog) :=
  run ((central cfg).loggedStep wiringScribe) as (start [] 0 fun _ => true, .start)

/-- The actions meet the condition. -/
def LoggedMeeting (cfg : Setup) (P : Condition) (as : List (Action Errno Event)) : Prop :=
  Along ((central cfg).loggedStep wiringScribe) (fun s a => Machine.meets P s.1 a) as
    (start [] 0 fun _ => true, .start)

instance (cfg : Setup) (P : Condition) (as : List (Action Errno Event)) :
    Decidable (LoggedMeeting cfg P as) :=
  inferInstanceAs (Decidable (Along _ _ _ _))

theorem loggedReachable_loggedAfter {cfg : Setup} {P : Condition} {as : List (Action Errno Event)}
    {s : System} {log : WiringLog} (hok : LoggedMeeting cfg P as)
    (h : loggedAfter cfg as = some (s, log)) : LoggedReachable cfg P s log :=
  ⟨[], 0, fun _ => true, Reaches.refl.of_run hok h⟩

/-! ### Conditions -/

/-- The discovery at this place has nothing left to deliver. -/
def passEnded (cfg : Setup) (m : Central) (n : ℕ) : Bool :=
  match m.link, m.procs[n]? with
  | some l, some (.discover q) => (q.next (cfg.table l.conn)).isNone
  | _, _ => true

/-- The pass that collects the reports ends at its range's end, not with an error. -/
def collectsWhole (cfg : Setup) : Condition where
  onAnswer _ _ _ := true
  onEvent m e :=
    match e with
    | .discoverDone n => decide (m.discState = .reportChrc → passEnded cfg m n)
    | _ => true
  onWork _ _ := true

/-- No search for a CCC is refused. -/
def cccAccepted : Condition where
  onAnswer _ c err :=
    match c with
    | .gattDiscover p => p.uuid != uuidGattCcc || err == .success
    | _ => true
  onEvent _ _ := true
  onWork _ _ := true

/-- Then the answer to such a search is success. -/
theorem eq_success_of_cccAccepted {P : Condition} (h : P.Stricter cccAccepted) {m : Central}
    {p : DiscoverParams} {err : Errno} (hp : p.uuid = uuidGattCcc)
    (hP : P.onAnswer m (.gattDiscover p) err) : err = .success := by
  have hacc := h.onAnswer _ _ _ hP
  simpa [cccAccepted, hp] using hacc

/-! ### Where handles are found -/

/-- The Report ID is 0, or was read from the descriptor found for the `k`-th report. -/
def IdSourced (table : List Attr) (log : WiringLog) (k : ℕ) (id : U8) : Prop :=
  id = 0 ∨ ∃ d, (searchWindow table k uuidHidsReportRef).next table = some d ∧
    ((pendingOf table).getD k 0, d.handle, id) ∈ log.idsRead

/-- A subscription for the `k`-th report, whose CCC was found where it is looked for. -/
structure SourcedAt (table : List Attr) (log : WiringLog) (k : ℕ) (s : HidSubscription) : Prop where
  lt : k < (pendingOf table).length
  value : s.valueHandle = (pendingOf table).getD k 0
  ccc : ∃ a, (searchWindow table k uuidGattCcc).next table = some a ∧ a.handle = s.cccHandle
  id : IdSourced table log k s.reportId

/-- A subscription for a pending report. -/
def Sourced (table : List Attr) (log : WiringLog) (s : HidSubscription) : Prop :=
  ∃ k, SourcedAt table log k s

theorem IdSourced.mono {table : List Attr} {log log' : WiringLog} {k : ℕ} {id : U8}
    (h : IdSourced table log k id) (hsub : log.idsRead ⊆ log'.idsRead) :
    IdSourced table log' k id :=
  h.imp_right fun ⟨d, hd, hmem⟩ => ⟨d, hd, hsub hmem⟩

theorem Sourced.mono {table : List Attr} {log log' : WiringLog} {s : HidSubscription}
    (h : Sourced table log s) (hsub : log.idsRead ⊆ log'.idsRead) : Sourced table log' s := by
  rcases h with ⟨k, hk⟩
  exact ⟨k, hk.lt, hk.value, hk.ccc, hk.id.mono hsub⟩

/-! ### Progress -/

/-- The arrays of the wiring and their indexes. -/
structure Tally where
  pendingReports : List U16
  pendingCount : ℕ
  pendingIdx : ℕ
  subs : List HidSubscription
  subCount : ℕ

/-- The tally of a state. -/
def tally (m : Central) : Tally :=
  ⟨m.pendingReports, m.pendingCount, m.pendingIdx, m.subs, m.subCount⟩

/-- The arrays have their sizes. -/
structure Lengths (t : Tally) : Prop where
  pending : t.pendingReports.length = maxReports
  subs : t.subs.length = maxReports

/-- The first `k` pending reports were visited, and those before the current one are done
with. -/
structure Progress (table : List Attr) (t : Tally) (log : WiringLog) (k : ℕ) : Prop where
  lengths : Lengths t
  collected : log.collected = true
  count_le : t.pendingCount ≤ maxReports
  idx_le : t.pendingIdx ≤ t.pendingCount
  subCount_le : t.subCount ≤ t.pendingIdx
  pending : t.pendingReports.take t.pendingCount = pendingOf table
  visited : log.visited = (pendingOf table).take k
  found : log.found.Sublist ((pendingOf table).take t.pendingIdx)
  matched : log.attempted = log.found
  sources : ∀ s ∈ t.subs.take t.subCount, s.valueHandle = 0 ∨ Sourced table log s
  distinct : log.tornDown = false →
    ((t.subs.take t.subCount).map HidSubscription.valueHandle).Sublist
      ((pendingOf table).take t.pendingIdx)

section Progress

variable {table : List Attr} {t : Tally} {log : WiringLog} {k : ℕ}

theorem Progress.length_eq (h : Progress table t log k) :
    (pendingOf table).length = t.pendingCount := by
  rw [← h.pending, List.length_take, h.lengths.pending, Nat.min_eq_left h.count_le]

/-- What the array holds below `pending_count` are the reports. -/
theorem Progress.getD (h : Progress table t log k) {i : ℕ} (hi : i < t.pendingCount) :
    t.pendingReports.getD i 0 = (pendingOf table).getD i 0 := by
  rw [← h.pending, List.getD_eq_getElem?_getD, List.getD_eq_getElem?_getD,
    List.getElem?_take_of_lt hi]

/-- One report more. -/
theorem Progress.take_succ (h : Progress table t log k) (hidx : t.pendingIdx < t.pendingCount) :
    (pendingOf table).take (t.pendingIdx + 1) =
      (pendingOf table).take t.pendingIdx ++ [(pendingOf table).getD t.pendingIdx 0] := by
  have hlt : t.pendingIdx < (pendingOf table).length := by
    rw [h.length_eq]
    exact hidx
  rw [List.take_succ_eq_append_getElem hlt, List.getD_eq_getElem?_getD,
    List.getElem?_eq_getElem hlt, Option.getD_some]

/-- The reads that are written do not matter. -/
theorem Progress.reads (h : Progress table t log k) (reads : List (ℕ × ℕ)) :
    Progress table t { log with reads := reads } k :=
  ⟨h.lengths, h.collected, h.count_le, h.idx_le, h.subCount_le, h.pending, h.visited, h.found,
    h.matched, fun s hs => (h.sources s hs).imp_right fun hsrc => hsrc.mono fun _ hr => hr,
    h.distinct⟩

/-- A Report ID is read. -/
theorem Progress.readId (h : Progress table t log k) (read : U16 × U16 × U8) :
    Progress table t { log with idsRead := log.idsRead ++ [read] } k :=
  ⟨h.lengths, h.collected, h.count_le, h.idx_le, h.subCount_le, h.pending, h.visited, h.found,
    h.matched, fun s hs => (h.sources s hs).imp_right fun hsrc =>
      hsrc.mono fun _ hr => List.mem_append_left _ hr, h.distinct⟩

/-- **The current report is visited.** -/
theorem Progress.visit (h : Progress table t log t.pendingIdx)
    (hidx : t.pendingIdx < t.pendingCount) (reads : List (ℕ × ℕ)) :
    Progress table t
      { log with
        visited := log.visited ++ [t.pendingReports.getD t.pendingIdx 0]
        reads := reads } (t.pendingIdx + 1) := by
  refine ⟨h.lengths, h.collected, h.count_le, h.idx_le, h.subCount_le, h.pending, ?_, h.found,
    h.matched, fun s hs => (h.sources s hs).imp_right fun hsrc => hsrc.mono fun _ hr => hr,
    h.distinct⟩
  rw [h.take_succ hidx, h.getD hidx]
  exact congrArg (· ++ _) h.visited

/-- What precedes the current report precedes the next one. -/
theorem take_idx_sublist (table : List Attr) (i : ℕ) :
    ((pendingOf table).take i).Sublist ((pendingOf table).take (i + 1)) :=
  List.take_sublist_take_left (Nat.le_succ i)

/-- **The current report is skipped.** -/
theorem Progress.skip (h : Progress table t log k) (hidx : t.pendingIdx < t.pendingCount) :
    Progress table { t with pendingIdx := t.pendingIdx + 1 } log k where
  lengths := ⟨h.lengths.pending, h.lengths.subs⟩
  collected := h.collected
  count_le := h.count_le
  idx_le := hidx
  subCount_le := Nat.le_succ_of_le h.subCount_le
  pending := h.pending
  visited := h.visited
  found := h.found.trans (take_idx_sublist table t.pendingIdx)
  matched := h.matched
  sources := h.sources
  distinct hkept := (h.distinct hkept).trans (take_idx_sublist table t.pendingIdx)

/-- **The current report, whose CCC was found, is subscribed or refused.** -/
theorem Progress.wire (h : Progress table t log k) (hidx : t.pendingIdx < t.pendingCount)
    {s : HidSubscription} (hs : SourcedAt table log t.pendingIdx s) (reads : List (ℕ × ℕ)) {n : ℕ}
    (hn : n = t.subCount ∨ n = t.subCount + 1) :
    Progress table
      { t with
        subs := t.subs.set t.subCount s
        subCount := n
        pendingIdx := t.pendingIdx + 1 }
      { log with
        found := log.found ++ [s.valueHandle]
        attempted := log.attempted ++ [s.valueHandle]
        reads := reads } k := by
  have hlast := h.take_succ hidx
  rw [← hs.value] at hlast
  have hkeep : (t.subs.set t.subCount s).take t.subCount = t.subs.take t.subCount :=
    List.take_set_of_le (Nat.le_refl _)
  have hroom : t.subCount < t.subs.length := by
    have hidx' := h.subCount_le
    have hcount := h.count_le
    rw [h.lengths.subs]
    omega
  -- the subscription stands behind those that were made
  have hmade : (t.subs.set t.subCount s).take (t.subCount + 1) = t.subs.take t.subCount ++ [s] := by
    rw [List.take_succ_eq_append_getElem (by rw [List.length_set]; exact hroom), hkeep,
      List.getElem_set_self]
  refine ⟨⟨h.lengths.pending, ?_⟩, h.collected, h.count_le, hidx, ?_, h.pending, h.visited, ?_, ?_,
    ?_, ?_⟩
  · rw [List.length_set]
    exact h.lengths.subs
  · have := h.subCount_le
    simp only
    omega
  · simp only
    rw [hlast]
    exact h.found.append (List.Sublist.refl _)
  · exact congrArg (· ++ _) h.matched
  · intro s' hs'
    rcases hn with rfl | rfl
    · rw [hkeep] at hs'
      exact (h.sources s' hs').imp_right fun hsrc => hsrc.mono fun _ hr => hr
    · rw [hmade] at hs'
      rcases List.mem_append.mp hs' with hold | hnew
      · exact (h.sources s' hold).imp_right fun hsrc => hsrc.mono fun _ hr => hr
      · rw [List.mem_singleton.mp hnew]
        exact Or.inr ⟨t.pendingIdx, hs.lt, hs.value, hs.ccc, hs.id.mono fun _ hr => hr⟩
  · intro hkept
    have hold := h.distinct hkept
    rcases hn with rfl | rfl
    · simp only
      rw [hkeep]
      exact hold.trans (take_idx_sublist table t.pendingIdx)
    · simp only
      rw [hmade, hlast, List.map_append, List.map_singleton]
      exact hold.append (List.Sublist.refl _)

end Progress

end BleHidHost
