import BleHidHost.Central
import BleHidHost.Parser

/-!
# GATT discovery

The callbacks that find the HID service of a connected peer, read its Report Map,
and subscribe to its reports one by one.  Assignments that the work handler does
not read stand in one action with their neighbours.

## Main definitions

* `startDiscovery` — the entry point, once the link is encrypted.
* `discoverFunc` — the callback of every discovery.
* `reportMapReadCb`, `reportRefReadCb` — the callbacks of the two reads.
-/

namespace BleHidHost

open Lib Lib.Prog

/-- `BT_GATT_ITER_CONTINUE` and `BT_GATT_ITER_STOP`. -/
inductive Iter where
  | continue
  | stop
  deriving DecidableEq, Repr, Inhabited

/-- `err = bt_gatt_discover(conn, &discover_params); if (err) { refused }`. -/
def discoverOr (refused : Callback Unit) : Callback Unit := do
  let m ← look
  askOr (.gattDiscover m.discoverParams) refused

/-- `disc_state = DISC_IDLE`. -/
def discIdle : Callback Unit := assign fun m => { m with discState := .idle }

/-- `pending_reports[pending_idx]`. -/
def pendingReport (m : Central) : U16 := m.pendingReports.getD m.pendingIdx 0

/-- `cur_report_end_handle`: the last handle before the next pending report's
characteristic declaration. -/
def curReportEndHandle (m : Central) : U16 :=
  if m.pendingIdx + 1 < m.pendingCount then m.pendingReports.getD (m.pendingIdx + 1) 0 - 1
  else m.hidsEndHandle

/-- The parameters of a search for a descriptor of the current report. -/
def descriptorParams (m : Central) (uuid : U16) : DiscoverParams :=
  ⟨uuid, pendingReport m + 1, curReportEndHandle m, .descriptor⟩

/-! ### Wiring the pending reports -/

/-- `discover_ccc`. -/
def discoverCcc : Callback Unit := do
  assign fun m => { m with discoverParams := descriptorParams m uuidGattCcc, discState := .ccc }
  discoverOr discIdle

/-- `subscribe_pending` for a report that is left. -/
def discoverReportRef : Callback Unit := do
  assign fun m => { m with
    curReportId := 0
    discoverParams := descriptorParams m uuidHidsReportRef
    discState := .reportRef }
  discoverOr discoverCcc

/-- `subscribe_pending`. -/
def subscribePending : Callback Unit := do
  let m ← look
  if m.pendingCount ≤ m.pendingIdx then discIdle else discoverReportRef

/-- `start_report_discovery`. -/
def startReportDiscovery : Callback Unit := do
  assign fun m => { m with pendingCount := 0, pendingIdx := 0 }
  assign fun m => { m with subCount := 0 }
  assign fun m => { m with
    discoverParams := ⟨uuidHidsReport, firstAttributeHandle, m.hidsEndHandle, .characteristic⟩
    discState := .reportChrc }
  discoverOr discIdle

/-! ### The Report Map -/

/-- `read_report_map`. -/
def readReportMap (valueHandle : U16) : Callback Unit := do
  assign fun m => { m with rmLen := 0 }
  askOr (.gattRead (.readMap valueHandle [])) startReportDiscovery

/-- `memcpy(rm_buf + rm_len, data, n); rm_len += n`, with `n` bounded by the room in
the arithmetic of the source. -/
def storeChunk (m : Central) (data : List U8) : Central :=
  let n := min data.length ((reportMapMax + 2 ^ 16 - m.rmLen) % 2 ^ 16)
  { m with
    rmBuf := m.rmBuf.take m.rmLen ++ data.take n ++ m.rmBuf.drop (m.rmLen + n)
    rmLen := m.rmLen + n }

/-- `rm_buf[0 .. rm_len)`. -/
def reportMap (m : Central) : List U8 := m.rmBuf.take m.rmLen

/-- The parser's writes to `layout`, one action each. -/
def writeLayouts : List ReportLayout → Callback Unit
  | [] => pure ()
  | l :: ls => do
    assign fun m => { m with layout := l }
    writeLayouts ls

/-- The parse at the end of the read, which makes `layout` valid last. -/
def parseReportMap (cfg : Setup) : Callback Unit := do
  let m ← look
  writeLayouts (cfg.partialLayouts (reportMap m))
  assign fun m => { m with layout := (zmkHidParseReportMap (reportMap m)).2 }
  if (zmkHidParseReportMap (reportMap m)).1 = 0 ∧ (zmkHidParseReportMap (reportMap m)).2.valid then
    assign fun m => { m with layoutValid := true }
  else pure ()

/-- `report_map_read_cb`; `data = []` stands for `NULL` too. -/
def reportMapReadCb (cfg : Setup) (err : Bool) (data : List U8) : Callback Iter :=
  if err then do
    startReportDiscovery
    pure .stop
  else if data ≠ [] then do
    assign fun m => storeChunk m data
    pure .continue
  else do
    parseReportMap cfg
    startReportDiscovery
    pure .stop

/-! ### The Report Reference -/

/-- `report_ref_read_cb`; `data = []` stands for `NULL` too. -/
def reportRefReadCb (err : Bool) (data : List U8) : Callback Iter := do
  assign fun m => { m with curReportId := if err then 0 else data.headD 0 }
  discoverCcc
  pure .stop

/-- `read_report_ref`. -/
def readReportRef (handle : U16) : Callback Unit :=
  askOr (.gattRead (.readRef handle)) do
    assign fun m => { m with curReportId := 0 }
    discoverCcc

/-! ### Discovery results -/

/-- The service result: go on to the Report Map characteristic. -/
def discoverReportMap (attr : Attr) : Callback Unit := do
  assign fun m => { m with
    hidsEndHandle := attr.value
    discoverParams := ⟨uuidHidsReportMap, attr.handle + 1, attr.value, .characteristic⟩
    discState := .reportMapChrc }
  discoverOr discIdle

/-- The characteristic result: keep a Report that notifies. -/
def collectReport (attr : Attr) (m : Central) : Central :=
  if attr.properties &&& chrcNotify ≠ 0 ∧ m.pendingCount < maxReports then
    { m with
      pendingReports := m.pendingReports.set m.pendingCount attr.value
      pendingCount := m.pendingCount + 1 }
  else m

/-- The subscription for the current report. -/
def subscribeReport (attr : Attr) : Callback Unit := do
  let m ← look
  if m.subCount < maxReports then do
    assign fun m => { m with
      subs := m.subs.set m.subCount ⟨pendingReport m, attr.handle, m.curReportId⟩ }
    let err ← ask (.gattSubscribe m.subCount)
    if err ≠ .success ∧ err ≠ .already then pure ()
    else assign fun m => { m with subCount := m.subCount + 1 }
  else pure ()

/-- The CCC result: subscribe, and go on to the next report. -/
def wireReport (attr : Attr) : Callback Unit := do
  subscribeReport attr
  assign fun m => { m with pendingIdx := m.pendingIdx + 1 }
  subscribePending

/-- `discover_func` on an attribute. -/
def discovered (attr : Attr) : Callback Iter := do
  let m ← look
  match m.discState with
  | .hidsPrimary => do
    discoverReportMap attr
    pure .stop
  | .reportMapChrc => do
    readReportMap attr.value
    pure .stop
  | .reportChrc => do
    assign (collectReport attr)
    pure .continue
  | .reportRef => do
    readReportRef attr.handle
    pure .stop
  | .ccc => do
    wireReport attr
    pure .stop
  | .idle => pure .stop

/-- The end of the pass that collects the reports. -/
def reportsCollected : Callback Unit := do
  let m ← look
  if m.pendingCount = 0 then discIdle
  else do
    assign fun m => { m with pendingIdx := 0 }
    subscribePending

/-- `discover_func` at the end of a pass. -/
def discoverDone : Callback Unit := do
  let m ← look
  match m.discState with
  -- no Report Map: go on without a layout
  | .reportMapChrc => startReportDiscovery
  | .reportChrc => reportsCollected
  -- no Report Reference: keep id 0 and subscribe
  | .reportRef => discoverCcc
  | .ccc => do
    -- no CCC: skip the report
    assign fun m => { m with pendingIdx := m.pendingIdx + 1 }
    subscribePending
  | .hidsPrimary => pure ()
  | .idle => pure ()

/-- `discover_func`. -/
def discoverFunc : Option Attr → Callback Iter
  | some attr => discovered attr
  | none => do
    discoverDone
    pure .stop

/-- `start_discovery`. -/
def startDiscovery : Callback Unit := do
  assign fun m => { m with layoutValid := false }
  assign fun m => { m with
    hidsEndHandle := 0
    discoverParams := ⟨uuidHids, firstAttributeHandle, lastAttributeHandle, .primary⟩
    discState := .hidsPrimary }
  -- a refusal is logged only
  discoverOr (pure ())

end BleHidHost
