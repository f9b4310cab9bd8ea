import BleHidHost.HostDevice
import BleHidHost.Lib.Callback

/-!
# The central and the stack around it

The file-scope variables of the HOGP central, what the Bluetooth stack keeps for
it, and the calls between the two.  Variables that are only logged are left out,
and `disc_uuid` is the `uuid` of the discovery parameters that point to it.

## Main definitions

* `Globals` — the variables of the central.
* `Stack` — the link, the scanner, the procedures and subscriptions of the stack.
* `Pipeline` — the report queue and the virtual input device behind it.
* `Request`, `answer` — the calls into the stack, and what each answer brings about.
* `askOr` — a call, with what is done where it is refused.
-/

namespace BleHidHost

open Lib Lib.Prog

/-- `MAX_REPORTS`. -/
def maxReports : ℕ := 12

/-- `REPORT_MAP_MAX`. -/
def reportMapMax : ℕ := 512

/-- The capacity of `report_msgq`. -/
def reportQueueMax : ℕ := 16

/-- `sizeof(evt.data)`. -/
def reportDataMax : ℕ := 32

/-- `bt_addr_le_t`: the type octet and the six octets of the address. -/
abbrev Addr := BitVec 56

/-! ### Attributes and discovery -/

/-- `BT_UUID_HIDS`. -/
def uuidHids : U16 := 0x1812

/-- `BT_UUID_HIDS_REPORT_MAP`. -/
def uuidHidsReportMap : U16 := 0x2A4B

/-- `BT_UUID_HIDS_REPORT`. -/
def uuidHidsReport : U16 := 0x2A4D

/-- `BT_UUID_HIDS_REPORT_REF`. -/
def uuidHidsReportRef : U16 := 0x2908

/-- `BT_UUID_GATT_CCC`. -/
def uuidGattCcc : U16 := 0x2902

/-- `BT_ATT_FIRST_ATTRIBUTE_HANDLE`. -/
def firstAttributeHandle : U16 := 0x0001

/-- `BT_ATT_LAST_ATTRIBUTE_HANDLE`. -/
def lastAttributeHandle : U16 := 0xffff

/-- `BT_GATT_CHRC_NOTIFY`. -/
def chrcNotify : U8 := 0x10

/-- What a discovery looks for: `BT_GATT_DISCOVER_PRIMARY` and its siblings. -/
inductive DiscoverType where
  | primary
  | characteristic
  | descriptor
  deriving DecidableEq, Repr, Inhabited

/-- An attribute of a peer's GATT table that a discovery can deliver. -/
structure Attr where
  handle : U16
  type : DiscoverType
  uuid : U16
  /-- `end_handle` of a service, `value_handle` of a characteristic. -/
  value : U16
  /-- `properties` of a characteristic. -/
  properties : U8
  deriving DecidableEq, Repr, Inhabited

/-- `struct bt_gatt_discover_params`. -/
structure DiscoverParams where
  uuid : U16
  startHandle : U16
  endHandle : U16
  type : DiscoverType
  deriving DecidableEq, Repr, Inhabited

/-- The discovery delivers this attribute. -/
def DiscoverParams.Finds (p : DiscoverParams) (a : Attr) : Prop :=
  a.type = p.type ∧ a.uuid = p.uuid ∧ p.startHandle ≤ a.handle ∧ a.handle ≤ p.endHandle

instance (p : DiscoverParams) (a : Attr) : Decidable (p.Finds a) :=
  inferInstanceAs (Decidable (_ ∧ _))

/-- The next attribute that the discovery delivers, from a table in handle order. -/
def DiscoverParams.next (p : DiscoverParams) (table : List Attr) : Option Attr :=
  table.find? fun a => p.Finds a

/-- What is delivered is in the table, and is what was looked for. -/
theorem DiscoverParams.next_eq_some {p : DiscoverParams} {table : List Attr} {a : Attr}
    (h : p.next table = some a) : a ∈ table ∧ p.Finds a := by
  refine ⟨List.mem_of_find?_eq_some h, ?_⟩
  exact of_decide_eq_true (List.find?_some (p := fun a => decide (p.Finds a)) h)

/-- What is left of a discovery behind an attribute it delivered. -/
def DiscoverParams.after (p : DiscoverParams) (a : Attr) : DiscoverParams :=
  if a.handle < p.endHandle then { p with startHandle := a.handle + 1 }
  else { p with startHandle := firstAttributeHandle, endHandle := 0 }

/-- `enum disc_state`. -/
inductive DiscState where
  | idle
  | hidsPrimary
  | reportMapChrc
  | reportChrc
  | reportRef
  | ccc
  deriving DecidableEq, Repr, Inhabited

/-- A GATT procedure that the stack has accepted and not completed. -/
inductive Proc where
  | discover (p : DiscoverParams)
  /-- The read of the Report Map, and the bytes it has delivered so far. -/
  | readMap (handle : U16) (received : List U8)
  | readRef (handle : U16)
  deriving DecidableEq, Repr, Inhabited

/-- The procedure reads the Report Map. -/
def Proc.isMap : Proc → Bool
  | .readMap _ _ => true
  | _ => false

/-! ### The variables of the central -/

/-- `struct hid_subscription`: the fields the central writes, but for constants. -/
structure HidSubscription where
  valueHandle : U16
  cccHandle : U16
  reportId : U8
  deriving DecidableEq, Repr, Inhabited

/-- The file-scope variables of the central.  A connection reference is the
connection's number, and `rmBuf` and `pendingReports` keep their length. -/
structure Globals where
  defaultConn : Option ℕ
  discoverParams : DiscoverParams
  discState : DiscState
  hidsEndHandle : U16
  rmBuf : List U8
  rmLen : ℕ
  layout : ReportLayout
  layoutValid : Bool
  pendingReports : List U16
  pendingCount : ℕ
  pendingIdx : ℕ
  curReportId : U8
  subs : List HidSubscription
  subCount : ℕ
  lastFailedAddr : Addr
  lastFailedMs : U32
  deriving Repr

/-! ### The stack -/

/-- The link of the stack, whose number tells connections apart. -/
structure Link where
  conn : ℕ
  peer : Addr
  /-- The connection is established. -/
  up : Bool
  /-- A security procedure was requested and has not reported. -/
  securing : Bool
  /-- A disconnect request was accepted. -/
  disconnecting : Bool
  /-- The stack has reported success of a security procedure. -/
  secured : Bool
  deriving DecidableEq, Repr

/-- What the stack keeps.  A link's procedures and subscriptions end with it. -/
structure Stack where
  /-- The number of connections created so far, and the number of the next one. -/
  nextConn : ℕ
  link : Option Link
  scanning : Bool
  /-- `scan_retry_work` is pending. -/
  retryPending : Bool
  procs : List Proc
  /-- The indices into `subs` of the parameters registered for notifications. -/
  subscribed : List ℕ
  /-- The connections whose reference was released, one entry a release. -/
  unrefs : List ℕ
  bonds : List Addr
  /-- Milliseconds since boot. -/
  uptime : ℕ
  /-- Ghost: a report may be queued.  Set where one is put, cleared by the purge. -/
  mayQueue : Bool
  /-- Ghost: the Report Map read that was completed last, until a disconnect
  invalidates it. -/
  lastMap : Option (ℕ × List U8)
  deriving Repr

/-- The state the callbacks run on. -/
structure Central extends Globals, Stack
  deriving Repr

/-- The central at the end of bring-up, before its first scan. -/
def Central.start (bonds : List Addr) (uptime : ℕ) : Central where
  defaultConn := none
  discoverParams := ⟨0, 0, 0, .primary⟩
  discState := .idle
  hidsEndHandle := 0
  rmBuf := List.replicate reportMapMax 0
  rmLen := 0
  layout := .zero
  layoutValid := false
  pendingReports := List.replicate maxReports 0
  pendingCount := 0
  pendingIdx := 0
  curReportId := 0
  subs := List.replicate maxReports ⟨0, 0, 0⟩
  subCount := 0
  lastFailedAddr := 0
  lastFailedMs := 0
  nextConn := 0
  link := none
  scanning := false
  retryPending := false
  procs := []
  subscribed := []
  unrefs := []
  bonds := bonds
  uptime := uptime
  mayQueue := false
  lastMap := none

/-- `k_uptime_get_32`. -/
def kUptimeGet32 (m : Central) : U32 := BitVec.ofNat 32 m.uptime

/-! ### Reports on their way to the host -/

/-- `struct report_evt`; `len` is the length of `data`. -/
structure ReportEvt where
  valueHandle : U16
  reportId : U8
  data : List U8
  deriving DecidableEq, Repr

/-- What is recorded of a run. -/
inductive Observation where
  /-- The stack has completed a Report Map read of this connection, whose value was
  `bytes`. -/
  | mapRead (conn : ℕ) (bytes : List U8)
  /-- A report received on this connection was published, decoded with `layout`. -/
  | published (conn : ℕ) (evt : ReportEvt) (layoutValid : Bool) (layout : ReportLayout)
  /-- `disconnected` has set `layout_valid` to `false`, at the end of this connection. -/
  | invalidated (conn : ℕ)
  deriving DecidableEq, Repr

/-- The queue between the notifications and the work handler, and what it feeds. -/
structure Pipeline where
  /-- `report_msgq`, with the connection each report was received on. -/
  queue : List (ℕ × ReportEvt)
  /-- The number of reports the queue has rejected. -/
  dropped : ℕ
  host : Host
  trace : List Observation

/-- An empty queue before a host that has been told nothing. -/
def Pipeline.start (accepts : ℕ → Bool) : Pipeline := ⟨[], 0, .start accepts, []⟩

instance : Inhabited Pipeline := ⟨.start fun _ => true⟩

/-! ### Calls into the stack -/

/-- The parameters of a run that no callback changes. -/
structure Setup where
  /-- `name_filter`. -/
  nameFilter : Option (List U8)
  wheelKeys : WheelKeys
  /-- The GATT table, in handle order, of the peer that a connection reaches. -/
  table : ℕ → List Attr
  /-- What the parse of a map leaves in `layout` at the points where the handler may
  cut into it. -/
  partialLayouts : List U8 → List ReportLayout

/-- The return codes the central tells apart: `0`, `-EALREADY` and any other. -/
inductive Errno where
  | success
  | already
  | failure
  deriving DecidableEq, Repr, Inhabited

/-- The calls whose effect is the stack's. -/
inductive Request where
  | leScanStart
  | leScanStop
  | connLeCreate (peer : Addr)
  | connSetSecurity
  | connDisconnect
  | gattDiscover (p : DiscoverParams)
  | gattRead (p : Proc)
  | gattSubscribe (slot : ℕ)
  deriving DecidableEq, Repr

/-- What a call that succeeds brings about. -/
def granted (c : Request) (m : Central) : Central :=
  match c with
  | .leScanStart => { m with scanning := true }
  | .leScanStop => { m with scanning := false }
  | .connLeCreate peer =>
    { m with
      defaultConn := some m.nextConn
      nextConn := m.nextConn + 1
      link := some ⟨m.nextConn, peer, false, false, false, false⟩ }
  | .connSetSecurity => { m with link := m.link.map fun l => { l with securing := true } }
  | .connDisconnect => { m with link := m.link.map fun l => { l with disconnecting := true } }
  | .gattDiscover p => { m with procs := m.procs ++ [.discover p] }
  | .gattRead p => { m with procs := m.procs ++ [p] }
  | .gattSubscribe slot => { m with subscribed := slot :: m.subscribed }

/-- What an answer to a call brings about; `none` where the stack does not answer
so.  A scan start that fails leaves the scanner off, and a subscription that was
made already is made; else a call that fails changes nothing. -/
def answer (c : Request) (err : Errno) (m : Central) : Option Central :=
  match c, err with
  | .leScanStart, .already => if m.scanning then some m else none
  | .leScanStart, .failure => some { m with scanning := false }
  | .gattSubscribe slot, .already => some (granted (.gattSubscribe slot) m)
  | c, .success => some (granted c m)
  | _, _ => some m

/-- A callback of the central. -/
abbrev Callback := Prog Central Pipeline Request Errno

/-- `err = call(); if (err) { refused }`. -/
def askOr (c : Request) (refused : Callback Unit) : Callback Unit := do
  let err ← ask c
  if err ≠ .success then refused else pure ()

end BleHidHost
