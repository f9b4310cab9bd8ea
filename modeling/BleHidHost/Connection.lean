import BleHidHost.Discovery

/-!
# Scanning and the connection

The callbacks that scan for a peer, choose one by its advertising, and follow its
connection from the request to the disconnect.

## Main definitions

* `startScan`, `scanRetryHandler` — the scan, and its retry.
* `deviceFound` — an advertising report.
* `connected`, `securityChanged`, `disconnected` — the connection callbacks.
* `notifyCb` — a notification.
-/

namespace BleHidHost

open Lib Lib.Prog

/-! ### Scanning -/

/-- `start_scan`: a start that fails is retried later. -/
def startScan : Callback Unit := do
  let err ← ask .leScanStart
  -- already scanning is no failure
  if err = .already then pure ()
  else if err ≠ .success then assign fun m => { m with retryPending := true }
  else pure ()

/-- `scan_retry_handler`. -/
def scanRetryHandler : Callback Unit := do
  let m ← look
  if m.defaultConn = none then startScan else pure ()

/-! ### Advertising -/

/-- The advertising types that `device_found` connects on, and any other. -/
inductive AdvType where
  | advInd
  | advDirectInd
  | extAdv
  | other
  deriving DecidableEq, Repr, Inhabited

/-- The types of an AD structure that `ad_parse_cb` tells apart. -/
inductive BtDataType where
  | uuid16Some
  | uuid16All
  | gapAppearance
  | nameShortened
  | nameComplete
  | other
  deriving DecidableEq, Repr, Inhabited

/-- `struct bt_data`: one AD structure. -/
structure BtData where
  type : BtDataType
  data : List U8
  deriving DecidableEq, Repr

/-- `struct ad_info`; `name` is the string in the source's array. -/
structure AdInfo where
  isMatch : Bool
  hasHids : Bool
  appearance : U16
  name : List U8
  deriving DecidableEq, Repr

/-- `APPEARANCE_MOUSE`. -/
def appearanceMouse : U16 := 0x03C2

/-- `FAIL_COOLDOWN_MS`. -/
def failCooldownMs : U32 := 8000

/-- `sys_get_le16`. -/
def sysGetLe16 (lo hi : U8) : U16 := hi.setWidth 16 <<< 8 ||| lo.setWidth 16

/-- The 16-bit values of an AD structure; an odd last byte is left out. -/
def le16s : List U8 → List U16
  | lo :: hi :: rest => sysGetLe16 lo hi :: le16s rest
  | _ => []

/-- The string in a buffer: the bytes before the first zero. -/
def cString (bytes : List U8) : List U8 := bytes.takeWhile (· ≠ 0)

/-- `strstr`, as a test. -/
def strstr (haystack needle : List U8) : Bool := haystack.tails.any needle.isPrefixOf

/-- The names that the heuristic looks for: `"IST"`, `"ELECOM"` and `"ELE"`. -/
def pointerNames : List (List U8) :=
  [[0x49, 0x53, 0x54], [0x45, 0x4C, 0x45, 0x43, 0x4F, 0x4D], [0x45, 0x4C, 0x45]]

/-- The name test of `ad_parse_cb`: the filter exactly, or else the heuristic. -/
def nameMatches (nameFilter : Option (List U8)) (name : List U8) : Bool :=
  match nameFilter with
  | some filter => name == filter
  | none => pointerNames.any (strstr name)

/-- `ad_parse_cb`. -/
def adParseCb (nameFilter : Option (List U8)) (ai : AdInfo) (d : BtData) : AdInfo :=
  match d.type with
  | .uuid16Some | .uuid16All =>
    { ai with hasHids := ai.hasHids || (le16s d.data).contains uuidHids }
  | .gapAppearance =>
    match d.data with
    | lo :: hi :: _ =>
      { ai with
        appearance := sysGetLe16 lo hi
        isMatch := ai.isMatch || sysGetLe16 lo hi == appearanceMouse }
    | _ => ai
  | .nameShortened | .nameComplete =>
    -- the array holds 31 bytes and the final zero
    let name := cString (d.data.take 31)
    { ai with name := name, isMatch := ai.isMatch || nameMatches nameFilter name }
  | .other => ai

/-- `bt_data_parse(ad, ad_parse_cb, &ai)`. -/
def parseAd (nameFilter : Option (List U8)) (ad : List BtData) : AdInfo :=
  ad.foldl (adParseCb nameFilter) ⟨false, false, 0, []⟩

/-- `addr_is_bonded`. -/
def addrIsBonded (m : Central) (addr : Addr) : Bool := m.bonds.contains addr

/-- The advertiser has just failed pairing. -/
def inCooldown (m : Central) (addr : Addr) : Prop :=
  addr = m.lastFailedAddr ∧ kUptimeGet32 m - m.lastFailedMs < failCooldownMs

instance (m : Central) (addr : Addr) : Decidable (inCooldown m addr) :=
  inferInstanceAs (Decidable (_ ∧ _))

/-- The tests of `device_found` before it connects. -/
def isTarget (cfg : Setup) (m : Central) (addr : Addr) (type : AdvType) (ad : List BtData) : Prop :=
  m.defaultConn = none ∧ type ≠ .other ∧
    (addrIsBonded m addr ∨ (parseAd cfg.nameFilter ad).isMatch) ∧
    ¬ (¬ addrIsBonded m addr ∧ inCooldown m addr)

instance (cfg : Setup) (m : Central) (addr : Addr) (type : AdvType) (ad : List BtData) :
    Decidable (isTarget cfg m addr type ad) :=
  inferInstanceAs (Decidable (_ ∧ _ ∧ _ ∧ _))

/-- The connection request of `device_found`. -/
def connectTo (addr : Addr) : Callback Unit := do
  let err ← ask .leScanStop
  if err ≠ .success then pure () else askOr (.connLeCreate addr) startScan

/-- `device_found`. -/
def deviceFound (cfg : Setup) (addr : Addr) (type : AdvType) (ad : List BtData) :
    Callback Unit := do
  let m ← look
  if isTarget cfg m addr type ad then connectTo addr else pure ()

/-! ### The connection callbacks -/

/-- `bt_conn_unref(default_conn)`. -/
def unrefDefaultConn : Callback Unit :=
  assign fun m => { m with unrefs := m.unrefs ++ m.defaultConn.toList }

/-- `connected`. -/
def connected (err : Bool) : Callback Unit :=
  if err then do
    unrefDefaultConn
    assign fun m => { m with defaultConn := none }
    startScan
  else
    -- discovery waits for the link to be encrypted
    askOr .connSetSecurity (pure ())

/-- The failure branch of `security_changed`. -/
def securityFailed (peer : Addr) : Callback Unit := do
  assign fun m => { m with lastFailedAddr := peer, lastFailedMs := kUptimeGet32 m }
  askOr .connDisconnect (pure ())

/-- `security_changed`; the level is that of `bt_security_t`. -/
def securityChanged (peer : Addr) (level : ℕ) (err : Bool) : Callback Unit :=
  if err ∨ level < 2 then securityFailed peer else startDiscovery

/-- `layout_valid = false` on a disconnect, recorded. -/
def invalidateLayout (conn : ℕ) : Callback Unit :=
  emit (fun m => { m with layoutValid := false, lastMap := none }) fun _ io =>
    { io with trace := io.trace ++ [.invalidated conn] }

/-- `disconnected`.  The host is reset in one action: the queue is empty by then,
so the handler has nothing to publish. -/
def disconnected (cfg : Setup) (conn : ℕ) : Callback Unit := do
  let m ← look
  if m.defaultConn ≠ some conn then pure ()
  else do
    unrefDefaultConn
    assign fun m => { m with defaultConn := none }
    assign fun m => { m with subCount := 0 }
    assign fun m => { m with pendingCount := 0, pendingIdx := 0, discState := .idle }
    invalidateLayout conn
    assign fun m => { m with rmLen := 0 }
    emit (fun m => { m with mayQueue := false }) fun _ io => { io with queue := [] }
    emit id fun _ io => { io with host := bleHidHostReset cfg.wheelKeys io.host }
    startScan

/-! ### Notifications -/

/-- The copy that `notify_cb` makes: the first 32 bytes, tagged with the report's id. -/
def reportEvt (sub : HidSubscription) (data : List U8) : ReportEvt :=
  ⟨sub.valueHandle, sub.reportId, data.take reportDataMax⟩

/-- `k_msgq_put(&report_msgq, &evt, K_NO_WAIT)`. -/
def msgqPut (conn : ℕ) (evt : ReportEvt) (io : Pipeline) : Pipeline :=
  if io.queue.length < reportQueueMax then { io with queue := io.queue ++ [(conn, evt)] }
  else { io with dropped := io.dropped + 1 }

/-- `subs[slot]`. -/
def subscription (m : Central) (slot : ℕ) : HidSubscription := m.subs.getD slot ⟨0, 0, 0⟩

/-- `notify_cb` on a notification of the connection `conn`. -/
def notifyCb (conn slot : ℕ) (data : List U8) : Callback Unit :=
  emit (fun m => { m with mayQueue := true }) fun m io =>
    msgqPut conn (reportEvt (subscription m slot) data) io

/-- `notify_cb` without data: the subscription was torn down. -/
def unsubscribed (slot : ℕ) : Callback Unit :=
  assign fun m => { m with subs := m.subs.modify slot fun s => { s with valueHandle := 0 } }

end BleHidHost
