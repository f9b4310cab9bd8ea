import BleHidHost.Connection
import BleHidHost.Decode

/-!
# The running system

The central among everything that acts on it: peers that advertise, a stack that
answers the central's calls and enters its callbacks, and the work handler, which
may run between any two actions of a callback.

## Main definitions

* `reportWorkTurn` — one turn of the loop of the work handler.
* `Event`, `enter` — what may happen between two callbacks, and when.
* `central` — the machine.
* `Reachable` — the states of its runs.

## Main results

* `reportWorkHandler_eq_run` — a run of the handler is a sequence of its turns.
-/

namespace BleHidHost

open Lib Lib.Prog

/-! ### The work handler -/

/-- The handler passes this report to the decoder. -/
def isPointerReport (m : Central) (evt : ReportEvt) : Prop :=
  m.layoutValid ∧ ¬ (m.subCount ≠ 1 ∧ evt.reportId ≠ m.layout.reportId)

instance (m : Central) (evt : ReportEvt) : Decidable (isPointerReport m evt) :=
  inferInstanceAs (Decidable (_ ∧ _))

/-- What the handler decodes of a report it has taken from the queue. -/
def handlerDecode (m : Central) (evt : ReportEvt) : Option PointerReport :=
  if isPointerReport m evt then zmkHidDecodeReport m.layout evt.data else none

/-- `ble_hid_host_publish(host_dev, &report)`, recorded. -/
def publishReport (cfg : Setup) (m : Central) (conn : ℕ) (evt : ReportEvt) (r : PointerReport)
    (io : Pipeline) : Pipeline :=
  { io with
    host := bleHidHostPublish cfg.wheelKeys io.host r
    trace := io.trace ++ [.published conn evt m.layoutValid m.layout] }

/-- One turn of the loop of `report_work_handler`. -/
def reportWorkTurn (cfg : Setup) (m : Central) (io : Pipeline) : Pipeline :=
  match io.queue with
  | [] => io
  | (conn, evt) :: rest =>
    match handlerDecode m evt with
    | none => { io with queue := rest }
    | some r => publishReport cfg m conn evt r { io with queue := rest }

/-- `report_work_handler`: the loop ends when the queue is empty. -/
def reportWorkHandler (cfg : Setup) (m : Central) (io : Pipeline) : Pipeline :=
  (reportWorkTurn cfg m)^[io.queue.length] io

/-! ### Events -/

/-- What may happen between two callbacks. -/
inductive Event where
  /-- An advertising report, which may be late. -/
  | advertise (addr : Addr) (type : AdvType) (ad : List BtData)
  /-- `scan_retry_work` expires. -/
  | scanRetry
  /-- The connection that was requested is established, or has failed. -/
  | connected (err : Bool)
  | securityChanged (level : ℕ) (err : Bool)
  | disconnected
  /-- The discovery at this place of `procs` delivers its next attribute. -/
  | discovered (n : ℕ)
  /-- The discovery at this place of `procs` has ended, at its range's end or with an
  error. -/
  | discoverDone (n : ℕ)
  /-- The read at this place of `procs` has a response. -/
  | readResponse (n : ℕ) (err : Bool) (data : List U8)
  | notified (slot : ℕ) (data : List U8)
  | unsubscribed (slot : ℕ)
  | timePasses (ms : ℕ)
  /-- The bonds have changed. -/
  | bonded (bonds : List Addr)
  deriving DecidableEq, Repr

/-- `security_changed` reports that the link is encrypted. -/
def reportsSecured (level : ℕ) (err : Bool) : Bool := !err && decide (2 ≤ level)

/-- The established link. -/
def upLink (m : Central) : Option Link := m.link.filter Link.up

/-- The stack's side of a discovery callback: it goes on if it is told to. -/
def deliver (p : DiscoverParams) (a : Attr) : Callback Unit := do
  match ← discoverFunc (some a) with
  | .continue => assign fun m => { m with procs := m.procs ++ [.discover (p.after a)] }
  | .stop => pure ()

/-- The stack's side of a Report Map callback: it reads on if it is told to. -/
def respondMap (cfg : Setup) (handle : U16) (received : List U8) (err : Bool) (data : List U8) :
    Callback Unit := do
  match ← reportMapReadCb cfg err data with
  | .continue => assign fun m => { m with procs := m.procs ++ [.readMap handle (received ++ data)] }
  | .stop => pure ()

/-- The stack's side of a Report Reference callback. -/
def respondRef (err : Bool) (data : List U8) : Callback Unit := do
  let _ ← reportRefReadCb err data

/-- The stack's side of the callback at a discovery's end. -/
def finishDiscover : Callback Unit := do
  let _ ← discoverFunc none

/-- The procedure at this place has completed, or waits for its callback's word. -/
def takeProc (n : ℕ) (m : Central) : Central := { m with procs := m.procs.eraseIdx n }

/-- The end of a Report Map read, recorded. -/
def recordMapRead (conn : ℕ) (received : List U8) (err : Bool) (data : List U8) (io : Pipeline) :
    Pipeline :=
  if ¬ err ∧ data = [] then { io with trace := io.trace ++ [.mapRead conn received] } else io

/-- The same, in the ghost variable. -/
def noteMapRead (conn : ℕ) (received : List U8) (err : Bool) (data : List U8) (m : Central) :
    Central :=
  { m with lastMap := if ¬ err ∧ data = [] then some (conn, received) else m.lastMap }

/-- A GATT event of the procedure `p`, which stands at place `n`, on the link of `conn`. -/
def enterProc (cfg : Setup) (conn n : ℕ) (p : Proc) (e : Event) (m : Central) (io : Pipeline) :
    Option (Central × Pipeline × Callback Unit) :=
  match e, p with
  | .discovered _, .discover q =>
    (q.next (cfg.table conn)).map fun a => (takeProc n m, io, deliver q a)
  | .discoverDone _, .discover _ => some (takeProc n m, io, finishDiscover)
  | .readResponse _ err data, .readMap handle received =>
    some (noteMapRead conn received err data (takeProc n m),
      recordMapRead conn received err data io, respondMap cfg handle received err data)
  | .readResponse _ err data, .readRef _ => some (takeProc n m, io, respondRef err data)
  | _, _ => none

/-- The stack's side of an event, and the callback it enters; `none` where the event
cannot occur. -/
def enter (cfg : Setup) (e : Event) (m : Central) (io : Pipeline) :
    Option (Central × Pipeline × Callback Unit) :=
  match e with
  | .advertise addr type ad => some (m, io, deviceFound cfg addr type ad)
  | .scanRetry =>
    if m.retryPending then some ({ m with retryPending := false }, io, scanRetryHandler) else none
  | .connected err =>
    m.link.bind fun l =>
      if l.up then none
      else some ({ m with link := if err then none else some { l with up := true } }, io,
        connected err)
  | .securityChanged level err =>
    (upLink m).map fun l =>
      ({ m with
          link := some { l with
            securing := false
            secured := l.secured || reportsSecured level err } }, io,
        securityChanged l.peer level err)
  | .disconnected =>
    -- what was outstanding on the link ends with it
    m.link.map fun l =>
      ({ m with link := none, procs := [], subscribed := [] }, io, disconnected cfg l.conn)
  | .discovered n | .discoverDone n | .readResponse n _ _ =>
    (upLink m).bind fun l => m.procs[n]?.bind fun p => enterProc cfg l.conn n p e m io
  | .notified slot data =>
    (upLink m).bind fun l =>
      if slot ∈ m.subscribed then some (m, io, notifyCb l.conn slot data) else none
  | .unsubscribed slot =>
    if slot ∈ m.subscribed then
      some ({ m with subscribed := m.subscribed.erase slot }, io, unsubscribed slot)
    else none
  | .timePasses ms => some ({ m with uptime := m.uptime + ms }, io, pure ())
  | .bonded bonds => some ({ m with bonds := bonds }, io, pure ())

/-! ### The machine -/

/-- The central and its surroundings. -/
def central (cfg : Setup) : Machine Central Pipeline Request Errno Event :=
  ⟨answer, reportWorkTurn cfg, enter cfg⟩

/-- A state of the system. -/
abbrev System := Configuration Central Pipeline Request Errno

/-- A condition on the steps of a run. -/
abbrev Condition := Policy Central Pipeline Request Errno Event

/-- Bring-up has come to its first scan. -/
def start (bonds : List Addr) (uptime : ℕ) (accepts : ℕ → Bool) : System :=
  ⟨.start bonds uptime, .start accepts, startScan⟩

/-- A state that a run reaches whose steps all meet the condition. -/
def Reachable (cfg : Setup) (P : Condition) (s : System) : Prop :=
  ∃ bonds uptime accepts, (central cfg).ReachedUnder P (start bonds uptime accepts) s

/-- The state behind a list of actions, from bring-up without bonds. -/
def stateAfter (cfg : Setup) (as : List (Action Errno Event)) : Option System :=
  run (central cfg).step as (start [] 0 fun _ => true)

/-- The actions meet the condition. -/
def Meeting (cfg : Setup) (P : Condition) (as : List (Action Errno Event)) : Prop :=
  Along (central cfg).step (fun s a => Machine.meets P s a) as (start [] 0 fun _ => true)

instance (cfg : Setup) (P : Condition) (as : List (Action Errno Event)) :
    Decidable (Meeting cfg P as) :=
  inferInstanceAs (Decidable (Along _ _ _ _))

theorem reachable_stateAfter {cfg : Setup} {P : Condition} {as : List (Action Errno Event)}
    {s : System} (hok : Meeting cfg P as) (h : stateAfter cfg as = some s) : Reachable cfg P s :=
  ⟨[], 0, fun _ => true, Reaches.refl.of_run hok h⟩

/-- A setup without a name filter or wheel keys, whose peers all have this table. -/
def Setup.plain (table : List Attr) : Setup := ⟨none, ⟨false, false⟩, fun _ => table, fun _ => []⟩

/-! ### A peer and its discovery -/

/-- The callback that runs takes `n` actions. -/
def ticks (n : ℕ) : List (Action Errno Event) := List.replicate n .tick

/-- The callback that runs takes `n` actions, and the call it comes to succeeds. -/
def succeedsAfter (n : ℕ) : List (Action Errno Event) := ticks n ++ [.answer .success]

/-- A peer whose HID service has a Report Map and these notifiable reports, each with a
Report Reference and a CCC. -/
def reportTable (handles : List U16) : List Attr :=
  [⟨1, .primary, uuidHids, 32, 0⟩, ⟨2, .characteristic, uuidHidsReportMap, 3, 0x02⟩] ++
    handles.flatMap fun h =>
      [⟨h, .characteristic, uuidHidsReport, h + 1, 0x12⟩,
       ⟨h + 2, .descriptor, uuidHidsReportRef, 0, 0⟩, ⟨h + 3, .descriptor, uuidGattCcc, 0, 0⟩]

/-- A Report Map with eight-bit X and Y under Report ID 1. -/
def pointerMap : List U8 :=
  [0x05, 0x01, 0x09, 0x02, 0xa1, 0x01, 0x85, 0x01, 0x09, 0x30, 0x09, 0x31, 0x15, 0x81,
   0x75, 0x08, 0x95, 0x02, 0x81, 0x06, 0xc0]

/-- From bring-up to an encrypted link, up to the request of the first discovery. -/
def connectRun : List (Action Errno Event) :=
  succeedsAfter 0 ++ [.event (.advertise 7 .advInd [⟨.gapAppearance, [0xC2, 0x03]⟩])] ++
    succeedsAfter 1 ++ succeedsAfter 0 ++ [.event (.connected false)] ++ succeedsAfter 0 ++
    [.event (.securityChanged 2 false)] ++ ticks 3

/-- On to the parsed Report Map, and to the discovery of the reports. -/
def parseRun : List (Action Errno Event) :=
  connectRun ++ [.answer .success, .event (.discovered 0)] ++ succeedsAfter 3 ++
    [.event (.discovered 0)] ++ succeedsAfter 2 ++ [.event (.readResponse 0 false pointerMap)] ++
    ticks 2 ++ [.event (.readResponse 0 false [])] ++ succeedsAfter 7

/-- On, past `n` report characteristics, to the subscription of the first, whose Report
Reference has this id. -/
def subscribeRun (n : ℕ) (id : U8) : List (Action Errno Event) :=
  parseRun ++ (List.replicate n (.event (.discovered 0) :: ticks 3)).flatten ++
    [.event (.discoverDone 0)] ++ succeedsAfter 6 ++ [.event (.discovered 0)] ++ succeedsAfter 1 ++
    [.event (.readResponse 0 false [id, 1])] ++ succeedsAfter 3 ++ [.event (.discovered 0)] ++
    succeedsAfter 3 ++ ticks 4

/-- A notification, and a turn of the handler. -/
def notifiedTurn (slot : ℕ) (data : List U8) : List (Action Errno Event) :=
  [.event (.notified slot data), .tick, .work]

/-! ### Turns of the handler -/

section Turns

variable {cfg : Setup} {m : Central} {io : Pipeline} {conn : ℕ} {evt : ReportEvt}
  {rest : List (ℕ × ReportEvt)}

/-- On an empty queue the handler does nothing. -/
theorem reportWorkTurn_nil (h : io.queue = []) : reportWorkTurn cfg m io = io := by
  rw [reportWorkTurn, h]

/-- A report that is filtered out, or does not decode, is taken from the queue. -/
theorem reportWorkTurn_none (h : io.queue = (conn, evt) :: rest)
    (hevt : handlerDecode m evt = none) :
    reportWorkTurn cfg m io = { io with queue := rest } := by
  simp only [reportWorkTurn, h, hevt]

/-- A report that decodes is published. -/
theorem reportWorkTurn_some (h : io.queue = (conn, evt) :: rest) {r : PointerReport}
    (hevt : handlerDecode m evt = some r) :
    reportWorkTurn cfg m io = publishReport cfg m conn evt r { io with queue := rest } := by
  simp only [reportWorkTurn, h, hevt]

/-- What the handler decodes has passed its filter. -/
theorem isPointerReport_of_handlerDecode {r : PointerReport} (h : handlerDecode m evt = some r) :
    isPointerReport m evt :=
  (Option.ite_none_right_eq_some.mp h).1

end Turns

/-- A turn takes one report from the queue. -/
theorem reportWorkTurn_queue (cfg : Setup) (m : Central) (io : Pipeline) :
    (reportWorkTurn cfg m io).queue = io.queue.tail := by
  unfold reportWorkTurn
  split
  · next h => rw [h, List.tail_nil]
  · next h =>
    rw [h, List.tail_cons]
    split <;> rfl

/-- The handler leaves an empty queue. -/
theorem reportWorkHandler_queue (cfg : Setup) (m : Central) (io : Pipeline) :
    (reportWorkHandler cfg m io).queue = [] := by
  have hdrop (n : ℕ) : ((reportWorkTurn cfg m)^[n] io).queue = io.queue.drop n := by
    induction n with
    | zero => rfl
    | succ n ih =>
      rw [Function.iterate_succ_apply', reportWorkTurn_queue, ih, List.tail_drop]
  rw [reportWorkHandler, hdrop, List.drop_length]

/-- **A run of the handler is a sequence of turns**, one for each report queued. -/
theorem reportWorkHandler_eq_run (cfg : Setup) (s : System) :
    run (central cfg).step (List.replicate s.io.queue.length .work) s =
      some { s with io := reportWorkHandler cfg s.main s.io } := by
  have hturns (n : ℕ) (t : System) : run (central cfg).step (List.replicate n .work) t =
      some { t with io := (reportWorkTurn cfg t.main)^[n] t.io } := by
    induction n generalizing t with
    | zero => rfl
    | succ n ih =>
      rw [List.replicate_succ, run]
      exact ih { t with io := reportWorkTurn cfg t.main t.io }
  exact hturns _ s

end BleHidHost
