import BleHidHost.Capacity
import BleHidHost.Isolation
import BleHidHost.Motion

/-!
# What a peer can tell the host

Between a peer and the host stand the copy of a notification, the queue, the filter, the
decoder and the publish.  Behind any traffic that loses nothing, the host was told a
sequence of reports in range of the layout; and where the fields of the layout lie apart,
every such sequence can be told, report by report.

## Main definitions

* `Tuned` — the central between two callbacks, ready for reports on a slot.
* `Hears` — traffic that loses nothing leads the host there.

## Main results

* `Tuned.tell` — a report in range can be told.
* `hears_iff_inRange` — **what the host can hear is what is in range.**
-/

namespace BleHidHost

open Lib Lib.Prog

/-- The central rests with a valid layout, an empty queue and the slot subscribed, whose
reports pass the filter. -/
structure Tuned (slot : ℕ) (s : System) : Prop where
  idle : s.Idle
  layoutValid : s.main.layoutValid
  queue : s.io.queue = []
  up : ∃ l, s.main.link = some l ∧ l.up
  subscribed : slot ∈ s.main.subscribed
  counts : (subscription s.main slot).reportId = s.main.layout.reportId ∨ s.main.subCount = 1

/-- Traffic that loses nothing, and that the handler is done with, leads the host from where
it is to `h`. -/
def Hears (cfg : Setup) (s : System) (h : Host) : Prop :=
  ∃ as s', (∀ a ∈ as, IsTraffic a) ∧ run (central cfg).step as s = some s' ∧ s'.Idle ∧
    s'.io.queue = [] ∧ s'.io.dropped = s.io.dropped ∧ s'.io.host = h

variable {cfg : Setup} {slot : ℕ} {s : System} {r : PointerReport}

/-- **A report in range can be told**: some payload carries it to the host, and the central
is as ready as before. -/
theorem Tuned.tell (h : Tuned slot s) (hvalid : s.main.layout.valid)
    (hsized : s.main.layout.Sized) (hapart : s.main.layout.Apart)
    (hfits : payloadBits s.main.layout ≤ 8 * reportDataMax) (hr : s.main.layout.InRange r) :
    ∃ p s', run (central cfg).step [.event (.notified slot p), .tick, .work] s = some s' ∧
      Tuned slot s' ∧ s'.main.layout = s.main.layout ∧ s'.io.dropped = s.io.dropped ∧
      s'.io.host = bleHidHostPublish cfg.wheelKeys s.io.host r := by
  obtain ⟨m, io, q⟩ := s
  obtain ⟨hidle, hlayout, hqueue, ⟨l, hl, hup⟩, hslot, hcounts⟩ := h
  cases hidle
  -- a payload that fits in the copy carries the report
  let p := bytesOf reportDataMax
    (overlay m.layout.place (m.layout.number r) m.layout.pieces)
  have hlen : p.length = reportDataMax := length_bytesOf _ _
  have hmotion : motion m (slot, p) = some r := by
    rw [motion, if_pos hcounts, ← hlen, List.take_length]
    exact carries_of_apart hvalid hsized hapart hr hfits
  let evt := reportEvt (subscription m slot) p
  let m' : Central := { m with mayQueue := true }
  have hput : msgqPut l.conn evt io = { io with queue := [(l.conn, evt)] } := by
    have hnil : io.queue = [] := hqueue
    rw [msgqPut, hnil, if_pos (by decide), List.nil_append]
  have hdecode : handlerDecode m' evt = some r :=
    (handlerDecode_reportEvt (m := m) hlayout slot p).trans hmotion
  have hturn : reportWorkTurn cfg m' { io with queue := [(l.conn, evt)] } =
      publishReport cfg m' l.conn evt r { io with queue := [] } :=
    reportWorkTurn_some rfl hdecode
  refine ⟨p, ⟨m', publishReport cfg m' l.conn evt r { io with queue := [] }, .ret ()⟩, ?_, ?_⟩
  · have henter : enter cfg (.notified slot p) m io = some (m, io, notifyCb l.conn slot p) := by
      rw [enter, upLink, hl, Option.filter_some, if_pos hup, Option.bind_some, if_pos hslot]
    have hnotified : (central cfg).step ⟨m, io, .ret ()⟩ (.event (.notified slot p)) =
        some ⟨m, io, notifyCb l.conn slot p⟩ := by
      simp only [Machine.step, central_enter, henter, Option.map_some]
    have hcopied : (central cfg).step ⟨m, io, notifyCb l.conn slot p⟩ .tick =
        some ⟨m', { io with queue := [(l.conn, evt)] }, .ret ()⟩ := by
      rw [← hput]
      rfl
    have hworked : (central cfg).step ⟨m', { io with queue := [(l.conn, evt)] }, .ret ()⟩ .work =
        some ⟨m', publishReport cfg m' l.conn evt r { io with queue := [] }, .ret ()⟩ := by
      rw [← hturn]
      rfl
    exact run_cons_eq_some.mpr ⟨_, hnotified, run_cons_eq_some.mpr ⟨_, hcopied,
      run_cons_eq_some.mpr ⟨_, hworked, rfl⟩⟩⟩
  · exact ⟨⟨rfl, hlayout, rfl, ⟨l, hl, hup⟩, hslot, hcounts⟩, rfl, rfl, rfl⟩

/-- Any reports in range can be told, one after another. -/
theorem Tuned.tell_all (h : Tuned slot s) (hvalid : s.main.layout.valid)
    (hsized : s.main.layout.Sized) (hapart : s.main.layout.Apart)
    (hfits : payloadBits s.main.layout ≤ 8 * reportDataMax) {rs : List PointerReport}
    (hrs : ∀ r ∈ rs, s.main.layout.InRange r) :
    Hears cfg s (publishAll cfg.wheelKeys s.io.host rs) := by
  induction rs generalizing s with
  | nil => exact ⟨[], s, fun a ha => absurd ha List.not_mem_nil, rfl, h.idle, h.queue, rfl, rfl⟩
  | cons r rs ih =>
    obtain ⟨hr, hrs⟩ := List.forall_mem_cons.mp hrs
    obtain ⟨p, t, hrun, htuned, hlayout, hdropped, hhost⟩ := h.tell hvalid hsized hapart hfits hr
    rw [← hlayout] at hvalid hsized hapart hfits hrs
    obtain ⟨as, s', htraffic, hrest, hidle, hqueue, hdropped', hhost'⟩ :=
      ih htuned hvalid hsized hapart hfits hrs
    refine ⟨[.event (.notified slot p), .tick, .work] ++ as, s', ?_, ?_, hidle, hqueue,
      hdropped'.trans hdropped, ?_⟩
    · intro a ha
      rcases List.mem_append.mp ha with ha | ha
      · simp only [List.mem_cons, List.not_mem_nil, or_false] at ha
        rcases ha with rfl | rfl | rfl
        · exact ⟨slot, p, rfl⟩
        · trivial
        · trivial
      · exact htraffic a ha
    · rw [run_append, hrun]
      exact hrest
    · rw [hhost', hhost]
      rfl

/-- Whatever is heard is in range. -/
theorem inRange_of_hears (hidle : s.Idle) (hqueue : s.io.queue = []) (hvalid : s.main.layoutValid)
    (hsized : s.main.layout.Sized) {h : Host} (hhears : Hears cfg s h) :
    ∃ rs, (∀ r ∈ rs, s.main.layout.InRange r) ∧ h = publishAll cfg.wheelKeys s.io.host rs := by
  obtain ⟨as, s', htraffic, hrun, hidle', hqueue', hkept, rfl⟩ := hhears
  have hstart : Serving s.main s [] := ⟨rfl, Or.inl ⟨hidle, rfl⟩⟩
  obtain ⟨pending', hserving, -, hfold⟩ := hstart.run hvalid htraffic hrun
  have hpending : pending' = [] := by
    rcases hserving.running with ⟨-, hnil⟩ | ⟨conn, slot, data, hcopy, -⟩
    · exact hnil
    · rw [hidle'] at hcopy
      cases hcopy
  refine ⟨motions s.main as, fun r hr => ?_, ?_⟩
  · -- what counts was decoded
    obtain ⟨n, -, hmotion⟩ := List.mem_filterMap.mp hr
    exact inRange_of_decode hsized (Option.ite_none_right_eq_some.mp hmotion).2
  · have heq := hfold hkept
    rwa [hpending, backlog, backlog, hqueue, hqueue'] at heq

/-- **What the host can hear is what is in range.**  In a run where success of a security
procedure is reported once per connection, let the central rest with a valid layout whose
fields lie apart, are no wider than the decoder handles, and fit in the copy that is made
of a notification.  Traffic that loses nothing leads the host exactly to where some
sequence of reports in range would lead it. -/
theorem hears_iff_inRange (hreach : Reachable cfg securedOnce s) (h : Tuned slot s)
    (haxes : ∀ sel ∈ pointerAxes, (s.main.layout.get sel).bitSize.toNat ≤ 32)
    (hstride : s.main.layout.buttons.bitSize.toNat ≤ 32) (hapart : s.main.layout.Apart)
    (hfits : payloadBits s.main.layout ≤ 8 * reportDataMax) (host : Host) :
    Hears cfg s host ↔ ∃ rs, (∀ r ∈ rs, s.main.layout.InRange r) ∧
      host = publishAll cfg.wheelKeys s.io.host rs := by
  -- the layout is what the parser made of the Report Map
  obtain ⟨conn, bytes, -, -, hparse⟩ := (separated_of_reachable hreach).1.parsed h.layoutValid
  have hlayout : (zmkHidParseReportMap (bytes.take reportMapMax)).2 = s.main.layout :=
    congrArg Prod.snd hparse
  have hvalid : s.main.layout.valid :=
    hlayout ▸ zmkHidParseReportMap_valid (congrArg Prod.fst hparse)
  have hsized : s.main.layout.Sized :=
    ⟨haxes, hstride, hlayout ▸ (buttonsSound_zmkHidParseReportMap _).count_le⟩
  constructor
  · exact inRange_of_hears h.idle h.queue h.layoutValid hsized
  · rintro ⟨rs, hrs, rfl⟩
    exact h.tell_all hvalid hsized hapart hfits hrs

/-- Behind a subscription, a pointer of eight bits an axis can be told to go there and back,
as far as its bits go. -/
theorem subscribeRun_hears :
    ∃ s, stateAfter (.plain (reportTable [4])) (subscribeRun 1 1) = some s ∧
      Hears (.plain (reportTable [4])) s
        (publishAll ⟨false, false⟩ s.io.host [⟨127, -128, 0, 0, 0⟩, ⟨-128, 127, 0, 0, 0⟩]) := by
  have hmeets : Meeting (.plain (reportTable [4])) securedOnce (subscribeRun 1 1) := by
    decide +kernel
  have hstate : (stateAfter (.plain (reportTable [4])) (subscribeRun 1 1)).map (fun s =>
      ((s.isIdle && s.io.queue.isEmpty && s.main.layoutValid && s.main.link.any Link.up &&
        decide (0 ∈ s.main.subscribed) && s.main.subCount == 1), s.main.layout)) =
      some (true, (zmkHidParseReportMap pointerMap).2) := by
    decide +kernel
  obtain ⟨s, hs, heq⟩ := Option.map_eq_some_iff.mp hstate
  obtain ⟨hready, hlayout⟩ := Prod.mk.inj heq
  simp only [Bool.and_eq_true, decide_eq_true_eq, beq_iff_eq, Option.any_eq_true_iff_get]
    at hready
  obtain ⟨⟨⟨⟨⟨hidle, hqueue⟩, hvalid⟩, ⟨hsome, hup⟩⟩, hslot⟩, hcount⟩ := hready
  have htuned : Tuned 0 s := ⟨Configuration.isIdle_iff.mp hidle, hvalid,
    List.isEmpty_iff.mp hqueue, ⟨_, (Option.some_get hsome).symm, hup⟩, hslot, Or.inr hcount⟩
  refine ⟨s, hs, (hears_iff_inRange (reachable_stateAfter hmeets hs) htuned ?_ ?_ ?_ ?_ _).mpr
    ⟨_, ?_, rfl⟩⟩
  · rw [hlayout]
    decide +kernel
  · rw [hlayout]
    decide +kernel
  · rw [hlayout]
    decide +kernel
  · rw [hlayout]
    decide +kernel
  · rw [hlayout]
    decide +kernel

end BleHidHost
