import BleHidHost.Advertising
import BleHidHost.Rules
import BleHidHost.Lib.Log

/-!
# The cooldown of a peer that has failed

A peer whose security has just failed is to be skipped for eight seconds, so that the
scanner comes to the others.  The central remembers a single failure, though: of two peers
that fail in turn, each takes the other's place, and each is connected to again at once.

## Main definitions

* `Failures`, `failureScribe` — the security failures of a run.
* `AtReports` — what holds at every advertising report of a run.
* `HeldOff` — no stranger is connected to before its cooldown has passed.
* `Remembered` — no other peer has failed since a stranger that is cooling down.

## Main results

* `marked_of_loggedUnder` — the central remembers the latest failure of a run.
* `heldOff_iff` — **every cooldown of a run is kept exactly where the failure in question
  is still the latest.**
-/

namespace BleHidHost

open Lib Lib.Prog

variable {cfg : Setup} {P : Condition} {m : Central} {io : Pipeline}

/-! ### The failures of a run -/

/-- The security failures that were reported, each with its peer and its time, the latest
first. -/
abbrev Failures := List (Addr × ℕ)

/-- A failure is written down with the peer of the link and the time. -/
def failureScribe : Scribe Central Request Errno Event Failures where
  onAnswer _ _ _ log := log
  onEvent m e log :=
    match e with
    | .securityChanged level err =>
      if reportsSecured level err then log
      else (m.link.map fun l => (l.peer, m.uptime)).toList ++ log
    | _ => log

/-- The state and the failures behind a list of actions, from this bring-up. -/
def failuresAfter (cfg : Setup) (bonds : List Addr) (uptime : ℕ) (accepts : ℕ → Bool)
    (as : List (Action Errno Event)) : Option (System × Failures) :=
  run ((central cfg).loggedStep failureScribe) as (start bonds uptime accepts, [])

/-- At every advertising report of the run `R` relates the state and the failures before it
to the report. -/
def AtReports (cfg : Setup) (bonds : List Addr) (uptime : ℕ) (accepts : ℕ → Bool)
    (as : List (Action Errno Event))
    (R : Central → Failures → Addr → AdvType → List BtData → Prop) : Prop :=
  ∀ before addr type ad after s log, as = before ++ .event (.advertise addr type ad) :: after →
    failuresAfter cfg bonds uptime accepts before = some (s, log) → s.Idle →
      R s.main log addr type ad

/-- A stranger is not connected to within eight seconds of the latest security failure
with it. -/
def HeldOff (cfg : Setup) (m : Central) (log : Failures) (addr : Addr) (type : AdvType)
    (ad : List BtData) : Prop :=
  ¬ addrIsBonded m addr → StartsConnection cfg m addr type ad →
    ∀ t, log.lookup addr = some t → t + failCooldownMs.toNat ≤ m.uptime

/-- The report is one that a stranger is connected to for, but for its cooldown. -/
def IsCandidate (cfg : Setup) (m : Central) (addr : Addr) (type : AdvType) (ad : List BtData) :
    Prop :=
  ¬ addrIsBonded m addr ∧ m.defaultConn = none ∧ type ≠ .other ∧
    (parseAd cfg.nameFilter ad).isMatch

/-- Where such a stranger is within eight seconds of its latest failure, no other peer has
failed since. -/
def Remembered (cfg : Setup) (m : Central) (log : Failures) (addr : Addr) (type : AdvType)
    (ad : List BtData) : Prop :=
  IsCandidate cfg m addr type ad → ∀ t, log.lookup addr = some t →
    m.uptime < t + failCooldownMs.toNat → log.head?.map Prod.fst = some addr

/-! ### What the central remembers -/

/-- The central remembers the latest failure, and no failure is in the future. -/
structure Marked (m : Central) (log : Failures) : Prop where
  latest : ∀ f, log.head? = some f →
    m.lastFailedAddr = f.1 ∧ m.lastFailedMs = BitVec.ofNat 32 f.2
  past : ∀ f ∈ log, f.2 ≤ m.uptime

/-- What is remembered, and the time. -/
def failState (m : Central) : Addr × U32 × ℕ := (m.lastFailedAddr, m.lastFailedMs, m.uptime)

theorem failState_eq_of_offDiscovery {m m' : Central} (h : offDiscovery m' = offDiscovery m) :
    failState m' = failState m := by
  show failState (offDiscovery m') = failState (offDiscovery m)
  rw [h]

theorem failState_eq_of_offMap {m m' : Central} (h : offMap m' = offMap m) :
    failState m' = failState m :=
  eq_of_offMap failState_eq_of_offDiscovery h

theorem failState_eq_of_offCursor {m m' : Central} (h : offCursor m' = offCursor m) :
    failState m' = failState m :=
  eq_of_offCursor failState_eq_of_offMap h

theorem failState_of_offScan {m m' : Central} {x : Addr × U32 × ℕ} (h : offScan m' = offScan m)
    (hx : failState m = x) : failState m' = x := by
  have heq : failState (offScan m') = failState (offScan m) := by rw [h]
  exact heq.trans hx

theorem Marked.congr {log : Failures} {m' : Central} (h : Marked m log)
    (heq : failState m' = failState m) : Marked m' log := by
  simp only [failState, Prod.mk.injEq] at heq
  obtain ⟨haddr, hms, htime⟩ := heq
  refine ⟨?_, ?_⟩
  · rw [haddr, hms]
    exact h.latest
  · rw [htime]
    exact h.past

/-- Time passes. -/
theorem Marked.later {log : Failures} (h : Marked m log) (ms : ℕ) :
    Marked { m with uptime := m.uptime + ms } log where
  latest := h.latest
  past f hf := (h.past f hf).trans (Nat.le_add_right ..)

/-- A failure that is remembered is the latest. -/
theorem Marked.fail {log : Failures} (h : Marked m log) (peer : Addr) :
    Marked { m with lastFailedAddr := peer, lastFailedMs := kUptimeGet32 m }
      ((peer, m.uptime) :: log) where
  latest f hf := by
    cases hf
    exact ⟨rfl, rfl⟩
  past f hf := by
    rcases List.mem_cons.mp hf with rfl | hf
    · exact le_rfl
    · exact h.past f hf

/-- A disconnect leaves what is remembered alone. -/
theorem spares_disconnected (conn : ℕ) : Spares cfg P failState (disconnected cfg conn) := by
  intro x
  have hemit {f : Central → Central} {g : Central → Pipeline → Pipeline}
      (hf : ∀ m, failState (f m) = failState m) :
      (emit f g : Callback Unit).Keeps (central cfg) P fun m _ => failState m = x :=
    (keeps_emit f g).mpr fun m _ hm => (hf m).trans hm
  refine .bind keeps_look fun _ => .ite (keeps_pure ()) ?_
  refine .bind (hemit fun _ => rfl) fun _ => ?_
  refine .bind (hemit fun _ => rfl) fun _ => ?_
  refine .bind (hemit fun _ => rfl) fun _ => ?_
  refine .bind (hemit fun _ => rfl) fun _ => ?_
  refine .bind (hemit fun _ => rfl) fun _ => ?_
  refine .bind (hemit fun _ => rfl) fun _ => ?_
  refine .bind (hemit fun _ => rfl) fun _ => ?_
  refine .bind (hemit fun _ => rfl) fun _ => ?_
  exact keeps_startScan (fun _ _ _ hm => hm) fun _ _ hm => hm

/-- A callback restores what holds between two others. -/
abbrev Marks (cfg : Setup) (P : Condition) (p : Callback Unit) (m : Central) (log : Failures) :
    Prop :=
  p.Logged (central cfg) P failureScribe (fun _ => True) (fun _ => Marked) m log

/-- A callback that leaves alone what is remembered. -/
theorem Marked.of_spares {log : Failures} (h : Marked m log) {m' : Central}
    (heq : failState m' = failState m) {p : Callback Unit} (hp : Spares cfg P failState p) :
    Marks cfg P p m' log := by
  apply Logged.of_safe (fun _ _ _ _ => rfl) trivial (hp.safe.mono _)
  intro _ m'' hspared
  exact h.congr (hspared.trans heq)

/-- An event that is no security failure, and its callback. -/
theorem Marked.apart {log : Failures} (h : Marked m log) {e : Event} {m' : Central}
    {p : Callback Unit} (hp : Spares cfg P failState p) (heq : failState m' = failState m)
    (hlog : failureScribe.onEvent m e log = log) :
    Marks cfg P p m' (failureScribe.onEvent m e log) := by
  rw [hlog]
  exact h.of_spares heq hp

/-- **Each event keeps the latest failure remembered.** -/
theorem Marked.enter {log : Failures} (h : Marked m log) {e : Event} {m' : Central}
    {io' : Pipeline} {p : Callback Unit} (henter : Entered cfg m io e m' io' p) :
    Marks cfg P p m' (failureScribe.onEvent m e log) := by
  cases henter with
  | advertise addr type ad =>
    exact h.apart (fun _ => keeps_deviceFound failState_of_offScan addr type ad) rfl rfl
  | scanRetry => exact h.apart (fun _ => keeps_scanRetryHandler failState_of_offScan) rfl rfl
  | connected err => exact h.apart (fun _ => keeps_connected failState_of_offScan err) rfl rfl
  | @securityChanged level err l hl =>
    have hlink : Marked { m with
        link := some { l with
          securing := false
          secured := l.secured || reportsSecured level err } } log := h.congr rfl
    by_cases hok : reportsSecured level err
    · have hlog : failureScribe.onEvent m (.securityChanged level err) log = log := if_pos hok
      simp only [hlog, securityChanged, if_neg (reportsSecured_iff.mp hok)]
      exact hlink.of_spares rfl (leaves_startDiscovery failState_eq_of_offDiscovery).spares
    · have hlog : failureScribe.onEvent m (.securityChanged level err) log =
          (l.peer, m.uptime) :: log := by
        simp [failureScribe, hok, hl]
      rw [hlog, securityChanged, if_pos (not_not.mp (mt reportsSecured_iff.mpr hok)), Marks,
        securityFailed, logged_bind, logged_assign]
      exact (hlink.fail l.peer).of_spares rfl fun _ =>
        keeps_askOr (by simp) (by simp) (fun _ _ hm => hm) (keeps_pure ())
  | disconnected => exact h.apart (spares_disconnected _) rfl rfl
  | discovered => exact h.apart (leaves_deliver failState_eq_of_offMap _ _).spares rfl rfl
  | discoverDone => exact h.apart (leaves_finishDiscover failState_eq_of_offCursor).spares rfl rfl
  | readMap n err data =>
    exact h.apart (leaves_respondMap failState_eq_of_offDiscovery _ _ err data).spares rfl rfl
  | readRef n err data =>
    exact h.apart (leaves_respondRef failState_eq_of_offCursor err data).spares rfl rfl
  | notified => exact h.apart (fun _ => (keeps_emit _ _).mpr fun _ _ hm => hm) rfl rfl
  | unsubscribed slot =>
    exact h.apart (leaves_unsubscribed failState_eq_of_offCursor slot).spares rfl rfl
  | timePasses ms => exact h.later ms
  | bonded => exact h.congr rfl

/-- **The central remembers the latest failure of a run**, with its time. -/
theorem marked_of_loggedUnder {bonds : List Addr} {uptime : ℕ} {accepts : ℕ → Bool} {s : System}
    {log : Failures}
    (h : (central cfg).LoggedUnder P failureScribe (start bonds uptime accepts) [] s log)
    (hidle : s.Idle) : Marked s.main log := by
  have hstart : Marked (Central.start bonds uptime) [] :=
    ⟨fun f hf => absurd hf.symm (Option.some_ne_none f), fun f hf => absurd hf List.not_mem_nil⟩
  have hscan : Marks cfg P startScan (Central.start bonds uptime) [] :=
    hstart.of_spares rfl fun _ => keeps_startScan_offScan failState_of_offScan
  have hinv := Machine.logged_invariant (J := fun _ => True) (K := fun _ => True)
    (I := Marked) ⟨trivial, hscan⟩ (fun _ _ _ => trivial)
    (fun e m io m' io' p log _ hI _ _ henter => ⟨trivial, hI.enter (entered_of_enter henter)⟩) h
  have hend := hinv.2
  rw [hidle] at hend
  exact hend

/-! ### Whether a cooldown is kept -/

/-- A stranger is connected to where nothing but its cooldown could hold it off, and the
central does not remember its failure. -/
theorem startsConnection_iff_of_stranger {addr : Addr} {type : AdvType} {ad : List BtData}
    (hbond : ¬ addrIsBonded m addr) :
    StartsConnection cfg m addr type ad ↔ IsCandidate cfg m addr type ad ∧ ¬ inCooldown m addr := by
  simp only [startsConnection_iff, isTarget, IsCandidate, or_iff_right hbond]
  constructor
  · rintro ⟨hconn, htype, hmatch, hcool⟩
    exact ⟨⟨hbond, hconn, htype, hmatch⟩, fun h => hcool ⟨hbond, h⟩⟩
  · rintro ⟨⟨-, hconn, htype, hmatch⟩, hcool⟩
    exact ⟨hconn, htype, hmatch, fun h => hcool h.2⟩

/-- The cooldown that the central computes is that of the latest failure. -/
theorem Marked.inCooldown {log : Failures} (h : Marked m log) {addr : Addr} {t : ℕ}
    (hhead : log.head? = some (addr, t)) (hearly : m.uptime < t + failCooldownMs.toNat) :
    inCooldown m addr := by
  obtain ⟨haddr, hms⟩ := h.latest (addr, t) hhead
  have hpast : t ≤ m.uptime := h.past (addr, t) (List.mem_of_head? hhead)
  refine ⟨haddr.symm, ?_⟩
  have helapsed : kUptimeGet32 m - m.lastFailedMs = BitVec.ofNat 32 (m.uptime - t) := by
    simp only [kUptimeGet32, hms]
    apply BitVec.eq_of_toNat_eq
    simp only [BitVec.toNat_sub, BitVec.toNat_ofNat]
    omega
  have hcooldown : failCooldownMs.toNat = 8000 := rfl
  rw [helapsed, BitVec.lt_def, BitVec.toNat_ofNat, hcooldown]
  omega

/-- **A cooldown is kept exactly where the failure is still the latest.** -/
theorem Marked.held_iff_remembered {log : Failures} (h : Marked m log) (addr : Addr) (type : AdvType)
    (ad : List BtData) :
    HeldOff cfg m log addr type ad ↔ Remembered cfg m log addr type ad := by
  constructor
  · intro hheld hcand t ht hearly
    -- were another failure the latest, the peer would be connected to
    by_contra hhead
    cases hlog : log.head? with
    | none =>
      rw [List.head?_eq_none_iff.mp hlog] at ht
      cases ht
    | some f =>
      rw [hlog] at hhead
      have hcool : ¬ BleHidHost.inCooldown m addr := by
        rintro ⟨haddr, -⟩
        exact hhead (congrArg some ((h.latest f hlog).1.symm.trans haddr.symm))
      have hlate := hheld hcand.1
        ((startsConnection_iff_of_stranger hcand.1).mpr ⟨hcand, hcool⟩) t ht
      omega
  · intro hrem hbond hstarts t ht
    obtain ⟨hcand, hcool⟩ := (startsConnection_iff_of_stranger hbond).mp hstarts
    by_contra hearly
    have hearly' : m.uptime < t + failCooldownMs.toNat := Nat.lt_of_not_le hearly
    obtain ⟨f, hlog, haddr⟩ := Option.map_eq_some_iff.mp (hrem hcand t ht hearly')
    -- the latest failure is the one that is looked up
    have htime : f.2 = t := by
      cases log with
      | nil => cases hlog
      | cons g log =>
        cases hlog
        obtain ⟨a, u⟩ := f
        cases haddr
        rw [List.lookup_cons_self] at ht
        exact Option.some_inj.mp ht
    subst haddr htime
    exact hcool (h.inCooldown hlog hearly')

/-- **Every cooldown of a run is kept exactly where the failure in question is still the
latest**: a run connects to no stranger within eight seconds of its latest security failure
if and only if, wherever nothing but that failure could hold a stranger off, no other peer
has failed since. -/
theorem heldOff_iff (cfg : Setup) (bonds : List Addr) (uptime : ℕ) (accepts : ℕ → Bool)
    (as : List (Action Errno Event)) :
    AtReports cfg bonds uptime accepts as (HeldOff cfg) ↔
      AtReports cfg bonds uptime accepts as (Remembered cfg) := by
  have hpoint {before : List (Action Errno Event)} {s : System} {log : Failures} (addr : Addr)
      (type : AdvType) (ad : List BtData)
      (hrun : failuresAfter cfg bonds uptime accepts before = some (s, log)) (hidle : s.Idle) :
      HeldOff cfg s.main log addr type ad ↔ Remembered cfg s.main log addr type ad := by
    have hlogged : (central cfg).LoggedUnder .any failureScribe (start bonds uptime accepts) []
        s log :=
      Reaches.refl.of_run (.of_forall (fun t a => Machine.meets_any (Prod.fst t) a) before _) hrun
    exact (marked_of_loggedUnder hlogged hidle).held_iff_remembered addr type ad
  constructor
  · intro h before addr type ad after s log hsplit hrun hidle
    exact (hpoint addr type ad hrun hidle).mp (h before addr type ad after s log hsplit hrun hidle)
  · intro h before addr type ad after s log hsplit hrun hidle
    exact (hpoint addr type ad hrun hidle).mpr (h before addr type ad after s log hsplit hrun hidle)

/-- A mouse. -/
def mouseAd : List BtData := [⟨.gapAppearance, [0xC2, 0x03]⟩]

/-- A peer is connected to, fails security, and is disconnected. -/
def failingRound (addr : Addr) : List (Action Errno Event) :=
  [.event (.advertise addr .advInd mouseAd)] ++ succeedsAfter 1 ++ succeedsAfter 0 ++
    [.event (.connected false)] ++ succeedsAfter 0 ++ [.event (.securityChanged 1 true)] ++
    succeedsAfter 1 ++ [.event .disconnected] ++ succeedsAfter 9

/-- Two peers fail, one second apart, and another second passes. -/
def twoFailures : List (Action Errno Event) :=
  succeedsAfter 0 ++ failingRound 7 ++ [.event (.timePasses 1000)] ++ failingRound 8 ++
    [.event (.timePasses 1000)]

/-- Two seconds after its failure the first peer is connected to again, since the second one
has failed. -/
theorem displaced_failure_forgotten :
    (failuresAfter (.plain []) [] 0 (fun _ => true) (twoFailures ++ failingRound 7)).map
        (fun x => (x.1.main.uptime, x.2)) = some (2000, [(7, 2000), (8, 1000), (7, 0)]) ∧
      ¬ AtReports (.plain []) [] 0 (fun _ => true) (twoFailures ++ failingRound 7)
        (HeldOff (.plain [])) := by
  refine ⟨by decide +kernel, fun h => ?_⟩
  have hstate : (failuresAfter (.plain []) [] 0 (fun _ => true) twoFailures).map
      (fun x => (x.1.isIdle, addrIsBonded x.1.main 7,
        decide (isTarget (.plain []) x.1.main 7 .advInd mouseAd), x.2, x.1.main.uptime)) =
      some (true, false, true, [(8, 1000), (7, 0)], 2000) := rfl
  obtain ⟨⟨s, log⟩, hrun, heq⟩ := Option.map_eq_some_iff.mp hstate
  simp only [Prod.mk.injEq, decide_eq_true_eq] at heq
  obtain ⟨hidle, hbond, htarget, rfl, htime⟩ := heq
  have hheld := h twoFailures 7 .advInd mouseAd _ s _ rfl hrun (Configuration.isIdle_iff.mp hidle)
    (Bool.eq_false_iff.mp hbond) (startsConnection_iff.mpr htarget) 0 rfl
  rw [htime] at hheld
  exact absurd hheld (by decide)

end BleHidHost
