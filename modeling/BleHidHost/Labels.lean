import BleHidHost.Isolation

/-!
# Queued reports and the subscriptions they came by

A report in the queue carries the Report ID of the slot it was received on.  The slot is
one of those that are counted by `sub_count`, as a slot's id is written before the slot is
counted, and `sub_count` is taken back only where no slot is subscribed.

## Main definitions

* `Searches` — what the callbacks of a discovery leave alone.
* `Labelled` — every report queued carries the id of a slot that is counted.
* `Tallied` — every slot subscribed is counted, and none is before the reports are found.

## Main results

* `labelled_of_reachable` — **every report queued on a link carries the id of a slot that
  is counted**, at every moment of a run.
-/

namespace BleHidHost

open Lib Lib.Prog

variable {cfg : Setup} {P : Condition} {m : Central} {io : Pipeline}

/-! ### Callbacks that search -/

/-- The state without the variables that a search moves. -/
def offSearch (m : Central) : Central :=
  { m with
    discoverParams := default
    discState := .idle
    hidsEndHandle := 0
    rmBuf := []
    rmLen := 0
    pendingReports := []
    pendingCount := 0
    pendingIdx := 0
    curReportId := 0
    procs := [] }

/-- The program moves nothing but these variables. -/
abbrev Searches {α : Type} (cfg : Setup) (P : Condition) (p : Callback α) : Prop :=
  Leaves cfg P offSearch p

/-- What leaves a part alone leaves alone what can be told from it. -/
theorem Leaves.comp {α γ δ : Type} {φ : Central → γ} {p : Callback α} (h : Leaves cfg P φ p)
    (ψ : γ → δ) : Leaves cfg P (fun m => ψ (φ m)) p :=
  fun c d => h.keeps (S := fun x io => ψ x = c ∧ io = d)

/-- A procedure is started, or is not. -/
theorem searches_askProc {c : Request} (hc : (∃ p, c = .gattDiscover p) ∨ ∃ p, c = .gattRead p) :
    Searches cfg P (ask c) := by
  refine fun _ _ => (keeps_ask c).mpr fun m err m' io _ hans hm => ⟨Eq.trans ?_ hm.1, hm.2⟩
  rcases hc with ⟨p, rfl⟩ | ⟨p, rfl⟩ <;> cases err <;> cases hans <;> rfl

theorem searches_askOr {c : Request} (hc : (∃ p, c = .gattDiscover p) ∨ ∃ p, c = .gattRead p)
    {q : Callback Unit} (hq : Searches cfg P q) : Searches cfg P (askOr c q) :=
  (searches_askProc hc).bind fun _ => .ite hq (.pure ())

theorem searches_discoverOr {q : Callback Unit} (hq : Searches cfg P q) :
    Searches cfg P (discoverOr q) :=
  .look_bind fun _ => searches_askOr (Or.inl ⟨_, rfl⟩) hq

theorem searches_discIdle : Searches cfg P discIdle := .assign fun _ => rfl

theorem searches_discoverCcc : Searches cfg P discoverCcc :=
  .bind (.assign fun _ => rfl) fun _ => searches_discoverOr searches_discIdle

theorem searches_subscribePending : Searches cfg P subscribePending :=
  .look_bind fun _ => .ite searches_discIdle <|
    .bind (.assign fun _ => rfl) fun _ => searches_discoverOr searches_discoverCcc

theorem searches_reportsCollected : Searches cfg P reportsCollected :=
  .look_bind fun _ => .ite searches_discIdle <|
    .bind (.assign fun _ => rfl) fun _ => searches_subscribePending

theorem searches_respondRef (err : Bool) (data : List U8) :
    Searches cfg P (respondRef err data) :=
  .bind (.bind (.assign fun _ => rfl) fun _ => .bind searches_discoverCcc fun _ => .pure _)
    fun _ => .pure ()

theorem searches_readReportRef (handle : U16) : Searches cfg P (readReportRef handle) :=
  searches_askOr (Or.inr ⟨_, rfl⟩) <| .bind (.assign fun _ => rfl) fun _ => searches_discoverCcc

theorem searches_discoverReportMap (a : Attr) : Searches cfg P (discoverReportMap a) :=
  .bind (.assign fun _ => rfl) fun _ => searches_discoverOr searches_discIdle

theorem searches_collectReport (a : Attr) :
    Searches cfg P (assign (collectReport a) : Callback Unit) := by
  refine .assign fun m => ?_
  unfold collectReport
  split <;> rfl

theorem searches_storeChunk (data : List U8) :
    Searches cfg P (assign fun m => storeChunk m data : Callback Unit) := .assign fun _ => rfl

/-- The stack goes on with a procedure. -/
theorem searches_resume (p : Proc) :
    Searches cfg P (assign fun m => { m with procs := m.procs ++ [p] } : Callback Unit) :=
  .assign fun _ => rfl

/-! ### Labels -/

/-- Without a report that may be queued the queue is empty, and on a link every report
queued carries the id of a slot that is counted. -/
structure Labelled (m : Central) (io : Pipeline) : Prop where
  empty : ¬ m.mayQueue → io.queue = []
  labels : m.link.isSome → ∀ q ∈ io.queue,
    ∃ slot < m.subCount, q.2.reportId = (subscription m slot).reportId

/-- What holds of the slots between two callbacks. -/
structure Tallied (m : Central) : Prop where
  unsecured : (∀ l, m.link = some l → ¬ l.secured) → m.subCount = 0 ∧ m.subscribed = []
  early : m.discState.isEarly → m.subCount = 0 ∧ m.subscribed = []
  made : ∀ slot ∈ m.subscribed, slot < m.subCount

/-- The slots that are counted, and those that are subscribed. -/
def slots (m : Central) : ℕ × List ℕ := (m.subCount, m.subscribed)

theorem slots_eq {m m' : Central} (h : offSearch m' = offSearch m) : slots m' = slots m := by
  show slots (offSearch m') = slots (offSearch m)
  rw [h]

/-- What a callback keeps of the labels, and what it leaves of the slots. -/
abbrev SafeSlots (cfg : Setup) (P : Condition) (p : Callback Unit) (m : Central) : Prop :=
  p.Safe (central cfg) P Labelled (fun _ m' => slots m' = slots m) m

theorem Labelled.congr {m' : Central} (h : Labelled m io) (hmay : m'.mayQueue = m.mayQueue)
    (hlink : m'.link.isSome → m.link.isSome) (hcount : m'.subCount = m.subCount)
    (hsubs : m'.subs = m.subs) : Labelled m' io where
  empty := by
    rw [hmay]
    exact h.empty
  labels hsome q hq := by
    obtain ⟨slot, hlt, hid⟩ := h.labels (hlink hsome) q hq
    refine ⟨slot, hcount ▸ hlt, ?_⟩
    rw [hid, subscription, subscription, hsubs]

/-- A turn of the handler takes a report from the queue. -/
theorem Labelled.turn (h : Labelled m io) : Labelled m (reportWorkTurn cfg m io) where
  empty hmay := by
    rw [reportWorkTurn_queue, h.empty hmay]
    rfl
  labels hsome q hq := by
    rw [reportWorkTurn_queue] at hq
    exact h.labels hsome q (List.mem_of_mem_tail hq)

/-- A search keeps the labels, and moves only its own variables. -/
theorem Searches.safe {α : Type} {p : Callback α} (h : Searches cfg P p) :
    p.Safe (central cfg) P Labelled (fun _ m' => offSearch m' = offSearch m) m := by
  have hiff : (fun m io => Labelled (offSearch m) io) = Labelled := by
    funext m io
    exact propext ⟨fun h => h.congr rfl (fun hsome => hsome) rfl rfl,
      fun h => h.congr rfl (fun hsome => hsome) rfl rfl⟩
  rw [← hiff]
  exact (Leaves.safe h).keeping (Leaves.keeps (S := Labelled) h)

theorem safeSlots_of_searches {p : Callback Unit} (h : Searches cfg P p) :
    SafeSlots cfg P p m :=
  Safe.mono (Searches.safe h) fun _ _ heq => slots_eq heq

/-- The discovery of the reports begins where no slot is counted. -/
theorem safeSlots_startReportDiscovery (hzero : m.subCount = 0) :
    SafeSlots cfg P startReportDiscovery m := by
  have hslots : slots { m with pendingCount := 0, pendingIdx := 0, subCount := 0 } = slots m := by
    rw [slots, slots, hzero]
  rw [SafeSlots, startReportDiscovery, safe_bind, safe_assign]
  refine ⟨fun io h => h.congr rfl (fun hsome => hsome) rfl rfl, ?_⟩
  rw [safe_bind, safe_assign]
  refine ⟨fun io h => h.congr rfl (fun hsome => hsome) hzero.symm rfl, ?_⟩
  rw [← hslots]
  exact safeSlots_of_searches <|
    .bind (.assign fun _ => rfl) fun _ => searches_discoverOr searches_discIdle

/-- The end of a pass leaves the slots as they are. -/
theorem safeSlots_finishDiscover (hzero : m.discState.isEarly → m.subCount = 0) :
    SafeSlots cfg P finishDiscover m := by
  rw [SafeSlots, finishDiscover, safe_bind, discoverFunc, safe_bind, discoverDone, safe_bind,
    safe_look]
  cases hm : m.discState with
  | idle => rfl
  | hidsPrimary => rfl
  | reportMapChrc => exact safeSlots_startReportDiscovery (hzero (by rw [hm]; rfl))
  | reportChrc => exact safeSlots_of_searches searches_reportsCollected
  | reportRef => exact safeSlots_of_searches searches_discoverCcc
  | ccc =>
    exact safeSlots_of_searches (.bind (.assign fun _ => rfl) fun _ => searches_subscribePending)

/-- The parse writes the layout only. -/
theorem safeSlots_parseReportMap {Q : Unit → Central → Prop}
    (hQ : ∀ l b, Q () { m with layout := l, layoutValid := b }) :
    (parseReportMap cfg).Safe (central cfg) P Labelled Q m := by
  have hwrite (ls : List ReportLayout) {m : Central} {Q : Unit → Central → Prop}
      (hQ : ∀ l, Q () { m with layout := l }) :
      (writeLayouts ls).Safe (central cfg) P Labelled Q m := by
    induction ls generalizing m with
    | nil => exact hQ m.layout
    | cons l ls ih =>
      rw [writeLayouts, safe_bind, safe_assign]
      exact ⟨fun io h => h.congr rfl (fun hsome => hsome) rfl rfl, ih hQ⟩
  rw [parseReportMap, safe_bind, safe_look, safe_bind]
  refine hwrite _ fun l => ?_
  rw [safe_bind, safe_assign]
  refine ⟨fun io h => h.congr rfl (fun hsome => hsome) rfl rfl, ?_⟩
  rw [safe_ite]
  refine ⟨fun _ => ⟨fun io h => h.congr rfl (fun hsome => hsome) rfl rfl, hQ _ _⟩, fun _ => ?_⟩
  exact hQ (zmkHidParseReportMap (reportMap m)).2 m.layoutValid

/-- A response of the Report Map read leaves the slots as they are. -/
theorem safeSlots_respondMap (hzero : m.subCount = 0) (handle : U16) (received : List U8)
    (err : Bool) (data : List U8) :
    SafeSlots cfg P (respondMap cfg handle received err data) m := by
  rw [SafeSlots, respondMap, safe_bind, reportMapReadCb, safe_ite, safe_ite]
  refine ⟨fun _ => ?_, fun _ => ⟨fun _ => ?_, fun _ => ?_⟩⟩
  · rw [safe_bind]
    exact safeSlots_startReportDiscovery hzero
  · exact safeSlots_of_searches ((searches_storeChunk data).bind fun _ => searches_resume _)
  · rw [safe_bind]
    refine safeSlots_parseReportMap fun l b => ?_
    rw [safe_bind]
    exact safeSlots_startReportDiscovery (m := { m with layout := l, layoutValid := b }) hzero

/-! ### The subscription of a report -/

/-- A slot that is not counted may be written. -/
theorem Labelled.write (h : Labelled m io) (s : HidSubscription) :
    Labelled { m with subs := m.subs.set m.subCount s } io where
  empty := h.empty
  labels hsome q hq := by
    obtain ⟨slot, hlt, hid⟩ := h.labels hsome q hq
    refine ⟨slot, hlt, ?_⟩
    rw [hid, subscription, subscription, List.getD_eq_getElem?_getD, List.getD_eq_getElem?_getD,
      List.getElem?_set_ne hlt.ne']

/-- A slot may be counted. -/
theorem Labelled.count (h : Labelled m io) :
    Labelled { m with subCount := m.subCount + 1 } io where
  empty := h.empty
  labels hsome q hq := by
    obtain ⟨slot, hlt, hid⟩ := h.labels hsome q hq
    exact ⟨slot, Nat.lt_succ_of_lt hlt, hid⟩

/-- Every slot subscribed is counted. -/
def Made (m : Central) : Prop := ∀ slot ∈ m.subscribed, slot < m.subCount

/-- **The slot subscribed is counted.** -/
theorem safe_subscribeReport_made (h : Made m) (a : Attr) :
    (subscribeReport a).Safe (central cfg) P Labelled (fun _ => Made) m := by
  rw [subscribeReport, safe_bind, safe_look, safe_ite]
  refine ⟨fun _ => ?_, fun _ => h⟩
  rw [safe_bind, safe_assign]
  refine ⟨fun io hJ => hJ.write _, ?_⟩
  rw [safe_bind, safe_ask, central_answer]
  intro err m' _ hans
  -- the slot is subscribed, or nothing has changed
  have hm' : (m'.mayQueue = m.mayQueue ∧ m'.link = m.link ∧ m'.subCount = m.subCount ∧
      m'.subs = m.subs.set m.subCount ⟨pendingReport m, a.handle, m.curReportId⟩) ∧
        (m'.subscribed = m.subscribed ∨
          (err = .success ∨ err = .already) ∧ m'.subscribed = m.subCount :: m.subscribed) := by
    cases err <;> cases hans
    · exact ⟨⟨rfl, rfl, rfl, rfl⟩, Or.inr ⟨Or.inl rfl, rfl⟩⟩
    · exact ⟨⟨rfl, rfl, rfl, rfl⟩, Or.inr ⟨Or.inr rfl, rfl⟩⟩
    · exact ⟨⟨rfl, rfl, rfl, rfl⟩, Or.inl rfl⟩
  obtain ⟨⟨hmay, hlink, hcount, hsubs⟩, hsubscribed⟩ := hm'
  refine ⟨fun io hJ => ?_, ?_⟩
  · exact hJ.congr hmay (fun hsome => hlink ▸ hsome) hcount hsubs
  rw [safe_ite]
  refine ⟨fun hfail => ?_, fun _ => ?_⟩
  · have hsame : m'.subscribed = m.subscribed := by
      rcases hsubscribed with hsame | ⟨rfl | rfl, -⟩
      · exact hsame
      · exact absurd rfl hfail.1
      · exact absurd rfl hfail.2
    intro slot hslot
    rw [hsame] at hslot
    rw [hcount]
    exact h slot hslot
  · rw [safe_assign]
    refine ⟨fun io hJ => hJ.count, ?_⟩
    intro slot hslot
    show slot < m'.subCount + 1
    rw [hcount]
    rcases hsubscribed with hsame | ⟨-, hmore⟩
    · exact Nat.lt_succ_of_lt (h slot (hsame ▸ hslot))
    · have hmem : slot ∈ m.subCount :: m.subscribed := hmore ▸ hslot
      rcases List.mem_cons.mp hmem with rfl | hmem
      · exact Nat.lt_succ_self _
      · exact Nat.lt_succ_of_lt (h slot hmem)

/-- The report is wired, and the search goes on. -/
theorem safe_wireReport_made (h : Made m) (a : Attr) :
    (wireReport a).Safe (central cfg) P Labelled (fun _ => Made) m := by
  rw [wireReport, safe_bind]
  refine (safe_subscribeReport_made h a).mono fun _ m' hmade => ?_
  have hrest : Searches cfg P (do
      assign fun m => { m with pendingIdx := m.pendingIdx + 1 }
      subscribePending) :=
    .bind (.assign fun _ => rfl) fun _ => searches_subscribePending
  refine Safe.mono (Searches.safe hrest) fun _ m'' heq => ?_
  have hslots : slots m'' = slots m' := slots_eq heq
  intro slot hslot
  rw [(Prod.mk.inj hslots).2] at hslot
  rw [(Prod.mk.inj hslots).1]
  exact hmade slot hslot

/-- A result of a discovery leaves the slots as they are, or every slot subscribed counted. -/
theorem safe_deliver_slots (hmade : Made m) (hzero : m.discState.isEarly → m.subCount = 0)
    (q : DiscoverParams) (a : Attr) :
    (deliver q a).Safe (central cfg) P Labelled
      (fun _ m' => slots m' = slots m ∨ m.discState = .ccc ∧ Made m') m := by
  have hstop {p : Callback Unit} (hp : SafeSlots cfg P p m) :
      (do p; pure Iter.stop : Callback Iter).Safe (central cfg) P Labelled
        (fun i m' => i = .stop ∧ slots m' = slots m) m := by
    rw [safe_bind]
    exact Safe.mono hp fun _ _ hm' => ⟨rfl, hm'⟩
  rw [deliver, safe_bind, discoverFunc, discovered, safe_bind, safe_look]
  cases hm : m.discState with
  | idle => exact Or.inl rfl
  | hidsPrimary =>
    refine Safe.mono (hstop (safeSlots_of_searches (searches_discoverReportMap a))) ?_
    rintro i m' ⟨rfl, heq⟩
    exact Or.inl heq
  | reportMapChrc =>
    suffices hread : SafeSlots cfg P (readReportMap a.value) m by
      refine Safe.mono (hstop hread) ?_
      rintro i m' ⟨rfl, heq⟩
      exact Or.inl heq
    rw [SafeSlots, readReportMap, safe_bind, safe_assign]
    refine ⟨fun io h => h.congr rfl (fun hsome => hsome) rfl rfl, ?_⟩
    refine (safe_askOr (by simp) (by simp) _).mpr ⟨fun _ => ⟨?_, rfl⟩, fun _ _ _ => ?_⟩
    · exact fun io h => h.congr rfl (fun hsome => hsome) rfl rfl
    · exact safeSlots_startReportDiscovery (m := { m with rmLen := 0 }) (hzero (by rw [hm]; rfl))
  | reportChrc =>
    rw [safe_bind]
    refine Safe.mono (Searches.safe (searches_collectReport a)) fun _ m' heq => ⟨?_, Or.inl ?_⟩
    · exact fun io h => h.congr rfl (fun hsome => hsome) rfl rfl
    · have hslots : slots m' = slots m := slots_eq heq
      exact hslots
  | reportRef =>
    refine Safe.mono (hstop (safeSlots_of_searches (searches_readReportRef _))) ?_
    rintro i m' ⟨rfl, heq⟩
    exact Or.inl heq
  | ccc =>
    rw [safe_bind]
    exact Safe.mono (safe_wireReport_made hmade a) fun _ m' hmade' => Or.inr ⟨rfl, hmade'⟩

/-! ### Runs -/

/-- What a callback restores between two others. -/
abbrev SafeTallied (cfg : Setup) (P : Condition) (p : Callback Unit) (m : Central) : Prop :=
  p.Safe (central cfg) P Labelled (fun _ => Tallied) m

theorem Tallied.congr {m' : Central} (h : Tallied m) (hslots : slots m' = slots m)
    (hlink : (∀ l, m'.link = some l → ¬ l.secured) → ∀ l, m.link = some l → ¬ l.secured)
    (hstate : m'.discState.isEarly → m.discState.isEarly) : Tallied m' := by
  obtain ⟨hcount, hsubscribed⟩ := Prod.mk.inj hslots
  refine ⟨fun hopen => ?_, fun hearly => ?_, ?_⟩
  · rw [hcount, hsubscribed]
    exact h.unsecured (hlink hopen)
  · rw [hcount, hsubscribed]
    exact h.early (hstate hearly)
  · rw [hcount, hsubscribed]
    exact h.made

/-- No slot is counted, and none is subscribed. -/
theorem Tallied.of_zero (hcount : m.subCount = 0) (hnil : m.subscribed = []) : Tallied m where
  unsecured _ := ⟨hcount, hnil⟩
  early _ := ⟨hcount, hnil⟩
  made slot hslot := by
    rw [hnil] at hslot
    cases hslot

/-- A callback of a procedure, which is outstanding on a secured link. -/
theorem Tallied.safe_gatt (h : Tallied m) {l : Link} (hl : m.link = some l) (hsecured : l.secured)
    {p : Callback Unit} {early : Bool} (hearly : early → m.discState.isEarly)
    (hp : p.Safe (central cfg) P Labelled
      (fun _ m' => slots m' = slots m ∨ early = false ∧ Made m') m)
    (hfollows : p.Safe (central cfg) P sequentially (fun _ => Follows early) m)
    (hlink : Leaves cfg P linkState p) : SafeTallied cfg P p m := by
  refine Safe.mono (Safe.and hp (Safe.and hfollows hlink.safe)) ?_
  rintro u m' ⟨hslots, hfollows, hlinkState⟩
  have hl' : m'.link = some l := (Prod.mk.inj hlinkState).1.trans hl
  have hopen : ¬ ∀ l, m'.link = some l → ¬ l.secured := fun hopen => hopen l hl' hsecured
  rcases hslots with heq | ⟨rfl, hmade⟩
  · exact h.congr heq (fun ho => absurd ho hopen) fun he => hearly (hfollows.late he)
  · exact ⟨fun ho => absurd ho hopen, fun he => absurd (hfollows.late he) Bool.false_ne_true,
      hmade⟩

/-- A scan start touches neither the labels nor the slots. -/
theorem Tallied.safe_startScan (h : Tallied m) : SafeTallied cfg P startScan m := by
  have hlabels : startScan.Keeps (central cfg) P Labelled :=
    keeps_startScan (fun _ _ _ hJ => hJ.congr rfl (fun hsome => hsome) rfl rfl)
      fun _ _ hJ => hJ.congr rfl (fun hsome => hsome) rfl rfl
  have hkeeps : startScan.Keeps (central cfg) P fun m _ => Tallied m :=
    keeps_startScan (fun _ _ _ h => h.congr rfl (fun ho => ho) fun he => he)
      fun _ _ h => h.congr rfl (fun ho => ho) fun he => he
  exact (Keeps.safe hkeeps h).keeping hlabels

/-- A connection is created behind an empty queue. -/
theorem Tallied.safe_deviceFound (h : Tallied m) (hsep : Separated m) (htracked : Tracked m)
    (addr : Addr) (type : AdvType) (ad : List BtData) :
    SafeTallied cfg P (deviceFound cfg addr type ad) m := by
  rw [SafeTallied, deviceFound, safe_bind, safe_look, safe_ite]
  refine ⟨?_, fun _ => h⟩
  intro htarget
  have hlink : m.link = none := (htracked.unconnected htarget.1).link_eq
  have hnone (l : Link) : m.link ≠ some l := hlink ▸ (Option.some_ne_none l).symm
  obtain ⟨hmay, -⟩ := hsep.cleared fun l hl => absurd hl (hnone l)
  obtain ⟨hcount, hnil⟩ := h.unsecured fun l hl => absurd hl (hnone l)
  rw [connectTo, safe_bind, safe_ask]
  intro err m' _ hans
  have hm' : m'.mayQueue = m.mayQueue ∧ m'.link = m.link ∧ m'.subCount = m.subCount ∧
      m'.subs = m.subs ∧ m'.subscribed = m.subscribed := by
    cases err <;> cases hans <;> exact ⟨rfl, rfl, rfl, rfl, rfl⟩
  obtain ⟨hmay', hlink', hcount', hsubs', hnil'⟩ := hm'
  have hnext : Tallied m' := .of_zero (hcount'.trans hcount) (hnil'.trans hnil)
  refine ⟨fun io hJ => hJ.congr hmay' (fun hsome => hlink' ▸ hsome) hcount' hsubs', ?_⟩
  rw [safe_ite]
  refine ⟨fun _ => hnext, fun _ => (safe_askOr (by simp) (by simp) _).mpr
    ⟨fun _ => ⟨fun io hJ => ⟨hJ.empty, fun _ q hq => ?_⟩, ?_⟩, fun _ _ _ => hnext.safe_startScan⟩⟩
  · have hq' : q ∈ io.queue := hq
    rw [hJ.empty (hmay' ▸ hmay)] at hq'
    cases hq'
  · exact .of_zero (hcount'.trans hcount) (hnil'.trans hnil)

theorem Tallied.safe_connected (h : Tallied m) (hsep : Separated m) {l : Link}
    (hl : m.link = some l) (hup : ¬ l.up) (err : Bool) : SafeTallied cfg P (connected err)
      { m with link := if err then none else some { l with up := true } } := by
  have hopen : ∀ l', m.link = some l' → ¬ l'.secured := fun l' hl' hsecured => by
    cases hl.symm.trans hl'
    exact hup (hsep.secured_up l hl hsecured)
  obtain ⟨hcount, hnil⟩ := h.unsecured hopen
  rw [SafeTallied, connected, safe_ite]
  constructor
  · intro _
    simp only [unrefDefaultConn, safe_bind, safe_assign]
    refine ⟨fun io hJ => hJ.congr rfl (fun hsome => hsome) rfl rfl,
      fun io hJ => hJ.congr rfl (fun hsome => hsome) rfl rfl, Tallied.safe_startScan ?_⟩
    exact .of_zero hcount hnil
  · intro _
    refine (safe_askOr (by simp) (by simp) _).mpr ⟨fun _ => ⟨fun io hJ => ?_, ?_⟩, fun _ _ _ => ?_⟩
    · exact hJ.congr rfl (fun hsome => Option.isSome_map.symm.trans hsome) rfl rfl
    · exact .of_zero hcount hnil
    · exact .of_zero hcount hnil

theorem Tallied.safe_securityChanged (h : Tallied m) {l : Link} (hl : m.link = some l) (level : ℕ)
    (err : Bool) (honce : securedOnce.onEvent m (.securityChanged level err)) :
    SafeTallied cfg P (securityChanged l.peer level err)
      { m with
        link := some { l with
          securing := false
          secured := l.secured || reportsSecured level err } } := by
  rw [SafeTallied, securityChanged, safe_ite]
  constructor
  · -- the link is marked, and is as secured as before
    intro hfail
    have hreports : reportsSecured level err = false :=
      Bool.eq_false_of_not_eq_true fun hreports => reportsSecured_iff.mp hreports hfail
    rw [hreports, Bool.or_false, securityFailed, safe_bind, safe_assign]
    have hsame (f : Link → Link) (hf : (f l).secured = l.secured)
        (hopen : ∀ l', some (f l) = some l' → ¬ l'.secured) :
        ∀ l', m.link = some l' → ¬ l'.secured := by
      intro l' hl'
      cases hl.symm.trans hl'
      rw [← hf]
      exact hopen (f l) rfl
    refine ⟨fun io hJ => hJ.congr rfl (fun hsome => hsome) rfl rfl,
      (safe_askOr (by simp) (by simp) _).mpr ⟨fun _ => ⟨fun io hJ => ?_, ?_⟩, fun _ _ _ => ?_⟩⟩
    · exact hJ.congr rfl (fun _ => rfl) rfl rfl
    · exact h.congr rfl (hsame (fun l => { l with securing := false, disconnecting := true }) rfl)
        fun he => he
    · exact h.congr rfl (hsame (fun l => { l with securing := false }) rfl) fun he => he
  · -- the first success finds no slot counted
    intro hsecured
    have hreports : reportsSecured level err = true := reportsSecured_iff.mpr hsecured
    have hopen : ∀ l', m.link = some l' → ¬ l'.secured := fun l' hl' => by
      cases hl.symm.trans hl'
      simpa [securedOnce, hreports, hl] using honce
    obtain ⟨hcount, hnil⟩ := h.unsecured hopen
    rw [startDiscovery, safe_bind, safe_assign]
    refine ⟨fun io hJ => hJ.congr rfl (fun hsome => hsome) rfl rfl, ?_⟩
    have hsearch : Searches cfg P (do
        assign fun m => { m with
          hidsEndHandle := 0
          discoverParams := ⟨uuidHids, firstAttributeHandle, lastAttributeHandle, .primary⟩
          discState := .hidsPrimary }
        discoverOr (pure ())) :=
      .bind (.assign fun _ => rfl) fun _ => searches_discoverOr (.pure ())
    refine Safe.mono (safeSlots_of_searches hsearch) fun _ m' heq => ?_
    obtain ⟨hcount', hnil'⟩ := Prod.mk.inj heq
    exact .of_zero (hcount'.trans hcount) (hnil'.trans hnil)

/-- A disconnect clears the slots, and later the queue. -/
theorem Tallied.safe_disconnected (htracked : Tracked m) {l : Link} (hl : m.link = some l) :
    SafeTallied cfg P (disconnected cfg l.conn)
      { m with link := none, procs := [], subscribed := [] } := by
  have hconn : m.defaultConn = some l.conn := by rw [← htracked.link_eq, hl, Option.map_some]
  rw [SafeTallied, disconnected, safe_bind, safe_look, safe_ite]
  refine ⟨fun hne => absurd hconn hne, ?_⟩
  intro _
  have hdown (hsome : (none : Option Link).isSome) : False := Bool.false_ne_true hsome
  simp only [unrefDefaultConn, invalidateLayout, safe_bind, safe_assign, safe_emit]
  refine ⟨fun io hJ => ⟨hJ.empty, fun hs => (hdown hs).elim⟩,
    fun io hJ => ⟨hJ.empty, fun hs => (hdown hs).elim⟩,
    fun io hJ => ⟨hJ.empty, fun hs => (hdown hs).elim⟩,
    fun io hJ => ⟨hJ.empty, fun hs => (hdown hs).elim⟩,
    fun io hJ => ⟨hJ.empty, fun hs => (hdown hs).elim⟩,
    fun io hJ => ⟨hJ.empty, fun hs => (hdown hs).elim⟩,
    fun io hJ => ⟨fun _ => rfl, fun hs => (hdown hs).elim⟩,
    fun io hJ => ⟨hJ.empty, fun hs => (hdown hs).elim⟩, Tallied.safe_startScan ?_⟩
  exact .of_zero rfl rfl

/-- A notification is put in the queue with the id of its slot. -/
theorem Tallied.safe_notifyCb (h : Tallied m) (conn : ℕ) {slot : ℕ} (hslot : slot ∈ m.subscribed)
    (data : List U8) : SafeTallied cfg P (notifyCb conn slot data) m := by
  rw [SafeTallied, notifyCb, safe_emit]
  refine ⟨fun io hJ => ⟨fun hmay => absurd rfl hmay, fun hsome q hq => ?_⟩,
    h.congr rfl (fun ho => ho) fun he => he⟩
  unfold msgqPut at hq
  split at hq
  · rcases List.mem_append.mp hq with hq | hq
    · exact hJ.labels hsome q hq
    · rw [List.mem_singleton.mp hq]
      exact ⟨slot, h.made slot hslot, rfl⟩
  · exact hJ.labels hsome q hq

/-- A subscription that is torn down keeps its id. -/
theorem reportId_tearDown (m : Central) (slot i : ℕ) :
    (subscription { m with subs := m.subs.modify slot fun s => { s with valueHandle := 0 } }
      i).reportId = (subscription m i).reportId := by
  rw [subscription, subscription, List.getD_eq_getElem?_getD, List.getD_eq_getElem?_getD,
    List.getElem?_modify]
  cases m.subs[i]? with
  | none => rfl
  | some s => by_cases hi : slot = i <;> simp [hi]

/-- **Each event is survived.** -/
theorem Tallied.safe_enter (h : Tallied m) (hsep : Separated m) (htracked : Tracked m)
    (hJ : Labelled m io) {e : Event} {m' : Central} {io' : Pipeline} {p : Callback Unit}
    (hok : securedOnce.onEvent m e) (henter : Entered cfg m io e m' io' p) :
    Labelled m' io' ∧ SafeTallied cfg P p m' := by
  cases henter with
  | advertise addr type ad => exact ⟨hJ, h.safe_deviceFound hsep htracked addr type ad⟩
  | scanRetry =>
    refine ⟨hJ.congr rfl (fun hsome => hsome) rfl rfl, ?_⟩
    have hretry : Tallied { m with retryPending := false } := h.congr rfl (fun ho => ho) id
    rw [SafeTallied, scanRetryHandler, safe_bind, safe_look, safe_ite]
    exact ⟨fun _ => hretry.safe_startScan, fun _ => hretry⟩
  | connected err hl hup =>
    refine ⟨hJ.congr rfl (fun _ => ?_) rfl rfl, h.safe_connected hsep hl hup err⟩
    rw [hl, Option.isSome_some]
  | securityChanged level err hl =>
    refine ⟨hJ.congr rfl (fun _ => ?_) rfl rfl, h.safe_securityChanged hl level err hok⟩
    rw [hl, Option.isSome_some]
  | disconnected hl =>
    refine ⟨⟨hJ.empty, fun hsome => absurd hsome Bool.false_ne_true⟩, ?_⟩
    exact Tallied.safe_disconnected htracked hl
  | @discovered n l hl hup q hq a =>
    obtain ⟨hnil, hnames⟩ := hsep.sequential.take hq
    have htaken : Tallied (takeProc n m) := h.congr rfl (fun ho => ho) fun he => he
    refine ⟨hJ.congr rfl (fun hsome => hsome) rfl rfl, ?_⟩
    refine htaken.safe_gatt hl (hsep.secured_of_proc hl hq) (fun he => he) ?_
      (safe_deliver_alone hnil hnames a) (leaves_deliver (eq_of_offMap linkState_eq) q a)
    refine Safe.mono (safe_deliver_slots htaken.made (fun he => (htaken.early he).1) q a) ?_
    rintro u m' (heq | ⟨hstate, hmade⟩)
    · exact Or.inl heq
    · exact Or.inr ⟨by rw [hstate]; rfl, hmade⟩
  | @discoverDone n l hl hup q hq =>
    obtain ⟨hnil, -⟩ := hsep.sequential.take hq
    have htaken : Tallied (takeProc n m) := h.congr rfl (fun ho => ho) fun he => he
    refine ⟨hJ.congr rfl (fun hsome => hsome) rfl rfl, ?_⟩
    refine htaken.safe_gatt hl (hsep.secured_of_proc hl hq) (fun he => he) ?_
      (safe_finishDiscover_alone hnil) (leaves_finishDiscover linkState_eq_of_offCursor)
    exact Safe.mono (safeSlots_finishDiscover fun he => (htaken.early he).1)
      fun _ _ heq => Or.inl heq
  | @readMap n err data l hl hup handle received hq =>
    obtain ⟨hnil, hnames⟩ := hsep.sequential.take hq
    have hstate : m.discState = .reportMapChrc := hnames
    have hzero : m.subCount = 0 := (h.early (by rw [hstate]; rfl)).1
    let c := noteMapRead l.conn received err data (takeProc n m)
    have hnil' : c.procs = [] := hnil
    have hstate' : c.discState = .reportMapChrc := hstate
    have hzero' : c.subCount = 0 := hzero
    have htaken : Tallied c := h.congr rfl (fun ho => ho) fun he => he
    refine ⟨?_, htaken.safe_gatt hl (hsep.secured_of_proc hl hq) (fun he => he) ?_ ?_
      (leaves_respondMap linkState_eq handle received err data)⟩
    · unfold recordMapRead
      split
      · exact ⟨hJ.empty, hJ.labels⟩
      · exact ⟨hJ.empty, hJ.labels⟩
    · exact Safe.mono (safeSlots_respondMap hzero' handle received err data)
        fun _ _ heq => Or.inl heq
    · refine (safe_respondMap_alone hnil' hstate' handle received err data).mono fun _ m' hseq => ?_
      exact ⟨hseq, fun _ => by rw [hstate']; rfl⟩
  | @readRef n err data l hl hup handle hq =>
    obtain ⟨hnil, -⟩ := hsep.sequential.take hq
    have htaken : Tallied (takeProc n m) := h.congr rfl (fun ho => ho) fun he => he
    refine ⟨hJ.congr rfl (fun hsome => hsome) rfl rfl, ?_⟩
    refine htaken.safe_gatt hl (hsep.secured_of_proc hl hq) (absurd · Bool.false_ne_true) ?_
      (safe_respondRef_alone hnil err data) (leaves_respondRef linkState_eq_of_offCursor err data)
    exact Safe.mono (safeSlots_of_searches (searches_respondRef err data)) fun _ _ heq => Or.inl heq
  | @notified slot data l hl hup hslot => exact ⟨hJ, h.safe_notifyCb l.conn hslot data⟩
  | unsubscribed slot =>
    refine ⟨hJ.congr rfl (fun hsome => hsome) rfl rfl, ?_⟩
    rw [SafeTallied, unsubscribed, safe_assign]
    refine ⟨fun io hJ => ⟨hJ.empty, fun hsome q hq => ?_⟩, ?_, ?_, ?_⟩
    · obtain ⟨i, hlt, hid⟩ := hJ.labels hsome q hq
      exact ⟨i, hlt, hid.trans (reportId_tearDown _ slot i).symm⟩
    · intro ho
      obtain ⟨hcount, hnil⟩ := h.unsecured ho
      exact ⟨hcount, by rw [hnil]; rfl⟩
    · intro he
      obtain ⟨hcount, hnil⟩ := h.early he
      exact ⟨hcount, by rw [hnil]; rfl⟩
    · intro i hi
      exact h.made i (List.mem_of_mem_erase hi)
  | timePasses => exact ⟨hJ.congr rfl (fun hsome => hsome) rfl rfl, h.congr rfl (fun ho => ho) id⟩
  | bonded => exact ⟨hJ.congr rfl (fun hsome => hsome) rfl rfl, h.congr rfl (fun ho => ho) id⟩

/-- **Every report queued on a link carries the id of a slot that is counted**, at every
moment of a run in which success of a security procedure is reported once per connection. -/
theorem labelled_of_reachable {s : System} (h : Reachable cfg securedOnce s) :
    Labelled s.main s.io ∧ (s.Idle → Tallied s.main ∧ Separated s.main ∧ Tracked s.main) := by
  obtain ⟨bonds, uptime, accepts, hreach⟩ := h
  have hinit : soundly (Central.start bonds uptime) (Pipeline.start accepts) ∧
      Separated (Central.start bonds uptime) := by
    refine ⟨⟨fun q hq => absurd hq List.not_mem_nil, fun _ => rfl, rfl,
      (absurd · Bool.false_ne_true), fun k hk => absurd hk List.not_mem_nil, throughout_nil⟩,
      ⟨.of_nil rfl, fun _ => Bool.false_ne_true, ⟨List.length_replicate, Nat.zero_le _⟩,
        fun _ _ hr => absurd hr List.not_mem_nil⟩,
      .of_none rfl ⟨Bool.false_ne_true, Bool.false_ne_true⟩ rfl⟩
  have hlabelled : Labelled (Central.start bonds uptime) (Pipeline.start accepts) :=
    ⟨fun _ => rfl, fun hsome => absurd hsome Bool.false_ne_true⟩
  have htallied : Tallied (Central.start bonds uptime) := .of_zero rfl rfl
  have hstart : Unconnected (Central.start bonds uptime) := ⟨rfl, rfl, fun _ => rfl⟩
  have hinv := Machine.invariant
    (I := fun m => Tallied m ∧ Separated m ∧ Tracked m)
    (J := fun m io => Labelled m io ∧ soundly m io)
    ⟨⟨hlabelled, hinit.1⟩, Safe.both htallied.safe_startScan
      (Safe.and hinit.2.safe_startScan hstart.safe_startScan)⟩
    (fun m io hJ _ => ⟨hJ.1.turn, soundly_reportWorkTurn hJ.2⟩)
    (fun e m io m' io' p hI hJ hok henter => ?_) hreach
  · refine ⟨hinv.1.1, fun hidle => ?_⟩
    have hend := hinv.2
    rw [hidle] at hend
    exact hend
  · obtain ⟨htallied, hsep, htracked⟩ := hI
    have hentered : Entered cfg m io e m' io' p := entered_of_enter henter
    obtain ⟨hlabelled, hsafe⟩ := htallied.safe_enter hsep htracked hJ.1 hok hentered
    obtain ⟨hsound, hsafe'⟩ := hsep.safe_enter htracked hok hJ.2 hentered
    exact ⟨⟨hlabelled, hsound⟩,
      Safe.both hsafe (Safe.and hsafe' (htracked.safe_enter hentered))⟩

end BleHidHost
