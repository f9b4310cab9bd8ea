import BleHidHost.HostRuns

/-!
# What the computer sees

Behind the input queue a listener gathers motion and buttons, and hands them on at each
event that is marked for it.  Where the queue takes every event, it hands on the reports
that were published, one for one: a report is not torn in two, nor merged with its
neighbour, and the taps that stand for wheel ticks leave no trace in it.  A reset hands on
one update that releases whatever is held.

## Main definitions

* `Update`, `Listener` — what is handed on, and what gathers it.
* `Listener.hear` — one event.
* `Listener.receive` — one call, by what the call is for.

## Main results

* `listen_publish`, `listen_reset` — what the listener makes of a call.
* `listen_of_reachable` — **the computer sees the reports, and nothing else**, in any run.
-/

namespace BleHidHost

open Lib

/-! ### The listener -/

/-- What is handed on: motion, and the buttons held. -/
structure Update where
  dx : ℤ
  dy : ℤ
  hwheel : ℤ
  wheel : ℤ
  buttons : U8
  deriving DecidableEq, Repr

/-- No motion. -/
def Update.still (buttons : U8) : Update := ⟨0, 0, 0, 0, buttons⟩

/-- A button goes down or up. -/
def Update.press (u : Update) (i : ℕ) (pressed : Bool) : Update :=
  { u with
    buttons := if pressed then u.buttons ||| (1 : U8) <<< i else u.buttons &&& ~~~((1 : U8) <<< i) }

/-- Motion on an axis. -/
def Update.move (u : Update) (value : ℤ) : RelCode → Update
  | .x => { u with dx := u.dx + value }
  | .y => { u with dy := u.dy + value }
  | .hwheel => { u with hwheel := u.hwheel + value }
  | .wheel => { u with wheel := u.wheel + value }

/-- What an event says.  The codes that stand for wheel ticks are bound to other keys. -/
def Update.note (u : Update) : InputEvent → Update
  | .key (.button i) pressed _ => u.press i pressed
  | .key (.dpad _) _ _ => u
  | .rel code value _ => u.move value code

/-- What is gathered, and what was handed on. -/
structure Listener where
  current : Update
  updates : List Update
  deriving DecidableEq, Repr

/-- One event: it is noted, and what is gathered is handed on where the event says so. -/
def Listener.hear (l : Listener) (ev : InputEvent) : Listener :=
  let u := l.current.note ev
  if ev.sync then ⟨.still u.buttons, l.updates ++ [u]⟩ else ⟨u, l.updates⟩

/-- What a sequence of events comes to. -/
def listen (events : List InputEvent) : Listener := events.foldl Listener.hear ⟨.still 0, []⟩

theorem listen_concat (events : List InputEvent) (ev : InputEvent) :
    listen (events ++ [ev]) = (listen events).hear ev := by
  rw [listen, List.foldl_append]
  rfl

variable {keys : WheelKeys} {h h' h'' : Host} {l : Listener}

/-- An event is heard or dropped. -/
theorem listen_report (h : Host) (ev : InputEvent) : listen (h.report ev).events =
    if h.accepting then (listen h.events).hear ev else listen h.events := by
  unfold Host.report
  split
  · exact listen_concat _ _
  · rfl

/-- Motion by nothing is not heard. -/
theorem hear_zero (l : Listener) (code : RelCode) : l.hear (.rel code 0 false) = l := by
  obtain ⟨⟨dx, dy, hwheel, wheel, buttons⟩, updates⟩ := l
  cases code <;> simp [Listener.hear, Update.note, Update.move, InputEvent.sync]

/-- A button's bit. -/
theorem getLsbD_press (u : Update) (j : ℕ) (pressed : Bool) (i : ℕ) :
    (u.press j pressed).buttons.getLsbD i =
      if j = i then decide (i < 8) && pressed else u.buttons.getLsbD i := by
  have hone : ((1 : U8) <<< j).getLsbD i = (decide (i < 8) && decide (j = i)) := by
    have hpow : (1 : U8) <<< j = BitVec.twoPow 8 j := rfl
    rw [hpow, BitVec.getLsbD_twoPow]
    by_cases hij : j = i
    · subst hij
      simp
    · simp [hij]
  have hhigh : ¬ i < 8 → u.buttons.getLsbD i = false := fun hi =>
    BitVec.getLsbD_of_ge _ _ (not_lt.mp hi)
  cases pressed with
  | true =>
    have hset : (u.press j true).buttons.getLsbD i =
        (u.buttons.getLsbD i || decide (i < 8) && decide (j = i)) := by
      rw [← hone]
      exact BitVec.getLsbD_or
    rw [hset]
    by_cases hij : j = i
    · by_cases hi : i < 8
      · simp [hij, hi]
      · simp [hij, hi, hhigh hi]
    · simp [hij]
  | false =>
    have hclear : (u.press j false).buttons.getLsbD i =
        (u.buttons.getLsbD i && (decide (i < 8) && !(decide (i < 8) && decide (j = i)))) := by
      rw [← hone, ← BitVec.getLsbD_not]
      exact BitVec.getLsbD_and
    rw [hclear]
    by_cases hij : j = i
    · simp [hij]
    · by_cases hi : i < 8
      · simp [hij, hi]
      · simp [hij, hi, hhigh hi]

/-- **The listener's buttons** are those whose latest event is a press. -/
theorem buttons_listen (events : List InputEvent) (i : ℕ) :
    (listen events).current.buttons.getLsbD i =
      (decide (i < 8) && isPressed events (.button i)) := by
  induction events using List.reverseRecOn with
  | nil => simp [listen, Update.still]
  | append_singleton events ev ih =>
    have hbuttons : ((listen events).hear ev).current.buttons =
        ((listen events).current.note ev).buttons := by
      unfold Listener.hear
      split <;> rfl
    rw [listen_concat, hbuttons, isPressed_concat]
    cases ev with
    | rel code value sync => cases code <;> exact ih
    | key code pressed sync =>
      cases code with
      | dpad idx =>
        rw [Update.note]
        simpa [pressedStep] using ih
      | button j =>
        rw [Update.note, getLsbD_press, ih]
        simp only [pressedStep, KeyCode.button.injEq]
        split <;> rfl

/-- Where the device and the host agree, the listener holds the buttons of the device. -/
theorem InSync.buttons_eq (hs : InSync h) :
    (listen h.events).current.buttons = h.prevButtons.setWidth 8 := by
  apply BitVec.eq_of_getLsbD_eq
  intro i hi
  rw [buttons_listen, BitVec.getLsbD_setWidth, hs i]
  simp [hi, publishBtns]

/-! ### What is not heard -/

theorem listen_dpad (h : Host) (idx : DpadIdx) (pressed : Bool) :
    listen (h.report (.key (.dpad idx) pressed false)).events = listen h.events := by
  rw [listen_report]
  exact ite_self _

/-- Taps are not heard. -/
theorem tapBlind_listen : TapBlind fun h h' => listen h'.events = listen h.events where
  refl _ := rfl
  trans hfirst hrest := hrest.trans hfirst
  report := listen_dpad
  pending _ heq := heq

theorem listen_elim_tapBtn (tap : Option DpadIdx) (h : Host) :
    listen (tap.elim h (tapBtn h)).events = listen h.events := by
  cases tap with
  | none => rfl
  | some idx => exact tapBlind_listen.tapBtn h idx

/-! ### What is gathered -/

/-- The listener's buttons may have changed, and nothing else. -/
def Quiet (h h' : Host) : Prop :=
  ∃ b, listen h'.events =
    { listen h.events with current := { (listen h.events).current with buttons := b } }

theorem Quiet.refl (h : Host) : Quiet h h := ⟨_, rfl⟩

theorem Quiet.trans (hfirst : Quiet h h') (hrest : Quiet h' h'') : Quiet h h'' := by
  obtain ⟨b, hb⟩ := hfirst
  obtain ⟨b', hb'⟩ := hrest
  exact ⟨b', by rw [hb', hb]⟩

/-- An edge that is not marked hands nothing on. -/
theorem quiet_button (h : Host) (i : ℕ) (pressed : Bool) :
    Quiet h (h.report (.key (.button i) pressed false)) := by
  unfold Quiet
  rw [listen_report]
  split
  · exact ⟨_, rfl⟩
  · exact ⟨_, rfl⟩

theorem quiet_publishButtons (h : Host) (r : PointerReport) : Quiet h (publishButtons h r) := by
  have hloop (is : List ℕ) (s : Host × U32) :
      Quiet s.1 (is.foldl (publishButton r (r.buttons ^^^ h.prevButtons)) s).1 := by
    induction is generalizing s with
    | nil => exact .refl _
    | cons i is ih =>
      refine Quiet.trans ?_ (ih _)
      unfold publishButton
      split
      · exact quiet_button s.1 _ _
      · exact .refl _
  exact hloop (List.range publishBtns) (h, 0)

theorem listen_rel {code : RelCode} {value : ℤ} {sync : Bool}
    (hall : AllAccepted h (h.report (.rel code value sync))) :
    listen (h.report (.rel code value sync)).events =
      (listen h.events).hear (.rel code value sync) := by
  rw [listen_report, if_pos]
  exact hall h.offered le_rfl (Nat.lt_succ_self _)

theorem listen_reportDelta {code : RelCode} {value : ℤ}
    (hall : AllAccepted h (reportDelta code value h)) :
    listen (reportDelta code value h).events =
      (listen h.events).hear (.rel code value false) := by
  unfold reportDelta at hall ⊢
  split
  · next hne =>
    rw [if_pos hne] at hall
    exact listen_rel hall
  · next hzero => rw [not_not.mp hzero, hear_zero]

theorem listen_publishHwheel {r : PointerReport} (hall : AllAccepted h (publishHwheel keys r h)) :
    listen (publishHwheel keys r h).events = (listen h.events).hear
      (.rel .hwheel (if keys.hwheelAsKeys then 0 else r.hwheel) false) := by
  unfold publishHwheel at hall ⊢
  split
  · rw [hear_zero]
    split
    · exact tapBlind_listen.tapBtn h .left
    · split
      · exact tapBlind_listen.tapBtn h .right
      · rfl
  · next hkeys =>
    rw [if_neg hkeys] at hall
    exact listen_reportDelta hall

theorem listen_publishWheel {r : PointerReport} (hall : AllAccepted h (publishWheel keys r h)) :
    listen (publishWheel keys r h).events = (listen h.events).hear
      (.rel .wheel (if keys.wheelAsKeys then 0 else r.wheel) true) := by
  rw [publishWheel_eq] at hall ⊢
  rw [listen_rel (hall.rest (ahead_elim_tapBtn _ h)), listen_elim_tapBtn]

/-! ### A publish -/

/-- The update of a report.  A wheel whose ticks are taps does not scroll. -/
def PointerReport.update (keys : WheelKeys) (r : PointerReport) : Update where
  dx := r.dx
  dy := r.dy
  hwheel := if keys.hwheelAsKeys then 0 else r.hwheel
  wheel := if keys.wheelAsKeys then 0 else r.wheel
  buttons := r.buttons.setWidth 8

/-- Behind a publish that is accepted, the buttons are those of the report. -/
theorem buttons_publish (hs : InSync h) {r : PointerReport}
    (hall : AllAccepted h (bleHidHostPublish keys h r)) :
    (listen (bleHidHostPublish keys h r).events).current.buttons = r.buttons.setWidth 8 := by
  rw [(inSync_publish keys r hs).buttons_eq]
  apply BitVec.eq_of_getLsbD_eq
  intro i hi
  rw [BitVec.getLsbD_setWidth, BitVec.getLsbD_setWidth, (button_publish hall hi).1]

/-- **A publish that is accepted** hands on its report, and leaves nothing gathered. -/
theorem listen_publish (hs : InSync h) {r : PointerReport}
    (hall : AllAccepted h (bleHidHostPublish keys h r)) {b : U8} {updates : List Update}
    (hl : listen h.events = ⟨.still b, updates⟩) :
    listen (bleHidHostPublish keys h r).events =
      ⟨.still (r.buttons.setWidth 8), updates ++ [r.update keys]⟩ := by
  -- the edges come first, behind the retries
  obtain ⟨b', hopen⟩ := quiet_publishButtons (flushKeyed keys h) r
  rw [tapBlind_listen.flushKeyed, hl] at hopen
  have hrest : AllAccepted (publishButtons (flushKeyed keys h) r) (bleHidHostPublish keys h r) :=
    (hall.rest (ahead_flushKeyed keys h)).rest (offers_publishButtons _ r).1.ahead
  generalize hstate : publishButtons (flushKeyed keys h) r = h₁ at hopen hrest
  have hpublish : bleHidHostPublish keys h r = publishWheel keys r (publishHwheel keys r
      (reportDelta .y r.dy (reportDelta .x r.dx h₁))) := by rw [← hstate]; rfl
  -- then the axes, one by one
  have hx : Ahead h₁ (reportDelta .x r.dx h₁) := (offers_reportDelta .x r.dx _).ahead
  have hy : Ahead (reportDelta .x r.dx h₁) (reportDelta .y r.dy (reportDelta .x r.dx h₁)) :=
    (offers_reportDelta .y r.dy _).ahead
  have hhwheel := ahead_publishHwheel keys r (reportDelta .y r.dy (reportDelta .x r.dx h₁))
  have hwheel := ahead_publishWheel keys r
    (publishHwheel keys r (reportDelta .y r.dy (reportDelta .x r.dx h₁)))
  have hbuttons := buttons_publish hs hall
  rw [hpublish] at hrest hbuttons ⊢
  have hevents := listen_publishWheel (((hrest.rest hx).rest hy).rest hhwheel)
  rw [listen_publishHwheel (((hrest.rest hx).rest hy).first hwheel),
    listen_reportDelta ((hrest.rest hx).first (hhwheel.trans hwheel)),
    listen_reportDelta (hrest.first (hy.trans (hhwheel.trans hwheel))), hopen] at hevents
  rw [hevents] at hbuttons ⊢
  have hb : b' = r.buttons.setWidth 8 := hbuttons
  subst hb
  simp [Listener.hear, InputEvent.sync, Update.note, Update.move, Update.still,
    PointerReport.update]

/-! ### A reset -/

/-- The loop for the highest held button finds it. -/
theorem lastHeld_loop (held : U32) {n : ℕ} (hn : n ≤ 32) :
    ∀ last, last = (List.range n).foldl (fun (last : ℤ) (i : ℕ) =>
        if held &&& (1 : U32) <<< i ≠ 0 then (i : ℤ) else last) (-1) →
      (∀ i < n, held.getLsbD i → (i : ℤ) ≤ last) ∧ last < n ∧
        ∀ i : ℕ, last = i → held.getLsbD i := by
  induction n with
  | zero =>
    rintro last rfl
    exact ⟨fun i hi => absurd hi (Nat.not_lt_zero i), by simp, fun i hi => by simp at hi⟩
  | succ n ih =>
    rintro last rfl
    obtain ⟨hle, hlt, hheld⟩ := ih (by omega) _ rfl
    rw [List.range_succ, List.foldl_append, List.foldl_cons, List.foldl_nil]
    have hbit := and_shiftLeft_one_ne_zero held (show n < 32 by omega)
    split
    · next hc =>
      refine ⟨fun i hi _ => by omega, by omega, fun i hi => ?_⟩
      rw [← Int.natCast_inj.mp hi]
      exact hbit.mp hc
    · next hc =>
      refine ⟨fun i hi hi' => ?_, by omega, hheld⟩
      have hne : i ≠ n := fun heq => hc (hbit.mpr (heq ▸ hi'))
      exact hle i (by omega) hi'

theorem lastHeld_spec (held : U32) : (∀ i < publishBtns, held.getLsbD i → (i : ℤ) ≤ lastHeld held) ∧
    lastHeld held < publishBtns ∧ ∀ i : ℕ, lastHeld held = i → held.getLsbD i :=
  lastHeld_loop held (by decide) _ rfl

theorem ahead_releaseButtons (h : Host) (held : U32) {n : ℕ} (hn : n ≤ 32) :
    Ahead h ((List.range n).foldl (releaseButton held) h) := by
  obtain ⟨haccepts, hoffered, -⟩ := releaseButton_loop h held hn _ rfl
  exact ⟨haccepts, hoffered ▸ Nat.le_add_right _ _⟩

/-- **The release loop** hands on one update, at the highest held button. -/
theorem listen_releaseButtons (held : U32) {b : U8} {updates : List Update}
    (hl : listen h.events = ⟨.still b, updates⟩) {n : ℕ} (hn : n ≤ publishBtns)
    (hall : AllAccepted h ((List.range n).foldl (releaseButton held) h)) :
    ∃ b', listen ((List.range n).foldl (releaseButton held) h).events =
      ⟨.still b', if 0 ≤ lastHeld held ∧ lastHeld held < n then updates ++ [.still b']
        else updates⟩ := by
  obtain ⟨hle, -, hheld⟩ := lastHeld_spec held
  have h32 : publishBtns ≤ 32 := by decide
  induction n with
  | zero => exact ⟨b, hl.trans (by rw [if_neg (by omega)])⟩
  | succ n ih =>
    have hsplit : (List.range (n + 1)).foldl (releaseButton held) h =
        releaseButton held ((List.range n).foldl (releaseButton held) h) n := by
      rw [List.range_succ, List.foldl_append, List.foldl_cons, List.foldl_nil]
    have hahead := ahead_releaseButtons h held (n := n) (by omega)
    have hbit := and_shiftLeft_one_ne_zero held (show n < 32 by omega)
    rw [hsplit] at hall ⊢
    generalize (List.range n).foldl (releaseButton held) h = s at hahead hall ih
    unfold releaseButton at hall ⊢
    split
    · next hc =>
      rw [if_pos hc] at hall
      obtain ⟨b', hb'⟩ := ih (by omega) (hall.first (offers_report _ _).ahead)
      have hacc : s.accepting := (hall.rest hahead) s.offered le_rfl (Nat.lt_succ_self _)
      have htop : (n : ℤ) ≤ lastHeld held := hle n (by omega) (hbit.mp hc)
      rw [if_neg (by omega)] at hb'
      refine ⟨((Update.still b').press n false).buttons, ?_⟩
      rw [listen_report, if_pos hacc, hb']
      by_cases hlast : (n : ℤ) = lastHeld held
      · rw [if_pos (by omega), beq_iff_eq.mpr hlast]
        rfl
      · rw [if_neg (by omega), beq_eq_false_iff_ne.mpr hlast]
        rfl
    · next hc =>
      rw [if_neg hc] at hall
      obtain ⟨b', hb'⟩ := ih (by omega) hall
      -- the highest held button is not this one
      have hne : lastHeld held ≠ n := fun heq => hc (hbit.mpr (hheld n heq))
      refine ⟨b', hb'.trans ?_⟩
      congr 1
      exact if_congr (by omega) rfl rfl

theorem heldBelow_le (held : U32) {i n : ℕ} (hle : i ≤ n) :
    heldBelow held i ≤ heldBelow held n := by
  induction n, hle using Nat.le_induction with
  | base => exact le_rfl
  | succ n _ ih =>
    rw [heldBelow_succ]
    exact ih.trans (Nat.le_add_right _ _)

theorem bleHidHostReset_of_ne (hne : h.prevButtons ≠ 0) : bleHidHostReset keys h =
    { (List.range publishBtns).foldl (releaseButton h.prevButtons) (flushKeyed keys h) with
      prevButtons := 0 } := by
  unfold bleHidHostReset
  simp only
  rw [(sameButtons_flushKeyed keys h).1, if_neg hne]

theorem bleHidHostReset_of_eq (hzero : h.prevButtons = 0) :
    bleHidHostReset keys h = flushKeyed keys h := by
  unfold bleHidHostReset
  simp only
  rw [(sameButtons_flushKeyed keys h).1, if_pos hzero]

/-- What is accepted in all is accepted of the releases. -/
theorem AllAccepted.releases (hall : AllAccepted h (bleHidHostReset keys h)) :
    ReleasesAccepted keys h := by
  intro i hi hbit
  have hne : h.prevButtons ≠ 0 := by
    rintro hzero
    rw [hzero] at hbit
    simp at hbit
  obtain ⟨-, hoffered, -⟩ := releaseButton_loop (flushKeyed keys h) h.prevButtons
    (n := publishBtns) (by decide) _ rfl
  have hnext : heldBelow h.prevButtons (i + 1) = heldBelow h.prevButtons i + 1 := by
    rw [heldBelow_succ, if_pos hbit]
  have hle : heldBelow h.prevButtons (i + 1) ≤ heldBelow h.prevButtons publishBtns :=
    heldBelow_le h.prevButtons hi
  refine hall _ (by omega) ?_
  rw [bleHidHostReset_of_ne hne]
  refine lt_of_lt_of_eq ?_ hoffered.symm
  rw [flushKeyed_offered]
  omega

/-- **A reset that is accepted** hands on one update without buttons, where any is held. -/
theorem listen_reset (hs : InSync h) (hall : AllAccepted h (bleHidHostReset keys h))
    {updates : List Update} (hl : listen h.events = ⟨.still (h.prevButtons.setWidth 8), updates⟩) :
    listen (bleHidHostReset keys h).events =
      ⟨.still 0, if h.prevButtons = 0 then updates else updates ++ [.still 0]⟩ := by
  have hafter : InSync (bleHidHostReset keys h) := (inSync_reset_iff keys hs).mpr hall.releases
  have hbuttons := hafter.buttons_eq
  by_cases hzero : h.prevButtons = 0
  · rw [if_pos hzero, bleHidHostReset_of_eq hzero, tapBlind_listen.flushKeyed, hl, hzero]
    rfl
  · obtain ⟨hle, hlt, -⟩ := lastHeld_spec h.prevButtons
    -- some button is held, and no other bit is ever set
    have hsome : 0 ≤ lastHeld h.prevButtons := by
      by_contra hneg
      apply hzero
      apply BitVec.eq_of_getLsbD_eq
      intro i _
      refine Eq.trans ?_ BitVec.getLsbD_zero.symm
      by_contra hbit
      rw [Bool.not_eq_false] at hbit
      have hi : i < publishBtns := by
        rw [hs i, Bool.and_eq_true, decide_eq_true_eq] at hbit
        exact hbit.1
      have hge := hle i hi hbit
      omega
    rw [if_neg hzero]
    rw [bleHidHostReset_of_ne hzero] at hall hbuttons ⊢
    have hflushed := (tapBlind_listen.flushKeyed keys h).trans hl
    obtain ⟨b', hb'⟩ := listen_releaseButtons h.prevButtons hflushed le_rfl
      (hall.rest (ahead_flushKeyed keys h))
    rw [if_pos ⟨hsome, hlt⟩] at hb'
    have hb : b' = 0 := (congrArg (fun l => l.current.buttons) hb').symm.trans hbuttons
    rw [hb] at hb'
    exact hb'

/-! ### Sequences of calls -/

/-- What a call is for: a publish hands on its report, and a reset releases the buttons. -/
def Listener.receive (keys : WheelKeys) (l : Listener) : Call → Listener
  | .publish r => ⟨.still (r.buttons.setWidth 8), l.updates ++ [r.update keys]⟩
  | .reset =>
    ⟨.still 0, if l.current.buttons = 0 then l.updates else l.updates ++ [.still 0]⟩

/-- What a sequence of calls is for. -/
def received (keys : WheelKeys) (calls : List Call) : Listener :=
  calls.foldl (Listener.receive keys) ⟨.still 0, []⟩

theorem received_concat (keys : WheelKeys) (calls : List Call) (c : Call) :
    received keys (calls ++ [c]) = (received keys calls).receive keys c := by
  rw [received, List.foldl_append]
  rfl

theorem ahead_reset (keys : WheelKeys) (h : Host) : Ahead h (bleHidHostReset keys h) := by
  by_cases hzero : h.prevButtons = 0
  · rw [bleHidHostReset_of_eq hzero]
    exact ahead_flushKeyed keys h
  · rw [bleHidHostReset_of_ne hzero]
    exact (ahead_flushKeyed keys h).trans
      (ahead_releaseButtons (flushKeyed keys h) h.prevButtons (n := publishBtns) (by decide))

theorem ahead_call (keys : WheelKeys) (h : Host) (c : Call) : Ahead h (c.run keys h) := by
  cases c with
  | publish r => exact ahead_publish keys h r
  | reset => exact ahead_reset keys h

theorem ahead_hostAfter (keys : WheelKeys) (accepts : ℕ → Bool) (calls : List Call) :
    Ahead (.start accepts) (hostAfter keys accepts calls) := by
  induction calls using List.reverseRecOn with
  | nil => exact .refl _
  | append_singleton calls c ih =>
    rw [hostAfter_concat]
    exact ih.trans (ahead_call keys _ c)

/-- The buttons that the device believes held are those of the listener. -/
theorem prevButtons_eq_zero_iff (hs : InSync h) :
    h.prevButtons = 0 ↔ h.prevButtons.setWidth 8 = (0 : U8) := by
  constructor
  · intro hzero
    rw [hzero]
    rfl
  · intro hlow
    apply BitVec.eq_of_getLsbD_eq
    intro i _
    refine Eq.trans ?_ BitVec.getLsbD_zero.symm
    by_cases hi : i < publishBtns
    · have hbit : (h.prevButtons.setWidth 8).getLsbD i = (0 : U8).getLsbD i := by rw [hlow]
      rw [BitVec.getLsbD_setWidth] at hbit
      have hi8 : i < 8 := hi
      simpa [hi8] using hbit
    · rw [hs i, decide_eq_false hi, Bool.false_and]

/-- **Where every event is accepted**, a sequence of calls does what it is for. -/
theorem listen_hostAfter (keys : WheelKeys) (accepts : ℕ → Bool) (calls : List Call)
    (hall : AllAccepted (.start accepts) (hostAfter keys accepts calls)) :
    InSync (hostAfter keys accepts calls) ∧
      listen (hostAfter keys accepts calls).events = received keys calls ∧
      (received keys calls).current =
        .still ((hostAfter keys accepts calls).prevButtons.setWidth 8) := by
  induction calls using List.reverseRecOn with
  | nil => exact ⟨inSync_start accepts, rfl, rfl⟩
  | append_singleton calls c ih =>
    rw [hostAfter_concat] at hall ⊢
    rw [received_concat]
    obtain ⟨hs, hl, hcurrent⟩ := ih (hall.first (ahead_call keys _ c))
    have hcall := hall.rest (ahead_hostAfter keys accepts calls)
    generalize hostAfter keys accepts calls = h at hs hl hcurrent hcall
    have hopen : listen h.events =
        ⟨.still (h.prevButtons.setWidth 8), (received keys calls).updates⟩ := by
      rw [hl, ← hcurrent]
    cases c with
    | publish r =>
      have hafter := inSync_publish keys r hs
      have hheard := listen_publish hs hcall hopen
      refine ⟨hafter, hheard, ?_⟩
      show Update.still _ = _
      rw [← buttons_publish hs hcall, hafter.buttons_eq]
      rfl
    | reset =>
      have hafter := (inSync_reset_iff keys hs).mpr hcall.releases
      have hheard := listen_reset hs hcall hopen
      have hzero : h.prevButtons = 0 ↔ (received keys calls).current.buttons = 0 := by
        rw [hcurrent]
        exact prevButtons_eq_zero_iff hs
      refine ⟨hafter, hheard.trans ?_, ?_⟩
      · rw [Listener.receive]
        congr 1
        exact if_congr hzero rfl rfl
      · have hbuttons := hafter.buttons_eq
        rw [hheard] at hbuttons
        show Update.still 0 = _
        rw [Call.run, ← hbuttons]
        rfl

/-- Where every event is accepted, the listener has received the calls of a trace. -/
theorem CalledFor.listen_eq {trace : List Observation} (hcalled : CalledFor keys trace h)
    (hall : ∀ n < h.offered, h.accepts n) : listen h.events = received keys (hostCalls trace) := by
  obtain ⟨accepts, rfl⟩ := hcalled
  rw [(ahead_hostAfter keys accepts (hostCalls trace)).1] at hall
  exact (listen_hostAfter keys accepts (hostCalls trace) fun n _ hn => hall n hn).2.1

/-- **The computer sees the reports, and nothing else**, in any run in which the input queue
takes every event: one update was handed on for each report that was published, with its motion
and its buttons, and one for each disconnect that found a button held, which releases it, in
the order in which they happened; and nothing awaits the next.  Only the release of a disconnect
whose callback is running may still be due. -/
theorem listen_of_reachable {cfg : Setup} {P : Condition} {s : System} (hs : Reachable cfg P s)
    (hall : ∀ n < s.io.host.offered, s.io.host.accepts n) :
    (∃ before, (s.io.trace = before ∨ ∃ conn, s.io.trace = before ++ [.invalidated conn]) ∧
      listen s.io.host.events = received cfg.wheelKeys (hostCalls before)) ∧
      (s.Idle → listen s.io.host.events = received cfg.wheelKeys (hostCalls s.io.trace)) := by
  obtain ⟨⟨before, hlag, hcalled⟩, hidle⟩ := calledFor_of_reachable hs
  exact ⟨⟨before, hlag, hcalled.listen_eq hall⟩, fun h => (hidle h).listen_eq hall⟩

/-- Two buttons, motion and a tick of the wheel that is a tap; then the link ends. -/
theorem clickRun_listen :
    ∃ s, Reachable ⟨none, ⟨false, true⟩, fun _ => reportTable [4], fun _ => []⟩ .any s ∧
      hostCalls s.io.trace = [.publish ⟨3, 0, 1, 0, 5⟩, .reset] ∧
      listen s.io.host.events = ⟨.still 0, [⟨3, 0, 0, 0, 5⟩, .still 0]⟩ ∧
      listen s.io.host.events = received ⟨false, true⟩ (hostCalls s.io.trace) := by
  have hruns : (run (central ⟨none, ⟨false, true⟩, fun _ => reportTable [4], fun _ => []⟩).step
      (clickRun ++ [.answer .success]) (start [] 0 fun _ => true)).map (fun s => decide (
        s.isIdle ∧ (∀ n < s.io.host.offered, s.io.host.accepts n) ∧
        hostCalls s.io.trace = [.publish ⟨3, 0, 1, 0, 5⟩, .reset] ∧
        listen s.io.host.events = ⟨.still 0, [⟨3, 0, 0, 0, 5⟩, .still 0]⟩)) = some true := by
    decide +kernel
  obtain ⟨s, hrun, heq⟩ := Option.map_eq_some_iff.mp hruns
  obtain ⟨hidle, hall, hcalls, hlisten⟩ := of_decide_eq_true heq
  have hs : Reachable ⟨none, ⟨false, true⟩, fun _ => reportTable [4], fun _ => []⟩ .any s :=
    reachable_any_of_run hrun
  exact ⟨s, hs, hcalls, hlisten,
    (listen_of_reachable hs hall).2 (Configuration.isIdle_iff.mp hidle)⟩

end BleHidHost
