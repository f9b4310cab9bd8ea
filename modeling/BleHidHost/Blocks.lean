import BleHidHost.BitStreams
import BleHidHost.Extension

/-!
# Blocks that declare what they use

A block of a Report Map re-declares every register before it is read, so what the blocks
in front of it left in the registers does not matter.  Two walks over one block, from any
two boundaries, agree on whatever the block has declared so far, and record the same
fields.

## Main definitions

* `Scope` — the registers a block has declared, with a copy for each Push.
* `WellScoped`, `Block` — a list of items that declares what it uses.
* `Agrees`, `Mirrors` — two walks, or two parsers, agree on what is declared.
* `NoApp` — a walk over some items opens no application of a kind.

## Main results

* `Agrees.step`, `Mirrors.step` — **an item keeps the agreement.**
* `Mirrors.run` — a block records the same fields in both parsers.
* `Boundary.block` — a block leads from a boundary to a boundary.
* `noApp_iff_of_agrees` — and opens the same applications.
-/

namespace BleHidHost

open Lib

/-! ### Scopes -/

/-- The registers that an Input item reads. -/
def inputTags : List GlobalTag := [.usagePage, .logicalMin, .reportSize, .reportCount, .reportId]

/-- What a block has declared so far. -/
structure Scope where
  /-- The registers that hold a declared value. -/
  here : List GlobalTag
  /-- The same for the registers that a Push has saved, the top first. -/
  saved : List (List GlobalTag)
  /-- A Report ID has been met. -/
  met : Bool
  deriving DecidableEq, Repr

/-- Nothing is declared. -/
def Scope.start : Scope := ⟨[], [], false⟩

/-- What is declared behind an item. -/
def Scope.step (sc : Scope) (it : Item) : Scope :=
  match itemType it.type with
  | .global =>
    match globalTag it.tag with
    | .push =>
      { sc with
        saved := if sc.saved.length < globalStackDepth then sc.here :: sc.saved else sc.saved }
    | .pop => { sc with here := sc.saved.headD sc.here, saved := sc.saved.tail }
    | .reportId => { sc with here := .reportId :: sc.here, met := true }
    | t => { sc with here := t :: sc.here }
  | _ => sc

/-- A Usage. -/
def Item.isUsage (it : Item) : Bool := itemType it.type == .local && localTag it.tag == .usage

/-- The one-byte Report ID that an item declares. -/
def Item.reportId? (it : Item) : Option U8 :=
  if itemType it.type = .global ∧ globalTag it.tag = .reportId then
    some ((itemU it.data).setWidth 8)
  else none

/-- The Report IDs of a list of items. -/
def reportIds (its : List Item) : List U8 := its.filterMap Item.reportId?

/-- A Usage follows a Usage Page of the block, and an Input item follows declarations of
all it reads. -/
def Scope.Admits (sc : Scope) (it : Item) : Prop :=
  (it.isUsage → .usagePage ∈ sc.here) ∧ (it.isInput → ∀ t ∈ inputTags, t ∈ sc.here)

instance (sc : Scope) (it : Item) : Decidable (sc.Admits it) := inferInstanceAs (Decidable (_ ∧ _))

/-- Every item is admitted, and every Push is popped at the end. -/
def WellScoped : Scope → List Item → Prop
  | sc, [] => sc.saved = []
  | sc, it :: its => sc.Admits it ∧ WellScoped (sc.step it) its

/-- `WellScoped` is decided item by item. -/
def decidableWellScoped : (its : List Item) → (sc : Scope) → Decidable (WellScoped sc its)
  | [], sc => inferInstanceAs (Decidable (sc.saved = []))
  | it :: its, sc =>
    haveI := decidableWellScoped its (sc.step it)
    inferInstanceAs (Decidable (sc.Admits it ∧ WellScoped (sc.step it) its))

instance (sc : Scope) (its : List Item) : Decidable (WellScoped sc its) :=
  decidableWellScoped its sc

/-- A block: it declares what it uses, its Report IDs are nonzero, and it closes the
collections it opens, the last with its last item. -/
structure Block (its : List Item) : Prop where
  wellScoped : WellScoped .start its
  ids_ne_zero : (0 : U8) ∉ reportIds its
  balanced : Balanced its
  closes : its.getLast?.map Item.nesting = some .closes

/-- The Report IDs of a list are those of its items. -/
theorem forall_reportIds_cons {ids : List U8} {it : Item} {its : List Item} :
    (∀ id ∈ reportIds (it :: its), id ∈ ids) ↔
      (∀ id ∈ it.reportId?, id ∈ ids) ∧ ∀ id ∈ reportIds its, id ∈ ids := by
  unfold reportIds
  cases h : it.reportId? with
  | none => simp [h]
  | some id => simp [h]

/-! ### Registers by their tags -/

/-- The register that a Global item declares, as a number. -/
def GlobalState.register (g : GlobalState) : GlobalTag → ℤ
  | .usagePage => g.usagePage.toNat
  | .logicalMin => g.logicalMin
  | .reportSize => g.reportSize.toNat
  | .reportCount => g.reportCount.toNat
  | .reportId => g.reportId.toNat
  | _ => 0

/-- What a Global item puts into its register. -/
def Item.register (it : Item) : GlobalTag → ℤ
  | .usagePage => ((itemU it.data).setWidth 16 : U16).toNat
  | .logicalMin => itemS it.data
  | .reportSize => ((itemU it.data).setWidth 8 : U8).toNat
  | .reportCount => ((itemU it.data).setWidth 8 : U8).toNat
  | .reportId => ((itemU it.data).setWidth 8 : U8).toNat
  | _ => 0

/-- The registers that an Input item reads are all there are. -/
theorem GlobalState.eq_of_register {g g' : GlobalState}
    (h : ∀ t ∈ inputTags, g.register t = g'.register t) : g = g' := by
  have hpage := h .usagePage (by decide)
  have hmin := h .logicalMin (by decide)
  have hsize := h .reportSize (by decide)
  have hcount := h .reportCount (by decide)
  have hid := h .reportId (by decide)
  simp only [GlobalState.register, Int.natCast_inj, BitVec.toNat_inj] at hpage hmin hsize hcount hid
  cases g
  cases g'
  simp only [GlobalState.mk.injEq]
  exact ⟨hpage, hmin, hsize, hcount, hid⟩

/-- **A Global item sets its register**, and leaves the others as they are. -/
theorem walkItem_register (w : Walk) {it : Item} (ht : itemType it.type = .global)
    (hpush : globalTag it.tag ≠ .push) (hpop : globalTag it.tag ≠ .pop) (t : GlobalTag) :
    (walkItem w it).g.register t =
      if t = globalTag it.tag then it.register t else w.g.register t := by
  unfold walkItem handleItem dispatch
  rw [ht]
  cases hg : globalTag it.tag with
  | push => exact absurd hg hpush
  | pop => exact absurd hg hpop
  | _ => cases t <;> rfl

/-! ### Two walks over one block -/

/-- Two sets of registers agree on what is declared.  Where no Report ID is, neither holds
one of the block's. -/
structure RegistersAgree (ids : List U8) (met : Bool) (declared : List GlobalTag)
    (g g' : GlobalState) : Prop where
  agree : ∀ t ∈ declared, g.register t = g'.register t
  reportId : .reportId ∈ declared → met ∧ g.reportId ∈ ids
  foreign : .reportId ∉ declared → g.reportId ∉ ids ∧ g'.reportId ∉ ids

/-- Two stacks of saved registers agree, level by level. -/
def SavedAgree (ids : List U8) (met : Bool) :
    List (List GlobalTag) → List GlobalState → List GlobalState → Prop
  | [], [], [] => True
  | declared :: saved, g :: gs, g' :: gs' =>
    RegistersAgree ids met declared g g' ∧ SavedAgree ids met saved gs gs'
  | _, _, _ => False

/-- Two walks agree on what a block has declared so far. -/
structure Agrees (ids : List U8) (sc : Scope) (w w' : Walk) : Prop where
  usages : w.usages = w'.usages
  usageMin : w.usageMin = w'.usageMin
  usageMax : w.usageMax = w'.usageMax
  hasUsageRange : w.hasUsageRange = w'.hasUsageRange
  registers : RegistersAgree ids sc.met sc.here w.g w'.g
  saved : SavedAgree ids sc.met sc.saved w.stack w'.stack
  /-- The first Report ID of the block zeroes the cursor in both walks. -/
  cursor : sc.met → w.bitCursor = w'.bitCursor
  depth : w.depth = w'.depth

section Registers

variable {ids : List U8} {b : Bool} {declared : List GlobalTag} {g g' : GlobalState}
  {saved : List (List GlobalTag)} {gs gs' : List GlobalState}

/-- Where everything an Input item reads is declared the registers are equal. -/
theorem RegistersAgree.eq (h : RegistersAgree ids b declared g g')
    (hall : ∀ t ∈ inputTags, t ∈ declared) : g = g' :=
  GlobalState.eq_of_register fun t ht => h.agree t (hall t ht)

/-- Declared Report IDs are equal. -/
theorem RegistersAgree.reportId_eq (h : RegistersAgree ids b declared g g')
    (hd : .reportId ∈ declared) : g.reportId = g'.reportId :=
  BitVec.toNat_inj.mp (Int.natCast_inj.mp (h.agree .reportId hd))

/-- Meeting a Report ID does not disturb what is declared. -/
theorem RegistersAgree.meet (h : RegistersAgree ids b declared g g') :
    RegistersAgree ids true declared g g' :=
  ⟨h.agree, fun hd => ⟨rfl, (h.reportId hd).2⟩, h.foreign⟩

theorem SavedAgree.meet (h : SavedAgree ids b saved gs gs') : SavedAgree ids true saved gs gs' := by
  induction saved generalizing gs gs' with
  | nil => cases gs <;> cases gs' <;> exact h
  | cons d saved ih =>
    cases gs with
    | nil => exact h
    | cons g gs =>
      cases gs' with
      | nil => exact h
      | cons g' gs' => exact ⟨h.1.meet, ih h.2⟩

/-- Agreeing stacks are of one height. -/
theorem SavedAgree.length (h : SavedAgree ids b saved gs gs') :
    gs.length = saved.length ∧ gs'.length = saved.length := by
  induction saved generalizing gs gs' with
  | nil =>
    cases gs with
    | nil =>
      cases gs' with
      | nil => exact ⟨rfl, rfl⟩
      | cons => exact absurd h id
    | cons => cases gs' <;> exact absurd h id
  | cons d saved ih =>
    cases gs with
    | nil => exact absurd h id
    | cons g gs =>
      cases gs' with
      | nil => exact absurd h id
      | cons g' gs' =>
        rcases ih h.2 with ⟨hg, hg'⟩
        exact ⟨congrArg Nat.succ hg, congrArg Nat.succ hg'⟩

/-- What a Pop restores agrees as it did when it was saved. -/
theorem SavedAgree.pop (h : SavedAgree ids b saved gs gs')
    (hg : RegistersAgree ids b declared g g') :
    RegistersAgree ids b (saved.headD declared) (gs.headD g) (gs'.headD g') ∧
      SavedAgree ids b saved.tail gs.tail gs'.tail := by
  rcases h.length with ⟨hlen, hlen'⟩
  cases saved with
  | nil =>
    obtain rfl := List.length_eq_zero_iff.mp hlen
    obtain rfl := List.length_eq_zero_iff.mp hlen'
    exact ⟨hg, h⟩
  | cons d saved =>
    cases gs with
    | nil => exact absurd hlen (Nat.succ_ne_zero _).symm
    | cons g gs =>
      cases gs' with
      | nil => exact absurd hlen' (Nat.succ_ne_zero _).symm
      | cons g' gs' => exact h

end Registers

section Walks

variable {ids : List U8} {sc : Scope} {w w' : Walk} {it : Item}

/-- Main items clear the local state, and only Input items move the cursor. -/
theorem Agrees.main (h : Agrees ids sc w w') (hit : sc.Admits it)
    (ht : itemType it.type = .main) :
    Agrees ids (sc.step it) (walkItem w it) (walkItem w' it) := by
  have hdepth : (walkItem w it).depth = (walkItem w' it).depth := by
    rw [walkItem_depth, walkItem_depth, h.depth]
  have hstep : sc.step it = sc := by rw [Scope.step, ht]
  have hcursor : sc.met → (walkItem w it).bitCursor = (walkItem w' it).bitCursor := by
    intro hmet
    have hcur := h.cursor hmet
    unfold walkItem handleItem dispatch
    rw [ht]
    cases hg : mainTag it.tag with
    | input =>
      -- both registers of the product are declared
      have heq := h.registers.eq (hit.2 (it.isInput_iff.mpr ⟨ht, hg⟩))
      show advance w.bitCursor (totalBits w) = advance w'.bitCursor (totalBits w')
      rw [hcur, totalBits, totalBits, heq]
    | _ => exact hcur
  have hkept : ∀ v : Walk, (walkItem v it).usages = [] ∧ (walkItem v it).usageMin = 0 ∧
      (walkItem v it).usageMax = 0 ∧ (walkItem v it).hasUsageRange = false ∧
      (walkItem v it).g = v.g ∧ (walkItem v it).stack = v.stack := by
    intro v
    unfold walkItem handleItem dispatch
    rw [ht]
    cases mainTag it.tag <;> exact ⟨rfl, rfl, rfl, rfl, rfl, rfl⟩
  rcases hkept w with ⟨hu, hmin, hmax, hr, hg, hs⟩
  rcases hkept w' with ⟨hu', hmin', hmax', hr', hg', hs'⟩
  rw [hstep]
  exact ⟨hu.trans hu'.symm, hmin.trans hmin'.symm, hmax.trans hmax'.symm, hr.trans hr'.symm,
    by rw [hg, hg']; exact h.registers, by rw [hs, hs']; exact h.saved, hcursor, hdepth⟩

/-- A declaration sets one register to the same value in both walks. -/
theorem Agrees.declare (h : Agrees ids sc w w') (ht : itemType it.type = .global)
    (hpush : globalTag it.tag ≠ .push) (hpop : globalTag it.tag ≠ .pop) :
    ∀ t ∈ globalTag it.tag :: sc.here,
      (walkItem w it).g.register t = (walkItem w' it).g.register t := by
  intro t hd
  rw [walkItem_register w ht hpush hpop, walkItem_register w' ht hpush hpop]
  split
  · rfl
  · next hne => exact h.registers.agree t ((List.mem_cons.mp hd).resolve_left hne)

/-- A Report ID of the block starts the same bit stream in both walks. -/
theorem Agrees.reportId (h : Agrees ids sc w w') (ht : itemType it.type = .global)
    (hg : globalTag it.tag = .reportId) (hid : (itemU it.data).setWidth 8 ∈ ids) :
    Agrees ids (sc.step it) (walkItem w it) (walkItem w' it) := by
  have hstep : sc.step it = { sc with here := .reportId :: sc.here, met := true } := by
    rw [Scope.step, ht, hg]
  have hdecl := h.declare ht (by rw [hg]; decide) (by rw [hg]; decide)
  have hwalk : ∀ v : Walk, walkItem v it =
      { v with
        bitCursor := if (itemU it.data).setWidth 8 ≠ v.g.reportId then 0 else v.bitCursor
        g := { v.g with reportId := (itemU it.data).setWidth 8 } } := by
    intro v
    unfold walkItem handleItem dispatch
    rw [ht, hg]
    rfl
  rw [hg, hwalk w, hwalk w'] at hdecl
  rw [hstep, hwalk w, hwalk w']
  refine ⟨h.usages, h.usageMin, h.usageMax, h.hasUsageRange,
    ⟨hdecl, fun _ => ⟨rfl, hid⟩, fun hd => absurd List.mem_cons_self hd⟩, h.saved.meet, ?_, h.depth⟩
  intro _
  simp only
  by_cases hd : .reportId ∈ sc.here
  · -- a further Report ID: the streams ran together
    rw [h.registers.reportId_eq hd, h.cursor (h.registers.reportId hd).1]
  · -- the first one is new to both walks
    rcases h.registers.foreign hd with ⟨hw, hw'⟩
    have hne : (itemU it.data).setWidth 8 ≠ w.g.reportId := fun heq => hw (heq ▸ hid)
    have hne' : (itemU it.data).setWidth 8 ≠ w'.g.reportId := fun heq => hw' (heq ▸ hid)
    rw [if_pos hne, if_pos hne']

/-- A declaration of another register leaves the bit streams alone. -/
theorem Agrees.register (h : Agrees ids sc w w') (ht : itemType it.type = .global)
    (hpush : globalTag it.tag ≠ .push) (hpop : globalTag it.tag ≠ .pop)
    (hid : globalTag it.tag ≠ .reportId) :
    Agrees ids (sc.step it) (walkItem w it) (walkItem w' it) := by
  have hdecl := h.declare ht hpush hpop
  have hstep : sc.step it = { sc with here := globalTag it.tag :: sc.here } := by
    rw [Scope.step, ht]
    cases hg : globalTag it.tag with
    | push => exact absurd hg hpush
    | pop => exact absurd hg hpop
    | reportId => exact absurd hg hid
    | _ => rfl
  have hkept : ∀ v : Walk, (walkItem v it).usages = v.usages ∧
      (walkItem v it).usageMin = v.usageMin ∧ (walkItem v it).usageMax = v.usageMax ∧
      (walkItem v it).hasUsageRange = v.hasUsageRange ∧ (walkItem v it).stack = v.stack ∧
      (walkItem v it).bitCursor = v.bitCursor ∧ (walkItem v it).depth = v.depth ∧
      (walkItem v it).g.reportId = v.g.reportId := by
    intro v
    unfold walkItem handleItem dispatch
    rw [ht]
    cases hg : globalTag it.tag with
    | push => exact absurd hg hpush
    | pop => exact absurd hg hpop
    | reportId => exact absurd hg hid
    | _ => exact ⟨rfl, rfl, rfl, rfl, rfl, rfl, rfl, rfl⟩
  rcases hkept w with ⟨hu, hmin, hmax, hr, hs, hc, hd, hi⟩
  rcases hkept w' with ⟨hu', hmin', hmax', hr', hs', hc', hd', hi'⟩
  have hsame : ∀ {P : Prop}, (.reportId ∈ sc.here → P) →
      .reportId ∈ globalTag it.tag :: sc.here → P :=
    fun hP hmem => hP ((List.mem_cons.mp hmem).resolve_left hid.symm)
  rw [hstep]
  refine ⟨by rw [hu, hu', h.usages], by rw [hmin, hmin', h.usageMin],
    by rw [hmax, hmax', h.usageMax], by rw [hr, hr', h.hasUsageRange], ⟨hdecl, ?_, ?_⟩,
    by rw [hs, hs']; exact h.saved, fun hmet => by rw [hc, hc', h.cursor hmet],
    by rw [hd, hd', h.depth]⟩
  · rw [hi]
    exact hsame h.registers.reportId
  · intro hmem
    rw [hi, hi']
    exact h.registers.foreign fun hin => hmem (List.mem_cons_of_mem _ hin)

/-- Global items declare a register, save the registers, or restore them. -/
theorem Agrees.global (h : Agrees ids sc w w') (ht : itemType it.type = .global)
    (hids : ∀ id ∈ it.reportId?, id ∈ ids) :
    Agrees ids (sc.step it) (walkItem w it) (walkItem w' it) := by
  cases hg : globalTag it.tag with
  | push =>
    -- the stacks are of one height, so both walks save their registers or neither does
    have hstep : sc.step it = { sc with
        saved := if sc.saved.length < globalStackDepth then sc.here :: sc.saved
          else sc.saved } := by
      rw [Scope.step, ht, hg]
    have hwalk : ∀ v : Walk, walkItem v it = { v with
        stack := if v.stack.length < globalStackDepth then v.g :: v.stack else v.stack } := by
      intro v
      unfold walkItem handleItem dispatch
      rw [ht, hg]
      rfl
    rcases h.saved.length with ⟨hlen, hlen'⟩
    rw [hstep, hwalk w, hwalk w']
    refine ⟨h.usages, h.usageMin, h.usageMax, h.hasUsageRange, h.registers, ?_, h.cursor, h.depth⟩
    simp only [hlen, hlen']
    split
    · exact ⟨h.registers, h.saved⟩
    · exact h.saved
  | pop =>
    have hstep : sc.step it =
        { sc with here := sc.saved.headD sc.here, saved := sc.saved.tail } := by
      rw [Scope.step, ht, hg]
    have hwalk : ∀ v : Walk, walkItem v it =
        { v with g := v.stack.headD v.g, stack := v.stack.tail } := by
      intro v
      unfold walkItem handleItem dispatch
      rw [ht, hg]
      rfl
    rcases h.saved.pop h.registers with ⟨hregs, hsaved⟩
    rw [hstep, hwalk w, hwalk w']
    exact ⟨h.usages, h.usageMin, h.usageMax, h.hasUsageRange, hregs, hsaved, h.cursor, h.depth⟩
  | reportId =>
    refine h.reportId ht hg (hids _ ?_)
    rw [Item.reportId?, if_pos ⟨ht, hg⟩]
    rfl
  | _ => exact h.register ht (by rw [hg]; decide) (by rw [hg]; decide) (by rw [hg]; decide)

/-- Local items add to the local state, a Usage on the declared page. -/
theorem Agrees.local (h : Agrees ids sc w w') (hit : sc.Admits it)
    (ht : itemType it.type = .local) :
    Agrees ids (sc.step it) (walkItem w it) (walkItem w' it) := by
  have hstep : sc.step it = sc := by rw [Scope.step, ht]
  rw [hstep]
  unfold walkItem handleItem dispatch
  rw [ht]
  cases hg : localTag it.tag with
  | usage =>
    have husage : it.isUsage = true := by simp [Item.isUsage, ht, hg]
    have hpage : w.g.usagePage = w'.g.usagePage :=
      BitVec.toNat_inj.mp (Int.natCast_inj.mp (h.registers.agree .usagePage (hit.1 husage)))
    refine ⟨?_, h.usageMin, h.usageMax, h.hasUsageRange, h.registers, h.saved, h.cursor, h.depth⟩
    simp only [handleLocal, h.usages, hpage]
  | usageMin =>
    exact ⟨h.usages, rfl, h.usageMax, rfl, h.registers, h.saved, h.cursor, h.depth⟩
  | usageMax =>
    exact ⟨h.usages, h.usageMin, rfl, rfl, h.registers, h.saved, h.cursor, h.depth⟩
  | other => exact h

/-- **An item that the block admits keeps the agreement.** -/
theorem Agrees.step (h : Agrees ids sc w w') (hit : sc.Admits it)
    (hids : ∀ id ∈ it.reportId?, id ∈ ids) :
    Agrees ids (sc.step it) (walkItem w it) (walkItem w' it) := by
  cases ht : itemType it.type with
  | main => exact h.main hit ht
  | global => exact h.global ht hids
  | «local» => exact h.local hit ht
  | reserved =>
    have hstep : sc.step it = sc := by rw [Scope.step, ht]
    have hwalk : ∀ v : Walk, walkItem v it = v := by
      intro v
      unfold walkItem handleItem dispatch
      rw [ht]
    rw [hstep, hwalk w, hwalk w']
    exact h

end Walks

/-! ### Two parsers over one block -/

/-- What an Input item records depends on the registers and the local state only. -/
theorem assignInput_congr {w w' : Walk} (hg : w.g = w'.g) (hu : w.usages = w'.usages)
    (hmin : w.usageMin = w'.usageMin) (hmax : w.usageMax = w'.usageMax)
    (hr : w.hasUsageRange = w'.hasUsageRange) (b : U32) (o : ReportLayout) :
    assignInput w b o = assignInput w' b o := by
  cases w
  cases w'
  simp only at hg hu hmin hmax hr
  subst hg hu hmin hmax hr
  rfl

theorem assignKbdInput_congr {w w' : Walk} (hg : w.g = w'.g) (hu : w.usages = w'.usages)
    (hmin : w.usageMin = w'.usageMin) (hmax : w.usageMax = w'.usageMax)
    (hr : w.hasUsageRange = w'.hasUsageRange) (b flags : U32) (o : KeyboardLayout) :
    assignKbdInput w b flags o = assignKbdInput w' b flags o := by
  cases w
  cases w'
  simp only at hg hu hmin hmax hr
  subst hg hu hmin hmax hr
  rfl

/-- Two parsers agree on what a block has declared, and on one application. -/
structure Mirrors (a : App) (ids : List U8) (sc : Scope) (p p' : Parser) : Prop where
  walk : Agrees ids sc p.toWalk p'.toWalk
  level : p.level a = p'.level a
  layout : SameLayout p p' a

section Parsers

variable {a : App} {ids : List U8} {sc : Scope} {p p' : Parser} {it : Item}

/-- An Input item records the same fields in both parsers. -/
theorem Mirrors.layout_step (h : Mirrors a ids sc p p') (hit : sc.Admits it) :
    SameLayout (handleItem p it) (handleItem p' it) a := by
  by_cases hin : it.isInput = true
  · -- all that is read is declared
    have hg := h.walk.registers.eq (hit.2 hin)
    have hmet := (h.walk.registers.reportId (hit.2 hin .reportId (by decide))).1
    have hcur := h.walk.cursor hmet
    cases a with
    | mouse =>
      have hlevel : p.mouseLevel = p'.mouseLevel := h.level
      have hout : p.out = p'.out := h.layout
      have hptr : isPointerInput p.toWalk = isPointerInput p'.toWalk := by
        funext flags
        rw [isPointerInput, isPointerInput, inMouse, inMouse, hlevel]
      show (handleItem p it).out = (handleItem p' it).out
      rw [handleItem_out, handleItem_out, hptr, hout, hcur,
        assignInput_congr hg h.walk.usages h.walk.usageMin h.walk.usageMax h.walk.hasUsageRange]
    | keyboard =>
      have hlevel : p.kbdLevel = p'.kbdLevel := h.level
      have hout : p.outKbd = p'.outKbd := h.layout
      have hkbd : isKeyboardInput p.toWalk = isKeyboardInput p'.toWalk := by
        funext flags
        rw [isKeyboardInput, isKeyboardInput, inKeyboard, inKeyboard, hlevel]
      show (handleItem p it).outKbd = (handleItem p' it).outKbd
      rw [handleItem_outKbd, handleItem_outKbd, hkbd, hout, hcur,
        assignKbdInput_congr hg h.walk.usages h.walk.usageMin h.walk.usageMax
          h.walk.hasUsageRange]
  · cases a with
    | mouse =>
      show (handleItem p it).out = (handleItem p' it).out
      rw [handleItem_out, handleItem_out, if_neg fun hc => hin hc.1, if_neg fun hc => hin hc.1]
      exact h.layout
    | keyboard =>
      show (handleItem p it).outKbd = (handleItem p' it).outKbd
      rw [handleItem_outKbd, handleItem_outKbd, if_neg fun hc => hin hc.1,
        if_neg fun hc => hin hc.1]
      exact h.layout

/-- Whether a collection opens an application depends on the local usages. -/
theorem Agrees.opens_iff {w w' : Walk} (h : Agrees ids sc w w') (a : App) (type : U32) :
    Opens w a type ↔ Opens w' a type := by
  rw [Opens, Opens, opensAs, opensAs, h.usages]

/-- **An item that the block admits keeps two parsers together.** -/
theorem Mirrors.step (h : Mirrors a ids sc p p') (hit : sc.Admits it)
    (hids : ∀ id ∈ it.reportId?, id ∈ ids) :
    Mirrors a ids (sc.step it) (handleItem p it) (handleItem p' it) := by
  refine ⟨?_, ?_, h.layout_step hit⟩
  · rw [handleItem_toWalk, handleItem_toWalk]
    exact h.walk.step hit hids
  · rw [handleItem_toWalk, handleItem_toWalk, walkItem_level, walkItem_level]
    cases it.nesting with
    | opens type => simp only [levelAfter, h.walk.opens_iff, h.level, h.walk.depth]
    | closes => simp only [levelAfter, h.level, h.walk.depth]
    | flat => exact h.level

/-- **A block records the same fields in both parsers.** -/
theorem Mirrors.run {its : List Item} (h : Mirrors a ids sc p p') (hits : WellScoped sc its)
    (hids : ∀ id ∈ reportIds its, id ∈ ids) :
    Mirrors a ids (its.foldl Scope.step sc) (continueItems p its) (continueItems p' its) := by
  induction its generalizing sc p p' with
  | nil => exact h
  | cons it its ih =>
    rcases forall_reportIds_cons.mp hids with ⟨hid, hrest⟩
    exact ih (h.step hits.1 hid) hits.2 hrest

/-- Two walks that agree do so behind the block. -/
theorem Agrees.run {its : List Item} {w w' : Walk} (h : Agrees ids sc w w')
    (hits : WellScoped sc its) (hids : ∀ id ∈ reportIds its, id ∈ ids) :
    Agrees ids (its.foldl Scope.step sc) (its.foldl walkItem w) (its.foldl walkItem w') := by
  induction its generalizing sc w w' with
  | nil => exact h
  | cons it its ih =>
    rcases forall_reportIds_cons.mp hids with ⟨hid, hrest⟩
    exact ih (h.step hits.1 hid) hits.2 hrest

end Parsers

/-! ### Boundaries -/

/-- The walk stands between two blocks. -/
structure Boundary (w : Walk) : Prop where
  usages : w.usages = []
  usageMin : w.usageMin = 0
  usageMax : w.usageMax = 0
  hasUsageRange : w.hasUsageRange = false
  stack : w.stack = []
  depth : w.depth = 0

theorem boundary_start : Boundary Parser.start.toWalk := ⟨rfl, rfl, rfl, rfl, rfl, rfl⟩

/-- At a boundary nothing is declared, so any two walks agree that hold none of the
block's Report IDs. -/
theorem agrees_of_boundary {ids : List U8} {w w' : Walk} (h : Boundary w) (h' : Boundary w')
    (hid : w.g.reportId ∉ ids) (hid' : w'.g.reportId ∉ ids) : Agrees ids .start w w' where
  usages := h.usages.trans h'.usages.symm
  usageMin := h.usageMin.trans h'.usageMin.symm
  usageMax := h.usageMax.trans h'.usageMax.symm
  hasUsageRange := h.hasUsageRange.trans h'.hasUsageRange.symm
  registers := ⟨fun _ hd => absurd hd List.not_mem_nil, fun hd => absurd hd List.not_mem_nil,
    fun _ => ⟨hid, hid'⟩⟩
  saved := by rw [h.stack, h'.stack]; exact trivial
  cursor hmet := absurd hmet Bool.false_ne_true
  depth := h.depth.trans h'.depth.symm

/-- A list that is well scoped ends with every Push popped. -/
theorem saved_of_wellScoped {sc : Scope} {its : List Item} (h : WellScoped sc its) :
    (its.foldl Scope.step sc).saved = [] := by
  induction its generalizing sc with
  | nil => exact h
  | cons it its ih => exact ih h.2

/-- A Main item clears the local state. -/
theorem local_walkItem_of_closes {w : Walk} {it : Item} (h : it.nesting = .closes) :
    (walkItem w it).usages = [] ∧ (walkItem w it).usageMin = 0 ∧ (walkItem w it).usageMax = 0 ∧
      (walkItem w it).hasUsageRange = false := by
  unfold Item.nesting at h
  unfold walkItem handleItem dispatch
  cases ht : itemType it.type with
  | main => cases mainTag it.tag <;> exact ⟨rfl, rfl, rfl, rfl⟩
  | _ =>
    rw [ht] at h
    cases h

/-- **A block leads from a boundary to a boundary.** -/
theorem Boundary.block {w : Walk} {its : List Item} (h : Boundary w) (hblock : Block its)
    (hid : w.g.reportId ∉ reportIds its) : Boundary (its.foldl walkItem w) := by
  have hagree := (agrees_of_boundary h h hid hid).run hblock.wellScoped fun _ hid => hid
  have hstack : (its.foldl walkItem w).stack = [] := by
    have hlen := hagree.saved.length.1
    rw [saved_of_wellScoped hblock.wellScoped] at hlen
    exact List.length_eq_zero_iff.mp hlen
  have hdepth := foldl_walkItem_depth hblock.balanced (w := w) h.depth
  -- the last item clears the local state
  rcases Option.map_eq_some_iff.mp hblock.closes with ⟨it, hlast, hcloses⟩
  have hsplit := List.dropLast_append_getLast? it hlast
  have hrun : its.foldl walkItem w = walkItem (its.dropLast.foldl walkItem w) it := by
    conv_lhs => rw [← hsplit]
    rw [List.foldl_append, List.foldl_cons, List.foldl_nil]
  have hlocal := local_walkItem_of_closes (w := its.dropLast.foldl walkItem w) hcloses
  rw [← hrun] at hlocal
  exact ⟨hlocal.1, hlocal.2.1, hlocal.2.2.1, hlocal.2.2.2, hstack, hdepth⟩

/-- The Report IDs a walk holds, in its registers or saved, are all among these. -/
def IdsWithin (ids : List U8) (w : Walk) : Prop :=
  w.g.reportId ∈ ids ∧ ∀ g ∈ w.stack, g.reportId ∈ ids

theorem IdsWithin.step {ids : List U8} {w : Walk} {it : Item} (h : IdsWithin ids w)
    (hids : ∀ id ∈ it.reportId?, id ∈ ids) : IdsWithin ids (walkItem w it) := by
  unfold walkItem handleItem dispatch
  cases ht : itemType it.type with
  | main => cases mainTag it.tag <;> exact h
  | global =>
    cases hg : globalTag it.tag with
    | reportId =>
      refine ⟨hids _ ?_, h.2⟩
      rw [Item.reportId?, if_pos ⟨ht, hg⟩]
      rfl
    | push =>
      refine ⟨h.1, ?_⟩
      simp only [handleGlobal]
      split
      · exact List.forall_mem_cons.mpr h
      · exact h.2
    | pop =>
      rcases h with ⟨hreg, hsaved⟩
      simp only [handleGlobal]
      cases hs : w.stack with
      | nil => exact ⟨hreg, fun g hg => absurd hg List.not_mem_nil⟩
      | cons g gs =>
        rw [hs, List.forall_mem_cons] at hsaved
        exact hsaved
    | _ => exact h
  | «local» => cases localTag it.tag <;> exact h
  | reserved => exact h

theorem IdsWithin.run {ids : List U8} {w : Walk} {its : List Item} (h : IdsWithin ids w)
    (hids : ∀ id ∈ reportIds its, id ∈ ids) : IdsWithin ids (its.foldl walkItem w) := by
  induction its generalizing w with
  | nil => exact h
  | cons it its ih =>
    rcases forall_reportIds_cons.mp hids with ⟨hid, hrest⟩
    exact ih (h.step hid) hrest

/-! ### Blocks without an application -/

/-- The item opens an application of this kind. -/
def OpensApp (w : Walk) (a : App) (it : Item) : Prop :=
  match it.nesting with
  | .opens type => Opens w a type
  | _ => False

instance (w : Walk) (a : App) (it : Item) : Decidable (OpensApp w a it) := by
  unfold OpensApp
  split <;> exact inferInstance

/-- The walk over these items opens no application of this kind, at any depth. -/
def NoApp (a : App) : Walk → List Item → Prop
  | _, [] => True
  | w, it :: its => ¬ OpensApp w a it ∧ NoApp a (walkItem w it) its

/-- `NoApp` is decided item by item. -/
def decidableNoApp (a : App) : (its : List Item) → (w : Walk) → Decidable (NoApp a w its)
  | [], _ => inferInstanceAs (Decidable True)
  | it :: its, w =>
    haveI := decidableNoApp a its (walkItem w it)
    inferInstanceAs (Decidable (¬ OpensApp w a it ∧ NoApp a (walkItem w it) its))

instance (a : App) (w : Walk) (its : List Item) : Decidable (NoApp a w its) :=
  decidableNoApp a its w

/-- **Two walks that agree open the same applications.** -/
theorem noApp_iff_of_agrees {a : App} {ids : List U8} {sc : Scope} {its : List Item}
    {w w' : Walk} (h : Agrees ids sc w w') (hits : WellScoped sc its)
    (hids : ∀ id ∈ reportIds its, id ∈ ids) : NoApp a w its ↔ NoApp a w' its := by
  induction its generalizing sc w w' with
  | nil => rfl
  | cons it its ih =>
    rcases forall_reportIds_cons.mp hids with ⟨hid, hrest⟩
    have hopens : OpensApp w a it ↔ OpensApp w' a it := by
      unfold OpensApp
      split
      · exact h.opens_iff a _
      · rfl
    exact and_congr (not_congr hopens) (ih (h.step hits.1 hid) hits.2 hrest)

/-- Where no application is opened the level of a closed or unopened one stays. -/
theorem level_foldl_of_noApp {a : App} {w : Walk} {its : List Item} (hlevel : w.level a < 0)
    (h : NoApp a w its) : (its.foldl walkItem w).level a = w.level a := by
  induction its generalizing w with
  | nil => rfl
  | cons it its ih =>
    have hstep : (walkItem w it).level a = w.level a := by
      have hopens := h.1
      rw [walkItem_level]
      unfold OpensApp at hopens
      cases hn : it.nesting with
      | opens type =>
        rw [hn] at hopens
        exact if_neg fun hc => hopens hc.1
      | closes => exact if_neg fun hc => absurd hc.1 (Int.not_le.mpr hlevel)
      | flat => rfl
    rw [List.foldl_cons, ih (by rw [hstep]; exact hlevel) h.2, hstep]

/-- **Where an application is opened for the first time it does not stay unopened.** -/
theorem level_foldl_ne_of_not_noApp {a : App} {w : Walk} {its : List Item} (hdepth : 0 ≤ w.depth)
    (h : ¬ NoApp a w its) : (its.foldl walkItem w).level a ≠ -1 := by
  intro hend
  apply h
  clear h
  induction its generalizing w with
  | nil => trivial
  | cons it its ih =>
    -- an unopened end was unopened all the way
    have hnext : (walkItem w it).level a = -1 := level_of_unopened_foldl hend
    refine ⟨fun hopens => ?_, ih (depth_nonneg_walkItem hdepth it) hend⟩
    have hprev := level_of_unopened_walkItem hnext
    unfold OpensApp at hopens
    rw [walkItem_level] at hnext
    cases hn : it.nesting with
    | opens type =>
      rw [hn] at hopens hnext
      rw [levelAfter, if_pos ⟨hopens, hprev⟩] at hnext
      omega
    | closes =>
      rw [hn] at hopens
      exact hopens
    | flat =>
      rw [hn] at hopens
      exact hopens

end BleHidHost
