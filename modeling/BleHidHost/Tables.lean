import BleHidHost.System

/-!
# Reports in an attribute table

What a GATT table says about the reports of its HID service, independent of how they are
found: the notifiable Report characteristics in handle order, and the handles among which
the descriptors of each are looked for.

## Main definitions

* `reportHandles`, `pendingOf` — the reports of a table, and those there is room for.
* `searchWindow` — where a descriptor of a report is looked for.
* `OwnDescriptor` — a descriptor that lies in a report's own characteristic.
* `InHandleOrder`, `GattTable` — what every GATT table is like.

## Main results

* `collectable_next` — an attribute that is delivered leaves the rest to be collected.
* `reportHandles_pairwise` — **the reports of a table have increasing handles.**
-/

namespace BleHidHost

/-! ### Reports -/

/-- What the first discovery looks for. -/
def hidsParams : DiscoverParams := ⟨uuidHids, firstAttributeHandle, lastAttributeHandle, .primary⟩

/-- What the pass over the Report characteristics looks for. -/
def reportParams (last : U16) : DiscoverParams :=
  ⟨uuidHidsReport, firstAttributeHandle, last, .characteristic⟩

/-- The last handle of the HID service, or 0. -/
def serviceEnd (table : List Attr) : U16 := ((hidsParams.next table).map Attr.value).getD 0

/-- The characteristic has the Notify property. -/
def Attr.Notifies (a : Attr) : Prop := a.properties &&& chrcNotify ≠ 0

instance (a : Attr) : Decidable a.Notifies := inferInstanceAs (Decidable (_ ≠ _))

/-- The value handles that a discovery has still to collect. -/
def collectable (q : DiscoverParams) (table : List Attr) : List U16 :=
  (table.filter fun a => q.Finds a ∧ a.Notifies).map Attr.value

/-- The value handles of the notifiable Report characteristics, in handle order. -/
def reportHandles (table : List Attr) : List U16 :=
  collectable (reportParams (serviceEnd table)) table

/-- Those that `pending_reports` has room for. -/
def pendingOf (table : List Attr) : List U16 := (reportHandles table).take maxReports

/-- Where a descriptor of the `k`-th pending report is looked for: up to the next pending
report, and for the last one up to the end of the service. -/
def searchWindow (table : List Attr) (k : ℕ) (uuid : U16) : DiscoverParams where
  uuid := uuid
  startHandle := (pendingOf table).getD k 0 + 1
  endHandle :=
    if k + 1 < (pendingOf table).length then (pendingOf table).getD (k + 1) 0 - 1
    else serviceEnd table
  type := .descriptor

/-- The descriptor lies behind this value and before the next characteristic declaration of
any kind. -/
def OwnDescriptor (table : List Attr) (value : U16) (d : Attr) : Prop :=
  (d ∈ table ∧ d.type = .descriptor ∧ value < d.handle) ∧
    ∀ b ∈ table, b.type = .characteristic → ¬ (value < b.handle ∧ b.handle ≤ d.handle)

instance (table : List Attr) (value : U16) (d : Attr) : Decidable (OwnDescriptor table value d) :=
  inferInstanceAs (Decidable (_ ∧ _))

/-! ### Tables -/

/-- The handles increase. -/
def InHandleOrder (table : List Attr) : Prop := table.Pairwise fun a b => a.handle < b.handle

instance (table : List Attr) : Decidable (InHandleOrder table) :=
  inferInstanceAs (Decidable (List.Pairwise _ _))

/-- A GATT table: its handles increase, and the value of a characteristic stands between
its declaration and the next attribute. -/
structure GattTable (table : List Attr) : Prop where
  order : InHandleOrder table
  value_behind : ∀ a ∈ table, a.type = .characteristic → a.handle < a.value
  value_before : table.Pairwise fun a b => a.type = .characteristic → a.value < b.handle

instance (table : List Attr) : Decidable (GattTable table) :=
  decidable_of_iff (InHandleOrder table ∧
      (∀ a ∈ table, a.type = .characteristic → a.handle < a.value) ∧
        table.Pairwise fun a b => a.type = .characteristic → a.value < b.handle)
    ⟨fun h => ⟨h.1, h.2.1, h.2.2⟩, fun h => ⟨h.1, h.2, h.3⟩⟩

/-- Handles tell attributes apart. -/
theorem InHandleOrder.eq_of_handle_eq {table : List Attr} (h : InHandleOrder table) {a b : Attr}
    (ha : a ∈ table) (hb : b ∈ table) (heq : a.handle = b.handle) : a = b := by
  have hne {x y : Attr} (hlt : x.handle < y.handle) : x.handle ≠ y.handle := by bv_omega
  have hall : ∀ x ∈ table, ∀ y ∈ table, x.handle = y.handle → x = y :=
    List.Pairwise.forall_of_forall_of_flip (fun _ _ _ => rfl)
      (h.imp fun hlt heq => absurd heq (hne hlt)) (h.imp fun hlt heq => absurd heq.symm (hne hlt))
  exact hall a ha b hb heq

/-! ### Collecting -/

section Collecting

variable {q : DiscoverParams} {table : List Attr} {a b : Attr}

/-- What is left of a discovery finds what lies behind the attribute delivered. -/
theorem finds_after_iff (h : q.Finds a) :
    (q.after a).Finds b ↔ q.Finds b ∧ a.handle < b.handle := by
  rcases h with ⟨-, -, hstart, hend⟩
  unfold DiscoverParams.after
  split
  · next hlt =>
    simp only [DiscoverParams.Finds]
    have hnext : a.handle + 1 ≤ b.handle ↔ a.handle < b.handle := by bv_omega
    rw [hnext]
    constructor
    · rintro ⟨ht, hu, hab, hb⟩
      exact ⟨⟨ht, hu, by bv_omega, hb⟩, hab⟩
    · rintro ⟨⟨ht, hu, -, hb⟩, hab⟩
      exact ⟨ht, hu, hab, hb⟩
  · next hlt =>
    -- the range is exhausted
    simp only [DiscoverParams.Finds, firstAttributeHandle]
    constructor
    · rintro ⟨-, -, hb, hb'⟩
      bv_omega
    · rintro ⟨⟨-, -, -, hb⟩, hab⟩
      bv_omega

/-- **An attribute that is delivered leaves the rest to be collected.** -/
theorem collectable_next (horder : InHandleOrder table) (h : q.next table = some a) :
    collectable q table =
      (if a.Notifies then [a.value] else []) ++ collectable (q.after a) table := by
  have hfinds := (DiscoverParams.next_eq_some h).2
  rcases List.find?_eq_some_iff_append.mp h with ⟨-, pre, post, rfl, hpre⟩
  rcases List.pairwise_append.mp horder with ⟨hbefore, hafter⟩
  have hskip : ∀ b ∈ pre, ¬ q.Finds b := by
    intro b hb
    have hnot := hpre b hb
    simpa using hnot
  -- in front of it nothing was found, and what lies behind it still is
  have hpreNil (p : DiscoverParams) (hp : ∀ b ∈ pre, ¬ p.Finds b) :
      pre.filter (fun b => p.Finds b ∧ b.Notifies) = [] := by
    refine List.filter_eq_nil_iff.mpr ?_
    intro b hb hc
    exact hp b hb (of_decide_eq_true hc).1
  have hself : ¬ (q.after a).Finds a := fun hc =>
    absurd ((finds_after_iff hfinds).mp hc).2 (by simp)
  have hpost : post.filter (fun b => (q.after a).Finds b ∧ b.Notifies) =
      post.filter fun b => q.Finds b ∧ b.Notifies := by
    refine List.filter_congr ?_
    intro b hb
    have hlt : a.handle < b.handle := (List.pairwise_cons.mp hafter.1).1 b hb
    rw [decide_eq_decide, finds_after_iff hfinds, and_iff_left hlt]
  rw [collectable, collectable, List.filter_append, List.filter_append, hpreNil q hskip,
    hpreNil (q.after a) fun b hb hc => hskip b hb ((finds_after_iff hfinds).mp hc).1,
    List.filter_cons, List.filter_cons, hpost]
  by_cases hn : a.Notifies
  · simp [hfinds, hn, hself]
  · simp [hn]

/-- Where nothing is left to deliver nothing is left to collect. -/
theorem collectable_eq_nil (h : q.next table = none) : collectable q table = [] := by
  have hnone := List.find?_eq_none.mp h
  rw [collectable, List.map_eq_nil_iff]
  refine List.filter_eq_nil_iff.mpr ?_
  intro b hb hc
  exact hnone b hb (decide_eq_true (of_decide_eq_true hc).1)

/-- **The reports of a table have increasing handles.** -/
theorem reportHandles_pairwise (h : GattTable table) :
    (reportHandles table).Pairwise (· < ·) := by
  unfold reportHandles collectable
  rw [List.pairwise_map]
  refine List.Pairwise.imp_of_mem ?_
    (List.Pairwise.filter _ h.value_before)
  intro a b ha hb hab
  have hchrc (x : Attr) (hx : x ∈ table.filter fun a =>
      (reportParams (serviceEnd table)).Finds a ∧ a.Notifies) :
      x ∈ table ∧ x.type = .characteristic := by
    rcases List.mem_filter.mp hx with ⟨hmem, hfind⟩
    exact ⟨hmem, (of_decide_eq_true hfind).1.1⟩
  calc a.value < b.handle := hab (hchrc a ha).2
    _ < b.value := h.value_behind b (hchrc b hb).1 (hchrc b hb).2

/-- A pending report is one of the table. -/
theorem getD_mem_reportHandles {k : ℕ} (hk : k < (pendingOf table).length) :
    (pendingOf table).getD k 0 ∈ reportHandles table := by
  rw [List.getD_eq_getElem?_getD, List.getElem?_eq_getElem hk, Option.getD_some]
  exact List.mem_of_mem_take (List.getElem_mem hk)

/-- A report's value does not stand at handle 0. -/
theorem ne_zero_of_mem_reportHandles (h : GattTable table) {v : U16}
    (hv : v ∈ reportHandles table) : v ≠ 0 := by
  rcases List.mem_map.mp hv with ⟨b, hb, rfl⟩
  rcases List.mem_filter.mp hb with ⟨hmem, hfind⟩
  have hbehind := h.value_behind b hmem (of_decide_eq_true hfind).1.1
  bv_omega

end Collecting

end BleHidHost
