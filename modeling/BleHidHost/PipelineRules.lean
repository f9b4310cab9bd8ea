import BleHidHost.Rules
import BleHidHost.Lib.Chronicle

/-!
# What the callbacks do to the pipeline

Of all callbacks two touch the queue, the host device or the trace: a notification is put in
the queue, and a disconnect records the end of the layout, purges the queue and resets the
host.  The end of a Report Map is recorded by the stack.  An assertion on the pipeline that
stands at every turn of the handler is an outline of every other callback, and a disconnect
has the outline of its three actions.

## Main results

* `keeps_enter` — the other callbacks leave the pipeline alone.
* `outlinedTo_enter`, `outlinedTo_startScan` — so an assertion outlines them.
* `outlinedTo_disconnected` — **the outline of a disconnect**: one assertion up to the end of
  the layout, and another one from there on to the reset.
-/

namespace BleHidHost

open Lib Lib.Prog

variable {cfg : Setup} {P : Condition} {m m' : Central} {io io' : Pipeline}

/-! ### Callbacks that leave the pipeline alone -/

/-- **But for a notification and a disconnect**, a callback leaves the pipeline alone. -/
theorem keeps_enter {e : Event} {p : Callback Unit} (henter : Entered cfg m io e m' io' p)
    (hput : ∀ slot data, e ≠ .notified slot data) (hend : e ≠ .disconnected)
    (K : Pipeline → Prop) : p.Keeps (central cfg) P fun _ io => K io := by
  have hgatt {q : Callback Unit} (hq : Leaves cfg P (fun _ => ()) q) :
      q.Keeps (central cfg) P fun _ io => K io := Leaves.keeps (S := fun _ io => K io) hq
  cases henter with
  | advertise addr type ad => exact keeps_deviceFound (fun _ hm => hm) addr type ad
  | scanRetry => exact keeps_scanRetryHandler fun _ hm => hm
  | connected err => exact keeps_connected (fun _ hm => hm) err
  | securityChanged level err =>
    exact .ite (keeps_securityFailed (fun _ hm => hm) _)
      (hgatt (leaves_startDiscovery fun _ => rfl))
  | disconnected => exact absurd rfl hend
  | discovered => exact hgatt (leaves_deliver (fun _ => rfl) _ _)
  | discoverDone => exact hgatt (leaves_finishDiscover fun _ => rfl)
  | readMap n err data => exact hgatt (leaves_respondMap (fun _ => rfl) _ _ err data)
  | readRef n err data => exact hgatt (leaves_respondRef (fun _ => rfl) err data)
  | notified slot data => exact absurd rfl (hput slot data)
  | unsubscribed slot => exact hgatt (leaves_unsubscribed (fun _ => rfl) slot)
  | timePasses ms => exact keeps_pure _
  | bonded bonds => exact keeps_pure _

/-- The stack's side of an event records the end of a Report Map, or nothing. -/
theorem pipeline_enter {e : Event} {p : Callback Unit} (henter : Entered cfg m io e m' io' p) :
    io' = io ∨ ∃ conn bytes, io' = { io with trace := io.trace ++ [.mapRead conn bytes] } := by
  cases henter with
  | readMap n err data =>
    unfold recordMapRead
    split
    · exact Or.inr ⟨_, _, rfl⟩
    · exact Or.inl rfl
  | _ => exact Or.inl rfl

/-! ### Outlines -/

section Outlines

variable {Λ : Type} {W : Chronicler Central Pipeline Event Λ} {G A B T : Λ → Pipeline → Prop}
  {l : Λ}

/-- An assertion that an unseen action keeps outlines a callback that leaves the pipeline
alone. -/
theorem outlinedTo_enter {e : Event} {p : Callback Unit} (henter : Entered cfg m io e m' io' p)
    (hput : ∀ slot data, e ≠ .notified slot data) (hend : e ≠ .disconnected)
    (hA : ∀ m, Stands (central cfg) W G m A) (hunseen : ∀ l io, A l io → A (W.onAct io io l) io)
    (h : A l io') : Machine.OutlinedTo (central cfg) P W G A p m' l io' := by
  refine Machine.outlinedTo_of_keeps (E := fun c io => io = c) (fun _ => rfl) ?_ ?_ hA h
  · intro c
    exact keeps_enter henter hput hend fun io => io = c
  · intro l io io' hl heq
    rw [heq]
    exact hunseen l io hl

/-- So it does of a scan start. -/
theorem outlined_startScan (hA : ∀ m, Stands (central cfg) W G m A)
    (hunseen : ∀ l io, A l io → A (W.onAct io io l) io)
    {K : Unit → Central → (Λ → Pipeline → Prop) → Prop} (hK : ∀ m, K () m A) :
    startScan.Outlined (central cfg) P W G K m A := by
  refine Keeps.outlined (E := fun c io => io = c) (fun _ => rfl) ?_ ?_ hA fun _ => hK
  · exact fun c => keeps_startScan_offScan fun _ hio => hio
  · intro l io io' hl heq
    rw [heq]
    exact hunseen l io hl

theorem outlinedTo_startScan (hA : ∀ m, Stands (central cfg) W G m A)
    (hunseen : ∀ l io, A l io → A (W.onAct io io l) io) (h : A l io) :
    Machine.OutlinedTo (central cfg) P W G A startScan m l io :=
  ⟨A, h, hA m, outlined_startScan hA hunseen fun _ _ _ hl => hl⟩

/-- **The outline of a disconnect**: `A` up to the end of the layout and from the reset on, and
`B` between them, where the handler finds no layout. -/
theorem outlinedTo_disconnected {conn : ℕ} (hA : ∀ m, Stands (central cfg) W G m A)
    (hunseenA : ∀ l io, A l io → A (W.onAct io io l) io)
    (hB : ∀ m, m.layoutValid = false → Stands (central cfg) W G m B)
    (hunseenB : ∀ l io, B l io → B (W.onAct io io l) io)
    (hinvalidate : ∀ l io io', A l io →
      io' = { io with trace := io.trace ++ [.invalidated conn] } → B (W.onAct io io' l) io')
    (hpurge : ∀ l io io', B l io → io' = { io with queue := [] } → B (W.onAct io io' l) io')
    (hreset : ∀ l io io', B l io →
      io' = { io with host := bleHidHostReset cfg.wheelKeys io.host } → A (W.onAct io io' l) io')
    (hT : ∀ l io, A l io → T l io) (h : A l io) :
    Machine.OutlinedTo (central cfg) P W G T (disconnected cfg conn) m l io := by
  refine ⟨A, h, hA m, (outlined_bind _ _).mpr (outlined_look hunseenA (hA m) ?_)⟩
  split
  · exact hT
  refine (outlined_bind _ _).mpr (outlined_assign hunseenA (hA _) ?_)
  refine (outlined_bind _ _).mpr (outlined_assign hunseenA (hA _) ?_)
  refine (outlined_bind _ _).mpr (outlined_assign hunseenA (hA _) ?_)
  refine (outlined_bind _ _).mpr (outlined_assign hunseenA (hA _) ?_)
  -- from here on the handler finds no layout
  refine (outlined_bind _ _).mpr (outlined_emit B ?_ (hB _ rfl) ?_)
  · exact fun l io hl => hinvalidate l io _ hl rfl
  refine (outlined_bind _ _).mpr (outlined_assign hunseenB (hB _ rfl) ?_)
  refine (outlined_bind _ _).mpr (outlined_emit B ?_ (hB _ rfl) ?_)
  · exact fun l io hl => hpurge l io _ hl rfl
  refine (outlined_bind _ _).mpr (outlined_emit A ?_ (hA _) ?_)
  · exact fun l io hl => hreset l io _ hl rfl
  exact outlined_startScan hA hunseenA fun _ => hT

end Outlines

end BleHidHost
