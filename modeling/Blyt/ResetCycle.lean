import Blyt.StateSnapshot

/-!
# Reset every frame

`blyt_reset_every_frame_cycle` (`cart_run.c`) stresses a cart between two frames: its save
hook, a snapshot of the state buffers, zeroed buffers, `init` once more, the snapshot back,
its load hook. The registers it puts back at the end are not modelled.
-/

namespace Blyt

open List Option

/-- A guest function, seen from the state buffers: what it makes of them, never of their
layout, and whether it returns. If not, it traps, aborts or exits. -/
structure GuestFn where
  effect : List Buffer → List Buffer
  returns : List Buffer → Bool
  shapes_eq : ∀ s, shapes (effect s) = shapes s

/-- All that decides about a cycle besides the buffers. -/
structure ResetCycle where
  /-- there is an `init`, and the cart has not exited -/
  ready : Bool
  onSaveState : Option GuestFn
  /-- the snapshot cannot be allocated -/
  oom : Bool
  init : GuestFn
  /-- none also if there is no room for its argument under the guest's stack -/
  onLoadState : Option GuestFn

namespace ResetCycle

variable (c : ResetCycle) (junk : ByteMem) (s : List Buffer)

def resetEveryFrameCycle : List Buffer :=
  if !c.ready then s
  else
    let saved := c.onSaveState.elim s (·.effect s)
    if c.onSaveState.any (fun f => !f.returns s) || c.oom then saved
    else
      let zeroed := stateCtxZeroData saved
      let s' := c.init.effect zeroed
      -- the snapshot is freed
      if !c.init.returns zeroed then s'
      else
        let s' := stateCtxRestoreSnapshot junk s' (stateCtxSnapshot saved)
        c.onLoadState.elim s' (·.effect s')

def saved : List Buffer := if c.ready then c.onSaveState.elim s (·.effect s) else s

/-- The cycle comes to `init`. -/
def initRuns : Bool := c.ready && !(c.onSaveState.any (fun f => !f.returns s) || c.oom)

def initReturns : Bool := c.init.returns (stateCtxZeroData (c.saved s))

/-- The buffers of before the cycle have gone through the save hook, and through the load hook
if the cycle comes to it, and nothing else has changed them. -/
def KeepsState : Prop :=
  ∃ s', Forall₂ Buffer.Same (c.saved s) s' ∧ c.resetEveryFrameCycle junk s
    = if c.initRuns s && c.initReturns s then c.onLoadState.elim s' (·.effect s') else s'

theorem resetEveryFrameCycle_eq : c.resetEveryFrameCycle junk s =
    if !c.initRuns s then c.saved s
    else
      let s' := c.init.effect (stateCtxZeroData (c.saved s))
      if !c.initReturns s then s'
      else
        let s' := stateCtxRestoreSnapshot junk s' (stateCtxSnapshot (c.saved s))
        c.onLoadState.elim s' (·.effect s') := by
  unfold resetEveryFrameCycle initRuns initReturns saved
  cases c.ready with
  | false => rfl
  | true => cases c.onSaveState.any (fun f => !f.returns s) || c.oom <;> rfl

/-- **Reset every frame.** The state is kept exactly if an `init` that is run returns, or makes
of the zeroed buffers what they were before. -/
theorem keepsState_iff : c.KeepsState junk s ↔ (c.initRuns s = true → c.initReturns s = false →
    Forall₂ Buffer.Same (c.saved s) (c.init.effect (stateCtxZeroData (c.saved s)))) := by
  have hshapes : shapes (c.init.effect (stateCtxZeroData (c.saved s))) = shapes (c.saved s) := by
    rw [c.init.shapes_eq, shapes, stateCtxZeroData, List.map_map]
    rfl
  rw [KeepsState, resetEveryFrameCycle_eq]
  cases c.initRuns s with
  | false =>
    refine iff_of_true ⟨c.saved s, ?_, rfl⟩ Bool.noConfusion
    exact forall₂_same.mpr fun _ _ => ⟨rfl, rfl, rfl, fun _ _ _ _ _ => rfl⟩
  | true =>
    cases c.initReturns s with
    | true =>
      exact iff_of_true ⟨_, restoreSnapshot_same junk hshapes, rfl⟩ fun _ hr => Bool.noConfusion hr
    | false =>
      constructor
      · rintro ⟨s', hsame, rfl⟩ - -
        exact hsame
      · exact fun h => ⟨_, h rfl rfl, rfl⟩

end ResetCycle

/-- A guest function that leaves the buffers alone. -/
def idleFn (returns : Bool) : GuestFn := ⟨id, fun _ => returns, fun _ => rfl⟩

/-- A buffer with one field and two slots, of which one is taken. -/
def usedBuffer : Buffer :=
  ⟨2, 0, [112], [0], fun _ _ => 0, Function.update (fun _ => false) 0 true, fun _ => 1⟩

/-- `init` traps: the slot is gone. -/
theorem trapped_init_loses_state :
    ¬(⟨true, none, false, idleFn false, none⟩ : ResetCycle).KeepsState (fun _ => 0)
      [usedBuffer] := by
  rintro ⟨s', hsame, hs'⟩
  obtain rfl : [zeroBuffer usedBuffer] = s' := hs'
  cases hsame with
  | cons hsame => exact Bool.noConfusion (congrFun hsame.used 0)

end Blyt
