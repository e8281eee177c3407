import Blyt.SurfaceSound

/-!
# Surface calls outside `draw()`

Outside `draw()` the surface calls of a release cart are meant to do nothing: drawing is dropped,
a create fails, and an acquire hands out a cleared region of a phantom lock, whose release copies
nothing back. `blyt_surface_phase_gate` sees to that, but not every call asks it. A destroy does
not, so it frees. A release does not either: it copies back a lock that was taken in `draw()`, and
the release of a lock of the screen, phantom or not, sets `cart_has_drawn`.

`Harmless` says of a call what remains: whether it leaves the surfaces and the flag alone.
-/

namespace Blyt

open HostLeg

/-- A call that works on surfaces, not one that moves the phase or the frame on. -/
def SurfaceCall.OnSurfaces : SurfaceCall → Prop
  | .phase _ => False
  | .frameDone => False
  | _ => True

namespace HostLeg

/-- The same surfaces with the same canonical pixels, and the same `cart_has_drawn`. -/
def Unchanged (h h' : HostLeg) : Prop :=
  (∀ i, (h'.session.surfaces.slots i).inUse = (h.session.surfaces.slots i).inUse
    ∧ (h'.session.surfaces.slots i).pixels = (h.session.surfaces.slots i).pixels)
  ∧ h'.cartHasDrawn = h.cartHasDrawn

theorem unchanged_equivalence : Equivalence Unchanged where
  refl _ := ⟨fun _ => ⟨rfl, rfl⟩, rfl⟩
  symm h := ⟨fun i => ⟨(h.1 i).1.symm, (h.1 i).2.symm⟩, h.2.symm⟩
  trans h h' := ⟨fun i => ⟨(h'.1 i).1.trans (h.1 i).1, (h'.1 i).2.trans (h.1 i).2⟩, h'.2.trans h.2⟩

/-- Where a call of a release cart outside `draw()` changes nothing: a destroy meets no live,
unlocked off-screen surface; a release meets no lock, or one that sets no flag and whose region, if
it is copied back, holds what the surface holds. -/
def Harmless (h : HostLeg) : SurfaceCall → Prop
  | .destroy handle => ∀ i ∈ h.session.unlocked handle, i = 0
  | .release token => ∀ i ∈ resolveLockview h.session.surfaces token,
    let t := h.session.surfaces.slots i
    (i = 0 → h.cartHasDrawn = true)
      ∧ (t.lockPhantom = false ∧ t.lockDirect = false →
        t.pixels = some (readGuest h.session.gmem t.lockVaddr t.lockLen))
  | _ => True

instance (h : HostLeg) (call : SurfaceCall) : Decidable (h.Harmless call) := by
  induction call using SurfaceCall.casesOn <;> unfold Harmless <;> infer_instance

/-- A release cart outside `draw()`. -/
structure OutOfPhase (h : HostLeg) : Prop where
  inv : RegInv h.session.surfaces
  noDebug : h.session.cartIsDebug = false
  phase : h.session.phase ≠ .draw

section Calls

variable {E : HostEnv} {h : HostLeg}

theorem refused_release {s : Session} (h : s.cartIsDebug = false) : s.refused = s :=
  if_neg (by rw [h]; decide)

theorem refuse_release (h₀ : h.session.cartIsDebug = false) : h.refuse = h := by
  unfold refuse
  rw [refused_release h₀]

theorem create_outOfPhase (ho : h.OutOfPhase) (w ht : Int) : (h.step E (.create w ht)).1 = h := by
  show { h with session := (surfaceCreate false h.session w ht).2 } = h
  rw [surfaceCreate, phaseGate_other ho.phase, refused_release ho.noDebug]

theorem draw_outOfPhase (ho : h.OutOfPhase) (dst : Nat) (op : DrawOp) :
    (h.step E (.draw dst op)).1 = h := by
  show (h.surfaceDraw dst op).1 = h
  rw [surfaceDraw_eq, if_pos ho.phase]
  exact refuse_release ho.noDebug

theorem blit_outOfPhase (ho : h.OutOfPhase) (dst src : Nat) (x y : Int) :
    (h.step E (.blit dst src x y)).1 = h := by
  show h.surfaceBlit E.copy dst src x y = h
  rw [surfaceBlit_eq, if_pos (.inl ho.phase)]
  exact refuse_release ho.noDebug

/-- One slot changes, but neither its use nor its pixels. -/
theorem unchanged_update {h' : HostLeg} {i : Fin surfaceMax} {t : SurfaceSlot}
    (hslots : h'.session.surfaces.slots = Function.update h.session.surfaces.slots i t)
    (hu : t.inUse = (h.session.surfaces.slots i).inUse)
    (hpx : t.pixels = (h.session.surfaces.slots i).pixels)
    (hdrawn : h'.cartHasDrawn = h.cartHasDrawn) : h.Unchanged h' := by
  refine ⟨forall_of_update hslots (p := fun j t => t.inUse = (h.session.surfaces.slots j).inUse
    ∧ t.pixels = (h.session.surfaces.slots j).pixels) ⟨hu, hpx⟩ fun _ _ => ⟨rfl, rfl⟩, hdrawn⟩

theorem acquire_outOfPhase (ho : h.OutOfPhase) (handle : Nat) :
    h.Unchanged (h.step E (.acquire handle)).1 := by
  show h.Unchanged { h with session := (surfaceAcquire h.session handle).2 }
  rw [surfaceAcquire_eq ho.noDebug, surfaceAcquireLock_eq]
  cases h.session.unlocked handle with
  | none => exact unchanged_equivalence.refl h
  | some =>
    simp only
    split_ifs
    · exact unchanged_update rfl rfl rfl rfl
    · exact unchanged_equivalence.refl h

theorem write_outOfPhase (token off : Nat) (color : UInt8) :
    h.Unchanged (h.step E (.write token off color)).1 := by
  show h.Unchanged { h with session := lockWrite h.session token off color }
  unfold lockWrite
  cases resolveLockview h.session.surfaces token with
  | none => exact unchanged_equivalence.refl h
  | some =>
    simp only
    split_ifs
    · exact ⟨fun _ => ⟨rfl, rfl⟩, rfl⟩
    · exact unchanged_equivalence.refl h

theorem destroy_outOfPhase (ho : h.OutOfPhase) (handle : Nat) :
    h.Unchanged (h.step E (.destroy handle)).1 ↔ h.Harmless (.destroy handle) := by
  show h.Unchanged { h with session := surfaceDestroy h.session handle }
    ↔ ∀ i ∈ h.session.unlocked handle, i = 0
  rw [surfaceDestroy_release ho.noDebug]
  cases hu : h.session.unlocked handle with
  | none => exact iff_of_true (unchanged_equivalence.refl h) fun i hi => by cases hi
  | some i =>
    have huse := (resolveSurface_some (Session.unlocked_eq_some.mp hu).1).1
    have hscreen := (ho.inv.slot i).isScreen
    simp only [Option.mem_some_iff, forall_eq']
    by_cases hi : i = 0
    · rw [if_pos (hscreen.mpr hi)]
      exact iff_of_true (unchanged_equivalence.refl h) hi
    · have hs : ¬ (h.session.surfaces.slots i).isScreen = true := fun hs => hi (hscreen.mp hs)
      rw [if_neg hs]
      -- the surface is gone
      refine iff_of_false (fun hun => ?_) hi
      have hgone := (hun.1 i).1
      simp only [publish_surfaces, freeSlot_slots, Function.update_self,
        release_live _ huse (by simpa using hs), huse] at hgone
      cases hgone

theorem release_outOfPhase (ho : h.OutOfPhase) (token : Nat) :
    h.Unchanged (h.step E (.release token)).1 ↔ h.Harmless (.release token) := by
  show h.Unchanged (h.release token) ↔ ∀ i ∈ resolveLockview h.session.surfaces token, _
  unfold release surfaceRelease
  cases hr : resolveLockview h.session.surfaces token with
  | none =>
    refine iff_of_true ⟨fun _ => ⟨rfl, rfl⟩, ?_⟩ fun i hi => by cases hi
    simp
  | some i =>
    have hl := resolveLockview_some hr
    have hslot := ho.inv.slot i
    have hpx := hslot.unlock_pixels hl h.session.gmem
    simp only [Option.any_some, Option.mem_some_iff, forall_eq']
    have hflag : (h.cartHasDrawn || (h.session.surfaces.slots i).isScreen) = h.cartHasDrawn
        ↔ (i = 0 → h.cartHasDrawn = true) := by
      rw [← hslot.isScreen]
      cases h.cartHasDrawn <;> simp
    have hcopy : ((h.session.surfaces.slots i).unlock h.session.gmem).pixels
          = (h.session.surfaces.slots i).pixels
        ↔ ((h.session.surfaces.slots i).lockPhantom = false
            ∧ (h.session.surfaces.slots i).lockDirect = false →
          (h.session.surfaces.slots i).pixels
            = some (readGuest h.session.gmem (h.session.surfaces.slots i).lockVaddr
              (h.session.surfaces.slots i).lockLen)) := by
      rw [hpx]
      split_ifs with hc
      · exact ⟨fun heq _ => heq.symm, fun himp => (himp hc).symm⟩
      · exact iff_of_true rfl fun h => absurd h hc
    rw [← hflag, ← hcopy]
    constructor
    · rintro ⟨hall, hdrawn⟩
      have hi := (hall i).2
      simp only [flushLock_slots, Function.update_self] at hi
      exact ⟨hdrawn, hi⟩
    · rintro ⟨hdrawn, hpixels⟩
      exact unchanged_update (flushLock_slots _ _ i) (unlock_inUse _ _) hpixels hdrawn

/-- **One call of a release cart outside `draw()`.** -/
theorem step_unchanged_iff (ho : h.OutOfPhase) {call : SurfaceCall} (hcall : call.OnSurfaces) :
    h.Unchanged (h.step E call).1 ↔ h.Harmless call := by
  cases call with
  | phase p | frameDone => exact hcall.elim
  | create =>
    rw [create_outOfPhase ho]
    exact iff_of_true (unchanged_equivalence.refl h) trivial
  | destroy handle => exact destroy_outOfPhase ho handle
  | draw =>
    rw [draw_outOfPhase ho]
    exact iff_of_true (unchanged_equivalence.refl h) trivial
  | blit =>
    rw [blit_outOfPhase ho]
    exact iff_of_true (unchanged_equivalence.refl h) trivial
  | acquire handle => exact iff_of_true (acquire_outOfPhase ho handle) trivial
  | write token off color => exact iff_of_true (write_outOfPhase token off color) trivial
  | release token => exact release_outOfPhase ho token

theorem publish_phase (s : Session) : (memAcctPublishFootprint s).phase = s.phase :=
  congrArg Registry.phase (publish_keeps s).2.2

theorem OutOfPhase.step (ho : h.OutOfPhase) {call : SurfaceCall} (hcall : call.OnSurfaces) :
    (h.step E call).1.OutOfPhase := by
  have hinv := ho.inv.move (h.step_move E call)
  suffices hkeep : (h.step E call).1.session.cartIsDebug = h.session.cartIsDebug
      ∧ (h.step E call).1.session.phase = h.session.phase from
    ⟨hinv, hkeep.1.trans ho.noDebug, hkeep.2 ▸ ho.phase⟩
  cases call with
  | phase => exact hcall.elim
  | create => rw [create_outOfPhase ho]; exact ⟨rfl, rfl⟩
  | destroy handle =>
    show (surfaceDestroy h.session handle).cartIsDebug = _
      ∧ (surfaceDestroy h.session handle).phase = _
    rw [surfaceDestroy_release ho.noDebug]
    cases h.session.unlocked handle with
    | none => exact ⟨rfl, rfl⟩
    | some =>
      simp only
      split_ifs
      · exact ⟨rfl, rfl⟩
      · exact ⟨(publish_keeps _).2.1, publish_phase _⟩
  | draw => rw [draw_outOfPhase ho]; exact ⟨rfl, rfl⟩
  | blit => rw [blit_outOfPhase ho]; exact ⟨rfl, rfl⟩
  | acquire handle =>
    show (surfaceAcquire h.session handle).2.cartIsDebug = _
      ∧ (surfaceAcquire h.session handle).2.phase = _
    rw [surfaceAcquire_eq ho.noDebug, surfaceAcquireLock_eq]
    cases h.session.unlocked handle with
    | none => exact ⟨rfl, rfl⟩
    | some =>
      simp only
      split_ifs <;> exact ⟨rfl, rfl⟩
  | write token off color =>
    show (lockWrite h.session token off color).cartIsDebug = _
      ∧ (lockWrite h.session token off color).phase = _
    unfold lockWrite
    cases resolveLockview h.session.surfaces token with
    | none => exact ⟨rfl, rfl⟩
    | some =>
      simp only
      split_ifs <;> exact ⟨rfl, rfl⟩
  | release token =>
    show (surfaceRelease h.session token).cartIsDebug = _
      ∧ (surfaceRelease h.session token).phase = _
    unfold surfaceRelease
    cases resolveLockview h.session.surfaces token with
    | none | some i => exact ⟨rfl, rfl⟩
  | frameDone => exact hcall.elim

end Calls

end HostLeg

/-! ## Whole runs -/

/-- **The surface calls of a release cart outside `draw()` change nothing, at any point of the run,
exactly if each of them is harmless.** -/
theorem outOfPhase_noop_iff (E : HostEnv) (s : Session) (ops : List SurfaceOp)
    (calls : List SurfaceCall)
    (hdebug : ((start s).after E ops).session.cartIsDebug = false)
    (hphase : ((start s).after E ops).session.phase ≠ .draw)
    (hcalls : ∀ call ∈ calls, call.OnSurfaces) :
    let h := (start s).after E ops
    (∀ pre, pre <+: calls → h.Unchanged (traceOf (step E) h pre).1)
      ↔ EachStep (step E) HostLeg.Harmless h calls := by
  intro h
  have ho : h.OutOfPhase := ⟨after_regInv E s ops, hdebug, hphase⟩
  rw [← eachStep_rel_iff HostLeg.unchanged_equivalence]
  exact eachStep_congr (fun _ call hc hi => HostLeg.step_unchanged_iff hi (hcalls call hc))
    (fun _ call hc hi _ => hi.step (hcalls call hc)) ho

/-- A surface made in `draw()`, with a lock that is still held in `update()`. -/
def leaveDrawOps : List SurfaceOp :=
  [.call (.phase .draw), .call (.create 2 1), .call (.acquire (surfaceEncode 0 1)),
   .call (.phase .update)]

/-- Drawing, a phantom lock and a failed destroy. -/
def updateCalls : List SurfaceCall :=
  [.draw (surfaceEncode 0 0) (.clear 3), .create 4 4,
   .blit (surfaceEncode 0 0) (surfaceEncode 0 1) 0 0,
   .destroy (surfaceEncode 0 1), .acquire (surfaceEncode 0 0), .write (lockviewEncode 0 0) 5 9,
   .destroy (surfaceEncode 0 0)]

theorem outOfPhase_noop_demo :
    ((start demoStart).after demoHostEnv leaveDrawOps).Unchanged
      (traceOf (step demoHostEnv)
        ((start demoStart).after demoHostEnv leaveDrawOps) updateCalls).1 :=
  (outOfPhase_noop_iff demoHostEnv demoStart leaveDrawOps updateCalls rfl (by decide)
    (by simp [updateCalls, SurfaceCall.OnSurfaces])).mpr (by decide +kernel) updateCalls
    (List.prefix_refl _)

/-- In `update()`, a release cart destroys a surface, changes the pixels of one through a lock from
`draw()`, and sets `cart_has_drawn` by releasing a phantom lock of the screen. -/
theorem outOfPhase_changes :
    let h := (start demoStart).after demoHostEnv leaveDrawOps
    let h' := (start demoStart).after demoHostEnv
      [.call (.phase .draw), .call (.create 2 1), .call (.phase .update)]
    (h.session.phase = .update ∧ h'.session.phase = .update
      ∧ h.session.cartIsDebug = false ∧ h'.session.cartIsDebug = false)
    ∧ ((h'.session.surfaces.slots 1).inUse = true
      ∧ ((h'.step demoHostEnv (.destroy (surfaceEncode 0 1))).1.session.surfaces.slots 1).inUse
        = false)
    ∧ ((h.session.surfaces.slots 1).pixels = some [0, 0]
      ∧ ((traceOf (step demoHostEnv) h [.write (lockviewEncode 0 1) 1 9,
          .release (lockviewEncode 0 1)]).1.session.surfaces.slots 1).pixels = some [0, 9])
    ∧ (h.cartHasDrawn = false
      ∧ (traceOf (step demoHostEnv) h [.acquire (surfaceEncode 0 0),
          .release (lockviewEncode 0 0)]).1.cartHasDrawn = true) := by
  refine ⟨⟨rfl, rfl, rfl, rfl⟩, ⟨?_, ?_⟩, ⟨?_, ?_⟩, rfl, ?_⟩ <;> decide +kernel

end Blyt
