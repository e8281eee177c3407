import Blyt.SurfaceHandles
import Blyt.Residency

/-!
# A lock is exclusive

While a surface is locked, its pixels are the cart's, in the region of the lock; the canonical
buffer waits for the copy back. Three things make that work. No operation through a handle gets
at a locked slot (`handle_keeps`), nor at its region (`handle_region`). None of them looks at the
canonical pixels of a locked slot either: with other pixels there it does the same
(`repaint_opStep`). And until the lock is released nothing but a present, which writes to the
screen past the registry, changes the slot (`held`), so what the release finds is the slot as the
acquire left it, and what it copies is the region.
-/

namespace Blyt

open List Option Function HostLeg

/-! ## Held slots -/

section Held

variable {a : Access} {m : ByteMem} {r r' : SurfaceRegistry} {i : Fin surfaceMax}

theorem update_other {j : Fin surfaceMax} {t : SurfaceSlot} (hl : (r.slots i).locked = true)
    (hj : (r.slots j).locked = false) : Function.update r.slots j t i = r.slots i := by
  refine update_of_ne ?_ _ _
  rintro rfl
  rw [hl] at hj
  cases hj

theorem RegInv.unlocked_of_free (h : RegInv r) {j : Fin surfaceMax}
    (hfree : (r.slots j).inUse = false) : (r.slots j).locked = false := by
  by_contra hl
  rw [(h.slot j).locked (by simpa using hl)] at hfree
  cases hfree

/-- **Through a handle nothing gets at a locked slot.** -/
theorem RegInv.handle_keeps (h : RegInv r) (hm : RegMove .handle m r r')
    (hl : (r.slots i).locked = true) : r'.slots i = r.slots i := by
  cases hm with
  | idle => rfl
  | paint j px hj hpx | lock j phantom hu hj hroom | direct j hu hj => exact update_other hl hj
  | occupy j w ht hj hfree => exact update_other hl (h.unlocked_of_free hfree)
  | free j hj =>
    rw [freeSlot_slots]
    exact update_other hl hj
  | lockPaint j px ha hd hpx | flush j ha hj | reap ha | boundary px ha hpx | present px ha hpx =>
    cases ha

theorem reapSlots_unlocked (m : ByteMem) (r : SurfaceRegistry) (i : Fin surfaceMax) :
    ((surfaceReapSlots m r).slots i).locked = false := by
  rw [reapSlots_slots]
  split_ifs
  · exact unlock_locked m _
  · rw [release_locked]
    exact unlock_locked m _

/-- **Until it is released, a lock with a region keeps its slot as it is.** -/
theorem RegInv.held (h : RegInv r) (hm : RegMove a m r r') (ha : a ≠ .raw)
    (hr : (r.slots i).HasRegion) (hl' : (r'.slots i).locked = true) : r'.slots i = r.slots i := by
  have hreap : ∀ q, ((surfaceReapSlots m q).slots i).locked ≠ true := fun q => by
    rw [reapSlots_unlocked]
    decide
  cases hm with
  | idle => rfl
  | paint j px hj hpx | lock j phantom hu hj hroom | direct j hu hj => exact update_other hr.1 hj
  | occupy j w ht hj hfree => exact update_other hr.1 (h.unlocked_of_free hfree)
  | free j hj =>
    rw [freeSlot_slots]
    exact update_other hr.1 hj
  | lockPaint j px _ hd =>
    refine update_of_ne ?_ _ _
    rintro rfl
    rw [hr.2] at hd
    cases hd
  | flush j _ =>
    rw [flushLock_slots] at hl' ⊢
    refine update_of_ne ?_ _ _
    rintro rfl
    rw [update_self, unlock_locked] at hl'
    cases hl'
  | reap _ | boundary px _ hpx => exact absurd hl' (hreap _)
  | present px hraw => exact absurd hraw ha

theorem RegInv.flush_pixels (h : RegInv r) (m : ByteMem) (hr : (r.slots i).HasRegion)
    (hp : (r.slots i).lockPhantom = false) :
    ((r.slots i).unlock m).pixels
      = some (readGuest m (r.slots i).lockVaddr (r.slots i).lockLen) := by
  rw [(h.slot i).unlock_pixels hr.1, if_pos ⟨hp, hr.2⟩]

end Held

/-! ## Regions -/

section Regions

variable {E : HostEnv} {h : HostLeg} {i : Fin surfaceMax}

theorem acquireLock_region {s : Session} (hinv : RegInv s.surfaces)
    (hr : (s.surfaces.slots i).HasRegion) (handle : Nat) (phantom : Bool) :
    readGuest (surfaceAcquireLock s handle phantom).2.gmem (s.surfaces.slots i).lockVaddr
        (s.surfaces.slots i).lockLen
      = readGuest s.gmem (s.surfaces.slots i).lockVaddr (s.surfaces.slots i).lockLen := by
  rw [surfaceAcquireLock_eq]
  cases s.unlocked handle with
  | none => rfl
  | some =>
    simp only
    split_ifs
    · -- the new region starts behind all others
      exact readGuest_writeGuest_apart (.inr ((hinv.slot i).region hr).2.2)
    · rfl

theorem surfaceCreateSlot_gmem (oom : Bool) (s : Session) (w ht : Int) :
    (surfaceCreateSlot oom s w ht).2.gmem = s.gmem := by
  rcases surfaceCreateSlot_cases oom s w ht with heq | ⟨i, -, -, heq⟩
  · rw [heq]
  · rw [heq]
    exact publish_gmem _

theorem surfaceCreate_gmem (oom : Bool) (s : Session) (w ht : Int) :
    (surfaceCreate oom s w ht).2.gmem = s.gmem := by
  unfold surfaceCreate
  by_cases hp : s.phase = .draw
  · rw [phaseGate_draw hp]
    exact surfaceCreateSlot_gmem oom s w ht
  · rw [phaseGate_other hp]
    exact refused_gmem s

theorem destroySlot_gmem (s : Session) (i : Fin surfaceMax) : (s.destroySlot i).gmem = s.gmem := by
  unfold Session.destroySlot
  split_ifs
  · rfl
  · exact publish_gmem _

theorem paintSlot_gmem (h : HostLeg) (i : Fin surfaceMax) (op : DrawOp) :
    (h.paintSlot i op).1.session.gmem = h.session.gmem := by
  unfold paintSlot
  cases hpx : (h.session.surfaces.slots i).pixels with
  | none => simp only [hpx]
  | some px =>
    simp only [hpx]
    cases op.paint px (h.session.surfaces.slots i).w (h.session.surfaces.slots i).h with
    | none => rfl
    | some => rfl

theorem blitSlots_gmem (c : RowCopy) (h : HostLeg) (i j : Fin surfaceMax) (x y : Int) :
    (h.blitSlots c i j x y).session.gmem = h.session.gmem := by
  unfold blitSlots
  cases hpx : (h.session.surfaces.slots i).pixels with
  | none => simp only [hpx]
  | some =>
    cases hpx' : (h.session.surfaces.slots j).pixels with
    | none => simp only [hpx, hpx']
    | some => simp only [hpx, hpx', setPixels]

/-- Only an acquire writes to guest memory. -/
theorem handle_gmem {op : SurfaceOp} (hop : op.access = .handle)
    (hne : ∀ handle, op ≠ .call (.acquire handle)) :
    (h.opStep E op).1.session.gmem = h.session.gmem := by
  cases op with
  | call c =>
    cases c with
    | create w ht => exact surfaceCreate_gmem false h.session w ht
    | destroy handle =>
      show (surfaceDestroy h.session handle).gmem = _
      rw [surfaceDestroy_any]
      cases resolveSurface h.session.surfaces handle with
      | none => rfl
      | some j =>
        simp only
        split_ifs
        · exact refused_gmem _
        · exact destroySlot_gmem _ j
    | draw dst op =>
      show (h.surfaceDraw dst op).1.session.gmem = _
      rw [surfaceDraw_eq]
      split_ifs
      · exact refused_gmem _
      · cases resolveSurface h.session.surfaces dst with
        | none => rfl
        | some j =>
          simp only
          split_ifs
          · exact refused_gmem _
          · exact paintSlot_gmem h j op
    | blit dst src x y =>
      show (h.surfaceBlit E.copy dst src x y).session.gmem = _
      rw [surfaceBlit_eq]
      split_ifs
      · exact refused_gmem _
      · cases resolveSurface h.session.surfaces dst with
        | none => rfl
        | some j =>
          cases resolveSurface h.session.surfaces src with
          | none => rfl
          | some k => exact blitSlots_gmem E.copy h j k x y
    | acquire handle => exact absurd rfl (hne handle)
    | _ => cases hop
  | createFails w ht => exact surfaceCreate_gmem true h.session w ht
  | luaCreate oom w ht => exact surfaceCreateSlot_gmem oom h.session w ht
  | luaDestroy handle =>
    show (sessionSurfaceDestroy h.session handle).gmem = _
    rw [sessionSurfaceDestroy_eq]
    cases h.session.unlocked handle with
    | none => rfl
    | some j => exact destroySlot_gmem _ j
  | luaDraw dst op =>
    show (luaSurfaceDraw h.session dst op).gmem = _
    unfold luaSurfaceDraw
    split
    · rfl
    · split
      · rfl
      · rfl
  | luaBlit dst src x y =>
    show (luaSurfaceBlit E.copy h.session dst src x y).gmem = _
    unfold luaSurfaceBlit
    split
    · rfl
    · rfl
  | luaAcquire handle =>
    show (sessionSurfaceAcquire h.session handle).gmem = _
    rw [sessionSurfaceAcquire_eq]
    cases h.session.unlocked handle with
    | none => rfl
    | some => rfl
  | _ => cases hop

/-- **Through a handle nothing gets at the region of a lock.** -/
theorem handle_region (hinv : RegInv h.session.surfaces)
    (hr : (h.session.surfaces.slots i).HasRegion) {op : SurfaceOp} (hop : op.access = .handle) :
    readGuest (h.opStep E op).1.session.gmem (h.session.surfaces.slots i).lockVaddr
        (h.session.surfaces.slots i).lockLen
      = readGuest h.session.gmem (h.session.surfaces.slots i).lockVaddr
        (h.session.surfaces.slots i).lockLen := by
  by_cases hacq : ∃ handle, op = .call (.acquire handle)
  · obtain ⟨handle, rfl⟩ := hacq
    show readGuest (surfaceAcquire h.session handle).2.gmem _ _ = _
    rw [surfaceAcquire_any]
    split_ifs
    · exact acquireLock_region hinv hr handle _
    · rw [refused_gmem]
  · rw [handle_gmem hop (not_exists.mp hacq)]

/-- A store through another lock leaves the region. -/
theorem lockWrite_region (hinv : RegInv h.session.surfaces)
    (hr : (h.session.surfaces.slots i).HasRegion) {token : Nat} (off : Nat) (color : UInt8)
    (hne : resolveLockview h.session.surfaces token ≠ some i) :
    readGuest (lockWrite h.session token off color).gmem
        (h.session.surfaces.slots i).lockVaddr (h.session.surfaces.slots i).lockLen
      = readGuest h.session.gmem (h.session.surfaces.slots i).lockVaddr
        (h.session.surfaces.slots i).lockLen := by
  unfold lockWrite
  cases hres : resolveLockview h.session.surfaces token with
  | none => rfl
  | some j =>
    have hij : i ≠ j := fun hij => hne (hij ▸ hres)
    have hl := resolveLockview_some hres
    simp only
    split_ifs with hoff
    · refine readGuest_writeGuest_apart ?_
      rw [length_singleton]
      cases hd : (h.session.surfaces.slots j).lockDirect with
      | true =>
        have := ((hinv.slot j).direct hd).2
        omega
      | false =>
        rcases hinv.apart i j hij hr ⟨hl, hd⟩ with hap | hap
        · exact .inr (by omega)
        · exact .inl (by omega)
    · rfl

end Regions

/-! ## What the canonical pixels of a locked slot are good for -/

/-- The leg with other canonical pixels in slot `i`. -/
def HostLeg.repaint (h : HostLeg) (i : Fin surfaceMax) (px : List UInt8) : HostLeg :=
  { h with session := setPixels h.session i px }

section Repaint

variable {r : SurfaceRegistry} {s : Session} {h : HostLeg} {i j : Fin surfaceMax} (px : List UInt8)

theorem withPixels_of_ne (hj : j ≠ i) : (r.withPixels i px).slots j = r.slots j :=
  update_of_ne hj _ _

theorem setPixels_slots (hij : i ≠ j) : (setPixels s i px).surfaces.slots j = s.surfaces.slots j :=
  withPixels_of_ne px hij.symm

theorem withPixels_self (r : SurfaceRegistry) (i : Fin surfaceMax) :
    (r.withPixels i px).slots i = { r.slots i with pixels := some px } := update_self ..

theorem withPixels_field {α : Type} (f : SurfaceSlot → α)
    (hf : ∀ t : SurfaceSlot, f { t with pixels := some px } = f t) (r : SurfaceRegistry)
    (i j : Fin surfaceMax) : f ((r.withPixels i px).slots j) = f (r.slots j) := by
  by_cases hj : j = i
  · subst hj
    rw [withPixels_self, hf]
  · rw [withPixels_of_ne px hj]

theorem resolveSurface_withPixels (r : SurfaceRegistry) (i : Fin surfaceMax) (handle : Nat) :
    resolveSurface (r.withPixels i px) handle = resolveSurface r handle := by
  simp only [resolveSurface_eq, withPixels_field px SurfaceSlot.inUse (fun _ => rfl),
    withPixels_field px SurfaceSlot.gen (fun _ => rfl)]

theorem resolveSurface_setPixels (s : Session) (i : Fin surfaceMax) (handle : Nat) :
    resolveSurface (setPixels s i px).surfaces handle = resolveSurface s.surfaces handle :=
  resolveSurface_withPixels px s.surfaces i handle

theorem locked_withPixels (r : SurfaceRegistry) (i j : Fin surfaceMax) :
    ((r.withPixels i px).slots j).locked = (r.slots j).locked :=
  withPixels_field px SurfaceSlot.locked (fun _ => rfl) r i j

theorem locked_setPixels (s : Session) (i j : Fin surfaceMax) :
    ((setPixels s i px).surfaces.slots j).locked = (s.surfaces.slots j).locked :=
  locked_withPixels px s.surfaces i j

theorem unlocked_setPixels (s : Session) (i : Fin surfaceMax) (handle : Nat) :
    (setPixels s i px).unlocked handle = s.unlocked handle := by
  simp only [Session.unlocked, resolveSurface_setPixels, locked_setPixels]

theorem firstFreeSlot_withPixels (r : SurfaceRegistry) (i : Fin surfaceMax) :
    firstFreeSlot (r.withPixels i px) = firstFreeSlot r := by
  unfold firstFreeSlot
  simp only [withPixels_field px SurfaceSlot.inUse (fun _ => rfl)]

section

variable (hij : i ≠ j)
include hij

/-- A change of another slot commutes with new pixels in this one. -/
theorem set_withPixels (t : SurfaceSlot) :
    (r.withPixels i px).set j t = (r.set j t).withPixels i px := by
  have hslot : (r.set j t).slots i = r.slots i := update_of_ne hij _ _
  unfold SurfaceRegistry.withPixels
  rw [hslot, SurfaceRegistry.set, SurfaceRegistry.set, SurfaceRegistry.set, SurfaceRegistry.set,
    update_comm hij]

theorem withPixels_withPixels (px' : List UInt8) :
    (r.withPixels i px).withPixels j px' = (r.withPixels j px').withPixels i px := by
  rw [SurfaceRegistry.withPixels, withPixels_of_ne px hij.symm, set_withPixels px hij]
  rfl

theorem occupy_withPixels (w ht : Int) :
    surfaceOccupy (r.withPixels i px) j w ht = (surfaceOccupy r j w ht).withPixels i px := by
  unfold surfaceOccupy
  dsimp only
  rewrite [withPixels_of_ne px hij.symm, set_withPixels px hij]
  rfl

theorem freeSlot_withPixels :
    surfaceFreeSlot (r.withPixels i px) j = (surfaceFreeSlot r j).withPixels i px := by
  unfold surfaceFreeSlot
  dsimp only
  rw [withPixels_of_ne px hij.symm, set_withPixels px hij]
  split_ifs
  all_goals rfl

theorem lockSlot_withPixels (phantom : Bool) :
    (r.withPixels i px).lockSlot j phantom = (r.lockSlot j phantom).withPixels i px := by
  unfold SurfaceRegistry.lockSlot
  rewrite [withPixels_of_ne px hij.symm, set_withPixels px hij]
  rfl

theorem lockDirectly_withPixels :
    (r.withPixels i px).lockDirectly j = (r.lockDirectly j).withPixels i px := by
  unfold SurfaceRegistry.lockDirectly
  rewrite [withPixels_of_ne px hij.symm, set_withPixels px hij]
  rfl

end

/-! Each operation through a handle, with other pixels in a slot that it cannot get at. -/

theorem publish_setPixels (s : Session) (i : Fin surfaceMax) :
    memAcctPublishFootprint (setPixels s i px) = setPixels (memAcctPublishFootprint s) i px := by
  have hblock : (setPixels s i px).block = s.block := rfl
  cases hc : s.block with
  | none => rw [publish_of_none hc, publish_of_none (hblock.trans hc)]
  | some =>
    rewrite [publish_of_some hc, publish_of_some (hblock.trans hc)]
    rfl

theorem refused_setPixels (s : Session) (i : Fin surfaceMax) :
    (setPixels s i px).refused = setPixels s.refused i px := by
  unfold Session.refused
  show (if s.cartIsDebug = true then _ else _) = _
  split_ifs
  · rfl
  · rfl

theorem refuse_repaint (h : HostLeg) (i : Fin surfaceMax) :
    (h.repaint i px).refuse = h.refuse.repaint i px := by
  unfold refuse repaint
  simp only [refused_setPixels]

theorem createSlot_setPixels (hinv : RegInv s.surfaces) (hl : (s.surfaces.slots i).locked = true)
    (oom : Bool) (w ht : Int) :
    surfaceCreateSlot oom (setPixels s i px) w ht
      = ((surfaceCreateSlot oom s w ht).1, setPixels (surfaceCreateSlot oom s w ht).2 i px) := by
  have hfree : firstFreeSlot (setPixels s i px).surfaces = firstFreeSlot s.surfaces :=
    firstFreeSlot_withPixels px s.surfaces i
  have hfits : ∀ n, memAllocFits (memAcctGuestHeapUsed (setPixels s i px))
      (ctxNonEvictableFootprint (setPixels s i px)) n
      = memAllocFits (memAcctGuestHeapUsed s) (ctxNonEvictableFootprint s) n := fun _ => rfl
  unfold surfaceCreateSlot
  rw [hfree, hfits]
  split_ifs
  · rfl
  · rfl
  · cases firstFreeSlot s.surfaces <;> rfl
  · cases hj : firstFreeSlot s.surfaces with
    | none => rfl
    | some j =>
      have hij : i ≠ j := by
        rintro rfl
        have := firstFreeSlot_free hj
        rw [(hinv.slot i).locked hl] at this
        cases this
      show (surfaceEncode ((surfaceOccupy (s.surfaces.withPixels i px) j w ht).slots j).gen j,
          memAcctPublishFootprint
            { s with surfaces := surfaceOccupy (s.surfaces.withPixels i px) j w ht })
        = (surfaceEncode ((surfaceOccupy s.surfaces j w ht).slots j).gen j,
          setPixels (memAcctPublishFootprint
            { s with surfaces := surfaceOccupy s.surfaces j w ht }) i px)
      rewrite [occupy_withPixels px hij, withPixels_of_ne px hij.symm, ← publish_setPixels]
      rfl

theorem create_setPixels (hinv : RegInv s.surfaces) (hl : (s.surfaces.slots i).locked = true)
    (oom : Bool) (w ht : Int) :
    surfaceCreate oom (setPixels s i px) w ht
      = ((surfaceCreate oom s w ht).1, setPixels (surfaceCreate oom s w ht).2 i px) := by
  unfold surfaceCreate
  by_cases hp : s.phase = .draw
  · rw [phaseGate_draw hp, phaseGate_draw (s := setPixels s i px) hp]
    exact createSlot_setPixels px hinv hl oom w ht
  · rw [phaseGate_other hp, phaseGate_other (s := setPixels s i px) hp, refused_setPixels]

theorem destroySlot_setPixels (hij : i ≠ j) :
    (setPixels s i px).destroySlot j = setPixels (s.destroySlot j) i px := by
  unfold Session.destroySlot
  rw [setPixels_slots px hij]
  split_ifs
  · rfl
  · rewrite [← publish_setPixels, show (setPixels s i px).surfaces
      = s.surfaces.withPixels i px from rfl, freeSlot_withPixels px hij]
    rfl

section

variable (hl : (s.surfaces.slots i).locked = true)
include hl

theorem destroy_setPixels (handle : Nat) :
    surfaceDestroy (setPixels s i px) handle = setPixels (surfaceDestroy s handle) i px := by
  rw [surfaceDestroy_any, surfaceDestroy_any, resolveSurface_setPixels]
  cases resolveSurface s.surfaces handle with
  | none => rfl
  | some =>
    simp only [locked_setPixels]
    split_ifs with hj
    · exact refused_setPixels px s i
    · exact destroySlot_setPixels px fun hij => hj (hij ▸ hl)

/-- A handle that gets at a slot does not get at a locked one. -/
theorem unlocked_ne {handle : Nat} (hu : s.unlocked handle = some j) : i ≠ j := by
  rintro rfl
  rw [(Session.unlocked_eq_some.mp hu).2] at hl
  cases hl

section

variable (handle : Nat)

theorem sessionDestroy_setPixels : sessionSurfaceDestroy (setPixels s i px) handle
      = setPixels (sessionSurfaceDestroy s handle) i px := by
  rw [sessionSurfaceDestroy_eq, sessionSurfaceDestroy_eq, unlocked_setPixels]
  cases hu : s.unlocked handle with
  | none => rfl
  | some => exact destroySlot_setPixels px (unlocked_ne hl hu)

theorem acquireLock_setPixels (phantom : Bool) :
    surfaceAcquireLock (setPixels s i px) handle phantom
      = ((surfaceAcquireLock s handle phantom).1,
        setPixels (surfaceAcquireLock s handle phantom).2 i px) := by
  rw [surfaceAcquireLock_eq, surfaceAcquireLock_eq, unlocked_setPixels]
  cases hu : s.unlocked handle with
  | none => rfl
  | some j =>
    have hij := unlocked_ne hl hu
    have hslot := setPixels_slots (s := s) px hij
    have hroom : LockRoom (setPixels s i px) j ↔ LockRoom s j := by
      unfold LockRoom
      rw [hslot]
      rfl
    have hlock : (setPixels s i px).lock j phantom = setPixels (s.lock j phantom) i px := by
      show ({ s with
        surfaces := (s.surfaces.withPixels i px).lockSlot j phantom
        gmem := writeGuest s.gmem (lockArenaBase + s.surfaces.lockBump)
          (if phantom then replicate (slotArea ((s.surfaces.withPixels i px).slots j).w
              ((s.surfaces.withPixels i px).slots j).h) 0
            else (((s.surfaces.withPixels i px).slots j).pixels.getD []).take
              (slotArea ((s.surfaces.withPixels i px).slots j).w
                ((s.surfaces.withPixels i px).slots j).h)) } : Session) = _
      rewrite [lockSlot_withPixels px hij, withPixels_of_ne px hij.symm]
      rfl
    simp only [hslot, hlock, hroom]
    split_ifs
    · rfl
    · rfl

theorem acquire_setPixels : surfaceAcquire (setPixels s i px) handle
      = ((surfaceAcquire s handle).1, setPixels (surfaceAcquire s handle).2 i px) := by
  rw [surfaceAcquire_any, surfaceAcquire_any]
  by_cases hm : s.MayLock
  · rw [if_pos hm, if_pos (show (setPixels s i px).MayLock from hm)]
    exact acquireLock_setPixels px hl handle _
  · rw [if_neg hm, if_neg (show ¬ (setPixels s i px).MayLock from hm), refused_setPixels]

theorem sessionAcquire_setPixels : sessionSurfaceAcquire (setPixels s i px) handle
        = setPixels (sessionSurfaceAcquire s handle) i px
      ∧ sessionSurfaceRecord (setPixels s i px) handle = sessionSurfaceRecord s handle := by
  unfold sessionSurfaceRecord
  rw [sessionSurfaceAcquire_eq, sessionSurfaceAcquire_eq, unlocked_setPixels]
  cases hu : s.unlocked handle with
  | none => exact ⟨rfl, rfl⟩
  | some j =>
    have hij := unlocked_ne hl hu
    constructor
    · show ({ s with surfaces := (s.surfaces.withPixels i px).lockDirectly j } : Session) = _
      rewrite [lockDirectly_withPixels px hij]
      rfl
    · simp [setPixels_slots px hij]

end

end

theorem setPixels_comm (hij : i ≠ j) (px' : List UInt8) :
    setPixels (setPixels s i px) j px' = setPixels (setPixels s j px') i px := by
  show ({ s with surfaces := (s.surfaces.withPixels i px).withPixels j px' } : Session) = _
  rewrite [withPixels_withPixels px hij]
  rfl

theorem paintSlot_repaint (hij : i ≠ j) (op : DrawOp) :
    (h.repaint i px).paintSlot j op
      = ((h.paintSlot j op).1.repaint i px, (h.paintSlot j op).2) := by
  unfold paintSlot repaint
  simp only [setPixels_slots px hij]
  cases (h.session.surfaces.slots j).pixels with
  | none => rfl
  | some px0 =>
    simp only
    cases op.paint px0 (h.session.surfaces.slots j).w (h.session.surfaces.slots j).h with
    | none => rfl
    | some =>
      simp only [setPixels_comm px hij]

theorem blitSlots_repaint (c : RowCopy) {k : Fin surfaceMax} (hij : i ≠ j) (hik : i ≠ k)
    (x y : Int) : (h.repaint i px).blitSlots c j k x y = (h.blitSlots c j k x y).repaint i px := by
  unfold blitSlots repaint
  simp only [setPixels_slots px hij, setPixels_slots px hik]
  cases (h.session.surfaces.slots j).pixels with
  | none => rfl
  | some =>
    cases (h.session.surfaces.slots k).pixels with
    | none => rfl
    | some => simp only [setPixels_comm px hij]

theorem surfaceDraw_repaint (hl : (h.session.surfaces.slots i).locked = true) (dst : Nat)
    (op : DrawOp) :
    (h.repaint i px).surfaceDraw dst op
      = ((h.surfaceDraw dst op).1.repaint i px, (h.surfaceDraw dst op).2) := by
  rw [surfaceDraw_eq, surfaceDraw_eq,
    show (h.repaint i px).session.surfaces = h.session.surfaces.withPixels i px from rfl,
    resolveSurface_withPixels, show (h.repaint i px).session.phase = h.session.phase from rfl]
  split_ifs
  · rw [refuse_repaint]
  · cases resolveSurface h.session.surfaces dst with
    | none => rfl
    | some =>
      simp only [locked_withPixels]
      split_ifs with hj
      · rw [refuse_repaint]
      · refine paintSlot_repaint px ?_ op
        rintro rfl
        exact hj hl

theorem surfaceBlit_repaint (hl : (h.session.surfaces.slots i).locked = true) (c : RowCopy)
    (dst src : Nat) (x y : Int) :
    (h.repaint i px).surfaceBlit c dst src x y = (h.surfaceBlit c dst src x y).repaint i px := by
  have hsame : ((h.repaint i px).session.phase ≠ .draw
        ∨ BlitLocked (h.repaint i px).session.surfaces dst src)
      ↔ (h.session.phase ≠ .draw ∨ BlitLocked h.session.surfaces dst src) := by
    refine or_congr Iff.rfl ?_
    unfold BlitLocked
    rw [show (h.repaint i px).session.surfaces = h.session.surfaces.withPixels i px from rfl]
    simp only [resolveSurface_withPixels, locked_withPixels]
  simp only [surfaceBlit_eq, hsame]
  split <;> rename_i hgate
  · rw [refuse_repaint]
  · rw [show (h.repaint i px).session.surfaces = h.session.surfaces.withPixels i px from rfl,
      resolveSurface_withPixels, resolveSurface_withPixels]
    obtain ⟨-, hfree⟩ := not_or.mp hgate
    unfold BlitLocked at hfree
    cases hd : resolveSurface h.session.surfaces dst with
    | none => rfl
    | some =>
      cases hs : resolveSurface h.session.surfaces src with
      | none => rfl
      | some =>
        rw [hd, hs] at hfree
        refine blitSlots_repaint px c ?_ ?_ x y
        · rintro rfl
          exact hfree (.inl hl)
        · rintro rfl
          exact hfree (.inr hl)

section

variable (hl : (s.surfaces.slots i).locked = true)
include hl

theorem drawable_setPixels (handle : Nat) :
    sessionSurfaceDrawable (setPixels s i px) handle = sessionSurfaceDrawable s handle := by
  unfold sessionSurfaceDrawable
  rw [unlocked_setPixels]
  cases hu : s.unlocked handle with
  | none => rfl
  | some =>
    simp [setPixels_slots px (unlocked_ne hl hu)]

/-- A slot that can be drawn to is not a locked one. -/
theorem drawable_ne {handle : Nat} {px₀ : List UInt8}
    (hd : sessionSurfaceDrawable s handle = some (j, px₀)) : i ≠ j := by
  obtain ⟨j', hu, hpx⟩ := bind_eq_some_iff.mp hd
  obtain ⟨px1, -, heq⟩ := map_eq_some_iff.mp hpx
  cases heq
  exact unlocked_ne hl hu

theorem luaDraw_setPixels (dst : Nat) (op : DrawOp) :
    luaSurfaceDraw (setPixels s i px) dst op = setPixels (luaSurfaceDraw s dst op) i px := by
  unfold luaSurfaceDraw
  rw [drawable_setPixels px hl]
  cases hd : sessionSurfaceDrawable s dst with
  | none => rfl
  | some target =>
    obtain ⟨j, px0⟩ := target
    have hij := drawable_ne hl hd
    simp only [setPixels_slots px hij]
    cases op.paint px0 (s.surfaces.slots j).w (s.surfaces.slots j).h with
    | none => rfl
    | some px' => exact setPixels_comm px hij px'

theorem luaBlit_setPixels (c : RowCopy) (dst src : Nat) (x y : Int) :
    luaSurfaceBlit c (setPixels s i px) dst src x y
      = setPixels (luaSurfaceBlit c s dst src x y) i px := by
  unfold luaSurfaceBlit
  rw [drawable_setPixels px hl, drawable_setPixels px hl]
  cases hd : sessionSurfaceDrawable s dst with
  | none => rfl
  | some target =>
    cases hs : sessionSurfaceDrawable s src with
    | none => rfl
    | some source =>
      have hij := drawable_ne hl hd
      simp only [setPixels_slots px hij, setPixels_slots px (drawable_ne hl hs)]
      exact setPixels_comm px hij _

end

/-- **Through a handle nothing reads a locked slot**: with other canonical pixels there, an
operation gives the same answer and leaves the same, up to these pixels. -/
theorem repaint_opStep {E : HostEnv} (hinv : RegInv h.session.surfaces)
    (hl : (h.session.surfaces.slots i).locked = true) {op : SurfaceOp} (hop : op.access = .handle) :
    (h.repaint i px).opStep E op = ((h.opStep E op).1.repaint i px, (h.opStep E op).2) := by
  -- an operation on the session alone
  have lift : ∀ {α : Type} (f : Session → α × Session) (g : α → SurfaceAnswer),
      f (setPixels h.session i px)
          = ((f h.session).1, setPixels (f h.session).2 i px) →
        (({ h with session := (f (setPixels h.session i px)).2 } : HostLeg),
            g (f (setPixels h.session i px)).1)
          = (repaint { h with session := (f h.session).2 } i px, g (f h.session).1) := by
    intro α f g hf
    rewrite [hf]
    rfl
  cases op with
  | call c =>
    cases c with
    | create w ht =>
      exact lift (surfaceCreate false · w ht) .handle (create_setPixels px hinv hl false w ht)
    | destroy handle =>
      refine lift (fun s => ((), surfaceDestroy s handle)) (fun _ => .done) ?_
      rw [destroy_setPixels px hl]
    | draw dst op => exact surfaceDraw_repaint px hl dst op
    | blit dst src x y =>
      show ((h.repaint i px).surfaceBlit E.copy dst src x y, SurfaceAnswer.done) = _
      rewrite [surfaceBlit_repaint px hl]
      rfl
    | acquire handle =>
      exact lift (surfaceAcquire · handle) (fun r => .lock (r.map Prod.snd))
        (acquire_setPixels px hl handle)
    | _ => cases hop
  | createFails w ht =>
    exact lift (surfaceCreate true · w ht) .handle (create_setPixels px hinv hl true w ht)
  | luaCreate oom w ht =>
    exact lift (surfaceCreateSlot oom · w ht) .handle (createSlot_setPixels px hinv hl oom w ht)
  | luaDestroy handle =>
    refine lift (fun s => ((), sessionSurfaceDestroy s handle)) (fun _ => .done) ?_
    rw [sessionDestroy_setPixels px hl]
  | luaDraw dst op =>
    refine lift (fun s => ((), luaSurfaceDraw s dst op)) (fun _ => .done) ?_
    rw [luaDraw_setPixels px hl]
  | luaBlit dst src x y =>
    refine lift (fun s => ((), luaSurfaceBlit E.copy s dst src x y)) (fun _ => .done) ?_
    rw [luaBlit_setPixels px hl]
  | luaAcquire handle =>
    obtain ⟨hacq, hrec⟩ := sessionAcquire_setPixels px hl handle
    refine lift (fun s => (sessionSurfaceRecord s handle, sessionSurfaceAcquire s handle)) .lock ?_
    rw [hacq, hrec]
  | _ => cases hop

end Repaint

/-! ## The life of a lock -/

section Life

variable {E : HostEnv} {h : HostLeg} {i : Fin surfaceMax}

theorem acquire_slot (hinv : RegInv h.session.surfaces) (hp : h.session.phase = .draw)
    {handle : Nat} (hu : h.session.unlocked handle = some i) {record : Int × Int × Int × Nat}
    (hans : (h.opStep E (.call (.acquire handle))).2 = .lock (some record)) :
    let t := (h.opStep E (.call (.acquire handle))).1.session.surfaces.slots i
    t.HasRegion ∧ t.lockPhantom = false ∧ t.pixels = (h.session.surfaces.slots i).pixels := by
  have hl := (Session.unlocked_eq_some.mp hu).2
  have hacq : surfaceAcquire h.session handle
      = if LockRoom h.session i then
          (some (lockArenaBase + h.session.surfaces.lockBump, (h.session.surfaces.slots i).w,
            (h.session.surfaces.slots i).w, (h.session.surfaces.slots i).h,
            lockviewEncode (h.session.surfaces.slots i).lockGen i), h.session.lock i false)
        else (none, h.session) := by
    rw [surfaceAcquire_any, if_pos (.inl hp), surfaceAcquireLock_eq, hu,
      decide_eq_false (not_not.mpr hp)]
  change SurfaceAnswer.lock ((surfaceAcquire h.session handle).1.map Prod.snd) = _ at hans
  show ((surfaceAcquire h.session handle).2.surfaces.slots i).HasRegion
    ∧ ((surfaceAcquire h.session handle).2.surfaces.slots i).lockPhantom = false
    ∧ ((surfaceAcquire h.session handle).2.surfaces.slots i).pixels = _
  by_cases hroom : LockRoom h.session i
  · have hself : (h.session.lock i false).surfaces.slots i
        = (h.session.surfaces.slots i).lockedAt false
          (lockArenaBase + h.session.surfaces.lockBump) :=
      update_self ..
    rw [hacq, if_pos hroom, hself]
    refine ⟨⟨rfl, ?_⟩, rfl, rfl⟩
    show (h.session.surfaces.slots i).lockDirect = false
    by_contra hd
    rw [((hinv.slot i).direct (by simpa using hd)).1] at hl
    cases hl
  · rw [hacq, if_neg hroom] at hans
    cases hans

/-- The slot of a lock that is not released stays as it is. -/
theorem held_run (hinv : RegInv h.session.surfaces) (hr : (h.session.surfaces.slots i).HasRegion)
    {ops : List SurfaceOp} (hraw : ∀ op ∈ ops, op.access ≠ .raw) (hheld : unlocks E i h ops = 0) :
    (h.after E ops).session.surfaces.slots i = h.session.surfaces.slots i := by
  refine countSteps_zero
    (L := fun h' : HostLeg => h'.session.surfaces.slots i = h.session.surfaces.slots i)
    (opStep_regInv E) ?_ hinv rfl hheld
  intro h' op hop hinv' hsame hkind
  have hr' := hsame ▸ hr
  have hl' : ((h'.opStep E op).1.session.surfaces.slots i).locked = true := by
    simpa [unlockedAt, hr'.1] using hkind
  exact (hinv'.held (h'.opStep_move E op) (hraw op hop) hr' hl').trans hsame

theorem release_slot (h : HostLeg) {token : Nat}
    (hres : resolveLockview h.session.surfaces token = some i) :
    (h.opStep E (.call (.release token))).1.session.surfaces.slots i
        = (h.session.surfaces.slots i).unlock h.session.gmem
      ∧ (h.opStep E (.luaRelease token)).1.session.surfaces.slots i
        = (h.session.surfaces.slots i).unlock h.session.gmem := by
  have hrel : (surfaceRelease h.session token).surfaces.slots i
      = (h.session.surfaces.slots i).unlock h.session.gmem := by
    unfold surfaceRelease
    rw [hres]
    simp [flushLock_slots]
  exact ⟨hrel, hrel⟩

theorem reap_screen {r : SurfaceRegistry} (m : ByteMem) :
    (surfaceReapSlots m r).slots 0 = (r.slots 0).unlock m := by
  rw [reapSlots_slots, if_pos rfl]

theorem frame_slot (E : HostEnv) (h : HostLeg) (rc : Bool) :
    (h.opStep E (.frameEntry rc false)).1.session.surfaces.slots 0
        = (h.session.surfaces.slots 0).unlock h.session.gmem
      ∧ (h.opStep E .luaReap).1.session.surfaces.slots 0
        = (h.session.surfaces.slots 0).unlock h.session.gmem
      ∧ (h.opStep E (.call .frameDone)).1.session.surfaces.slots 0
        = ((h.session.surfaces.withPixels 0 (h.shown E)).slots 0).unlock h.session.gmem := by
  refine ⟨?_, ?_, ?_⟩
  · show (runFrameEntry h.session rc false).surfaces.slots 0 = _
    unfold runFrameEntry surfaceReapAll
    cases rc <;> simp only [if_true, Bool.false_eq_true, if_false, publish_surfaces, reap_screen]
  · show (surfaceReapAll h.session).surfaces.slots 0 = _
    unfold surfaceReapAll
    rw [publish_surfaces, reap_screen]
  · show (runFrameEntry (setPixels h.session 0 (h.shown E)) false false).surfaces.slots 0
      = _
    unfold runFrameEntry surfaceReapAll
    simp only [Bool.false_eq_true, if_false, publish_surfaces]
    exact reap_screen _

end Life

/-- **Locks are exclusive.** In every state, an operation through a handle leaves a locked slot and
its region as they are, and does not depend on the slot's canonical pixels. A lock that is taken in
`draw()` keeps its surface's canonical pixels until it is released, as long as nothing is presented
from the raw framebuffer; and what its release, or the flush at a frame boundary, leaves in them is
the content of the region. -/
theorem locks_exclusive (E : HostEnv) (s : Session) (ops : List SurfaceOp) :
    let h := (start s).after E ops
    (∀ i, (h.session.surfaces.slots i).locked = true → ∀ op : SurfaceOp, op.access = .handle →
      (h.opStep E op).1.session.surfaces.slots i = h.session.surfaces.slots i
      ∧ (∀ px, (h.repaint i px).opStep E op = ((h.opStep E op).1.repaint i px, (h.opStep E op).2))
      ∧ ((h.session.surfaces.slots i).HasRegion →
        readGuest (h.opStep E op).1.session.gmem (h.session.surfaces.slots i).lockVaddr
            (h.session.surfaces.slots i).lockLen
          = readGuest h.session.gmem (h.session.surfaces.slots i).lockVaddr
            (h.session.surfaces.slots i).lockLen))
    ∧ ∀ handle i record, h.session.phase = .draw → h.session.unlocked handle = some i →
      (h.opStep E (.call (.acquire handle))).2 = .lock (some record) →
      let h1 := (h.opStep E (.call (.acquire handle))).1
      ∀ ops', (∀ op ∈ ops', op.access ≠ .raw) → unlocks E i h1 ops' = 0 →
      let h2 := h1.after E ops'
      let t := h2.session.surfaces.slots i
      let content := readGuest h2.session.gmem t.lockVaddr t.lockLen
      (t.inUse = true ∧ t.locked = true ∧ t.pixels = (h.session.surfaces.slots i).pixels)
      ∧ (∀ token off color, resolveLockview h2.session.surfaces token ≠ some i →
        readGuest (h2.opStep E (.call (.write token off color))).1.session.gmem
          t.lockVaddr t.lockLen
          = content)
      ∧ (∀ token, resolveLockview h2.session.surfaces token = some i →
        ((h2.opStep E (.call (.release token))).1.session.surfaces.slots i).pixels = some content
        ∧ ((h2.opStep E (.luaRelease token)).1.session.surfaces.slots i).pixels = some content)
      ∧ (((finRange surfaceMax).foldl (surfaceFlushLock h2.session.gmem)
          h2.session.surfaces).slots i).pixels = some content
      ∧ (i = 0 → ∀ rc,
        ((h2.opStep E (.frameEntry rc false)).1.session.surfaces.slots 0).pixels = some content
        ∧ ((h2.opStep E .luaReap).1.session.surfaces.slots 0).pixels = some content
        ∧ ((h2.opStep E (.call .frameDone)).1.session.surfaces.slots 0).pixels = some content) := by
  intro h
  have hinv := after_regInv E s ops
  refine ⟨fun i hl op hop => ⟨?_, fun px => repaint_opStep px hinv hl hop, fun hr => ?_⟩, ?_⟩
  · exact hinv.handle_keeps (hop ▸ h.opStep_move E op) hl
  · exact handle_region hinv hr hop
  intro handle i record hp hu hans h1 ops' hraw hheld h2 t content
  obtain ⟨hr1, hph1, hpx1⟩ := acquire_slot hinv hp hu hans
  have hinv1 : RegInv h1.session.surfaces := opStep_regInv E h _ hinv
  have hinv2 := after_inv (opStep_regInv E) hinv1 ops'
  have hsame : t = h1.session.surfaces.slots i := held_run hinv1 hr1 hraw hheld
  have hr := hsame ▸ hr1
  have hph := hsame ▸ hph1
  have hflush : (t.unlock h2.session.gmem).pixels = some content := hinv2.flush_pixels _ hr hph
  refine ⟨⟨(hinv2.slot i).locked hr.1, hr.1, hsame ▸ hpx1⟩, ?_, ?_, ?_, ?_⟩
  · exact fun token off color hne => lockWrite_region hinv2 hr off color hne
  · intro token hres
    obtain ⟨hcart, hlua⟩ := release_slot h2 hres
    rw [hcart, hlua]
    exact ⟨hflush, hflush⟩
  · rw [foldl_slots (flushLock_slots h2.session.gmem) (nodup_finRange surfaceMax),
      if_pos (mem_finRange i)]
    exact hflush
  · rintro rfl rc
    obtain ⟨hentry, hreap, hdone⟩ := frame_slot E h2 rc
    rw [hentry, hreap, hdone]
    refine ⟨hflush, hflush, ?_⟩
    -- the frame is shown before the lock is flushed, which does not change what is flushed
    have hshown := hinv2.paint (h2.shown_fits E)
    have hslot := withPixels_self (h2.shown E) h2.session.surfaces 0
    have hpix := hshown.flush_pixels h2.session.gmem (by rw [hslot]; exact hr)
      (by rw [hslot]; exact hph)
    rw [hpix, hslot]

/-- A store through the lock arrives with the release. -/
theorem locks_exclusive_demo :
    let h := (start demoStart).after demoHostEnv
      [.call (.phase .draw), .call (.create 2 1), .call (.acquire (surfaceEncode 0 1)),
        .call (.write (lockviewEncode 0 1) 1 9)]
    ((h.opStep demoHostEnv (.call (.release (lockviewEncode 0 1)))).1.session.surfaces.slots
      1).pixels = some [0, 9] := by
  have hlife := (locks_exclusive demoHostEnv demoStart
    [.call (.phase .draw), .call (.create 2 1)]).2
    (surfaceEncode 0 1) 1 (2, 2, 1, lockviewEncode 0 1) (by decide +kernel) (by decide +kernel)
    (by decide +kernel) [.call (.write (lockviewEncode 0 1) 1 9)]
    (by simp [SurfaceOp.access, SurfaceCall.access]) (by decide +kernel)
  exact (hlife.2.2.1 (lockviewEncode 0 1) (by decide +kernel)).1.trans (by decide +kernel)

end Blyt
