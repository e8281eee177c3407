import Blyt.HostSurface
import Blyt.SessionBudget

/-!
# The emulated session as a registry

What the cart sees of a surface is its canonical buffer, or the guest memory of its
lock while it is locked. `RegistryOK` is what keeps the two in step: every live slot
has a buffer of its size, and every lock a region of that size in the lock arena that
it shares with no other. The drawing calls then do what a registry is for.
-/

namespace Blyt

open Option Function Session SurfaceSlot

/-- The pixels of a slot that the cart sees. -/
def SurfaceSlot.view (m : ByteMem) (s : SurfaceSlot) : List UInt8 :=
  if s.locked then readGuest m s.lockVaddr s.lockLen else s.pixels.getD []

def SurfaceSlot.abs (m : ByteMem) (s : SurfaceSlot) : RegSlot :=
  ⟨s.gen, s.lockGen, s.locked, if s.inUse then some ⟨s.w, s.h, s.view m⟩ else none⟩

def Session.registry (s : Session) : Registry :=
  ⟨s.phase, fun i => (s.surfaces.slots i).abs s.gmem⟩

def HostLeg.abs (h : HostLeg) : Registry := h.session.registry

/-! ## The invariant -/

def SurfaceSlot.area (s : SurfaceSlot) : Nat := s.w.toNat * s.h.toNat

/-- A live slot has a buffer of its size. -/
structure SurfaceSlot.Sized (s : SurfaceSlot) : Prop where
  px : ∃ px, s.pixels = some px ∧ px.length = s.area
  w : 0 < s.w ∧ s.w ≤ surfaceMaxDim
  h : 0 < s.h ∧ s.h ≤ surfaceMaxDim

/-- A locked slot has a region of its size in the used part of the lock arena. -/
structure SurfaceSlot.LockedIn (bump : Nat) (s : SurfaceSlot) : Prop where
  inUse : s.inUse = true
  phantom : s.lockPhantom = false
  len : s.lockLen = s.area
  lo : lockArenaBase ≤ s.lockVaddr
  hi : s.lockVaddr + s.lockLen ≤ lockArenaBase + bump

def LocksApart (s t : SurfaceSlot) : Prop :=
  s.lockVaddr + s.lockLen ≤ t.lockVaddr ∨ t.lockVaddr + t.lockLen ≤ s.lockVaddr

def SurfaceSlot.lockCount (s : SurfaceSlot) : Nat := s.locked.toNat

structure RegistryOK (r : SurfaceRegistry) : Prop where
  screen : (r.slots 0).inUse = true ∧ (r.slots 0).w = frameW ∧ (r.slots 0).h = frameH
  isScreen : ∀ i, (r.slots i).isScreen = true ↔ i = 0
  /-- a lock of host-Lua, which an emulated cart does not have -/
  direct : ∀ i, (r.slots i).lockDirect = false
  sized : ∀ i, (r.slots i).inUse = true → (r.slots i).Sized
  lockedIn : ∀ i, (r.slots i).locked = true → (r.slots i).LockedIn r.lockBump
  apart : ∀ i j, i ≠ j → (r.slots i).locked = true → (r.slots j).locked = true →
    LocksApart (r.slots i) (r.slots j)
  count : r.activeLocks = ((∑ i, (r.slots i).lockCount : Nat) : Int)
  bump : r.lockBump ≤ lockArenaSize

/-- A release cart's session. -/
structure SessionOK (s : Session) : Prop where
  budget : BudgetInv 0 True s
  noDebug : s.cartIsDebug = false
  surfaces : RegistryOK s.surfaces

variable {s t : SurfaceSlot}

theorem LocksApart.symm (h : LocksApart s t) : LocksApart t s :=
  h.elim .inr .inl

theorem SurfaceSlot.LockedIn.mono {bump bump' : Nat} (hle : bump ≤ bump')
    (h : s.LockedIn bump) : s.LockedIn bump' :=
  ⟨h.inUse, h.phantom, h.len, h.lo, by have := h.hi; omega⟩

section Update

variable {r r' : SurfaceRegistry} {i : Fin surfaceMax} {t : SurfaceSlot}

theorem RegistryOK.update (h : RegistryOK r) (hslots : r'.slots = Function.update r.slots i t)
    (hscreen : t.isScreen = (r.slots i).isScreen) (hdirect : t.lockDirect = false)
    (hzero : i = 0 → t.inUse = true ∧ t.w = frameW ∧ t.h = frameH)
    (hsized : t.inUse = true → t.Sized) (hlock : t.locked = true → t.LockedIn r'.lockBump)
    (hapart : t.locked = true → ∀ j, j ≠ i → (r.slots j).locked = true →
      LocksApart t (r.slots j))
    (hcount : r'.activeLocks + (r.slots i).lockCount = r.activeLocks + t.lockCount)
    (hbump : ∀ j, j ≠ i → (r.slots j).locked = true → r.lockBump ≤ r'.lockBump)
    (hbump' : r'.lockBump ≤ lockArenaSize) : RegistryOK r' := by
  refine ⟨?_, ?_, ?_, ?_, ?_, ?_, ?_, hbump'⟩
  · exact forall_of_update hslots
      (p := fun j s => j = 0 → s.inUse = true ∧ s.w = frameW ∧ s.h = frameH) hzero
      (fun _ _ h0 => h0 ▸ h.screen) 0 rfl
  · exact forall_of_update hslots (p := fun j s => s.isScreen = true ↔ j = 0)
      (hscreen ▸ h.isScreen i) fun j _ => h.isScreen j
  · exact forall_of_update hslots (p := fun _ s => s.lockDirect = false) hdirect
      fun j _ => h.direct j
  · exact forall_of_update hslots (p := fun _ s => s.inUse = true → s.Sized) hsized
      fun j _ => h.sized j
  · exact forall_of_update hslots (p := fun _ s => s.locked = true → s.LockedIn r'.lockBump) hlock
      fun j hj hl => (h.lockedIn j hl).mono (hbump j hj hl)
  · exact pairwise_of_update (P := fun t => t.locked = true) hslots .symm h.apart hapart
  · have hsum := sum_slots_update lockCount r.slots i t
    have hold := h.count
    rw [hslots]
    omega

end Update

theorem registry_update {s s' : Session} {i : Fin surfaceMax} (hphase : s'.phase = s.phase)
    (hslots : s'.surfaces.slots = Function.update s.surfaces.slots i t)
    (hmem : ∀ j, j ≠ i → (s.surfaces.slots j).locked = true →
      readGuest s'.gmem (s.surfaces.slots j).lockVaddr (s.surfaces.slots j).lockLen
        = readGuest s.gmem (s.surfaces.slots j).lockVaddr (s.surfaces.slots j).lockLen) :
    s'.registry = s.registry.set i (t.abs s'.gmem) := by
  have habs : (fun j => (s'.surfaces.slots j).abs s'.gmem)
      = Function.update (fun j => (s.surfaces.slots j).abs s.gmem) i (t.abs s'.gmem) := by
    funext j
    rw [hslots]
    by_cases hj : j = i
    · subst hj
      rw [update_self, update_self]
    · rw [update_of_ne hj, update_of_ne hj, SurfaceSlot.abs, SurfaceSlot.abs, view, view]
      by_cases hl : (s.surfaces.slots j).locked = true
      · rw [if_pos hl, if_pos hl, hmem j hj hl]
      · rw [if_neg hl, if_neg hl]
  rw [registry, hphase, habs]
  rfl

/-! ## Handles -/

section Handles

variable {s : Session}

def Session.surf (s : Session) (i : Fin surfaceMax) : Surface :=
  ⟨(s.surfaces.slots i).w, (s.surfaces.slots i).h, (s.surfaces.slots i).view s.gmem⟩

theorem resolveSurface_eq (r : SurfaceRegistry) (handle : Nat) :
    resolveSurface r handle
      = slotOf .surface (fun i => (r.slots i).inUse) (fun i => (r.slots i).gen) handle := rfl

variable {r : SurfaceRegistry} {handle : Nat} {i : Fin surfaceMax}

theorem resolveSurface_some (h : resolveSurface r handle = some i) :
    (r.slots i).inUse = true ∧ dynDecodeIndex handle = i := by
  rw [resolveSurface_eq] at h
  obtain ⟨-, hi, huse, -⟩ := slotOf_eq_some.mp h
  exact ⟨huse, hi⟩

theorem resolveLockview_some {token : Nat}
    (h : resolveLockview r token = some i) : (r.slots i).locked = true := by
  rw [show resolveLockview r token
    = slotOf .lockview (fun i => (r.slots i).locked) (fun i => (r.slots i).lockGen)
      token from rfl] at h
  exact (slotOf_eq_some.mp h).2.2.1

theorem findLock_registry (s : Session) (token : Nat) :
    s.registry.findLock token = resolveLockview s.surfaces token := rfl

/-- The live slot of a handle, if it is not locked. -/
def Session.unlocked (s : Session) (handle : Nat) : Option (Fin surfaceMax) :=
  (resolveSurface s.surfaces handle).filter fun i => !(s.surfaces.slots i).locked

theorem Session.unlocked_eq_some :
    s.unlocked handle = some i ↔ resolveSurface s.surfaces handle = some i
      ∧ (s.surfaces.slots i).locked = false := by
  rw [unlocked, filter_eq_some_iff, Bool.not_eq_true']

/-- The slot that both gates let a call through to. -/
def Session.drawable (s : Session) (handle : Nat) : Option (Fin surfaceMax) :=
  if s.phase ≠ .draw then none else s.unlocked handle

theorem drawable_registry (s : Session) (handle : Nat) :
    s.registry.drawable handle = (s.drawable handle).map fun i => (i, s.surf i) := by
  rw [Registry.drawable_eq_map (fun i => (s.surfaces.slots i).inUse) s.surf (fun _ => rfl) handle,
    Session.drawable]
  show (if s.phase ≠ .draw then _ else _) = _
  split_ifs <;> rfl

theorem Session.drawable_eq_some :
    s.drawable handle = some i ↔ s.phase = .draw ∧ resolveSurface s.surfaces handle = some i
      ∧ (s.surfaces.slots i).locked = false := by
  unfold drawable
  split_ifs with hp
  · exact iff_of_false (by simp) fun h => hp h.1
  · rw [not_not] at hp
    rw [unlocked_eq_some]
    exact ⟨fun h => ⟨hp, h⟩, fun h => h.2⟩

theorem firstFree_registry (s : Session) : s.registry.firstFree = firstFreeSlot s.surfaces := by
  unfold Registry.firstFree firstFreeSlot
  congr 1
  funext i
  show isNone (if (s.surfaces.slots i).inUse then _ else _) = _
  cases (s.surfaces.slots i).inUse <;> rfl

theorem phaseGate_release (h : s.cartIsDebug = false) :
    surfacePhaseGate s = (decide (s.phase = .draw), s) := by
  unfold surfacePhaseGate
  split_ifs with hp hd
  · rw [decide_eq_true hp]
  · rw [h] at hd
    cases hd
  · rw [decide_eq_false hp]

theorem lockGate_release (h : s.cartIsDebug = false) (slot : Option (Fin surfaceMax)) :
    surfaceLockGate s slot = (!slot.any fun i => (s.surfaces.slots i).locked, s) := by
  unfold surfaceLockGate
  split_ifs with hl hd
  · rw [h] at hd
    cases hd
  · rw [hl]
    rfl
  · rw [Bool.not_eq_true] at hl
    rw [hl]
    rfl

end Handles

/-! ## New pixels -/

section Pixels

variable {s : Session} {i : Fin surfaceMax} {px : List UInt8}

/-- A change of one slot that keeps its size and its use, and touches neither heap nor
resources. -/
theorem SessionOK.setSlot (h : SessionOK s) {s' : Session} {t : SurfaceSlot}
    (hslots : s'.surfaces.slots = Function.update s.surfaces.slots i t)
    (hbytes : s'.surfaces.surfaceBytes = s.surfaces.surfaceBytes)
    (hheap : s'.heap = s.heap) (hfound : s'.memAcct = s.memAcct)
    (hres : s'.resources = s.resources) (hpeer : s'.peerHeap = s.peerHeap)
    (hdebug : s'.cartIsDebug = s.cartIsDebug) (hok : RegistryOK s'.surfaces)
    (hslot : SlotOK t) (hsame : slotBytes t = slotBytes (s.surfaces.slots i)) : SessionOK s' := by
  obtain ⟨c, hr, -, -⟩ := id h.budget
  exact ⟨h.budget.congr hheap hfound (by rw [hres]) (hr.surf.setSame hslot hsame hslots hbytes)
    hpeer, hdebug.trans h.noDebug, hok⟩

theorem SessionOK.setPixels (h : SessionOK s) (hi : (s.surfaces.slots i).inUse = true)
    (hlen : px.length = (s.surfaces.slots i).area) : SessionOK (HostLeg.setPixels s i px) := by
  have hsized := h.surfaces.sized i hi
  obtain ⟨c, hr, -, -⟩ := id h.budget
  refine h.setSlot rfl rfl rfl rfl rfl rfl rfl ?_ (fun hu hs => ?_) rfl
  · refine h.surfaces.update rfl rfl (h.surfaces.direct i) (fun h0 => ?_)
      (fun _ => ⟨⟨px, rfl, hlen⟩, hsized.w, hsized.h⟩)
      (fun hl => ?_) (fun hl j hj hl' => ?_) rfl (fun _ _ _ => le_rfl) h.surfaces.bump
    · subst h0
      exact h.surfaces.screen
    · obtain ⟨h1, h2, h3, h4, h5⟩ := h.surfaces.lockedIn i hl
      exact ⟨h1, h2, h3, h4, h5⟩
    · exact h.surfaces.apart i j (Ne.symm hj) hl hl'
  · obtain ⟨ho, -, hd⟩ := hr.surf.slots i hu hs
    exact ⟨ho, rfl, hd⟩

theorem registry_setPixels (hi : (s.surfaces.slots i).inUse = true)
    (hlock : (s.surfaces.slots i).locked = false) :
    (HostLeg.setPixels s i px).registry = s.registry.paint i (s.surf i) px := by
  have hnew : SurfaceSlot.abs s.gmem { s.surfaces.slots i with pixels := some px }
      = { s.registry.slots i with live := some { s.surf i with px := px } } := by
    rw [SurfaceSlot.abs, view, if_pos hi, if_neg (by rw [hlock]; decide)]
    rfl
  rw [Registry.paint, ← hnew]
  exact registry_update rfl rfl fun _ _ _ => rfl

/-- The pixels that an unlocked surface shows are those in its buffer. -/
theorem SessionOK.view_eq (h : SessionOK s) (hi : (s.surfaces.slots i).inUse = true)
    (hlock : (s.surfaces.slots i).locked = false) :
    ∃ px, (s.surfaces.slots i).pixels = some px ∧ (s.surf i).px = px
      ∧ px.length = (s.surfaces.slots i).area := by
  obtain ⟨px, hpx, hlen⟩ := (h.surfaces.sized i hi).px
  refine ⟨px, hpx, ?_, hlen⟩
  show view s.gmem _ = px
  rw [view, if_neg (by rw [hlock]; decide), hpx]
  rfl

end Pixels

/-! ## The calls in `draw()` -/

namespace HostLeg

variable {h : HostLeg} {dst : Nat} {i : Fin surfaceMax} {src : Nat}

section

variable (hd : h.session.cartIsDebug = false)
include hd

/-- Both gates let a call on this slot through. -/
theorem gates_some (hr : h.session.drawable dst = some i) :
    surfacePhaseGate h.session = (true, h.session)
      ∧ resolveSurface h.session.surfaces dst = some i
      ∧ surfaceLockGate h.session (some i) = (true, h.session) := by
  obtain ⟨hp, hs, hl⟩ := drawable_eq_some.mp hr
  refine ⟨?_, hs, ?_⟩
  · rw [phaseGate_release hd, decide_eq_true hp]
  · rw [lockGate_release hd, any_some, hl]
    rfl

/-- A gate stops the call, or there is no such surface. -/
theorem gates_none (hr : h.session.drawable dst = none) :
    surfacePhaseGate h.session = (false, h.session)
      ∨ surfacePhaseGate h.session = (true, h.session)
        ∧ (surfaceLockGate h.session (resolveSurface h.session.surfaces dst) = (false, h.session)
          ∨ surfaceLockGate h.session (resolveSurface h.session.surfaces dst) = (true, h.session)
            ∧ resolveSurface h.session.surfaces dst = none) := by
  rw [phaseGate_release hd, lockGate_release hd]
  unfold drawable at hr
  split_ifs at hr with hp
  · exact .inl (by rw [decide_eq_false hp])
  · refine .inr ⟨by rw [decide_eq_true (not_not.mp hp)], ?_⟩
    cases hs : resolveSurface h.session.surfaces dst with
    | none => exact .inr ⟨rfl, rfl⟩
    | some i =>
      rw [unlocked, hs, filter_some] at hr
      cases hl : (h.session.surfaces.slots i).locked with
      | true => exact .inl (by rw [any_some, hl]; rfl)
      | false =>
        rw [hl] at hr
        cases hr

theorem surfaceDraw_none (op : DrawOp)
    (hr : h.session.drawable dst = none) : h.surfaceDraw dst op = (h, .done) := by
  unfold surfaceDraw
  obtain hp | ⟨hp, hl | ⟨hl, hs⟩⟩ := gates_none hd hr
  · rw [hp]
  · rw [hp]
    simp only [hl]
  · rw [hs] at hl
    rw [hp]
    simp only [hs, hl]

theorem surfaceDraw_some (op : DrawOp) {px : List UInt8} (hr : h.session.drawable dst = some i)
    (hpx : (h.session.surfaces.slots i).pixels = some px) :
    h.surfaceDraw dst op
      = match op.paint px (h.session.surfaces.slots i).w (h.session.surfaces.slots i).h with
        | none => (h, .hangs)
        | some px =>
          ({ h with session := setPixels h.session i px
                    cartHasDrawn := h.cartHasDrawn || (h.session.surfaces.slots i).isScreen },
            .done) := by
  unfold surfaceDraw
  obtain ⟨hp, hs, hl⟩ := gates_some hd hr
  rw [hp]
  simp only [hs, hl]
  rewrite [hpx]
  rfl

end

theorem surfaceDraw_abs (hok : SessionOK h.session) (dst : Nat) (op : DrawOp) :
    SessionOK (h.surfaceDraw dst op).1.session
      ∧ ((h.surfaceDraw dst op).1.abs, (h.surfaceDraw dst op).2) = h.abs.draw dst op := by
  unfold Registry.draw
  rw [show h.abs.drawable dst = _ from drawable_registry h.session dst]
  cases hr : h.session.drawable dst with
  | none =>
    rw [surfaceDraw_none hok.noDebug op hr]
    exact ⟨hok, rfl⟩
  | some i =>
    obtain ⟨-, hs, hl⟩ := drawable_eq_some.mp hr
    obtain ⟨hi, -⟩ := resolveSurface_some hs
    obtain ⟨px, hpx, hview, hlen⟩ := hok.view_eq hi hl
    rw [surfaceDraw_some hok.noDebug op hr hpx, map_some]
    simp only [hview]
    show _ ∧ _ = (match op.paint px (h.session.surfaces.slots i).w
      (h.session.surfaces.slots i).h with
      | none => (h.abs, SurfaceAnswer.hangs)
      | some px => (h.abs.paint i (h.session.surf i) px, .done))
    cases hpaint : op.paint px (h.session.surfaces.slots i).w (h.session.surfaces.slots i).h with
    | none => exact ⟨hok, rfl⟩
    | some =>
      exact ⟨hok.setPixels hi ((DrawOp.length_paint hpaint).trans hlen),
        Prod.ext (registry_setPixels hi hl) rfl⟩

theorem surfaceBlit_none (c : RowCopy) (hd : h.session.cartIsDebug = false)
    (x y : Int) (hr : h.session.drawable dst = none ∨ h.session.drawable src = none) :
    h.surfaceBlit c dst src x y = h := by
  unfold surfaceBlit
  cases hr1 : h.session.drawable dst with
  | none =>
    obtain hp | ⟨hp, hl | ⟨hl, hs⟩⟩ := gates_none hd hr1
    · simp only [hp]
    · simp only [hp, hl]
    · rw [hs] at hl
      simp only [hp, hs, hl, lockGate_release hd]
      cases (resolveSurface h.session.surfaces src).any
        fun i => (h.session.surfaces.slots i).locked <;> rfl
  | some =>
    obtain ⟨hp, hs, hl⟩ := gates_some hd hr1
    obtain hp' | ⟨-, hl' | ⟨hl', hs'⟩⟩ := gates_none hd (hr.resolve_left (by rw [hr1]; nofun))
    · exact absurd (hp'.symm.trans hp) (by simp)
    · simp only [hp, hs, hl, hl']
    · rw [hs'] at hl'
      simp only [hp, hs, hl, hl', hs']

theorem surfaceBlit_some (c : RowCopy) (hd : h.session.cartIsDebug = false) (x y : Int)
    {j : Fin surfaceMax} {dpx spx : List UInt8} (hr : h.session.drawable dst = some i)
    (hr' : h.session.drawable src = some j) (hpx : (h.session.surfaces.slots i).pixels = some dpx)
    (hpx' : (h.session.surfaces.slots j).pixels = some spx) :
    (h.surfaceBlit c dst src x y).session
      = setPixels h.session i
        (Registry.blitted c i j
          ⟨(h.session.surfaces.slots i).w, (h.session.surfaces.slots i).h, dpx⟩
          ⟨(h.session.surfaces.slots j).w, (h.session.surfaces.slots j).h, spx⟩ x y) := by
  unfold surfaceBlit
  obtain ⟨hp, hs, hl⟩ := gates_some hd hr
  obtain ⟨-, hs', hl'⟩ := gates_some hd hr'
  rw [hp]
  simp only [hs, hl, hs', hl', hpx, hpx']
  rfl

theorem surfaceBlit_abs (E : HostEnv) (fits : Int → Int → Bool) (hok : SessionOK h.session)
    (dst src : Nat) (x y : Int) :
    SessionOK (h.surfaceBlit E.copy dst src x y).session
      ∧ (h.surfaceBlit E.copy dst src x y).abs = h.abs.blit ⟨fits, E.copy⟩ dst src x y := by
  unfold Registry.blit
  rw [show h.abs.drawable dst = _ from drawable_registry h.session dst,
    show h.abs.drawable src = _ from drawable_registry h.session src]
  cases hr : h.session.drawable dst with
  | none =>
    rw [surfaceBlit_none E.copy hok.noDebug x y (.inl hr)]
    exact ⟨hok, rfl⟩
  | some =>
    cases hr' : h.session.drawable src with
    | none =>
      rw [surfaceBlit_none E.copy hok.noDebug x y (.inr hr')]
      exact ⟨hok, rfl⟩
    | some =>
      obtain ⟨-, hs, hl⟩ := drawable_eq_some.mp hr
      obtain ⟨-, hs', hl'⟩ := drawable_eq_some.mp hr'
      obtain ⟨hi, -⟩ := resolveSurface_some hs
      obtain ⟨dpx, hpx, hview, hlen⟩ := hok.view_eq hi hl
      obtain ⟨spx, hpx', hview', -⟩ := hok.view_eq (resolveSurface_some hs').1 hl'
      have hsess := surfaceBlit_some E.copy hok.noDebug x y hr hr' hpx hpx'
      rw [← hview, ← hview'] at hsess
      rw [HostLeg.abs, hsess]
      exact ⟨hok.setPixels hi ((Registry.length_blitted _ _ _ _ _ _ _).trans (hview ▸ hlen)),
        registry_setPixels hi hl⟩

end HostLeg

end Blyt
