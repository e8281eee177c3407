import Blyt.SurfaceAgree
import Blyt.Hybrid

/-!
# Everything that works on a session's surfaces

The registry of a session is worked on from three sides: by the cart's ECALLs (`HostLeg.step`),
by the Lua half of a hybrid cart, which the host runs itself and which calls the
`blyt_session_surface_*` functions of `runtime/host/src/libblyt/cart_run.c` past the gates of
the ECALLs and locks a surface directly, without a copy, and by the raw framebuffer, which
`BLYT_ECALL_GFX_PRESENT` copies to the screen. `SurfaceOp` is one type for all of them,
`HostLeg.opStep` what each does.

`RegMove` says once what an operation can do to the registry: change the pixels of a slot, fill
a free one, free an unlocked one, lock, flush, reap. The invariants of the registry are proved
of these moves.
-/

namespace Blyt

open Session

/-- `BLYT_GFX_FB_BASE`: the raw framebuffer in guest memory. -/
def gfxFbBase : Nat := 0x02000000

/-- `BLYT_FRAME_W * BLYT_FRAME_H`. -/
def frameBytes : Nat := frameW.toNat * frameH.toNat

/-! ## The session's functions -/

/-- `blyt_session_surface_drawable`: the slot, and its pixels. -/
def sessionSurfaceDrawable (s : Session) (handle : Nat) : Option (Fin surfaceMax × List UInt8) :=
  (s.unlocked handle).bind fun i => (s.surfaces.slots i).pixels.map fun px => (i, px)

/-- What `blyt_session_surface_acquire` hands out besides the canonical buffer: stride, width,
height and token. -/
def sessionSurfaceRecord (s : Session) (handle : Nat) : Option (Int × Int × Int × Nat) :=
  (s.unlocked handle).map fun i =>
    let t := s.surfaces.slots i
    (t.w, t.w, t.h, lockviewEncode t.lockGen (dynDecodeIndex handle))

/-! ## The Lua half of a hybrid cart -/

/-- `l_surface_clear` and its kind. -/
def luaSurfaceDraw (s : Session) (dst : Nat) (op : DrawOp) : Session :=
  match sessionSurfaceDrawable s dst with
  | none => s
  | some (i, px) =>
    match op.paint px (s.surfaces.slots i).w (s.surfaces.slots i).h with
    | none => s
    | some px => HostLeg.setPixels s i px

/-- `l_surface_blit`. -/
def luaSurfaceBlit (c : RowCopy) (s : Session) (dst src : Nat) (x y : Int) : Session :=
  match sessionSurfaceDrawable s dst, sessionSurfaceDrawable s src with
  | some (i, dpx), some (j, spx) =>
    let d := s.surfaces.slots i
    let t := s.surfaces.slots j
    HostLeg.setPixels s i (if i = j then rasterBlitSelf c dpx d.w d.w d.h x y
      else rasterBlit dpx d.w d.w d.h spx t.w t.w t.h x y)
  | _, _ => s

/-- `l_lock_set` and its kind: drawing through a direct lock that is held. -/
def luaLockDraw (s : Session) (token : Nat) (op : DrawOp) : Session :=
  match resolveLockview s.surfaces token with
  | none => s
  | some i =>
    let t := s.surfaces.slots i
    if !t.lockDirect then s
    else
      match t.pixels.bind fun px => op.paint px t.w t.h with
      | none => s
      | some px => HostLeg.setPixels s i px

/-! ## Operations -/

inductive SurfaceOp where
  /-- an ECALL of the cart, its store through a lock, or a frame boundary -/
  | call (c : SurfaceCall)
  /-- a create ECALL for which the host has no memory -/
  | createFails (w h : Int)
  /-- an entry of `run_frame_impl` -/
  | frameEntry (rcResuming fnCall : Bool)
  /-- `BLYT_ECALL_GFX_PRESENT` -/
  | present
  | luaCreate (oom : Bool) (w h : Int)
  | luaDestroy (handle : Nat)
  | luaDraw (dst : Nat) (op : DrawOp)
  | luaBlit (dst src : Nat) (x y : Int)
  | luaAcquire (handle : Nat)
  | luaLockDraw (token : Nat) (op : DrawOp)
  | luaRelease (token : Nat)
  | luaReap
  /-- whatever happens without the registry: heap, resources and guest memory are then as in `s` -/
  | elsewhere (s : Session)

namespace HostLeg

/-- `BLYT_ECALL_GFX_PRESENT`: `fb` is the buffer of the screen's slot. -/
def gfxPresent (h : HostLeg) : HostLeg :=
  { h with session := setPixels h.session 0 (readGuest h.session.gmem gfxFbBase frameBytes)
           cartHasDrawn := true }

/-- What `elsewhere` leaves alone. -/
def outside (s s' : Session) : Session :=
  { s' with surfaces := s.surfaces, phase := s.phase, cartIsDebug := s.cartIsDebug }

def opStep (E : HostEnv) (h : HostLeg) : SurfaceOp → HostLeg × SurfaceAnswer
  | .call c => h.step E c
  | .createFails w ht =>
    let r := surfaceCreate true h.session w ht
    ({ h with session := r.2 }, .handle r.1)
  | .frameEntry rc fn => ({ h with session := runFrameEntry h.session rc fn }, .done)
  | .present => (h.gfxPresent, .done)
  | .luaCreate oom w ht =>
    let r := surfaceCreateSlot oom h.session w ht
    ({ h with session := r.2 }, .handle r.1)
  | .luaDestroy handle => ({ h with session := sessionSurfaceDestroy h.session handle }, .done)
  | .luaDraw dst op => ({ h with session := luaSurfaceDraw h.session dst op }, .done)
  | .luaBlit dst src x y =>
    ({ h with session := luaSurfaceBlit E.copy h.session dst src x y }, .done)
  | .luaAcquire handle =>
    ({ h with session := sessionSurfaceAcquire h.session handle },
      .lock (sessionSurfaceRecord h.session handle))
  | .luaLockDraw token op => ({ h with session := luaLockDraw h.session token op }, .done)
  | .luaRelease token => ({ h with session := surfaceRelease h.session token }, .done)
  | .luaReap => ({ h with session := surfaceReapAll h.session }, .done)
  | .elsewhere s => ({ h with session := outside h.session s }, .done)

def after (E : HostEnv) (h : HostLeg) (ops : List SurfaceOp) : HostLeg :=
  (traceOf (opStep E) h ops).1

/-- `blyt_session_create`, as far as surfaces go; the rest of the session is as in `s`. -/
def start (s : Session) : HostLeg where
  session := { s with surfaces := newSurfaces, phase := .none, devFault := false }
  cartHasDrawn := false
  frameCount := 0

@[simp] theorem after_cons (E : HostEnv) (h : HostLeg) (op : SurfaceOp) (ops : List SurfaceOp) :
    h.after E (op :: ops) = (h.opStep E op).1.after E ops := rfl

theorem after_inv {E : HostEnv} {I : HostLeg → Prop} (hstep : ∀ h op, I h → I (h.opStep E op).1)
    {h : HostLeg} (hh : I h) (ops : List SurfaceOp) : I (h.after E ops) :=
  traceOf_inv hstep hh

end HostLeg

/-! ## The gates, for every cart -/

/-- Where a gate refuses a call, a debug cart faults. -/
def Session.refused (s : Session) : Session :=
  if s.cartIsDebug then { s with devFault := true } else s

section Refused

variable (s : Session)

@[simp] theorem refused_surfaces : s.refused.surfaces = s.surfaces := by
  unfold refused
  split_ifs <;> rfl

@[simp] theorem refused_gmem : s.refused.gmem = s.gmem := by
  unfold refused
  split_ifs <;> rfl

@[simp] theorem refused_cartIsDebug : s.refused.cartIsDebug = s.cartIsDebug := by
  unfold refused
  split_ifs <;> rfl

theorem phaseGate_draw {s : Session} (h : s.phase = .draw) : surfacePhaseGate s = (true, s) :=
  if_pos h

theorem phaseGate_other {s : Session} (h : s.phase ≠ .draw) :
    surfacePhaseGate s = (false, s.refused) := if_neg h

theorem lockGate_stop {s : Session} {slot : Option (Fin surfaceMax)}
    (h : slot.any (fun i => (s.surfaces.slots i).locked) = true) :
    surfaceLockGate s slot = (false, s.refused) := if_pos h

theorem lockGate_pass {s : Session} {slot : Option (Fin surfaceMax)}
    (h : ¬ slot.any (fun i => (s.surfaces.slots i).locked) = true) :
    surfaceLockGate s slot = (true, s) := if_neg h

theorem lockGate_some (i : Fin surfaceMax) :
    surfaceLockGate s (some i)
      = if (s.surfaces.slots i).locked then (false, s.refused) else (true, s) := rfl

end Refused

/-! ## Moves of the registry -/

namespace SurfaceRegistry

variable (r : SurfaceRegistry) (i : Fin surfaceMax)

def withPixels (px : List UInt8) : SurfaceRegistry :=
  r.set i { r.slots i with pixels := some px }

/-- Slot `i` locked with a region behind all others. -/
def lockSlot (phantom : Bool) : SurfaceRegistry :=
  { r.set i ((r.slots i).lockedAt phantom (lockArenaBase + r.lockBump)) with
    lockBump := u32 (r.lockBump + (r.slots i).lockBytes)
    activeLocks := r.activeLocks + 1 }

/-- Slot `i` locked without a region. -/
def lockDirectly : SurfaceRegistry :=
  { r.set i { r.slots i with locked := true, lockPhantom := false, lockDirect := true
                             lockVaddr := 0, lockLen := 0 } with
    activeLocks := r.activeLocks + 1 }

end SurfaceRegistry

/-- New pixels for a slot: as many as before, or a whole screen for the screen. -/
def SurfaceSlot.Fits (t : SurfaceSlot) (i : Fin surfaceMax) (px : List UInt8) : Prop :=
  ∀ px₀, t.pixels = some px₀ → px.length = px₀.length ∨ i = 0 ∧ px.length = frameBytes

/-- How an operation gets at a surface: through its handle, through a lock or at a frame boundary,
or through the raw framebuffer. -/
inductive Access where
  | handle
  | lock
  | raw
  deriving DecidableEq, Repr

/-- What one operation does to the registry, with guest memory `m`. -/
inductive RegMove (a : Access) (m : ByteMem) (r : SurfaceRegistry) : SurfaceRegistry → Prop where
  | idle : RegMove a m r r
  | paint (i : Fin surfaceMax) (px : List UInt8) (hlock : (r.slots i).locked = false)
    (hpx : (r.slots i).Fits i px) : RegMove a m r (r.withPixels i px)
  | occupy (i : Fin surfaceMax) (w ht : Int) (hi : i ≠ 0) (hfree : (r.slots i).inUse = false)
    (hsize : ¬ Registry.BadSize w ht) : RegMove a m r (surfaceOccupy r i w ht)
  | free (i : Fin surfaceMax) (hlock : (r.slots i).locked = false) :
    RegMove a m r (surfaceFreeSlot r i)
  | lock (i : Fin surfaceMax) (phantom : Bool) (huse : (r.slots i).inUse = true)
    (hlock : (r.slots i).locked = false)
    (hroom : r.lockBump + (r.slots i).lockBytes ≤ lockArenaSize) :
    RegMove a m r (r.lockSlot i phantom)
  | direct (i : Fin surfaceMax) (huse : (r.slots i).inUse = true)
    (hlock : (r.slots i).locked = false) : RegMove a m r (r.lockDirectly i)
  /-- drawing through a direct lock -/
  | lockPaint (i : Fin surfaceMax) (px : List UInt8) (ha : a = .lock)
    (hdirect : (r.slots i).lockDirect = true) (hpx : (r.slots i).Fits i px) :
    RegMove a m r (r.withPixels i px)
  | flush (i : Fin surfaceMax) (ha : a = .lock) (hlock : (r.slots i).locked = true) :
    RegMove a m r (surfaceFlushLock m r i)
  | reap (ha : a = .lock) : RegMove a m r (surfaceReapSlots m r)
  /-- the end of a frame: the screen as it is shown, then the reap of the next entry -/
  | boundary (px : List UInt8) (ha : a = .lock) (hpx : (r.slots 0).Fits 0 px) :
    RegMove a m r (surfaceReapSlots m (r.withPixels 0 px))
  | present (px : List UInt8) (ha : a = .raw) (hpx : (r.slots 0).Fits 0 px) :
    RegMove a m r (r.withPixels 0 px)

def SurfaceCall.access : SurfaceCall → Access
  | .create _ _ => .handle
  | .destroy _ => .handle
  | .draw _ _ => .handle
  | .blit _ _ _ _ => .handle
  | .acquire _ => .handle
  | .phase _ => .lock
  | .write _ _ _ => .lock
  | .release _ => .lock
  | .frameDone => .lock

def SurfaceOp.access : SurfaceOp → Access
  | .call c => c.access
  | .createFails _ _ => .handle
  | .luaCreate _ _ _ => .handle
  | .luaDestroy _ => .handle
  | .luaDraw _ _ => .handle
  | .luaBlit _ _ _ _ => .handle
  | .luaAcquire _ => .handle
  | .present => .raw
  | .frameEntry _ _ => .lock
  | .luaLockDraw _ _ => .lock
  | .luaRelease _ => .lock
  | .luaReap => .lock
  | .elsewhere _ => .lock

section Moves

variable {a : Access} {s : Session} {m : ByteMem}

theorem publish_surfaces (s : Session) : (memAcctPublishFootprint s).surfaces = s.surfaces :=
  (publish_keeps s).1

/-- `blyt_surface_create_slot` fails and changes nothing, or it fills the first free slot. -/
theorem surfaceCreateSlot_cases (oom : Bool) (s : Session) (w ht : Int) :
    surfaceCreateSlot oom s w ht = (handleNone, s)
      ∨ ∃ i, firstFreeSlot s.surfaces = some i ∧ ¬ Registry.BadSize w ht
        ∧ surfaceCreateSlot oom s w ht = (surfaceEncode (s.surfaces.slots i).gen i,
          memAcctPublishFootprint { s with surfaces := surfaceOccupy s.surfaces i w ht }) := by
  unfold surfaceCreateSlot
  by_cases hsize : w ≤ 0 ∨ ht ≤ 0 ∨ surfaceMaxDim < w ∨ surfaceMaxDim < ht
  · exact .inl (if_pos hsize)
  · rw [if_neg hsize]
    by_cases hfit : (!memAllocFits (memAcctGuestHeapUsed s) (ctxNonEvictableFootprint s)
        (slotArea w ht)) = true
    · exact .inl (if_pos hfit)
    · rw [if_neg hfit]
      cases hfree : firstFreeSlot s.surfaces with
      | none => exact .inl rfl
      | some i =>
        cases oom with
        | true => exact .inl rfl
        | false =>
          refine .inr ⟨i, rfl, hsize, ?_⟩
          simp only [surfaceOccupy, SurfaceRegistry.set, Function.update_self]
          rfl

theorem firstFreeSlot_ne_zero {r : SurfaceRegistry} {i : Fin surfaceMax}
    (h : firstFreeSlot r = some i) : i ≠ 0 :=
  mem_drop_one.mp (List.mem_of_find?_eq_some h)

theorem surfaceCreateSlot_move (oom : Bool) (s : Session) (w ht : Int) :
    RegMove a m s.surfaces (surfaceCreateSlot oom s w ht).2.surfaces := by
  rcases surfaceCreateSlot_cases oom s w ht with heq | ⟨i, hfree, hsize, heq⟩
  · rw [heq]
    exact .idle
  · rw [heq]
    rw [publish_surfaces]
    exact .occupy i w ht (firstFreeSlot_ne_zero hfree) (firstFreeSlot_free hfree) hsize

theorem surfaceCreate_move (oom : Bool) (s : Session) (w ht : Int) :
    RegMove a m s.surfaces (surfaceCreate oom s w ht).2.surfaces := by
  unfold surfaceCreate
  by_cases hp : s.phase = .draw
  · rw [phaseGate_draw hp]
    exact surfaceCreateSlot_move oom s w ht
  · rw [phaseGate_other hp]
    simp only [refused_surfaces]
    exact .idle

/-- Past the gates: free slot `i`, unless it is the screen. -/
def Session.destroySlot (s : Session) (i : Fin surfaceMax) : Session :=
  if (s.surfaces.slots i).isScreen then s
  else memAcctPublishFootprint { s with surfaces := surfaceFreeSlot s.surfaces i }

theorem destroySlot_move {i : Fin surfaceMax} (hl : (s.surfaces.slots i).locked = false) :
    RegMove a m s.surfaces (s.destroySlot i).surfaces := by
  unfold destroySlot
  split_ifs
  · exact .idle
  · rw [publish_surfaces]
    exact .free i hl

section

variable (s : Session)

section

variable (handle : Nat)

theorem surfaceDestroy_any : surfaceDestroy s handle = match resolveSurface s.surfaces handle with
        | none => s
        | some i => if (s.surfaces.slots i).locked then s.refused else s.destroySlot i := by
  unfold surfaceDestroy
  cases resolveSurface s.surfaces handle with
  | none => rfl
  | some i =>
    simp only [lockGate_some]
    cases (s.surfaces.slots i).locked with
    | true => rfl
    | false => rfl

theorem surfaceDestroy_move : RegMove a m s.surfaces (surfaceDestroy s handle).surfaces := by
  rw [surfaceDestroy_any]
  cases resolveSurface s.surfaces handle with
  | none => exact .idle
  | some =>
    simp only
    split_ifs with hl
    · rw [refused_surfaces]
      exact .idle
    · exact destroySlot_move (by simpa using hl)

theorem sessionSurfaceDestroy_eq : sessionSurfaceDestroy s handle = match s.unlocked handle with
        | none => s
        | some i => s.destroySlot i := by
  unfold sessionSurfaceDestroy unlocked
  cases resolveSurface s.surfaces handle with
  | none => rfl
  | some i =>
    rw [Option.filter_some]
    cases hl : (s.surfaces.slots i).locked with
    | true | false =>
      simp only [hl]
      rfl

theorem sessionSurfaceDestroy_move :
    RegMove a m s.surfaces (sessionSurfaceDestroy s handle).surfaces := by
  rw [sessionSurfaceDestroy_eq]
  cases hu : s.unlocked handle with
  | none => exact .idle
  | some => exact destroySlot_move (unlocked_eq_some.mp hu).2

theorem surfaceAcquireLock_move (phantom : Bool) :
    RegMove a m s.surfaces (surfaceAcquireLock s handle phantom).2.surfaces := by
  rw [surfaceAcquireLock_eq]
  cases hu : s.unlocked handle with
  | none => exact .idle
  | some i =>
    obtain ⟨hr, hl⟩ := unlocked_eq_some.mp hu
    simp only
    split_ifs with hroom
    · exact .lock i phantom (resolveSurface_some hr).1 hl hroom
    · exact .idle

/-- Past the phase gate: a release cart in any phase, or a debug cart in `draw()`. -/
def Session.MayLock (s : Session) : Prop := s.phase = .draw ∨ s.cartIsDebug = false

instance (s : Session) : Decidable s.MayLock := inferInstanceAs (Decidable (_ ∨ _))

theorem surfaceAcquire_any : surfaceAcquire s handle
      = if s.MayLock then surfaceAcquireLock s handle (decide (s.phase ≠ .draw))
        else (none, s.refused) := by
  by_cases hp : s.phase = .draw
  · rw [if_pos (.inl hp), surfaceAcquire, phaseGate_draw hp, decide_eq_false (not_not.mpr hp)]
  · by_cases hd : s.cartIsDebug = false
    · rw [if_pos (.inr hd)]
      exact surfaceAcquire_eq hd handle
    · rw [if_neg (by rintro (h | h); exacts [hp h, hd h]), surfaceAcquire, phaseGate_other hp]
      exact if_pos (by simpa using hd)

theorem surfaceAcquire_move : RegMove a m s.surfaces (surfaceAcquire s handle).2.surfaces := by
  rw [surfaceAcquire_any]
  split_ifs
  · exact surfaceAcquireLock_move s handle _
  · rw [refused_surfaces]
    exact .idle

theorem sessionSurfaceAcquire_eq : sessionSurfaceAcquire s handle = match s.unlocked handle with
        | none => s
        | some i => { s with surfaces := s.surfaces.lockDirectly i } := by
  unfold sessionSurfaceAcquire unlocked
  cases resolveSurface s.surfaces handle with
  | none => rfl
  | some i =>
    rw [Option.filter_some]
    cases hl : (s.surfaces.slots i).locked with
    | true | false =>
      simp only [hl]
      rfl

theorem sessionSurfaceAcquire_move :
    RegMove a m s.surfaces (sessionSurfaceAcquire s handle).surfaces := by
  rw [sessionSurfaceAcquire_eq]
  cases hu : s.unlocked handle with
  | none => exact .idle
  | some i =>
    obtain ⟨hr, hl⟩ := unlocked_eq_some.mp hu
    exact .direct i (resolveSurface_some hr).1 hl

end

theorem surfaceRelease_move (token : Nat) :
    RegMove .lock s.gmem s.surfaces (surfaceRelease s token).surfaces := by
  unfold surfaceRelease
  cases hr : resolveLockview s.surfaces token with
  | none => exact .idle
  | some i => exact .flush i rfl (resolveLockview_some hr)

end

theorem paint_fits {i : Fin surfaceMax} {t : SurfaceSlot} {px px' : List UInt8} {op : DrawOp}
    {w ht : Int} (hpx : t.pixels = some px) (hop : op.paint px w ht = some px') : t.Fits i px' := by
  intro px0 h0
  cases hpx.symm.trans h0
  exact .inl (DrawOp.length_paint hop)

theorem blit_fits {c : RowCopy} {i j : Fin surfaceMax} {dpx spx : List UInt8} {d t u : SurfaceSlot}
    {x y : Int} (hpx : u.pixels = some dpx) :
    u.Fits i (if i = j then rasterBlitSelf c dpx d.w d.w d.h x y
      else rasterBlit dpx d.w d.w d.h spx t.w t.w t.h x y) := by
  intro px0 h0
  cases hpx.symm.trans h0
  refine .inl ?_
  split_ifs
  · exact length_rasterBlitSelf _ _ _ _ _ _ _
  · exact length_rasterBlit _ _ _ _ _ _ _ _ _ _

end Moves

namespace HostLeg

variable {a : Access} {m : ByteMem}

/-- Past the gates: draw into slot `i`. -/
def paintSlot (h : HostLeg) (i : Fin surfaceMax) (op : DrawOp) : HostLeg × SurfaceAnswer :=
  let t := h.session.surfaces.slots i
  let drawn := h.cartHasDrawn || t.isScreen
  match t.pixels with
  | none => ({ h with cartHasDrawn := drawn }, .done)
  | some px =>
    match op.paint px t.w t.h with
    | none => (h, .hangs)
    | some px => ({ h with session := setPixels h.session i px, cartHasDrawn := drawn }, .done)

/-- Past the gates: copy slot `j` into slot `i`. -/
def blitSlots (c : RowCopy) (h : HostLeg) (i j : Fin surfaceMax) (x y : Int) : HostLeg :=
  let d := h.session.surfaces.slots i
  let t := h.session.surfaces.slots j
  let drawn := h.cartHasDrawn || d.isScreen
  match d.pixels, t.pixels with
  | some dpx, some spx =>
    let px := if i = j then rasterBlitSelf c dpx d.w d.w d.h x y
      else rasterBlit dpx d.w d.w d.h spx t.w t.w t.h x y
    { h with session := setPixels h.session i px, cartHasDrawn := drawn }
  | _, _ => { h with cartHasDrawn := drawn }

/-- The leg of a call that a gate refuses. -/
def refuse (h : HostLeg) : HostLeg := { h with session := h.session.refused }

theorem surfaceDraw_eq (h : HostLeg) (dst : Nat) (op : DrawOp) :
    h.surfaceDraw dst op
      = if h.session.phase ≠ .draw then (h.refuse, .done)
        else
          match resolveSurface h.session.surfaces dst with
          | none => (h, .done)
          | some i =>
            if (h.session.surfaces.slots i).locked then (h.refuse, .done)
            else h.paintSlot i op := by
  unfold surfaceDraw
  by_cases hp : h.session.phase = .draw
  · rw [phaseGate_draw hp, if_neg (not_not.mpr hp)]
    simp only
    cases resolveSurface h.session.surfaces dst with
    | none => rfl
    | some i =>
      simp only [lockGate_some]
      cases (h.session.surfaces.slots i).locked with
      | true => rfl
      | false => rfl
  · rw [phaseGate_other hp, if_pos hp]
    rfl

def BlitLocked (r : SurfaceRegistry) (dst src : Nat) : Prop :=
  (resolveSurface r dst).any (fun i => (r.slots i).locked) = true
    ∨ (resolveSurface r src).any (fun j => (r.slots j).locked) = true

instance (r : SurfaceRegistry) (dst src : Nat) : Decidable (BlitLocked r dst src) :=
  inferInstanceAs (Decidable (_ ∨ _))

theorem surfaceBlit_eq (c : RowCopy) (h : HostLeg) (dst src : Nat) (x y : Int) :
    h.surfaceBlit c dst src x y
      = if h.session.phase ≠ .draw ∨ BlitLocked h.session.surfaces dst src then h.refuse
        else
          match resolveSurface h.session.surfaces dst, resolveSurface h.session.surfaces src with
          | some i, some j => h.blitSlots c i j x y
          | _, _ => h := by
  unfold surfaceBlit
  by_cases hp : h.session.phase = .draw
  · rw [phaseGate_draw hp]
    by_cases hl : BlitLocked h.session.surfaces dst src
    · rw [if_pos (.inr hl)]
      by_cases hd : (resolveSurface h.session.surfaces dst).any
          (fun i => (h.session.surfaces.slots i).locked) = true
      · simp only [lockGate_stop hd]
        rfl
      · simp only [lockGate_pass hd, lockGate_stop (hl.resolve_left hd)]
        rfl
    · rw [if_neg (by rintro (h | h); exacts [h hp, hl h])]
      obtain ⟨hd, hs⟩ := not_or.mp hl
      simp only [lockGate_pass hd, lockGate_pass hs]
      cases resolveSurface h.session.surfaces dst with
      | none => rfl
      | some i =>
        cases resolveSurface h.session.surfaces src with
        | none => rfl
        | some j =>
          cases hdpx : (h.session.surfaces.slots i).pixels with
          | none => simp only [blitSlots, hdpx]
          | some =>
            cases hspx : (h.session.surfaces.slots j).pixels with
            | none | some spx => simp only [blitSlots, hdpx, hspx]
  · rw [phaseGate_other hp, if_pos (.inl hp)]
    rfl

theorem paintSlot_move (h : HostLeg) {i : Fin surfaceMax}
    (hl : (h.session.surfaces.slots i).locked = false) (op : DrawOp) :
    RegMove a m h.session.surfaces (h.paintSlot i op).1.session.surfaces := by
  unfold paintSlot
  cases hpx : (h.session.surfaces.slots i).pixels with
  | none =>
    simp only [hpx]
    exact .idle
  | some px =>
    simp only [hpx]
    cases hop : op.paint px (h.session.surfaces.slots i).w (h.session.surfaces.slots i).h with
    | none => exact .idle
    | some px' => exact .paint i px' hl (paint_fits hpx hop)

theorem blitSlots_move (c : RowCopy) (h : HostLeg) {i : Fin surfaceMax}
    (hl : (h.session.surfaces.slots i).locked = false) (j : Fin surfaceMax) (x y : Int) :
    RegMove a m h.session.surfaces (h.blitSlots c i j x y).session.surfaces := by
  unfold blitSlots
  cases hpx : (h.session.surfaces.slots i).pixels with
  | none =>
    simp only [hpx]
    exact .idle
  | some =>
    cases hpx' : (h.session.surfaces.slots j).pixels with
    | none =>
      simp only [hpx, hpx']
      exact .idle
    | some =>
      simp only [hpx, hpx']
      exact .paint i _ hl (blit_fits hpx)

theorem refuse_surfaces (h : HostLeg) : h.refuse.session.surfaces = h.session.surfaces :=
  refused_surfaces _

theorem surfaceDraw_move (h : HostLeg) (dst : Nat) (op : DrawOp) :
    RegMove a m h.session.surfaces (h.surfaceDraw dst op).1.session.surfaces := by
  rw [surfaceDraw_eq]
  split_ifs
  · rw [refuse_surfaces]
    exact .idle
  · cases resolveSurface h.session.surfaces dst with
    | none => exact .idle
    | some =>
      simp only
      split_ifs with hl
      · rw [refuse_surfaces]
        exact .idle
      · exact h.paintSlot_move (by simpa using hl) op

theorem surfaceBlit_move (c : RowCopy) (h : HostLeg) (dst src : Nat) (x y : Int) :
    RegMove a m h.session.surfaces (h.surfaceBlit c dst src x y).session.surfaces := by
  rw [surfaceBlit_eq]
  split_ifs with hgate
  · rw [refuse_surfaces]
    exact .idle
  · cases hd : resolveSurface h.session.surfaces dst with
    | none => exact .idle
    | some =>
      cases resolveSurface h.session.surfaces src with
      | none => exact .idle
      | some j =>
        refine h.blitSlots_move c ?_ j x y
        by_contra hl
        exact hgate (.inr (.inl (by rw [hd]; simpa using hl)))

theorem shown_fits (E : HostEnv) (h : HostLeg) :
    (h.session.surfaces.slots 0).Fits 0 (h.shown E) := by
  intro px0 hpx
  unfold shown
  split_ifs
  · rw [hpx]
    exact .inl rfl
  · exact .inr ⟨rfl, E.card_length _⟩

theorem runFrameEntry_move (s : Session) (rc fn : Bool) :
    RegMove .lock s.gmem s.surfaces (runFrameEntry s rc fn).surfaces := by
  unfold runFrameEntry surfaceReapAll
  cases rc <;> cases fn <;> simp only [if_true, Bool.false_eq_true, if_false, publish_surfaces]
  exacts [.reap rfl, .idle, .reap rfl, .idle]

theorem step_move (E : HostEnv) (h : HostLeg) (call : SurfaceCall) :
    RegMove call.access h.session.gmem h.session.surfaces (h.step E call).1.session.surfaces := by
  cases call with
  | phase => exact .idle
  | create w ht => exact surfaceCreate_move false h.session w ht
  | destroy handle => exact surfaceDestroy_move h.session handle
  | draw dst op => exact h.surfaceDraw_move dst op
  | blit dst src x y => exact h.surfaceBlit_move E.copy dst src x y
  | acquire handle => exact surfaceAcquire_move h.session handle
  | write token off color =>
    show RegMove _ _ _ (lockWrite h.session token off color).surfaces
    unfold lockWrite
    cases resolveLockview h.session.surfaces token with
    | none => exact .idle
    | some =>
      simp only
      split_ifs <;> exact .idle
  | release token => exact surfaceRelease_move h.session token
  | frameDone =>
    show RegMove _ _ _ (runFrameEntry (setPixels h.session 0 (h.shown E)) false false).surfaces
    unfold runFrameEntry surfaceReapAll
    simp only [Bool.false_eq_true, if_false, publish_surfaces]
    exact .boundary _ rfl (h.shown_fits E)

/-- **What an operation does to the registry.** -/
theorem opStep_move (E : HostEnv) (h : HostLeg) (op : SurfaceOp) :
    RegMove op.access h.session.gmem h.session.surfaces (h.opStep E op).1.session.surfaces := by
  cases op with
  | call c => exact h.step_move E c
  | createFails w ht => exact surfaceCreate_move true h.session w ht
  | frameEntry rc fn => exact runFrameEntry_move h.session rc fn
  | present => exact .present _ rfl fun px0 _ => .inr ⟨rfl, length_readGuest _ _ _⟩
  | luaCreate oom w ht => exact surfaceCreateSlot_move oom h.session w ht
  | luaDestroy handle => exact sessionSurfaceDestroy_move h.session handle
  | luaDraw dst op =>
    show RegMove _ _ _ (luaSurfaceDraw h.session dst op).surfaces
    unfold luaSurfaceDraw sessionSurfaceDrawable
    cases hu : h.session.unlocked dst with
    | none => exact .idle
    | some i =>
      have hl := (unlocked_eq_some.mp hu).2
      cases hpx : (h.session.surfaces.slots i).pixels with
      | none =>
        simp only [Option.bind_some, hpx, Option.map_none]
        exact .idle
      | some px =>
        simp only [Option.bind_some, hpx, Option.map_some]
        cases hop : op.paint px (h.session.surfaces.slots i).w (h.session.surfaces.slots i).h with
        | none => exact .idle
        | some px' => exact .paint i px' hl (paint_fits hpx hop)
  | luaBlit dst src x y =>
    show RegMove _ _ _ (luaSurfaceBlit E.copy h.session dst src x y).surfaces
    unfold luaSurfaceBlit
    split
    · next i dpx j spx hd _ =>
      obtain ⟨i', hu, hpx⟩ := Option.bind_eq_some_iff.mp hd
      obtain ⟨px, hpx, heq⟩ := Option.map_eq_some_iff.mp hpx
      cases heq
      exact .paint i _ (unlocked_eq_some.mp hu).2 (blit_fits hpx)
    · exact .idle
  | luaAcquire handle => exact sessionSurfaceAcquire_move h.session handle
  | luaLockDraw token op =>
    show RegMove _ _ _ (luaLockDraw h.session token op).surfaces
    unfold luaLockDraw
    cases resolveLockview h.session.surfaces token with
    | none => exact .idle
    | some i =>
      simp only
      split_ifs with hd
      · exact .idle
      · split
        · exact .idle
        · next px' hop =>
          obtain ⟨px, hpx, hop⟩ := Option.bind_eq_some_iff.mp hop
          exact .lockPaint i px' rfl (by simpa using hd) (paint_fits hpx hop)
  | luaRelease token => exact surfaceRelease_move h.session token
  | luaReap =>
    show RegMove _ _ _ (surfaceReapAll h.session).surfaces
    unfold surfaceReapAll
    rw [publish_surfaces]
    exact .reap rfl
  | elsewhere => exact .idle

end HostLeg

end Blyt
