import Blyt.Registry

/-!
# The native surface registry

`frontends/native/src/libblyt32/blyt32.c`: the pool that the bare-metal library keeps
in its own address space. Off-screen surfaces are carved from a bump arena that is
only rewound when the frame ends, a lock hands out the surface's own pointer, and the
pool sets itself up on first use.
-/

namespace Blyt

/-- Where a slot's pixels are. -/
inductive NativePtr where
  | null
  | framebuffer
  | arena (off : Nat)
  deriving DecidableEq, Repr

structure NativeSlot where
  pixels : NativePtr
  w : Int
  h : Int
  gen : Nat
  inUse : Bool
  isScreen : Bool
  locked : Bool
  lockGen : Nat
  deriving DecidableEq, Repr

structure NativeLeg where
  surfaces : Fin surfaceMax → NativeSlot
  framebuffer : ByteMem
  surfaceArena : ByteMem
  surfaceBump : Nat
  surfacesInit : Bool
  phase : Phase

/-- `NATIVE_FB_W`, `NATIVE_FB_H`; the host's `BLYT_FRAME_W`, `BLYT_FRAME_H`. -/
def frameW : Int := 320
def frameH : Int := 240

namespace NativeLeg

def set (n : NativeLeg) (i : Fin surfaceMax) (s : NativeSlot) : NativeLeg :=
  { n with surfaces := Function.update n.surfaces i s }

def nativeSurfacesInit (n : NativeLeg) : NativeLeg :=
  if n.surfacesInit then n
  else
    { n.set 0 { n.surfaces 0 with pixels := .framebuffer, w := frameW, h := frameH,
                                  inUse := true, isScreen := true } with surfacesInit := true }

/-! ## Pixels -/

def area (s : NativeSlot) : Nat := s.w.toNat * s.h.toNat

/-- The slot's pixels, `w * h` bytes from its pointer on. -/
def load (n : NativeLeg) (s : NativeSlot) : List UInt8 :=
  match s.pixels with
  | .null => []
  | .framebuffer => readGuest n.framebuffer 0 (area s)
  | .arena off => readGuest n.surfaceArena off (area s)

def store (n : NativeLeg) (s : NativeSlot) (px : List UInt8) : NativeLeg :=
  match s.pixels with
  | .null => n
  | .framebuffer => { n with framebuffer := writeGuest n.framebuffer 0 px }
  | .arena off => { n with surfaceArena := writeGuest n.surfaceArena off px }

/-- A byte stored by the cart, `off` bytes behind the pointer. -/
def poke (n : NativeLeg) (s : NativeSlot) (off : Nat) (color : UInt8) : NativeLeg :=
  match s.pixels with
  | .null => n
  | .framebuffer => { n with framebuffer := writeGuest n.framebuffer off [color] }
  | .arena o => { n with surfaceArena := writeGuest n.surfaceArena (o + off) [color] }

/-! ## The calls -/

/-- Behind `native_surfaces_init`. -/
def nativeResolveSurface (n : NativeLeg) (handle : Nat) : Option (Fin surfaceMax) :=
  if n.phase ≠ .draw then none
  else if handleKind handle ≠ .surface then none
  else if hidx : dynDecodeIndex handle < surfaceMax then
    let s := n.surfaces ⟨dynDecodeIndex handle, hidx⟩
    if !s.inUse ∨ dynDecodeGen handle % 2 ^ 16 ≠ s.gen then none
    else some ⟨dynDecodeIndex handle, hidx⟩
  else none

def nativeResolveDrawable (n : NativeLeg) (handle : Nat) : Option (Fin surfaceMax) :=
  (n.nativeResolveSurface handle).filter fun i => !(n.surfaces i).locked

/-- `blyt_surface_create`. -/
def surfaceCreate (n : NativeLeg) (w h : Int) : NativeLeg × SurfaceAnswer :=
  let n := n.nativeSurfacesInit
  if n.phase ≠ .draw then (n, .handle handleNone)
  else if Registry.BadSize w h then (n, .handle handleNone)
  else
    let bytes := slotArea w h
    if memBudgetBytes < n.surfaceBump + bytes then (n, .handle handleNone)
    else
      match ((List.finRange surfaceMax).drop 1).find? fun i => !(n.surfaces i).inUse with
      | none => (n, .handle handleNone)
      | some i =>
        let off := n.surfaceBump
        let s := { n.surfaces i with pixels := .arena off, w := w, h := h, inUse := true,
                                     isScreen := false }
        let n := { n with surfaceBump := u32 (n.surfaceBump + bytes) }
        let n := n.store s (rasterClear (n.load s) w w h 0)
        (n.set i s, .handle (surfaceEncode s.gen i))

/-- `blyt_surface_destroy`. -/
def surfaceDestroy (n : NativeLeg) (handle : Nat) : NativeLeg :=
  let n := n.nativeSurfacesInit
  match n.nativeResolveDrawable handle with
  | none => n
  | some i =>
    let s := n.surfaces i
    if s.isScreen then n
    else n.set i { s with inUse := false, gen := (s.gen + 1) % 2 ^ 16 }

/-- `blyt_surface_clear`, `_pixel`, `_rect_fill` and `_line`. -/
def surfaceDraw (n : NativeLeg) (dst : Nat) (op : DrawOp) : NativeLeg × SurfaceAnswer :=
  let n := n.nativeSurfacesInit
  match n.nativeResolveDrawable dst with
  | none => (n, .done)
  | some i =>
    let s := n.surfaces i
    match op.paint (n.load s) s.w s.h with
    | none => (n, .hangs)
    | some px => (n.store s px, .done)

/-- `blyt_surface_blit`. -/
def surfaceBlit (c : RowCopy) (n : NativeLeg) (dst src : Nat) (x y : Int) : NativeLeg :=
  let n := n.nativeSurfacesInit
  match n.nativeResolveDrawable dst, n.nativeResolveDrawable src with
  | some i, some j =>
    let d := n.surfaces i
    let s := n.surfaces j
    let px := if d.pixels = s.pixels then rasterBlitSelf c (n.load d) d.w d.w d.h x y
      else rasterBlit (n.load d) d.w d.w d.h (n.load s) s.w s.w s.h x y
    n.store d px
  | _, _ => n

/-- `blyt_surface_acquire`: the surface's own pointer. -/
def surfaceAcquire (n : NativeLeg) (handle : Nat) : NativeLeg × SurfaceAnswer :=
  let n := n.nativeSurfacesInit
  match n.nativeResolveSurface handle with
  | none => (n, .lock none)
  | some i =>
    let s := n.surfaces i
    if s.locked then (n, .lock none)
    else
      (n.set i { s with locked := true },
        .lock (some (s.w, s.w, s.h, lockviewEncode s.lockGen (dynDecodeIndex handle))))

def tokenSlot (n : NativeLeg) (token : Nat) : Option (Fin surfaceMax) :=
  if handleKind token ≠ .lockview then none
  else if hidx : dynDecodeIndex token < surfaceMax then
    let s := n.surfaces ⟨dynDecodeIndex token, hidx⟩
    if !s.locked ∨ dynDecodeGen token % 2 ^ 16 ≠ s.lockGen then none
    else some ⟨dynDecodeIndex token, hidx⟩
  else none

def lockWrite (n : NativeLeg) (token off : Nat) (color : UInt8) : NativeLeg :=
  match n.tokenSlot token with
  | none => n
  | some i =>
    let s := n.surfaces i
    if off < area s then n.poke s off color else n

/-- `blyt_surface_release`; this one does not set up the pool. -/
def surfaceRelease (n : NativeLeg) (token : Nat) : NativeLeg :=
  match n.tokenSlot token with
  | none => n
  | some i =>
    let s := n.surfaces i
    n.set i { s with locked := false, lockGen := (s.lockGen + 1) % 2 ^ 16 }

def unlockSlot (s : NativeSlot) : NativeSlot :=
  if s.locked then { s with locked := false, lockGen := (s.lockGen + 1) % 2 ^ 16 } else s

def freeSlot (s : NativeSlot) : NativeSlot :=
  if s.inUse then { s with inUse := false, gen := (s.gen + 1) % 2 ^ 16 } else s

/-- `blyt_gfx_reap_surfaces`. -/
def gfxReapSurfaces (n : NativeLeg) : NativeLeg :=
  let n := n.nativeSurfacesInit
  { n with
    surfaces := fun i =>
      if i = 0 then unlockSlot (n.surfaces i) else freeSlot (unlockSlot (n.surfaces i))
    surfaceBump := 0 }

/-- `blyt_frame_done`: the boundary hook shows the framebuffer, then the reap. -/
def frameDone (n : NativeLeg) : NativeLeg × SurfaceAnswer :=
  (n.gfxReapSurfaces, .frame (readGuest n.framebuffer 0 (frameW.toNat * frameH.toNat)))

def step (c : RowCopy) (n : NativeLeg) : SurfaceCall → NativeLeg × SurfaceAnswer
  | .phase p => ({ n with phase := p }, .done)
  | .create w h => n.surfaceCreate w h
  | .destroy handle => (n.surfaceDestroy handle, .done)
  | .draw dst op => n.surfaceDraw dst op
  | .blit dst src x y => (n.surfaceBlit c dst src x y, .done)
  | .acquire handle => n.surfaceAcquire handle
  | .write token off color => (n.lockWrite token off color, .done)
  | .release token => (n.surfaceRelease token, .done)
  | .frameDone => n.frameDone

def start : NativeLeg where
  surfaces := fun _ => ⟨.null, 0, 0, 0, false, false, false, 0⟩
  framebuffer := fun _ => 0
  surfaceArena := fun _ => 0
  surfaceBump := 0
  surfacesInit := false
  phase := .none

end NativeLeg

end Blyt
