import Blyt.NativeSurface

/-!
# The emulated surface calls

The surface ECALLs of `runtime/host/src/libblyt/cart_run.c` on an emulated session,
with the frame boundary: `run_frame_impl` ends a frame by showing the screen - with
the test card drawn over it as long as the cart has not drawn - and starts the next
by reaping the surfaces. The calls that the budget runs through are those of
`Session`; here are the others, and one type of call for both variants.
-/

namespace Blyt

/-- What the host brings along: the test card of each frame, and its `memcpy`. -/
structure HostEnv where
  card : Nat → List UInt8
  card_length : ∀ k, (card k).length = frameW.toNat * frameH.toNat
  copy : RowCopy

structure HostLeg where
  session : Session
  cartHasDrawn : Bool
  frameCount : Nat

namespace HostLeg

def setPixels (s : Session) (i : Fin surfaceMax) (px : List UInt8) : Session :=
  { s with surfaces := s.surfaces.set i { s.surfaces.slots i with pixels := some px } }

/-- The four `BLYT_ECALL_SURFACE_*` with one target. -/
def surfaceDraw (h : HostLeg) (dst : Nat) (op : DrawOp) : HostLeg × SurfaceAnswer :=
  match surfacePhaseGate h.session with
  | (false, s) => ({ h with session := s }, .done)
  | (true, s) =>
    let slot := resolveSurface s.surfaces dst
    match surfaceLockGate s slot with
    | (false, s) => ({ h with session := s }, .done)
    | (true, s) =>
      match slot with
      | none => ({ h with session := s }, .done)
      | some i =>
        let t := s.surfaces.slots i
        let drawn := h.cartHasDrawn || t.isScreen
        match t.pixels with
        | none => ({ h with session := s, cartHasDrawn := drawn }, .done)
        | some px =>
          match op.paint px t.w t.h with
          | none => ({ h with session := s }, .hangs)
          | some px => ({ h with session := setPixels s i px, cartHasDrawn := drawn }, .done)

/-- `BLYT_ECALL_SURFACE_BLIT`. -/
def surfaceBlit (c : RowCopy) (h : HostLeg) (dst src : Nat) (x y : Int) : HostLeg :=
  match surfacePhaseGate h.session with
  | (false, s) => { h with session := s }
  | (true, s) =>
    let ds := resolveSurface s.surfaces dst
    let ss := resolveSurface s.surfaces src
    match surfaceLockGate s ds with
    | (false, s) => { h with session := s }
    | (true, s) =>
      match surfaceLockGate s ss with
      | (false, s) => { h with session := s }
      | (true, s) =>
        match ds, ss with
        | some i, some j =>
          let d := s.surfaces.slots i
          let t := s.surfaces.slots j
          let drawn := h.cartHasDrawn || d.isScreen
          match d.pixels, t.pixels with
          | some dpx, some spx =>
            let px := if i = j then rasterBlitSelf c dpx d.w d.w d.h x y
              else rasterBlit dpx d.w d.w d.h spx t.w t.w t.h x y
            { h with session := setPixels s i px, cartHasDrawn := drawn }
          | _, _ => { h with session := s, cartHasDrawn := drawn }
        | _, _ => { h with session := s }

/-- The cart's own store to the guest memory of a lock that it holds. -/
def lockWrite (s : Session) (token off : Nat) (color : UInt8) : Session :=
  match resolveLockview s.surfaces token with
  | none => s
  | some i =>
    let t := s.surfaces.slots i
    if off < t.lockLen then { s with gmem := writeGuest s.gmem (t.lockVaddr + off) [color] } else s

/-- `BLYT_ECALL_SURFACE_RELEASE`. -/
def release (h : HostLeg) (token : Nat) : HostLeg :=
  let screen := (resolveLockview h.session.surfaces token).any fun i =>
    (h.session.surfaces.slots i).isScreen
  { h with session := surfaceRelease h.session token, cartHasDrawn := h.cartHasDrawn || screen }

/-- The screen at the end of a frame. -/
def shown (E : HostEnv) (h : HostLeg) : List UInt8 :=
  if h.cartHasDrawn then ((h.session.surfaces.slots 0).pixels).getD [] else E.card h.frameCount

/-- The end of one frame in `run_frame_impl` and the entry of the next. -/
def frameDone (E : HostEnv) (h : HostLeg) : HostLeg × SurfaceAnswer :=
  ({ session := runFrameEntry (setPixels h.session 0 (h.shown E)) false false
     cartHasDrawn := h.cartHasDrawn
     frameCount := if h.cartHasDrawn then h.frameCount else h.frameCount + 1 },
    .frame (h.shown E))

def step (E : HostEnv) (h : HostLeg) : SurfaceCall → HostLeg × SurfaceAnswer
  | .phase p => ({ h with session := { h.session with phase := p } }, .done)
  | .create w ht =>
    let r := surfaceCreate false h.session w ht
    ({ h with session := r.2 }, .handle r.1)
  | .destroy handle => ({ h with session := surfaceDestroy h.session handle }, .done)
  | .draw dst op => h.surfaceDraw dst op
  | .blit dst src x y => (h.surfaceBlit E.copy dst src x y, .done)
  | .acquire handle =>
    let r := surfaceAcquire h.session handle
    ({ h with session := r.2 }, .lock (r.1.map Prod.snd))
  | .write token off color => ({ h with session := lockWrite h.session token off color }, .done)
  | .release token => (h.release token, .done)
  | .frameDone => h.frameDone E

end HostLeg

end Blyt
