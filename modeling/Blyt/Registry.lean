import Blyt.Raster
import Blyt.Session

/-!
# What a surface registry is for

The emulated and the native variant each keep their own registry of surfaces, with
their own idea of where pixels live. This is what both are meant to be: 64 slots, of
which the first is the screen, each with a generation, a lock generation, a lock and,
if it is live, a surface with its size and the pixels that the cart sees. A call
works on it only inside `draw()`, and through a handle only on a surface that is not
locked.

What remains open is what the variants decide for themselves: whether a new surface
fits (`Gates.fits`), and what `memcpy` does where it is undefined (`Gates.copy`).
-/

namespace Blyt

/-! ## Calls and answers -/

/-- The primitives with one target. -/
inductive DrawOp where
  | clear (color : UInt8)
  | pixel (x y : Int) (color : UInt8)
  | rectFill (x y w h : Int) (color : UInt8)
  | line (x0 y0 x1 y1 : Int) (color : UInt8)
  deriving DecidableEq, Repr

/-- On a buffer of this size, with the width as its stride. -/
def DrawOp.paint (op : DrawOp) (px : List UInt8) (w h : Int) : Option (List UInt8) :=
  match op with
  | .clear color => some (rasterClear px w w h color)
  | .pixel x y color => some (rasterPixel px w w h x y color)
  | .rectFill x y rw rh color => some (rasterRectFill px w w h x y rw rh color)
  | .line x0 y0 x1 y1 color => rasterLine px w w h x0 y0 x1 y1 color

theorem DrawOp.length_paint {op : DrawOp} {px px' : List UInt8} {w h : Int}
    (hp : op.paint px w h = some px') : px'.length = px.length := by
  cases op with
  | clear =>
    cases hp
    exact length_rasterClear _ _ _ _ _
  | pixel =>
    cases hp
    exact length_rasterPixel _ _ _ _ _ _ _
  | rectFill =>
    cases hp
    exact length_rasterRectFill _ _ _ _ _ _ _ _ _
  | line => exact length_rasterLine hp

inductive SurfaceCall where
  /-- `blyt_phase_enter` -/
  | phase (p : Phase)
  | create (w h : Int)
  | destroy (handle : Nat)
  | draw (dst : Nat) (op : DrawOp)
  | blit (dst src : Nat) (x y : Int)
  | acquire (handle : Nat)
  /-- the cart stores a byte through the pointer of a lock it holds -/
  | write (token off : Nat) (color : UInt8)
  | release (token : Nat)
  | frameDone
  deriving DecidableEq, Repr

inductive SurfaceAnswer where
  | done
  | handle (h : Nat)
  /-- stride, width, height and token, if the lock was granted -/
  | lock (record : Option (Int × Int × Int × Nat))
  /-- the call does not return -/
  | hangs
  /-- a frame boundary: the pixels of the screen -/
  | frame (screen : List UInt8)
  deriving DecidableEq, Repr

/-! ## The registry -/

/-- The slot that a handle of this kind stands for, if it is one that `ok` allows and
its generation is the current one. -/
def slotOf (kind : HandleKind) (ok : Fin surfaceMax → Bool) (gen : Fin surfaceMax → Nat)
    (handle : Nat) : Option (Fin surfaceMax) :=
  if handleKind handle ≠ kind then none
  else if hidx : dynDecodeIndex handle < surfaceMax then
    let i : Fin surfaceMax := ⟨dynDecodeIndex handle, hidx⟩
    if !ok i ∨ dynDecodeGen handle % 2 ^ 16 ≠ gen i then none else some i
  else none

theorem slotOf_eq_some {kind : HandleKind} {ok : Fin surfaceMax → Bool}
    {gen : Fin surfaceMax → Nat} {handle : Nat} {i : Fin surfaceMax} :
    slotOf kind ok gen handle = some i ↔ handleKind handle = kind ∧ dynDecodeIndex handle = i
      ∧ ok i = true ∧ dynDecodeGen handle % 2 ^ 16 = gen i := by
  unfold slotOf
  by_cases hkind : handleKind handle = kind
  · rw [if_neg (not_not.mpr hkind)]
    by_cases hidx : dynDecodeIndex handle < surfaceMax
    · rw [dif_pos hidx]
      simp only
      constructor
      · intro h
        split_ifs at h with hs
        cases h
        rw [not_or, Bool.not_eq_true, Bool.not_eq_false', not_not] at hs
        exact ⟨hkind, rfl, hs.1, hs.2⟩
      · rintro ⟨-, hi, hok, hgen⟩
        obtain rfl : (⟨dynDecodeIndex handle, hidx⟩ : Fin surfaceMax) = i := Fin.ext hi
        rw [if_neg]
        rw [not_or, Bool.not_eq_true, Bool.not_eq_false', not_not]
        exact ⟨hok, hgen⟩
    · rw [dif_neg hidx]
      refine iff_of_false (by simp) ?_
      rintro ⟨-, hi, -, -⟩
      exact hidx (hi ▸ i.isLt)
  · rw [if_pos hkind]
    exact iff_of_false (by simp) fun h => hkind h.1

structure Surface where
  w : Int
  h : Int
  px : List UInt8
  deriving DecidableEq, Repr

structure RegSlot where
  gen : Nat
  lockGen : Nat
  locked : Bool
  live : Option Surface
  deriving DecidableEq, Repr

structure Registry where
  phase : Phase
  slots : Fin surfaceMax → RegSlot

structure Gates where
  fits : Int → Int → Bool
  copy : RowCopy

namespace Registry

def set (r : Registry) (i : Fin surfaceMax) (s : RegSlot) : Registry :=
  { r with slots := Function.update r.slots i s }

def find (r : Registry) (handle : Nat) : Option (Fin surfaceMax × Surface) :=
  (slotOf .surface (fun i => (r.slots i).live.isSome) (fun i => (r.slots i).gen) handle).bind
    fun i => (r.slots i).live.map fun f => (i, f)

/-- The same for a call that must be in `draw()` and wants no lock. -/
def drawable (r : Registry) (handle : Nat) : Option (Fin surfaceMax × Surface) :=
  if r.phase ≠ .draw then none
  else (r.find handle).filter fun p => !(r.slots p.1).locked

/-- The slot of a lock that is held. -/
def findLock (r : Registry) (token : Nat) : Option (Fin surfaceMax) :=
  slotOf .lockview (fun i => (r.slots i).locked) (fun i => (r.slots i).lockGen) token

def firstFree (r : Registry) : Option (Fin surfaceMax) :=
  ((List.finRange surfaceMax).drop 1).find? fun i => (r.slots i).live.isNone

/-- New pixels for a live surface. -/
def paint (r : Registry) (i : Fin surfaceMax) (f : Surface) (px : List UInt8) : Registry :=
  r.set i { r.slots i with live := some { f with px := px } }

def unlock (s : RegSlot) : RegSlot :=
  if s.locked then { s with locked := false, lockGen := (s.lockGen + 1) % 2 ^ 16 } else s

def free (s : RegSlot) : RegSlot :=
  if s.live.isSome then { s with live := none, gen := (s.gen + 1) % 2 ^ 16 } else s

/-- The end of a frame: all locks go, and all surfaces but the screen. -/
def reap (r : Registry) : Registry :=
  { r with slots := fun i => if i = 0 then unlock (r.slots i) else free (unlock (r.slots i)) }

def screen (r : Registry) : List UInt8 := (r.slots 0).live.elim [] Surface.px

def BadSize (w h : Int) : Prop := w ≤ 0 ∨ h ≤ 0 ∨ surfaceMaxDim < w ∨ surfaceMaxDim < h

instance (w h : Int) : Decidable (BadSize w h) := by
  unfold BadSize
  infer_instance

def create (g : Gates) (r : Registry) (w h : Int) : Registry × SurfaceAnswer :=
  if r.phase ≠ .draw ∨ BadSize w h ∨ g.fits w h = false then (r, .handle handleNone)
  else
    match r.firstFree with
    | none => (r, .handle handleNone)
    | some i =>
      (r.set i { r.slots i with live := some ⟨w, h, List.replicate (w.toNat * h.toNat) 0⟩ },
        .handle (surfaceEncode (r.slots i).gen i))

def destroy (r : Registry) (handle : Nat) : Registry :=
  match r.drawable handle with
  | none => r
  | some (i, _) => if i = 0 then r else r.set i (free (r.slots i))

def draw (r : Registry) (dst : Nat) (op : DrawOp) : Registry × SurfaceAnswer :=
  match r.drawable dst with
  | none => (r, .done)
  | some (i, f) =>
    match op.paint f.px f.w f.h with
    | none => (r, .hangs)
    | some px => (r.paint i f px, .done)

/-- The pixels of the target after a blit. -/
def blitted (c : RowCopy) (i j : Fin surfaceMax) (d s : Surface) (x y : Int) : List UInt8 :=
  if i = j then rasterBlitSelf c d.px d.w d.w d.h x y
  else rasterBlit d.px d.w d.w d.h s.px s.w s.w s.h x y

theorem length_blitted (c : RowCopy) (i j : Fin surfaceMax) (d s : Surface) (x y : Int) :
    (blitted c i j d s x y).length = d.px.length := by
  unfold blitted
  split_ifs
  · exact length_rasterBlitSelf _ _ _ _ _ _ _
  · exact length_rasterBlit _ _ _ _ _ _ _ _ _ _

def blit (g : Gates) (r : Registry) (dst src : Nat) (x y : Int) : Registry :=
  match r.drawable dst, r.drawable src with
  | some (i, d), some (j, s) => r.paint i d (blitted g.copy i j d s x y)
  | _, _ => r

def acquire (r : Registry) (handle : Nat) : Registry × SurfaceAnswer :=
  match r.drawable handle with
  | none => (r, .lock none)
  | some (i, f) =>
    (r.set i { r.slots i with locked := true },
      .lock (some (f.w, f.w, f.h, lockviewEncode (r.slots i).lockGen i)))

def write (r : Registry) (token off : Nat) (color : UInt8) : Registry :=
  match r.findLock token with
  | none => r
  | some i =>
    match (r.slots i).live with
    | none => r
    | some f => if off < f.px.length then r.paint i f (f.px.set off color) else r

def release (r : Registry) (token : Nat) : Registry :=
  match r.findLock token with
  | none => r
  | some i => r.set i (unlock (r.slots i))

def step (g : Gates) (r : Registry) : SurfaceCall → Registry × SurfaceAnswer
  | .phase p => ({ r with phase := p }, .done)
  | .create w h => r.create g w h
  | .destroy handle => (r.destroy handle, .done)
  | .draw dst op => r.draw dst op
  | .blit dst src x y => (r.blit g dst src x y, .done)
  | .acquire handle => r.acquire handle
  | .write token off color => (r.write token off color, .done)
  | .release token => (r.release token, .done)
  | .frameDone => (r.reap, .frame r.screen)

/-! ## Handles -/

theorem find_eq_map {r : Registry} (inUse : Fin surfaceMax → Bool) (surf : Fin surfaceMax → Surface)
    (h : ∀ i, (r.slots i).live = if inUse i then some (surf i) else none) (handle : Nat) :
    r.find handle = (slotOf .surface inUse (fun i => (r.slots i).gen) handle).map
      fun i => (i, surf i) := by
  have hok : (fun i => (r.slots i).live.isSome) = inUse := by
    funext i
    rw [h i]
    cases inUse i <;> rfl
  unfold find
  rw [hok]
  cases hs : slotOf .surface inUse (fun i => (r.slots i).gen) handle with
  | none => rfl
  | some i =>
    rw [Option.bind_some, h i, (slotOf_eq_some.mp hs).2.2.1]
    rfl

theorem drawable_eq_map {r : Registry} (inUse : Fin surfaceMax → Bool)
    (surf : Fin surfaceMax → Surface)
    (h : ∀ i, (r.slots i).live = if inUse i then some (surf i) else none) (handle : Nat) :
    r.drawable handle
      = if r.phase ≠ .draw then none
        else ((slotOf .surface inUse (fun i => (r.slots i).gen) handle).filter
          fun i => !(r.slots i).locked).map fun i => (i, surf i) := by
  unfold drawable
  rw [find_eq_map inUse surf h, Option.filter_map]
  rfl

end Registry

end Blyt
