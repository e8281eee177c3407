import Blyt.ByteMem

/-!
# The integer rasterizer

`runtime/shared/blyt_raster.c`, which every execution variant compiles in: a
paletted back buffer is the list of its pixels. Coordinates are `int`. The clipping
is done in 64 bits and cannot wrap; the line loop is not guarded, and a sum that
overflows there, which C leaves undefined, wraps around.

`memcpy` on overlapping ranges is undefined, and a blit of a surface onto itself
can come to that. What it leaves there is a parameter (`RowCopy`).
-/

namespace Blyt

open List

/-- `memset` within a buffer. -/
def memsetAt (px : List UInt8) (off n : Nat) (color : UInt8) : List UInt8 :=
  px.mapIdx fun k v => if off ≤ k ∧ k < off + n then color else v

/-- `memcpy` from another buffer. -/
def memcpyAt (px : List UInt8) (off : Nat) (src : List UInt8) (soff n : Nat) : List UInt8 :=
  px.mapIdx fun k v => if off ≤ k ∧ k < off + n then src.getD (soff + (k - off)) 0 else v

/-- `memcpy` within one buffer: as documented if the ranges are apart. -/
structure RowCopy where
  copy : List UInt8 → Nat → Nat → Nat → List UInt8
  length : ∀ px off soff n, (copy px off soff n).length = px.length
  apart : ∀ px off soff n, off + n ≤ soff ∨ soff + n ≤ off →
    copy px off soff n = memcpyAt px off px soff n

@[simp] theorem length_memsetAt (px : List UInt8) (off n : Nat) (color : UInt8) :
    (memsetAt px off n color).length = px.length := length_mapIdx

@[simp] theorem length_memcpyAt (px : List UInt8) (off : Nat) (src : List UInt8) (soff n : Nat) :
    (memcpyAt px off src soff n).length = px.length := length_mapIdx

theorem length_foldl {α : Type} (f : List UInt8 → α → List UInt8)
    (hf : ∀ px a, (f px a).length = px.length) (as : List α) (px : List UInt8) :
    (as.foldl f px).length = px.length := by
  induction as generalizing px with
  | nil => rfl
  | cons a as ih => rw [foldl_cons, ih, hf]

/-! ## Fills -/

def rasterClear (fb : List UInt8) (stride width height : Int) (color : UInt8) : List UInt8 :=
  if width ≤ 0 ∨ height ≤ 0 ∨ stride ≤ 0 then fb
  else (range height.toNat).foldl (fun fb y => memsetAt fb (y * stride.toNat) width.toNat color) fb

def rasterPixel (fb : List UInt8) (stride width height x y : Int) (color : UInt8) : List UInt8 :=
  if stride ≤ 0 then fb
  else if x < 0 ∨ width ≤ x ∨ y < 0 ∨ height ≤ y then fb
  else fb.set (y.toNat * stride.toNat + x.toNat) color

def rasterRectFill (fb : List UInt8) (stride width height x y w h : Int) (color : UInt8) :
    List UInt8 :=
  if stride ≤ 0 ∨ w ≤ 0 ∨ h ≤ 0 then fb
  else
    let x0 := max x 0
    let y0 := max y 0
    let x1 := min (x + w) width
    let y1 := min (y + h) height
    if x1 ≤ x0 ∨ y1 ≤ y0 then fb
    else (range (y1 - y0).toNat).foldl
      (fun fb r => memsetAt fb ((y0.toNat + r) * stride.toNat + x0.toNat) (x1 - x0).toNat color) fb

/-! ## Lines -/

/-- 32-bit wrap-around. -/
def i32 (n : Int) : Int := Int.bmod n (2 ^ 32)

/-- The Bresenham loop. `none`: it does not end. -/
def lineLoop (stride width height x1 y1 dx dy sx sy : Int) (color : UInt8) :
    Nat → List UInt8 → Int → Int → Int → Option (List UInt8)
  | 0, _, _, _, _ => none
  | fuel + 1, fb, x0, y0, err =>
    let fb := rasterPixel fb stride width height x0 y0 color
    if x0 = x1 ∧ y0 = y1 then some fb
    else
      let e2 := i32 (2 * err)
      let right := i32 (-dy) < e2
      let down := e2 < dx
      let err := if right then i32 (err - dy) else err
      let x0 := if right then i32 (x0 + sx) else x0
      let err := if down then i32 (err + dx) else err
      let y0 := if down then i32 (y0 + sy) else y0
      lineLoop stride width height x1 y1 dx dy sx sy color fuel fb x0 y0 err

/-- The loop has three variables of 32 bits: what it has not done in `2 ^ 96` turns it
never does. -/
def rasterLine (fb : List UInt8) (stride width height x0 y0 x1 y1 : Int) (color : UInt8) :
    Option (List UInt8) :=
  if stride ≤ 0 then some fb
  else
    let dx := i32 (if x0 < x1 then x1 - x0 else x0 - x1)
    let dy := i32 (if y0 < y1 then y1 - y0 else y0 - y1)
    let sx := if x0 < x1 then 1 else -1
    let sy := if y0 < y1 then 1 else -1
    lineLoop stride width height x1 y1 dx dy sx sy color (2 ^ 96) fb x0 y0 (i32 (dx - dy))

/-! ## Blits -/

/-- The rows that are copied after clipping: where to, where from, how many pixels. -/
def blitRows (dstride dwidth dheight sstride swidth sheight x y : Int) : List (Nat × Nat × Nat) :=
  if dstride ≤ 0 ∨ sstride ≤ 0 ∨ swidth ≤ 0 ∨ sheight ≤ 0 then []
  else
    let dx0 := max x 0
    let dy0 := max y 0
    let dx1 := min (x + swidth) dwidth
    let dy1 := min (y + sheight) dheight
    let sox := if x < 0 then -x else 0
    let soy := if y < 0 then -y else 0
    if dx1 ≤ dx0 ∨ dy1 ≤ dy0 then []
    else (range (dy1 - dy0).toNat).map fun r =>
      ((dy0.toNat + r) * dstride.toNat + dx0.toNat, (soy.toNat + r) * sstride.toNat + sox.toNat,
        (dx1 - dx0).toNat)

def rasterBlit (dst : List UInt8) (dstride dwidth dheight : Int) (src : List UInt8)
    (sstride swidth sheight x y : Int) : List UInt8 :=
  (blitRows dstride dwidth dheight sstride swidth sheight x y).foldl
    (fun dst row => memcpyAt dst row.1 src row.2.1 row.2.2) dst

/-- The same with one buffer for both. -/
def rasterBlitSelf (c : RowCopy) (fb : List UInt8) (stride width height x y : Int) : List UInt8 :=
  (blitRows stride width height stride width height x y).foldl
    (fun fb row => c.copy fb row.1 row.2.1 row.2.2) fb

/-! ## The buffer keeps its size -/

variable (fb : List UInt8)

theorem length_rasterClear (stride width height : Int) (color : UInt8) :
    (rasterClear fb stride width height color).length = fb.length := by
  unfold rasterClear
  split_ifs
  · rfl
  · exact length_foldl _ (fun _ _ => length_memsetAt _ _ _ _) _ _

theorem length_rasterPixel (stride width height x y : Int) (color : UInt8) :
    (rasterPixel fb stride width height x y color).length = fb.length := by
  unfold rasterPixel
  split_ifs <;> simp

theorem length_rasterRectFill (stride width height x y w h : Int)
    (color : UInt8) : (rasterRectFill fb stride width height x y w h color).length = fb.length := by
  unfold rasterRectFill
  simp only
  split_ifs
  · rfl
  · rfl
  · exact length_foldl _ (fun _ _ => length_memsetAt _ _ _ _) _ _

theorem length_lineLoop {stride width height x1 y1 dx dy sx sy : Int} {color : UInt8} {fuel : Nat}
    {fb fb' : List UInt8} {x0 y0 err : Int}
    (h : lineLoop stride width height x1 y1 dx dy sx sy color fuel fb x0 y0 err = some fb') :
    fb'.length = fb.length := by
  induction fuel generalizing fb x0 y0 err with
  | zero => cases h
  | succ fuel ih =>
    rw [lineLoop] at h
    split_ifs at h
    · cases h
      exact length_rasterPixel _ _ _ _ _ _ _
    all_goals exact (ih h).trans (length_rasterPixel _ _ _ _ _ _ _)

theorem length_rasterLine {fb fb' : List UInt8} {stride width height x0 y0 x1 y1 : Int}
    {color : UInt8} (h : rasterLine fb stride width height x0 y0 x1 y1 color = some fb') :
    fb'.length = fb.length := by
  unfold rasterLine at h
  split_ifs at h
  · cases h
    rfl
  all_goals exact length_lineLoop h

theorem length_rasterBlit (dst : List UInt8) (dstride dwidth dheight : Int) (src : List UInt8)
    (sstride swidth sheight x y : Int) :
    (rasterBlit dst dstride dwidth dheight src sstride swidth sheight x y).length = dst.length :=
  length_foldl _ (fun _ _ => length_memcpyAt _ _ _ _ _) _ _

theorem length_rasterBlitSelf (c : RowCopy) (fb : List UInt8) (stride width height x y : Int) :
    (rasterBlitSelf c fb stride width height x y).length = fb.length :=
  length_foldl _ (fun _ _ => c.length _ _ _ _) _ _

/-- Rows one below the other, without a gap. -/
theorem foldl_memsetAt (w n : Nat) (color : UInt8) :
    (range n).foldl (fun fb y => memsetAt fb (y * w) w color) fb
      = fb.mapIdx fun k v => if k < n * w then color else v := by
  induction n with
  | zero =>
    refine ext_getElem (by simp) fun k hk hk' => ?_
    simp
  | succ n ih =>
    rw [range_succ, foldl_append, ih, foldl_cons, memsetAt, mapIdx_mapIdx]
    refine congrArg fb.mapIdx (funext fun k => funext fun v => ?_)
    have hrow : (n + 1) * w = n * w + w := Nat.succ_mul n w
    split_ifs <;> first | rfl | omega

theorem rasterClear_eq {fb : List UInt8} {w h : Int} (hw : 0 < w) (hh : 0 < h)
    (hlen : fb.length = w.toNat * h.toNat) (color : UInt8) :
    rasterClear fb w w h color = replicate (w.toNat * h.toNat) color := by
  rw [rasterClear, if_neg (by omega), foldl_memsetAt]
  refine ext_getElem (by simp [hlen]) fun k hk hk' => ?_
  rw [length_replicate] at hk'
  rw [getElem_mapIdx, getElem_replicate, if_pos]
  rwa [Nat.mul_comm]

end Blyt
