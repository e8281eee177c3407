import Blyt.NativeRegistry

/-!
# What a blit does

`blyt_raster_blit` clips the source to the destination and copies it row by row, from the
top, each row with one `memcpy`. Its purpose is pointwise: the pixel at `(i, j)` becomes the
source's pixel at `(i - x, j - y)` as it was before, if there is one (`BlitSpec`).

`Copied` is the loop's invariant: the rows done so far have the source's pixels, the others
are as before. It carries over a row as long as that row of the source still reads as it did
at the start. With two buffers it always does. With one buffer it does if the source row is
below the target row, or if source and target window do not meet; otherwise the loop reads
what it has written (`y > 0`) or copies a row onto itself (`y = 0`).
-/

namespace Blyt

open List

/-- The surface has as many pixels as its size says, and at least one. -/
structure Surface.Sized (f : Surface) : Prop where
  w : 0 < f.w
  h : 0 < f.h
  px : f.px.length = f.w.toNat * f.h.toNat

/-- The pixel in column `i` of row `j`. -/
def Surface.pixel (f : Surface) (i j : Int) : Option UInt8 :=
  if 0 ≤ i ∧ i < f.w ∧ 0 ≤ j ∧ j < f.h then f.px[j.toNat * f.w.toNat + i.toNat]? else none

/-- `out` is `d` with `s` copied to `(x, y)`. -/
def BlitSpec (d s : Surface) (x y : Int) (out : List UInt8) : Prop :=
  out.length = d.px.length ∧ ∀ i j, 0 ≤ i → i < d.w → 0 ≤ j → j < d.h →
    { d with px := out }.pixel i j
      = if 0 ≤ i - x ∧ i - x < s.w ∧ 0 ≤ j - y ∧ j - y < s.h then s.pixel (i - x) (j - y)
        else d.pixel i j

/-- The part of a surface that a blit onto itself reads meets the part that it writes. -/
def MeetsItself (w h x y : Int) : Prop :=
  (-w < 2 * x ∧ 2 * x < w) ∧ (-h < 2 * y ∧ 2 * y < h)

instance (w h x y : Int) : Decidable (MeetsItself w h x y) := inferInstanceAs (Decidable (_ ∧ _))

/-! ## Rows of a buffer -/

section Rows

variable {W : Nat} {i j r a n : Nat}

/-- A part of one row, among all pixels. -/
theorem row_mem_iff (hi : i < W) (ha : a + n ≤ W) :
    (r * W + a ≤ j * W + i ∧ j * W + i < r * W + a + n) ↔ j = r ∧ a ≤ i ∧ i < a + n := by
  constructor
  · rintro ⟨h1, h2⟩
    have hj : j = r := by
      rcases Nat.lt_trichotomy j r with hlt | heq | hgt
      · have := Nat.mul_le_mul_right W hlt
        rw [Nat.succ_mul] at this
        omega
      · exact heq
      · have := Nat.mul_le_mul_right W hgt
        rw [Nat.succ_mul] at this
        omega
    subst hj
    omega
  · rintro ⟨rfl, h1, h2⟩
    omega

theorem row_lt {H : Nat} (hi : i < W) (hj : j < H) : j * W + i < W * H := by
  have := Nat.mul_le_mul_right W hj
  rw [Nat.succ_mul, Nat.mul_comm H W] at this
  omega

theorem rows_apart {r' b : Nat} (hr : r ≠ r') (ha : a + n ≤ W) (hb : b + n ≤ W) :
    r * W + a + n ≤ r' * W + b ∨ r' * W + b + n ≤ r * W + a := by
  rcases Nat.lt_or_gt_of_ne hr with hlt | hgt
  · have := Nat.mul_le_mul_right W hlt
    rw [Nat.succ_mul] at this
    omega
  · have := Nat.mul_le_mul_right W hgt
    rw [Nat.succ_mul] at this
    omega

end Rows

theorem getElem?_memcpyAt {px src : List UInt8} {off soff n k : Nat} :
    (memcpyAt px off src soff n)[k]?
      = if off ≤ k ∧ k < off + n then px[k]?.map (fun _ => src.getD (soff + (k - off)) 0)
        else px[k]? := by
  rw [memcpyAt, getElem?_mapIdx]
  split_ifs
  · rfl
  · exact Option.map_id'

/-! ## The window that is copied -/

/-- The clipped window: its top left corner in the target and in the source, and its size. -/
structure BlitWindow where
  row : Nat
  col : Nat
  srow : Nat
  scol : Nat
  rows : Nat
  run : Nat

def blitWindow (d s : Surface) (x y : Int) : BlitWindow where
  row := (max y 0).toNat
  col := (max x 0).toNat
  srow := (max (-y) 0).toNat
  scol := (max (-x) 0).toNat
  rows := (min (y + s.h) d.h - max y 0).toNat
  run := (min (x + s.w) d.w - max x 0).toNat

def BlitWindow.Nonempty (v : BlitWindow) : Prop := 0 < v.rows ∧ 0 < v.run

instance (v : BlitWindow) : Decidable v.Nonempty := inferInstanceAs (Decidable (_ ∧ _))

/-- Where row `r` of the window goes to, where it comes from, and its length. -/
def BlitWindow.copy (v : BlitWindow) (W SW r : Nat) : Nat × Nat × Nat :=
  ((v.row + r) * W + v.col, (v.srow + r) * SW + v.scol, v.run)

variable {d s : Surface} {i : Fin surfaceMax}

theorem blitRows_eq (hd : d.Sized) (hs : s.Sized) (x y : Int) :
    blitRows d.w d.w d.h s.w s.w s.h x y
      = if (blitWindow d s x y).Nonempty then
          (range (blitWindow d s x y).rows).map ((blitWindow d s x y).copy d.w.toNat s.w.toNat)
        else [] := by
  have hneg : ∀ z : Int, (if z < 0 then -z else 0) = max (-z) 0 := fun z => by
    split_ifs <;> omega
  have hw := hd.w
  have hw' := hs.w
  have hh' := hs.h
  unfold blitRows
  rw [if_neg (by omega)]
  simp only [hneg]
  split
  · rw [if_neg (by simp only [BlitWindow.Nonempty, blitWindow]; omega)]
  · rw [if_pos (by simp only [BlitWindow.Nonempty, blitWindow]; omega)]
    rfl

theorem blitWindow_le {x y : Int} (h : (blitWindow d s x y).Nonempty) :
    (blitWindow d s x y).col + (blitWindow d s x y).run ≤ d.w.toNat
      ∧ (blitWindow d s x y).row + (blitWindow d s x y).rows ≤ d.h.toNat
      ∧ (blitWindow d s x y).scol + (blitWindow d s x y).run ≤ s.w.toNat
      ∧ (blitWindow d s x y).srow + (blitWindow d s x y).rows ≤ s.h.toNat := by
  simp only [BlitWindow.Nonempty, blitWindow] at h ⊢
  omega

/-! ## The loop -/

/-- The first `n` rows of the window have been copied from `src` as it was at the start. -/
def Copied (v : BlitWindow) (W SW : Nat) (d src : List UInt8) (n : Nat) (out : List UInt8) :
    Prop :=
  out.length = d.length ∧ ∀ i j, i < W → out[j * W + i]?
    = if v.col ≤ i ∧ i < v.col + v.run ∧ v.row ≤ j ∧ j < v.row + n then
        src[(v.srow + (j - v.row)) * SW + (v.scol + (i - v.col))]?
      else d[j * W + i]?

section Loop

variable {v : BlitWindow} {W SW : Nat} {d src cur out : List UInt8}

/-- One row, from a buffer that still has that row of the source. -/
theorem Copied.row {n : Nat} (h : Copied v W SW d src n out) (hW : v.col + v.run ≤ W)
    (hd : (v.row + n + 1) * W ≤ d.length)
    (hcur : ∀ k < v.run, ∃ b, src[(v.srow + n) * SW + (v.scol + k)]? = some b
      ∧ cur[(v.srow + n) * SW + (v.scol + k)]? = some b) :
    Copied v W SW d src (n + 1)
      (memcpyAt out (v.copy W SW n).1 cur (v.copy W SW n).2.1 (v.copy W SW n).2.2) := by
  obtain ⟨hlen, hpix⟩ := h
  refine ⟨(length_memcpyAt _ _ _ _ _).trans hlen, fun i j hi => ?_⟩
  rw [getElem?_memcpyAt]
  simp only [BlitWindow.copy, row_mem_iff hi hW]
  by_cases hrow : j = v.row + n ∧ v.col ≤ i ∧ i < v.col + v.run
  · obtain ⟨rfl, hlo, hhi⟩ := hrow
    obtain ⟨b, hb, hb'⟩ := hcur (i - v.col) (by omega)
    have hidx : (v.srow + n) * SW + v.scol + ((v.row + n) * W + i - ((v.row + n) * W + v.col))
        = (v.srow + n) * SW + (v.scol + (i - v.col)) := by omega
    have hin : (v.row + n) * W + i < out.length := by
      rw [Nat.succ_mul] at hd
      omega
    rw [if_pos ⟨rfl, hlo, hhi⟩, if_pos ⟨hlo, hhi, by omega, by omega⟩, hidx,
      getElem?_eq_getElem hin, getD_eq_getElem?_getD, hb',
      Nat.add_sub_cancel_left, hb]
    rfl
  · rw [if_neg hrow, hpix i j hi]
    exact if_congr (by omega) rfl rfl

theorem copied_zero (v : BlitWindow) (W SW : Nat) (d src : List UInt8) : Copied v W SW d src 0 d :=
  ⟨rfl, fun i j _ => (if_neg (by omega)).symm⟩

theorem Copied.foldl {step : List UInt8 → Nat → List UInt8}
    (hstep : ∀ n < v.rows, ∀ out, Copied v W SW d src n out →
      Copied v W SW d src (n + 1) (step out n)) :
    Copied v W SW d src v.rows ((range v.rows).foldl step d) := by
  have hall : ∀ n ≤ v.rows, Copied v W SW d src n ((range n).foldl step d) := by
    intro n
    induction n with
    | zero => exact fun _ => copied_zero v W SW d src
    | succ n ih =>
      intro hn
      rw [range_succ, foldl_append]
      exact hstep n hn _ (ih (by omega))
  exact hall v.rows le_rfl

end Loop

/-! ## The loop against the specification -/

section Spec

variable {d s : Surface} {x y : Int} {out : List UInt8}

theorem Surface.pixel_eq {f : Surface} {i j : Int} (hi : 0 ≤ i ∧ i < f.w)
    (hj : 0 ≤ j ∧ j < f.h) : f.pixel i j = f.px[j.toNat * f.w.toNat + i.toNat]? :=
  if_pos ⟨hi.1, hi.2, hj.1, hj.2⟩

/-- All rows of the window: what a blit is for. -/
theorem Copied.spec
    (h : Copied (blitWindow d s x y) d.w.toNat s.w.toNat d.px s.px (blitWindow d s x y).rows out) :
    BlitSpec d s x y out := by
  refine ⟨h.1, fun i j hi hi' hj hj' => ?_⟩
  rw [Surface.pixel_eq (f := { d with px := out }) ⟨hi, hi'⟩ ⟨hj, hj'⟩,
    Surface.pixel_eq ⟨hi, hi'⟩ ⟨hj, hj'⟩]
  refine (h.2 i.toNat j.toNat (by omega)).trans ?_
  by_cases hwin : 0 ≤ i - x ∧ i - x < s.w ∧ 0 ≤ j - y ∧ j - y < s.h
  · rw [if_pos hwin, if_pos (by simp only [blitWindow]; omega),
      Surface.pixel_eq ⟨hwin.1, hwin.2.1⟩ ⟨hwin.2.2.1, hwin.2.2.2⟩]
    have hrow : (blitWindow d s x y).srow
        + (j.toNat - (blitWindow d s x y).row) = (j - y).toNat := by
      simp only [blitWindow]
      omega
    have hcol : (blitWindow d s x y).scol
        + (i.toNat - (blitWindow d s x y).col) = (i - x).toNat := by
      simp only [blitWindow]
      omega
    rw [hrow, hcol]
  · rw [if_neg hwin, if_neg (by simp only [blitWindow]; omega)]

/-- Nothing is left of the source after clipping. -/
theorem blitSpec_empty (h : ¬ (blitWindow d s x y).Nonempty) : BlitSpec d s x y d.px := by
  refine ⟨rfl, fun i j hi hi' hj hj' => (if_neg fun hwin => h ?_).symm⟩
  simp only [BlitWindow.Nonempty, blitWindow]
  omega

variable {n : Nat}

/-- The source's row `n` of the window, in the source's buffer. -/
theorem blitWindow_src (hs : s.Sized) {k : Nat} (hn : n < (blitWindow d s x y).rows)
    (hk : k < (blitWindow d s x y).run) :
    ((blitWindow d s x y).srow + n) * s.w.toNat
      + ((blitWindow d s x y).scol + k) < s.px.length := by
  obtain ⟨-, -, hcol, hrow⟩ := blitWindow_le (d := d) (s := s) (x := x) (y := y)
    ⟨by omega, by omega⟩
  rw [hs.px]
  exact row_lt (by omega) (by omega)

/-- The target has room for row `n` of the window. -/
theorem blitWindow_dst (hd : d.Sized) (hv : (blitWindow d s x y).Nonempty)
    (hn : n < (blitWindow d s x y).rows) :
    ((blitWindow d s x y).row + n + 1) * d.w.toNat ≤ d.px.length := by
  obtain ⟨-, hrow, -, -⟩ := blitWindow_le hv
  rw [hd.px, Nat.mul_comm d.w.toNat]
  exact Nat.mul_le_mul_right _ (by omega)

/-- **Two surfaces.** -/
theorem rasterBlit_spec (hd : d.Sized) (hs : s.Sized) (x y : Int) :
    BlitSpec d s x y (rasterBlit d.px d.w d.w d.h s.px s.w s.w s.h x y) := by
  unfold rasterBlit
  rw [blitRows_eq hd hs]
  split_ifs with hv
  · rw [foldl_map]
    refine Copied.spec (Copied.foldl fun n hn out h => ?_)
    refine h.row (blitWindow_le hv).1 (blitWindow_dst hd hv hn) fun k hk => ?_
    have hlt := blitWindow_src hs hn hk
    exact ⟨_, getElem?_eq_getElem hlt, getElem?_eq_getElem hlt⟩
  · exact blitSpec_empty hv

end Spec

/-! ## One surface -/

section Self

variable {d : Surface} {x y : Int}

/-- In the window of a surface on itself, source and target differ by `(x, y)`. -/
theorem blitWindow_self (d : Surface) (x y : Int) :
    ((blitWindow d d x y).row : Int) - (blitWindow d d x y).srow = y
      ∧ ((blitWindow d d x y).col : Int) - (blitWindow d d x y).scol = x := by
  simp only [blitWindow]
  omega

/-- The `memcpy` of a row is defined, unless the row is copied onto itself. -/
theorem blitSelf_apart (hv : (blitWindow d d x y).Nonempty) (n : Nat)
    (h : y ≠ 0 ∨ ¬ MeetsItself d.w d.h x y) (hd : d.Sized) :
    let row := (blitWindow d d x y).copy d.w.toNat d.w.toNat n
    row.1 + row.2.2 ≤ row.2.1 ∨ row.2.1 + row.2.2 ≤ row.1 := by
  obtain ⟨hcol, -, hscol, -⟩ := blitWindow_le hv
  obtain ⟨hy, hx⟩ := blitWindow_self d x y
  have hh := hd.h
  simp only [BlitWindow.copy]
  by_cases hy0 : y = 0
  · have hsame : (blitWindow d d x y).row = (blitWindow d d x y).srow := by omega
    have hrun : (blitWindow d d x y).run ≤ x.natAbs := by
      have := h.resolve_left (not_not.mpr hy0)
      simp only [MeetsItself, blitWindow] at this ⊢
      omega
    rw [hsame]
    omega
  · exact rows_apart (by omega) hcol hscol

/-- **One surface, moved up or clear of itself.** -/
theorem rasterBlitSelf_spec (hd : d.Sized) (h : y < 0 ∨ ¬ MeetsItself d.w d.h x y) (c : RowCopy) :
    BlitSpec d d x y (rasterBlitSelf c d.px d.w d.w d.h x y) := by
  unfold rasterBlitSelf
  rw [blitRows_eq hd hd]
  split_ifs with hv
  · rw [foldl_map]
    refine Copied.spec (Copied.foldl fun n hn out hout => ?_)
    rw [c.apart _ _ _ _ (blitSelf_apart hv n (h.imp_left (by omega)) hd)]
    obtain ⟨-, -, hscol, -⟩ := blitWindow_le hv
    refine hout.row (blitWindow_le hv).1 (blitWindow_dst hd hv hn) fun k hk => ?_
    have hlt := blitWindow_src hd hn hk
    refine ⟨_, getElem?_eq_getElem hlt, ?_⟩
    -- this row of the source has not been written
    rw [hout.2 _ _ (by omega), if_neg, getElem?_eq_getElem hlt]
    simp only [MeetsItself, blitWindow] at *
    omega
  · exact blitSpec_empty hv

theorem memcpyAt_otherRow {W : Nat} {out cur : List UInt8} {r a b n i j : Nat} (hi : i < W)
    (ha : a + n ≤ W) (hj : j ≠ r) :
    (memcpyAt out (r * W + a) cur b n)[j * W + i]? = out[j * W + i]? := by
  rw [getElem?_memcpyAt, if_neg]
  rw [row_mem_iff hi ha]
  exact fun h => hj h.1

/-- One surface, moved down: the loop copies from rows that it has written already, so the
source of every pixel is the result itself. -/
theorem rasterBlitSelf_down (hd : d.Sized) (hy : 0 < y) (hv : (blitWindow d d x y).Nonempty)
    (c : RowCopy) :
    Copied (blitWindow d d x y) d.w.toNat d.w.toNat d.px (rasterBlitSelf c d.px d.w d.w d.h x y)
      (blitWindow d d x y).rows (rasterBlitSelf c d.px d.w d.w d.h x y) := by
  unfold rasterBlitSelf
  rw [blitRows_eq hd hd, if_pos hv, foldl_map]
  obtain ⟨hcol, -, hscol, -⟩ := blitWindow_le hv
  obtain ⟨hdiff, -⟩ := blitWindow_self d x y
  suffices hall : ∀ n ≤ (blitWindow d d x y).rows,
      Copied (blitWindow d d x y) d.w.toNat d.w.toNat d.px
        ((range n).foldl (fun fb r => c.copy fb ((blitWindow d d x y).copy d.w.toNat d.w.toNat r).1
          ((blitWindow d d x y).copy d.w.toNat d.w.toNat r).2.1
          ((blitWindow d d x y).copy d.w.toNat d.w.toNat r).2.2) d.px) n
        ((range n).foldl (fun fb r => c.copy fb ((blitWindow d d x y).copy d.w.toNat d.w.toNat r).1
          ((blitWindow d d x y).copy d.w.toNat d.w.toNat r).2.1
          ((blitWindow d d x y).copy d.w.toNat d.w.toNat r).2.2) d.px) from hall _ le_rfl
  intro n
  induction n with
  | zero => exact fun _ => copied_zero _ _ _ _ _
  | succ n ih =>
    intro hn
    have hout := ih (by omega)
    rw [range_succ, foldl_append, foldl_cons, foldl_nil,
      c.apart _ _ _ _ (blitSelf_apart hv n (.inl (by omega)) hd)]
    generalize (range n).foldl _ d.px = out at hout ⊢
    -- the rows that have been read, and the one read now, are above the one written
    have hkeep : ∀ i j, i < d.w.toNat → j < (blitWindow d d x y).row + n →
        (memcpyAt out ((blitWindow d d x y).copy d.w.toNat d.w.toNat n).1 out
          ((blitWindow d d x y).copy d.w.toNat d.w.toNat n).2.1
          ((blitWindow d d x y).copy d.w.toNat d.w.toNat n).2.2)[j * d.w.toNat + i]?
        = out[j * d.w.toNat + i]? :=
      fun i j hi hj => memcpyAt_otherRow hi hcol (by omega)
    refine Copied.row ⟨hout.1, fun i j hi => ?_⟩ hcol (blitWindow_dst hd hv hn) fun k hk => ?_
    · rw [hout.2 i j hi]
      split_ifs with hwin
      · exact (hkeep _ _ (by omega) (by omega)).symm
      · rfl
    · rw [hkeep _ _ (by omega) (by omega)]
      have hlt := blitWindow_src hd hn hk
      rw [← hout.1] at hlt
      exact ⟨_, getElem?_eq_getElem hlt, getElem?_eq_getElem hlt⟩

/-- A surface with one pixel set, in its first row. -/
def spotted (w h : Int) (c : Nat) : Surface :=
  ⟨w, h, (replicate (w.toNat * h.toNat) 0).set c 1⟩

variable {w h : Int}

theorem spotted_sized (hw : 0 < w) (hh : 0 < h) (c : Nat) : (spotted w h c).Sized :=
  ⟨hw, hh, by simp [spotted]⟩

/-- Moved down, a pixel of the first row comes up again two copies further down. -/
theorem rasterBlitSelf_down_not_spec (hw : 0 < w) (hh : 0 < h) (hy : 0 < y)
    (hm : MeetsItself w h x y) (c : RowCopy) :
    ∃ d : Surface, d.Sized ∧ d.w = w ∧ d.h = h
      ∧ ¬ BlitSpec d d x y (rasterBlitSelf c d.px w w h x y) := by
  obtain ⟨⟨hx1, hx2⟩, hy1, hy2⟩ := hm
  -- the column from which two steps stay inside
  set k : Nat := (max (-(2 * x)) 0).toNat with hk
  have hd := spotted_sized hw hh k
  have hv : (blitWindow (spotted w h k) (spotted w h k) x y).Nonempty := by
    simp only [BlitWindow.Nonempty, blitWindow, spotted]
    omega
  refine ⟨spotted w h k, hd, rfl, rfl, fun hspec => ?_⟩
  have hdown := (rasterBlitSelf_down hd hy hv c).2
  have hout := hspec.2 (k + 2 * x) (2 * y) (by omega) (by simp only [spotted]; omega) (by omega)
    (by simp only [spotted]; omega)
  rw [Surface.pixel_eq (by simp only [spotted]; omega) (by simp only [spotted]; omega),
    if_pos (by simp only [spotted]; omega),
    Surface.pixel_eq (by simp only [spotted]; omega) (by simp only [spotted]; omega)] at hout
  have hlen : k < w.toNat * h.toNat := by
    have := row_lt (W := w.toNat) (i := k) (j := 0) (H := h.toNat) (by omega) (by omega)
    omega
  -- the result: from `(k + 2x, 2y)` back to `(k + x, y)`, and from there to `(k, 0)`
  have h2 := hdown (k + 2 * x).toNat (2 * y).toNat (by simp only [spotted]; omega)
  rw [if_pos (by simp only [blitWindow, spotted]; omega)] at h2
  have h1 := hdown (k + x).toNat y.toNat (by simp only [spotted]; omega)
  rw [if_pos (by simp only [blitWindow, spotted]; omega)] at h1
  have h0 := hdown k 0 (by simp only [spotted]; omega)
  rw [if_neg (by simp only [blitWindow, spotted]; omega)] at h0
  have hi2 : (blitWindow (spotted w h k) (spotted w h k) x y).srow
      + ((2 * y).toNat - (blitWindow (spotted w h k) (spotted w h k) x y).row) = y.toNat
      ∧ (blitWindow (spotted w h k) (spotted w h k) x y).scol
      + ((k + 2 * x).toNat - (blitWindow (spotted w h k) (spotted w h k) x y).col)
        = (k + x).toNat := by
    simp only [blitWindow]
    omega
  have hi1 : (blitWindow (spotted w h k) (spotted w h k) x y).srow
      + (y.toNat - (blitWindow (spotted w h k) (spotted w h k) x y).row) = 0
      ∧ (blitWindow (spotted w h k) (spotted w h k) x y).scol
      + ((k + x).toNat - (blitWindow (spotted w h k) (spotted w h k) x y).col) = k := by
    simp only [blitWindow]
    omega
  rw [hi2.1, hi2.2, h1, hi1.1, hi1.2, h0] at h2
  -- what the specification asks for: the pixel at `(k + x, y)`, which was not set
  rw [show k + 2 * x - x = k + x by omega, show 2 * y - y = y by omega] at hout
  have hset : (spotted w h k).px[0 * (spotted w h k).w.toNat + k]? = some 1 := by
    simp [spotted, hlen]
  have hne : k ≠ y.toNat * w.toNat + (k + x).toNat := by
    have := Nat.mul_le_mul_right w.toNat (show 1 ≤ y.toNat by omega)
    omega
  have hclear : (spotted w h k).px[y.toNat * (spotted w h k).w.toNat + (k + x).toNat]?
      = some 0 := by
    have hlt := row_lt (W := w.toNat) (i := (k + x).toNat) (j := y.toNat) (H := h.toNat)
      (by omega) (by omega)
    simp only [spotted, getElem?_set_ne hne]
    rw [getElem?_replicate, if_pos hlt]
  rw [hclear] at hout
  rw [hset] at h2
  exact absurd (h2.symm.trans hout) (by decide)

/-- A `memcpy` that leaves a mess where its ranges meet. -/
def smear : RowCopy where
  copy px off soff n :=
    if off + n ≤ soff ∨ soff + n ≤ off then memcpyAt px off px soff n
    else replicate px.length 7
  length px off soff n := by
    split_ifs
    · exact length_memcpyAt _ _ _ _ _
    · exact length_replicate
  apart px off soff n h := if_pos h

/-- Moved sideways, each row is copied onto itself. -/
theorem rasterBlitSelf_level_not_spec (hw : 0 < w) (hh : 0 < h) (hm : MeetsItself w h x 0) :
    ∃ d : Surface, d.Sized ∧ d.w = w ∧ d.h = h
      ∧ ¬ BlitSpec d d x 0 (rasterBlitSelf smear d.px w w h x 0) := by
  obtain ⟨⟨hx1, hx2⟩, -⟩ := hm
  set d : Surface := ⟨w, h, replicate (w.toNat * h.toNat) 0⟩ with hdef
  have hd : d.Sized := ⟨hw, hh, length_replicate⟩
  have hv : (blitWindow d d x 0).Nonempty := by
    simp only [BlitWindow.Nonempty, blitWindow, hdef]
    omega
  have hmeet : ∀ n px, smear.copy px ((blitWindow d d x 0).copy w.toNat w.toNat n).1
      ((blitWindow d d x 0).copy w.toNat w.toNat n).2.1
      ((blitWindow d d x 0).copy w.toNat w.toNat n).2.2 = replicate px.length 7 := by
    intro n px
    have hsame : (blitWindow d d x 0).row = (blitWindow d d x 0).srow := by
      have := (blitWindow_self d x 0).1
      omega
    have hrun : x.natAbs < (blitWindow d d x 0).run := by
      simp only [blitWindow, hdef]
      omega
    have hcol := (blitWindow_self d x 0).2
    refine if_neg ?_
    simp only [BlitWindow.copy, hsame]
    omega
  have hall : ∀ n, (range (n + 1)).foldl (fun fb r => smear.copy fb
      ((blitWindow d d x 0).copy w.toNat w.toNat r).1
      ((blitWindow d d x 0).copy w.toNat w.toNat r).2.1
      ((blitWindow d d x 0).copy w.toNat w.toNat r).2.2) d.px
      = replicate d.px.length 7 := by
    intro n
    rw [range_succ, foldl_append, foldl_cons, foldl_nil, hmeet,
      length_foldl _ (fun px r => smear.length px _ _ _)]
  have hres : rasterBlitSelf smear d.px w w h x 0 = replicate d.px.length 7 := by
    obtain ⟨n, hn⟩ : ∃ n, (blitWindow d d x 0).rows = n + 1 := ⟨_, (Nat.succ_pred hv.1.ne').symm⟩
    unfold rasterBlitSelf
    rw [blitRows_eq hd hd, if_pos hv, foldl_map, hn]
    exact hall n
  refine ⟨d, hd, rfl, rfl, fun hspec => ?_⟩
  have hzero : ∀ i j : Int, 0 ≤ i ∧ i < w → 0 ≤ j ∧ j < h → d.pixel i j = some 0 := by
    intro i j hi hj
    rw [Surface.pixel_eq hi hj]
    simp only [hdef]
    rw [getElem?_replicate, if_pos (row_lt (by omega) (by omega))]
  have hpix := hspec.2 0 0 le_rfl hw le_rfl hh
  rw [hres, Surface.pixel_eq ⟨le_rfl, hw⟩ ⟨le_rfl, hh⟩] at hpix
  have hlen : 0 < d.px.length := by
    rw [hd.px]
    exact Nat.mul_pos (by simp only [hdef]; omega) (by simp only [hdef]; omega)
  have hseven : (replicate d.px.length (7 : UInt8))[(0 : Int).toNat * d.w.toNat
      + (0 : Int).toNat]? = some 7 := by
    rw [getElem?_replicate, if_pos (by simpa using hlen)]
  rw [hseven] at hpix
  split_ifs at hpix with hin
  · rw [hzero _ _ ⟨hin.1, hin.2.1⟩ ⟨hin.2.2.1, hin.2.2.2⟩] at hpix
    exact absurd hpix (by decide)
  · rw [hzero 0 0 ⟨le_rfl, hw⟩ ⟨le_rfl, hh⟩] at hpix
    exact absurd hpix (by decide)

end Self

/-! ## The specification, exactly -/

theorem blitRows_inside (hd : d.Sized) (hs : s.Sized) (x y : Int)
    {row : Nat × Nat × Nat} (hrow : row ∈ blitRows d.w d.w d.h s.w s.w s.h x y) :
    row.1 + row.2.2 ≤ d.px.length ∧ row.2.1 + row.2.2 ≤ s.px.length := by
  rw [blitRows_eq hd hs] at hrow
  split_ifs at hrow with hv
  · obtain ⟨n, hn, rfl⟩ := mem_map.mp hrow
    have hn' := mem_range.mp hn
    obtain ⟨hcol, -, -, -⟩ := blitWindow_le hv
    have hdst := blitWindow_dst hd hv hn'
    have hsrc := blitWindow_src hs hn' (Nat.sub_one_lt hv.2.ne')
    rw [Nat.succ_mul] at hdst
    simp only [BlitWindow.copy]
    omega
  · exact absurd hrow not_mem_nil

/-- **A blit copies inside the two buffers, and does what it is for between two surfaces. On
one surface of a given size it does so if it moves the surface up, or so far that what is
read and what is written do not meet, and not otherwise.** -/
theorem blit_spec_iff (x y : Int) :
    (∀ d s : Surface, d.Sized → s.Sized →
      (∀ row ∈ blitRows d.w d.w d.h s.w s.w s.h x y,
        row.1 + row.2.2 ≤ d.px.length ∧ row.2.1 + row.2.2 ≤ s.px.length)
      ∧ BlitSpec d s x y (rasterBlit d.px d.w d.w d.h s.px s.w s.w s.h x y))
    ∧ ∀ w h : Int, 0 < w → 0 < h →
      ((∀ (c : RowCopy) (d : Surface), d.Sized → d.w = w → d.h = h →
          BlitSpec d d x y (rasterBlitSelf c d.px d.w d.w d.h x y))
        ↔ y < 0 ∨ ¬ MeetsItself w h x y) := by
  refine ⟨fun d s hd hs => ⟨fun row hrow => blitRows_inside hd hs x y hrow,
    rasterBlit_spec hd hs x y⟩, fun w h hw hh => ⟨fun hall => ?_, ?_⟩⟩
  · by_contra hnot
    obtain ⟨hy, hm⟩ : 0 ≤ y ∧ MeetsItself w h x y := by
      push Not at hnot
      exact hnot
    rcases hy.lt_or_eq with hpos | hzero
    · obtain ⟨d, hd, rfl, rfl, hbad⟩ := rasterBlitSelf_down_not_spec hw hh hpos hm smear
      exact hbad (hall smear d hd rfl rfl)
    · subst hzero
      obtain ⟨d, hd, rfl, rfl, hbad⟩ := rasterBlitSelf_level_not_spec hw hh hm
      exact hbad (hall smear d hd rfl rfl)
  · rintro hcond c d hd rfl rfl
    exact rasterBlitSelf_spec hd hcond c

/-- A surface of three rows, moved down by one: the first row is in all three. -/
theorem blit_down_smears :
    (∀ c : RowCopy, rasterBlitSelf c [1, 2, 3] 1 1 3 0 1 = [1, 1, 1])
      ∧ ¬ BlitSpec ⟨1, 3, [1, 2, 3]⟩ ⟨1, 3, [1, 2, 3]⟩ 0 1 [1, 1, 1] := by
  have hrows : blitRows 1 1 3 1 1 3 0 1 = [(1, 0, 1), (2, 1, 1)] := by decide
  refine ⟨fun c => ?_, fun hspec => ?_⟩
  · rw [rasterBlitSelf, hrows, foldl_cons, foldl_cons, foldl_nil,
      c.apart _ 1 0 1 (.inr (by decide)), c.apart _ 2 1 1 (.inr (by decide))]
    decide
  · have hpix := hspec.2 0 2 (by decide) (by decide) (by decide) (by decide)
    exact absurd hpix (by decide)

/-! ## The call -/

theorem Registry.live_of_drawable {r : Registry} {handle : Nat} {d : Surface}
    (h : r.drawable handle = some (i, d)) : (r.slots i).live = some d := by
  unfold Registry.drawable Registry.find at h
  split at h
  · cases h
  · obtain ⟨k, -, hlive⟩ := Option.bind_eq_some_iff.mp (Option.filter_eq_some_iff.mp h).1
    obtain ⟨f, hf, heq⟩ := Option.map_eq_some_iff.mp hlive
    cases heq
    exact hf

theorem NativeLeg.Inv.live_sized {n : NativeLeg} (h : n.Inv) {d : Surface}
    (hlive : (n.abs.slots i).live = some d) : d.Sized := by
  obtain ⟨huse, heq⟩ := Option.ite_none_right_eq_some.mp hlive
  cases heq
  have harea := h.pool.area i huse
  unfold NativeLeg.area at harea
  refine ⟨?_, ?_, NativeLeg.length_load (h.pool.pixels_ne_null huse)⟩
  · exact Int.pos_iff_toNat_pos.mpr (Nat.pos_of_mul_pos_right harea)
  · exact Int.pos_iff_toNat_pos.mpr (Nat.pos_of_mul_pos_left harea)

/-- **`blyt_surface_blit` of the native runtime**, after any calls: where both handles may be
drawn on, the target gets the pixels it is meant to have and nothing else changes; otherwise
nothing changes at all. -/
theorem nativeRun_blit (c : RowCopy) (calls : List SurfaceCall) (dst src : Nat) (x y : Int) :
    let n := (traceOf (NativeLeg.step c) .start calls).1
    let after := (n.step c (.blit dst src x y)).1.abs
    (∀ i d j s, n.abs.drawable dst = some (i, d) → n.abs.drawable src = some (j, s) →
        (i ≠ j ∨ y < 0 ∨ ¬ MeetsItself d.w d.h x y) →
          ∃ out, BlitSpec d s x y out ∧ after = n.abs.paint i d out)
      ∧ (n.abs.drawable dst = none ∨ n.abs.drawable src = none → after = n.abs) := by
  intro n after
  have hinv : n.Inv := NativeLeg.nativeRun_inv c calls
  have hafter : after = n.abs.blit ⟨n.fits, c⟩ dst src x y :=
    congrArg Prod.fst (NativeLeg.step_abs hinv c (.blit dst src x y)).2
  rw [hafter, Registry.blit]
  constructor
  · intro i d j s hd hs hcond
    have hlive := Registry.live_of_drawable hd
    have hlive' := Registry.live_of_drawable hs
    rw [hd, hs]
    refine ⟨_, ?_, rfl⟩
    unfold Registry.blitted
    split_ifs with hij
    · subst hij
      obtain rfl := Option.some.inj (hlive.symm.trans hlive')
      exact rasterBlitSelf_spec (hinv.live_sized hlive) (hcond.resolve_left (not_not.mpr rfl)) c
    · exact rasterBlit_spec (hinv.live_sized hlive) (hinv.live_sized hlive') x y
  · rintro (hnone | hnone) <;> rw [hnone]
    cases n.abs.drawable dst <;> rfl

end Blyt
