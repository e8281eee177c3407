import Blyt.BlitSpec

/-!
# What the fills do

`blyt_raster_clear` and `blyt_raster_rect_fill` against their pointwise meaning, on
any buffer whose rows are `stride` bytes apart: which pixels get the colour, that
the other pixels keep theirs, and that the bytes between the end of a row and the
start of the next are not touched (`Canvas.Coloured`).

Both are loops of `memset`s; `foldl_paint` is the one induction for the two.
-/

namespace Blyt

/-- A buffer with its geometry: rows that do not overlap, all of them in the buffer. -/
structure Canvas where
  fb : List UInt8
  stride : Int
  width : Int
  height : Int
  stride_pos : 0 < stride
  width_le : width ≤ stride
  covers : ∀ i j : Int, 0 ≤ i → i < width → 0 ≤ j → j < height →
    j.toNat * stride.toNat + i.toNat < fb.length

namespace Canvas

def Inside (c : Canvas) (i j : Int) : Prop := 0 ≤ i ∧ i < c.width ∧ 0 ≤ j ∧ j < c.height

/-- The byte of a pixel. -/
def offset (c : Canvas) (i j : Int) : Nat := j.toNat * c.stride.toNat + i.toNat

/-- `out` is the buffer with the pixels of `P` in the colour, and nothing else changed. -/
structure Coloured (c : Canvas) (P : Int → Int → Prop) (color : UInt8) (out : List UInt8) :
    Prop where
  length : out.length = c.fb.length
  coloured : ∀ i j, c.Inside i j → P i j → out[c.offset i j]? = some color
  pixels : ∀ i j, c.Inside i j → ¬ P i j → out[c.offset i j]? = c.fb[c.offset i j]?
  between : ∀ k, (∀ i j, c.Inside i j → c.offset i j ≠ k) → out[k]? = c.fb[k]?

/-- The canvas of a buffer that has all its rows. -/
def ofRows (fb : List UInt8) (stride width height : Nat) (hpos : 0 < stride)
    (hwidth : width ≤ stride) (hrows : height * stride ≤ fb.length) : Canvas where
  fb := fb
  stride := stride
  width := width
  height := height
  stride_pos := Int.natCast_pos.mpr hpos
  width_le := Int.ofNat_le.mpr hwidth
  covers i j _ hi _ hj := by
    have hrow : (j.toNat + 1) * stride ≤ height * stride := Nat.mul_le_mul_right _ (by omega)
    rw [Nat.succ_mul] at hrow
    rw [Int.toNat_natCast]
    omega

variable {c : Canvas}

theorem offset_inj {i j i' j' : Int} (h : c.Inside i j) (h' : c.Inside i' j')
    (heq : c.offset i j = c.offset i' j') : i = i' ∧ j = j' := by
  obtain ⟨hi, hiw, hj, hjh⟩ := h
  obtain ⟨hi', hiw', hj', hjh'⟩ := h'
  have hw := c.width_le
  unfold offset at heq
  have hrow := (row_mem_iff (W := c.stride.toNat) (i := i.toNat) (j := j.toNat) (r := j'.toNat)
    (a := i'.toNat) (n := 1) (by omega) (by omega)).mp (by omega)
  omega

end Canvas

/-! ## Loops that paint -/

/-- What one step of a loop does to a byte: it is hit and gets the colour, or stays. -/
def Paints (color : UInt8) (hit : Nat → Prop) (fb out : List UInt8) : Prop :=
  ∀ k, (hit k → out[k]? = fb[k]?.map fun _ => color) ∧ (¬ hit k → out[k]? = fb[k]?)

/-- A loop hits what its steps hit. -/
theorem foldl_paint {α : Type} {f : List UInt8 → α → List UInt8} {hit : α → Nat → Prop}
    {color : UInt8} (hf : ∀ fb a, Paints color (hit a) fb (f fb a)) (as : List α)
    (fb : List UInt8) : Paints color (fun k => ∃ a ∈ as, hit a k) fb (as.foldl f fb) := by
  induction as generalizing fb with
  | nil => exact fun k => ⟨fun ⟨_, ha, _⟩ => absurd ha List.not_mem_nil, fun _ => rfl⟩
  | cons a as ih =>
    intro k
    obtain ⟨hlater, hkeep⟩ := ih (f fb a) k
    obtain ⟨hnow, hnot⟩ := hf fb a k
    rw [List.foldl_cons]
    by_cases hrest : ∃ a ∈ as, hit a k
    · obtain ⟨b, hb, hk⟩ := hrest
      refine ⟨fun _ => ?_, absurd ⟨b, List.mem_cons_of_mem a hb, hk⟩⟩
      rw [hlater ⟨b, hb, hk⟩]
      -- the byte may have been hit before
      by_cases hfirst : hit a k
      · rw [hnow hfirst, Option.map_map]
        rfl
      · rw [hnot hfirst]
    · rw [hkeep hrest]
      refine ⟨fun ⟨b, hb, hk⟩ => ?_, fun hno => hnot fun hk => hno ⟨a, List.mem_cons_self, hk⟩⟩
      rcases List.mem_cons.mp hb with rfl | hb
      · exact hnow hk
      · exact absurd ⟨b, hb, hk⟩ hrest

theorem paints_memsetAt (fb : List UInt8) (off n : Nat) (color : UInt8) :
    Paints color (fun k => off ≤ k ∧ k < off + n) fb (memsetAt fb off n color) := by
  intro k
  simp only [memsetAt, List.getElem?_mapIdx]
  constructor
  · intro hk
    simp only [if_pos hk]
  · intro hk
    simp only [if_neg hk, Option.map_id']

namespace Canvas

variable {c : Canvas}

/-- A loop that hits the bytes of the pixels of `P`. -/
theorem coloured_of_paints {P : Int → Int → Prop} {color : UInt8} {hit : Nat → Prop}
    {out : List UInt8} (hlen : out.length = c.fb.length) (h : Paints color hit c.fb out)
    (hhit : ∀ k, hit k ↔ ∃ i j, c.Inside i j ∧ P i j ∧ c.offset i j = k) :
    c.Coloured P color out where
  length := hlen
  coloured i j hin hP := by
    have hlt : c.offset i j < c.fb.length := c.covers i j hin.1 hin.2.1 hin.2.2.1 hin.2.2.2
    rw [(h _).1 ((hhit _).mpr ⟨i, j, hin, hP, rfl⟩), List.getElem?_eq_getElem hlt]
    rfl
  pixels i j hin hP := by
    refine (h _).2 fun hk => ?_
    obtain ⟨i', j', hin', hP', heq⟩ := (hhit _).mp hk
    obtain ⟨rfl, rfl⟩ := offset_inj hin' hin heq
    exact hP hP'
  between k hk := by
    refine (h k).2 fun hhit' => ?_
    obtain ⟨i, j, hin, -, heq⟩ := (hhit k).mp hhit'
    exact hk i j hin heq

theorem coloured_nothing {P : Int → Int → Prop} (hno : ∀ i j, c.Inside i j → ¬ P i j)
    (color : UInt8) : c.Coloured P color c.fb where
  length := rfl
  coloured i j hin hP := absurd hP (hno i j hin)
  pixels _ _ _ _ := rfl
  between _ _ := rfl

theorem window_hit_iff (x0 y0 x1 y1 : Int) (hx : 0 ≤ x0) (hy : 0 ≤ y0) (hx1 : x1 ≤ c.width)
    (hy1 : y1 ≤ c.height) (k : Nat) :
    (∃ r ∈ List.range (y1 - y0).toNat, (y0.toNat + r) * c.stride.toNat + x0.toNat ≤ k
        ∧ k < (y0.toNat + r) * c.stride.toNat + x0.toNat + (x1 - x0).toNat)
      ↔ ∃ i j, c.Inside i j ∧ (x0 ≤ i ∧ i < x1 ∧ y0 ≤ j ∧ j < y1) ∧ c.offset i j = k := by
  constructor
  · rintro ⟨r, hr, hlo, hhi⟩
    rw [List.mem_range] at hr
    have hj : (y0 + r).toNat = y0.toNat + r := by omega
    refine ⟨x0 + (k - ((y0.toNat + r) * c.stride.toNat + x0.toNat) : Nat), y0 + r,
      ⟨by omega, by omega, by omega, by omega⟩, ⟨by omega, by omega, by omega, by omega⟩, ?_⟩
    rw [offset, hj]
    omega
  · rintro ⟨i, j, -, ⟨hi, hi', hj, hj'⟩, rfl⟩
    have hrow : y0.toNat + (j - y0).toNat = j.toNat := by omega
    refine ⟨(j - y0).toNat, List.mem_range.mpr (by omega), ?_⟩
    rw [hrow, offset]
    omega

/-- **The rectangle.** The bounds are those of the integers: clipping to the buffer changes
nothing about a pixel that is in it, and `x + w` does not wrap. -/
theorem rectFill_coloured (c : Canvas) (x y w h : Int) (color : UInt8) :
    c.Coloured (fun i j => (x ≤ i ∧ i < x + w) ∧ y ≤ j ∧ j < y + h) color
      (rasterRectFill c.fb c.stride c.width c.height x y w h color) := by
  have hlen := length_rasterRectFill c.fb c.stride c.width c.height x y w h color
  have hstride := c.stride_pos
  unfold rasterRectFill at hlen ⊢
  by_cases hempty : c.stride ≤ 0 ∨ w ≤ 0 ∨ h ≤ 0
  · rw [if_pos hempty]
    exact coloured_nothing (fun i j _ hP => by omega) color
  rw [if_neg hempty] at hlen ⊢
  by_cases hclip : min (x + w) c.width ≤ max x 0 ∨ min (y + h) c.height ≤ max y 0
  · rw [if_pos hclip]
    exact coloured_nothing (fun i j ⟨hi, hiw, hj, hjh⟩ hP => by omega) color
  rw [if_neg hclip] at hlen ⊢
  refine coloured_of_paints hlen (foldl_paint (fun fb r => paints_memsetAt fb _ _ color) _ c.fb)
    fun k => ?_
  rw [window_hit_iff _ _ _ _ (by omega) (by omega) (by omega) (by omega)]
  refine exists_congr fun i => exists_congr fun j => and_congr_right fun ⟨hi, hiw, hj, hjh⟩ => ?_
  exact and_congr_left fun _ => by omega

/-- Two rows of three pixels, with one byte behind each. -/
def demoCanvas : Canvas :=
  ofRows [1, 2, 3, 4, 5, 6, 7, 8] 4 3 2 (by decide) (by decide) (by decide)

/-- A rectangle that hangs over three edges. -/
theorem rectFill_coloured_demo :
    demoCanvas.width < demoCanvas.stride
      ∧ demoCanvas.Coloured (fun i j => (1 ≤ i ∧ i < 1 + 2147483647) ∧ -1 ≤ j ∧ j < -1 + 2) 9
        [1, 9, 9, 4, 5, 6, 7, 8] := by
  have hfill : rasterRectFill demoCanvas.fb 4 3 2 1 (-1) 2147483647 2 9
      = [1, 9, 9, 4, 5, 6, 7, 8] := by decide
  exact ⟨by decide, hfill ▸ rectFill_coloured demoCanvas 1 (-1) 2147483647 2 9⟩

/-- A clear is the rectangle of all pixels. -/
theorem clear_coloured (c : Canvas) (color : UInt8) :
    c.Coloured (fun _ _ => True) color (rasterClear c.fb c.stride c.width c.height color) := by
  have hlen := length_rasterClear c.fb c.stride c.width c.height color
  have hstride := c.stride_pos
  unfold rasterClear at hlen ⊢
  by_cases hempty : c.width ≤ 0 ∨ c.height ≤ 0 ∨ c.stride ≤ 0
  · rw [if_pos hempty]
    exact coloured_nothing (fun i j ⟨hi, hiw, hj, hjh⟩ => by omega) color
  rw [if_neg hempty] at hlen ⊢
  refine coloured_of_paints hlen (foldl_paint (fun fb r => paints_memsetAt fb _ _ color) _ c.fb)
    fun k => ?_
  have hwindow := window_hit_iff 0 0 c.width c.height le_rfl le_rfl le_rfl le_rfl k
  simp only [Int.toNat_zero, Nat.zero_add, Nat.add_zero, Int.sub_zero] at hwindow
  rw [hwindow]
  refine exists_congr fun i => exists_congr fun j => and_congr_right fun ⟨hi, hiw, hj, hjh⟩ => ?_
  exact and_congr_left fun _ => iff_of_true ⟨hi, hiw, hj, hjh⟩ trivial

theorem clear_coloured_demo :
    demoCanvas.width < demoCanvas.stride
      ∧ demoCanvas.Coloured (fun _ _ => True) 9 [9, 9, 9, 4, 9, 9, 9, 8] := by
  have hclear : rasterClear demoCanvas.fb 4 3 2 9 = [9, 9, 9, 4, 9, 9, 9, 8] := by decide
  exact ⟨by decide, hclear ▸ clear_coloured demoCanvas 9⟩

end Canvas

end Blyt
