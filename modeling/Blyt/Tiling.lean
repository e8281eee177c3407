import Mathlib.Tactic

/-!
# Tilings of an interval by sized blocks

A heap that is walked by block sizes: block `o` covers `[o, o + sz o)`, and
the blocks in address order cover an interval without gap or overlap. The
list of starts is cut with `tiles_append` at the block an operation works on;
splitting, merging and appending a block are then edits of that list.
-/

namespace Blyt

/-- The blocks starting at `l`, in order, cover `[lo, hi)` exactly. -/
def Tiles (sz : Nat → Nat) : Nat → Nat → List Nat → Prop
  | lo, hi, [] => lo = hi
  | lo, hi, o :: l => o = lo ∧ 0 < sz o ∧ Tiles sz (lo + sz o) hi l

section Basic

variable {sz sz' : Nat → Nat} {lo hi : Nat} {l l₁ l₂ : List Nat}

theorem tiles_append :
    Tiles sz lo hi (l₁ ++ l₂) ↔ ∃ mid, Tiles sz lo mid l₁ ∧ Tiles sz mid hi l₂ := by
  induction l₁ generalizing lo with
  | nil => simp [Tiles]
  | cons o l ih => simp [Tiles, ih, and_assoc]

theorem tiles_congr (hsz : ∀ o ∈ l, sz' o = sz o) (h : Tiles sz lo hi l) : Tiles sz' lo hi l := by
  induction l generalizing lo with
  | nil => exact h
  | cons o l ih =>
    obtain ⟨rfl, hpos, hl⟩ := h
    have ho := hsz o (by simp)
    exact ⟨rfl, ho ▸ hpos, ho ▸ ih (fun x hx => hsz x (by simp [hx])) hl⟩

section

variable (h : Tiles sz lo hi l)
include h

theorem tiles_sum : lo + (l.map sz).sum = hi := by
  induction l generalizing lo with
  | nil => simpa [Tiles] using h
  | cons o l ih =>
    obtain ⟨rfl, -, hl⟩ := h
    have := ih hl
    simp only [List.map_cons, List.sum_cons]
    omega

theorem tiles_le : lo ≤ hi := by
  have := tiles_sum h
  omega

theorem tiles_unique {l' : List Nat} (h' : Tiles sz lo hi l') : l = l' := by
  induction l generalizing lo l' with
  | nil =>
    obtain rfl : lo = hi := h
    cases l' with
    | nil => rfl
    | cons =>
      obtain ⟨rfl, hpos, hl'⟩ := h'
      exact absurd (tiles_le hl') (by omega)
  | cons x l ih =>
    obtain ⟨rfl, hpos, hl⟩ := h
    cases l' with
    | nil =>
      obtain rfl : x = hi := h'
      exact absurd (tiles_le hl) (by omega)
    | cons =>
      obtain ⟨rfl, -, hl'⟩ := h'
      rw [ih hl hl']

theorem tiles_mem {o : Nat} (ho : o ∈ l) : lo ≤ o ∧ 0 < sz o ∧ o + sz o ≤ hi := by
  induction l generalizing lo with
  | nil => simp at ho
  | cons x l ih =>
    obtain ⟨rfl, hpos, hl⟩ := h
    rcases List.mem_cons.mp ho with rfl | ho
    · exact ⟨le_rfl, hpos, tiles_le hl⟩
    · obtain ⟨h1, h2, h3⟩ := ih hl ho
      exact ⟨by omega, h2, h3⟩

/-- Two blocks of a tiling are the same or apart. -/
theorem tiles_apart {x y : Nat} (hx : x ∈ l) (hy : y ∈ l)
    (hne : x ≠ y) : x + sz x ≤ y ∨ y + sz y ≤ x := by
  induction l generalizing lo with
  | nil => simp at hx
  | cons o l ih =>
    obtain ⟨rfl, -, hl⟩ := h
    rcases List.mem_cons.mp hx with rfl | hx' <;>
      rcases List.mem_cons.mp hy with rfl | hy'
    · exact absurd rfl hne
    · exact Or.inl (tiles_mem hl hy').1
    · exact Or.inr (tiles_mem hl hx').1
    · exact ih hl hx' hy'

theorem tiles_nodup : l.Nodup := by
  induction l generalizing lo with
  | nil => exact List.nodup_nil
  | cons o l ih =>
    obtain ⟨rfl, hpos, hl⟩ := h
    refine List.nodup_cons.mpr ⟨fun hm => ?_, ih hl⟩
    have := (tiles_mem hl hm).1
    omega

theorem tiles_dvd {d o : Nat} (hlo : d ∣ lo) (hd : ∀ x ∈ l, d ∣ sz x) (ho : o ∈ l) : d ∣ o := by
  induction l generalizing lo with
  | nil => simp at ho
  | cons x l ih =>
    obtain ⟨rfl, -, hl⟩ := h
    rcases List.mem_cons.mp ho with rfl | ho
    · exact hlo
    · exact ih hl (hlo.add (hd x (by simp))) (fun y hy => hd y (by simp [hy])) ho

theorem tiles_dvd_hi {d : Nat} (hlo : d ∣ lo) (hd : ∀ x ∈ l, d ∣ sz x) : d ∣ hi := by
  rw [← tiles_sum h]
  exact hlo.add (List.dvd_sum fun y hy => by
    obtain ⟨x, hx, rfl⟩ := List.mem_map.mp hy
    exact hd x hx)

theorem tiles_length {d : Nat} (hd : ∀ x ∈ l, d ≤ sz x) : lo + d * l.length ≤ hi := by
  induction l generalizing lo with
  | nil => exact le_of_eq (by simpa [Tiles] using h)
  | cons o l ih =>
    obtain ⟨rfl, -, hl⟩ := h
    have h1 := ih hl fun x hx => hd x (by simp [hx])
    have h2 := hd o (by simp)
    rw [List.length_cons, Nat.mul_succ]
    omega

end

end Basic

/-! ## Edits -/

section Edits

variable {sz sz' : Nat → Nat} {lo hi o : Nat} {l l₁ l₂ : List Nat}

/-- The block after `o`, unless `o` is the last one, starts where `o` ends. -/
theorem tiles_next (h : Tiles sz lo hi (l₁ ++ o :: l₂)) (hlt : o + sz o < hi) :
    ∃ l₃, l₂ = (o + sz o) :: l₃ := by
  obtain ⟨mid, -, rfl, -, h2⟩ := tiles_append.mp h
  cases l₂ with
  | nil =>
    have : o + sz o = hi := h2
    omega
  | cons p l₃ =>
    obtain ⟨rfl, -, -⟩ := h2
    exact ⟨l₃, rfl⟩

theorem tiles_split {n : Nat} (h : Tiles sz lo hi (l₁ ++ o :: l₂)) (hn : 0 < n) (hlt : n < sz o)
    (ho : sz' o = n) (htail : sz' (o + n) = sz o - n) (hkeep : ∀ x ∈ l₁ ++ l₂, sz' x = sz x) :
    Tiles sz' lo hi (l₁ ++ o :: (o + n) :: l₂) := by
  obtain ⟨mid, h1, rfl, -, h2⟩ := tiles_append.mp h
  refine tiles_append.mpr ⟨o, tiles_congr (fun x hx => hkeep x (by simp [hx])) h1,
    rfl, by omega, by rw [ho], by omega, ?_⟩
  have hend : o + sz' o + sz' (o + n) = o + sz o := by omega
  rw [hend]
  exact tiles_congr (fun x hx => hkeep x (by simp [hx])) h2

theorem tiles_merge {p : Nat} (h : Tiles sz lo hi (l₁ ++ o :: p :: l₂)) (ho : sz' o = sz o + sz p)
    (hkeep : ∀ x ∈ l₁ ++ l₂, sz' x = sz x) : Tiles sz' lo hi (l₁ ++ o :: l₂) := by
  obtain ⟨mid, h1, rfl, hpos, rfl, -, h2⟩ := tiles_append.mp h
  refine tiles_append.mpr ⟨o, tiles_congr (fun x hx => hkeep x (by simp [hx])) h1,
    rfl, by omega, ?_⟩
  have hend : o + sz' o = o + sz o + sz (o + sz o) := by omega
  rw [hend]
  exact tiles_congr (fun x hx => hkeep x (by simp [hx])) h2

theorem tiles_snoc {n : Nat} (h : Tiles sz lo hi l) (hn : 0 < n) (hhi : sz' hi = n)
    (hkeep : ∀ x ∈ l, sz' x = sz x) : Tiles sz' lo (hi + n) (l ++ [hi]) :=
  tiles_append.mpr ⟨hi, tiles_congr hkeep h, rfl, by omega, by simp [Tiles, hhi]⟩

end Edits

end Blyt
