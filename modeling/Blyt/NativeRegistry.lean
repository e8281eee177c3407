import Blyt.NativeSurface

/-!
# The native pool as a registry

`step_abs`: every call on the native pool does what a registry is for, with room for
16 MiB of surfaces created per frame. The invariant says where the pixels are: those
of the screen in the framebuffer, those of the others one behind the other in the
arena.
-/

namespace Blyt

open List Option Function Registry

namespace NativeLeg

/-! ## As a registry -/

def absSlot (n : NativeLeg) (s : NativeSlot) : RegSlot :=
  ⟨s.gen, s.lockGen, s.locked, if s.inUse then some ⟨s.w, s.h, n.load s⟩ else none⟩

/-- What the pool stands for once it is set up. -/
def absPool (n : NativeLeg) : Registry := ⟨n.phase, fun i => n.absSlot (n.surfaces i)⟩

def abs (n : NativeLeg) : Registry := n.nativeSurfacesInit.absPool

/-- The pixels of two slots do not overlap. -/
def Apart (s t : NativeSlot) : Prop :=
  match s.pixels, t.pixels with
  | .framebuffer, .arena _ => True
  | .arena _, .framebuffer => True
  | .arena a, .arena b => a + area s ≤ b ∨ b + area t ≤ a
  | _, _ => False

/-- The pixels of a slot are where they belong. -/
def Placed (bump : Nat) (i : Fin surfaceMax) (s : NativeSlot) : Prop :=
  match s.pixels with
  | .null => False
  | .framebuffer => i = 0 ∧ s.w = frameW ∧ s.h = frameH
  | .arena off => i ≠ 0 ∧ off + area s ≤ bump

structure Pool (n : NativeLeg) : Prop where
  ready : n.surfacesInit = true
  screen : (n.surfaces 0).inUse = true ∧ (n.surfaces 0).pixels = .framebuffer
  isScreen : ∀ i, (n.surfaces i).isScreen = true ↔ i = 0
  placed : ∀ i, (n.surfaces i).inUse = true → Placed n.surfaceBump i (n.surfaces i)
  area : ∀ i, (n.surfaces i).inUse = true → 0 < area (n.surfaces i)
  apart : ∀ i j, i ≠ j → (n.surfaces i).inUse = true → (n.surfaces j).inUse = true →
    Apart (n.surfaces i) (n.surfaces j)
  locked : ∀ i, (n.surfaces i).locked = true → (n.surfaces i).inUse = true
  bump : n.surfaceBump ≤ memBudgetBytes

/-- Before it is set up, nothing is locked. -/
structure Inv (n : NativeLeg) : Prop where
  unused : n.surfacesInit = false → ∀ i, (n.surfaces i).locked = false
  pool : n.nativeSurfacesInit.Pool

section Pixels

variable {n : NativeLeg} {s t : NativeSlot} {px : List UInt8}

theorem length_load (h : s.pixels ≠ .null) : (n.load s).length = area s := by
  unfold load
  cases hp : s.pixels with
  | null => exact absurd hp h
  | framebuffer | arena off => exact length_readGuest _ _ _

theorem load_store (h : s.pixels ≠ .null) (hlen : px.length = area s) :
    (n.store s px).load s = px := by
  unfold store load
  cases hp : s.pixels with
  | null => exact absurd hp h
  | framebuffer | arena off =>
    simp only [← hlen]
    exact readGuest_writeGuest _ _ _

theorem load_store_apart (h : Apart s t) (hlen : px.length = area s) :
    (n.store s px).load t = n.load t := by
  unfold Apart at h
  unfold store load
  cases hs : s.pixels with
  | null => rw [hs] at h
  | framebuffer =>
    cases ht : t.pixels with
    | arena => rfl
    | null => rfl
    | framebuffer =>
      rw [hs, ht] at h
      exact h.elim
  | arena =>
    cases ht : t.pixels with
    | framebuffer => rfl
    | null => rfl
    | arena =>
      rw [hs, ht] at h
      exact readGuest_writeGuest_apart (hlen ▸ h)

/-- The cart's store through a pointer, as a store of all pixels. -/
theorem poke_eq_store {off : Nat} (hoff : off < area s) (color : UInt8) :
    n.poke s off color = n.store s ((n.load s).set off color) := by
  unfold poke store load
  cases s.pixels with
  | null => rfl
  | framebuffer => rw [← writeGuest_byte _ hoff, Nat.zero_add]
  | arena => simp only [← writeGuest_byte _ hoff]

end Pixels

/-! ### Handles -/

section Handles

variable {n : NativeLeg}

section

variable (n : NativeLeg)

theorem nativeResolveSurface_eq (handle : Nat) :
    n.nativeResolveSurface handle = if n.phase ≠ .draw then none
      else slotOf .surface (fun i => (n.surfaces i).inUse) (fun i => (n.surfaces i).gen) handle :=
  rfl

def surf (n : NativeLeg) (i : Fin surfaceMax) : Surface :=
  ⟨(n.surfaces i).w, (n.surfaces i).h, n.load (n.surfaces i)⟩

theorem drawable_absPool (handle : Nat) :
    n.absPool.drawable handle = (n.nativeResolveDrawable handle).map fun i => (i, n.surf i) := by
  rw [drawable_eq_map (fun i => (n.surfaces i).inUse) n.surf fun i => rfl,
    nativeResolveDrawable, nativeResolveSurface_eq]
  show (if n.phase ≠ .draw then none else _) = _
  split_ifs
  · rfl
  · rfl

theorem findLock_absPool (token : Nat) : n.absPool.findLock token = n.tokenSlot token := rfl

theorem firstFree_absPool : n.absPool.firstFree
      = ((finRange surfaceMax).drop 1).find? fun i => !(n.surfaces i).inUse := by
  unfold firstFree
  congr 1
  funext i
  simp only [absPool, absSlot]
  cases (n.surfaces i).inUse <;> rfl

end

variable {i : Fin surfaceMax}

theorem tokenSlot_locked {token : Nat} (h : n.tokenSlot token = some i) :
    (n.surfaces i).locked = true := by
  rw [← findLock_absPool] at h
  exact (slotOf_eq_some.mp h).2.2.1

theorem resolve_inUse {handle : Nat} (h : n.nativeResolveSurface handle = some i) :
    (n.surfaces i).inUse = true ∧ dynDecodeIndex handle = i ∧ n.phase = .draw := by
  rw [nativeResolveSurface_eq] at h
  split_ifs at h with hdraw
  obtain ⟨-, hi, huse, -⟩ := slotOf_eq_some.mp h
  exact ⟨huse, hi, not_not.mp hdraw⟩

end Handles

/-! ### The calls, on a pool that is set up -/

section Calls

variable {n : NativeLeg} {i : Fin surfaceMax}

theorem absPool_set (n : NativeLeg) (i : Fin surfaceMax) (s : NativeSlot) :
    (n.set i s).absPool = n.absPool.set i (n.absSlot s) := by
  exact congrArg (Registry.mk n.phase) (comp_update n.absSlot n.surfaces i s)

theorem Pool.screen_placed (h : n.Pool) :
    (0 : Fin surfaceMax) = 0 ∧ (n.surfaces 0).w = frameW ∧ (n.surfaces 0).h = frameH := by
  have hplaced := h.placed 0 h.screen.1
  rwa [Placed, h.screen.2] at hplaced

theorem Pool.pixels_ne_null (h : n.Pool) (hi : (n.surfaces i).inUse = true) :
    (n.surfaces i).pixels ≠ .null := fun hnull => by
  have := h.placed i hi
  rw [Placed, hnull] at this
  exact this

theorem Pool.store (h : n.Pool) (s : NativeSlot) (px : List UInt8) : (n.store s px).Pool := by
  unfold NativeLeg.store
  cases s.pixels <;>
    exact ⟨h.ready, h.screen, h.isScreen, h.placed, h.area, h.apart, h.locked, h.bump⟩

theorem surfaces_store (n : NativeLeg) (s : NativeSlot) (px : List UInt8) :
    (n.store s px).surfaces = n.surfaces := by
  unfold NativeLeg.store
  cases s.pixels <;> rfl

theorem phase_store (n : NativeLeg) (s : NativeSlot) (px : List UInt8) :
    (n.store s px).phase = n.phase := by
  unfold NativeLeg.store
  cases s.pixels <;> rfl

/-- New pixels for one surface leave those of the others alone. -/
theorem Pool.absPool_store (h : n.Pool) (hi : (n.surfaces i).inUse = true) {px : List UInt8}
    (hlen : px.length = NativeLeg.area (n.surfaces i)) :
    (n.store (n.surfaces i) px).absPool = n.absPool.paint i (n.surf i) px := by
  have hslots : (fun j => (n.store (n.surfaces i) px).absSlot (n.surfaces j))
      = Function.update (fun j => n.absSlot (n.surfaces j)) i
        { n.absSlot (n.surfaces i) with live := some { n.surf i with px := px } } := by
    funext j
    by_cases hj : j = i
    · subst hj
      rw [update_self, absSlot, if_pos hi, load_store (h.pixels_ne_null hi) hlen]
      rfl
    · rw [update_of_ne hj, absSlot, absSlot]
      by_cases huse : (n.surfaces j).inUse = true
      · rw [load_store_apart (h.apart i j (Ne.symm hj) hi huse) hlen]
      · rw [if_neg huse, if_neg huse]
  rw [absPool, phase_store, surfaces_store]
  exact congrArg (Registry.mk n.phase) hslots

variable {s : NativeSlot}

theorem Apart.symm {t : NativeSlot} (h : Apart s t) : Apart t s := by
  unfold Apart at h ⊢
  cases hs : s.pixels <;> cases ht : t.pixels <;> rw [hs, ht] at h <;>
    first | exact h | exact h.symm

theorem Placed.mono {bump bump' : Nat} (hle : bump ≤ bump')
    (h : Placed bump i s) : Placed bump' i s := by
  unfold Placed at h ⊢
  cases hs : s.pixels <;> rw [hs] at h <;>
    first | exact h | exact ⟨h.1, h.2.trans hle⟩

/-- One slot changes, and the arena may be used further. -/
theorem Pool.update (h : n.Pool) {n' : NativeLeg}
    (hslots : n'.surfaces = Function.update n.surfaces i s)
    (hready : n'.surfacesInit = n.surfacesInit) (hbump : n.surfaceBump ≤ n'.surfaceBump)
    (hbump' : n'.surfaceBump ≤ memBudgetBytes)
    (hscreen : s.isScreen = true ↔ i = 0) (hzero : i = 0 → s.inUse = true ∧ s.pixels = .framebuffer)
    (hplaced : s.inUse = true → Placed n'.surfaceBump i s)
    (harea : s.inUse = true → 0 < NativeLeg.area s)
    (hapart : s.inUse = true → ∀ j, j ≠ i → (n.surfaces j).inUse = true → Apart s (n.surfaces j))
    (hlock : s.locked = true → s.inUse = true) : n'.Pool := by
  -- a statement about all slots is one about this slot and one about the others
  have hall : ∀ {p : Fin surfaceMax → NativeSlot → Prop}, p i s → (∀ j, p j (n.surfaces j)) →
      ∀ j, p j (n'.surfaces j) := fun hs hn => forall_of_update hslots hs fun j _ => hn j
  exact ⟨hready.trans h.ready,
    hall (p := fun j t => j = 0 → t.inUse = true ∧ t.pixels = .framebuffer) hzero
      (fun _ h0 => h0 ▸ h.screen) 0 rfl,
    hall (p := fun j t => t.isScreen = true ↔ j = 0) hscreen h.isScreen,
    hall (p := fun j t => t.inUse = true → Placed n'.surfaceBump j t) hplaced
      fun j hj => (h.placed j hj).mono hbump,
    hall (p := fun _ t => t.inUse = true → 0 < NativeLeg.area t) harea h.area,
    pairwise_of_update (P := fun t => t.inUse = true) hslots .symm h.apart hapart,
    hall (p := fun _ t => t.locked = true → t.inUse = true) hlock h.locked, hbump'⟩

/-- Only the screen is in use, and nothing is locked. -/
theorem Pool.of_screen (hready : n.surfacesInit = true) (hbump : n.surfaceBump ≤ memBudgetBytes)
    (hs : (n.surfaces 0).inUse = true ∧ (n.surfaces 0).pixels = .framebuffer)
    (hsize : (n.surfaces 0).w = frameW ∧ (n.surfaces 0).h = frameH)
    (hscreen : ∀ i, (n.surfaces i).isScreen = true ↔ i = 0)
    (hdead : ∀ i ≠ 0, (n.surfaces i).inUse = false) (hlock : ∀ i, (n.surfaces i).locked = false) :
    n.Pool := by
  have hzero : ∀ i, (n.surfaces i).inUse = true → i = 0 := fun i hi => by
    by_contra hne
    exact absurd ((hdead i hne).symm.trans hi) (by decide)
  refine ⟨hready, hs, hscreen, fun i hi => ?_, fun i hi => ?_, fun i j hij hi hj => ?_,
    fun i hi => absurd ((hlock i).symm.trans hi) (by decide), hbump⟩
  · obtain rfl := hzero i hi
    rw [Placed, hs.2]
    exact ⟨rfl, hsize⟩
  · obtain rfl := hzero i hi
    rw [NativeLeg.area, hsize.1, hsize.2]
    decide
  · exact absurd ((hzero i hi).trans (hzero j hj).symm) hij

/-- A slot may change its generations and its lock, and give up its surface. -/
theorem Pool.set (h : n.Pool) (hpixels : s.pixels = (n.surfaces i).pixels)
    (hw : s.w = (n.surfaces i).w) (hh : s.h = (n.surfaces i).h)
    (hscreen : s.isScreen = (n.surfaces i).isScreen)
    (huse : s.inUse = true → (n.surfaces i).inUse = true) (hzero : i = 0 → s.inUse = true)
    (hlock : s.locked = true → s.inUse = true) : (n.set i s).Pool := by
  have harea : NativeLeg.area s = NativeLeg.area (n.surfaces i) := by
    rw [NativeLeg.area, NativeLeg.area, hw, hh]
  refine h.update rfl rfl le_rfl h.bump ?_ (fun h0 => ⟨hzero h0, ?_⟩) (fun hu => ?_) (fun hu => ?_)
    (fun hu j hj hju => ?_) hlock
  · rw [hscreen]
    exact h.isScreen i
  · subst h0
    exact hpixels.trans h.screen.2
  · have := h.placed i (huse hu)
    unfold Placed at this ⊢
    rwa [hpixels, hw, hh, harea]
  · rw [harea]
    exact h.area i (huse hu)
  · have := h.apart i j (Ne.symm hj) (huse hu) hju
    unfold Apart at this ⊢
    rwa [hpixels, harea]

theorem init_of_ready (h : n.surfacesInit = true) : n.nativeSurfacesInit = n := if_pos h

theorem resolveDrawable_some {handle : Nat} (h : n.nativeResolveDrawable handle = some i) :
    (n.surfaces i).inUse = true ∧ (n.surfaces i).locked = false := by
  rw [nativeResolveDrawable, filter_eq_some_iff] at h
  exact ⟨(resolve_inUse h.1).1, by simpa using h.2⟩

section

variable (h : n.Pool)
include h

theorem Pool.destroy (handle : Nat) : (n.surfaceDestroy handle).Pool
      ∧ (n.surfaceDestroy handle).absPool = n.absPool.destroy handle := by
  rw [surfaceDestroy, init_of_ready h.ready, Registry.destroy, drawable_absPool]
  cases hr : n.nativeResolveDrawable handle with
  | none => exact ⟨h, rfl⟩
  | some i =>
    obtain ⟨huse, hlock⟩ := resolveDrawable_some hr
    simp only [map_some]
    by_cases hi : i = 0
    · rw [if_pos ((h.isScreen i).mpr hi), if_pos hi]
      exact ⟨h, rfl⟩
    · rw [if_neg (fun hs => hi ((h.isScreen i).mp hs)), if_neg hi]
      refine ⟨h.set rfl rfl rfl rfl (fun hu => by cases hu) (fun h0 => absurd h0 hi)
        (fun hl => ?_), ?_⟩
      · exact absurd (hlock.symm.trans hl) (by decide)
      · rw [absPool_set]
        simp only [free, absPool, absSlot, huse]
        rfl

theorem Pool.draw (dst : Nat) (op : DrawOp) : (n.surfaceDraw dst op).1.Pool
      ∧ ((n.surfaceDraw dst op).1.absPool, (n.surfaceDraw dst op).2) = n.absPool.draw dst op := by
  rw [surfaceDraw, init_of_ready h.ready, Registry.draw, drawable_absPool]
  cases hr : n.nativeResolveDrawable dst with
  | none => exact ⟨h, rfl⟩
  | some i =>
    obtain ⟨huse, -⟩ := resolveDrawable_some hr
    simp only [map_some, surf]
    cases hp : op.paint (n.load (n.surfaces i)) (n.surfaces i).w (n.surfaces i).h with
    | none => exact ⟨h, rfl⟩
    | some =>
      refine ⟨h.store _ _, Prod.ext (h.absPool_store huse ?_) rfl⟩
      rw [DrawOp.length_paint hp, length_load (h.pixels_ne_null huse)]

/-- Different slots have different pointers. -/
theorem Pool.pixels_inj {j : Fin surfaceMax} (hi : (n.surfaces i).inUse = true)
    (hj : (n.surfaces j).inUse = true) : (n.surfaces i).pixels = (n.surfaces j).pixels ↔ i = j := by
  refine ⟨fun heq => ?_, fun heq => by rw [heq]⟩
  by_contra hne
  have hapart := h.apart i j hne hi hj
  have hai := h.area i hi
  have haj := h.area j hj
  unfold Apart at hapart
  rw [heq] at hapart
  cases hp : (n.surfaces j).pixels <;> rw [hp] at hapart <;>
    first | exact hapart | omega

theorem Pool.blit (c : RowCopy) (g : Gates) (hg : g.copy = c) (dst src : Nat)
    (x y : Int) : (n.surfaceBlit c dst src x y).Pool
      ∧ (n.surfaceBlit c dst src x y).absPool = n.absPool.blit g dst src x y := by
  rw [surfaceBlit, init_of_ready h.ready, Registry.blit, drawable_absPool, drawable_absPool]
  cases hd : n.nativeResolveDrawable dst with
  | none => exact ⟨h, rfl⟩
  | some i =>
    cases hs : n.nativeResolveDrawable src with
    | none => exact ⟨h, rfl⟩
    | some j =>
      obtain ⟨hi, -⟩ := resolveDrawable_some hd
      obtain ⟨hj, -⟩ := resolveDrawable_some hs
      have hpx : (if (n.surfaces i).pixels = (n.surfaces j).pixels then
          rasterBlitSelf c (n.load (n.surfaces i)) (n.surfaces i).w (n.surfaces i).w
            (n.surfaces i).h x y
          else rasterBlit (n.load (n.surfaces i)) (n.surfaces i).w (n.surfaces i).w (n.surfaces i).h
            (n.load (n.surfaces j)) (n.surfaces j).w (n.surfaces j).w (n.surfaces j).h x y)
          = blitted g.copy i j (n.surf i) (n.surf j) x y := by
        rw [blitted, hg]
        simp only [h.pixels_inj hi hj, surf]
      simp only [map_some]
      rw [hpx]
      exact ⟨h.store _ _, h.absPool_store hi
        ((length_blitted _ _ _ _ _ _ _).trans (length_load (h.pixels_ne_null hi)))⟩

def fresh (n : NativeLeg) (i : Fin surfaceMax) (w h : Int) : NativeSlot :=
  { n.surfaces i with pixels := .arena n.surfaceBump, w := w, h := h, inUse := true,
                      isScreen := false }

/-- It lies behind all others in the arena. -/
theorem Pool.occupy {w ht : Int} (hbad : ¬ BadSize w ht)
    (hfit : n.surfaceBump + slotArea w ht ≤ memBudgetBytes)
    (hfree : ((finRange surfaceMax).drop 1).find? (fun i => !(n.surfaces i).inUse) = some i) :
    let n₁ := { n with surfaceBump := u32 (n.surfaceBump + slotArea w ht) }
    let n2 := n₁.store (n.fresh i w ht) (rasterClear (n₁.load (n.fresh i w ht)) w w ht 0)
    (n2.set i (n.fresh i w ht)).Pool
      ∧ ((n2.set i (n.fresh i w ht)).absPool,
          SurfaceAnswer.handle (surfaceEncode (n.surfaces i).gen i))
        = (n.absPool.set i { n.absPool.slots i with
            live := some ⟨w, ht, replicate (w.toNat * ht.toNat) 0⟩ },
          .handle (surfaceEncode (n.absPool.slots i).gen i)) := by
  intro n₁ n2
  simp only [BadSize, not_or, not_le, not_lt] at hbad
  obtain ⟨hw, hh, hw', hh'⟩ := hbad
  have hslot := slotArea_eq hw hw' hh hh'
  have hpos : 0 < w.toNat * ht.toNat := Nat.mul_pos (by omega) (by omega)
  have hbump : n2.surfaceBump = n.surfaceBump + w.toNat * ht.toNat := by
    have hu : u32 (n.surfaceBump + slotArea w ht) = n.surfaceBump + w.toNat * ht.toNat := by
      rw [u32_of_lt (hfit.trans_lt (by norm_num [memBudgetBytes])), hslot]
    exact hu
  have hi : i ≠ 0 := by
    rintro rfl
    exact absurd (mem_of_find?_eq_some hfree) (by decide)
  have hnot : (n.surfaces i).inUse = false := by simpa using find?_some hfree
  have hapart : ∀ j, j ≠ i → (n.surfaces j).inUse = true →
      Apart (n.fresh i w ht) (n.surfaces j) := by
    intro j _ hj
    have hplaced := h.placed j hj
    unfold Placed at hplaced
    unfold Apart
    cases hp : (n.surfaces j).pixels with
    | null =>
      rw [hp] at hplaced
      exact hplaced.elim
    | framebuffer => trivial
    | arena =>
      rw [hp] at hplaced
      exact Or.inr hplaced.2
  have hlen : (rasterClear (n₁.load (n.fresh i w ht)) w w ht 0).length
      = NativeLeg.area (n.fresh i w ht) :=
    (length_rasterClear _ _ _ _ _).trans (length_load (by simp [fresh]))
  refine ⟨?_, Prod.ext ?_ rfl⟩
  · refine h.update rfl rfl ?_ ?_ ?_ (fun h0 => absurd h0 hi)
      (fun _ => ⟨hi, ?_⟩) (fun _ => hpos) (fun _ => hapart) (fun _ => rfl)
    · show n.surfaceBump ≤ n2.surfaceBump
      omega
    · show n2.surfaceBump ≤ memBudgetBytes
      omega
    · exact iff_of_false (by simp [fresh]) hi
    · show n.surfaceBump + w.toNat * ht.toNat ≤ n2.surfaceBump
      omega
  · -- the other surfaces are where they were
    have hrest : n2.absPool = n.absPool := by
      refine congrArg (Registry.mk n.phase) (funext fun j => ?_)
      show n2.absSlot (n.surfaces j) = n.absSlot (n.surfaces j)
      rw [absSlot, absSlot]
      by_cases hj : (n.surfaces j).inUse = true
      · have hne : j ≠ i := fun heq => absurd (hnot.symm.trans (heq ▸ hj)) (by decide)
        rw [load_store_apart (hapart j hne hj) hlen]
        rfl
      · rw [if_neg hj, if_neg hj]
    have hnew : n2.absSlot (n.fresh i w ht) = { n.absPool.slots i with
        live := some ⟨w, ht, replicate (w.toNat * ht.toNat) 0⟩ } := by
      rw [absSlot, load_store (by simp [fresh]) hlen,
        rasterClear_eq hw hh (length_load (by simp [fresh]))]
      rfl
    rw [absPool_set, hrest, hnew]

/-- A new surface lies behind all others in the arena. -/
theorem Pool.create {g : Gates}
    (hg : ∀ w ht, g.fits w ht = decide (n.surfaceBump + slotArea w ht ≤ memBudgetBytes))
    (w ht : Int) :
    (n.surfaceCreate w ht).1.Pool
      ∧ ((n.surfaceCreate w ht).1.absPool, (n.surfaceCreate w ht).2) = n.absPool.create g w ht := by
  rw [surfaceCreate, init_of_ready h.ready, Registry.create, firstFree_absPool, hg]
  simp only [show n.absPool.phase = n.phase from rfl]
  by_cases hdraw : n.phase = .draw
  · by_cases hbad : BadSize w ht
    · rw [if_neg (not_not.mpr hdraw), if_pos hbad, if_pos (Or.inr (Or.inl hbad))]
      exact ⟨h, rfl⟩
    by_cases hfit : n.surfaceBump + slotArea w ht ≤ memBudgetBytes
    · rw [if_neg (not_not.mpr hdraw), if_neg hbad, if_neg (Nat.not_lt.mpr hfit),
        if_neg (by simp [hdraw, hbad, hfit])]
      cases hfree : ((finRange surfaceMax).drop 1).find? fun i => !(n.surfaces i).inUse with
      | none => exact ⟨h, rfl⟩
      | some => exact h.occupy hbad hfit hfree
    · rw [if_neg (not_not.mpr hdraw), if_neg hbad, if_pos (Nat.lt_of_not_le hfit),
        if_pos (Or.inr (Or.inr (decide_eq_false hfit)))]
      exact ⟨h, rfl⟩
  · rw [if_pos hdraw, if_pos (Or.inl hdraw)]
    exact ⟨h, rfl⟩

theorem Pool.acquire (handle : Nat) : (n.surfaceAcquire handle).1.Pool
      ∧ ((n.surfaceAcquire handle).1.absPool, (n.surfaceAcquire handle).2)
        = n.absPool.acquire handle := by
  rw [surfaceAcquire, init_of_ready h.ready, Registry.acquire, drawable_absPool,
    nativeResolveDrawable]
  cases hr : n.nativeResolveSurface handle with
  | none => exact ⟨h, rfl⟩
  | some i =>
    obtain ⟨huse, hidx, -⟩ := resolve_inUse hr
    cases hl : (n.surfaces i).locked with
    | true =>
      simp only [filter_some, hl, Bool.not_true, if_true]
      exact ⟨h, rfl⟩
    | false =>
      simp only [filter_some, hl, Bool.not_false, if_true, map_some, Bool.false_eq_true, if_false]
      refine ⟨h.set rfl rfl rfl rfl (fun _ => huse) (fun _ => huse) (fun _ => huse), Prod.ext ?_ ?_⟩
      · rw [absPool_set]
        rfl
      · simp only [hidx]
        rfl

theorem Pool.write (token off : Nat) (color : UInt8) : (n.lockWrite token off color).Pool
      ∧ (n.lockWrite token off color).absPool = n.absPool.write token off color := by
  rw [lockWrite, Registry.write, findLock_absPool]
  cases ht : n.tokenSlot token with
  | none => exact ⟨h, rfl⟩
  | some i =>
    have hlock := tokenSlot_locked ht
    have huse := h.locked i hlock
    have hlive : (n.absPool.slots i).live = some (n.surf i) := if_pos huse
    have hlen : (n.load (n.surfaces i)).length = NativeLeg.area (n.surfaces i) :=
      length_load (h.pixels_ne_null huse)
    simp only [hlive, surf, hlen]
    split <;> rename_i hoff
    · rw [poke_eq_store hoff]
      exact ⟨h.store _ _, h.absPool_store huse (by rw [length_set, hlen])⟩
    · exact ⟨h, rfl⟩

theorem Pool.release (token : Nat) : (n.surfaceRelease token).Pool
      ∧ (n.surfaceRelease token).absPool = n.absPool.release token := by
  rw [surfaceRelease, Registry.release, findLock_absPool]
  cases ht : n.tokenSlot token with
  | none => exact ⟨h, rfl⟩
  | some i =>
    have hlock := tokenSlot_locked ht
    have huse := h.locked i hlock
    refine ⟨h.set rfl rfl rfl rfl (fun _ => huse) (fun _ => huse) (fun hl => by cases hl), ?_⟩
    simp only
    rw [absPool_set, unlock, if_pos (show (n.absPool.slots i).locked = true from hlock)]
    rfl

end

theorem absSlot_unlockSlot (n : NativeLeg) (s : NativeSlot) :
    n.absSlot (unlockSlot s) = unlock (n.absSlot s) := by
  rw [unlockSlot]
  split <;> rename_i hl
  · rw [unlock, if_pos (show (n.absSlot s).locked = true from hl)]
    rfl
  · rw [unlock, if_neg (show ¬ (n.absSlot s).locked = true from hl)]

theorem absSlot_freeSlot (n : NativeLeg) (s : NativeSlot) :
    n.absSlot (freeSlot s) = free (n.absSlot s) := by
  rw [freeSlot]
  split <;> rename_i hu
  · rw [absSlot, absSlot, if_pos hu]
    rfl
  · rw [absSlot, if_neg hu]
    rfl

theorem Pool.reap (h : n.Pool) :
    n.gfxReapSurfaces.Pool ∧ n.gfxReapSurfaces.absPool = n.absPool.reap := by
  rw [gfxReapSurfaces, init_of_ready h.ready]
  have hdead : ∀ s : NativeSlot, (freeSlot s).inUse = false := fun s => by
    unfold freeSlot
    split_ifs with hu
    · rfl
    · simpa using hu
  have hfields : ∀ s : NativeSlot, (unlockSlot s).locked = false
      ∧ (unlockSlot s).pixels = s.pixels ∧ (unlockSlot s).inUse = s.inUse
      ∧ (unlockSlot s).isScreen = s.isScreen ∧ (unlockSlot s).w = s.w
      ∧ (unlockSlot s).h = s.h := fun s => by
    unfold unlockSlot
    split_ifs with hl
    · exact ⟨rfl, rfl, rfl, rfl, rfl, rfl⟩
    · exact ⟨by simpa using hl, rfl, rfl, rfl, rfl, rfl⟩
  have hkept : ∀ s : NativeSlot, (freeSlot s).isScreen = s.isScreen
      ∧ (freeSlot s).locked = s.locked := fun s => by
    unfold freeSlot
    split_ifs <;> exact ⟨rfl, rfl⟩
  obtain ⟨-, hpix, huse, -, hw, hh⟩ := hfields (n.surfaces 0)
  obtain ⟨-, hw', hh'⟩ := h.screen_placed
  refine ⟨.of_screen h.ready (Nat.zero_le _) ⟨huse.trans h.screen.1, hpix.trans h.screen.2⟩
    ⟨hw.trans hw', hh.trans hh'⟩ (fun i => ?_) (fun i hi => ?_) fun i => ?_, ?_⟩
  · rw [← h.isScreen i]
    simp only
    split_ifs
    · rw [(hfields _).2.2.2.1]
    · rw [(hkept _).1, (hfields _).2.2.2.1]
  · simp only [if_neg hi, hdead]
  · simp only
    split_ifs
    · exact (hfields _).1
    · exact (hkept _).2.trans (hfields _).1
  · refine congrArg (Registry.mk n.phase) (funext fun i => ?_)
    show n.absSlot (if i = 0 then _ else _) = if i = 0 then _ else _
    split_ifs
    · exact absSlot_unlockSlot n _
    · rw [absSlot_freeSlot, absSlot_unlockSlot]
      rfl

end Calls

/-! ### The calls, from the start on -/

/-- What is left of the arena in this frame. -/
def fits (n : NativeLeg) (w h : Int) : Bool :=
  decide (n.surfaceBump + slotArea w h ≤ memBudgetBytes)

section Run

variable {n : NativeLeg}

theorem Inv.of_pool (h : n.Pool) : n.Inv := by
  refine ⟨fun hinit => absurd (h.ready.symm.trans hinit) (by decide), ?_⟩
  rwa [init_of_ready h.ready]

theorem abs_of_ready (h : n.surfacesInit = true) : n.abs = n.absPool := by
  rw [NativeLeg.abs, init_of_ready h]

theorem init_idem (n : NativeLeg) :
    n.nativeSurfacesInit.nativeSurfacesInit = n.nativeSurfacesInit := by
  refine init_of_ready ?_
  unfold nativeSurfacesInit
  split_ifs with h
  · exact h
  · rfl

theorem init_phase (n : NativeLeg) (p : Phase) :
    ({ n with phase := p } : NativeLeg).nativeSurfacesInit
      = { n.nativeSurfacesInit with phase := p } := by
  unfold nativeSurfacesInit
  split_ifs
  · rfl
  · rfl

/-- A pool that is not set up has given out no token. -/
theorem Inv.no_token (h : n.Inv) (hinit : n.surfacesInit = false) (token : Nat) :
    n.tokenSlot token = none ∧ n.abs.findLock token = none := by
  have hnone : n.tokenSlot token = none := by
    cases ht : n.tokenSlot token with
    | none => rfl
    | some i => exact absurd ((h.unused hinit i).symm.trans (tokenSlot_locked ht)) (by decide)
  have hslots : ∀ i, (n.nativeSurfacesInit.surfaces i).locked = (n.surfaces i).locked
      ∧ (n.nativeSurfacesInit.surfaces i).lockGen = (n.surfaces i).lockGen := by
    intro i
    unfold nativeSurfacesInit
    rw [if_neg (by rw [hinit]; decide)]
    by_cases hi : i = 0
    · subst hi
      simp [NativeLeg.set]
    · simp [NativeLeg.set, update_of_ne hi]
  refine ⟨hnone, ?_⟩
  rw [← hnone]
  show slotOf _ (fun i => (n.nativeSurfacesInit.surfaces i).locked)
    (fun i => (n.nativeSurfacesInit.surfaces i).lockGen) token = _
  simp only [hslots]
  rfl

theorem Inv.of_init {f : NativeLeg → NativeLeg × SurfaceAnswer} (hf : f n.nativeSurfacesInit = f n)
    {r : Registry × SurfaceAnswer} (hpool : (f n.nativeSurfacesInit).1.Pool
      ∧ ((f n.nativeSurfacesInit).1.absPool, (f n.nativeSurfacesInit).2) = r) :
    (f n).1.Inv ∧ ((f n).1.abs, (f n).2) = r := by
  rw [hf] at hpool
  refine ⟨.of_pool hpool.1, ?_⟩
  rw [abs_of_ready hpool.1.ready]
  exact hpool.2

theorem Inv.of_token (h : n.Inv) {n' : NativeLeg} {f : Registry → Registry} (token : Nat)
    (hpool : n.Pool → n'.Pool ∧ n'.absPool = f n.absPool)
    (hsame : n.tokenSlot token = none → n' = n)
    (hf : ∀ r : Registry, r.findLock token = none → f r = r) :
    n'.Inv ∧ (n'.abs, SurfaceAnswer.done) = (f n.abs, .done) := by
  cases hinit : n.surfacesInit with
  | true =>
    have hp := h.pool
    rw [init_of_ready hinit] at hp
    obtain ⟨hp', habs⟩ := hpool hp
    rw [abs_of_ready hinit]
    exact ⟨.of_pool hp', Prod.ext ((abs_of_ready hp'.ready).trans habs) rfl⟩
  | false =>
    obtain ⟨hn, ha⟩ := h.no_token hinit token
    rw [hsame hn, hf _ ha]
    exact ⟨h, rfl⟩

theorem Pool.screen_eq (h : n.Pool) :
    readGuest n.framebuffer 0 (frameW.toNat * frameH.toNat) = n.absPool.screen := by
  obtain ⟨-, hw, hh⟩ := h.screen_placed
  show _ = ((n.absSlot (n.surfaces 0)).live).elim [] Surface.px
  rw [absSlot, if_pos h.screen.1, elim_some, load, h.screen.2, NativeLeg.area, hw, hh]

/-- **Step lemma.** Every call does what a registry is for. -/
theorem step_abs (h : n.Inv) (c : RowCopy) (call : SurfaceCall) :
    (n.step c call).1.Inv
      ∧ ((n.step c call).1.abs, (n.step c call).2) = n.abs.step ⟨n.fits, c⟩ call := by
  have hpool := h.pool
  have hidem := init_idem n
  have hbump : n.nativeSurfacesInit.surfaceBump = n.surfaceBump := by
    unfold nativeSurfacesInit
    split_ifs <;> rfl
  cases call with
  | phase p =>
    refine ⟨⟨h.unused, ?_⟩, ?_⟩
    · show Pool (nativeSurfacesInit { n with phase := p })
      rw [init_phase]
      exact ⟨hpool.ready, hpool.screen, hpool.isScreen, hpool.placed, hpool.area, hpool.apart,
        hpool.locked, hpool.bump⟩
    · show (absPool (nativeSurfacesInit { n with phase := p }), _) = _
      rw [init_phase]
      rfl
  | create w ht =>
    refine Inv.of_init (f := fun n => n.surfaceCreate w ht) ?_ (hpool.create (fun w ht => ?_) w ht)
    · simp only [surfaceCreate, hidem]
    · simp only [fits, hbump]
  | destroy handle =>
    refine Inv.of_init (f := fun n => (n.surfaceDestroy handle, .done)) ?_ ?_
    · simp only [surfaceDestroy, hidem]
    · exact ⟨(hpool.destroy handle).1, Prod.ext (hpool.destroy handle).2 rfl⟩
  | draw dst op =>
    refine Inv.of_init (f := fun n => n.surfaceDraw dst op) ?_ (hpool.draw dst op)
    simp only [surfaceDraw, hidem]
  | blit dst src x y =>
    have hb := hpool.blit c ⟨n.fits, c⟩ rfl dst src x y
    refine Inv.of_init (f := fun n => (n.surfaceBlit c dst src x y, .done)) ?_ ?_
    · simp only [surfaceBlit, hidem]
    · exact ⟨hb.1, Prod.ext hb.2 rfl⟩
  | acquire handle =>
    refine Inv.of_init (f := fun n => n.surfaceAcquire handle) ?_ (hpool.acquire handle)
    simp only [surfaceAcquire, hidem]
  | frameDone =>
    refine Inv.of_init ?_ ?_
    · have hfb : n.nativeSurfacesInit.framebuffer = n.framebuffer := by
        unfold nativeSurfacesInit
        split_ifs <;> rfl
      simp only [frameDone, gfxReapSurfaces, hidem, hfb]
    · refine ⟨hpool.reap.1, Prod.ext hpool.reap.2 ?_⟩
      exact congrArg SurfaceAnswer.frame hpool.screen_eq
  | write token off color =>
    exact h.of_token (f := fun r => r.write token off color) token
      (fun hp => hp.write token off color) (fun hn => by simp only [step, lockWrite, hn])
      fun r hr => by simp only [Registry.write, hr]
  | release token =>
    exact h.of_token (f := fun r => r.release token) token (fun hp => hp.release token)
      (fun hn => by simp only [step, surfaceRelease, hn])
      fun r hr => by simp only [Registry.release, hr]

theorem start_inv : start.Inv := by
  refine ⟨fun _ _ => rfl, ?_⟩
  have hslot : ∀ i : Fin surfaceMax, start.nativeSurfacesInit.surfaces i
      = if i = 0 then ⟨.framebuffer, frameW, frameH, 0, true, true, false, 0⟩
        else ⟨.null, 0, 0, 0, false, false, false, 0⟩ := fun i => by
    show Function.update _ 0 _ i = _
    rw [update_apply]
    rfl
  refine .of_screen rfl (Nat.zero_le _) ⟨rfl, rfl⟩ ⟨rfl, rfl⟩ (fun i => ?_) (fun i hi => ?_)
    fun i => ?_
  · rw [hslot]
    split_ifs with h0
    · exact iff_of_true rfl h0
    · exact iff_of_false (by decide) h0
  · rw [hslot, if_neg hi]
  · rw [hslot]
    split_ifs <;> rfl

theorem nativeRun_inv (c : RowCopy) (calls : List SurfaceCall) :
    (traceOf (step c) start calls).1.Inv :=
  traceOf_inv (fun _ call h => (step_abs h c call).1) start_inv

/-- **Where the pixels are.** Whatever calls a cart makes, the surfaces in use have their pixels
in the framebuffer or inside the 16 MiB of the arena, no two of them overlap, and no other
slot is locked. -/
theorem nativeRun_pixels_apart (c : RowCopy) (calls : List SurfaceCall) :
    let n := (traceOf (step c) start calls).1.nativeSurfacesInit
    (∀ i, (n.surfaces i).inUse = true → Placed memBudgetBytes i (n.surfaces i))
      ∧ (∀ i j, i ≠ j → (n.surfaces i).inUse = true → (n.surfaces j).inUse = true →
        Apart (n.surfaces i) (n.surfaces j))
      ∧ ∀ i, (n.surfaces i).locked = true → (n.surfaces i).inUse = true := by
  have hpool := (nativeRun_inv c calls).pool
  exact ⟨fun i hi => (hpool.placed i hi).mono hpool.bump, hpool.apart, hpool.locked⟩

/-- **The native pool is a registry.** Over any calls its answers are those of a registry that
decides at each call what fits. -/
theorem nativeRun_refines (c : RowCopy) (calls : List SurfaceCall) :
    ∃ rooms : List (Int → Int → Bool), rooms.length = calls.length
      ∧ (traceOf (step c) start calls).2
        = (traceOf (fun r p => r.step ⟨p.2, c⟩ p.1) start.abs (calls.zip rooms)).2 := by
  have hrun : ∀ n : NativeLeg, n.Inv → ∃ rooms : List (Int → Int → Bool),
      rooms.length = calls.length ∧ (traceOf (step c) n calls).2
        = (traceOf (fun r p => r.step ⟨p.2, c⟩ p.1) n.abs (calls.zip rooms)).2 := by
    induction calls with
    | nil => exact fun _ _ => ⟨[], rfl, rfl⟩
    | cons call calls ih =>
      intro n hn
      obtain ⟨hinv, habs⟩ := step_abs hn c call
      obtain ⟨rooms, hlen, htrace⟩ := ih _ hinv
      refine ⟨n.fits :: rooms, congrArg Nat.succ hlen, ?_⟩
      rw [zip_cons_cons, traceOf, traceOf, ← habs, htrace]
  exact hrun start start_inv

end Run

end NativeLeg

end Blyt
