import Blyt.Arena

/-!
# The surface registry

Off-screen surfaces of `runtime/host/src/libblyt/cart_run.c`: 64 slots, slot 0
the screen, the others handed out by `blyt_surface_create_slot` and taken back
by `destroy` or by the reap at the frame boundary; tier-2 locks, which copy a
surface into guest memory and back. `surfaceBytes` is the counter the budget
charges; `SurfInv` says that it is the sum over the live off-screen slots.
-/

namespace Blyt

open List Function

/-! ## Handles -/

/-- `BLYT_HANDLE_NONE`. -/
def handleNone : Nat := 0

inductive HandleKind where
  | none
  | resource
  | surface
  | lockview
  | other
  deriving DecidableEq, Repr

def handleKind (h : Nat) : HandleKind :=
  match h / 2 ^ 29 with
  | 0 => .none
  | 1 => .resource
  | 2 => .surface
  | 3 => .lockview
  | _ => .other

def resourceDecodeId (h : Nat) : Nat := h % 2 ^ 24

def resourceDecodeProvenance (h : Nat) : Nat := h / 2 ^ 24 % 2

/-- `BLYT_DYN_ENCODE`: kind, 17 bits of generation, 12 bits of slot index. -/
def dynEncode (kind gen index : Nat) : Nat :=
  u32 (kind * 2 ^ 29) + gen % 2 ^ 17 * 2 ^ 12 + index % 2 ^ 12

def surfaceEncode (gen index : Nat) : Nat := dynEncode 2 gen index

def lockviewEncode (gen index : Nat) : Nat := dynEncode 3 gen index

def dynDecodeIndex (h : Nat) : Nat := h % 2 ^ 12

def dynDecodeGen (h : Nat) : Nat := h / 2 ^ 12 % 2 ^ 17

/-! ## Slots -/

/-- `BLYT_SURFACE_MAX`. -/
abbrev surfaceMax : Nat := 64

instance : NeZero surfaceMax := ⟨by decide⟩

/-- `BLYT_SURFACE_MAX_DIM`. -/
def surfaceMaxDim : Int := 8192

/-- `BLYT_SURFACE_LOCK_ARENA_BASE`, `_SIZE`. -/
def lockArenaBase : Nat := 0x02000000
def lockArenaSize : Nat := 0x02000000

structure SurfaceSlot where
  pixels : Option (List UInt8)
  w : Int
  h : Int
  gen : Nat
  inUse : Bool
  isScreen : Bool
  owned : Bool
  locked : Bool
  lockPhantom : Bool
  lockDirect : Bool
  lockGen : Nat
  lockVaddr : Nat
  lockLen : Nat
  deriving DecidableEq, Repr

structure SurfaceRegistry where
  slots : Fin surfaceMax → SurfaceSlot
  surfaceBytes : Nat
  lockBump : Nat
  activeLocks : Int

/-- `(uint32_t)w * (uint32_t)h`. -/
def slotArea (w h : Int) : Nat := u32 ((w % 2 ^ 32).toNat * (h % 2 ^ 32).toNat)

def SurfaceRegistry.set (r : SurfaceRegistry) (i : Fin surfaceMax) (s : SurfaceSlot) :
    SurfaceRegistry := { r with slots := Function.update r.slots i s }

def resolveSurface (r : SurfaceRegistry) (handle : Nat) : Option (Fin surfaceMax) :=
  if handleKind handle ≠ .surface then none
  else if hidx : dynDecodeIndex handle < surfaceMax then
    let s := r.slots ⟨dynDecodeIndex handle, hidx⟩
    -- the decoded generation is compared as a 16-bit value
    if !s.inUse ∨ dynDecodeGen handle % 2 ^ 16 ≠ s.gen then none
    else some ⟨dynDecodeIndex handle, hidx⟩
  else none

def resolveLockview (r : SurfaceRegistry) (token : Nat) : Option (Fin surfaceMax) :=
  if handleKind token ≠ .lockview then none
  else if hidx : dynDecodeIndex token < surfaceMax then
    let s := r.slots ⟨dynDecodeIndex token, hidx⟩
    if !s.locked ∨ dynDecodeGen token % 2 ^ 16 ≠ s.lockGen then none
    else some ⟨dynDecodeIndex token, hidx⟩
  else none

/-- Free one off-screen slot; the screen and free slots are left alone. -/
def surfaceFreeSlot (r : SurfaceRegistry) (i : Fin surfaceMax) : SurfaceRegistry :=
  let s := r.slots i
  if !s.inUse || s.isScreen then r
  else
    let bytes :=
      if s.owned && s.pixels.isSome then u32 (r.surfaceBytes + 2 ^ 32 - slotArea s.w s.h)
      else r.surfaceBytes
    { r.set i { s with pixels := none, inUse := false, owned := false,
                       gen := (s.gen + 1) % 2 ^ 16 } with surfaceBytes := bytes }

/-- The `n` guest bytes at `a`. -/
def readGuest (m : ByteMem) (a n : Nat) : List UInt8 := (range n).map fun k => m (a + k)

/-- Copy a locked region back into its surface and clear the lock. -/
def surfaceFlushLock (m : ByteMem) (r : SurfaceRegistry) (i : Fin surfaceMax) :
    SurfaceRegistry :=
  let s := r.slots i
  if !s.locked then r
  else
    let pixels :=
      if !s.lockPhantom && !s.lockDirect then
        s.pixels.map fun px => readGuest m s.lockVaddr s.lockLen ++ px.drop s.lockLen
      else s.pixels
    let active := if 0 < r.activeLocks then r.activeLocks - 1 else r.activeLocks
    { r.set i { s with pixels := pixels, locked := false, lockPhantom := false,
                       lockDirect := false, lockGen := (s.lockGen + 1) % 2 ^ 16 } with
      activeLocks := active
      lockBump := if active = 0 then 0 else r.lockBump }

/-- The two loops of `blyt_surface_reap_all`. -/
def surfaceReapSlots (m : ByteMem) (r : SurfaceRegistry) : SurfaceRegistry :=
  let r := (finRange surfaceMax).foldl (surfaceFlushLock m) r
  let r := ((finRange surfaceMax).drop 1).foldl surfaceFreeSlot r
  { r with lockBump := 0, activeLocks := 0 }

/-- The lowest free slot from 1 on. -/
def firstFreeSlot (r : SurfaceRegistry) : Option (Fin surfaceMax) :=
  ((finRange surfaceMax).drop 1).find? fun i => !(r.slots i).inUse

/-- Occupy slot `i` with a blank surface. -/
def surfaceOccupy (r : SurfaceRegistry) (i : Fin surfaceMax) (w h : Int) : SurfaceRegistry :=
  let s := r.slots i
  { r.set i { s with pixels := some (replicate (slotArea w h) 0), w := w, h := h,
                     inUse := true, isScreen := false, owned := true } with
    surfaceBytes := u32 (r.surfaceBytes + slotArea w h) }

/-! ## The counter -/

/-- The bytes of a live off-screen surface. -/
def slotBytes (s : SurfaceSlot) : Nat :=
  if s.inUse && !s.isScreen then s.w.toNat * s.h.toNat else 0

/-- The bytes of all live off-screen surfaces. -/
def liveSurfaceBytes (r : SurfaceRegistry) : Nat := ∑ i, slotBytes (r.slots i)

/-- A live off-screen slot owns a buffer of at most the largest size. -/
def SlotOK (s : SurfaceSlot) : Prop :=
  s.inUse = true → s.isScreen = false →
    s.owned = true ∧ s.pixels.isSome = true ∧ 0 < s.w ∧ s.w ≤ surfaceMaxDim
      ∧ 0 < s.h ∧ s.h ≤ surfaceMaxDim

structure SurfInv (r : SurfaceRegistry) : Prop where
  slots : ∀ i, SlotOK (r.slots i)
  bytes : r.surfaceBytes = liveSurfaceBytes r
  lt : r.surfaceBytes < 2 ^ 32

variable {r : SurfaceRegistry} {w : Int} {r' : SurfaceRegistry} {i : Fin surfaceMax}
  {s : SurfaceSlot}

theorem surfInv_of_screen (hscreen : ∀ i, (r.slots i).inUse = true → (r.slots i).isScreen = true)
    (hbytes : r.surfaceBytes = 0) : SurfInv r ∧ liveSurfaceBytes r = 0 := by
  have hzero : liveSurfaceBytes r = 0 := by
    refine Finset.sum_eq_zero fun i _ => ?_
    cases hu : (r.slots i).inUse with
    | false => simp [slotBytes, hu]
    | true => simp [slotBytes, hscreen i hu]
  refine ⟨⟨fun i hu hs => ?_, hbytes.trans hzero.symm, ?_⟩, hzero⟩
  · rw [hscreen i hu] at hs
    cases hs
  · rw [hbytes]
    norm_num

theorem slotArea_eq {h : Int} (hw : 0 < w) (hw' : w ≤ surfaceMaxDim) (hh : 0 < h)
    (hh' : h ≤ surfaceMaxDim) : slotArea w h = w.toNat * h.toNat := by
  unfold surfaceMaxDim at hw' hh'
  have h1 : w % 2 ^ 32 = w := Int.emod_eq_of_lt (by omega) (by omega)
  have h2 : h % 2 ^ 32 = h := Int.emod_eq_of_lt (by omega) (by omega)
  rw [slotArea, h1, h2]
  refine u32_of_lt ?_
  calc w.toNat * h.toNat ≤ 8192 * 8192 := Nat.mul_le_mul (by omega) (by omega)
    _ < 2 ^ 32 := by norm_num

section Update

variable {ι α : Type} [DecidableEq ι] {f g : ι → α} {i : ι} {a : α}

theorem forall_of_update (hg : g = Function.update f i a) {p : ι → α → Prop} (ha : p i a)
    (hf : ∀ j ≠ i, p j (f j)) : ∀ j, p j (g j) :=
  hg ▸ (forall_update_iff f p).mpr ⟨ha, hf⟩

/-- What holds between any two slots that are `P`. -/
theorem pairwise_of_update {P : α → Prop} {R : α → α → Prop} (hg : g = Function.update f i a)
    (hsymm : ∀ {a b}, R a b → R b a) (hf : ∀ j k, j ≠ k → P (f j) → P (f k) → R (f j) (f k))
    (ha : P a → ∀ j ≠ i, P (f j) → R a (f j)) :
    ∀ j k, j ≠ k → P (g j) → P (g k) → R (g j) (g k) := by
  refine forall_of_update hg (p := fun j b => ∀ k, j ≠ k → P b → P (g k) → R b (g k)) ?_
    fun j hj => ?_
  · exact forall_of_update hg (p := fun k b => i ≠ k → P a → P b → R a b)
      (absurd rfl) fun k hk _ hp => ha hp k hk
  · exact forall_of_update hg (p := fun k b => j ≠ k → P (f j) → P b → R (f j) b)
      (fun _ hp hpa => hsymm (ha hpa j hj hp)) fun k _ hjk => hf j k hjk

end Update

/-- Changing one slot changes a sum over the slots by that slot's part. -/
theorem sum_slots_update (f : SurfaceSlot → Nat) (slots : Fin surfaceMax → SurfaceSlot)
    (i : Fin surfaceMax) (s : SurfaceSlot) :
    ∑ j, f (Function.update slots i s j) + f (slots i) = ∑ j, f (slots j) + f s := by
  have hnew : ∑ j, f (Function.update slots i s j)
      = f s + ∑ j ∈ Finset.univ.erase i, f (slots j) := by
    rw [← Finset.add_sum_erase Finset.univ _ (Finset.mem_univ i), update_self]
    congr 1
    refine Finset.sum_congr rfl fun j hj => ?_
    rw [update_of_ne (Finset.ne_of_mem_erase hj)]
  have hold : ∑ j, f (slots j) = f (slots i) + ∑ j ∈ Finset.univ.erase i, f (slots j) :=
    (Finset.add_sum_erase Finset.univ (fun j => f (slots j)) (Finset.mem_univ i)).symm
  omega

theorem liveSurfaceBytes_update (h : r'.slots = Function.update r.slots i s) :
    liveSurfaceBytes r' + slotBytes (r.slots i) = liveSurfaceBytes r + slotBytes s := by
  unfold liveSurfaceBytes
  rw [h]
  exact sum_slots_update slotBytes r.slots i s

theorem slotOK_update (h : ∀ j, SlotOK (r.slots j)) (hs : SlotOK s) (j : Fin surfaceMax) :
    SlotOK (Function.update r.slots i s j) :=
  forall_of_update rfl (p := fun _ t => SlotOK t) hs (fun j _ => h j) j

section

variable (h : SurfInv r)
include h

/-- A slot that keeps its size and its use keeps the counter right. -/
theorem SurfInv.setSame (hs : SlotOK s) (hb : slotBytes s = slotBytes (r.slots i))
    (hslots : r'.slots = Function.update r.slots i s) (hbytes : r'.surfaceBytes = r.surfaceBytes) :
    SurfInv r' ∧ liveSurfaceBytes r' = liveSurfaceBytes r := by
  have hsum := liveSurfaceBytes_update hslots
  have heq : liveSurfaceBytes r' = liveSurfaceBytes r := by omega
  refine ⟨⟨?_, hbytes.trans (h.bytes.trans heq.symm), hbytes ▸ h.lt⟩, heq⟩
  rw [hslots]
  exact slotOK_update h.slots hs

theorem SurfInv.congr {q : SurfaceRegistry} (hs : q.slots = r.slots)
    (hb : q.surfaceBytes = r.surfaceBytes) :
    SurfInv q ∧ liveSurfaceBytes q = liveSurfaceBytes r := by
  have heq : liveSurfaceBytes q = liveSurfaceBytes r := by
    unfold liveSurfaceBytes
    rw [hs]
  exact ⟨⟨hs ▸ h.slots, hb.trans (h.bytes.trans heq.symm), hb ▸ h.lt⟩, heq⟩

theorem SurfInv.freeSlot (i : Fin surfaceMax) : SurfInv (surfaceFreeSlot r i)
      ∧ liveSurfaceBytes (surfaceFreeSlot r i) ≤ liveSurfaceBytes r := by
  by_cases hskip : (!(r.slots i).inUse || (r.slots i).isScreen) = true
  · have heq : surfaceFreeSlot r i = r := if_pos hskip
    rw [heq]
    exact ⟨h, le_rfl⟩
  have huse : (r.slots i).inUse = true := by
    by_contra hne
    exact hskip (by simp [hne])
  have hscr : (r.slots i).isScreen = false := by
    by_contra hne
    exact hskip (by simp [hne])
  obtain ⟨hown, hpx, hw, hw', hh, hh'⟩ := h.slots i huse hscr
  have harea := slotArea_eq hw hw' hh hh'
  have hold : slotBytes (r.slots i) = (r.slots i).w.toNat * (r.slots i).h.toNat := by
    simp [slotBytes, huse, hscr]
  obtain ⟨s', hs'⟩ : ∃ s', s' = { r.slots i with
      pixels := none, inUse := false, owned := false
      gen := ((r.slots i).gen + 1) % 2 ^ 16 } := ⟨_, rfl⟩
  have hslots : (surfaceFreeSlot r i).slots = Function.update r.slots i s' := by
    simp only [surfaceFreeSlot, hskip, hs']
    rfl
  have hcnt : (surfaceFreeSlot r i).surfaceBytes
      = u32 (r.surfaceBytes + 2 ^ 32 - (r.slots i).w.toNat * (r.slots i).h.toNat) := by
    simp only [surfaceFreeSlot, hskip, hown, hpx, harea, Bool.and_self, if_true]
    rfl
  have hnew : slotBytes s' = 0 := by simp [slotBytes, hs']
  have hsum := liveSurfaceBytes_update hslots
  have hb := h.bytes
  have hlt := h.lt
  refine ⟨⟨?_, ?_, ?_⟩, by omega⟩
  · rw [hslots]
    exact slotOK_update h.slots (fun hu => by simp [hs'] at hu)
  · -- the counter holds at least this slot's bytes, so it does not wrap
    rw [hcnt, u32, show r.surfaceBytes + 2 ^ 32 - (r.slots i).w.toNat * (r.slots i).h.toNat
      = liveSurfaceBytes (surfaceFreeSlot r i) + 2 ^ 32 by omega, Nat.add_mod_right]
    exact Nat.mod_eq_of_lt (by omega)
  · rw [hcnt]
    exact u32_lt _

theorem SurfInv.flushLock (m : ByteMem) (i : Fin surfaceMax) : SurfInv (surfaceFlushLock m r i)
      ∧ liveSurfaceBytes (surfaceFlushLock m r i) = liveSurfaceBytes r := by
  by_cases hl : (!(r.slots i).locked) = true
  · have heq : surfaceFlushLock m r i = r := if_pos hl
    rw [heq]
    exact ⟨h, rfl⟩
  -- only the pixels and the lock fields of the slot change
  obtain ⟨px, hpx⟩ : ∃ px, px = if !(r.slots i).lockPhantom && !(r.slots i).lockDirect then
      (r.slots i).pixels.map fun px =>
        readGuest m (r.slots i).lockVaddr (r.slots i).lockLen ++ px.drop (r.slots i).lockLen
      else (r.slots i).pixels := ⟨_, rfl⟩
  have hsome : px.isSome = (r.slots i).pixels.isSome := by
    rw [hpx]
    split <;> simp
  refine h.setSame (s := { r.slots i with
      pixels := px, locked := false, lockPhantom := false, lockDirect := false
      lockGen := ((r.slots i).lockGen + 1) % 2 ^ 16 }) ?_ rfl ?_ ?_
  · intro hu hs
    obtain ⟨h1, h2, h3⟩ := h.slots i hu hs
    exact ⟨h1, hsome.trans h2, h3⟩
  · simp only [surfaceFlushLock, hl, hpx]
    rfl
  · simp only [surfaceFlushLock, hl]
    rfl

theorem SurfInv.reap (m : ByteMem) : SurfInv (surfaceReapSlots m r)
      ∧ liveSurfaceBytes (surfaceReapSlots m r) ≤ liveSurfaceBytes r := by
  have hflush : ∀ (is : List (Fin surfaceMax)) (r : SurfaceRegistry), SurfInv r →
      SurfInv (is.foldl (surfaceFlushLock m) r)
        ∧ liveSurfaceBytes (is.foldl (surfaceFlushLock m) r) ≤ liveSurfaceBytes r := by
    intro is
    induction is with
    | nil => exact fun r h => ⟨h, le_rfl⟩
    | cons i is ih =>
      intro r h
      obtain ⟨h1, h2⟩ := h.flushLock m i
      obtain ⟨h3, h4⟩ := ih _ h1
      exact ⟨h3, h4.trans (le_of_eq h2)⟩
  have hfree : ∀ (is : List (Fin surfaceMax)) (r : SurfaceRegistry), SurfInv r →
      SurfInv (is.foldl surfaceFreeSlot r)
        ∧ liveSurfaceBytes (is.foldl surfaceFreeSlot r) ≤ liveSurfaceBytes r := by
    intro is
    induction is with
    | nil => exact fun r h => ⟨h, le_rfl⟩
    | cons i is ih =>
      intro r h
      obtain ⟨h1, h2⟩ := h.freeSlot i
      obtain ⟨h3, h4⟩ := ih _ h1
      exact ⟨h3, h4.trans h2⟩
  obtain ⟨h1, h2⟩ := hflush (finRange surfaceMax) r h
  obtain ⟨h3, h4⟩ := hfree ((finRange surfaceMax).drop 1) _ h1
  obtain ⟨h5, h6⟩ := h3.congr (q := surfaceReapSlots m r) (by simp only [surfaceReapSlots])
    (by simp only [surfaceReapSlots])
  exact ⟨h5, (le_of_eq h6).trans (h4.trans h2)⟩

theorem SurfInv.occupy {ht : Int}
    (hfree : (r.slots i).inUse = false) (hw : 0 < w) (hw' : w ≤ surfaceMaxDim) (hh : 0 < ht)
    (hh' : ht ≤ surfaceMaxDim) (hlt : r.surfaceBytes + slotArea w ht < 2 ^ 32) :
    SurfInv (surfaceOccupy r i w ht)
      ∧ liveSurfaceBytes (surfaceOccupy r i w ht) = liveSurfaceBytes r + slotArea w ht := by
  have harea := slotArea_eq hw hw' hh hh'
  obtain ⟨s', hs'⟩ : ∃ s', s' = { r.slots i with
      pixels := some (replicate (slotArea w ht) (0 : UInt8)), w := w, h := ht
      inUse := true, isScreen := false, owned := true } := ⟨_, rfl⟩
  have hslots : (surfaceOccupy r i w ht).slots = Function.update r.slots i s' := by
    rw [hs']
    rfl
  have hnew : slotBytes s' = slotArea w ht := by simp [slotBytes, hs', harea]
  have hold : slotBytes (r.slots i) = 0 := by simp [slotBytes, hfree]
  have hsum := liveSurfaceBytes_update hslots
  have hb := h.bytes
  have heq : liveSurfaceBytes (surfaceOccupy r i w ht) = liveSurfaceBytes r + slotArea w ht := by
    omega
  have hcnt : (surfaceOccupy r i w ht).surfaceBytes = r.surfaceBytes + slotArea w ht :=
    u32_of_lt hlt
  refine ⟨⟨?_, ?_, ?_⟩, heq⟩
  · rw [hslots]
    exact slotOK_update h.slots (fun _ _ => by rw [hs']; exact ⟨rfl, rfl, hw, hw', hh, hh'⟩)
  · rw [hcnt, heq, hb]
  · rwa [hcnt]

end

theorem mem_drop_one {j : Fin surfaceMax} : j ∈ (finRange surfaceMax).drop 1 ↔ j ≠ 0 := by
  revert j
  decide

theorem firstFreeSlot_free (h : firstFreeSlot r = some i) : (r.slots i).inUse = false := by
  simpa using find?_some h

end Blyt
