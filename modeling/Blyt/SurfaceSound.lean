import Blyt.SurfaceOps

/-!
# The surface registry is sound

`RegInv` is the invariant of a session's surface registry: a live slot has a buffer of its
size, slot 0 is the screen and the only one, a locked slot is live, the counters `activeLocks`
and `surfaceBytes` are the sums they stand for, and locks with a region in the lock arena have
regions that are apart. It holds for a new session and every move of `RegMove` keeps it, so it
holds after every list of operations - of a debug cart as of a release cart, with phantom locks
and with the direct locks of host-Lua.
-/

namespace Blyt

open List Function SurfaceSlot

/-! ## Slots after a flush, a free and a reap -/

/-- What `blyt_surface_flush_lock` leaves of a slot. -/
def SurfaceSlot.unlock (m : ByteMem) (t : SurfaceSlot) : SurfaceSlot :=
  if !t.locked then t
  else
    { t with
      pixels := if !t.lockPhantom && !t.lockDirect then
          t.pixels.map fun px => readGuest m t.lockVaddr t.lockLen ++ px.drop t.lockLen
        else t.pixels
      locked := false, lockPhantom := false, lockDirect := false
      lockGen := (t.lockGen + 1) % 2 ^ 16 }

/-- What `blyt_surface_free_slot` leaves of a slot. -/
def SurfaceSlot.release (t : SurfaceSlot) : SurfaceSlot :=
  if !t.inUse || t.isScreen then t
  else { t with pixels := none, inUse := false, owned := false, gen := (t.gen + 1) % 2 ^ 16 }

section Slots

variable {m : ByteMem} {r : SurfaceRegistry} {i j : Fin surfaceMax} {t : SurfaceSlot}

theorem flushLock_slots (m : ByteMem) (r : SurfaceRegistry) (i : Fin surfaceMax) :
    (surfaceFlushLock m r i).slots = Function.update r.slots i ((r.slots i).unlock m) := by
  unfold surfaceFlushLock SurfaceSlot.unlock
  cases hl : (r.slots i).locked with
  | true =>
    simp only [hl]
    rfl
  | false =>
    simp only [hl, Bool.not_false, if_true]
    rw [update_eq_self]

theorem freeSlot_slots (r : SurfaceRegistry) (i : Fin surfaceMax) :
    (surfaceFreeSlot r i).slots = Function.update r.slots i (r.slots i).release := by
  unfold surfaceFreeSlot SurfaceSlot.release
  by_cases hskip : (!(r.slots i).inUse || (r.slots i).isScreen) = true
  · simp only [hskip, if_true]
    rw [update_eq_self]
  · simp only [if_neg hskip]
    rfl

theorem foldl_slots {step : SurfaceRegistry → Fin surfaceMax → SurfaceRegistry}
    {f : SurfaceSlot → SurfaceSlot}
    (hstep : ∀ r i, (step r i).slots = Function.update r.slots i (f (r.slots i)))
    {is : List (Fin surfaceMax)} (hnd : is.Nodup) (r : SurfaceRegistry) (j : Fin surfaceMax) :
    (is.foldl step r).slots j = if j ∈ is then f (r.slots j) else r.slots j := by
  induction is generalizing r with
  | nil => rfl
  | cons i is ih =>
    obtain ⟨hi, hnd⟩ := nodup_cons.mp hnd
    rw [foldl_cons, ih hnd, hstep]
    by_cases hj : j = i
    · subst hj
      rw [if_neg hi, if_pos mem_cons_self, update_self]
    · simp [hj]

/-- The slots after a reap: all unlocked, and all but the screen freed. -/
theorem reapSlots_slots (m : ByteMem) (r : SurfaceRegistry) (j : Fin surfaceMax) :
    (surfaceReapSlots m r).slots j
      = if j = 0 then (r.slots j).unlock m else ((r.slots j).unlock m).release := by
  have hflush := foldl_slots (flushLock_slots m) (nodup_finRange surfaceMax) r
  have hfree := foldl_slots freeSlot_slots ((nodup_finRange surfaceMax).sublist (drop_sublist 1 _))
    ((finRange surfaceMax).foldl (surfaceFlushLock m) r)
  simp only [surfaceReapSlots]
  rw [hfree, hflush, if_pos (mem_finRange j)]
  by_cases hj : j = 0
  · rw [if_neg (fun h => mem_drop_one.mp h hj), if_pos hj]
  · rw [if_pos (mem_drop_one.mpr hj), if_neg hj]

section Unlock

variable (m t)

theorem unlock_of_unlocked (hl : t.locked = false) : t.unlock m = t := if_pos (by rw [hl]; rfl)

@[simp] theorem unlock_locked : (t.unlock m).locked = false := by
  unfold SurfaceSlot.unlock
  cases hl : t.locked <;> simp [hl]

@[simp] theorem unlock_inUse : (t.unlock m).inUse = t.inUse := by
  unfold SurfaceSlot.unlock
  split_ifs <;> rfl

@[simp] theorem unlock_isScreen : (t.unlock m).isScreen = t.isScreen := by
  unfold SurfaceSlot.unlock
  split_ifs <;> rfl

@[simp] theorem unlock_owned : (t.unlock m).owned = t.owned := by
  unfold SurfaceSlot.unlock
  split_ifs <;> rfl

@[simp] theorem unlock_gen : (t.unlock m).gen = t.gen := by
  unfold SurfaceSlot.unlock
  split_ifs <;> rfl

@[simp] theorem unlock_w : (t.unlock m).w = t.w := by
  unfold SurfaceSlot.unlock
  split_ifs <;> rfl

@[simp] theorem unlock_h : (t.unlock m).h = t.h := by
  unfold SurfaceSlot.unlock
  split_ifs <;> rfl

theorem unlock_lockGen (hl : t.locked = true) :
    (t.unlock m).lockGen = (t.lockGen + 1) % 2 ^ 16 := by
  unfold SurfaceSlot.unlock
  rw [if_neg (by rw [hl]; decide)]

end Unlock

section Release

variable (t)

@[simp] theorem release_locked : t.release.locked = t.locked := by
  unfold SurfaceSlot.release
  split_ifs <;> rfl

@[simp] theorem release_lockGen : t.release.lockGen = t.lockGen := by
  unfold SurfaceSlot.release
  split_ifs <;> rfl

theorem release_screen (hs : t.isScreen = true) : t.release = t := if_pos (by rw [hs, Bool.or_true])

theorem release_unused (hu : t.inUse = false) : t.release = t := if_pos (by rw [hu]; rfl)

theorem release_live (hu : t.inUse = true) (hs : t.isScreen = false) :
    t.release = { t with pixels := none, inUse := false, owned := false
                         gen := (t.gen + 1) % 2 ^ 16 } :=
  if_neg (by rw [hu, hs]; decide)

end Release

end Slots

/-! ## The invariant of a slot -/

/-- The slot is locked with a region of the lock arena. -/
def SurfaceSlot.HasRegion (t : SurfaceSlot) : Prop := t.locked = true ∧ t.lockDirect = false

structure SlotInv (bump : Nat) (i : Fin surfaceMax) (t : SurfaceSlot) : Prop where
  sized : t.inUse = true → t.Sized
  screen : i = 0 → t.inUse = true ∧ t.gen = 0 ∧ t.w = frameW ∧ t.h = frameH
  isScreen : t.isScreen = true ↔ i = 0
  owned : t.owned = true ↔ t.inUse = true ∧ i ≠ 0
  locked : t.locked = true → t.inUse = true
  direct : t.lockDirect = true → t.locked = true ∧ t.lockLen = 0
  /-- the region has the size of the surface and lies in the used part of the arena -/
  region : t.HasRegion → t.lockLen = t.area ∧ lockArenaBase ≤ t.lockVaddr
    ∧ t.lockVaddr + t.lockLen ≤ lockArenaBase + bump
  gen : t.gen < 2 ^ 16
  lockGen : t.lockGen < 2 ^ 16

namespace SlotInv

variable {bump bump' : Nat} {i : Fin surfaceMax} {t : SurfaceSlot}

section

variable (h : SlotInv bump i t)
include h

theorem mono (hle : t.HasRegion → bump ≤ bump') : SlotInv bump' i t where
  sized := h.sized
  screen := h.screen
  isScreen := h.isScreen
  owned := h.owned
  locked := h.locked
  direct := h.direct
  region hr := by
    have hle := hle hr
    obtain ⟨hlen, hlo, hhi⟩ := h.region hr
    exact ⟨hlen, hlo, by omega⟩
  gen := h.gen
  lockGen := h.lockGen

theorem slotOK : SlotOK t := by
  intro hu hs
  have hi : i ≠ 0 := fun hi => by
    rw [h.isScreen.mpr hi] at hs
    cases hs
  obtain ⟨⟨px, hpx, -⟩, hw, hh⟩ := h.sized hu
  exact ⟨h.owned.mpr ⟨hu, hi⟩, by rw [hpx]; rfl, hw.1, hw.2, hh.1, hh.2⟩

theorem screen_area (hi : i = 0) : t.area = frameBytes := by
  obtain ⟨-, -, hw, hh⟩ := h.screen hi
  rw [area, hw, hh]
  rfl

theorem withPixels {px : List UInt8} (hpx : t.Fits i px) :
    SlotInv bump i { t with pixels := some px } where
  sized hu := by
    obtain ⟨⟨px0, hpx0, hlen⟩, hw, hh⟩ := h.sized hu
    refine ⟨⟨px, rfl, ?_⟩, hw, hh⟩
    rcases hpx px0 hpx0 with heq | ⟨hi, heq⟩
    · exact heq.trans hlen
    · exact heq.trans (h.screen_area hi).symm
  screen := h.screen
  isScreen := h.isScreen
  owned := h.owned
  locked := h.locked
  direct := h.direct
  region := h.region
  gen := h.gen
  lockGen := h.lockGen

theorem occupied (hi : i ≠ 0) (hfree : t.inUse = false) {w ht : Int}
    (hsize : ¬ Registry.BadSize w ht) : SlotInv bump i (t.occupied w ht) := by
  have hl : t.locked = false := by
    by_contra hl
    rw [h.locked (by simpa using hl)] at hfree
    cases hfree
  unfold Registry.BadSize at hsize
  constructor
  · refine fun _ => ⟨⟨_, rfl, ?_⟩, ⟨by show 0 < w; omega, by show w ≤ _; omega⟩,
      ⟨by show 0 < ht; omega, by show ht ≤ _; omega⟩⟩
    rw [length_replicate]
    exact slotArea_eq (by omega) (by omega) (by omega) (by omega)
  · exact fun h0 => absurd h0 hi
  · exact iff_of_false (by simp [SurfaceSlot.occupied]) hi
  · exact iff_of_true rfl ⟨rfl, hi⟩
  · exact fun _ => rfl
  · exact fun hd => absurd (hl.symm.trans (h.direct hd).1) (by decide)
  · exact fun hr => absurd (hl.symm.trans hr.1) (by decide)
  · exact h.gen
  · exact h.lockGen

theorem release (hl : t.locked = false) : SlotInv bump i t.release := by
  by_cases hs : t.isScreen = true
  · rwa [release_screen t hs]
  by_cases hu : t.inUse = true
  · have hi : i ≠ 0 := fun hi => hs (h.isScreen.mpr hi)
    rw [release_live t hu (by simpa using hs)]
    constructor
    · exact fun hu => by cases hu
    · exact fun h0 => absurd h0 hi
    · exact h.isScreen
    · exact iff_of_false (by simp) (by simp)
    · exact fun hl' => absurd (hl.symm.trans hl') (by decide)
    · exact h.direct
    · exact fun hr => absurd (hl.symm.trans hr.1) (by decide)
    · exact Nat.mod_lt _ (by norm_num)
    · exact h.lockGen
  · rwa [release_unused t (by simpa using hu)]

/-- A flush replaces all pixels by the region, or none. -/
theorem unlock_pixels (hl : t.locked = true) (m : ByteMem) :
    (t.unlock m).pixels
      = if t.lockPhantom = false ∧ t.lockDirect = false
        then some (readGuest m t.lockVaddr t.lockLen)
        else t.pixels := by
  obtain ⟨px, hpx, hlen⟩ := (h.sized (h.locked hl)).px
  unfold SurfaceSlot.unlock
  rw [if_neg (by rw [hl]; decide)]
  by_cases hcopy : t.lockPhantom = false ∧ t.lockDirect = false
  · have hdrop : px.drop t.lockLen = [] :=
      drop_of_length_le (by rw [hlen, (h.region ⟨hl, hcopy.2⟩).1])
    rw [if_pos hcopy, if_pos (by rw [hcopy.1, hcopy.2]; rfl), hpx, Option.map_some, hdrop,
      append_nil]
  · rw [if_neg hcopy, if_neg (by simpa using hcopy)]

theorem unlock (m : ByteMem) : SlotInv bump' i (t.unlock m) := by
  have hun : ¬ (t.unlock m).locked = true := by simp
  by_cases hl : t.locked = true
  · constructor
    · intro hu
      rw [unlock_inUse] at hu
      obtain ⟨⟨px, hpx, hlen⟩, hw, hh⟩ := h.sized hu
      refine ⟨?_, by rwa [unlock_w], by rwa [unlock_h]⟩
      rw [h.unlock_pixels hl m, area, unlock_w, unlock_h]
      split_ifs with hcopy
      · exact ⟨_, rfl, by rw [length_readGuest, (h.region ⟨hl, hcopy.2⟩).1, area]⟩
      · exact ⟨px, hpx, hlen⟩
    · intro hi
      rw [unlock_inUse, unlock_gen, unlock_w, unlock_h]
      exact h.screen hi
    · rw [unlock_isScreen]
      exact h.isScreen
    · rw [unlock_owned, unlock_inUse]
      exact h.owned
    · exact fun hl' => absurd hl' hun
    · intro hd
      unfold SurfaceSlot.unlock at hd
      rw [if_neg (by rw [hl]; decide)] at hd
      cases hd
    · exact fun hr => absurd hr.1 hun
    · rw [unlock_gen]
      exact h.gen
    · rw [unlock_lockGen m t hl]
      exact Nat.mod_lt _ (by norm_num)
  · rw [unlock_of_unlocked m t (by simpa using hl)]
    exact h.mono fun hr => absurd hr.1 hl

theorem lockedAt (hu : t.inUse = true) (hl : t.locked = false)
    (phantom : Bool) (hbump : bump + t.lockBytes ≤ bump') :
    SlotInv bump' i (t.lockedAt phantom (lockArenaBase + bump)) where
  sized hu := ⟨(h.sized hu).px, (h.sized hu).w, (h.sized hu).h⟩
  screen := h.screen
  isScreen := h.isScreen
  owned := h.owned
  locked _ := hu
  direct hd := by
    rw [(h.direct hd).1] at hl
    cases hl
  region _ := by
    have hle := (h.sized hu).le_lockBytes
    refine ⟨(h.sized hu).slotArea, Nat.le_add_right _ _, ?_⟩
    show lockArenaBase + bump + slotArea t.w t.h ≤ lockArenaBase + bump'
    rw [(h.sized hu).slotArea]
    omega
  gen := h.gen
  lockGen := h.lockGen

theorem lockDirectly (hu : t.inUse = true) :
    SlotInv bump i { t with locked := true, lockPhantom := false, lockDirect := true
                            lockVaddr := 0, lockLen := 0 } where
  sized hu := ⟨(h.sized hu).px, (h.sized hu).w, (h.sized hu).h⟩
  screen := h.screen
  isScreen := h.isScreen
  owned := h.owned
  locked _ := hu
  direct _ := ⟨rfl, rfl⟩
  region hr := by cases hr.2
  gen := h.gen
  lockGen := h.lockGen

end

end SlotInv

/-! ## The invariant of the registry -/

structure RegInv (r : SurfaceRegistry) : Prop where
  slot : ∀ i, SlotInv r.lockBump i (r.slots i)
  apart : ∀ i j, i ≠ j → (r.slots i).HasRegion → (r.slots j).HasRegion →
    LocksApart (r.slots i) (r.slots j)
  count : r.activeLocks = ((∑ i, (r.slots i).lockCount : Nat) : Int)
  surf : SurfInv r
  bump : r.lockBump ≤ lockArenaSize

namespace RegInv

variable {r r' : SurfaceRegistry} {m : ByteMem} {i : Fin surfaceMax} {t : SurfaceSlot}

theorem lockCount_of_locked (hl : t.locked = true) : t.lockCount = 1 := by
  rw [lockCount, hl]
  rfl

theorem lockCount_of_unlocked (hl : t.locked = false) : t.lockCount = 0 := by
  rw [lockCount, hl]
  rfl

theorem update (h : RegInv r) (hslots : r'.slots = Function.update r.slots i t) (hsurf : SurfInv r')
    (hslot : SlotInv r'.lockBump i t)
    (hapart : t.HasRegion → ∀ j ≠ i, (r.slots j).HasRegion → LocksApart t (r.slots j))
    (hcount : r'.activeLocks + (r.slots i).lockCount = r.activeLocks + t.lockCount)
    (hbump : ∀ j ≠ i, (r.slots j).HasRegion → r.lockBump ≤ r'.lockBump)
    (hle : r'.lockBump ≤ lockArenaSize) : RegInv r' := by
  refine ⟨?_, pairwise_of_update hslots .symm h.apart hapart, ?_, hsurf, hle⟩
  · exact forall_of_update hslots hslot fun j hj => (h.slot j).mono (hbump j hj)
  · have hsum := sum_slots_update lockCount r.slots i t
    have hold := h.count
    rw [hslots]
    omega

/-- One slot changes, but neither its lock nor what it counts for. -/
theorem updateSame (h : RegInv r) (hslots : r'.slots = Function.update r.slots i t)
    (hsurf : SurfInv r') (hslot : SlotInv r'.lockBump i t) (hlock : t.locked = (r.slots i).locked)
    (hregion : t.HasRegion → (r.slots i).HasRegion ∧ t.lockVaddr = (r.slots i).lockVaddr
      ∧ t.lockLen = (r.slots i).lockLen)
    (hactive : r'.activeLocks = r.activeLocks) (hbump : r'.lockBump = r.lockBump) : RegInv r' := by
  refine h.update hslots hsurf hslot (fun hr j hj hrj => ?_) ?_ (fun _ _ _ => hbump.ge)
    (hbump ▸ h.bump)
  · obtain ⟨hri, hva, hlen⟩ := hregion hr
    have := h.apart i j hj.symm hri hrj
    unfold LocksApart at this ⊢
    rwa [hva, hlen]
  · rw [hactive, lockCount, lockCount, hlock]

theorem surf_same (h : RegInv r) (hslot : SlotInv r'.lockBump i t)
    (hslots : r'.slots = Function.update r.slots i t) (hb : slotBytes t = slotBytes (r.slots i))
    (hbytes : r'.surfaceBytes = r.surfaceBytes) : SurfInv r' :=
  (h.surf.setSame hslot.slotOK hb hslots hbytes).1

theorem paint (h : RegInv r) {px : List UInt8} (hpx : (r.slots i).Fits i px) :
    RegInv (r.withPixels i px) := by
  have hslot := (h.slot i).withPixels hpx
  exact h.updateSame rfl (h.surf_same hslot rfl rfl rfl) hslot rfl
    (fun hr => ⟨hr, rfl, rfl⟩) rfl rfl

variable {w ht : Int}

/-- Together the off-screen surfaces have less than 4 GiB, whatever the budget says. -/
theorem bytes_lt (h : RegInv r) (hi : i ≠ 0) (hfree : (r.slots i).inUse = false)
    (hsize : ¬ Registry.BadSize w ht) : r.surfaceBytes + slotArea w ht < 2 ^ 32 := by
  have hdim : ∀ {w ht : Int}, 0 < w → w ≤ surfaceMaxDim → 0 < ht → ht ≤ surfaceMaxDim →
      w.toNat * ht.toNat ≤ 2 ^ 26 := by
    intro w ht hw hw' hh hh'
    unfold surfaceMaxDim at hw' hh'
    calc w.toNat * ht.toNat ≤ 8192 * 8192 := Nat.mul_le_mul (by omega) (by omega)
      _ = 2 ^ 26 := by norm_num
  have hnew : slotArea w ht ≤ 2 ^ 26 := by
    unfold Registry.BadSize at hsize
    rw [slotArea_eq (by omega) (by omega) (by omega) (by omega)]
    exact hdim (by omega) (by omega) (by omega) (by omega)
  have hone : ∀ j, slotBytes (r.slots j) ≤ if j = i then 0 else 2 ^ 26 := by
    intro j
    by_cases hj : j = i
    · subst hj
      simp [slotBytes, hfree]
    · unfold slotBytes
      split_ifs with hlive
      · rw [Bool.and_eq_true, Bool.not_eq_true'] at hlive
        obtain ⟨-, -, hw, hw', hh, hh'⟩ := h.surf.slots j hlive.1 hlive.2
        exact hdim hw hw' hh hh'
      · exact Nat.zero_le _
  have hscreen : slotBytes (r.slots 0) = 0 := by
    simp [slotBytes, (h.slot 0).isScreen.mpr rfl]
  -- slot `i` and the screen count nothing, so 62 slots are left
  have hsum : liveSurfaceBytes r ≤ 62 * 2 ^ 26 := by
    have hle : liveSurfaceBytes r ≤ ∑ j, if j = i ∨ j = 0 then 0 else 2 ^ 26 := by
      refine Finset.sum_le_sum fun j _ => ?_
      by_cases hj : j = 0
      · subst hj
        rw [hscreen]
        exact Nat.zero_le _
      · simpa [hj] using hone j
    refine hle.trans (le_of_eq ?_)
    clear hle hone hscreen hfree hnew
    revert i
    decide
  rw [h.surf.bytes]
  omega

theorem occupy (h : RegInv r) (hi : i ≠ 0) (hfree : (r.slots i).inUse = false)
    (hsize : ¬ Registry.BadSize w ht) : RegInv (surfaceOccupy r i w ht) := by
  have hsurf : SurfInv (surfaceOccupy r i w ht) := by
    have hlt := h.bytes_lt hi hfree hsize
    unfold Registry.BadSize at hsize
    exact (h.surf.occupy hfree (by omega) (by omega) (by omega) (by omega) hlt).1
  exact h.updateSame rfl hsurf ((h.slot i).occupied hi hfree hsize)
    rfl (fun hr => ⟨hr, rfl, rfl⟩) rfl rfl

theorem freeSlot_locks (r : SurfaceRegistry) (i : Fin surfaceMax) :
    (surfaceFreeSlot r i).activeLocks = r.activeLocks
      ∧ (surfaceFreeSlot r i).lockBump = r.lockBump := by
  unfold surfaceFreeSlot
  simp only
  split_ifs <;> exact ⟨rfl, rfl⟩

section

variable (h : RegInv r)
include h

theorem free (hl : (r.slots i).locked = false) : RegInv (surfaceFreeSlot r i) := by
  obtain ⟨hactive, hbump⟩ := freeSlot_locks r i
  refine h.updateSame (freeSlot_slots r i) (h.surf.freeSlot i).1 ?_ (release_locked _) ?_ hactive
    hbump
  · rw [hbump]
    exact (h.slot i).release hl
  · intro hr
    rw [HasRegion, release_locked, hl] at hr
    cases hr.1

theorem lock (phantom : Bool) (hu : (r.slots i).inUse = true) (hl : (r.slots i).locked = false)
    (hroom : r.lockBump + (r.slots i).lockBytes ≤ lockArenaSize) :
    RegInv (r.lockSlot i phantom) := by
  have hbump : (r.lockSlot i phantom).lockBump = r.lockBump + (r.slots i).lockBytes :=
    u32_of_lt (lt_of_le_of_lt hroom (by norm_num [lockArenaSize]))
  have hslot := (h.slot i).lockedAt hu hl phantom hbump.ge
  refine h.update rfl (h.surf_same hslot rfl rfl rfl) hslot
    (fun _ j _ hrj => .inr ((h.slot j).region hrj).2.2) ?_ (fun _ _ _ => ?_) (hbump ▸ hroom)
  · rw [lockCount_of_unlocked hl]
    exact add_zero _
  · rw [hbump]
    exact Nat.le_add_right _ _

theorem direct (hu : (r.slots i).inUse = true) (hl : (r.slots i).locked = false) :
    RegInv (r.lockDirectly i) := by
  have hslot := (h.slot i).lockDirectly hu
  refine h.update rfl (h.surf_same hslot rfl rfl rfl) hslot
    (fun hr => by cases hr.2) ?_ (fun _ _ _ => le_rfl) h.bump
  rw [lockCount_of_unlocked hl]
  exact add_zero _

/-- The lock counter is right, so it is not zero while a lock is held. -/
theorem active_pos (hl : (r.slots i).locked = true) : 0 < r.activeLocks := by
  have hle := Finset.single_le_sum (f := fun j => (r.slots j).lockCount)
    (fun _ _ => Nat.zero_le _) (Finset.mem_univ i)
  have hone := lockCount_of_locked hl
  have hcount := h.count
  omega

theorem flushLock_locks (m : ByteMem) (hl : (r.slots i).locked = true) :
    (surfaceFlushLock m r i).activeLocks = r.activeLocks - 1
      ∧ (surfaceFlushLock m r i).lockBump = if r.activeLocks - 1 = 0 then 0 else r.lockBump := by
  have hpos := h.active_pos hl
  unfold surfaceFlushLock
  simp only [hl, if_pos hpos]
  exact ⟨rfl, rfl⟩

/-- Two locks are counted twice. -/
theorem active_two {j : Fin surfaceMax} (hij : j ≠ i)
    (hl : (r.slots i).locked = true) (hl' : (r.slots j).locked = true) : 1 < r.activeLocks := by
  have hle := Finset.sum_le_sum_of_subset (f := fun k => (r.slots k).lockCount)
    (Finset.subset_univ {j, i})
  rw [Finset.sum_pair hij] at hle
  have hone := lockCount_of_locked hl
  have hone' := lockCount_of_locked hl'
  have hcount := h.count
  omega

theorem flush (m : ByteMem) (hl : (r.slots i).locked = true) : RegInv (surfaceFlushLock m r i) := by
  obtain ⟨hactive, hbump⟩ := h.flushLock_locks m hl
  refine h.update (flushLock_slots m r i) (h.surf.flushLock m i).1 ((h.slot i).unlock m)
    (fun hr => ?_) ?_ (fun j hj hrj => ?_) ?_
  · rw [HasRegion, unlock_locked] at hr
    cases hr.1
  · rw [lockCount_of_locked hl, lockCount_of_unlocked (unlock_locked m _)]
    omega
  · have := h.active_two hj hl hrj.1
    rw [hbump, if_neg (by omega)]
  · rw [hbump]
    split_ifs
    · exact Nat.zero_le _
    · exact h.bump

theorem reap (m : ByteMem) : RegInv (surfaceReapSlots m r) := by
  have hunlocked : ∀ j, ((surfaceReapSlots m r).slots j).locked = false := by
    intro j
    rw [reapSlots_slots]
    split_ifs
    · exact unlock_locked m _
    · rw [release_locked]
      exact unlock_locked m _
  refine ⟨fun j => ?_, fun j k _ hr => ?_, ?_, (h.surf.reap m).1, ?_⟩
  · rw [reapSlots_slots]
    split_ifs
    · exact (h.slot j).unlock m
    · exact ((h.slot j).unlock m).release (unlock_locked m _)
  · rw [HasRegion, hunlocked j] at hr
    cases hr.1
  · have hzero : ∑ j, ((surfaceReapSlots m r).slots j).lockCount = 0 :=
      Finset.sum_eq_zero fun j _ => lockCount_of_unlocked (hunlocked j)
    rw [hzero]
    simp [surfaceReapSlots]
  · exact Nat.zero_le _

/-- **Every move keeps the invariant.** -/
theorem move {a : Access} (hm : RegMove a m r r') : RegInv r' := by
  cases hm with
  | idle => exact h
  | paint i px hl hpx | lockPaint i px ha hd hpx | present px ha hpx => exact h.paint hpx
  | occupy i w ht hi hfree hsize => exact h.occupy hi hfree hsize
  | free i hl => exact h.free hl
  | lock i phantom hu hl hroom => exact h.lock phantom hu hl hroom
  | direct i hu hl => exact h.direct hu hl
  | flush i ha hl => exact h.flush m hl
  | reap => exact h.reap m
  | boundary px ha hpx => exact (h.paint hpx).reap m

end

end RegInv

/-! ## Whole runs -/

theorem newSurfaces_inv : RegInv newSurfaces := by
  have hok := newSurfaces_ok
  have hblank : ∀ i, newSurfaces.slots i = if i = 0 then screenSlot else blankSlot := fun _ => rfl
  refine ⟨fun i => ?_, fun i j hij hr hr' => ?_, hok.count, ?_, Nat.zero_le _⟩
  · have hi := hblank i
    refine ⟨hok.sized i, fun h0 => ?_, hok.isScreen i, ?_, ?_, ?_, ?_, ?_, ?_⟩
    · rw [hi, if_pos h0]
      exact ⟨rfl, rfl, rfl, rfl⟩
    · rw [hi]
      split_ifs with h0
      · exact iff_of_false (by decide) fun h => h.2 h0
      · exact iff_of_false (by decide) fun h => absurd h.1 (by decide)
    all_goals
      rw [hi]
      split_ifs
    · exact fun h => absurd h (by decide)
    · exact fun h => absurd h (by decide)
    · exact fun h => absurd h (by decide)
    · exact fun h => absurd h (by decide)
    · exact fun h => absurd h.1 (by decide)
    · exact fun h => absurd h.1 (by decide)
    · exact Nat.two_pow_pos 16
    · exact Nat.two_pow_pos 16
    · exact Nat.two_pow_pos 16
    · exact Nat.two_pow_pos 16
  · exact hok.apart i j hij hr.1 hr'.1
  · refine (surfInv_of_screen (fun i hu => ?_) rfl).1
    rw [hblank] at hu ⊢
    split_ifs at hu ⊢
    · rfl
    · cases hu

theorem after_regInv (E : HostEnv) (s : Session) (ops : List SurfaceOp) :
    RegInv ((HostLeg.start s).after E ops).session.surfaces :=
  HostLeg.after_inv (I := fun h => RegInv h.session.surfaces)
    (fun h op hh => hh.move (h.opStep_move E op)) newSurfaces_inv ops

variable {r : SurfaceRegistry}

/-- The counter of bytes, as a sum over the slots that own a buffer. -/
theorem RegInv.surfaceBytes_eq (h : RegInv r) :
    (r.surfaceBytes : Int) = ∑ i with (r.slots i).owned ∧ (r.slots i).inUse,
      (r.slots i).w * (r.slots i).h := by
  rw [h.surf.bytes, liveSurfaceBytes, Nat.cast_sum, Finset.sum_filter]
  refine Finset.sum_congr rfl fun i _ => ?_
  have hslot := h.slot i
  unfold slotBytes
  by_cases hown : (r.slots i).owned = true
  · obtain ⟨hu, hi⟩ := hslot.owned.mp hown
    have hs : (r.slots i).isScreen = false := by
      rw [← Bool.not_eq_true, hslot.isScreen]
      exact hi
    obtain ⟨-, hw, hh⟩ := hslot.sized hu
    rw [if_pos (by rw [hu, hs]; rfl), if_pos ⟨hown, hu⟩, Nat.cast_mul,
      Int.toNat_of_nonneg hw.1.le, Int.toNat_of_nonneg hh.1.le]
  · rw [if_neg, if_neg fun h => hown h.1, Nat.cast_zero]
    intro hlive
    rw [Bool.and_eq_true, Bool.not_eq_true', ← Bool.not_eq_true, hslot.isScreen] at hlive
    exact hown (hslot.owned.mpr hlive)

/-- The counter of locks, as a number of slots. -/
theorem RegInv.activeLocks_eq (h : RegInv r) :
    r.activeLocks = ((Finset.univ.filter fun i => (r.slots i).locked).card : Int) := by
  rw [h.count, Finset.card_filter]
  refine congrArg _ (Finset.sum_congr rfl fun i _ => ?_)
  rw [lockCount]
  cases (r.slots i).locked <;> rfl

/-- **After every list of operations** the counters are right, locked slots are live, the screen
is slot 0 and has generation 0, and the regions of locks are apart and in the arena. -/
theorem registry_invariant (E : HostEnv) (s : Session) (ops : List SurfaceOp) :
    let r := ((HostLeg.start s).after E ops).session.surfaces
    r.activeLocks = ((Finset.univ.filter fun i => (r.slots i).locked).card : Int)
      ∧ (∀ i, (r.slots i).locked = true → (r.slots i).inUse = true)
      ∧ (r.surfaceBytes : Int) = ∑ i with (r.slots i).owned ∧ (r.slots i).inUse,
          (r.slots i).w * (r.slots i).h
      ∧ ((r.slots 0).inUse = true ∧ (r.slots 0).isScreen = true ∧ (r.slots 0).gen = 0)
      ∧ ∀ i, (r.slots i).HasRegion →
        lockArenaBase ≤ (r.slots i).lockVaddr
          ∧ (r.slots i).lockVaddr + (r.slots i).lockLen ≤ lockArenaBase + lockArenaSize
          ∧ ((r.slots i).lockLen : Int) = (r.slots i).w * (r.slots i).h
          ∧ ∀ j ≠ i, (r.slots j).HasRegion → LocksApart (r.slots i) (r.slots j) := by
  intro r
  have h := after_regInv E s ops
  refine ⟨h.activeLocks_eq, fun i => (h.slot i).locked, h.surfaceBytes_eq, ?_, fun i hr => ?_⟩
  · obtain ⟨hu, hg, -, -⟩ := (h.slot 0).screen rfl
    exact ⟨hu, (h.slot 0).isScreen.mpr rfl, hg⟩
  · obtain ⟨hlen, hlo, hhi⟩ := (h.slot i).region hr
    obtain ⟨-, hw, hh⟩ := (h.slot i).sized ((h.slot i).locked hr.1)
    refine ⟨hlo, hhi.trans (Nat.add_le_add_left h.bump _), ?_, fun j hj => h.apart i j hj.symm hr⟩
    rw [hlen, area, Nat.cast_mul, Int.toNat_of_nonneg hw.1.le, Int.toNat_of_nonneg hh.1.le]

end Blyt
