import Blyt.HostRegistry

/-!
# Locks and frames of the emulated session

A lock copies the surface out into guest memory, its release copies it back, and a
frame boundary releases all locks and frees all surfaces but the screen. With that
every emulated call does what a registry is for (`HostLeg.step_abs`), with three
exceptions (`HostLeg.Follows`): a `destroy` outside `draw()` destroys, an `acquire` is
granted as long as the lock arena has room and not as long as the phase is `draw()`,
and what a frame shows is the canonical screen, or the test card. There the session
does something else (`HostLeg.step_diverges`).
-/

namespace Blyt

open List Option Function Registry SurfaceSlot Session

/-! ## A held lock -/

section Locks

variable {s : Session} {i : Fin surfaceMax}

theorem registry_live (hi : (s.surfaces.slots i).inUse = true) :
    (s.registry.slots i).live = some (s.surf i) := if_pos hi

theorem surf_locked (hl : (s.surfaces.slots i).locked = true) :
    (s.surf i).px
      = readGuest s.gmem (s.surfaces.slots i).lockVaddr (s.surfaces.slots i).lockLen := if_pos hl

theorem lockWrite_abs (h : SessionOK s) (token off : Nat) (color : UInt8) :
    SessionOK (HostLeg.lockWrite s token off color)
      ∧ (HostLeg.lockWrite s token off color).registry = s.registry.write token off color := by
  unfold HostLeg.lockWrite Registry.write
  rw [findLock_registry]
  cases ht : resolveLockview s.surfaces token with
  | none => exact ⟨h, rfl⟩
  | some i =>
    have hl := resolveLockview_some ht
    have hin := h.surfaces.lockedIn i hl
    have hpx := surf_locked hl
    simp only
    rw [registry_live hin.inUse]
    simp only
    rw [hpx, length_readGuest]
    split_ifs with hoff
    · have hstore := writeGuest_byte s.gmem (a := (s.surfaces.slots i).lockVaddr) hoff color
      have hlen : ((readGuest s.gmem (s.surfaces.slots i).lockVaddr
          (s.surfaces.slots i).lockLen).set off color).length = (s.surfaces.slots i).lockLen := by
        rw [length_set, length_readGuest]
      refine ⟨⟨h.budget.congr rfl rfl rfl ⟨h.budget.choose_spec.1.surf, rfl⟩ rfl, h.noDebug,
        h.surfaces⟩, ?_⟩
      rw [hstore]
      have hnew : (s.surfaces.slots i).abs (writeGuest s.gmem (s.surfaces.slots i).lockVaddr
            ((readGuest s.gmem (s.surfaces.slots i).lockVaddr
              (s.surfaces.slots i).lockLen).set off color))
          = { s.registry.slots i with live := some { s.surf i with
              px := (readGuest s.gmem (s.surfaces.slots i).lockVaddr
                (s.surfaces.slots i).lockLen).set off color } } := by
        have hread := readGuest_writeGuest s.gmem (s.surfaces.slots i).lockVaddr
          ((readGuest s.gmem (s.surfaces.slots i).lockVaddr
            (s.surfaces.slots i).lockLen).set off color)
        rw [hlen] at hread
        rw [SurfaceSlot.abs, view, if_pos hin.inUse, if_pos hl, hread]
        rfl
      rw [paint, ← hnew]
      refine registry_update rfl (update_eq_self i _).symm fun j hj hl' => ?_
      refine readGuest_writeGuest_apart ?_
      rw [hlen]
      exact h.surfaces.apart i j (Ne.symm hj) hl hl'
    · exact ⟨h, rfl⟩

end Locks

/-! ## Release -/

section Flush

variable {r : SurfaceRegistry} {i : Fin surfaceMax}

def SurfaceSlot.flushed (m : ByteMem) (s : SurfaceSlot) : SurfaceSlot :=
  { s with pixels := some (readGuest m s.lockVaddr s.lockLen)
           locked := false, lockPhantom := false, lockDirect := false
           lockGen := (s.lockGen + 1) % 2 ^ 16 }

theorem flushLock_unlocked (m : ByteMem) (hl : (r.slots i).locked = false) :
    surfaceFlushLock m r i = r := if_pos (by rw [hl]; rfl)

/-- A lock covers its whole surface, so the flush replaces all pixels. -/
theorem RegistryOK.flushLock_slots (h : RegistryOK r) (m : ByteMem)
    (hl : (r.slots i).locked = true) :
    (surfaceFlushLock m r i).slots = Function.update r.slots i ((r.slots i).flushed m) := by
  have hin := h.lockedIn i hl
  obtain ⟨px, hpx, hlen⟩ := (h.sized i hin.inUse).px
  have hdrop : px.drop (r.slots i).lockLen = [] := drop_of_length_le (by rw [hlen, hin.len])
  unfold surfaceFlushLock
  simp only [hl, hin.phantom, h.direct i, hpx, map_some, hdrop, append_nil]
  rfl

theorem RegistryOK.flushLock_locks (h : RegistryOK r) (m : ByteMem)
    (hl : (r.slots i).locked = true) :
    (surfaceFlushLock m r i).activeLocks = r.activeLocks - 1
      ∧ (surfaceFlushLock m r i).lockBump = if r.activeLocks - 1 = 0 then 0 else r.lockBump := by
  have hone : (r.slots i).lockCount = 1 := by rw [lockCount, hl]; rfl
  have hle := Finset.single_le_sum (f := fun j => (r.slots j).lockCount)
    (fun _ _ => Nat.zero_le _) (Finset.mem_univ i)
  have hcount := h.count
  have hpos : 0 < r.activeLocks := by omega
  unfold surfaceFlushLock
  simp only [hl, if_pos hpos]
  exact ⟨rfl, rfl⟩

theorem RegistryOK.flushLock (h : RegistryOK r) (m : ByteMem) (i : Fin surfaceMax) :
    RegistryOK (surfaceFlushLock m r i) := by
  cases hl : (r.slots i).locked with
  | false =>
    rw [flushLock_unlocked m hl]
    exact h
  | true =>
    have hin := h.lockedIn i hl
    have hsized := h.sized i hin.inUse
    have hslots := h.flushLock_slots m hl
    obtain ⟨hactive, hbump⟩ := h.flushLock_locks m hl
    have hone : (r.slots i).lockCount = 1 := by rw [lockCount, hl]; rfl
    refine h.update hslots rfl rfl (fun h0 => ?_) (fun _ => ⟨⟨_, rfl, ?_⟩, hsized.w, hsized.h⟩)
      nofun nofun ?_ (fun j hj hlj => ?_) ?_
    · subst h0
      exact h.screen
    · rw [length_readGuest]
      exact hin.len
    · rw [hactive, hone]
      show r.activeLocks - 1 + 1 = r.activeLocks + 0
      omega
    · -- another lock is held, so the arena is not reset
      have hsum := sum_slots_update lockCount r.slots i ((r.slots i).flushed m)
      have hle := Finset.single_le_sum
        (f := fun k => (Function.update r.slots i ((r.slots i).flushed m) k).lockCount)
        (fun _ _ => Nat.zero_le _) (Finset.mem_univ j)
      have hother : (Function.update r.slots i ((r.slots i).flushed m) j).lockCount = 1 := by
        rw [update_of_ne hj, lockCount, hlj]
        rfl
      have hzero : ((r.slots i).flushed m).lockCount = 0 := rfl
      have hcount := h.count
      rw [hbump, if_neg (by omega)]
    · rw [hbump]
      split_ifs
      · exact Nat.zero_le _
      · exact h.bump

/-- What the cart sees stays the same. -/
theorem SurfaceSlot.abs_flushed (m : ByteMem) {s : SurfaceSlot} (hl : s.locked = true) :
    (s.flushed m).abs m = Registry.unlock (s.abs m) := by
  have hview : (s.flushed m).view m = s.view m := by
    rw [view, view, if_pos hl]
    rfl
  rw [Registry.unlock, if_pos (show (s.abs m).locked = true from hl), SurfaceSlot.abs, hview]
  rfl

end Flush

section Release

variable {s : Session}

/-- A flush is the release of one lock, if the slot has one. -/
theorem registry_flushLock (h : RegistryOK s.surfaces) (i : Fin surfaceMax) :
    registry { s with surfaces := surfaceFlushLock s.gmem s.surfaces i }
      = s.registry.set i (Registry.unlock (s.registry.slots i)) := by
  cases hl : (s.surfaces.slots i).locked with
  | false =>
    have hsame : Registry.unlock (s.registry.slots i) = s.registry.slots i :=
      if_neg (by rw [show (s.registry.slots i).locked = false from hl]; decide)
    rw [flushLock_unlocked s.gmem hl, hsame, Registry.set, update_eq_self]
  | true =>
    rw [show s.registry.slots i = (s.surfaces.slots i).abs s.gmem from rfl, ← abs_flushed s.gmem hl]
    exact registry_update rfl (h.flushLock_slots s.gmem hl) fun _ _ _ => rfl

theorem surfaceRelease_abs (h : SessionOK s) (token : Nat) :
    SessionOK (surfaceRelease s token)
      ∧ (surfaceRelease s token).registry = s.registry.release token := by
  have hbudget := h.budget.releaseLock token
  unfold surfaceRelease Registry.release at *
  rw [findLock_registry]
  cases ht : resolveLockview s.surfaces token with
  | none => exact ⟨h, rfl⟩
  | some i =>
    rw [ht] at hbudget
    exact ⟨⟨hbudget, h.noDebug, h.surfaces.flushLock s.gmem i⟩, registry_flushLock h.surfaces i⟩

end Release

/-! ## Freeing -/

section Free

variable {r : SurfaceRegistry} {i : Fin surfaceMax}

def SurfaceSlot.freed (s : SurfaceSlot) : SurfaceSlot :=
  { s with pixels := none, inUse := false, owned := false, gen := (s.gen + 1) % 2 ^ 16 }

theorem freeSlot_unused (hi : (r.slots i).inUse = false) : surfaceFreeSlot r i = r :=
  if_pos (by rw [hi]; rfl)

theorem RegistryOK.freeSlot_slots (h : RegistryOK r) (hne : i ≠ 0) (hi : (r.slots i).inUse = true) :
    (surfaceFreeSlot r i).slots = Function.update r.slots i (r.slots i).freed
      ∧ (surfaceFreeSlot r i).activeLocks = r.activeLocks
      ∧ (surfaceFreeSlot r i).lockBump = r.lockBump := by
  have hscreen : (r.slots i).isScreen = false := by
    rw [← Bool.not_eq_true, h.isScreen]
    exact hne
  unfold surfaceFreeSlot
  rw [if_neg (by rw [hi, hscreen]; decide)]
  exact ⟨rfl, rfl, rfl⟩

theorem RegistryOK.freeSlot (h : RegistryOK r) (hne : i ≠ 0)
    (hl : (r.slots i).locked = false) : RegistryOK (surfaceFreeSlot r i) := by
  cases hi : (r.slots i).inUse with
  | false =>
    rw [freeSlot_unused hi]
    exact h
  | true =>
    obtain ⟨hslots, hactive, hbump⟩ := h.freeSlot_slots hne hi
    refine h.update hslots rfl (h.direct i) (fun h0 => absurd h0 hne) nofun
      (fun hl' => ?_) (fun hl' => ?_) ?_
      (fun _ _ _ => hbump.ge) (hbump ▸ h.bump)
    · exact absurd (hl.symm.trans hl') (by decide)
    · exact absurd (hl.symm.trans hl') (by decide)
    · rw [hactive]
      rfl

theorem registry_freeSlot {s : Session} (h : RegistryOK s.surfaces) (hne : i ≠ 0) :
    registry { s with surfaces := surfaceFreeSlot s.surfaces i }
      = s.registry.set i (Registry.free (s.registry.slots i)) := by
  cases hi : (s.surfaces.slots i).inUse with
  | false =>
    have hlive : (s.registry.slots i).live = none := if_neg (by rw [hi]; decide)
    have hsame : Registry.free (s.registry.slots i) = s.registry.slots i :=
      if_neg (by rw [hlive]; decide)
    rw [freeSlot_unused hi, hsame, Registry.set, update_eq_self]
  | true =>
    have hnew : (s.surfaces.slots i).freed.abs s.gmem = Registry.free (s.registry.slots i) := by
      rw [Registry.free, if_pos (by rw [registry_live hi]; rfl)]
      rfl
    rw [← hnew]
    exact registry_update rfl (h.freeSlot_slots hne hi).1 fun _ _ _ => rfl

end Free

/-! ## Reaping -/

/-- A loop that changes each slot of a list, once or more often. -/
theorem Registry.foldl_set {f : RegSlot → RegSlot} (hf : ∀ s, f (f s) = f s)
    (is : List (Fin surfaceMax)) (r : Registry) :
    is.foldl (fun r i => r.set i (f (r.slots i))) r
      = { r with slots := fun j => if j ∈ is then f (r.slots j) else r.slots j } := by
  induction is generalizing r with
  | nil => rfl
  | cons i is ih =>
    rw [foldl_cons, ih]
    simp only [Registry.set, mk.injEq, true_and]
    funext j
    by_cases hj : j = i
    · subst hj
      rw [update_self, if_pos (mem_cons_self ..), hf, ite_self]
    · rw [update_of_ne hj]
      simp [hj]

variable (s : RegSlot)

theorem Registry.unlock_unlock : unlock (unlock s) = unlock s := by
  obtain ⟨gen, lockGen, locked, live⟩ := s
  cases locked <;> rfl

theorem Registry.free_free : free (free s) = free s := by
  obtain ⟨gen, lockGen, locked, live⟩ := s
  cases live <;> rfl

theorem Registry.locked_unlock : (unlock s).locked = false := by
  obtain ⟨gen, lockGen, locked, live⟩ := s
  cases locked <;> rfl

theorem Registry.locked_free : (free s).locked = s.locked := by
  unfold free
  split_ifs <;> rfl

section Reap

variable {s : Session}

theorem flushAll_abs (h : RegistryOK s.surfaces) (is : List (Fin surfaceMax)) :
    RegistryOK (is.foldl (surfaceFlushLock s.gmem) s.surfaces)
      ∧ registry { s with surfaces := is.foldl (surfaceFlushLock s.gmem) s.surfaces }
        = is.foldl (fun r i => r.set i (Registry.unlock (r.slots i))) s.registry := by
  induction is generalizing s with
  | nil => exact ⟨h, rfl⟩
  | cons i is ih =>
    rw [foldl_cons, foldl_cons, ← registry_flushLock h i]
    exact ih (s := { s with surfaces := surfaceFlushLock s.gmem s.surfaces i })
      (h.flushLock s.gmem i)

theorem freeAll_abs (h : RegistryOK s.surfaces) (hlocks : ∀ j, (s.surfaces.slots j).locked = false)
    (is : List (Fin surfaceMax)) (hne : ∀ i ∈ is, i ≠ 0) :
    RegistryOK (is.foldl surfaceFreeSlot s.surfaces)
      ∧ registry { s with surfaces := is.foldl surfaceFreeSlot s.surfaces }
        = is.foldl (fun r i => r.set i (Registry.free (r.slots i))) s.registry := by
  induction is generalizing s with
  | nil => exact ⟨h, rfl⟩
  | cons i is ih =>
    obtain ⟨hi, his⟩ := forall_mem_cons.mp hne
    have hreg := registry_freeSlot h hi
    rw [foldl_cons, foldl_cons, ← hreg]
    refine ih (s := { s with surfaces := surfaceFreeSlot s.surfaces i })
      (h.freeSlot hi (hlocks i)) (fun j => ?_) his
    have hj := congrArg (fun r => (r.slots j).locked) hreg
    refine hj.trans ?_
    show (Function.update s.registry.slots i _ j).locked = false
    by_cases hji : j = i
    · subst hji
      rw [update_self, locked_free]
      exact hlocks j
    · rw [update_of_ne hji]
      exact hlocks j

theorem RegistryOK.resetLocks {r : SurfaceRegistry} (h : RegistryOK r)
    (hlocks : ∀ j, (r.slots j).locked = false) :
    RegistryOK { r with lockBump := 0, activeLocks := 0 } := by
  refine ⟨h.screen, h.isScreen, h.direct, h.sized, fun i hl => ?_, h.apart, ?_, Nat.zero_le _⟩
  · exact absurd ((hlocks i).symm.trans hl) (by decide)
  · have hzero : ∑ i, (r.slots i).lockCount = 0 :=
      Finset.sum_eq_zero fun i _ => by rw [lockCount, hlocks i]; rfl
    rw [hzero]
    rfl

theorem reapSlots_abs (h : RegistryOK s.surfaces) :
    RegistryOK (surfaceReapSlots s.gmem s.surfaces)
      ∧ registry { s with surfaces := surfaceReapSlots s.gmem s.surfaces } = s.registry.reap := by
  unfold surfaceReapSlots
  obtain ⟨h1, hreg1⟩ := flushAll_abs h (finRange surfaceMax)
  rw [foldl_set unlock_unlock] at hreg1
  generalize (finRange surfaceMax).foldl (surfaceFlushLock s.gmem) s.surfaces = r1 at h1 hreg1 ⊢
  have hslot1 : ∀ j, (registry { s with surfaces := r1 }).slots j
      = Registry.unlock (s.registry.slots j) := fun j => by
    rw [hreg1]
    exact if_pos (mem_finRange j)
  have hlocks1 := fun j => (congrArg RegSlot.locked (hslot1 j)).trans (locked_unlock _)
  obtain ⟨h2, hreg2⟩ := freeAll_abs h1 hlocks1
    ((finRange surfaceMax).drop 1) (fun i => mem_drop_one.mp)
  rw [foldl_set free_free] at hreg2
  simp only at h2 hreg2 ⊢
  generalize ((finRange surfaceMax).drop 1).foldl surfaceFreeSlot r1 = r2 at h2 hreg2 ⊢
  have hreap : registry { s with surfaces := r2 } = s.registry.reap := by
    rw [hreg2]
    simp only [reap, hslot1, Registry.mk.injEq]
    refine ⟨rfl, funext fun j => ?_⟩
    by_cases hj : j = 0
    · rw [if_neg (fun hm => mem_drop_one.mp hm hj), if_pos hj]
    · rw [if_pos (mem_drop_one.mpr hj), if_neg hj]
  refine ⟨h2.resetLocks fun j => ?_, hreap⟩
  refine (congrArg (fun r => (r.slots j).locked) hreap).trans ?_
  simp only [reap]
  split_ifs
  · exact locked_unlock _
  · exact (locked_free _).trans (locked_unlock _)

end Reap

/-! ## The calls that publish -/

section Publish

variable {s : Session}

theorem publish_keeps (s : Session) :
    (memAcctPublishFootprint s).surfaces = s.surfaces
      ∧ (memAcctPublishFootprint s).cartIsDebug = s.cartIsDebug
      ∧ (memAcctPublishFootprint s).registry = s.registry := by
  unfold memAcctPublishFootprint
  split_ifs
  · exact ⟨rfl, rfl, rfl⟩
  · split
    · exact ⟨rfl, rfl, rfl⟩
    · exact ⟨rfl, rfl, rfl⟩

theorem runFrameEntry_abs (h : SessionOK s) :
    SessionOK (runFrameEntry s false false)
      ∧ (runFrameEntry s false false).registry = s.registry.reap := by
  obtain ⟨hok, hreg⟩ := reapSlots_abs h.surfaces
  have hbudget := h.budget.frame false false
  have heq : runFrameEntry s false false = memAcctPublishFootprint (memAcctPublishFootprint
      { s with resourceScratchOff := 0
               resources := resourceTableForceReleasePins s.resources
               surfaces := surfaceReapSlots s.gmem s.surfaces }) := rfl
  rw [heq] at hbudget ⊢
  refine ⟨⟨hbudget, ?_, ?_⟩, ?_⟩
  · rw [(publish_keeps _).2.1, (publish_keeps _).2.1]
    exact h.noDebug
  · rw [(publish_keeps _).1, (publish_keeps _).1]
    exact hok
  · rw [(publish_keeps _).2.2, (publish_keeps _).2.2]
    exact hreg

theorem surfaceDestroy_release (h : s.cartIsDebug = false) (handle : Nat) :
    surfaceDestroy s handle
      = match s.unlocked handle with
        | none => s
        | some i =>
          if (s.surfaces.slots i).isScreen then s
          else memAcctPublishFootprint { s with surfaces := surfaceFreeSlot s.surfaces i } := by
  unfold surfaceDestroy unlocked
  simp only [lockGate_release h]
  cases resolveSurface s.surfaces handle with
  | none => rfl
  | some i =>
    rw [any_some, filter_some]
    cases (s.surfaces.slots i).locked with
    | true => rfl
    | false => rfl

theorem surfaceDestroy_eq (h : SessionOK s) (handle : Nat) :
    surfaceDestroy s handle
      = match s.unlocked handle with
        | none => s
        | some i =>
          if i = 0 then s
          else memAcctPublishFootprint { s with surfaces := surfaceFreeSlot s.surfaces i } := by
  rw [surfaceDestroy_release h.noDebug]
  cases s.unlocked handle with
  | none => rfl
  | some i => simp only [h.surfaces.isScreen i]

theorem freeSlot_abs (h : SessionOK s) {i : Fin surfaceMax} (hne : i ≠ 0)
    (hl : (s.surfaces.slots i).locked = false) :
    SessionOK (memAcctPublishFootprint { s with surfaces := surfaceFreeSlot s.surfaces i })
      ∧ (memAcctPublishFootprint { s with surfaces := surfaceFreeSlot s.surfaces i }).registry
        = s.registry.set i (Registry.free (s.registry.slots i)) := by
  obtain ⟨c, hr, -, -⟩ := id h.budget
  refine ⟨⟨h.budget.release rfl rfl rfl ⟨hr.packed, le_rfl⟩ (hr.surf.freeSlot i), ?_, ?_⟩, ?_⟩
  · rw [(publish_keeps _).2.1]
    exact h.noDebug
  · rw [(publish_keeps _).1]
    exact h.surfaces.freeSlot hne hl
  · rw [(publish_keeps _).2.2]
    exact registry_freeSlot h.surfaces hne

theorem surfaceCreate_eq (h : s.cartIsDebug = false) (w ht : Int) :
    surfaceCreate false s w ht
      = if s.phase ≠ .draw ∨ BadSize w ht
            ∨ memAllocFits (memAcctGuestHeapUsed s) (ctxNonEvictableFootprint s) (slotArea w ht)
              = false then (handleNone, s)
        else
          match firstFreeSlot s.surfaces with
          | none => (handleNone, s)
          | some i =>
            (surfaceEncode (s.surfaces.slots i).gen i,
              memAcctPublishFootprint { s with surfaces := surfaceOccupy s.surfaces i w ht }) := by
  unfold surfaceCreate
  rw [phaseGate_release h]
  by_cases hp : s.phase = .draw
  · rw [decide_eq_true hp]
    simp only
    unfold surfaceCreateSlot BadSize
    split <;> rename_i hbad
    · rw [if_pos (.inr (.inl hbad))]
    · cases hfit : memAllocFits (memAcctGuestHeapUsed s) (ctxNonEvictableFootprint s)
          (slotArea w ht) with
      | false => exact (if_pos (.inr (.inr rfl))).symm
      | true =>
        rw [if_neg (by decide), if_neg (by rintro (h | h | h); exacts [h hp, hbad h, nomatch h])]
        cases firstFreeSlot s.surfaces with
        | none => rfl
        | some =>
          simp only [surfaceOccupy, SurfaceRegistry.set, update_self]
          rfl
  · rw [decide_eq_false hp, if_pos (.inl hp)]

def SurfaceSlot.occupied (s : SurfaceSlot) (w ht : Int) : SurfaceSlot :=
  { s with pixels := some (replicate (slotArea w ht) 0), w := w, h := ht
           inUse := true, isScreen := false, owned := true }

theorem occupy_abs (h : SessionOK s) {i : Fin surfaceMax} {w ht : Int}
    (hbad : ¬ BadSize w ht) (hfree : firstFreeSlot s.surfaces = some i) :
    RegistryOK (surfaceOccupy s.surfaces i w ht)
      ∧ registry { s with surfaces := surfaceOccupy s.surfaces i w ht }
        = s.registry.set i { s.registry.slots i with
            live := some ⟨w, ht, replicate (w.toNat * ht.toNat) 0⟩ } := by
  have hi := firstFreeSlot_free hfree
  have hne := mem_drop_one.mp (mem_of_find?_eq_some hfree)
  have hl : (s.surfaces.slots i).locked = false := by
    by_contra hl
    exact absurd ((h.surfaces.lockedIn i (by simpa using hl)).inUse.symm.trans hi) (by decide)
  have hscreen : (s.surfaces.slots i).isScreen = false := by
    rw [← Bool.not_eq_true, h.surfaces.isScreen]
    exact hne
  unfold BadSize at hbad
  have hw : 0 < w ∧ w ≤ surfaceMaxDim := by omega
  have hh : 0 < ht ∧ ht ≤ surfaceMaxDim := by omega
  have harea := slotArea_eq hw.1 hw.2 hh.1 hh.2
  have hslots : (surfaceOccupy s.surfaces i w ht).slots
      = Function.update s.surfaces.slots i ((s.surfaces.slots i).occupied w ht) := rfl
  constructor
  · refine h.surfaces.update hslots hscreen.symm (h.surfaces.direct i) (fun h0 => absurd h0 hne)
      (fun _ => ⟨⟨_, rfl, ?_⟩, hw, hh⟩) (fun hl' => ?_) (fun hl' => ?_) rfl
      (fun _ _ _ => le_rfl) h.surfaces.bump
    · rw [length_replicate, harea]
      rfl
    · exact absurd (hl.symm.trans hl') (by decide)
    · exact absurd (hl.symm.trans hl') (by decide)
  · have hnew : ((s.surfaces.slots i).occupied w ht).abs s.gmem
        = { s.registry.slots i with
            live := some ⟨w, ht, replicate (w.toNat * ht.toNat) 0⟩ } := by
      have hview : ((s.surfaces.slots i).occupied w ht).view s.gmem
          = replicate (slotArea w ht) 0 := if_neg (by rw [Bool.not_eq_true]; exact hl)
      rw [SurfaceSlot.abs, hview, ← harea]
      rfl
    rw [← hnew]
    exact registry_update rfl hslots fun _ _ _ => rfl

/-- What the host's budget check lets in. -/
def Session.fits (s : Session) (w ht : Int) : Bool :=
  memAllocFits (memAcctGuestHeapUsed s) (ctxNonEvictableFootprint s) (slotArea w ht)

theorem surfaceCreate_abs (h : SessionOK s) (c : RowCopy) (w ht : Int) :
    SessionOK (surfaceCreate false s w ht).2
      ∧ ((surfaceCreate false s w ht).2.registry,
          SurfaceAnswer.handle (surfaceCreate false s w ht).1)
        = s.registry.create ⟨s.fits, c⟩ w ht := by
  have hbudget := h.budget.create (Nat.zero_le _) false w ht
  rw [surfaceCreate_eq h.noDebug] at hbudget ⊢
  unfold Registry.create
  rw [firstFree_registry]
  show _ ∧ _ = (if s.phase ≠ .draw ∨ BadSize w ht ∨ s.fits w ht = false then _ else _)
  unfold fits
  split_ifs at hbudget ⊢ with hno
  · exact ⟨h, rfl⟩
  · cases hfree : firstFreeSlot s.surfaces with
    | none => exact ⟨h, rfl⟩
    | some =>
      rw [hfree] at hbudget
      obtain ⟨hok, hreg⟩ := occupy_abs h (fun hbad => hno (.inr (.inl hbad))) hfree
      refine ⟨⟨hbudget, ?_, ?_⟩, Prod.ext ?_ rfl⟩
      · exact (publish_keeps _).2.1.trans h.noDebug
      · rw [(publish_keeps _).1]
        exact hok
      · exact (publish_keeps _).2.2.trans hreg

end Publish

/-! ## Acquire -/

variable {t : SurfaceSlot}

section Acquire

variable {s : Session} {i : Fin surfaceMax}

/-- A lock region is a multiple of four bytes. -/
def SurfaceSlot.lockBytes (t : SurfaceSlot) : Nat := u32 (slotArea t.w t.h + 3) &&& (2 ^ 32 - 4)

/-- The lock arena still has room for this slot. -/
def LockRoom (s : Session) (i : Fin surfaceMax) : Prop :=
  s.surfaces.lockBump + (s.surfaces.slots i).lockBytes ≤ lockArenaSize

instance (s : Session) (i : Fin surfaceMax) : Decidable (LockRoom s i) := by
  unfold LockRoom
  infer_instance

def SurfaceSlot.lockedAt (t : SurfaceSlot) (phantom : Bool) (vaddr : Nat) : SurfaceSlot :=
  { t with locked := true, lockPhantom := phantom, lockVaddr := vaddr
           lockLen := slotArea t.w t.h }

/-- The session once slot `i` is locked. -/
def Session.lock (s : Session) (i : Fin surfaceMax) (phantom : Bool) : Session :=
  let t := s.surfaces.slots i
  let vaddr := lockArenaBase + s.surfaces.lockBump
  { s with
    surfaces := { s.surfaces.set i (t.lockedAt phantom vaddr) with
      lockBump := u32 (s.surfaces.lockBump + t.lockBytes)
      activeLocks := s.surfaces.activeLocks + 1 }
    gmem := writeGuest s.gmem vaddr
      (if phantom then replicate (slotArea t.w t.h) 0
        else (t.pixels.getD []).take (slotArea t.w t.h)) }

theorem surfaceAcquireLock_eq (s : Session) (handle : Nat) (phantom : Bool) :
    surfaceAcquireLock s handle phantom
      = match s.unlocked handle with
        | none => (none, s)
        | some i =>
          if LockRoom s i then
            (some (lockArenaBase + s.surfaces.lockBump, (s.surfaces.slots i).w,
              (s.surfaces.slots i).w, (s.surfaces.slots i).h,
              lockviewEncode (s.surfaces.slots i).lockGen i), s.lock i phantom)
          else (none, s) := by
  unfold surfaceAcquireLock unlocked
  cases hs : resolveSurface s.surfaces handle with
  | none => rfl
  | some i =>
    rw [filter_some, (resolveSurface_some hs).2]
    have hfull : lockArenaSize < s.surfaces.lockBump
        + (u32 (slotArea (s.surfaces.slots i).w (s.surfaces.slots i).h + 3) &&& (2 ^ 32 - 4))
        ↔ ¬ LockRoom s i := not_le.symm
    cases hl : (s.surfaces.slots i).locked with
    | true =>
      simp only [hl]
      rfl
    | false =>
      simp only [hl]
      by_cases hroom : LockRoom s i
      · rw [if_neg (mt hfull.mp (not_not.mpr hroom))]
        exact (if_pos hroom).symm
      · rw [if_pos (hfull.mpr hroom)]
        exact (if_neg hroom).symm

/-- Outside `draw()` a release cart gets a phantom. -/
theorem surfaceAcquire_eq (h : s.cartIsDebug = false) (handle : Nat) :
    surfaceAcquire s handle = surfaceAcquireLock s handle (decide (s.phase ≠ .draw)) := by
  unfold surfaceAcquire
  rw [phaseGate_release h]
  by_cases hp : s.phase = .draw
  · rw [decide_eq_true hp, decide_eq_false (not_not.mpr hp)]
  · rw [decide_eq_false hp, decide_eq_true hp]
    simp only [h]
    rfl

theorem SurfaceSlot.Sized.slotArea (h : t.Sized) : slotArea t.w t.h = t.area :=
  slotArea_eq h.w.1 h.w.2 h.h.1 h.h.2

theorem SurfaceSlot.Sized.area_le (h : t.Sized) : t.area ≤ 8192 * 8192 := by
  have hw := h.w
  have hh := h.h
  simp only [surfaceMaxDim] at hw hh
  exact Nat.mul_le_mul (by omega) (by omega)

theorem SurfaceSlot.Sized.le_lockBytes (h : t.Sized) : t.area ≤ t.lockBytes := by
  have harea := h.area_le
  have hmask := land_mask (k := 2) (x := t.area + 3) (by norm_num) (by omega)
  rw [lockBytes, h.slotArea, u32_of_lt (by omega)]
  show t.area ≤ t.area + 3 &&& (2 ^ 32 - 2 ^ 2)
  omega

/-- **A lock in `draw()`** takes a region behind all others and copies the surface to it. -/
theorem lock_abs (h : SessionOK s) (hi : (s.surfaces.slots i).inUse = true)
    (hl : (s.surfaces.slots i).locked = false) (hroom : LockRoom s i) :
    SessionOK (s.lock i false)
      ∧ (s.lock i false).registry = s.registry.set i
        { s.registry.slots i with locked := true } := by
  have hsized := h.surfaces.sized i hi
  have hbytes := hsized.le_lockBytes
  obtain ⟨px, hpx, hview, hlen⟩ := h.view_eq hi hl
  obtain ⟨c, hr, -, -⟩ := id h.budget
  have hbump : (s.lock i false).surfaces.lockBump
      = s.surfaces.lockBump + (s.surfaces.slots i).lockBytes :=
    u32_of_lt (lt_of_le_of_lt hroom (by norm_num [lockArenaSize]))
  have hslots : (s.lock i false).surfaces.slots = Function.update s.surfaces.slots i
      ((s.surfaces.slots i).lockedAt false (lockArenaBase + s.surfaces.lockBump)) := rfl
  have hgmem : (s.lock i false).gmem
      = writeGuest s.gmem (lockArenaBase + s.surfaces.lockBump) px := by
    show writeGuest _ _ (((s.surfaces.slots i).pixels.getD []).take _) = _
    rw [hpx, getD_some, take_of_length_le (by rw [hsized.slotArea, hlen])]
  constructor
  · refine h.setSlot hslots rfl rfl rfl rfl rfl rfl ?_ (hr.surf.slots i) rfl
    refine h.surfaces.update hslots rfl (h.surfaces.direct i) (fun h0 => ?_)
      (fun _ => ⟨hsized.px, hsized.w, hsized.h⟩) (fun _ => ?_) (fun _ j hj hlj => .inr ?_) ?_
      (fun _ _ _ => hbump ▸ Nat.le_add_right _ _) (hbump ▸ hroom)
    · subst h0
      exact h.surfaces.screen
    · refine ⟨hi, rfl, hsized.slotArea, Nat.le_add_right _ _, ?_⟩
      show lockArenaBase + s.surfaces.lockBump + slotArea _ _ ≤ _
      rw [hsized.slotArea]
      omega
    · exact (h.surfaces.lockedIn j hlj).hi
    · rw [lockCount, hl]
      exact add_zero _
  · have hnew : ((s.surfaces.slots i).lockedAt false (lockArenaBase + s.surfaces.lockBump)).abs
        (s.lock i false).gmem = { s.registry.slots i with locked := true } := by
      have hread := readGuest_writeGuest s.gmem (lockArenaBase + s.surfaces.lockBump) px
      rw [hlen, ← hsized.slotArea] at hread
      have hnew : ((s.surfaces.slots i).lockedAt false (lockArenaBase + s.surfaces.lockBump)).view
          (s.lock i false).gmem = (s.surf i).px := by
        rw [hgmem, hview]
        exact hread
      rw [SurfaceSlot.abs, hnew]
      rfl
    rw [← hnew]
    refine registry_update rfl hslots fun j hj hlj => ?_
    exact readGuest_writeGuest_apart (.inr (h.surfaces.lockedIn j hlj).hi)

end Acquire

/-! ## Every call -/

namespace HostLeg

variable {E : HostEnv} {h : HostLeg}

def gates (E : HostEnv) (h : HostLeg) : Gates := ⟨h.session.fits, E.copy⟩

/-- Where an emulated call does what a registry is for: a `destroy` of a live surface
comes in `draw()`; an `acquire` finds room in the lock arena exactly in `draw()`; and at
the end of a frame the cart has drawn and its screen is not locked with pixels that the
canonical screen lacks, or the test card is what the cart has on the screen. -/
def Follows (E : HostEnv) (h : HostLeg) : SurfaceCall → Prop
  | .destroy handle => ∀ i ∈ h.session.unlocked handle, i ≠ 0 → h.session.phase = .draw
  | .acquire handle =>
    ∀ i ∈ h.session.unlocked handle, LockRoom h.session i ↔ h.session.phase = .draw
  | .frameDone =>
    let t := h.session.surfaces.slots 0
    if h.cartHasDrawn then
      t.locked = true → readGuest h.session.gmem t.lockVaddr t.lockLen = t.pixels.getD []
    else E.card h.frameCount = t.view h.session.gmem
  | _ => True

instance (E : HostEnv) (h : HostLeg) (call : SurfaceCall) : Decidable (h.Follows E call) := by
  induction call using SurfaceCall.casesOn <;> unfold Follows <;> infer_instance

theorem follows_frame :
    h.Follows E .frameDone ↔ h.shown E = (h.session.surfaces.slots 0).view h.session.gmem := by
  simp only [Follows, shown, view]
  split_ifs with hd hl
  · exact ⟨fun h => (h hl).symm, fun h _ => h.symm⟩
  · exact ⟨fun _ => rfl, fun _ h => absurd h hl⟩
  · exact Iff.rfl
  · exact Iff.rfl

theorem screen_abs (hok : SessionOK h.session) :
    h.abs.screen = (h.session.surfaces.slots 0).view h.session.gmem := by
  rw [screen, HostLeg.abs, registry_live hok.surfaces.screen.1]
  rfl

theorem length_shown (hok : SessionOK h.session) :
    (h.shown E).length = (h.session.surfaces.slots 0).area := by
  obtain ⟨hi, hw, hh⟩ := hok.surfaces.screen
  obtain ⟨px, hpx, hlen⟩ := (hok.surfaces.sized 0 hi).px
  unfold shown
  split_ifs
  · rw [hpx]
    exact hlen
  · rw [E.card_length, area, hw, hh]

/-- To show what the cart sees changes nothing. -/
theorem registry_show (hok : SessionOK h.session) {px : List UInt8}
    (hpx : px = (h.session.surfaces.slots 0).view h.session.gmem) :
    (setPixels h.session 0 px).registry = h.session.registry := by
  have hi := hok.surfaces.screen.1
  cases hl : (h.session.surfaces.slots 0).locked with
  | false =>
    rw [registry_setPixels hi hl, hpx]
    show h.session.registry.set 0 { h.session.registry.slots 0 with
      live := some (h.session.surf 0) } = _
    rw [← registry_live hi, Registry.set, update_eq_self]
  | true =>
    have hnew : SurfaceSlot.abs h.session.gmem
        { h.session.surfaces.slots 0 with pixels := some px } = h.session.registry.slots 0 := by
      rw [SurfaceSlot.abs, view, if_pos hl]
      show _ = SurfaceSlot.abs _ _
      rw [SurfaceSlot.abs, view, if_pos hl]
    have hreg : (setPixels h.session 0 px).registry
        = h.session.registry.set 0 (SurfaceSlot.abs h.session.gmem
          { h.session.surfaces.slots 0 with pixels := some px }) :=
      registry_update rfl rfl fun _ _ _ => rfl
    rw [hreg, hnew, Registry.set, update_eq_self]

theorem frameDone_abs (hok : SessionOK h.session) :
    SessionOK (h.frameDone E).1.session
      ∧ (h.Follows E .frameDone →
        ((h.frameDone E).1.abs, (h.frameDone E).2) = (h.abs.reap, .frame h.abs.screen)) := by
  have hset := hok.setPixels hok.surfaces.screen.1 (length_shown (E := E) hok)
  obtain ⟨hok', hreg⟩ := runFrameEntry_abs hset
  refine ⟨hok', fun hf => ?_⟩
  rw [screen_abs hok, ← follows_frame.mp hf]
  refine Prod.ext ?_ rfl
  exact hreg.trans (congrArg reap (registry_show hok (follows_frame.mp hf)))

theorem drawable_of_phase {s : Session} (hp : s.phase = .draw) (handle : Nat) :
    s.registry.drawable handle = (s.unlocked handle).map fun i => (i, s.surf i) := by
  rw [drawable_registry, Session.drawable, if_neg (not_not.mpr hp)]

theorem drawable_out_of_phase {s : Session} (hp : s.phase ≠ .draw) (handle : Nat) :
    s.registry.drawable handle = none := by
  rw [drawable_registry, Session.drawable, if_pos hp]
  rfl

theorem destroy_abs (hok : SessionOK h.session) (handle : Nat)
    (hf : h.Follows E (.destroy handle)) :
    SessionOK (surfaceDestroy h.session handle)
      ∧ (surfaceDestroy h.session handle).registry = h.abs.destroy handle := by
  rw [surfaceDestroy_eq hok]
  unfold Registry.destroy HostLeg.abs
  by_cases hp : h.session.phase = .draw
  · rw [drawable_of_phase hp]
    cases hu : h.session.unlocked handle with
    | none => exact ⟨hok, rfl⟩
    | some =>
      obtain ⟨-, hl⟩ := unlocked_eq_some.mp hu
      simp only [map_some]
      split_ifs with hi
      · exact ⟨hok, rfl⟩
      · exact freeSlot_abs hok hi hl
  · rw [drawable_out_of_phase hp]
    cases hu : h.session.unlocked handle with
    | none => exact ⟨hok, rfl⟩
    | some i =>
      have hi : i = 0 := not_not.mp fun hi => hp (hf i hu hi)
      simp only [if_pos hi]
      exact ⟨hok, trivial⟩

theorem acquire_abs (hok : SessionOK h.session) (handle : Nat)
    (hf : h.Follows E (.acquire handle)) :
    SessionOK (surfaceAcquire h.session handle).2
      ∧ ((surfaceAcquire h.session handle).2.registry,
          SurfaceAnswer.lock ((surfaceAcquire h.session handle).1.map Prod.snd))
        = h.abs.acquire handle := by
  rw [surfaceAcquire_eq hok.noDebug, surfaceAcquireLock_eq]
  unfold Registry.acquire HostLeg.abs
  by_cases hp : h.session.phase = .draw
  · rw [drawable_of_phase hp]
    cases hu : h.session.unlocked handle with
    | none => exact ⟨hok, rfl⟩
    | some i =>
      obtain ⟨hs, hl⟩ := unlocked_eq_some.mp hu
      have hroom := (hf i hu).mpr hp
      obtain ⟨hok', hreg⟩ := lock_abs hok (resolveSurface_some hs).1 hl hroom
      simp only [if_pos hroom, map_some, decide_eq_false (not_not.mpr hp)]
      exact ⟨hok', Prod.ext hreg rfl⟩
  · rw [drawable_out_of_phase hp]
    cases hu : h.session.unlocked handle with
    | none => exact ⟨hok, rfl⟩
    | some i =>
      have hroom : ¬ LockRoom h.session i := fun hroom => hp ((hf i hu).mp hroom)
      simp only [if_neg hroom]
      exact ⟨hok, rfl⟩

/-- **Every emulated call does what a registry is for**, where it `Follows`. -/
theorem step_abs (hok : SessionOK h.session) (call : SurfaceCall) (hf : h.Follows E call) :
    SessionOK (h.step E call).1.session
      ∧ ((h.step E call).1.abs, (h.step E call).2) = h.abs.step (h.gates E) call := by
  cases call with
  | phase =>
    exact ⟨⟨hok.budget.congr rfl rfl rfl ⟨hok.budget.choose_spec.1.surf, rfl⟩ rfl, hok.noDebug,
      hok.surfaces⟩, rfl⟩
  | create w ht => exact surfaceCreate_abs hok E.copy w ht
  | destroy handle =>
    obtain ⟨hok', hreg⟩ := destroy_abs hok handle hf
    exact ⟨hok', Prod.ext hreg rfl⟩
  | draw dst op => exact surfaceDraw_abs hok dst op
  | blit dst src x y =>
    obtain ⟨hok', hreg⟩ := surfaceBlit_abs E h.session.fits hok dst src x y
    exact ⟨hok', Prod.ext hreg rfl⟩
  | acquire handle => exact acquire_abs hok handle hf
  | write token off color =>
    obtain ⟨hok', hreg⟩ := lockWrite_abs hok token off color
    exact ⟨hok', Prod.ext hreg rfl⟩
  | release token =>
    obtain ⟨hok', hreg⟩ := surfaceRelease_abs hok token
    exact ⟨hok', Prod.ext hreg rfl⟩
  | frameDone =>
    obtain ⟨hok', hstep⟩ := frameDone_abs hok
    exact ⟨hok', hstep hf⟩

/-- **Elsewhere it does something else.** -/
theorem step_diverges (hok : SessionOK h.session) (call : SurfaceCall) (g : Gates)
    (hf : ¬ h.Follows E call) : ((h.step E call).1.abs, (h.step E call).2) ≠ h.abs.step g call := by
  intro heq
  apply hf
  cases call with
  | destroy handle =>
    -- outside of the phase the surface is gone, and the registry still has it
    intro i hu hi
    by_contra hp
    have hstep : (surfaceDestroy h.session handle).registry = h.session.registry := by
      have hd : h.abs.destroy handle = h.session.registry := by
        unfold Registry.destroy HostLeg.abs
        rw [drawable_out_of_phase hp]
      exact (congrArg Prod.fst heq).trans hd
    obtain ⟨hs, hl⟩ := unlocked_eq_some.mp hu
    rw [surfaceDestroy_eq hok, mem_def.mp hu] at hstep
    simp only [if_neg hi] at hstep
    rw [(freeSlot_abs hok hi hl).2] at hstep
    have hslot := congrArg (fun r => (r.slots i).live) hstep
    simp only [Registry.set, update_self, registry_live (resolveSurface_some hs).1,
      Registry.free] at hslot
    cases hslot
  | acquire handle =>
    intro i hu
    have hlock : SurfaceAnswer.lock ((surfaceAcquire h.session handle).1.map Prod.snd)
        = (h.abs.acquire handle).2 := congrArg Prod.snd heq
    rw [surfaceAcquire_eq hok.noDebug, surfaceAcquireLock_eq, mem_def.mp hu] at hlock
    unfold Registry.acquire HostLeg.abs at hlock
    by_cases hp : h.session.phase = .draw
    · refine iff_of_true ?_ hp
      by_contra hroom
      rw [drawable_of_phase hp, mem_def.mp hu] at hlock
      simp only [if_neg hroom, map_some] at hlock
      cases hlock
    · refine iff_of_false (fun hroom => ?_) hp
      rw [drawable_out_of_phase hp] at hlock
      simp only [if_pos hroom] at hlock
      cases hlock
  | frameDone =>
    have hframe : SurfaceAnswer.frame (h.shown E) = .frame h.abs.screen := congrArg Prod.snd heq
    rw [follows_frame, ← screen_abs hok]
    exact SurfaceAnswer.frame.inj hframe
  | _ => trivial

end HostLeg

end Blyt
