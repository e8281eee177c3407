import Blyt.SurfaceSound

/-!
# The lock arena

A lock gets its region from a bump allocator of 32 MiB, twice the budget that all surfaces share;
the comment on `blyt_surface_acquire_lock` concludes that the arena cannot run out. But a region
that is released is not used again before the last lock is: `blyt_surface_flush_lock` resets the
allocator only when no lock is held. So what counts is not the size of the locks that are held
but of all that were granted since no lock was held last (`arenaLoad`), which has no bound.
-/

namespace Blyt

open HostLeg

/-- A size rounded up to whole words. -/
def wordBytes (n : Nat) : Nat := (n + 3) / 4 * 4

theorem SurfaceSlot.Sized.lockBytes_eq {t : SurfaceSlot} (h : t.Sized) :
    t.lockBytes = wordBytes t.area := by
  have harea := h.area_le
  rw [SurfaceSlot.lockBytes, h.slotArea, u32_of_lt (by omega)]
  exact land_mask (k := 2) (by norm_num) (by omega)

/-! ## What has been granted -/

def NoLocks (r : SurfaceRegistry) : Prop := ∀ i, (r.slots i).locked = false

instance (r : SurfaceRegistry) : Decidable (NoLocks r) := inferInstanceAs (Decidable (∀ _, _))

instance (t : SurfaceSlot) : Decidable t.HasRegion := inferInstanceAs (Decidable (_ ∧ _))

/-- The sizes of the locks with a region that `r'` has and `r` has not. -/
def granted (r r' : SurfaceRegistry) : Nat :=
  ∑ i, if (r.slots i).locked = false ∧ (r'.slots i).HasRegion
    then wordBytes (r'.slots i).area else 0

/-- The sizes of the locks granted since no lock was held last; `n` before the operations. -/
def arenaLoad (E : HostEnv) : HostLeg → Nat → List SurfaceOp → Nat
  | _, n, [] => n
  | h, n, op :: ops =>
    let r := h.session.surfaces
    let r' := (h.opStep E op).1.session.surfaces
    arenaLoad E (h.opStep E op).1 (if NoLocks r' then 0 else n + granted r r') ops

section Moves

variable {r r' : SurfaceRegistry} {m : ByteMem}

theorem granted_eq_zero (h : ∀ i, (r'.slots i).HasRegion → (r.slots i).locked = true) :
    granted r r' = 0 := by
  refine Finset.sum_eq_zero fun i _ => if_neg ?_
  rintro ⟨hl, hr⟩
  rw [h i hr] at hl
  cases hl

theorem RegInv.noLocks_iff (h : RegInv r) : NoLocks r ↔ r.activeLocks = 0 := by
  rw [h.count, Int.natCast_eq_zero, Finset.sum_eq_zero_iff]
  refine ⟨fun hn i _ => RegInv.lockCount_of_unlocked (hn i), fun hs i => ?_⟩
  have hi := hs i (Finset.mem_univ i)
  rw [SurfaceSlot.lockCount] at hi
  simpa using hi

/-- An operation that neither locks nor unlocks leaves the arena as it is. -/
theorem bump_of_same (hempty : NoLocks r → r.lockBump = 0)
    (hl : ∀ i, (r'.slots i).locked = (r.slots i).locked) (hbump : r'.lockBump = r.lockBump) :
    r'.lockBump = if NoLocks r' then 0 else r.lockBump + granted r r' := by
  have hzero : granted r r' = 0 := granted_eq_zero fun i hr => (hl i).symm.trans hr.1
  rw [hbump, hzero]
  split_ifs with hn
  · exact hempty fun i => (hl i).symm.trans (hn i)
  · rfl

theorem update_locked {i : Fin surfaceMax} {t : SurfaceSlot} (ht : t.locked = (r.slots i).locked)
    (j : Fin surfaceMax) : (Function.update r.slots i t j).locked = (r.slots j).locked :=
  forall_of_update rfl (p := fun j (t : SurfaceSlot) => t.locked = (r.slots j).locked) ht
    (fun _ _ => rfl) j

/-- **The bump pointer is what was granted since no lock was held.** -/
theorem RegInv.bump_move {a : Access} (h : RegInv r) (hempty : NoLocks r → r.lockBump = 0)
    (hm : RegMove a m r r') :
    r'.lockBump = if NoLocks r' then 0 else r.lockBump + granted r r' := by
  have hreap : ∀ q, NoLocks (surfaceReapSlots m q) := by
    intro q i
    rw [reapSlots_slots]
    split_ifs
    · exact unlock_locked m _
    · rw [release_locked]
      exact unlock_locked m _
  have hreap' : ∀ q, (surfaceReapSlots m q).lockBump = 0 := fun q => by
    simp only [surfaceReapSlots]
  cases hm with
  | idle => exact bump_of_same hempty (fun _ => rfl) rfl
  | paint i px hl hpx | lockPaint i px ha hd hpx | present px ha hpx
  | occupy => exact bump_of_same hempty (update_locked rfl) rfl
  | free i =>
    refine bump_of_same hempty ?_ (RegInv.freeSlot_locks r i).2
    rw [freeSlot_slots]
    exact update_locked (release_locked _)
  | lock i phantom hu hl hroom =>
    have hbump : (r.lockSlot i phantom).lockBump = r.lockBump + (r.slots i).lockBytes :=
      u32_of_lt (lt_of_le_of_lt hroom (by norm_num [lockArenaSize]))
    have hself : (r.lockSlot i phantom).slots i
        = (r.slots i).lockedAt phantom (lockArenaBase + r.lockBump) := Function.update_self ..
    have hother : ∀ j ≠ i, (r.lockSlot i phantom).slots j = r.slots j := fun j hj =>
      Function.update_of_ne hj _ _
    have hregion : ((r.lockSlot i phantom).slots i).HasRegion := by
      refine ⟨by rw [hself]; rfl, ?_⟩
      rw [hself]
      show (r.slots i).lockDirect = false
      by_contra hd
      rw [((h.slot i).direct (by simpa using hd)).1] at hl
      cases hl
    have hgrant : granted r (r.lockSlot i phantom) = wordBytes (r.slots i).area := by
      unfold granted
      rw [Finset.sum_eq_single i, if_pos ⟨hl, hregion⟩, hself]
      · rfl
      · intro j _ hj
        rw [hother j hj]
        refine if_neg ?_
        rintro ⟨hl, hr, -⟩
        rw [hl] at hr
        cases hr
      · exact absurd (Finset.mem_univ i)
    have hlocks : ¬ NoLocks (r.lockSlot i phantom) := fun hn => by
      have hi := hn i
      rw [hregion.1] at hi
      cases hi
    rw [if_neg hlocks, hbump, hgrant, ((h.slot i).sized hu).lockBytes_eq]
  | direct i =>
    have hlocks : ¬ NoLocks (r.lockDirectly i) := fun hn => by
      have hi := hn i
      simp only [SurfaceRegistry.lockDirectly, SurfaceRegistry.set, Function.update_self] at hi
      cases hi
    have hzero : granted r (r.lockDirectly i) = 0 := by
      refine granted_eq_zero fun j hr => ?_
      unfold SurfaceRegistry.lockDirectly SurfaceRegistry.set at hr
      by_cases hj : j = i
      · subst hj
        simp only [Function.update_self] at hr
        cases hr.2
      · simp only [Function.update_of_ne hj] at hr
        exact hr.1
    rw [if_neg hlocks, hzero]
    rfl
  | flush i ha hl =>
    obtain ⟨hactive, hbump⟩ := h.flushLock_locks m hl
    have hzero : granted r (surfaceFlushLock m r i) = 0 := by
      refine granted_eq_zero fun j hr => ?_
      rw [flushLock_slots] at hr
      by_cases hj : j = i
      · subst hj
        exact hl
      · rw [Function.update_of_ne hj] at hr
        exact hr.1
    rw [hbump, hzero, ← hactive]
    exact if_congr ((h.flush m hl).noLocks_iff).symm rfl rfl
  | reap => rw [hreap', if_pos (hreap r)]
  | boundary => rw [hreap', if_pos (hreap _)]

end Moves

/-! ## Whole runs -/

theorem after_lockBump (E : HostEnv) {h : HostLeg} (hinv : RegInv h.session.surfaces)
    (hempty : NoLocks h.session.surfaces → h.session.surfaces.lockBump = 0) (ops : List SurfaceOp) :
    (h.after E ops).session.surfaces.lockBump = arenaLoad E h h.session.surfaces.lockBump ops := by
  induction ops generalizing h with
  | nil => rfl
  | cons op ops ih =>
    have hmove := h.opStep_move E op
    have hbump := hinv.bump_move hempty hmove
    rw [arenaLoad, ← hbump]
    refine ih (hinv.move hmove) fun hn => ?_
    rw [hbump, if_pos hn]

/-- **An acquire of a live, unlocked surface succeeds exactly if its size and those of all locks
granted since no lock was held last fit the arena together.** A direct lock always succeeds. -/
theorem acquire_succeeds_iff (E : HostEnv) (s : Session) (ops : List SurfaceOp) (handle : Nat)
    (i : Fin surfaceMax) (hu : ((start s).after E ops).session.unlocked handle = some i)
    (hgate : ((start s).after E ops).session.MayLock) :
    let h := (start s).after E ops
    ((∃ record, (h.opStep E (.call (.acquire handle))).2 = .lock (some record))
      ↔ arenaLoad E (start s) 0 ops + wordBytes (h.session.surfaces.slots i).area
        ≤ lockArenaSize)
    ∧ ∃ record, (h.opStep E (.luaAcquire handle)).2 = .lock (some record) := by
  intro h
  have hinv := after_regInv E s ops
  have huse := (resolveSurface_some (Session.unlocked_eq_some.mp hu).1).1
  have hbump : h.session.surfaces.lockBump = arenaLoad E (start s) 0 ops :=
    after_lockBump E newSurfaces_inv (fun _ => rfl) ops
  have hroom : LockRoom h.session i ↔ arenaLoad E (start s) 0 ops
      + wordBytes (h.session.surfaces.slots i).area ≤ lockArenaSize := by
    rw [LockRoom, hbump, ((hinv.slot i).sized huse).lockBytes_eq]
  refine ⟨?_, ?_⟩
  · rw [← hroom]
    show (∃ record, SurfaceAnswer.lock ((surfaceAcquire h.session handle).1.map Prod.snd)
      = .lock (some record)) ↔ _
    rw [surfaceAcquire_any, if_pos hgate, surfaceAcquireLock_eq, hu]
    simp only
    split_ifs with hr
    · exact iff_of_true ⟨_, rfl⟩ hr
    · exact iff_of_false (fun ⟨record, hrec⟩ => by cases hrec) hr
  · exact ⟨_, congrArg SurfaceAnswer.lock (congrArg (Option.map _) hu)⟩

/-- The screen stays locked while a surface of this size is locked and released. -/
def relockOps (w h : Int) : List SurfaceOp :=
  [.call (.phase .draw), .call (.create w h), .call (.acquire (surfaceEncode 0 0)),
   .call (.acquire (surfaceEncode 0 1)), .call (.release (lockviewEncode 0 1))]

/-- It can be locked again. -/
theorem acquire_succeeds_demo :
    ((start demoStart).after demoHostEnv (relockOps 16 8)).session.unlocked (surfaceEncode 0 1)
        = some 1
      ∧ ∃ record, (((start demoStart).after demoHostEnv (relockOps 16 8)).opStep
        demoHostEnv (.call (.acquire (surfaceEncode 0 1)))).2 = .lock (some record) :=
  ⟨by decide +kernel, (acquire_succeeds_iff demoHostEnv demoStart (relockOps 16 8)
    (surfaceEncode 0 1) 1 (by decide +kernel) (.inl (by decide +kernel))).1.mpr
    (by decide +kernel)⟩

/-- One surface of less than 16 MiB, live and unlocked, cannot be locked a second time. -/
theorem lock_arena_runs_out :
    (traceOf (opStep demoHostEnv) (start demoStart) (relockOps 4096 4095)).2
      = [.done, .handle (surfaceEncode 0 1), .lock (some (320, 320, 240, lockviewEncode 0 0)),
        .lock (some (4096, 4096, 4095, lockviewEncode 0 1)), .done]
    ∧ ((start demoStart).after demoHostEnv (relockOps 4096 4095)).session.unlocked
      (surfaceEncode 0 1) = some 1
    ∧ (((start demoStart).after demoHostEnv (relockOps 4096 4095)).opStep demoHostEnv
      (.call (.acquire (surfaceEncode 0 1)))).2 = .lock none :=
  ⟨by decide +kernel, by decide +kernel, by decide +kernel⟩

end Blyt
