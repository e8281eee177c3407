import Blyt.SurfaceSound

/-!
# How long a surface handle is good for

A handle holds the index of a slot and the generation that the slot had; `blyt_surface_free_slot`
counts the generation up, in 16 bits. So a handle resolves as long as its slot is not freed, and
after that again only when the slot is in use and has been freed a multiple of 65536 times. The
same holds of lock tokens with the lock generation, which `blyt_surface_flush_lock` counts up.

An operation frees a slot if the slot is in use before it and not after it: none frees a slot and
fills it again. `countSteps` counts such operations along a run.
-/

namespace Blyt

open Option Function

/-! ## Encoding -/

section Encode

variable {kind : Nat} (gen index : Nat)

theorem dynEncode_kind (hk : kind < 8) : dynEncode kind gen index / 2 ^ 29 = kind := by
  unfold dynEncode u32
  omega

theorem dynDecodeIndex_encode : dynDecodeIndex (dynEncode kind gen index) = index % 2 ^ 12 := by
  unfold dynDecodeIndex dynEncode u32
  omega

theorem dynDecodeGen_encode : dynDecodeGen (dynEncode kind gen index) = gen % 2 ^ 17 := by
  unfold dynDecodeGen dynEncode u32
  omega

theorem handleKind_surface : handleKind (surfaceEncode gen index) = .surface := by
  rewrite [handleKind, surfaceEncode, dynEncode_kind gen index (by norm_num)]
  rfl

theorem handleKind_lockview : handleKind (lockviewEncode gen index) = .lockview := by
  rewrite [handleKind, lockviewEncode, dynEncode_kind gen index (by norm_num)]
  rfl

/-- A handle of slot `i` stands for slot `i` while its generation is the current one. -/
theorem slotOf_encode {hk : HandleKind} (ok : Fin surfaceMax → Bool) (gens : Fin surfaceMax → Nat)
    (i : Fin surfaceMax) (hkind : handleKind (dynEncode kind gen i) = hk) (hgen : gen < 2 ^ 16) :
    slotOf hk ok gens (dynEncode kind gen i) =
      if ok i = true ∧ gen = gens i then some i else none := by
  have hidx : dynDecodeIndex (dynEncode kind gen i) = i := by
    have hlt : (i : Nat) < 64 := i.isLt
    rw [dynDecodeIndex_encode]
    omega
  have hg : dynDecodeGen (dynEncode kind gen i) % 2 ^ 16 = gen := by
    rw [dynDecodeGen_encode]
    omega
  split_ifs with hlive
  · exact slotOf_eq_some.mpr ⟨hkind, hidx, hlive.1, hg.trans hlive.2⟩
  · rw [eq_none_iff_forall_ne_some]
    intro j hj
    obtain ⟨-, hj', hok, hgj⟩ := slotOf_eq_some.mp hj
    obtain rfl : i = j := Fin.ext (hidx.symm.trans hj')
    exact hlive ⟨hok, hg.symm.trans hgj⟩

end Encode

/-! ## What a move does to the generations -/

def freedAt (i : Fin surfaceMax) (h h' : HostLeg) : Bool :=
  (h.session.surfaces.slots i).inUse && !(h'.session.surfaces.slots i).inUse

def unlockedAt (i : Fin surfaceMax) (h h' : HostLeg) : Bool :=
  (h.session.surfaces.slots i).locked && !(h'.session.surfaces.slots i).locked

/-- What a move does to the use of a slot and its lock: both generations count up exactly where
it is freed or unlocked, and a surface that is not freed keeps its size. -/
structure SlotMove (s t : SurfaceSlot) : Prop where
  gen : t.gen = (s.gen + (s.inUse && !t.inUse).toNat) % 2 ^ 16
  lockGen : t.lockGen = (s.lockGen + (s.locked && !t.locked).toNat) % 2 ^ 16
  size : s.inUse = true → t.inUse = true → t.w = s.w ∧ t.h = s.h

namespace SlotMove

variable {bump : Nat} {i : Fin surfaceMax} {t u : SurfaceSlot}

section

variable (h : SlotInv bump i t)
include h

theorem of_same (hg : u.gen = t.gen) (hlg : u.lockGen = t.lockGen)
    (hu : t.inUse = true → u.inUse = true) (hl : t.locked = true → u.locked = true)
    (hsize : t.inUse = true → u.w = t.w ∧ u.h = t.h) : SlotMove t u where
  gen := by
    have hnone : (t.inUse && !u.inUse) = false := by
      cases htu : t.inUse with
      | false => rfl
      | true => rw [hu htu]; rfl
    rw [hnone, hg]
    exact (Nat.mod_eq_of_lt h.gen).symm
  lockGen := by
    have hnone : (t.locked && !u.locked) = false := by
      cases htl : t.locked with
      | false => rfl
      | true => rw [hl htl]; rfl
    rw [hnone, hlg]
    exact (Nat.mod_eq_of_lt h.lockGen).symm
  size htu _ := hsize htu

theorem refl : SlotMove t t :=
  of_same h rfl rfl id id fun _ => ⟨rfl, rfl⟩

theorem unlock (m : ByteMem) : SlotMove t (t.unlock m) := by
  by_cases hl : t.locked = true
  · refine ⟨?_, ?_, fun _ _ => ⟨unlock_w m t, unlock_h m t⟩⟩
    · rw [unlock_gen, unlock_inUse, Bool.and_not_self]
      exact (Nat.mod_eq_of_lt h.gen).symm
    · rw [unlock_lockGen m t hl, unlock_locked, hl]
      rfl
  · rw [unlock_of_unlocked m t (by simpa using hl)]
    exact refl h

theorem release : SlotMove t t.release := by
  by_cases hs : t.isScreen = true
  · rw [release_screen t hs]
    exact refl h
  by_cases hu : t.inUse = true
  · rw [release_live t hu (by simpa using hs)]
    refine ⟨?_, ?_, fun _ hu' => by cases hu'⟩
    · rw [hu]
      rfl
    · simp only [Bool.and_not_self]
      exact (Nat.mod_eq_of_lt h.lockGen).symm
  · rw [release_unused t (by simpa using hu)]
    exact refl h

theorem unlock_release (m : ByteMem) : SlotMove t (t.unlock m).release := by
  have h1 := unlock h m
  have h2 := release (h.unlock m : SlotInv bump i (t.unlock m))
  refine ⟨?_, ?_, fun hu hu' => ?_⟩
  · rw [h2.gen, unlock_gen, unlock_inUse]
  · rw [release_lockGen, release_locked]
    exact h1.lockGen
  · obtain ⟨hw, hh⟩ := h2.size (by rwa [unlock_inUse]) hu'
    rw [hw, hh, unlock_w, unlock_h]
    exact ⟨rfl, rfl⟩

end

end SlotMove

theorem RegInv.slotMove {a : Access} {r r' : SurfaceRegistry} {m : ByteMem} (h : RegInv r)
    (hm : RegMove a m r r') (j : Fin surfaceMax) : SlotMove (r.slots j) (r'.slots j) := by
  have hupdate : ∀ (i : Fin surfaceMax) (t : SurfaceSlot), SlotMove (r.slots i) t →
      SlotMove (r.slots j) (Function.update r.slots i t j) := by
    intro i t ht
    exact forall_of_update rfl (p := fun j => SlotMove (r.slots j)) ht
      (fun j _ => .refl (h.slot j)) j
  have hpixels : ∀ i px, SlotMove (r.slots j) ((r.withPixels i px).slots j) := fun i px =>
    hupdate i _ (.of_same (h.slot i) rfl rfl id id fun _ => ⟨rfl, rfl⟩)
  cases hm with
  | idle => exact .refl (h.slot j)
  | paint i px => exact hpixels i px
  | occupy i w ht hi hfree =>
    refine hupdate i ((r.slots i).occupied w ht) (.of_same (h.slot i) rfl rfl (fun _ => rfl) id ?_)
    intro hu
    rw [hfree] at hu
    cases hu
  | free i =>
    rw [freeSlot_slots]
    exact hupdate i _ (.release (h.slot i))
  | lock i phantom hu hl hroom | direct i hu hl =>
    exact hupdate i _ (.of_same (h.slot i) rfl rfl id (fun _ => rfl) fun _ => ⟨rfl, rfl⟩)
  | lockPaint i px => exact hpixels i px
  | present px => exact hpixels 0 px
  | flush i =>
    rw [flushLock_slots]
    exact hupdate i _ (.unlock (h.slot i) m)
  | reap =>
    rw [reapSlots_slots]
    split_ifs
    · exact .unlock (h.slot j) m
    · exact .unlock_release (h.slot j) m
  | boundary px ha hpx =>
    -- a slot with other pixels moves like the slot itself
    have hpaint : ∀ u, SlotMove ((r.withPixels 0 px).slots j) u → SlotMove (r.slots j) u := by
      intro u hu
      unfold SurfaceRegistry.withPixels SurfaceRegistry.set at hu
      by_cases hj : j = 0
      · subst hj
        exact ⟨hu.gen, hu.lockGen, hu.size⟩
      · simpa only [update_of_ne hj] using hu
    refine hpaint _ ?_
    rw [reapSlots_slots]
    split_ifs
    · exact .unlock ((h.paint hpx).slot j) m
    · exact .unlock_release ((h.paint hpx).slot j) m

/-! ## Whole runs -/

section Run

variable (E : HostEnv) {h : HostLeg} (i : Fin surfaceMax)

/-- How often slot `i` is freed, and how often a lock of it is released. -/
def frees (h : HostLeg) (ops : List SurfaceOp) : Nat :=
  countSteps (HostLeg.opStep E) (freedAt i) h ops

def unlocks (h : HostLeg) (ops : List SurfaceOp) : Nat :=
  countSteps (HostLeg.opStep E) (unlockedAt i) h ops

theorem opStep_regInv (h : HostLeg) (op : SurfaceOp) (hh : RegInv h.session.surfaces) :
    RegInv (h.opStep E op).1.session.surfaces :=
  hh.move (h.opStep_move E op)

theorem after_gen (hh : RegInv h.session.surfaces) (ops : List SurfaceOp) :
    ((h.after E ops).session.surfaces.slots i).gen
      = ((h.session.surfaces.slots i).gen + frees E i h ops) % 2 ^ 16 :=
  countSteps_mod (opStep_regInv E)
    (fun _ hh => (hh.slot i).gen) (fun h op hh => (hh.slotMove (h.opStep_move E op) i).gen) hh ops

theorem after_lockGen (hh : RegInv h.session.surfaces) (ops : List SurfaceOp) :
    ((h.after E ops).session.surfaces.slots i).lockGen
      = ((h.session.surfaces.slots i).lockGen + unlocks E i h ops) % 2 ^ 16 :=
  countSteps_mod (opStep_regInv E) (fun _ hh => (hh.slot i).lockGen)
    (fun h op hh => (hh.slotMove (h.opStep_move E op) i).lockGen) hh ops

variable {ops : List SurfaceOp}

/-- A surface that is not freed stays, and has the size it had. -/
theorem after_inUse (hh : RegInv h.session.surfaces)
    (hu : (h.session.surfaces.slots i).inUse = true) (hzero : frees E i h ops = 0) :
    let t := (h.after E ops).session.surfaces.slots i
    t.inUse = true ∧ t.w = (h.session.surfaces.slots i).w
      ∧ t.h = (h.session.surfaces.slots i).h := by
  refine countSteps_zero
    (L := fun h' : HostLeg => (h'.session.surfaces.slots i).inUse = true
      ∧ (h'.session.surfaces.slots i).w = (h.session.surfaces.slots i).w
      ∧ (h'.session.surfaces.slots i).h = (h.session.surfaces.slots i).h)
    (opStep_regInv E) ?_ hh ⟨hu, rfl, rfl⟩ hzero
  rintro h' op - hh' ⟨hu', hw, hht⟩ hkind
  have hlive : ((h'.opStep E op).1.session.surfaces.slots i).inUse = true := by
    simpa [freedAt, hu'] using hkind
  obtain ⟨hw', hh'⟩ := (hh'.slotMove (h'.opStep_move E op) i).size hu' hlive
  exact ⟨hlive, hw'.trans hw, hh'.trans hht⟩

theorem after_locked (hh : RegInv h.session.surfaces)
    (hl : (h.session.surfaces.slots i).locked = true) (hzero : unlocks E i h ops = 0) :
    ((h.after E ops).session.surfaces.slots i).locked = true := by
  refine countSteps_zero (L := fun h' : HostLeg => (h'.session.surfaces.slots i).locked = true)
    (opStep_regInv E) ?_ hh hl hzero
  intro h' op _ _ hl' hkind
  simpa [unlockedAt, hl'] using hkind

end Run

/-! ## What hands out handles and tokens -/

section Answers

variable {E : HostEnv} {h : HostLeg}

theorem surfaceDraw_answer (h : HostLeg) (dst : Nat) (op : DrawOp) :
    (h.surfaceDraw dst op).2 = .done ∨ (h.surfaceDraw dst op).2 = .hangs := by
  rw [HostLeg.surfaceDraw_eq]
  split_ifs
  · exact .inl rfl
  · cases resolveSurface h.session.surfaces dst with
    | none => exact .inl rfl
    | some i =>
      simp only
      split_ifs
      · exact .inl rfl
      · unfold HostLeg.paintSlot
        cases hpx : (h.session.surfaces.slots i).pixels with
        | none => exact .inl (by simp only [hpx])
        | some px =>
          simp only [hpx]
          cases op.paint px (h.session.surfaces.slots i).w (h.session.surfaces.slots i).h with
          | none => exact .inr rfl
          | some => exact .inl rfl

/-- A slot is filled, and `handle` is its handle. -/
def Creates (r r' : SurfaceRegistry) (handle : Nat) : Prop :=
  ∃ i, (r.slots i).inUse = false ∧ (r'.slots i).inUse = true
    ∧ handle = surfaceEncode (r'.slots i).gen i

/-- A slot is locked, and `token` is its token. -/
def Locks (r r' : SurfaceRegistry) (token : Nat) : Prop :=
  ∃ i, (r.slots i).locked = false ∧ (r'.slots i).locked = true
    ∧ token = lockviewEncode (r'.slots i).lockGen i

variable {oom : Bool} {s : Session} {w ht : Int} {op : SurfaceOp} {handle : Nat}
  {record : Nat × Int × Int × Int × Nat}

theorem surfaceCreateSlot_creates (hne : (surfaceCreateSlot oom s w ht).1 ≠ handleNone) :
    Creates s.surfaces (surfaceCreateSlot oom s w ht).2.surfaces
      (surfaceCreateSlot oom s w ht).1 := by
  rcases surfaceCreateSlot_cases oom s w ht with heq | ⟨i, hfree, -, heq⟩
  · rw [heq] at hne
    exact absurd rfl hne
  · rw [heq, publish_surfaces]
    refine ⟨i, firstFreeSlot_free hfree, ?_, ?_⟩ <;>
      simp [surfaceOccupy, SurfaceRegistry.set]

theorem surfaceCreate_creates (hne : (surfaceCreate oom s w ht).1 ≠ handleNone) :
    Creates s.surfaces (surfaceCreate oom s w ht).2.surfaces (surfaceCreate oom s w ht).1 := by
  unfold surfaceCreate at hne ⊢
  by_cases hp : s.phase = .draw
  · rw [phaseGate_draw hp] at hne ⊢
    exact surfaceCreateSlot_creates hne
  · rw [phaseGate_other hp] at hne
    exact absurd rfl hne

theorem opStep_creates (hans : (h.opStep E op).2 = .handle handle) (hne : handle ≠ handleNone) :
    Creates h.session.surfaces (h.opStep E op).1.session.surfaces handle := by
  cases op with
  | call c =>
    cases c with
    | create =>
      cases hans
      exact surfaceCreate_creates hne
    | draw dst op => rcases surfaceDraw_answer h dst op with hd | hd <;> cases hd.symm.trans hans
    | _ => cases hans
  | createFails =>
    cases hans
    exact surfaceCreate_creates hne
  | luaCreate =>
    cases hans
    exact surfaceCreateSlot_creates hne
  | _ => cases hans

theorem surfaceAcquireLock_locks {phantom : Bool}

    (hrec : (surfaceAcquireLock s handle phantom).1 = some record) :
    Locks s.surfaces (surfaceAcquireLock s handle phantom).2.surfaces record.2.2.2.2 := by
  rw [surfaceAcquireLock_eq] at hrec ⊢
  cases hu : s.unlocked handle with
  | none =>
    rw [hu] at hrec
    cases hrec
  | some i =>
    simp only [hu] at hrec ⊢
    by_cases hroom : LockRoom s i
    · rw [if_pos hroom] at hrec ⊢
      cases hrec
      refine ⟨i, (Session.unlocked_eq_some.mp hu).2, ?_, ?_⟩
      all_goals
        simp only [Session.lock, SurfaceRegistry.set, update_self]
        rfl
    · rw [if_neg hroom] at hrec
      cases hrec

theorem surfaceAcquire_locks (hrec : (surfaceAcquire s handle).1 = some record) :
    Locks s.surfaces (surfaceAcquire s handle).2.surfaces record.2.2.2.2 := by
  rw [surfaceAcquire_any] at hrec ⊢
  split_ifs at hrec ⊢
  exact surfaceAcquireLock_locks hrec

theorem sessionSurfaceAcquire_locks {record : Int × Int × Int × Nat}
    (hrec : sessionSurfaceRecord s handle = some record) :
    Locks s.surfaces (sessionSurfaceAcquire s handle).surfaces record.2.2.2 := by
  obtain ⟨i, hu, rfl⟩ := map_eq_some_iff.mp hrec
  obtain ⟨hr, hl⟩ := Session.unlocked_eq_some.mp hu
  rw [sessionSurfaceAcquire_eq, hu]
  refine ⟨i, hl, ?_, ?_⟩
  · simp only [SurfaceRegistry.lockDirectly, SurfaceRegistry.set, update_self]
  · simp only [SurfaceRegistry.lockDirectly, SurfaceRegistry.set, update_self,
      (resolveSurface_some hr).2]

theorem opStep_locks {record : Int × Int × Int × Nat}
    (hans : (h.opStep E op).2 = .lock (some record)) :
    Locks h.session.surfaces (h.opStep E op).1.session.surfaces record.2.2.2 := by
  cases op with
  | call c =>
    cases c with
    | acquire =>
      obtain ⟨record', hrec, rfl⟩ := map_eq_some_iff.mp (SurfaceAnswer.lock.inj hans)
      exact surfaceAcquire_locks hrec
    | draw dst op => rcases surfaceDraw_answer h dst op with hd | hd <;> cases hd.symm.trans hans
    | _ => cases hans
  | luaAcquire => exact sessionSurfaceAcquire_locks (SurfaceAnswer.lock.inj hans)
  | _ => cases hans

end Answers

/-- **Handles and tokens go stale, and stay so for 65536 generations.** A handle that an operation
returns resolves to the slot it was made for, with the size it was made with, until that slot is
freed, and after that exactly when the slot is in use and was freed a multiple of 65536 times; the
same with tokens, locked slots and releases; and neither resolves as the other kind. -/
theorem handles_go_stale (E : HostEnv) (s : Session) (ops ops' : List SurfaceOp) (op : SurfaceOp) :
    let h := (HostLeg.start s).after E ops
    let h1 := (h.opStep E op).1
    let r1 := h1.session.surfaces
    let r2 := (h1.after E ops').session.surfaces
    (∀ handle, (h.opStep E op).2 = .handle handle → handle ≠ handleNone →
      ∃ i, resolveSurface r1 handle = some i
        ∧ (frees E i h1 ops' = 0 → resolveSurface r2 handle = some i
          ∧ (r2.slots i).w = (r1.slots i).w ∧ (r2.slots i).h = (r1.slots i).h)
        ∧ resolveSurface r2 handle
          = (if (r2.slots i).inUse = true ∧ 2 ^ 16 ∣ frees E i h1 ops' then some i else none)
        ∧ resolveLockview r2 handle = none)
    ∧ ∀ record, (h.opStep E op).2 = .lock (some record) →
      ∃ i, resolveLockview r1 record.2.2.2 = some i
        ∧ (unlocks E i h1 ops' = 0 → resolveLockview r2 record.2.2.2 = some i)
        ∧ resolveLockview r2 record.2.2.2
          = (if (r2.slots i).locked = true ∧ 2 ^ 16 ∣ unlocks E i h1 ops' then some i else none)
        ∧ resolveSurface r2 record.2.2.2 = none := by
  intro h h1 r1 r2
  have hinv := opStep_regInv E h op (after_regInv E s ops)
  -- a generation is back where it was after a multiple of 65536 steps
  have hmod : ∀ g n, g < 2 ^ 16 → (g = (g + n) % 2 ^ 16 ↔ 2 ^ 16 ∣ n) := by
    omega
  constructor
  · intro handle hans hne
    obtain ⟨i, -, hu, rfl⟩ := opStep_creates hans hne
    have hgen := (hinv.slot i).gen
    have hres : ∀ r : SurfaceRegistry, resolveSurface r (surfaceEncode (r1.slots i).gen i)
        = if (r.slots i).inUse = true ∧ (r1.slots i).gen = (r.slots i).gen then some i
          else none := fun r =>
      slotOf_encode _ (fun i => (r.slots i).inUse) (fun i => (r.slots i).gen) i
        (handleKind_surface _ _) hgen
    have hend : resolveSurface r2 (surfaceEncode (r1.slots i).gen i)
        = if (r2.slots i).inUse = true ∧ 2 ^ 16 ∣ frees E i h1 ops' then some i else none := by
      rw [hres, after_gen E i hinv ops']
      exact if_congr (and_congr_right fun _ => hmod _ _ hgen) rfl rfl
    refine ⟨i, (hres r1).trans (if_pos ⟨hu, rfl⟩), fun hzero => ?_, hend, ?_⟩
    · obtain ⟨hu2, hsize⟩ := after_inUse E i hinv hu hzero
      exact ⟨hend.trans (if_pos ⟨hu2, hzero ▸ dvd_zero _⟩), hsize⟩
    · exact if_pos (by rw [handleKind_surface]; decide)
  · intro record hans
    obtain ⟨i, -, hl, htoken⟩ := opStep_locks hans
    rw [htoken]
    have hgen := (hinv.slot i).lockGen
    have hres : ∀ r : SurfaceRegistry, resolveLockview r (lockviewEncode (r1.slots i).lockGen i)
        = if (r.slots i).locked = true ∧ (r1.slots i).lockGen = (r.slots i).lockGen then some i
          else none := fun r =>
      slotOf_encode _ (fun i => (r.slots i).locked) (fun i => (r.slots i).lockGen) i
        (handleKind_lockview _ _) hgen
    have hend : resolveLockview r2 (lockviewEncode (r1.slots i).lockGen i)
        = if (r2.slots i).locked = true ∧ 2 ^ 16 ∣ unlocks E i h1 ops' then some i else none := by
      rw [hres, after_lockGen E i hinv ops']
      exact if_congr (and_congr_right fun _ => hmod _ _ hgen) rfl rfl
    refine ⟨i, (hres r1).trans (if_pos ⟨hl, rfl⟩), fun hzero => ?_, hend, ?_⟩
    · exact hend.trans (if_pos ⟨after_locked E i hinv hl hzero, hzero ▸ dvd_zero _⟩)
    · exact if_pos (by rw [handleKind_lockview]; decide)

/-- A surface is destroyed and its slot filled again: the old handle is stale. -/
theorem handles_go_stale_demo :
    let h := (HostLeg.start demoStart).after demoHostEnv [.call (.phase .draw), .call (.create 2 1)]
    resolveSurface h.session.surfaces (surfaceEncode 0 1) = some 1
      ∧ resolveSurface (h.after demoHostEnv [.call (.destroy (surfaceEncode 0 1)),
        .call (.create 2 1)]).session.surfaces (surfaceEncode 0 1) = none := by
  obtain ⟨i, hi, -, hend, -⟩ := (handles_go_stale demoHostEnv demoStart [.call (.phase .draw)]
    [.call (.destroy (surfaceEncode 0 1)), .call (.create 2 1)] (.call (.create 2 1))).1
    (surfaceEncode 0 1) (by decide +kernel) (by decide +kernel)
  obtain rfl : i = 1 := Fin.ext (resolveSurface_some hi).2.symm
  exact ⟨hi, hend.trans (if_neg (by decide +kernel))⟩

end Blyt
