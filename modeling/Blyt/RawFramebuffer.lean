import Blyt.SurfaceHandles

/-!
# The raw framebuffer and the lock arena

`blyt_gfx_acquire` gives the cart the address of a framebuffer in guest memory, which
`blyt_gfx_present` copies to the screen; `blyt_surface_acquire` gives it the address of a region
of the lock arena, which the release copies to the surface. Both start at the same address: the
arena's base is defined as the framebuffer's, and the first 76800 bytes of the arena are the
framebuffer. So a store through a lock that lies there changes what is presented, and a store to
the framebuffer changes what the lock's release copies (`noAlias_iff`). The first lock that is
granted while no other is held always lies there.
-/

namespace Blyt

/-! ## One byte of guest memory -/

/-- A store of one byte changes a range of bytes if it falls into it and the byte is another. -/
theorem readGuest_store_iff (m : ByteMem) (a b n : Nat) (c : UInt8) :
    readGuest (writeGuest m a [c]) b n = readGuest m b n ↔ (b ≤ a → a < b + n → m a = c) := by
  have hat : ∀ x, writeGuest m a [c] x = if x = a then c else m x := by
    intro x
    unfold writeGuest
    by_cases hx : x = a
    · subst hx
      simp
    · rw [if_neg hx, if_neg]
      rw [List.length_singleton]
      omega
  constructor
  · intro heq hlo hhi
    have hk := congrArg (fun l => l[a - b]?) heq
    simp only [readGuest, List.getElem?_map, List.getElem?_range (show a - b < n by omega),
      Option.map_some, Option.some.injEq, show b + (a - b) = a by omega, hat, if_true] at hk
    exact hk.symm
  · intro himp
    refine readGuest_congr fun k hk => ?_
    rw [hat]
    split_ifs with hx
    · rw [hx]
      exact (himp (by omega) (by omega)).symm
    · rfl

/-! ## Calls -/

inductive RawOp where
  /-- `BLYT_ECALL_GFX_ACQUIRE` -/
  | gfxAcquire
  /-- the cart stores a byte in the raw framebuffer -/
  | store (off : Nat) (color : UInt8)
  /-- presents, and everything that works on surfaces -/
  | op (o : SurfaceOp)

namespace HostLeg

/-- The cart's store to the raw framebuffer. -/
def fbStore (s : Session) (off : Nat) (color : UInt8) : Session :=
  if off < frameBytes then { s with gmem := writeGuest s.gmem (gfxFbBase + off) [color] } else s

def rawStep (E : HostEnv) (h : HostLeg) : RawOp → HostLeg × SurfaceAnswer
  | .gfxAcquire => (h, .handle gfxFbBase)
  | .store off color => ({ h with session := fbStore h.session off color }, .done)
  | .op o => h.opStep E o

/-- What a present would copy to the screen. -/
def presented (h : HostLeg) : List UInt8 := readGuest h.session.gmem gfxFbBase frameBytes

/-- What the release of slot `i`'s lock would copy to its surface. -/
def copiedBack (h : HostLeg) (i : Fin surfaceMax) : List UInt8 :=
  readGuest h.session.gmem (h.session.surfaces.slots i).lockVaddr
    (h.session.surfaces.slots i).lockLen

/-- The release of the lock copies its region to the surface. -/
def CopiesBack (t : SurfaceSlot) : Prop := t.HasRegion ∧ t.lockPhantom = false

/-- A store through a lock leaves what is presented, and a store to the raw framebuffer leaves what
the locks copy. -/
def NoAlias (E : HostEnv) (h : HostLeg) : RawOp → Prop
  | .op (.call (.write token off color)) =>
    (h.rawStep E (.op (.call (.write token off color)))).1.presented = h.presented
  | .store off color => ∀ i, CopiesBack (h.session.surfaces.slots i) →
    (h.rawStep E (.store off color)).1.copiedBack i = h.copiedBack i
  | _ => True

/-- The same by addresses: the store falls outside the other's bytes, or stores what is there. -/
def StoresApart (h : HostLeg) : RawOp → Prop
  | .op (.call (.write token off color)) => ∀ i ∈ resolveLockview h.session.surfaces token,
    let a := (h.session.surfaces.slots i).lockVaddr + off
    off < (h.session.surfaces.slots i).lockLen →
      gfxFbBase ≤ a → a < gfxFbBase + frameBytes → h.session.gmem a = color
  | .store off color => off < frameBytes → ∀ i, CopiesBack (h.session.surfaces.slots i) →
    let t := h.session.surfaces.slots i
    t.lockVaddr ≤ gfxFbBase + off → gfxFbBase + off < t.lockVaddr + t.lockLen →
      h.session.gmem (gfxFbBase + off) = color
  | _ => True

/-- Present and release copy what these say. -/
theorem present_pixels (h : HostLeg) :
    (h.gfxPresent.session.surfaces.slots 0).pixels = some h.presented := by
  rfl

theorem release_pixels {h : HostLeg} (hinv : RegInv h.session.surfaces) {i : Fin surfaceMax}
    (hc : CopiesBack (h.session.surfaces.slots i)) :
    ((surfaceFlushLock h.session.gmem h.session.surfaces i).slots i).pixels
      = some (h.copiedBack i) := by
  rw [flushLock_slots, Function.update_self, (hinv.slot i).unlock_pixels hc.1.1,
    if_pos ⟨hc.2, hc.1.2⟩]
  rfl

variable {E : HostEnv} {h : HostLeg}

theorem write_noAlias_iff (token off : Nat) (color : UInt8) :
    h.NoAlias E (.op (.call (.write token off color)))
      ↔ h.StoresApart (.op (.call (.write token off color))) := by
  show readGuest (lockWrite h.session token off color).gmem gfxFbBase frameBytes
      = readGuest h.session.gmem gfxFbBase frameBytes
    ↔ ∀ i ∈ resolveLockview h.session.surfaces token, _
  unfold lockWrite
  cases resolveLockview h.session.surfaces token with
  | none => exact iff_of_true rfl fun i hi => by cases hi
  | some =>
    simp only [Option.mem_some_iff, forall_eq']
    split_ifs with hoff
    · rw [readGuest_store_iff]
      exact ⟨fun h _ => h, fun h => h hoff⟩
    · exact iff_of_true rfl fun h => absurd h hoff

theorem store_noAlias_iff (off : Nat) (color : UInt8) :
    h.NoAlias E (.store off color) ↔ h.StoresApart (.store off color) := by
  show (∀ i, CopiesBack (h.session.surfaces.slots i) →
      readGuest (fbStore h.session off color).gmem
        ((fbStore h.session off color).surfaces.slots i).lockVaddr
        ((fbStore h.session off color).surfaces.slots i).lockLen = h.copiedBack i)
    ↔ (off < frameBytes → _)
  unfold fbStore
  split_ifs with hoff
  · refine ⟨fun hall _ i hc => ?_, fun hall i hc => ?_⟩
    · exact (readGuest_store_iff _ _ _ _ _).mp (hall i hc)
    · exact (readGuest_store_iff _ _ _ _ _).mpr (hall hoff i hc)
  · exact iff_of_true (fun _ _ => rfl) fun h => absurd h hoff

theorem noAlias_iff (op : RawOp) : h.NoAlias E op ↔ h.StoresApart op := by
  cases op with
  | gfxAcquire => exact Iff.rfl
  | store off color => exact store_noAlias_iff off color
  | op o =>
    cases o with
    | call c =>
      cases c with
      | write token off color => exact write_noAlias_iff token off color
      | _ => exact Iff.rfl
    | _ => exact Iff.rfl

/-- No store can do harm exactly if every lock lies behind the framebuffer. -/
theorem all_noAlias_iff (hinv : RegInv h.session.surfaces) :
    (∀ op, h.NoAlias E op) ↔ ∀ i, (h.session.surfaces.slots i).HasRegion →
      gfxFbBase + frameBytes ≤ (h.session.surfaces.slots i).lockVaddr := by
  constructor
  · intro hall i hr
    obtain ⟨hlen, hlo, -⟩ := (hinv.slot i).region hr
    obtain ⟨-, hw, hh⟩ := (hinv.slot i).sized ((hinv.slot i).locked hr.1)
    have hpos : 0 < (h.session.surfaces.slots i).lockLen := by
      rw [hlen]
      exact Nat.mul_pos (by omega) (by omega)
    by_contra hin
    -- store another byte at the start of the region
    have hres : resolveLockview h.session.surfaces
        (lockviewEncode (h.session.surfaces.slots i).lockGen i) = some i :=
      (slotOf_encode _ (fun i => (h.session.surfaces.slots i).locked)
        (fun i => (h.session.surfaces.slots i).lockGen) i (handleKind_lockview _ _)
        (hinv.slot i).lockGen).trans (if_pos ⟨hr.1, rfl⟩)
    obtain ⟨c, hc⟩ : ∃ c, h.session.gmem (h.session.surfaces.slots i).lockVaddr ≠ c := by
      by_cases hz : h.session.gmem (h.session.surfaces.slots i).lockVaddr = 0
      · exact ⟨1, by rw [hz]; decide⟩
      · exact ⟨0, hz⟩
    have hstore := write_noAlias_iff _ 0 _ |>.mp
      (hall (.op (.call (.write (lockviewEncode (h.session.surfaces.slots i).lockGen i) 0 c))))
    exact hc (hstore i hres hpos (by unfold lockArenaBase at hlo; unfold gfxFbBase; omega)
      (by omega))
  · intro hbehind op
    rw [noAlias_iff]
    cases op with
    | gfxAcquire => trivial
    | store =>
      intro hoff i hc t hle hlt
      have hb := hbehind i hc.1
      change gfxFbBase + frameBytes ≤ t.lockVaddr at hb
      omega
    | op o =>
      cases o with
      | call c =>
        cases c with
        | write =>
          intro i hi
          have hl := resolveLockview_some hi
          -- a direct lock has no region to store to
          cases hd : (h.session.surfaces.slots i).lockDirect with
          | true =>
            have := ((hinv.slot i).direct hd).2
            omega
          | false =>
            have := hbehind i ⟨hl, hd⟩
            omega
        | _ => trivial
      | _ => trivial

end HostLeg

/-- **Stores through locks and to the raw framebuffer leave each other alone in a run exactly if
each falls outside the other's bytes or stores what is there already;** and no store at all can do
harm in a state exactly if every lock that is held lies behind the framebuffer. -/
theorem raw_alias_iff (E : HostEnv) (s : Session) (ops : List SurfaceOp) (rops : List RawOp) :
    let h := (HostLeg.start s).after E ops
    (EachStep (HostLeg.rawStep E) (HostLeg.NoAlias E) h rops
      ↔ EachStep (HostLeg.rawStep E) HostLeg.StoresApart h rops)
    ∧ ((∀ op, h.NoAlias E op) ↔ ∀ i, (h.session.surfaces.slots i).HasRegion →
      gfxFbBase + frameBytes ≤ (h.session.surfaces.slots i).lockVaddr) := by
  refine ⟨?_, HostLeg.all_noAlias_iff (after_regInv E s ops)⟩
  exact eachStep_congr (I := fun _ => True) (fun _ op _ _ => HostLeg.noAlias_iff op)
    (fun _ _ _ _ _ => trivial) trivial

/-- A small surface is locked in `draw()`: a store through the lock changes the presented frame,
and a store to the raw framebuffer changes what the release copies to the surface. -/
theorem raw_framebuffer_aliased :
    let h := (HostLeg.start demoStart).after demoHostEnv
      [.call (.phase .draw), .call (.create 2 1), .call (.acquire (surfaceEncode 0 1))]
    h.session.phase = .draw
      ∧ ¬ h.NoAlias demoHostEnv (.op (.call (.write (lockviewEncode 0 1) 0 9)))
      ∧ ¬ h.NoAlias demoHostEnv (.store 0 7) := by
  refine ⟨by decide +kernel, fun hn => ?_, fun hn => ?_⟩
  · have hstore := HostLeg.write_noAlias_iff _ _ _ |>.mp hn
    exact absurd (hstore 1 (by decide +kernel) (by decide +kernel) (by decide +kernel)
      (by decide +kernel)) (by decide +kernel)
  · have hstore := HostLeg.store_noAlias_iff _ _ |>.mp hn
    exact absurd (hstore (by decide +kernel) 1 ⟨⟨by decide +kernel, by decide +kernel⟩,
      by decide +kernel⟩ (by decide +kernel) (by decide +kernel)) (by decide +kernel)

end Blyt
