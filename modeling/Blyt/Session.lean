import Blyt.ArenaRun
import Blyt.Resource
import Blyt.Surface

/-!
# An emulated session

The part of `blyt_run_ctx_t` that the unified budget runs through
(`runtime/host/src/libblyt/cart_run.c`): the guest's arena with its accounting
block, the resource table, the surface registry and the scratch region, and
the calls that work on them - the pin and surface ECALLs, forced eviction, the
entry of a frame, the creation of a session.

Two gates decide whether something fits. The guest's arena reads the word the
host published last; the host sums its own figures anew. `memAcctPublishFootprint`
is what ties them together.

The accounting block is `heap.arena.acct`; `gmem` is the guest memory outside
the arena. Results that the code writes through guest pointers (`out_ptr`,
`out_size`, the lock record) are returned as values.
-/

namespace Blyt

inductive Phase where
  | none
  | init
  | update
  | draw
  deriving DecidableEq, Repr

structure Session where
  heap : HeapState
  /-- `mem_acct_vaddr` is not 0: the host has found the accounting block -/
  memAcct : Bool
  resources : ResTable
  resourceScratchOff : Nat
  surfaces : SurfaceRegistry
  phase : Phase
  cartIsDebug : Bool
  devFault : Bool
  peerHeap : Nat
  gmem : ByteMem

/-- `BLYT_RESOURCE_SCRATCH_BASE`, `_SIZE`. -/
def resourceScratchBase : Nat := 0x06000000
def resourceScratchSize : Nat := 16 * 1024 * 1024

/-! ## The accounting block, from the host's side -/

def Session.setAcct (s : Session) (c : MemAccounting) : Session :=
  { s with heap := { s.heap with arena := { s.heap.arena with acct := some c } } }

def memAcctGuestHeapUsed (s : Session) : Nat :=
  if !s.memAcct then 0 else s.heap.arena.acct.elim 0 MemAccounting.guestHeapUsed

def ctxNonEvictableFootprint (s : Session) : Nat :=
  u32 (resourceTableFootprint s.resources + s.surfaces.surfaceBytes + s.peerHeap)

/-- Write the footprint into the block, bound the evictable cache by the room
it leaves, and write the resident total. -/
def memAcctPublishFootprint (s : Session) : Session :=
  if !s.memAcct then s
  else
    match s.heap.arena.acct with
    | none => s
    | some c =>
      let footprint := ctxNonEvictableFootprint s
      let t := resourceTableEvictToFit s.resources (memCacheRoom c.guestHeapUsed footprint)
      { s with resources := t }.setAcct
        { c with nonEvictableFootprint := footprint
                 resourceCacheUsed := resourceTableResidentDecompressed t }

def memAcctReferenceFits (s : Session) (e : ResEntry) (wasEvictable : Bool) : Bool :=
  if !s.memAcct then true
  else memAllocFits (memAcctGuestHeapUsed s) (ctxNonEvictableFootprint s)
    (if wasEvictable then u32 e.len else 0)

/-! ## Resources -/

def resolveResource (t : ResTable) (handle : Nat) : Option Nat :=
  if handleKind handle ≠ .resource ∨ resourceDecodeProvenance handle ≠ 0 then none
  else resourceTableFind t (resourceDecodeId handle)

def writeGuest (m : ByteMem) (a : Nat) (bytes : List UInt8) : ByteMem := fun x =>
  if a ≤ x ∧ x < a + bytes.length then bytes.getD (x - a) 0 else m x

variable (m : ByteMem)

@[simp] theorem length_readGuest (a n : Nat) : (readGuest m a n).length = n := by
  rw [readGuest, List.length_map, List.length_range]

theorem readGuest_eq_iff {m : ByteMem} {a : Nat} {bs : List UInt8} :
    readGuest m a bs.length = bs ↔ ∀ j < bs.length, m (a + j) = bs.getD j 0 := by
  constructor
  · intro h j hj
    rw [← h]
    simp [readGuest, hj]
  · intro h
    refine List.ext_getElem (length_readGuest _ _ _) fun j _ hj => ?_
    simpa [readGuest, hj] using h j hj

theorem readGuest_congr {m m' : ByteMem} {a n : Nat} (h : ∀ k < n, m' (a + k) = m (a + k)) :
    readGuest m' a n = readGuest m a n :=
  List.map_congr_left fun k hk => h k (List.mem_range.mp hk)

theorem readGuest_writeGuest (a : Nat) (bytes : List UInt8) :
    readGuest (writeGuest m a bytes) a bytes.length = bytes := by
  refine List.ext_getElem (length_readGuest _ _ _) fun k hk hk' => ?_
  rw [length_readGuest] at hk
  simp [readGuest, writeGuest, hk]

theorem readGuest_writeGuest_apart {m : ByteMem} {a b n : Nat} {bytes : List UInt8}
    (h : a + bytes.length ≤ b ∨ b + n ≤ a) :
    readGuest (writeGuest m a bytes) b n = readGuest m b n :=
  readGuest_congr fun k hk => if_neg (by omega)

/-- One byte stored, and the bytes around it written back. -/
theorem writeGuest_byte {a n off : Nat} (h : off < n) (c : UInt8) :
    writeGuest m (a + off) [c] = writeGuest m a ((readGuest m a n).set off c) := by
  funext x
  unfold writeGuest
  rw [List.length_set, length_readGuest, List.length_singleton]
  by_cases hx : a ≤ x ∧ x < a + n
  · obtain ⟨k, rfl⟩ := Nat.exists_eq_add_of_le hx.1
    rw [Nat.add_sub_cancel_left]
    by_cases hk : off = k
    · subst hk
      simp [h]
    · rw [if_neg (by omega)]
      simp [readGuest, List.getElem_set_ne hk, show k < n by omega]
  · rw [if_neg hx, if_neg (by omega)]

/-- Result code, and what goes to `out_ptr` and `out_size`. -/
structure PinResult where
  code : Nat
  ptr : Nat
  size : Option Nat
  deriving DecidableEq, Repr

/-- The bytes of a pinned entry go into the scratch region behind the last
ones, or to its start if they do not fit there. -/
def scratchPlace (s : Session) (bytes : List UInt8) (need : Nat) : Nat × Session :=
  let off := if resourceScratchSize < u32 (s.resourceScratchOff + need) then 0
    else s.resourceScratchOff
  let gptr := resourceScratchBase + off
  (gptr, { s with gmem := writeGuest s.gmem gptr (bytes.take need),
                  resourceScratchOff := u32 (off + need) })

/-- `BLYT_ECALL_RESOURCE_PIN`. -/
def resourcePin (env : ResEnv) (oom : Bool) (s : Session) (handle : Nat) : PinResult × Session :=
  match resolveResource s.resources handle with
  | none => (⟨4, 0, none⟩, s)
  | some i =>
    match s.resources.entries[i]? with
    | none => (⟨4, 0, none⟩, s)
    | some e =>
      if !memAcctReferenceFits s e (rlIsEvictable e) then (⟨2, 0, none⟩, s)
      else
        let (bytes, e) := resourceEntryData env oom e
        let s := { s with resources := setEntry s.resources i e }
        if bytes.isNone ∧ e.len ≠ 0 then (⟨3, 0, none⟩, s)
        else if resourceScratchSize < u32 e.len then (⟨3, 0, none⟩, s)
        else
          let (gptr, s) := scratchPlace s (bytes.getD []) (u32 e.len)
          let t := resourceTableTouch (setEntry s.resources i (rlPin e)) i
          (⟨0, gptr, some (u32 e.len)⟩, memAcctPublishFootprint { s with resources := t })

/-- `BLYT_ECALL_RESOURCE_UNPIN`. -/
def resourceUnpin (s : Session) (handle : Nat) : Nat × Session :=
  match resolveResource s.resources handle with
  | none => (4, s)
  | some i =>
    match s.resources.entries[i]? with
    | none => (4, s)
    | some e =>
      match rlUnpin e with
      | none => (1, s)
      | some e' =>
        (0, memAcctPublishFootprint { s with resources := setEntry s.resources i e' })

def sessionResourceEvictAll (s : Session) : Nat × Session :=
  let (freed, t) := resourceTableEvictAllEvictable s.resources
  (freed, memAcctPublishFootprint { s with resources := t })

/-! ## Surfaces -/

/-- `blyt_surface_create_slot`; `oom` says that the host's `calloc` fails. -/
def surfaceCreateSlot (oom : Bool) (s : Session) (w h : Int) : Nat × Session :=
  if w ≤ 0 ∨ h ≤ 0 ∨ surfaceMaxDim < w ∨ surfaceMaxDim < h then (handleNone, s)
  else if !memAllocFits (memAcctGuestHeapUsed s) (ctxNonEvictableFootprint s) (slotArea w h) then
    (handleNone, s)
  else
    match firstFreeSlot s.surfaces with
    | none => (handleNone, s)
    | some i =>
      if oom then (handleNone, s)
      else
        let r := surfaceOccupy s.surfaces i w h
        (surfaceEncode (r.slots i).gen i, memAcctPublishFootprint { s with surfaces := r })

/-- The gates of the surface ECALLs: outside `draw()` (or on a locked slot) the
call is refused, and a debug cart faults. -/
def surfacePhaseGate (s : Session) : Bool × Session :=
  if s.phase = .draw then (true, s)
  else (false, if s.cartIsDebug then { s with devFault := true } else s)

def surfaceLockGate (s : Session) (slot : Option (Fin surfaceMax)) : Bool × Session :=
  if slot.any fun i => (s.surfaces.slots i).locked then
    (false, if s.cartIsDebug then { s with devFault := true } else s)
  else (true, s)

/-- `BLYT_ECALL_SURFACE_CREATE`. -/
def surfaceCreate (oom : Bool) (s : Session) (w h : Int) : Nat × Session :=
  match surfacePhaseGate s with
  | (false, s) => (handleNone, s)
  | (true, s) => surfaceCreateSlot oom s w h

/-- `BLYT_ECALL_SURFACE_DESTROY`. -/
def surfaceDestroy (s : Session) (handle : Nat) : Session :=
  let slot := resolveSurface s.surfaces handle
  match surfaceLockGate s slot with
  | (false, s) => s
  | (true, s) =>
    match slot with
    | none => s
    | some i =>
      if (s.surfaces.slots i).isScreen then s
      else memAcctPublishFootprint { s with surfaces := surfaceFreeSlot s.surfaces i }

/-- `blyt_surface_acquire_lock`, with the lock record it hands out: guest
address, stride, width, height and token. -/
def surfaceAcquireLock (s : Session) (handle : Nat) (clearOnly : Bool) :
    Option (Nat × Int × Int × Int × Nat) × Session :=
  match resolveSurface s.surfaces handle with
  | none => (none, s)
  | some i =>
    let r := s.surfaces
    let slot := r.slots i
    let len := slotArea slot.w slot.h
    let aligned := u32 (len + 3) &&& (2 ^ 32 - 4)
    if slot.locked then (none, s)
    else if lockArenaSize < r.lockBump + aligned then (none, s)
    else
      let vaddr := lockArenaBase + r.lockBump
      let bytes := if clearOnly then List.replicate len 0 else (slot.pixels.getD []).take len
      let r' := { r.set i { slot with locked := true, lockPhantom := clearOnly,
                                      lockVaddr := vaddr, lockLen := len } with
        lockBump := u32 (r.lockBump + aligned), activeLocks := r.activeLocks + 1 }
      (some (vaddr, slot.w, slot.w, slot.h, lockviewEncode slot.lockGen (dynDecodeIndex handle)),
        { s with surfaces := r', gmem := writeGuest s.gmem vaddr bytes })

/-- `BLYT_ECALL_SURFACE_ACQUIRE`: out of phase a debug cart faults, a release
cart gets a cleared phantom. -/
def surfaceAcquire (s : Session) (handle : Nat) : Option (Nat × Int × Int × Int × Nat) × Session :=
  match surfacePhaseGate s with
  | (true, s) => surfaceAcquireLock s handle false
  | (false, s) => if s.cartIsDebug then (none, s) else surfaceAcquireLock s handle true

/-- `BLYT_ECALL_SURFACE_RELEASE`. -/
def surfaceRelease (s : Session) (token : Nat) : Session :=
  match resolveLockview s.surfaces token with
  | none => s
  | some i => { s with surfaces := surfaceFlushLock s.gmem s.surfaces i }

def surfaceReapAll (s : Session) : Session :=
  memAcctPublishFootprint { s with surfaces := surfaceReapSlots s.gmem s.surfaces }

/-! ## Frames and creation -/

/-- The entry of `run_frame_impl`: `rcResuming` continues a parked callback,
`fnCall` drives a host-initiated function call instead of a frame. -/
def runFrameEntry (s : Session) (rcResuming fnCall : Bool) : Session :=
  let s := if rcResuming then s
    else { s with resourceScratchOff := 0
                  resources := resourceTableForceReleasePins s.resources }
  let s := if fnCall then s else surfaceReapAll s
  memAcctPublishFootprint s

/-- The end of `blyt_session_create`: mark and preload the persistent set, then
publish. `none` is a session that is refused. -/
def sessionCreate (env : ResEnv) (oom : Bool) (s : Session) (persistentIds : List Nat) :
    Option Session :=
  let t := resourceTableMarkPersistent s.resources persistentIds
  (resourceTablePreloadPersistent env oom t).map fun t =>
    memAcctPublishFootprint { s with resources := t }

end Blyt
