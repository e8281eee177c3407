import Blyt.ByteMem
import Blyt.LinkList

/-!
# The cart-heap arena

The allocator of `runtime/shared/blyt_arena.c` and the budget predicate of
`blyt_mem_budget.h` it is gated by. The arena hands out blocks of one region;
every block starts with a 16-byte header *in band*, so the headers are bytes
of the same memory the cart writes to, and the free list runs through them.

Pointers are numbers with `0` for `NULL`; `mem` is indexed by the offset from
`base`. A call whose list walk never ends has no result (`none`).
-/

namespace Blyt

/-! ## The unified budget -/

/-- `BLYT_MEM_BUDGET_BYTES`: the 16 MiB working-memory cap. -/
def memBudgetBytes : Nat := 16 * 1024 * 1024

/-- The counters shared by the allocator (first field) and the host (the
others). -/
structure MemAccounting where
  guestHeapUsed : Nat
  nonEvictableFootprint : Nat
  resourceCacheUsed : Nat
  guestHeapBaseline : Nat
  deriving DecidableEq, Repr

/-- Cart-attributable heap: live bytes above the baseline. -/
def memCartHeap (c : MemAccounting) : Nat :=
  if c.guestHeapBaseline < c.guestHeapUsed then c.guestHeapUsed - c.guestHeapBaseline else 0

/-- The one success decision of every allocation site, summed in 64 bits. -/
def memAllocFits (guestHeapUsed nonEvictableFootprint incoming : Nat) : Bool :=
  guestHeapUsed + nonEvictableFootprint + incoming ≤ memBudgetBytes

/-- What is left for the evictable resource cache. -/
def memCacheRoom (guestHeapUsed nonEvictableFootprint : Nat) : Nat :=
  if memBudgetBytes ≤ guestHeapUsed + nonEvictableFootprint then 0
  else memBudgetBytes - (guestHeapUsed + nonEvictableFootprint)

/-! ## Block headers -/

/-- `BLYT_ARENA_NONE`. -/
def arenaNone : Nat := 0xffffffff

/-- `BLYT_ARENA_ALIGN`. -/
def arenaAlign : Nat := 16

/-- `HDR_SIZE`. -/
def hdrSize : Nat := 16

/-- `BLK_NOACCT`, the mark a block outside the accounting carries in `_pad`. -/
def blkNoacct : Nat := 1

/-- `blk_hdr_t`. -/
structure BlkHdr where
  size : Nat
  free : Nat
  next : Nat
  pad : Nat
  deriving DecidableEq, Repr

/-- The header at offset `off`. -/
def hdrAt (m : ByteMem) (off : Nat) : BlkHdr :=
  ⟨read32 m off, read32 m (off + 4), read32 m (off + 8), read32 m (off + 12)⟩

def setSize (m : ByteMem) (off v : Nat) : ByteMem := write32 m off v
def setFree (m : ByteMem) (off v : Nat) : ByteMem := write32 m (off + 4) v
def setNext (m : ByteMem) (off v : Nat) : ByteMem := write32 m (off + 8) v
def setPad (m : ByteMem) (off v : Nat) : ByteMem := write32 m (off + 12) v

section Headers

variable {m : ByteMem} {o o' v : Nat}

theorem hdrAt_setSize (ho : 16 ∣ o) (ho' : 16 ∣ o') :
    hdrAt (setSize m o v) o' = if o' = o then { hdrAt m o with size := u32 v } else hdrAt m o' := by
  split
  · subst o'
    simp [hdrAt, setSize, read32_write32_apart]
  · simp (disch := omega) only [hdrAt, setSize, read32_write32_apart]

theorem hdrAt_setFree (ho : 16 ∣ o) (ho' : 16 ∣ o') :
    hdrAt (setFree m o v) o' = if o' = o then { hdrAt m o with free := u32 v } else hdrAt m o' := by
  split
  · subst o'
    simp [hdrAt, setFree, read32_write32_apart]
  · simp (disch := omega) only [hdrAt, setFree, read32_write32_apart]

theorem hdrAt_setNext (ho : 16 ∣ o) (ho' : 16 ∣ o') :
    hdrAt (setNext m o v) o' = if o' = o then { hdrAt m o with next := u32 v } else hdrAt m o' := by
  split
  · subst o'
    simp [hdrAt, setNext, read32_write32_apart]
  · simp (disch := omega) only [hdrAt, setNext, read32_write32_apart]

theorem hdrAt_setPad (ho : 16 ∣ o) (ho' : 16 ∣ o') :
    hdrAt (setPad m o v) o' = if o' = o then { hdrAt m o with pad := u32 v } else hdrAt m o' := by
  split
  · subst o'
    simp [hdrAt, setPad, read32_write32_apart]
  · simp (disch := omega) only [hdrAt, setPad, read32_write32_apart]

end Headers

/-! ## The arena -/

/-- `blyt_arena_t`, with the bytes of its region. -/
structure Arena where
  base : Nat
  size : Nat
  bump : Nat
  freeHead : Nat
  ready : Bool
  acct : Option MemAccounting
  mem : ByteMem
  /-- `size` is a 32-bit field. -/
  size_lt : size < 2 ^ 32

/-- `(n + al - 1u) & ~(al - 1u)` in 32 bits. -/
def alignUp (n al : Nat) : Nat := u32 (n + al - 1) &&& (2 ^ 32 - al)

/-- The block size a request of `n` bytes is served with. -/
def needOf (n : Nat) : Nat := alignUp (u32 (u32 (if n = 0 then 1 else n) + hdrSize)) arenaAlign

def capAllows (a : Arena) (consumed : Nat) : Bool :=
  match a.acct with
  | none => true
  | some c => memAllocFits (memCartHeap c) c.nonEvictableFootprint consumed

def acctAdd (a : Arena) (bytes : Nat) : Arena :=
  { a with acct := a.acct.map fun c => { c with guestHeapUsed := u32 (c.guestHeapUsed + bytes) } }

def acctSub (a : Arena) (bytes : Nat) : Arena :=
  { a with acct := a.acct.map fun c =>
      { c with guestHeapUsed := u32 (c.guestHeapUsed + 2 ^ 32 - bytes) } }

def ensureReady (a : Arena) : Arena :=
  if a.ready then a else { a with bump := 0, freeHead := arenaNone, ready := true }

/-- The word a link holds: `none` is `&a->free_head`, `some off` is
`&hdr_at(a, off)->next`. -/
def Arena.link (a : Arena) : Option Nat → Nat
  | none => a.freeHead
  | some off => (hdrAt a.mem off).next

def Arena.setLink (a : Arena) : Option Nat → Nat → Arena
  | none, v => { a with freeHead := v }
  | some off, v => { a with mem := setNext a.mem off v }

/-- More rounds than there are 32-bit offsets: a walk that is still going then
has met some offset twice and never ends. -/
def loopFuel : Nat := 2 ^ 32 + 1

/-- Serve a request from the free block behind link `prev`. -/
def takeFit (a : Arena) (prev : Option Nat) (need mark : Nat) (noacct : Bool) : Nat × Arena :=
  let coff := a.link prev
  let h := hdrAt a.mem coff
  let rem := h.size - need
  let split := decide (hdrSize + arenaAlign ≤ rem)
  let consumed := if split then need else h.size
  if !noacct && !capAllows a consumed then (0, a)
  else
    let a :=
      if split then
        let tail := u32 (coff + need)
        let m := setPad (setNext (setFree (setSize a.mem tail rem) tail 1) tail h.next) tail 0
        let a := { a with mem := m }.setLink prev tail
        { a with mem := setSize a.mem coff need }
      else a.setLink prev h.next
    let a := { a with mem := setPad (setNext (setFree a.mem coff 0) coff arenaNone) coff mark }
    let a := if noacct then a else acctAdd a (hdrAt a.mem coff).size
    (a.base + coff + hdrSize, a)

/-- Serve a request from the untouched end of the region. -/
def takeBump (a : Arena) (need mark : Nat) (noacct : Bool) : Nat × Arena :=
  if a.size < a.bump + need then (0, a)
  else if !noacct && !capAllows a need then (0, a)
  else
    let h := a.bump
    let m := setPad (setNext (setFree (setSize a.mem h need) h 0) h arenaNone) h mark
    let a := { a with mem := m, bump := u32 (a.bump + need) }
    let a := if noacct then a else acctAdd a need
    (a.base + h + hdrSize, a)

/-- `arena_malloc_core`: first fit along the free list, else bump. -/
def arenaMallocCore (a : Arena) (n : Nat) (noacct : Bool) : Option (Nat × Arena) :=
  if a.base = 0 ∨ a.size = 0 then some (0, a)
  else
    let a := ensureReady a
    let need := needOf n
    let mark := if noacct then blkNoacct else 0
    match findLink a.link arenaNone (fun o => decide (need ≤ (hdrAt a.mem o).size))
        loopFuel none with
    | .diverges => none
    | .at prev => some (takeFit a prev need mark noacct)
    | .absent => some (takeBump a need mark noacct)

def arenaMalloc (a : Arena) (n : Nat) : Option (Nat × Arena) := arenaMallocCore a n false

def arenaMallocNoacct (a : Arena) (n : Nat) : Option (Nat × Arena) := arenaMallocCore a n true

/-- Remove the block at offset `target` from the free list. -/
def flRemove (a : Arena) (target : Nat) : Option Arena :=
  match findLink a.link arenaNone (fun o => decide (o = target)) loopFuel none with
  | .diverges => none
  | .absent => some a
  | .at prev =>
    let a := a.setLink prev (hdrAt a.mem target).next
    some { a with mem := setNext (setFree a.mem target 0) target arenaNone }

/-- Merge the block after `h` into it if that block is free. -/
def coalesceForward (a : Arena) (h : Nat) : Option Arena :=
  let nextOff := u32 (u32 h + (hdrAt a.mem h).size)
  if a.bump ≤ nextOff then some a
  else if (hdrAt a.mem nextOff).free = 0 then some a
  else (flRemove a nextOff).map fun a =>
    { a with mem := setSize a.mem h ((hdrAt a.mem h).size + (hdrAt a.mem nextOff).size) }

/-- The offset of the header before the payload at `p`. -/
def hdrOff (a : Arena) (p : Nat) : Nat := p - hdrSize - a.base

def arenaFree (a : Arena) (p : Nat) : Option Arena :=
  if p = 0 then some a
  else
    let h := hdrOff a p
    -- double free: silently ignored
    if (hdrAt a.mem h).free ≠ 0 then some a
    else
      let a := if (hdrAt a.mem h).pad ≠ blkNoacct then acctSub a (hdrAt a.mem h).size else a
      let a := { a with mem := setNext (setFree a.mem h 1) h a.freeHead, freeHead := u32 h }
      coalesceForward a h

/-- `arena_realloc_core`. -/
def arenaReallocCore (a : Arena) (p n : Nat) (noacct : Bool) : Option (Nat × Arena) :=
  if p = 0 then arenaMallocCore a n noacct
  else if n = 0 then (arenaFree a p).map fun a => (0, a)
  else
    let cap := u32 ((hdrAt a.mem (hdrOff a p)).size + 2 ^ 32 - hdrSize)
    if n ≤ cap then some (p, a)
    else
      match arenaMallocCore a n noacct with
      | none => none
      | some (q, a) =>
        if q = 0 then some (0, a)
        else
          let a := { a with mem := copyBytes a.mem (q - a.base) (p - a.base) cap }
          (arenaFree a p).map fun a => (q, a)

def arenaRealloc (a : Arena) (p n : Nat) : Option (Nat × Arena) := arenaReallocCore a p n false

def arenaReallocNoacct (a : Arena) (p n : Nat) : Option (Nat × Arena) :=
  arenaReallocCore a p n true

/-- `blyt_arena_calloc`; `sizeMax` is `(size_t)-1` of the build. -/
def arenaCalloc (sizeMax : Nat) (a : Arena) (nmemb sz : Nat) : Option (Nat × Arena) :=
  if sz ≠ 0 ∧ sizeMax / sz < nmemb then some (0, a)
  else
    let total := nmemb * sz % (sizeMax + 1)
    (arenaMalloc a total).map fun (p, a) =>
      if p = 0 then (0, a) else (p, { a with mem := fill a.mem (p - a.base) total 0 })

def arenaReset (a : Arena) : Arena :=
  { a with bump := 0, freeHead := arenaNone, ready := false,
           acct := a.acct.map fun c => { c with guestHeapUsed := 0 } }

end Blyt
