import Blyt.SessionBudget

/-!
# A hybrid cart: a Lua VM on the host and an emulated native half

`runtime/host/src/libblyt/cart_run_hostlua.c`. The Lua half's allocations are
charged to a shadow arena with its own accounting block (`hl->arena`,
`hl->mem_acct`), the native half's to the arena of its session; resources and
surfaces live in the session. Each half reads the other's heap from a copy
taken at a call boundary: `hlBudgetEnterNative` hands the Lua heap to the
session, `hlPublishFootprint` hands the native heap to the shadow arena's word.

A Lua value's block is identified with its twin in the shadow arena. A host
`malloc` that fails after the shadow block was made gives that block back: it
is an allocation followed by a release.
-/

namespace Blyt

/-- `depth` counts the calls and callbacks in progress: the Lua half runs when
it is even, the native half when it is odd. -/
structure Hybrid where
  lua : HeapState
  session : Session
  depth : Nat

/-! ## What each half knows of the other -/

/-- `blyt_mem_cart_heap(&hl->mem_acct)`. -/
def Hybrid.luaHeap (h : Hybrid) : Nat := h.lua.arena.acct.elim 0 memCartHeap

def sessionCartHeap (s : Session) : Nat :=
  if !s.memAcct then 0 else s.heap.arena.acct.elim 0 memCartHeap

def sessionSetPeerHeap (s : Session) (bytes : Nat) : Session :=
  memAcctPublishFootprint { s with peerHeap := bytes }

/-- The resource footprint and the native heap go into the shadow arena's word
(the surfaces do not), and the evictable cache is bounded by what is left. -/
def hlPublishFootprint (h : Hybrid) : Hybrid :=
  match h.lua.arena.acct with
  | none => h
  | some c =>
    let footprint := u32 (resourceTableFootprint h.session.resources + sessionCartHeap h.session)
    let c' := { c with nonEvictableFootprint := footprint }
    let t := resourceTableEvictToFit h.session.resources (memCacheRoom (memCartHeap c') footprint)
    { h with
      lua := { h.lua with arena := { h.lua.arena with acct := some c' } }
      session := { h.session with resources := t } }

def hlBudgetEnterNative (h : Hybrid) : Hybrid :=
  { h with session := sessionSetPeerHeap h.session h.luaHeap }

def hlBudgetLeaveNative (h : Hybrid) : Hybrid := hlPublishFootprint h

/-! ## The Lua half -/

/-- The call `hl_lua_alloc` makes on the shadow arena; `rv` is the size the VM
has published for this request, if it has. -/
def hlLuaAlloc (ptr nsize : Nat) (rv : Option Nat) (noacct : Bool) : ArenaOp :=
  if nsize = 0 then .free ptr
  else if ptr = 0 then
    if noacct then .mallocNoacct (rv.getD nsize) else .malloc (rv.getD nsize)
  else
    if noacct then .reallocNoacct ptr (rv.getD nsize) else .realloc ptr (rv.getD nsize)

theorem hlLuaAlloc_ne_reset (ptr nsize : Nat) (rv : Option Nat) (noacct : Bool) :
    hlLuaAlloc ptr nsize rv noacct ≠ .reset := by
  unfold hlLuaAlloc
  split
  · simp
  · split <;> split <;> simp

/-- The gate of a Lua pin adds neither the native heap nor the surfaces. -/
def hlReferenceFits (h : Hybrid) (e : ResEntry) (wasEvictable : Bool) : Bool :=
  memAllocFits h.luaHeap (resourceTableFootprint h.session.resources)
    (if wasEvictable then u32 e.len else 0)

def Hybrid.setResources (h : Hybrid) (t : ResTable) : Hybrid :=
  { h with session := { h.session with resources := t } }

def hlPinEntry (env : ResEnv) (oom : Bool) (h : Hybrid) (handle : Nat) : Bool × Hybrid :=
  match resolveResource h.session.resources handle with
  | none => (false, h)
  | some i =>
    match h.session.resources.entries[i]? with
    | none => (false, h)
    | some e =>
      if !hlReferenceFits h e (rlIsEvictable e) then (false, h)
      else
        let (bytes, e) := resourceEntryData env oom e
        let t := setEntry h.session.resources i e
        if bytes.isNone ∧ e.len ≠ 0 then (false, h.setResources t)
        else
          (true, hlPublishFootprint
            (h.setResources (resourceTableTouch (setEntry t i (rlPin e)) i)))

/-- The result of the unpin is not looked at. -/
def hlUnpinEntry (h : Hybrid) (handle : Nat) : Hybrid :=
  match resolveResource h.session.resources handle with
  | none => h
  | some i =>
    match h.session.resources.entries[i]? with
    | none => h
    | some e =>
      hlPublishFootprint (h.setResources (setEntry h.session.resources i ((rlUnpin e).getD e)))

/-- `blyt_session_surface_destroy`. -/
def sessionSurfaceDestroy (s : Session) (handle : Nat) : Session :=
  match resolveSurface s.surfaces handle with
  | none => s
  | some i =>
    if (s.surfaces.slots i).locked then s
    else if (s.surfaces.slots i).isScreen then s
    else memAcctPublishFootprint { s with surfaces := surfaceFreeSlot s.surfaces i }

/-- `blyt_session_surface_acquire`: a direct lock, with nothing copied. -/
def sessionSurfaceAcquire (s : Session) (handle : Nat) : Session :=
  match resolveSurface s.surfaces handle with
  | none => s
  | some i =>
    let slot := s.surfaces.slots i
    if slot.locked then s
    else
      { s with surfaces :=
        { s.surfaces.set i { slot with locked := true, lockPhantom := false, lockDirect := true,
                                       lockVaddr := 0, lockLen := 0 } with
          activeLocks := s.surfaces.activeLocks + 1 } }

/-! ## The system -/

inductive HybridOp where
  | luaAlloc (ptr nsize : Nat) (rv : Option Nat) (noacct : Bool)
  | luaPin (handle : Nat) (oom : Bool)
  | luaUnpin (handle : Nat)
  | luaSurfaceCreate (w h : Int) (oom : Bool)
  | luaSurfaceDestroy (handle : Nat)
  | luaSurfaceAcquire (handle : Nat)
  | luaSurfaceRelease (token : Nat)
  /-- a typed or bridged trampoline, up to the first `run_frame` -/
  | callNative
  /-- a bridged trampoline whose call cannot be set up -/
  | callRefused
  /-- a further `run_frame` of the same call -/
  | resumeNative (rcResuming : Bool)
  | native (op : SessionOp)
  | callback
  | callbackReturn
  | returnNative
  /-- the call ends in an error, a trap or an abort -/
  | failNative
  | evictAll
  | luaFrame
  deriving DecidableEq, Repr

def hybridStep (env : ResEnv) (h : Hybrid) : HybridOp → Option Hybrid
  | .luaAlloc ptr nsize rv noacct =>
    (heapStep guestSizeMax h.lua (hlLuaAlloc ptr nsize rv noacct)).map fun lua =>
      { h with lua := lua }
  | .luaPin handle oom => some (hlPinEntry env oom h handle).2
  | .luaUnpin handle => some (hlUnpinEntry h handle)
  | .luaSurfaceCreate w ht oom =>
    some { h with session := (surfaceCreateSlot oom h.session w ht).2 }
  | .luaSurfaceDestroy handle => some { h with session := sessionSurfaceDestroy h.session handle }
  | .luaSurfaceAcquire handle => some { h with session := sessionSurfaceAcquire h.session handle }
  | .luaSurfaceRelease token => some { h with session := surfaceRelease h.session token }
  | .callNative =>
    let h := hlBudgetEnterNative h
    some { h with session := runFrameEntry h.session false true, depth := h.depth + 1 }
  | .callRefused => some (hlBudgetEnterNative h)
  | .resumeNative rcResuming =>
    some { h with session := runFrameEntry h.session rcResuming true }
  | .native op => (sessionStep env h.session op).map fun s => { h with session := s }
  | .callback => some { h with depth := h.depth + 1 }
  | .callbackReturn => some { h with depth := h.depth - 1 }
  | .returnNative => some (hlBudgetLeaveNative { h with depth := h.depth - 1 })
  -- no error path refolds the native heap
  | .failNative => some { h with depth := h.depth - 1 }
  | .evictAll => some { h with session := (sessionResourceEvictAll h.session).2 }
  | .luaFrame => some { h with session := surfaceReapAll h.session }

/-- Which half is running decides what can happen next. -/
def HybridOp.Enabled (h : Hybrid) : HybridOp → Prop
  | .native (.frame) | .native (.evictAll) => False
  | .native _ | .resumeNative _ | .callback | .returnNative | .failNative => h.depth % 2 = 1
  | .callbackReturn => h.depth % 2 = 0 ∧ h.depth ≠ 0
  | .luaFrame | .evictAll => h.depth = 0
  | _ => h.depth % 2 = 0

/-- Sizes that header and rounding do not push past 32 bits, and held pointers,
on both halves. -/
def HybridOp.Admissible (h : Hybrid) : HybridOp → Prop
  | .luaAlloc ptr nsize rv noacct =>
    (hlLuaAlloc ptr nsize rv noacct).Admissible (2 ^ 32 - 31) h.lua
  | .native op => op.Admissible (2 ^ 32 - 31) h.session
  | _ => True

instance (h : Hybrid) (op : HybridOp) : Decidable (op.Enabled h) := by
  unfold HybridOp.Enabled
  split <;> infer_instance

instance (h : Hybrid) (op : HybridOp) : Decidable (op.Admissible h) := by
  cases op <;> unfold HybridOp.Admissible <;> infer_instance

/-- The end of `build_vm`: what the VM has allocated so far is not the
cart's, and both copies are taken for the first time. -/
def hlBuilt (lua : HeapState) (s : Session) : Hybrid :=
  let acct := lua.arena.acct.map fun c => { c with guestHeapBaseline := c.guestHeapUsed }
  hlBudgetLeaveNative (hlBudgetEnterNative
    ⟨{ lua with arena := { lua.arena with acct := acct } }, s, 0⟩)

end Blyt
