import Blyt.Residency

/-!
# The resource table of the native runtime

`frontends/native/src/libblytcommon/blytcommon.c`: the table that `resources_init` fills, the
native `blyt_resource_pin` and `blyt_resource_unpin`, and the work at a frame boundary. Most
of its policy is the host's, statement for statement, over entries that have no staging file;
such a function is given here as the host's at its native name. What differs has a body of
its own: the bytes are served in place, not from a scratch region, an empty compressed
resource is never decoded, and the accounting block `g_mem_acct` is always there.
-/

namespace Blyt

/-- `s_res` with `s_lru_clock`, and `g_mem_acct`. -/
structure NativeRes where
  res : ResTable
  memAcct : MemAccounting
  deriving DecidableEq, Repr

/-! ## The table's policy -/

def resResolve (t : ResTable) (handle : Nat) : Option Nat := resolveResource t handle

/-- Decompressed bytes of an entry; `oom` says that `raw_malloc` fails. -/
def nativeResData (env : ResEnv) (oom : Bool) (e : ResEntry) : Option (List UInt8) × ResEntry :=
  match e.data with
  | some bytes => (some bytes, e)
  | none =>
    if e.algo ≠ resAlgoZstd ∨ e.len = 0 then (none, e)
    else if oom then (none, e)
    else
      match env.decode e.algo e.cdata e.len with
      | none => (none, e)
      | some buf => (some buf, { e with owned := true, data := some buf })

def nativeResEvict (e : ResEntry) : Nat × ResEntry := resourceEntryEvict e

def nativeResourcesEvictAllEvictable (t : ResTable) : Nat × ResTable :=
  ((t.entries.map fun e => (nativeResEvict e).1).sum,
    { t with entries := t.entries.map fun e => (nativeResEvict e).2 })

def nativeResFootprint (t : ResTable) : Nat := resourceTableFootprint t

def nativeResResidentDecompressed (t : ResTable) : Nat := resourceTableResidentDecompressed t

def nativeResTouch (t : ResTable) (i : Nat) : ResTable := resourceTableTouch t i

def nativeResEvictToFit (t : ResTable) (maxResidentEvictable : Nat) : ResTable :=
  resourceTableEvictToFit t maxResidentEvictable

def resourcesForceReleasePins (t : ResTable) : ResTable := resourceTableForceReleasePins t

def nativeMarkPersistent (t : ResTable) (ids : List Nat) : ResTable :=
  resourceTableMarkPersistent t ids

/-! ## Calls -/

def nativeMemPublishFootprint (n : NativeRes) : NativeRes :=
  let footprint := nativeResFootprint n.res
  let t := nativeResEvictToFit n.res (memCacheRoom n.memAcct.guestHeapUsed footprint)
  { res := t
    memAcct := { n.memAcct with
      nonEvictableFootprint := footprint
      resourceCacheUsed := nativeResResidentDecompressed t } }

def nativeMemReferenceFits (n : NativeRes) (e : ResEntry) (wasEvictable : Bool) : Bool :=
  memAllocFits n.memAcct.guestHeapUsed (nativeResFootprint n.res)
    (if wasEvictable then e.len else 0)

/-- What a native pin returns: the code, the bytes behind `*out_ptr` and `*out_size`. -/
structure NativePin where
  code : Nat
  bytes : Option (List UInt8)
  size : Option Nat
  deriving DecidableEq, Repr

/-- The native `blyt_resource_pin`. -/
def blytResourcePin (env : ResEnv) (oom : Bool) (n : NativeRes) (handle : Nat) :
    NativePin × NativeRes :=
  match resResolve n.res handle with
  | none => (⟨4, none, none⟩, n)
  | some i =>
    match n.res.entries[i]? with
    | none => (⟨4, none, none⟩, n)
    | some e =>
      if !nativeMemReferenceFits n e (rlIsEvictable e) then (⟨2, none, none⟩, n)
      else
        let (bytes, e) := nativeResData env oom e
        let n := { n with res := setEntry n.res i e }
        if bytes.isNone ∧ e.len ≠ 0 then (⟨3, none, none⟩, n)
        else
          let t := nativeResTouch (setEntry n.res i (rlPin e)) i
          (⟨0, bytes, some e.len⟩, nativeMemPublishFootprint { n with res := t })

/-- The native `blyt_resource_unpin`. -/
def blytResourceUnpin (n : NativeRes) (handle : Nat) : Nat × NativeRes :=
  match resResolve n.res handle with
  | none => (4, n)
  | some i =>
    match n.res.entries[i]? with
    | none => (4, n)
    | some e =>
      match rlUnpin e with
      | none => (1, n)
      | some e' => (0, nativeMemPublishFootprint { n with res := setEntry n.res i e' })

/-- The resource part of `blyt_frame_done`. -/
def blytFrameDone (evictEveryFrame : Bool) (n : NativeRes) : NativeRes :=
  let t := resourcesForceReleasePins n.res
  let t := if evictEveryFrame then (nativeResourcesEvictAllEvictable t).2 else t
  nativeMemPublishFootprint { n with res := t }

/-- `native_preload_persistent`; `none` is its failure. -/
def nativePreloadEntries (env : ResEnv) (oom : Bool) : List ResEntry → Option (List ResEntry)
  | [] => some []
  | e :: es =>
    if !e.persistent then (nativePreloadEntries env oom es).map (e :: ·)
    else
      match nativeResData env oom e with
      | (none, _) => none
      | (some _, e') => (nativePreloadEntries env oom es).map (e' :: ·)

def nativePreloadPersistent (env : ResEnv) (oom : Bool) (t : ResTable) : Option ResTable :=
  if memBudgetBytes < nativeResFootprint t then none
  else (nativePreloadEntries env oom t.entries).map fun es => { t with entries := es }

/-- `blyt_runtime_startup`, as far as resources go: `none` is a runtime that exits. `ids` are
the words of the cart's `.cart.persistent`, and `g_mem_acct` is blank. -/
def blytRuntimeStartup (env : ResEnv) (oom : Bool) (f : Image) (ids : List Nat) :
    Option NativeRes :=
  let t := nativeMarkPersistent (resourcesInit f) ids
  (nativePreloadPersistent env oom t).map fun t =>
    nativeMemPublishFootprint ⟨t, ⟨0, 0, 0, 0⟩⟩

end Blyt
