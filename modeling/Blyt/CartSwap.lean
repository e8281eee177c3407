import Blyt.Breakpoint
import Blyt.Patch
import Blyt.Reloc
import Blyt.StateBuffer
import Blyt.SurfaceAgree

/-!
# The hot swap

`blyt_session_swap_cart` of `runtime/host/src/libblyt/cart_run.c`: a running
session gets a new cart image, while the emulator, its memory and the runtime's
libraries stay. The image is mapped, relocated and linked against the libraries'
retained symbols, the libraries' own references are resolved again, the bytes of
the old image that the new one leaves uncovered are cleared, and the session's
cart-derived fields are set anew.

All effects on guest memory are lists of stores (`Patch`); a store that leaves
guest memory is none (`GuestRam`). `rv_reset` and the codecs come from outside (`SwapEnv`).
Left out are the exports of a Lua bridge and the emulator's cache of translated
blocks.
-/

namespace Blyt

/-! ## Guest memory -/

section

variable [GuestRam]

/-- `memory_write`, `memory_fill`: nothing is stored otherwise. -/
def storeAt (p : Patch) : List Patch := if GuestRam.contains p.start p.len then [p] else []

def wordPatches (ws : List (Nat × Nat)) : List Patch :=
  ws.flatMap fun w => storeAt (.word w.1 w.2)

/-! ## Mapping -/

/-- One header of `map_lib_segments`: the stores it makes, and whether the
mapping goes on. The file's part is stored before the rest is looked at. -/
def mapSegment (f : Image) (bias i : Nat) : List Patch × Bool :=
  let ph := f.phdr (phdrAt f i)
  let g := u32 (bias + ph.vaddr)
  let file : Patch := ⟨g, ph.filesz, fun k => f.byte (ph.offset + k)⟩
  if f.size < phdrAt f i + phdrSize then ([], false)
  else if ph.type ≠ ptLoad then ([], true)
  else if f.size < ph.offset + ph.filesz then ([], false)
  else if !GuestRam.contains g ph.filesz then ([], false)
  else if ph.memsz ≤ ph.filesz then ([file], true)
  else if !GuestRam.contains (u32 (g + ph.filesz)) (ph.memsz - ph.filesz) then ([file], false)
  else ([file, .zeros (u32 (g + ph.filesz)) (ph.memsz - ph.filesz)], true)

def mapSegments (f : Image) (bias : Nat) : List Nat → List Patch × Bool
  | [] => ([], true)
  | i :: is =>
    match mapSegment f bias i with
    | (ps, false) => (ps, false)
    | (ps, true) => (ps ++ (mapSegments f bias is).1, (mapSegments f bias is).2)

/-- `map_lib_segments`. -/
def mapImage (f : Image) (bias : Nat) : List Patch × Bool :=
  mapSegments f bias (List.range f.ehdr.phnum)

end

/-! ## What linking leaves on the session -/

/-- The address of a name of the runtime's, 0 if there is none. -/
def symtabAddr (syms : List Symbol) (name : String) : Nat :=
  match syms.find? fun s => decide (s.name = bytesOf name) with
  | some s => s.addr
  | none => 0

structure EntryPoints where
  fnOnSaveState : Nat
  fnInit : Nat
  fnOnLoadState : Nat
  fnOnNewState : Nat
  fnUpdate : Nat
  fnDraw : Nat
  fnOnQuit : Nat
  fnCleanup : Nat
  fnOnAssetsReloaded : Nat
  fnIsQuitRequested : Nat
  deriving DecidableEq, Repr

def resolveCartEntryPoints (syms : List Symbol) : EntryPoints where
  fnOnSaveState := symtabAddr syms "blyt_cart_on_save_state"
  fnInit := symtabAddr syms "blyt_cart_init"
  fnOnLoadState := symtabAddr syms "blyt_cart_on_load_state"
  fnOnNewState := symtabAddr syms "blyt_cart_on_new_state"
  fnUpdate := symtabAddr syms "blyt_cart_update"
  fnDraw := symtabAddr syms "blyt_cart_draw"
  fnOnQuit := symtabAddr syms "blyt_cart_on_quit"
  fnCleanup := symtabAddr syms "blyt_cart_cleanup"
  fnOnAssetsReloaded := symtabAddr syms "blyt_cart_on_assets_reloaded"
  fnIsQuitRequested := symtabAddr syms "blyt_is_quit_requested"

/-- Where a cart image is: base, span and the zeroed ranges. -/
structure ImageLayout where
  base : Nat
  span : Nat
  bss : List (Nat × Nat)
  deriving DecidableEq, Repr

def maxBssRegions : Nat := 16

/-- The `PT_LOAD` headers up to the first that leaves the file. -/
def loadsInFile (f : Image) : List Phdr :=
  (((List.range f.ehdr.phnum).takeWhile fun i => decide (phdrAt f i + phdrSize ≤ f.size)).map
    f.segment).filter fun ph => decide (ph.type = ptLoad)

def recordCartImageLayout (f : Image) (base : Nat) : ImageLayout where
  base := base
  span := ((loadsInFile f).map fun ph => u32 (ph.vaddr + ph.memsz)).foldl max 0
  bss := (((loadsInFile f).filter fun ph => decide (ph.filesz < ph.memsz)).take maxBssRegions).map
    fun ph => (u32 (base + ph.vaddr + ph.filesz), ph.memsz - ph.filesz)

/-- `BLYT_ARENA_BASE`, `BLYT_ARENA_SIZE`. -/
def arenaBase : Nat := 0x04000000
def arenaSize : Nat := 16 * 1024 * 1024

/-- The words of the guest's arena that the host sets. -/
def arenaWords (syms : List Symbol) : List (Nat × Nat) :=
  if symtabAddr syms "blytc_arena_base" ≠ 0 ∧ symtabAddr syms "blytc_arena_size" ≠ 0 then
    [(symtabAddr syms "blytc_arena_base", arenaBase),
      (symtabAddr syms "blytc_arena_size", arenaSize)]
  else []

/-- The stores of `dynlink`, for a cart that is mapped at its bias: the libraries
one by one, the cart's own relocations, all lookups, the host's words. -/
def linkPatches [GuestRam] (cart : Lib) (libs : List Lib) (isDebug : Bool) : List Patch :=
  let syms := linkTable cart libs
  libs.flatMap (fun lib => (mapImage lib.image lib.bias).1
      ++ wordPatches (applyLibRela lib.image lib.bias))
    ++ wordPatches (applyLibRela cart.image cart.bias)
    ++ libs.flatMap (fun lib => wordPatches (resolveElfPlt lib.image lib.bias syms))
    ++ wordPatches (resolveElfPlt cart.image cart.bias syms)
    ++ wordPatches (arenaWords syms)
    ++ if symtabAddr syms "blyt_runtime_flags" ≠ 0 then
        storeAt (.word (symtabAddr syms "blyt_runtime_flags") isDebug.toNat)
      else []

/-- The stores of the swap once the new image is mapped and relocated, up to the
host's words. -/
def relinkPatches [GuestRam] (cart : Lib) (libs : List Lib) (syms : List Symbol) : List Patch :=
  wordPatches (resolveElfPlt cart.image cart.bias syms)
    ++ libs.flatMap (fun lib => wordPatches (resolveElfPlt lib.image lib.bias syms))
    ++ wordPatches (arenaWords syms)
    ++ (if symtabAddr syms "blytc_arena_ready" ≠ 0 then
        storeAt (.word (symtabAddr syms "blytc_arena_ready") 0)
      else [])
    ++ if symtabAddr syms "blyt_mem_acct" ≠ 0 then
        storeAt (.zeros (symtabAddr syms "blyt_mem_acct") 8)
      else []

/-- The bytes of the old image that are cleared. -/
def oldPatches [GuestRam] (old new : ImageLayout) : List Patch :=
  if old.span = 0 then []
  else if old.base = new.base then
    if new.span < old.span then
      storeAt (.zeros (u32 (old.base + new.span)) (old.span - new.span))
    else []
  else storeAt (.zeros old.base old.span)

/-! ## Sessions -/

inductive DebugState where
  | running
  | pausedGdb
  | pausedDap
  deriving DecidableEq, Repr

structure DebugFlags where
  state : DebugState
  gdbEnabled : Bool
  dapEnabled : Bool
  gdbSingleStep : Bool
  gdbEbreakPending : Bool
  deriving DecidableEq, Repr

structure Regs where
  pc : Nat
  x : Nat → Nat

/-- The fields of `blyt_session_t` and `blyt_run_ctx_t` that creation and swap
work on. -/
structure HostSession where
  mem : ByteMem
  regs : Regs
  halt : Bool
  libs : List Lib
  libSyms : List Symbol
  layout : ImageLayout
  entries : EntryPoints
  arenaReadyVaddr : Nat
  memAcctVaddr : Nat
  state : List Buffer
  cartName : List UInt8
  saveVersion : Nat
  resources : ResTable
  resourceScratchOff : Nat
  surfaces : SurfaceRegistry
  palette : List UInt8
  phase : Phase
  cartIsDebug : Bool
  devFault : Bool
  cartExited : Bool
  ecallTrapped : Bool
  ecallAborted : Bool
  frameDone : Bool
  fnReturnDone : Bool
  cartHasDrawn : Bool
  debug : DebugFlags
  peerHeap : Nat

/-- A session before anything is loaded. -/
def blankHost : HostSession where
  mem := fun _ => 0
  regs := ⟨0, fun _ => 0⟩
  halt := false
  libs := []
  libSyms := []
  layout := ⟨0, 0, []⟩
  entries := ⟨0, 0, 0, 0, 0, 0, 0, 0, 0, 0⟩
  arenaReadyVaddr := 0
  memAcctVaddr := 0
  state := []
  cartName := []
  saveVersion := 0
  resources := ⟨[], 0⟩
  resourceScratchOff := 0
  surfaces := newSurfaces
  palette := []
  phase := .none
  cartIsDebug := false
  devFault := false
  cartExited := false
  ecallTrapped := false
  ecallAborted := false
  frameDone := false
  fnReturnDone := false
  cartHasDrawn := false
  debug := ⟨.running, false, false, false, false⟩
  peerHeap := 0

/-- What the host reads of a cart: its file, layouts, identity, lifecycle masks,
the handle of its default palette, the resource table loading it gives and its
persistent set. -/
structure CartFile where
  image : Image
  layouts : CartLayouts
  id : List UInt8
  saveVersion : Nat
  isDebug : Bool
  luaMask : Nat
  nativeMask : Nat
  defaultPalette : Nat
  resources : List ResEntry
  persistentIds : List Nat

/-- What the swap needs from outside: whether its arguments and the retained
table are there, whether the symbol table can be allocated, the codecs, and the
registers after `rv_reset` with `ra` set. -/
structure SwapEnv where
  args : Bool
  calloc : Bool
  res : ResEnv
  oom : Bool
  rvReset : Nat → Regs

/-- The entries after a preload, also one that stops at an entry it cannot
materialise. -/
def preloadPrefix (env : ResEnv) (oom : Bool) : List ResEntry → List ResEntry
  | [] => []
  | e :: es =>
    if !e.persistent then e :: preloadPrefix env oom es
    else
      match resourceEntryData env oom e with
      | (none, e') => e' :: es
      | (some _, e') => e' :: preloadPrefix env oom es

/-- The table after `blyt_resource_table_preload_persistent`, whatever it returns. -/
def preloadedTable (env : ResEnv) (oom : Bool) (t : ResTable) : ResTable :=
  if memBudgetBytes < resourceTableFootprint t then t
  else { t with entries := preloadPrefix env oom t.entries }

/-- The cart-derived fields the swap sets anew, and the flags it clears. -/
def reinit (env : SwapEnv) (cart : CartFile) (base : Nat) (s : HostSession) : HostSession :=
  { s with
    state := stateCtxInit cart.layouts
    resources := preloadedTable env.res env.oom (resourceTableMarkPersistent
      ⟨cart.resources, s.resources.lruClock⟩ cart.persistentIds)
    resourceScratchOff := 0
    cartName := cart.id
    saveVersion := cart.saveVersion
    regs := env.rvReset (u32 (base + cart.image.ehdr.entry))
    ecallTrapped := false
    ecallAborted := false
    frameDone := false
    fnReturnDone := false
    cartHasDrawn := false
    halt := false }

/-- The linking of the swap, with the memory as mapping and relocating leave it. -/
def relink [GuestRam] (cart : CartFile) (base : Nat) (s : HostSession) : HostSession :=
  let lib : Lib := ⟨[], cart.image, base⟩
  let syms := appendSymtab (buildSymtab cart.image base []) s.libSyms
  let layout := recordCartImageLayout cart.image base
  { s with
    mem := patchAll s.mem (relinkPatches lib s.libs syms ++ oldPatches s.layout layout)
    arenaReadyVaddr := symtabAddr syms "blytc_arena_ready"
    memAcctVaddr := symtabAddr syms "blyt_mem_acct"
    entries := resolveCartEntryPoints syms
    layout := layout }

/-- `blyt_session_swap_cart`. -/
def swapCart [GuestRam] (env : SwapEnv) (s : HostSession) (cart : CartFile) (base : Nat) :
    Bool × HostSession :=
  if !env.args then (false, s)
  else
    let mapped := mapImage cart.image base
    let s₁ := { s with mem := patchAll s.mem mapped.1 }
    if !mapped.2 then (false, s₁)
    else
      let s₂ := { s₁ with mem := patchAll s₁.mem (wordPatches (applyLibRela cart.image base)) }
      if !env.calloc then (false, s₂)
      else (true, reinit env cart base (relink cart base s₂))

/-! ## A swap that fails -/

section Fails

variable [GuestRam]

/-- The header does not stop the mapping: it is in the file, and if it loads
something, its bytes are in the file and both its parts in guest memory. -/
structure SegmentFits (f : Image) (bias i : Nat) : Prop where
  header : phdrAt f i + phdrSize ≤ f.size
  bytes : (f.segment i).type = ptLoad → (f.segment i).offset + (f.segment i).filesz ≤ f.size
  file : (f.segment i).type = ptLoad →
    GuestRam.contains (u32 (bias + (f.segment i).vaddr)) (f.segment i).filesz = true
  rest : (f.segment i).type = ptLoad → (f.segment i).filesz < (f.segment i).memsz →
    GuestRam.contains (u32 (u32 (bias + (f.segment i).vaddr) + (f.segment i).filesz))
      ((f.segment i).memsz - (f.segment i).filesz) = true

theorem mapSegment_ok_iff {f : Image} {bias i : Nat} :
    (mapSegment f bias i).2 = true ↔ SegmentFits f bias i := by
  have hseg : f.phdr (phdrAt f i) = f.segment i := rfl
  rw [mapSegment, hseg]
  constructor
  · intro h
    split at h
    · cases h
    by_cases htype : (f.segment i).type ≠ ptLoad
    · exact ⟨by omega, fun ht => absurd ht htype, fun ht => absurd ht htype,
        fun ht => absurd ht htype⟩
    rw [if_neg htype] at h
    split at h
    · cases h
    split at h <;> rename_i hfile
    · cases h
    refine ⟨by omega, fun _ => by omega, fun _ => by simpa using hfile, fun _ hlt => ?_⟩
    rw [if_neg (by omega)] at h
    split at h <;> rename_i hrest
    · cases h
    · simpa using hrest
  · intro h
    rw [if_neg (by have := h.header; omega)]
    split <;> rename_i htype
    · rfl
    · rw [not_not] at htype
      rw [if_neg (by have := h.bytes htype; omega), h.file htype, Bool.not_true,
        if_neg Bool.false_ne_true]
      by_cases hsize : (f.segment i).memsz ≤ (f.segment i).filesz
      · rw [if_pos hsize]
      · rw [if_neg hsize, h.rest htype (by omega), Bool.not_true, if_neg Bool.false_ne_true]

theorem mapSegments_ok_iff {f : Image} {bias : Nat} {is : List Nat} :
    (mapSegments f bias is).2 = true ↔ ∀ i ∈ is, SegmentFits f bias i := by
  induction is with
  | nil => exact ⟨fun _ => nofun, fun _ => rfl⟩
  | cons i is ih =>
    rw [mapSegments, List.forall_mem_cons, ← ih, ← mapSegment_ok_iff]
    rcases hseg : mapSegment f bias i with ⟨ps, ok⟩
    cases ok
    · exact ⟨nofun, fun h => nomatch h.1⟩
    · exact ⟨fun h => ⟨rfl, h⟩, fun h => h.2⟩

theorem mapImage_ok_iff {f : Image} {bias : Nat} :
    (mapImage f bias).2 = true ↔ ∀ i < f.ehdr.phnum, SegmentFits f bias i := by
  rw [mapImage, mapSegments_ok_iff]
  simp

/-- The header stores nothing: it loads nothing, or it stops the mapping before its store. -/
def StoresNothing (f : Image) (bias i : Nat) : Prop :=
  let ph := f.segment i
  let g := u32 (bias + ph.vaddr)
  f.size < phdrAt f i + phdrSize ∨ ph.type ≠ ptLoad ∨ f.size < ph.offset + ph.filesz
    ∨ GuestRam.contains g ph.filesz = false
    ∨ ph.filesz = 0
      ∧ (ph.memsz = 0 ∨ GuestRam.contains (u32 (g + ph.filesz)) (ph.memsz - ph.filesz) = false)

theorem mapSegment_empty_iff {f : Image} {bias i : Nat} :
    (∀ p ∈ (mapSegment f bias i).1, p.len = 0) ↔ StoresNothing f bias i := by
  have hseg : f.phdr (phdrAt f i) = f.segment i := rfl
  have hzeros : ∀ a n, (Patch.zeros a n).len = n := fun _ _ => rfl
  unfold mapSegment StoresNothing
  simp only [hseg, Bool.not_eq_true']
  split_ifs <;> simp [*] <;> omega

theorem mapSegments_empty_iff {f : Image} {bias : Nat} {is : List Nat} :
    (∀ p ∈ (mapSegments f bias is).1, p.len = 0)
      ↔ ∀ k i, is[k]? = some i → (∀ j ∈ is.take k, SegmentFits f bias j) →
        StoresNothing f bias i := by
  induction is with
  | nil => simp [mapSegments]
  | cons i is ih =>
    have hhead : (∀ p ∈ (mapSegment f bias i).1, p.len = 0) ↔ _ := mapSegment_empty_iff
    have hfits : (mapSegment f bias i).2 = true ↔ _ := mapSegment_ok_iff
    rw [mapSegments]
    rcases hseg : mapSegment f bias i with ⟨ps, ok⟩
    rw [hseg] at hhead hfits
    cases ok with
    | false =>
      have hstop : ¬SegmentFits f bias i := fun h => Bool.false_ne_true (hfits.mpr h)
      refine hhead.trans ⟨fun h k i' hi hpre => ?_, fun h => h 0 i rfl (by simp)⟩
      cases k with
      | zero =>
        cases hi
        exact h
      | succ k => exact absurd (hpre i List.mem_cons_self) hstop
    | true =>
      have hgo := hfits.mp rfl
      show (∀ p ∈ ps ++ (mapSegments f bias is).1, p.len = 0) ↔ _
      rw [List.forall_mem_append, hhead, ih]
      constructor
      · rintro ⟨hi, hrest⟩ k i' hk hpre
        cases k with
        | zero =>
          cases hk
          exact hi
        | succ k => exact hrest k i' hk fun j hj => hpre j (List.mem_cons_of_mem i hj)
      · intro h
        refine ⟨h 0 i rfl (by simp), fun k i' hk hpre => h (k + 1) i' hk ?_⟩
        exact List.forall_mem_cons.mpr ⟨hgo, hpre⟩

/-- The mapping stores nothing if every header that it gets to does not. -/
theorem mapImage_empty_iff {f : Image} {bias : Nat} :
    (∀ p ∈ (mapImage f bias).1, p.len = 0)
      ↔ ∀ i < f.ehdr.phnum, (∀ j < i, SegmentFits f bias j) → StoresNothing f bias i := by
  rw [mapImage, mapSegments_empty_iff]
  constructor
  · intro h i hi hpre
    refine h i i (List.getElem?_range hi) fun j hj => hpre j ?_
    rw [List.take_range, List.mem_range] at hj
    omega
  · intro h k i hk hpre
    obtain ⟨hlt, rfl⟩ := List.getElem?_eq_some_iff.mp hk
    rw [List.length_range] at hlt
    rw [List.getElem_range]
    refine h k hlt fun j hj => hpre j ?_
    rw [List.take_range, List.mem_range]
    omega

theorem wordPatches_empty_iff {ws : List (Nat × Nat)} :
    (∀ p ∈ wordPatches ws, p.len = 0) ↔ ∀ w ∈ ws, GuestRam.contains w.1 4 = false := by
  have hword : ∀ a v, (Patch.word a v).len = 4 ∧ (Patch.word a v).start = a :=
    fun _ _ => ⟨rfl, rfl⟩
  simp only [wordPatches, List.mem_flatMap, storeAt, hword]
  constructor
  · intro h w hw
    by_contra hin
    have hfour := h (.word w.1 w.2) ⟨w, hw, by rw [if_pos (by simpa using hin)]; simp⟩
    cases hfour
  · rintro h p ⟨w, hw, hp⟩
    rw [h w hw] at hp
    cases hp

/-- What is stored before the swap can no longer fail: the segments before the
header that stops the mapping, or the whole image with its own relocations. -/
def loadPatches (f : Image) (base : Nat) : List Patch :=
  if (mapImage f base).2 then (mapImage f base).1 ++ wordPatches (applyLibRela f base)
  else (mapImage f base).1

theorem loadPatches_empty_iff {f : Image} {base : Nat} :
    (∀ p ∈ loadPatches f base, p.len = 0)
      ↔ (∀ p ∈ (mapImage f base).1, p.len = 0)
        ∧ ((mapImage f base).2 = true → ∀ p ∈ wordPatches (applyLibRela f base), p.len = 0) := by
  unfold loadPatches
  split <;> rename_i hok
  · rw [List.forall_mem_append, forall_prop_of_true hok]
  · rw [forall_prop_of_false hok, and_true]

section

variable {env : SwapEnv} {s s' : HostSession} {cart : CartFile} {base : Nat}

theorem swapCart_failed (hargs : env.args = true)
    (hfail : ¬((mapImage cart.image base).2 = true ∧ env.calloc = true)) :
    swapCart env s cart base
      = (false, { s with mem := patchAll s.mem (loadPatches cart.image base) }) := by
  cases hmap : (mapImage cart.image base).2 with
  | false => simp [swapCart, loadPatches, hargs, hmap]
  | true =>
    have hcalloc : env.calloc = false := by
      rw [hmap, and_iff_right rfl, Bool.not_eq_true] at hfail
      exact hfail
    simp [swapCart, loadPatches, hargs, hmap, hcalloc, patchAll_append]

theorem swapCart_ok (hargs : env.args = true) (hmap : (mapImage cart.image base).2 = true)
    (hcalloc : env.calloc = true) :
    swapCart env s cart base
      = (true, reinit env cart base (relink cart base
          { s with mem := patchAll s.mem (loadPatches cart.image base) })) := by
  simp [swapCart, loadPatches, hargs, hmap, hcalloc, patchAll_append]

theorem swapCart_succeeded (h : swapCart env s cart base = (true, s')) :
    env.args = true ∧ (mapImage cart.image base).2 = true ∧ env.calloc = true
      ∧ s' = reinit env cart base (relink cart base
          { s with mem := patchAll s.mem (loadPatches cart.image base) }) := by
  have hargs : env.args = true := by
    by_contra hne
    rw [swapCart, Bool.not_eq_true _ |>.mp hne] at h
    cases h
  by_cases hok : (mapImage cart.image base).2 = true ∧ env.calloc = true
  · rw [swapCart_ok hargs hok.1 hok.2, Prod.mk.injEq] at h
    exact ⟨hargs, hok.1, hok.2, h.2.symm⟩
  · rw [swapCart_failed hargs hok] at h
    cases h

theorem swapCart_failed_iff (hargs : env.args = true) :
    swapCart env s cart base = (false, s')
      ↔ ¬((mapImage cart.image base).2 = true ∧ env.calloc = true)
        ∧ s' = { s with mem := patchAll s.mem (loadPatches cart.image base) } := by
  by_cases hok : (mapImage cart.image base).2 = true ∧ env.calloc = true
  · rw [swapCart_ok hargs hok.1 hok.2]
    exact ⟨nofun, fun h => absurd hok h.1⟩
  · rw [swapCart_failed hargs hok, Prod.mk.injEq, and_iff_right rfl, and_iff_right hok]
    exact eq_comm

end

/-- **A failed swap.** It leaves every session as it was exactly if the arguments are refused,
or if it cannot fail, or if nothing has been stored by then: every header that the mapping gets
to loads nothing or stops it at once, and if the mapping gets through, no relocation of the
image's own is in guest memory. -/
theorem failedSwap_unchanged_iff (env : SwapEnv) (cart : CartFile) (base : Nat) :
    (∀ s s', swapCart env s cart base = (false, s') → s' = s)
      ↔ env.args = false
        ∨ (∀ i < cart.image.ehdr.phnum, SegmentFits cart.image base i) ∧ env.calloc = true
        ∨ (∀ i < cart.image.ehdr.phnum, (∀ j < i, SegmentFits cart.image base j) →
            StoresNothing cart.image base i)
          ∧ ((∀ i < cart.image.ehdr.phnum, SegmentFits cart.image base i) →
            ∀ w ∈ applyLibRela cart.image base, GuestRam.contains w.1 4 = false) := by
  rw [← mapImage_ok_iff, ← mapImage_empty_iff, ← wordPatches_empty_iff, ← loadPatches_empty_iff,
    ← patchAll_eq_self_iff]
  by_cases hargs : env.args = false
  · refine ⟨fun _ => .inl hargs, fun _ s s' h => ?_⟩
    rw [swapCart, hargs, Prod.mk.injEq] at h
    exact h.2.symm
  · rw [Bool.not_eq_false] at hargs
    simp only [swapCart_failed_iff hargs]
    constructor
    · intro h
      refine .inr (Classical.or_iff_not_imp_left.mpr fun hfail m => ?_)
      exact congrArg HostSession.mem (h { blankHost with mem := m } _ ⟨hfail, rfl⟩)
    · rintro (h | h | h) s s' ⟨hfail, rfl⟩
      · rw [hargs] at h
        cases h
      · exact absurd h hfail
      · rw [h]

end Fails

/-- A cart of these segments, their headers at 52, with these pieces. -/
def segmentsCart (size : Nat) (segs : List Phdr) (pieces : List Piece) : CartFile where
  image := Image.ofPieces size (.table 0 13 [[0x464c457f, 0x00010101, 0, 0, 3 + 243 * 65536, 1, 0,
    52, 0, 0, 52 + 32 * 65536, segs.length + 40 * 65536, 0]] :: .table 52 8 (segs.map phdrRow)
    :: pieces)
  layouts := ⟨0, [], none, 0⟩
  id := []
  saveVersion := 0
  isDebug := false
  luaMask := 0
  nativeMask := 0
  defaultPalette := 0
  resources := []
  persistentIds := []

def demoSwapEnv : SwapEnv :=
  ⟨true, true, ⟨fun _ _ _ => none, fun _ => none⟩, false, fun pc => ⟨pc, fun _ => 0⟩⟩

/-- The second segment is not in the file: the first has replaced code of the
cart that goes on running. -/
theorem failedSwap_overwrites :
    ¬∀ s', swapCart demoSwapEnv blankHost (segmentsCart 0x300 [⟨ptLoad, 0x200, 0x1000, 4, 4, 5⟩,
        ⟨ptLoad, 0x2fe, 0x2000, 4, 4, 6⟩] [.bytes 0x200 [0x13, 0, 0, 0]]) 0 = (false, s')
      → s' = blankHost := by
  intro h
  have hs := h _ (swapCart_failed rfl (by decide +kernel))
  have hbyte := congrFun (congrArg HostSession.mem hs) 0x1000
  revert hbyte
  decide +kernel

end Blyt
