import Blyt.SwapLink

/-!
# A swapped session and a fresh one

`session_create_impl` next to `blyt_session_swap_cart`
(`runtime/host/src/libblyt/cart_run.c`). Both set a list of fields, and the lists
differ: the swap leaves the flags of an ended cart, the phase, the palette, the
surfaces and the debugger's state as it finds them, does not publish what the
persistent resources reserve, and does not refuse a cart that creation refuses.
The last section says which sessions and carts do not notice.

Creation loads a cart at bias 0; here the bias is a parameter, so that a swap to
another base has something to be compared with.
-/

namespace Blyt

open List Option

/-! ## Creation -/

/-- What creation needs beyond the swap's environment: the emulator, the
libraries and the built-in palettes. -/
structure CreateEnv extends SwapEnv where
  rvCreate : Bool
  store : LibStore
  builtinPalette : Nat → Option (List UInt8)

/-- `BLYT_RESOURCE_ENCODE(BLYT_PAL_ID_AURORA, BLYT_RESOURCE_PROV_RUNTIME)`. -/
def auroraHandle : Nat := 2 ^ 29 + 2 ^ 24 + 1

/-- `blyt_resolve_palette`; a cart's palette is materialised on the way. -/
def resolvePalette (env : CreateEnv) (t : ResTable) (handle : Nat) :
    Option (List UInt8) × ResTable :=
  if resourceDecodeProvenance handle = 1 then (env.builtinPalette handle, t)
  else
    match resolveResource t handle with
    | none => (none, t)
    | some i =>
      match t.entries[i]? with
      | none => (none, t)
      | some e =>
        if e.len ≠ 256 * 4 then (none, t)
        else ((resourceEntryData env.res env.oom e).1,
          setEntry t i (resourceEntryData env.res env.oom e).2)

/-- The palette a session starts with, and the table after it was looked up. -/
def initialPalette (env : CreateEnv) (t : ResTable) (default : Nat) : List UInt8 × ResTable :=
  let found := resolvePalette env t (if default = 0 then auroraHandle else default)
  (found.1.getD ((env.builtinPalette auroraHandle).getD []), found.2)

/-- `mem_acct_publish_footprint`, on guest memory. -/
def publishFootprint [GuestRam] (s : HostSession) : HostSession :=
  if s.memAcctVaddr = 0 then s
  else
    let footprint := u32 (resourceTableFootprint s.resources + s.surfaces.surfaceBytes + s.peerHeap)
    let mem := patchAll s.mem (storeAt (.word (u32 (s.memAcctVaddr + 4)) footprint))
    let t := resourceTableEvictToFit s.resources
      (memCacheRoom (read32 mem s.memAcctVaddr) footprint)
    { s with
      resources := t
      mem := patchAll mem (storeAt (.word (u32 (s.memAcctVaddr + 8))
        (resourceTableResidentDecompressed t))) }

/-- A new session before its persistent set is there. -/
def linkedSession [GuestRam] (env : CreateEnv) (cart : CartFile) (base : Nat) (linked : Linked) :
    HostSession :=
  let syms := linkTable (cart.lib base) linked.libs
  let palette := initialPalette env ⟨cart.resources, 0⟩ cart.defaultPalette
  { blankHost with
    mem := freshMem cart base linked.libs
    regs := env.rvReset (u32 (base + cart.image.ehdr.entry))
    libs := linked.libs
    libSyms := linked.libSyms
    layout := recordCartImageLayout cart.image base
    entries := resolveCartEntryPoints syms
    arenaReadyVaddr := symtabAddr syms "blytc_arena_ready"
    memAcctVaddr := symtabAddr syms "blyt_mem_acct"
    state := stateCtxInit cart.layouts
    cartName := cart.id
    saveVersion := cart.saveVersion
    resources := palette.2
    palette := palette.1
    cartIsDebug := cart.isDebug }

/-- `session_create_impl`. -/
def sessionCreateImpl [GuestRam] (env : CreateEnv) (cart : CartFile) (base : Nat) :
    Option HostSession :=
  if cart.luaMask &&& cart.nativeMask ≠ 0 then none
  else if !env.rvCreate then none
  else
    match (dynlink env.store cart.image).2 with
    | none => none
    | some linked =>
      let s := linkedSession env cart base linked
      (resourceTablePreloadPersistent env.res env.oom
        (resourceTableMarkPersistent s.resources cart.persistentIds)).map fun t =>
          publishFootprint { s with resources := t }

/-! ## What is compared -/

/-- An entry without its place in the cache, unless it is persistent. -/
def heldKey (e : ResEntry) : ResEntry :=
  if e.persistent then { e with lastAccess := 0 } else refKey e

/-- The registry without the bytes of the surfaces. -/
def SurfaceRegistry.shape (r : SurfaceRegistry) : SurfaceRegistry :=
  { r with slots := fun i => { r.slots i with pixels := none } }

/-- There is an accounting block at the address, with its footprint in guest memory. -/
def HasFootprint (vaddr : Nat) : Prop := vaddr ≠ 0 ∧ vaddr + 8 ≤ emuMemSize

instance (vaddr : Nat) : Decidable (HasFootprint vaddr) := inferInstanceAs (Decidable (_ ∧ _))

/-- The footprint the guest reads, if it can. -/
def HostSession.published (s : HostSession) : Option Nat :=
  if HasFootprint s.memAcctVaddr then some (read32 s.mem (s.memAcctVaddr + 4)) else none

/-- The fields that come from the cart or control it. Pin counts are part of the
resources. -/
structure SameControl (s t : HostSession) : Prop where
  exited : s.cartExited = t.cartExited
  trapped : s.ecallTrapped = t.ecallTrapped
  aborted : s.ecallAborted = t.ecallAborted
  frameDone : s.frameDone = t.frameDone
  fnReturnDone : s.fnReturnDone = t.fnReturnDone
  drawn : s.cartHasDrawn = t.cartHasDrawn
  halt : s.halt = t.halt
  fault : s.devFault = t.devFault
  isDebug : s.cartIsDebug = t.cartIsDebug
  debug : s.debug = t.debug
  phase : s.phase = t.phase
  palette : s.palette = t.palette
  surfaces : s.surfaces.shape = t.surfaces.shape
  resources : s.resources.entries.map heldKey = t.resources.entries.map heldKey
  footprint : s.published = t.published
  state : s.state = t.state
  name : s.cartName = t.cartName
  version : s.saveVersion = t.saveVersion
  entries : s.entries = t.entries

/-- Whenever the swap succeeds, creation would have, and the fields agree. -/
def SwapLikeFresh [GuestRam] (env : CreateEnv) (s : HostSession) (cart : CartFile) (base : Nat) :
    Prop :=
  ∀ s', swapCart env.toSwapEnv s cart base = (true, s')
    → ∃ t, sessionCreateImpl env cart base = some t ∧ SameControl s' t

/-- The retained libraries serve the cart as those creation loads do, and the
guest has no footprint to read but 0. -/
structure LibsAlike (cart : CartFile) (base : Nat) (old new : List Lib) : Prop where
  entries : resolveCartEntryPoints (linkTable (cart.lib base) old)
    = resolveCartEntryPoints (linkTable (cart.lib base) new)
  block : HasFootprint (symtabAddr (linkTable (cart.lib base) old) "blyt_mem_acct")
    ↔ HasFootprint (symtabAddr (linkTable (cart.lib base) new) "blyt_mem_acct")
  footprint : HasFootprint (symtabAddr (linkTable (cart.lib base) old) "blyt_mem_acct") →
    resourceTableFootprint (resourceTableMarkPersistent ⟨cart.resources, 0⟩ cart.persistentIds) = 0

/-- The session is as a new one for the cart, where the swap does not look. -/
structure SessionClean (env : CreateEnv) (s : HostSession) (cart : CartFile) : Prop where
  exited : s.cartExited = false
  fault : s.devFault = false
  isDebug : s.cartIsDebug = cart.isDebug
  debug : s.debug = ⟨.running, false, false, false, false⟩
  phase : s.phase = .none
  palette : s.palette = (initialPalette env ⟨cart.resources, 0⟩ cart.defaultPalette).1
  surfaces : s.surfaces.shape = newSurfaces.shape

/-- The session is clean before the swap, and the cart is one that creation takes
and that reserves nothing. -/
structure SwapClean (env : CreateEnv) (s : HostSession) (cart : CartFile) (base : Nat) : Prop where
  session : SessionClean env s cart
  noConflict : cart.luaMask &&& cart.nativeMask = 0
  rvCreate : env.rvCreate = true
  preloads : (resourceTablePreloadPersistent env.res env.oom
    (resourceTableMarkPersistent ⟨cart.resources, 0⟩ cart.persistentIds)).isSome = true
  links : ∃ linked, (dynlink env.store cart.image).2 = some linked
    ∧ LibsAlike cart base s.libs linked.libs

/-! ## Resident resources

Creation has looked up the palette before it preloads, so an entry may be
resident that is not when the swap preloads. -/

section

variable {env : ResEnv} {oom : Bool} {e e' : ResEntry} {es es' : List ResEntry}

section

variable (env : ResEnv)

theorem resourceEntryData_cases (oom : Bool) (e : ResEntry) :
    resourceEntryData env oom e = (e.data, e)
      ∨ ∃ buf len, resourceEntryData env oom e
        = (some buf, { e with owned := true, data := some buf, len := len }) := by
  unfold resourceEntryData
  split
  · rename_i hd
    exact .inl (by rw [hd])
  · rename_i hd
    split
    · split
      · exact .inl (by rw [hd])
      · exact .inr ⟨_, _, rfl⟩
    · split
      · exact .inl (by rw [hd])
      · split
        · exact .inl (by rw [hd])
        · exact .inr ⟨_, _, rfl⟩

/-- Materialising twice is materialising once. -/
theorem resourceEntryData_idem (oom : Bool) (e : ResEntry) :
    resourceEntryData env oom (resourceEntryData env oom e).2 = resourceEntryData env oom e := by
  rcases resourceEntryData_cases env oom e with h | ⟨buf, len, h⟩
  · rw [h]
    exact h
  · rw [h]
    rfl

theorem resourceEntryData_id (oom : Bool) (e : ResEntry) :
    (resourceEntryData env oom e).2.id = e.id := by
  rcases resourceEntryData_cases env oom e with h | ⟨buf, len, h⟩ <;> rw [h]

theorem resourceEntryData_held (oom : Bool) (e : ResEntry) :
    (resourceEntryData env oom e).2.persistent = e.persistent := by
  rcases resourceEntryData_cases env oom e with h | ⟨buf, len, h⟩ <;> rw [h]

theorem resourceEntryData_mark (oom : Bool) (e : ResEntry) :
    (resourceEntryData env oom { e with persistent := true }).2
      = { (resourceEntryData env oom e).2 with persistent := true } := by
  obtain ⟨id, data, len, owned, algo, cdata, srcPath, pinCount, persistent, lastAccess⟩ := e
  unfold resourceEntryData
  cases data with
  | some => rfl
  | none =>
    cases srcPath with
    | some path =>
      dsimp only
      cases env.readWholeFile path <;> rfl
    | none =>
      dsimp only
      split
      · rfl
      · cases env.decode algo cdata len <;> rfl

end

/-- The same entry, perhaps materialised in the meantime. -/
def Warm (env : ResEnv) (oom : Bool) (e e' : ResEntry) : Prop :=
  e' = e ∨ e' = (resourceEntryData env oom e).2

section

variable (h : Warm env oom e e')
include h

theorem Warm.id : e'.id = e.id := by
  rcases h with rfl | rfl
  · rfl
  · exact resourceEntryData_id env oom e

theorem Warm.persistent : e'.persistent = e.persistent := by
  rcases h with rfl | rfl
  · rfl
  · exact resourceEntryData_held env oom e

theorem Warm.data : resourceEntryData env oom e' = resourceEntryData env oom e := by
  rcases h with rfl | rfl
  · rfl
  · exact resourceEntryData_idem env oom e

theorem Warm.refKey_eq (hlen : e.FileLen env) : refKey e' = refKey e := by
  rcases h with rfl | rfl
  · rfl
  · exact resourceEntryData_fileLen oom hlen

theorem Warm.mark : Warm env oom { e with persistent := true } { e' with persistent := true } := by
  rcases h with rfl | rfl
  · exact .inl rfl
  · exact .inr (resourceEntryData_mark env oom e).symm

end

theorem Warm.set {i : Nat} (hi : es[i]? = some e) (h : Warm env oom e e') :
    List.Forall₂ (Warm env oom) es (es.set i e') := by
  induction es generalizing i with
  | nil => cases hi
  | cons x es ih =>
    have hrefl : List.Forall₂ (Warm env oom) es es :=
      forall₂_same.mpr fun _ _ => .inl rfl
    cases i with
    | zero =>
      obtain rfl : x = e := by simpa using hi
      exact .cons h hrefl
    | succ => exact .cons (.inl rfl) (ih (by simpa using hi))

theorem Warm.markPersistentId (h : List.Forall₂ (Warm env oom) es es') (id : Nat) :
    List.Forall₂ (Warm env oom) (markPersistentId es id) (Blyt.markPersistentId es' id) := by
  induction h with
  | nil => exact .nil
  | @cons a b _ _ hd tl ih =>
    rw [markPersistentId_cons, markPersistentId_cons]
    split <;> rename_i hid
    · rw [if_pos (hd.id.trans hid)]
      exact .cons hd.mark tl
    · rw [if_neg fun h => hid (hd.id.symm.trans h)]
      exact .cons hd ih

theorem Warm.markPersistent (h : List.Forall₂ (Warm env oom) es es') (ids : List Nat) :
    List.Forall₂ (Warm env oom) (ids.foldl Blyt.markPersistentId es)
      (ids.foldl Blyt.markPersistentId es') := by
  induction ids generalizing es es' with
  | nil => exact h
  | cons id ids ih => exact ih (Warm.markPersistentId h id)

/-! ### Preloading -/

theorem preloadPrefix_eq (h : es.all (canPreload env oom) = true) :
    preloadPrefix env oom es = es.map (preloaded env oom) := by
  induction es with
  | nil => rfl
  | cons e es ih =>
    rw [all_cons, Bool.and_eq_true] at h
    have hone := h.1
    rw [preloadPrefix, map_cons, ih h.2, preloaded]
    rw [canPreload] at hone
    cases hp : e.persistent with
    | false => rfl
    | true =>
      rw [hp] at hone
      rcases hd : resourceEntryData env oom e with ⟨_ | b, e'⟩
      · rw [hd] at hone
        cases hone
      · rfl

theorem Warm.canPreload (h : Warm env oom e e') :
    canPreload env oom e' = Blyt.canPreload env oom e := by
  rw [Blyt.canPreload, Blyt.canPreload, h.persistent, h.data]

theorem Warm.all_canPreload (h : List.Forall₂ (Warm env oom) es es') :
    es'.all (Blyt.canPreload env oom) = es.all (Blyt.canPreload env oom) := by
  induction h with
  | nil => rfl
  | cons hd _ ih => rw [all_cons, all_cons, ih, hd.canPreload]

/-- After a preload the persistent entries are the same, materialised before or
not. -/
theorem Warm.heldKey_preloaded (h : Warm env oom e e') (hlen : e.FileLen env) :
    heldKey (preloaded env oom e') = heldKey (preloaded env oom e) := by
  rw [preloaded, preloaded, h.persistent]
  split
  · rw [h.data]
  · rename_i hp
    rw [heldKey, heldKey, h.persistent, if_neg hp, if_neg hp, h.refKey_eq hlen]

theorem Warm.map_heldKey (h : List.Forall₂ (Warm env oom) es es') (hlen : ∀ e ∈ es, e.FileLen env) :
    (es'.map (preloaded env oom)).map heldKey = (es.map (preloaded env oom)).map heldKey := by
  induction h with
  | nil => rfl
  | cons hd _ ih =>
    rw [forall_mem_cons] at hlen
    simp only [map_cons] at ih ⊢
    rw [hd.heldKey_preloaded hlen.1, ih hlen.2]

theorem Warm.map_refKey (h : List.Forall₂ (Warm env oom) es es')
    (hlen : ∀ e ∈ es, e.FileLen env) : es'.map refKey = es.map refKey := by
  induction h with
  | nil => rfl
  | cons hd _ ih =>
    rw [forall_mem_cons] at hlen
    rw [map_cons, map_cons, hd.refKey_eq hlen.1, ih hlen.2]

theorem preloaded_warm (env : ResEnv) (oom : Bool) (es : List ResEntry) :
    List.Forall₂ (Warm env oom) es (es.map (preloaded env oom)) := by
  rw [forall₂_map_right_iff, forall₂_same]
  intro e _
  rw [preloaded]
  split
  · exact .inr rfl
  · exact .inl rfl

/-- What is reserved does not depend on what is resident. -/
theorem footprint_congr {c c' : Nat} (h : es'.map refKey = es.map refKey) :
    resourceTableFootprint ⟨es', c'⟩ = resourceTableFootprint ⟨es, c⟩ := by
  have hkey : ∀ (l : List ResEntry) (p : ResEntry → Bool), (∀ e, p (refKey e) = p e) →
      sumLens p l = sumLens p (l.map refKey) := by
    intro l p hp
    rw [sumLens, sumLens, foldl_map]
    simp only [hp]
    rfl
  rw [resourceTableFootprint, resourceTableFootprint, hkey es', hkey es, h] <;> exact fun _ => rfl

end

/-! ## The two sessions -/

theorem resolvePalette_warm (env : CreateEnv) (es : List ResEntry) (c handle : Nat) :
    List.Forall₂ (Warm env.res env.oom) es (resolvePalette env ⟨es, c⟩ handle).2.entries := by
  have hrefl : List.Forall₂ (Warm env.res env.oom) es es :=
    forall₂_same.mpr fun _ _ => .inl rfl
  rw [resolvePalette]
  split
  · exact hrefl
  split
  · exact hrefl
  split
  · exact hrefl
  rename_i hi
  split
  · exact hrefl
  · exact Warm.set hi (.inr rfl)

theorem preloadPersistent_eq (env : ResEnv) (oom : Bool) (t : ResTable) :
    resourceTablePreloadPersistent env oom t
      = if resourceTableFootprint t ≤ memBudgetBytes
        ∧ t.entries.all (canPreload env oom) = true then
          some { t with entries := t.entries.map (preloaded env oom) }
        else none := by
  rw [resourceTablePreloadPersistent, preloadEntries_eq]
  by_cases hfit : resourceTableFootprint t ≤ memBudgetBytes
  · rw [if_neg (by omega)]
    split <;> rename_i hall
    · rw [if_pos ⟨hfit, hall⟩, map_some]
    · rw [if_neg fun h => hall h.2, map_none]
  · rw [if_pos (by omega), if_neg fun h => hfit h.1]

theorem preloadedTable_eq {env : ResEnv} {oom : Bool} {t : ResTable}
    (hfit : resourceTableFootprint t ≤ memBudgetBytes)
    (hall : t.entries.all (canPreload env oom) = true) :
    preloadedTable env oom t = { t with entries := t.entries.map (preloaded env oom) } := by
  rw [preloadedTable, if_neg (by omega), preloadPrefix_eq hall]

/-- The persistent set as it is marked on a table that was just loaded. -/
def CartFile.marked (cart : CartFile) : List ResEntry :=
  cart.persistentIds.foldl markPersistentId cart.resources

section

variable {env : CreateEnv} {store : LibStore} {s s' : HostSession} {cart : CartFile} {base : Nat}
  {linked : Linked}

theorem marked_fileLen (hfiles : ∀ e ∈ cart.resources, e.FileLen env.res) :
    ∀ e ∈ cart.marked, e.FileLen env.res :=
  markPersistent_forall (t := ⟨_, 0⟩) (fun _ he => he) hfiles cart.persistentIds

/-- The persistent set fits the budget and can be materialised. -/
def PreloadOK (env : CreateEnv) (cart : CartFile) : Prop :=
  resourceTableFootprint ⟨cart.marked, 0⟩ ≤ memBudgetBytes
    ∧ cart.marked.all (canPreload env.res env.oom) = true

instance (env : CreateEnv) (cart : CartFile) : Decidable (PreloadOK env cart) :=
  inferInstanceAs (Decidable (_ ∧ _))

theorem preloads_iff :
    (resourceTablePreloadPersistent env.res env.oom
      (resourceTableMarkPersistent ⟨cart.resources, 0⟩ cart.persistentIds)).isSome = true
      ↔ PreloadOK env cart := by
  rw [preloadPersistent_eq]
  show (if PreloadOK env cart then _ else _ : Option ResTable).isSome = true ↔ _
  split <;> rename_i h
  · exact ⟨fun _ => h, fun _ => rfl⟩
  · exact ⟨nofun, fun hok => absurd hok h⟩

theorem refKey_heldKey (e : ResEntry) : refKey (heldKey e) = refKey e := by
  rw [heldKey]
  split <;> rfl

/-- Eviction does not touch what is persistent. -/
theorem resourceEntryEvict_heldKey (e : ResEntry) :
    heldKey (resourceEntryEvict e).2 = heldKey e := by
  obtain ⟨id, data, len, owned, algo, cdata, srcPath, pinCount, persistent, lastAccess⟩ := e
  rw [resourceEntryEvict]
  cases persistent with
  | true => rfl
  | false =>
    split
    · rfl
    · split <;> rfl

variable [GuestRam]

/-- The entries creation marks are those the swap marks, up to what the palette
lookup has made resident. -/
theorem marked_warm (env : CreateEnv) (cart : CartFile) (base : Nat) (linked : Linked) :
    List.Forall₂ (Warm env.res env.oom) cart.marked
      (cart.persistentIds.foldl markPersistentId
        (linkedSession env cart base linked).resources.entries) :=
  Warm.markPersistent (resolvePalette_warm env cart.resources 0 _) cart.persistentIds

/-- The table of a new session, before its first publication. -/
def createdTable (env : CreateEnv) (cart : CartFile) (base : Nat) (linked : Linked) : ResTable :=
  let t := resourceTableMarkPersistent (linkedSession env cart base linked).resources
    cart.persistentIds
  { t with entries := t.entries.map (preloaded env.res env.oom) }

theorem createdTable_heldKey (hfiles : ∀ e ∈ cart.resources, e.FileLen env.res) :
    (createdTable env cart base linked).entries.map heldKey
      = (cart.marked.map (preloaded env.res env.oom)).map heldKey :=
  Warm.map_heldKey (marked_warm env cart base linked) (marked_fileLen hfiles)

section

variable (hfiles : ∀ e ∈ cart.resources, e.FileLen env.res)
include hfiles

theorem createdTable_footprint : resourceTableFootprint (createdTable env cart base linked)
      = resourceTableFootprint ⟨cart.marked, 0⟩ := by
  have hheld : ((createdTable env cart base linked).entries.map heldKey).map refKey = _ :=
    congrArg (List.map refKey) (createdTable_heldKey hfiles)
  rw [List.map_map, List.map_map, show refKey ∘ heldKey = refKey from funext refKey_heldKey]
    at hheld
  exact footprint_congr (hheld.trans
    (Warm.map_refKey (preloaded_warm env.res env.oom cart.marked) (marked_fileLen hfiles)))

def createdSession (env : CreateEnv) (cart : CartFile) (base : Nat) (linked : Linked) :
    HostSession :=
  publishFootprint { linkedSession env cart base linked with
    resources := createdTable env cart base linked }

/-- Creation, with its conditions in one place. -/
theorem sessionCreateImpl_eq (hlink : (dynlink env.store cart.image).2 = some linked) :
    sessionCreateImpl env cart base
      = if cart.luaMask &&& cart.nativeMask = 0 ∧ env.rvCreate = true ∧ PreloadOK env cart then
          some (createdSession env cart base linked)
        else none := by
  have hwarm := marked_warm env cart base linked
  have hpre : resourceTablePreloadPersistent env.res env.oom
      (resourceTableMarkPersistent (linkedSession env cart base linked).resources
        cart.persistentIds)
      = if PreloadOK env cart then some (createdTable env cart base linked) else none := by
    have hfp : resourceTableFootprint (resourceTableMarkPersistent
        (linkedSession env cart base linked).resources cart.persistentIds)
        = resourceTableFootprint ⟨cart.marked, 0⟩ :=
      footprint_congr (Warm.map_refKey hwarm (marked_fileLen hfiles))
    rw [preloadPersistent_eq]
    refine if_congr (and_congr ?_ ?_) rfl rfl
    · rw [hfp]
    · rw [← Warm.all_canPreload hwarm]
      rfl
  rw [sessionCreateImpl, hlink]
  simp only [hpre]
  by_cases hconf : cart.luaMask &&& cart.nativeMask = 0
  · rw [if_neg (not_not.mpr hconf)]
    cases hrv : env.rvCreate with
    | false => exact (if_neg fun h => nomatch h.2.1).symm
    | true =>
      rw [Bool.not_true, if_neg Bool.false_ne_true]
      split <;> rename_i hok
      · rw [if_pos ⟨hconf, rfl, hok⟩]
        rfl
      · rw [if_neg fun h => hok h.2.2]
        rfl
  · rw [if_pos hconf, if_neg fun h => hconf h.1]

end

theorem publishFootprint_spec (t : HostSession) :
    ∃ r mem, publishFootprint t = { t with resources := r, mem := mem }
      ∧ r.entries.map heldKey = t.resources.entries.map heldKey
      ∧ (HasFootprint t.memAcctVaddr → read32 mem (t.memAcctVaddr + 4)
        = u32 (resourceTableFootprint t.resources + t.surfaces.surfaceBytes + t.peerHeap)) := by
  rw [publishFootprint]
  split
  · rename_i h0
    exact ⟨t.resources, t.mem, rfl, rfl, fun h => absurd h0 h.1⟩
  · refine ⟨_, _, rfl, evictLoop_map heldKey resourceEntryEvict_heldKey _ _ _, fun hin => ?_⟩
    have hmem : emuMemSize + 8 < 2 ^ 32 := by decide
    have hin := hin.2
    rw [u32_of_lt (by omega),
      u32_of_lt (show t.memAcctVaddr + 8 < 2 ^ 32 by omega), read32_patchAll_apart]
    · rw [read32_patchAll (v := u32 (resourceTableFootprint t.resources
        + t.surfaces.surfaceBytes + t.peerHeap))]
      · exact u32_of_lt (u32_lt _)
      · rw [storeAt_eq four_pos (show t.memAcctVaddr + 4 + 4 ≤ emuMemSize by omega)]
        exact mem_singleton_self _
      · intro p hp x _ _ _
        exact (mem_storeAt hp).1
    · intro p hp x h1 h2 hx
      obtain ⟨rfl, -⟩ := mem_storeAt hp
      obtain ⟨h3, -⟩ := hx
      simp only [Patch.word] at h3
      omega

/-- The accounting block reads 0 after a swap. -/
theorem swapCart_published (hswap : swapCart env.toSwapEnv s cart base = (true, s'))
    (hs : s.libSyms = s.libs.foldl (fun syms lib => buildSymtab lib.image lib.bias syms) [])
    (hblock : HasFootprint (symtabAddr (linkTable (cart.lib base) s.libs) "blyt_mem_acct")) :
    read32 s'.mem (symtabAddr (linkTable (cart.lib base) s.libs) "blyt_mem_acct" + 4) = 0 := by
  have hsyms : appendSymtab (buildSymtab cart.image base []) s.libSyms
      = linkTable (cart.lib base) s.libs := by
    rw [hs]
    rfl
  obtain ⟨-, -, hmem⟩ := swapCart_mem hswap hsyms rfl
  obtain ⟨hne, hin⟩ := hblock
  have hzero : ∀ p ∈ oldPatches s.layout (recordCartImageLayout cart.image base), ∀ k,
      p.byte k = 0 := by
    intro p hp k
    rw [oldPatches] at hp
    split at hp
    · cases hp
    split at hp
    · split at hp
      · rw [(mem_storeAt hp).1]
        rfl
      · cases hp
    · rw [(mem_storeAt hp).1]
      rfl
  -- the last stores: the block is cleared, and what follows clears, too
  have hbyte : ∀ x, symtabAddr (linkTable (cart.lib base) s.libs) "blyt_mem_acct" ≤ x →
      x < symtabAddr (linkTable (cart.lib base) s.libs) "blyt_mem_acct" + 8 → s'.mem x = 0 := by
    intro x h1 h2
    rw [hmem, relinkRest, if_pos hne,
      storeAt_eq (p := .zeros (symtabAddr (linkTable (cart.lib base) s.libs) "blyt_mem_acct") 8)
        (Nat.succ_pos 7) (show symtabAddr _ _ + 8 ≤ emuMemSize by omega),
      append_assoc (_ ++ _), ← append_assoc, ← append_assoc, patchAll_append]
    refine patchAll_agree ⟨_, mem_append.mpr (.inl (mem_singleton_self _)), h1, h2⟩ ?_
    exact forall_mem_append.mpr ⟨forall_mem_singleton.mpr fun _ => rfl, fun p hp _ => hzero p hp _⟩
  rw [read32, hbyte _ (by omega) (by omega), hbyte _ (by omega) (by omega),
    hbyte _ (by omega) (by omega), hbyte _ (by omega) (by omega)]
  rfl

theorem publishFootprint_libs (t : HostSession) :
    (publishFootprint t).libs = t.libs ∧ (publishFootprint t).libSyms = t.libSyms := by
  obtain ⟨r, mem, h, -⟩ := publishFootprint_spec t
  rw [h]
  exact ⟨rfl, rfl⟩

theorem sessionCreateImpl_linked (h : sessionCreateImpl env cart base = some s) :
    ∃ linked, (dynlink env.store cart.image).2 = some linked ∧ s.libs = linked.libs
      ∧ s.libSyms = linked.libSyms := by
  rw [sessionCreateImpl] at h
  split at h
  · cases h
  split at h
  · cases h
  split at h
  · cases h
  rename_i linked hlink
  obtain ⟨t, -, rfl⟩ := map_eq_some_iff.mp h
  obtain ⟨hlibs, hsyms⟩ := publishFootprint_libs
    { linkedSession env cart base linked with resources := t }
  exact ⟨linked, hlink, hlibs, hsyms⟩

theorem swapCart_published_eq (hs : LinkedSession store s)
    (hswap : swapCart env.toSwapEnv s cart base = (true, s')) :
    s'.published = if HasFootprint (symtabAddr (linkTable (cart.lib base) s.libs) "blyt_mem_acct")
      then some 0 else none := by
  have hvaddr : s'.memAcctVaddr
      = symtabAddr (linkTable (cart.lib base) s.libs) "blyt_mem_acct" := by
    obtain ⟨-, -, -, rfl⟩ := swapCart_succeeded hswap
    rw [hs.libSyms_eq]
    rfl
  rw [HostSession.published, hvaddr]
  split
  · rename_i hblock
    rw [swapCart_published hswap hs.libSyms_eq hblock]
  · rfl

section

variable (hfiles : ∀ e ∈ cart.resources, e.FileLen env.res)
include hfiles

theorem createdSession_published (hok : PreloadOK env cart) :
    (createdSession env cart base linked).published
      = if HasFootprint (symtabAddr (linkTable (cart.lib base) linked.libs) "blyt_mem_acct")
        then some (resourceTableFootprint ⟨cart.marked, 0⟩) else none := by
  obtain ⟨r, mem, heq, -, hread⟩ := publishFootprint_spec
    { linkedSession env cart base linked with resources := createdTable env cart base linked }
  have hvalue : u32 (resourceTableFootprint (createdTable env cart base linked) + 0 + 0)
      = resourceTableFootprint ⟨cart.marked, 0⟩ := by
    have hbudget : memBudgetBytes < 2 ^ 32 := by decide
    rw [createdTable_footprint hfiles, u32_of_lt]
    · rfl
    · exact Nat.lt_of_le_of_lt hok.1 hbudget
  rw [createdSession, heq, ← hvalue]
  split <;> rename_i hblock
  · exact (if_pos hblock).trans (congrArg some (hread hblock))
  · exact if_neg hblock

theorem createdSession_heldKey : (createdSession env cart base linked).resources.entries.map heldKey
      = (cart.marked.map (preloaded env.res env.oom)).map heldKey := by
  obtain ⟨r, mem, heq, hheld, -⟩ := publishFootprint_spec
    { linkedSession env cart base linked with resources := createdTable env cart base linked }
  rw [createdSession, heq]
  exact hheld.trans (createdTable_heldKey hfiles)

end

theorem swapCart_heldKey (hswap : swapCart env.toSwapEnv s cart base = (true, s'))
    (hok : PreloadOK env cart) :
    s'.resources.entries.map heldKey
      = (cart.marked.map (preloaded env.res env.oom)).map heldKey := by
  obtain ⟨-, -, -, rfl⟩ := swapCart_succeeded hswap
  show (preloadedTable env.res env.oom ⟨cart.marked, _⟩).entries.map heldKey = _
  rw [preloadedTable_eq _ hok.2]
  exact hok.1

/-- A swap publishes 0, creation what the persistent set reserves. -/
theorem published_eq_iff (hs : LinkedSession store s)
    (hfiles : ∀ e ∈ cart.resources, e.FileLen env.res)
    (hswap : swapCart env.toSwapEnv s cart base = (true, s')) (hok : PreloadOK env cart) :
    s'.published = (createdSession env cart base linked).published
      ↔ (HasFootprint (symtabAddr (linkTable (cart.lib base) s.libs) "blyt_mem_acct")
          ↔ HasFootprint (symtabAddr (linkTable (cart.lib base) linked.libs) "blyt_mem_acct"))
        ∧ (HasFootprint (symtabAddr (linkTable (cart.lib base) s.libs) "blyt_mem_acct") →
          resourceTableFootprint ⟨cart.marked, 0⟩ = 0) := by
  rw [swapCart_published_eq hs hswap, createdSession_published hfiles hok]
  split <;> split <;> simp [*, eq_comm]

section

variable (hswap : swapCart env.toSwapEnv s cart base = (true, s'))
include hswap

theorem swapCart_kept :
    s'.cartExited = s.cartExited ∧ s'.devFault = s.devFault ∧ s'.cartIsDebug = s.cartIsDebug
      ∧ s'.debug = s.debug ∧ s'.phase = s.phase ∧ s'.palette = s.palette
      ∧ s'.surfaces = s.surfaces := by
  obtain ⟨-, -, -, rfl⟩ := swapCart_succeeded hswap
  simp [reinit, relink]

/-- What the swap sets and creation sets, too. -/
theorem swapCart_set : s'.ecallTrapped = false ∧ s'.ecallAborted = false ∧ s'.frameDone = false
      ∧ s'.fnReturnDone = false ∧ s'.cartHasDrawn = false ∧ s'.halt = false
      ∧ s'.state = stateCtxInit cart.layouts ∧ s'.cartName = cart.id
      ∧ s'.saveVersion = cart.saveVersion := by
  obtain ⟨-, -, -, rfl⟩ := swapCart_succeeded hswap
  simp [reinit]

end

/-- The swapped session and a created one, field by field. -/
theorem sameControl_iff (hs : LinkedSession store s)
    (hfiles : ∀ e ∈ cart.resources, e.FileLen env.res)
    (hswap : swapCart env.toSwapEnv s cart base = (true, s')) (hok : PreloadOK env cart) :
    SameControl s' (createdSession env cart base linked)
      ↔ SessionClean env s cart ∧ LibsAlike cart base s.libs linked.libs := by
  have hpub : s'.published = (createdSession env cart base linked).published ↔ _ :=
    published_eq_iff hs hfiles hswap hok
  have hheld : _ = (createdSession env cart base linked).resources.entries.map heldKey :=
    (swapCart_heldKey hswap hok).trans (createdSession_heldKey hfiles).symm
  have hentries : s'.entries = resolveCartEntryPoints (linkTable (cart.lib base) s.libs) := by
    refine (swapCart_mem hswap ?_ rfl).2.1
    rw [hs.libSyms_eq]
    rfl
  obtain ⟨hexit, hfault, hdev, hdebug, hphase, hpal, hsurf⟩ := swapCart_kept hswap
  obtain ⟨htrap, habort, hframe, hfn, hdrawn, hhalt, hstate, hname, hversion⟩ :=
    swapCart_set hswap
  obtain ⟨r, mem, heq, -⟩ := publishFootprint_spec
    { linkedSession env cart base linked with resources := createdTable env cart base linked }
  rw [createdSession, heq] at hpub hheld ⊢
  constructor
  · intro h
    obtain ⟨hblock, hzero⟩ := hpub.mp h.footprint
    exact ⟨⟨hexit.symm.trans h.exited, hfault.symm.trans h.fault, hdev.symm.trans h.isDebug,
      hdebug.symm.trans h.debug, hphase.symm.trans h.phase, hpal.symm.trans h.palette,
      (congrArg _ hsurf).symm.trans h.surfaces⟩, hentries.symm.trans h.entries, hblock, hzero⟩
  · rintro ⟨hclean, halike⟩
    exact ⟨hexit.trans hclean.exited, htrap, habort, hframe, hfn, hdrawn, hhalt,
      hfault.trans hclean.fault, hdev.trans hclean.isDebug, hdebug.trans hclean.debug,
      hphase.trans hclean.phase, hpal.trans hclean.palette,
      (congrArg _ hsurf).trans hclean.surfaces, hheld,
      hpub.mpr ⟨halike.block, halike.footprint⟩, hstate, hname, hversion,
      hentries.trans halike.entries⟩

end

/-! ## Any session -/

/-- **Swapping and creating.** However a session has got where it is, a swap that
succeeds leaves it as creation with the new cart would exactly if the session was
clean where the swap does not look, the cart is one that creation takes, and no
footprint is there to be published. -/
theorem swap_like_fresh_iff [GuestRam] {env₀ env : CreateEnv} {cart₀ cart : CartFile}
    {base₀ base : Nat} {s₀ s : HostSession} (hnew : sessionCreateImpl env₀ cart₀ base₀ = some s₀)
    (hrun : Relation.ReflTransGen HostStep s₀ s)
    (hfiles : ∀ e ∈ cart.resources, e.FileLen env.res) :
    SwapLikeFresh env s cart base
      ↔ (env.args = true → (∀ i < cart.image.ehdr.phnum, SegmentFits cart.image base i)
        → env.calloc = true → SwapClean env s cart base) := by
  have hs0 : LinkedSession env₀.store s₀ := ⟨cart₀.image, sessionCreateImpl_linked hnew⟩
  have hs := hs0.run hrun
  rw [← mapImage_ok_iff]
  constructor
  · intro h hargs hmap hcalloc
    have hswap := swapCart_ok (s := s) hargs hmap hcalloc
    obtain ⟨t, ht, hsame⟩ := h _ hswap
    obtain ⟨linked, hlink, -⟩ := sessionCreateImpl_linked ht
    rw [sessionCreateImpl_eq hfiles hlink] at ht
    split at ht
    · rename_i hcreate
      cases ht
      obtain ⟨hclean, halike⟩ := (sameControl_iff hs hfiles hswap hcreate.2.2).mp hsame
      exact ⟨hclean, hcreate.1, hcreate.2.1, preloads_iff.mpr hcreate.2.2, linked, hlink, halike⟩
    · cases ht
  · intro h s' hswap
    obtain ⟨hargs, hmap, hcalloc, -⟩ := swapCart_succeeded hswap
    obtain ⟨hclean, hconf, hrv, hpre, linked, hlink, halike⟩ := h hargs hmap hcalloc
    have hok := preloads_iff.mp hpre
    refine ⟨createdSession env cart base linked, ?_,
      (sameControl_iff hs hfiles hswap hok).mpr ⟨hclean, halike⟩⟩
    rw [sessionCreateImpl_eq hfiles hlink, if_pos ⟨hconf, hrv, hok⟩]

/-- A world in which creation succeeds. -/
def demoCreateEnv : CreateEnv :=
  { demoSwapEnv with rvCreate := true, store := relayStore, builtinPalette := fun _ => some [] }

/-- A cart with an update function and nothing else. -/
def updateCart : CartFile := wordCart "blyt_cart_update"

theorem updateCart_files (env : ResEnv) : ∀ e ∈ updateCart.resources, e.FileLen env :=
  forall_mem_nil _

theorem create_updateCart : ∃ linked, (dynlink demoCreateEnv.store updateCart.image).2 = some linked
    ∧ sessionCreateImpl demoCreateEnv updateCart 0
      = some (createdSession demoCreateEnv updateCart 0 linked) := by
  have hseed : seedNames updateCart.image = [] := by decide +kernel
  obtain ⟨linked, hlink⟩ : ∃ linked, (dynlink demoCreateEnv.store updateCart.image).2
      = some linked := by
    rw [dynlink, hseed]
    exact ⟨_, rfl⟩
  refine ⟨linked, hlink, ?_⟩
  rw [sessionCreateImpl_eq (updateCart_files _) hlink, if_pos (by decide)]

theorem swap_like_fresh_iff_updateCart :
    ∃ s, sessionCreateImpl demoCreateEnv updateCart 0 = some s
      ∧ SwapLikeFresh demoCreateEnv s updateCart 0 := by
  obtain ⟨linked, hlink, hnew⟩ := create_updateCart
  refine ⟨_, hnew, (swap_like_fresh_iff hnew .refl (updateCart_files _)).mpr fun _ _ _ => ?_⟩
  obtain ⟨r, mem, heq, -⟩ := publishFootprint_spec { linkedSession demoCreateEnv updateCart 0 linked
    with resources := createdTable demoCreateEnv updateCart 0 linked }
  rw [createdSession, heq]
  exact ⟨⟨rfl, rfl, rfl, rfl, rfl, rfl, rfl⟩, rfl, rfl, rfl, linked, hlink, rfl, Iff.rfl,
    fun _ => rfl⟩

/-- `BLYT_ECALL_EXIT`. -/
def exitCart (s : HostSession) (code : Nat) : HostSession :=
  { s with halt := true, cartExited := true, ecallAborted := s.ecallAborted || code != 0 }

/-- The cart has exited; after the swap the session still says so, and a new one
does not. -/
theorem exited_survives_swap :
    ∃ s, sessionCreateImpl demoCreateEnv updateCart 0 = some s
      ∧ Relation.ReflTransGen HostStep s (exitCart s 0)
      ∧ ¬SwapLikeFresh demoCreateEnv (exitCart s 0) updateCart 0 := by
  obtain ⟨linked, hlink, hnew⟩ := create_updateCart
  have hrun : HostStep (createdSession demoCreateEnv updateCart 0 linked) (exitCart _ 0) :=
    .run rfl rfl rfl
  refine ⟨_, hnew, .single hrun, fun h => ?_⟩
  have hswap : swapCart demoCreateEnv.toSwapEnv
      (exitCart (createdSession demoCreateEnv updateCart 0 linked) 0) updateCart 0 = _ :=
    swapCart_ok rfl (by decide +kernel) rfl
  obtain ⟨t, ht, hsame⟩ := h _ hswap
  obtain rfl : _ = t := some.inj (hnew.symm.trans ht)
  have hs : LinkedSession demoCreateEnv.store _ := ⟨_, sessionCreateImpl_linked hnew⟩
  have hclean := ((sameControl_iff (hs.step hrun) (updateCart_files _) hswap
    (by decide)).mp hsame).1
  exact Bool.noConfusion hclean.exited

end Blyt
