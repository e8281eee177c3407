import Blyt.Arena

/-!
# The resource table

`runtime/host/src/libblyt/resource.c` with the pin counts of
`blyt_resource_lifecycle.h`: the entries a cart's resources are served from,
which of them are held (pinned or persistent), and the eviction of the cached
bytes of the others. Eviction and rehydration move bytes in and out of the
cache but never change what is held - `refs` is what they all keep, and
the budget is a sum over it.

Decoding a compressed body and reading a staging file are outside this
repository (a codec library, the file system): they are parameters.
-/

namespace Blyt

open List Option

/-- `BLYT_RES_ALGO_ZSTD`. -/
def resAlgoZstd : Nat := 1

/-- `blyt_resource_entry_t`; `data = none` is a `NULL` pointer, `owned` says
that the bytes are in a heap buffer of their own. -/
structure ResEntry where
  id : Nat
  data : Option (List UInt8)
  len : Nat
  owned : Bool
  algo : Nat
  cdata : List UInt8
  srcPath : Option String
  pinCount : Nat
  persistent : Bool
  lastAccess : Nat
  deriving DecidableEq, Repr

structure ResTable where
  entries : List ResEntry
  lruClock : Nat
  deriving DecidableEq, Repr

/-- What the table needs from outside. -/
structure ResEnv where
  decode : Nat → List UInt8 → Nat → Option (List UInt8)
  readWholeFile : String → Option (List UInt8)

/-! ## Pin counts -/

def rlIsEvictable (e : ResEntry) : Bool := e.pinCount == 0

def rlPin (e : ResEntry) : ResEntry := { e with pinCount := u32 (e.pinCount + 1) }

def rlUnpin (e : ResEntry) : Option ResEntry :=
  if e.pinCount = 0 then none else some { e with pinCount := e.pinCount - 1 }

def rlForceReleasePins (e : ResEntry) : ResEntry := { e with pinCount := 0 }

/-! ## The table -/

/-- The index of the first entry with this id (`blyt_resource_table_find_mut`). -/
def resourceTableFind (t : ResTable) (id : Nat) : Option Nat :=
  t.entries.findIdx? fun e => e.id == id

def setEntry (t : ResTable) (i : Nat) (e : ResEntry) : ResTable :=
  { t with entries := t.entries.set i e }

def resourceTableForceReleasePins (t : ResTable) : ResTable :=
  { t with entries := t.entries.map rlForceReleasePins }

/-- The entry's bytes, rehydrated if they are not resident; `oom` says that
the host's `malloc` fails in this call. -/
def resourceEntryData (env : ResEnv) (oom : Bool) (e : ResEntry) : Option (List UInt8) × ResEntry :=
  match e.data with
  | some bytes => (some bytes, e)
  | none =>
    match e.srcPath with
    | some path =>
      match env.readWholeFile path with
      | none => (none, e)
      | some buf => (some buf, { e with owned := true, data := some buf, len := buf.length })
    | none =>
      if e.algo ≠ resAlgoZstd ∨ oom then (none, e)
      else
        match env.decode e.algo e.cdata e.len with
        | none => (none, e)
        | some buf => (some buf, { e with owned := true, data := some buf })

/-- Bytes reclaimed, and the entry without them. -/
def resourceEntryEvict (e : ResEntry) : Nat × ResEntry :=
  if e.persistent || !rlIsEvictable e then (0, e)
  else if !e.owned then (0, e)
  else (e.len, { e with owned := false, data := none })

def resourceTableEvictAllEvictable (t : ResTable) : Nat × ResTable :=
  ((t.entries.map fun e => (resourceEntryEvict e).1).sum,
    { t with entries := t.entries.map fun e => (resourceEntryEvict e).2 })

/-- The loop all three 32-bit totals are computed by. -/
def sumLens (p : ResEntry → Bool) (es : List ResEntry) : Nat :=
  es.foldl (fun total e => if p e then u32 (total + u32 e.len) else total) 0

def resourceTableFootprint (t : ResTable) : Nat :=
  sumLens (fun e => e.persistent || !rlIsEvictable e) t.entries

def resourceTableResidentEvictable (t : ResTable) : Nat :=
  sumLens (fun e => e.owned && !e.persistent && rlIsEvictable e) t.entries

def resourceTableResidentDecompressed (t : ResTable) : Nat :=
  sumLens (fun e => e.owned) t.entries

def resourceTableTouch (t : ResTable) (i : Nat) : ResTable :=
  match t.entries[i]? with
  | none => t
  | some e =>
    let clock := u32 (t.lruClock + 1)
    { setEntry t i { e with lastAccess := clock } with lruClock := clock }

/-- The least recently used entry that can be evicted, the first among equals. -/
def lruVictim (es : List ResEntry) : Option Nat :=
  es.zipIdx.foldl (fun victim (e, i) =>
    if !e.owned || e.persistent || !rlIsEvictable e then victim
    else match victim with
      | none => some i
      | some j => if e.lastAccess < (es[j]?.elim 0 ResEntry.lastAccess) then some i else victim)
    none

def evictLoop : Nat → ResTable → Nat → ResTable
  | 0, t, _ => t
  | fuel + 1, t, bound =>
    if resourceTableResidentEvictable t ≤ bound then t
    else
      match lruVictim t.entries with
      | none => t
      | some i =>
        match t.entries[i]? with
        | none => t
        | some e => evictLoop fuel (setEntry t i (resourceEntryEvict e).2) bound

/-- Each round evicts one entry, so the loop ends within one round per entry. -/
def resourceTableEvictToFit (t : ResTable) (maxResidentEvictable : Nat) : ResTable :=
  evictLoop (t.entries.length + 1) t maxResidentEvictable

/-! ## Persistent resources -/

def markPersistentId (es : List ResEntry) (id : Nat) : List ResEntry :=
  match es.findIdx? fun e => e.id == id with
  | none => es
  | some i => es.modify i fun e => { e with persistent := true }

/-- `ids` are the little-endian words of the cart's `.cart.persistent`. -/
def resourceTableMarkPersistent (t : ResTable) (ids : List Nat) : ResTable :=
  { t with entries := ids.foldl markPersistentId t.entries }

/-- The entries after the materialising loop, or `none` if one of them cannot
be materialised. -/
def preloadEntries (env : ResEnv) (oom : Bool) : List ResEntry → Option (List ResEntry)
  | [] => some []
  | e :: es =>
    if !e.persistent then (preloadEntries env oom es).map (e :: ·)
    else
      match resourceEntryData env oom e with
      | (none, _) => none
      | (some _, e') => (preloadEntries env oom es).map (e' :: ·)

def resourceTablePreloadPersistent (env : ResEnv) (oom : Bool) (t : ResTable) :
    Option ResTable :=
  if memBudgetBytes < resourceTableFootprint t then none
  else (preloadEntries env oom t.entries).map fun es => { t with entries := es }

/-! ## What is held -/

/-- An entry without the fields that only say where its bytes are cached. -/
def refKey (e : ResEntry) : ResEntry := { e with data := none, owned := false, lastAccess := 0 }

def ResTable.refs (t : ResTable) : List ResEntry := t.entries.map refKey

/-- The bytes an entry reserves: its length while it is pinned or persistent. -/
def heldLen (e : ResEntry) : Nat := if e.persistent || e.pinCount != 0 then e.len else 0

/-- The lengths of all pinned or persistent resources. -/
def heldBytes (t : ResTable) : Nat := (t.entries.map heldLen).sum

/-- A packed cart's table: no staging files, and lengths that add up in 32 bits. -/
structure ResTable.Packed (t : ResTable) : Prop where
  noFile : ∀ e ∈ t.entries, e.srcPath = none
  lens : (t.entries.map ResEntry.len).sum < 2 ^ 32

variable {t : ResTable} {e : ResEntry} {es : List ResEntry} {t' : ResTable} {env : ResEnv}
  {β : Type} {i : Nat} {e' : ResEntry} {oom : Bool} {e₁ : ResEntry}

theorem ResTable.Packed.len_lt (h : t.Packed) (he : e ∈ t.entries) : e.len < 2 ^ 32 :=
  (le_sum_of_mem (List.mem_map_of_mem he)).trans_lt h.lens

theorem sumLens_mod (p : ResEntry → Bool) (es : List ResEntry) :
    sumLens p es = (es.map fun e => if p e then e.len else 0).sum % 2 ^ 32 := by
  have key : ∀ acc, es.foldl (fun total e => if p e then u32 (total + u32 e.len) else total)
      (u32 acc) = (acc + (es.map fun e => if p e then e.len else 0).sum) % 2 ^ 32 := by
    induction es with
    | nil => intro acc; simp [u32]
    | cons e es ih =>
      intro acc
      rw [foldl_cons, map_cons, sum_cons]
      cases p e with
      | true =>
        rw [if_pos rfl, if_pos rfl, show u32 (u32 acc + u32 e.len) = u32 (acc + e.len) from
          (Nat.add_mod _ _ _).symm, ih, Nat.add_assoc]
      | false =>
        rw [if_neg Bool.false_ne_true, if_neg Bool.false_ne_true, ih, Nat.zero_add]
  simpa [sumLens, u32] using key 0

theorem sumLens_eq (p : ResEntry → Bool) (h : (es.map ResEntry.len).sum < 2 ^ 32) :
    sumLens p es = (es.map fun e => if p e then e.len else 0).sum := by
  have hle : (es.map fun e => if p e then e.len else 0).sum ≤ (es.map ResEntry.len).sum := by
    refine sum_le_sum fun e _ => ?_
    split <;> omega
  rw [sumLens_mod, Nat.mod_eq_of_lt (hle.trans_lt h)]

/-- The footprint is what is held, up to a multiple of `2 ^ 32`. -/
theorem resourceTableFootprint_mod (t : ResTable) :
    resourceTableFootprint t = heldBytes t % 2 ^ 32 := by
  rw [resourceTableFootprint, sumLens_mod]
  rfl

theorem resourceTableFootprint_eq (h : t.Packed) : resourceTableFootprint t = heldBytes t := by
  rw [resourceTableFootprint, sumLens_eq _ h.lens]
  rfl

theorem refs_heldLen (es : List ResEntry) : (es.map refKey).map heldLen = es.map heldLen := by
  rw [List.map_map]
  rfl

theorem heldBytes_congr (h : t'.refs = t.refs) : heldBytes t' = heldBytes t := by
  unfold heldBytes
  rw [← refs_heldLen, ← refs_heldLen t.entries]
  exact congrArg (fun l => (l.map heldLen).sum) h

theorem ResTable.Packed.congr (hp : t.Packed) (h : t'.refs = t.refs) : t'.Packed := by
  have hlen : ∀ es : List ResEntry, (es.map refKey).map ResEntry.len = es.map ResEntry.len := by
    intro es
    rw [List.map_map]
    rfl
  refine ⟨fun e he => ?_, ?_⟩
  · have hmem : refKey e ∈ t.refs := h ▸ List.mem_map_of_mem he
    obtain ⟨e0, he0, hk⟩ := List.mem_map.mp hmem
    have hsrc : (refKey e).srcPath = (refKey e0).srcPath := by rw [hk]
    exact hsrc.trans (hp.noFile e0 he0)
  · rw [← hlen, show t'.entries.map refKey = t.entries.map refKey from h, hlen]
    exact hp.lens

/-! ## Eviction and rehydration keep what is held -/

theorem resourceEntryEvict_refKey (e : ResEntry) : refKey (resourceEntryEvict e).2 = refKey e := by
  unfold resourceEntryEvict
  split
  · rfl
  · split <;> rfl

/-- A file behind the entry has the length the entry says. -/
def ResEntry.FileLen (env : ResEnv) (e : ResEntry) : Prop :=
  ∀ path buf, e.srcPath = some path → env.readWholeFile path = some buf → buf.length = e.len

theorem resourceEntryData_fileLen (oom : Bool) (h : e.FileLen env) :
    refKey (resourceEntryData env oom e).2 = refKey e := by
  unfold resourceEntryData
  split
  · rfl
  · split
    · rename_i path hsrc
      split
      · rfl
      · rename_i buf hbuf
        rw [refKey, refKey]
        simp only [h path buf hsrc hbuf]
    · split
      · rfl
      · split <;> rfl

theorem resourceEntryData_refKey (env : ResEnv) (oom : Bool)
    (h : e.srcPath = none) : refKey (resourceEntryData env oom e).2 = refKey e := by
  refine resourceEntryData_fileLen oom fun path buf hsrc => ?_
  rw [h] at hsrc
  cases hsrc

/-- An entry is replaced by one with the same key. -/
theorem setEntry_map (key : ResEntry → β) (hi : t.entries[i]? = some e) (hk : key e' = key e) :
    (setEntry t i e').entries.map key = t.entries.map key := by
  apply ext_getElem?
  intro j
  simp only [setEntry, getElem?_map]
  by_cases hj : i = j
  · subst hj
    rw [getElem?_set_self (List.getElem?_eq_some_iff.mp hi).1, hi, map_some, map_some, hk]
  · rw [getElem?_set_ne hj]

theorem setEntry_refs (hi : t.entries[i]? = some e)
    (hk : refKey e' = refKey e) : (setEntry t i e').refs = t.refs := setEntry_map refKey hi hk

theorem resourceTableTouch_refs (t : ResTable) (i : Nat) :
    (resourceTableTouch t i).refs = t.refs := by
  unfold resourceTableTouch
  split
  · rfl
  · rename_i e hi
    exact setEntry_refs hi rfl

theorem evictLoop_map (key : ResEntry → β)
    (hkey : ∀ e, key (resourceEntryEvict e).2 = key e) (fuel : Nat) (t : ResTable) (bound : Nat) :
    (evictLoop fuel t bound).entries.map key = t.entries.map key := by
  induction fuel generalizing t with
  | zero => rfl
  | succ fuel ih =>
    unfold evictLoop
    split
    · rfl
    · split
      · rfl
      · split
        · rfl
        · rename_i e hi
          rw [ih, setEntry_map key hi (hkey e)]

theorem evictLoop_refs (fuel : Nat) (t : ResTable) (bound : Nat) :
    (evictLoop fuel t bound).refs = t.refs := evictLoop_map refKey resourceEntryEvict_refKey _ _ _

theorem resourceTableEvictToFit_refs (t : ResTable) (bound : Nat) :
    (resourceTableEvictToFit t bound).refs = t.refs := evictLoop_refs _ _ _

theorem resourceTableEvictAllEvictable_refs (t : ResTable) :
    (resourceTableEvictAllEvictable t).2.refs = t.refs := by
  simp only [resourceTableEvictAllEvictable, ResTable.refs, List.map_map]
  exact map_congr_left fun e _ => resourceEntryEvict_refKey e

/-- The entry after a preload that goes through. -/
def preloaded (env : ResEnv) (oom : Bool) (e : ResEntry) : ResEntry :=
  if e.persistent then (resourceEntryData env oom e).2 else e

/-- The preload does not stop at the entry. -/
def canPreload (env : ResEnv) (oom : Bool) (e : ResEntry) : Bool :=
  !e.persistent || (resourceEntryData env oom e).1.isSome

theorem preloadEntries_eq (env : ResEnv) (oom : Bool) (es : List ResEntry) :
    preloadEntries env oom es
      = if es.all (canPreload env oom) then some (es.map (preloaded env oom)) else none := by
  induction es with
  | nil => rfl
  | cons e es ih =>
    rw [preloadEntries, all_cons, map_cons, ih, canPreload, preloaded]
    cases e.persistent with
    | false => cases es.all (canPreload env oom) <;> rfl
    | true =>
      rcases resourceEntryData env oom e with ⟨_ | b, e'⟩ <;>
        cases es.all (canPreload env oom) <;> rfl

theorem preloadEntries_refs {es' : List ResEntry} (hsrc : ∀ e ∈ es, e.srcPath = none)
    (h : preloadEntries env oom es = some es') : es'.map refKey = es.map refKey := by
  rw [preloadEntries_eq] at h
  split at h <;> cases h
  rw [List.map_map]
  refine map_congr_left fun e he => ?_
  rw [Function.comp, preloaded]
  split
  · exact resourceEntryData_refKey env oom (hsrc e he)
  · rfl

/-! ## Pinning and releasing -/

theorem sum_map_set (f : ResEntry → Nat) (e' : ResEntry) (hi : es[i]? = some e) :
    ((es.set i e').map f).sum + f e = (es.map f).sum + f e' := by
  induction es generalizing i with
  | nil => simp at hi
  | cons x es ih =>
    cases i with
    | zero =>
      obtain rfl : x = e := by simpa using hi
      simp only [set_cons_zero, map_cons, sum_cons]
      omega
    | succ =>
      have := ih (by simpa using hi)
      simp only [set_cons_succ, map_cons, sum_cons]
      omega

theorem ResTable.Packed.setEntry {x : ResEntry} (h : t.Packed) (hi : t.entries[i]? = some e)
    (hsrc : x.srcPath = e.srcPath) (hlen : x.len = e.len) : (setEntry t i x).Packed := by
  refine ⟨fun y hy => ?_, ?_⟩
  · rcases mem_or_eq_of_mem_set hy with hy | rfl
    · exact h.noFile y hy
    · exact hsrc.trans (h.noFile e (mem_of_getElem? hi))
  · have hsum := sum_map_set ResEntry.len x hi
    have := h.lens
    simp only [Blyt.setEntry]
    omega

theorem heldLen_le (e : ResEntry) : heldLen e ≤ e.len := by
  unfold heldLen
  split
  · exact le_rfl
  · exact Nat.zero_le _

theorem heldLen_of_held (h : (e.persistent || e.pinCount != 0) = true) :
    heldLen e = e.len := if_pos h

theorem heldLen_of_pinned (h : rlIsEvictable e = false) : heldLen e = e.len := by
  refine heldLen_of_held ?_
  rw [Bool.or_eq_true]
  right
  simpa [rlIsEvictable] using h

theorem heldLen_rlUnpin (h : rlUnpin e = some e') : heldLen e' ≤ heldLen e := by
  unfold rlUnpin at h
  split at h
  · simp at h
  · obtain rfl := some.inj h
    simp only [heldLen]
    split <;> split <;> simp_all

theorem heldBytes_setEntry (e' : ResEntry) (hi : t.entries[i]? = some e) :
    heldBytes (setEntry t i e') + heldLen e = heldBytes t + heldLen e' :=
  sum_map_set heldLen e' hi

theorem heldBytes_pin (hi : t.entries[i]? = some e) (hkey : refKey e₁ = refKey e) :
    heldBytes (resourceTableTouch (setEntry (setEntry t i e₁) i (rlPin e₁)) i) + heldLen e
      = heldBytes t + heldLen (rlPin e₁) := by
  have hset := heldBytes_setEntry (t := setEntry t i e₁) (rlPin e₁)
    (getElem?_set_self (List.getElem?_eq_some_iff.mp hi).1)
  have hheld : heldLen e₁ = heldLen e :=
    show heldLen (refKey e₁) = heldLen (refKey e) from congrArg heldLen hkey
  rw [heldBytes_congr (setEntry_refs hi hkey), hheld] at hset
  rwa [heldBytes_congr (resourceTableTouch_refs _ i)]

/-- What pinning entry `i` makes of the table, whether or not its bytes had to be
rehydrated: at most the part of its length that was not held comes on top. -/
theorem ResTable.Packed.pin (h : t.Packed)
    (hi : t.entries[i]? = some e) (hkey : refKey e₁ = refKey e) :
    (resourceTableTouch (Blyt.setEntry (Blyt.setEntry t i e₁) i (rlPin e₁)) i).Packed
      ∧ heldBytes (resourceTableTouch (Blyt.setEntry (Blyt.setEntry t i e₁) i (rlPin e₁)) i)
        + heldLen e ≤ heldBytes t + e.len := by
  have hi1 : (Blyt.setEntry t i e₁).entries[i]? = some e₁ :=
    getElem?_set_self (List.getElem?_eq_some_iff.mp hi).1
  have hlen : e₁.len = e.len :=
    show (refKey e₁).len = (refKey e).len from congrArg ResEntry.len hkey
  have hle : heldLen (rlPin e₁) ≤ e₁.len := heldLen_le (rlPin e₁)
  rw [heldBytes_pin hi hkey]
  exact ⟨((h.congr (setEntry_refs hi hkey)).setEntry (x := rlPin e₁) hi1 rfl rfl).congr
    (resourceTableTouch_refs _ i), by omega⟩

theorem ResTable.Packed.unpin (h : t.Packed)
    (hi : t.entries[i]? = some e) (hun : rlUnpin e = some e') :
    (Blyt.setEntry t i e').Packed ∧ heldBytes (Blyt.setEntry t i e') ≤ heldBytes t := by
  have hset := heldBytes_setEntry e' hi
  have hle := heldLen_rlUnpin hun
  refine ⟨?_, by omega⟩
  unfold rlUnpin at hun
  split at hun
  · cases hun
  · cases hun
    exact h.setEntry hi rfl rfl

theorem heldBytes_forceReleasePins (t : ResTable) :
    heldBytes (resourceTableForceReleasePins t) ≤ heldBytes t := by
  simp only [heldBytes, resourceTableForceReleasePins, List.map_map]
  refine sum_le_sum fun e _ => ?_
  by_cases hper : e.persistent = true <;> simp [heldLen, rlForceReleasePins, hper]

theorem ResTable.Packed.forceReleasePins (h : t.Packed) :
    (resourceTableForceReleasePins t).Packed := by
  refine ⟨fun e he => ?_, ?_⟩
  · obtain ⟨e0, he0, rfl⟩ := List.mem_map.mp he
    exact h.noFile e0 he0
  · simp only [resourceTableForceReleasePins, List.map_map]
    exact h.lens

theorem markPersistentId_cons (e : ResEntry) (es : List ResEntry) (id : Nat) :
    markPersistentId (e :: es) id
      = if e.id = id then { e with persistent := true } :: es
        else e :: markPersistentId es id := by
  simp only [markPersistentId, findIdx?_cons, beq_iff_eq]
  split_ifs
  · rfl
  · cases es.findIdx? fun e => e.id == id <;> rfl

/-- What the mark does not show in, marking keeps. -/
theorem map_markPersistentId {f : ResEntry → β} (hf : ∀ e, f { e with persistent := true } = f e)
    (es : List ResEntry) (id : Nat) : (markPersistentId es id).map f = es.map f := by
  induction es with
  | nil => rfl
  | cons e es ih =>
    rw [markPersistentId_cons]
    split
    · rw [map_cons, hf, map_cons]
    · rw [map_cons, ih, map_cons]

theorem map_markPersistent {f : ResEntry → β} (hf : ∀ e, f { e with persistent := true } = f e)
    (t : ResTable) (ids : List Nat) :
    (resourceTableMarkPersistent t ids).entries.map f = t.entries.map f := by
  unfold resourceTableMarkPersistent
  induction ids generalizing t with
  | nil => rfl
  | cons id ids ih => exact (ih ⟨_, 0⟩).trans (map_markPersistentId hf t.entries id)

theorem markPersistent_forall {P : ResEntry → Prop}
    (hP : ∀ e, P e → P { e with persistent := true }) (h : ∀ e ∈ t.entries, P e)
    (ids : List Nat) : ∀ e ∈ (resourceTableMarkPersistent t ids).entries, P e := by
  unfold resourceTableMarkPersistent
  generalize t.entries = es at h ⊢
  induction ids generalizing es with
  | nil => exact h
  | cons id ids ih =>
    refine ih _ ?_
    clear ih
    induction es with
    | nil => exact h
    | cons e es ih =>
      obtain ⟨he, hes⟩ := forall_mem_cons.mp h
      rw [markPersistentId_cons]
      split
      · exact forall_mem_cons.mpr ⟨hP e he, hes⟩
      · exact forall_mem_cons.mpr ⟨he, ih hes⟩

theorem ResTable.Packed.markPersistent (h : t.Packed) (ids : List Nat) :
    (resourceTableMarkPersistent t ids).Packed where
  noFile := markPersistent_forall (P := fun e => e.srcPath = none) (fun _ => id) h.noFile ids
  lens := by
    rw [map_markPersistent fun _ => rfl]
    exact h.lens

/-- A persistent set that is preloaded fits the budget. -/
theorem ResTable.Packed.preloaded {ids : List Nat} (h : t.Packed)
    (hload : resourceTablePreloadPersistent env oom (resourceTableMarkPersistent t ids) = some t') :
    t'.Packed ∧ heldBytes t' ≤ memBudgetBytes := by
  have hmark := h.markPersistent ids
  unfold resourceTablePreloadPersistent at hload
  split at hload
  · cases hload
  rename_i hfoot
  obtain ⟨es, hes, rfl⟩ := map_eq_some_iff.mp hload
  rw [resourceTableFootprint_eq hmark] at hfoot
  have hrefs : ResTable.refs { resourceTableMarkPersistent t ids with entries := es }
      = (resourceTableMarkPersistent t ids).refs := preloadEntries_refs hmark.noFile hes
  refine ⟨hmark.congr hrefs, ?_⟩
  rw [heldBytes_congr hrefs]
  omega

/-- A zstd frame of `n` times the byte `b`: the header with its size, and run-length blocks of
at most 128 KiB. -/
def runFrame (n : Nat) (b : UInt8) : List UInt8 :=
  [0x28, 0xb5, 0x2f, 0xfd, 0xa0] ++ leBytes 4 n
    ++ (replicate (n / 2 ^ 17) [0x02, 0x00, 0x10, b]).flatten
    ++ leBytes 3 (3 + 8 * (n % 2 ^ 17)) ++ [b]

/-- A decoder for these frames. -/
def decodeRun (c : List UInt8) (n : Nat) : Option (List UInt8) :=
  c.getLast?.bind fun b => if c = runFrame n b then some (replicate n b) else none

def demoEnv : ResEnv := ⟨fun _ => decodeRun, fun _ => none⟩

end Blyt
