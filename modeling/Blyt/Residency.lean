import Blyt.ArenaCache
import Blyt.ResourceFile
import Blyt.SessionBudget

/-!
# What is resident does not show

An entry of a packed cart serves the same bytes whether they are in the cache or not:
`Hydrated` says that cached bytes are the decoded ones, `content` is what a pin delivers.
Two entries that differ in residency only are `Alike`. Sessions whose tables are alike, and
whose accounting blocks differ at most in the advisory cache figure, answer every call in
the same way and stay like that (`observe_same`); a forced eviction is a step on one side
only (`SameButCache.evict`), so no run can tell where evictions were put in.
-/

namespace Blyt

open List Option

/-! ## Entries -/

/-- An entry of a packed cart, with the decoded bytes cached or not. -/
structure Hydrated (env : ResEnv) (e : ResEntry) : Prop where
  noFile : e.srcPath = none
  plain : e.algo ≠ resAlgoZstd → e.owned = false
  cached : e.algo = resAlgoZstd → e.owned = e.data.isSome
  decoded : e.algo = resAlgoZstd → ∀ b, e.data = some b → env.decode e.algo e.cdata e.len = some b

/-- What the entry serves, resident or not. -/
def content (env : ResEnv) (e : ResEntry) : Option (List UInt8) :=
  if e.algo = resAlgoZstd then env.decode e.algo e.cdata e.len else e.data

/-- The entry without what depends on the cache. -/
def stableKey (e : ResEntry) : ResEntry :=
  { e with data := if e.algo = resAlgoZstd then none else e.data, owned := false, lastAccess := 0 }

theorem content_stableKey (env : ResEnv) (e : ResEntry) :
    content env (stableKey e) = content env e := by
  unfold content stableKey
  split
  · rfl
  · rfl

/-- Two hydrated entries of which at most the residency differs. -/
structure Alike (env : ResEnv) (e e' : ResEntry) : Prop where
  left : Hydrated env e
  right : Hydrated env e'
  key : stableKey e = stableKey e'

section Entries

variable {env : ResEnv} {e e' : ResEntry}

section

variable (h : Alike env e e')
include h

theorem Alike.symm : Alike env e' e := ⟨h.right, h.left, h.key.symm⟩

theorem Alike.id_eq : e.id = e'.id :=
  show (stableKey e).id = (stableKey e').id from congrArg ResEntry.id h.key

theorem Alike.len_eq : e.len = e'.len :=
  show (stableKey e).len = (stableKey e').len from congrArg ResEntry.len h.key

theorem Alike.pin_eq : e.pinCount = e'.pinCount :=
  show (stableKey e).pinCount = (stableKey e').pinCount from congrArg ResEntry.pinCount h.key

theorem Alike.persistent_eq : e.persistent = e'.persistent :=
  show (stableKey e).persistent = (stableKey e').persistent from congrArg ResEntry.persistent h.key

theorem Alike.evictable_eq : rlIsEvictable e = rlIsEvictable e' := by
  rw [rlIsEvictable, rlIsEvictable, h.pin_eq]

theorem Alike.content_eq : content env e = content env e' := by
  rw [← content_stableKey, h.key, content_stableKey]

/-- An entry is replaced by a hydrated one with the same key. -/
theorem Alike.trans_key {x : ResEntry} (hx : Hydrated env x)
    (hk : stableKey x = stableKey e') : Alike env e x := ⟨h.left, hx, h.key.trans hk.symm⟩

end

/-- Getting at the bytes yields the content, and hydrates the entry. -/
theorem resourceEntryData_hydrated (h : Hydrated env e) :
    (resourceEntryData env false e).1 = content env e
      ∧ Hydrated env (resourceEntryData env false e).2
      ∧ stableKey (resourceEntryData env false e).2 = stableKey e := by
  unfold content
  cases hd : e.data with
  | some b =>
    have hrun : resourceEntryData env false e = (some b, e) := by rw [resourceEntryData, hd]
    rw [hrun]
    refine ⟨?_, h, rfl⟩
    split <;> rename_i hz
    · rw [h.decoded hz b hd]
    · rfl
  | none =>
    by_cases hz : e.algo = resAlgoZstd
    · rw [if_pos hz]
      cases hdec : env.decode e.algo e.cdata e.len with
      | none =>
        have hrun : resourceEntryData env false e = (none, e) := by
          simp [resourceEntryData, hd, h.noFile, hdec]
        rw [hrun]
        exact ⟨rfl, h, rfl⟩
      | some b =>
        have hrun : resourceEntryData env false e
            = (some b, { e with owned := true, data := some b }) := by
          rw [hz] at hdec
          simp [resourceEntryData, hd, h.noFile, hz, hdec]
        rw [hrun]
        refine ⟨rfl, ⟨h.noFile, absurd hz, fun _ => rfl, ?_⟩, ?_⟩
        · intro _ b' hb'
          cases hb'
          exact hdec
        · simp [stableKey, hz]
    · have hrun : resourceEntryData env false e = (none, e) := by
        simp [resourceEntryData, hd, h.noFile, hz]
      rw [hrun, if_neg hz]
      exact ⟨rfl, h, rfl⟩

theorem Hydrated.evict (h : Hydrated env e) :
    Hydrated env (resourceEntryEvict e).2 ∧ stableKey (resourceEntryEvict e).2 = stableKey e := by
  unfold resourceEntryEvict
  split
  · exact ⟨h, rfl⟩
  · split
    · exact ⟨h, rfl⟩
    · rename_i hown
      -- only decoded bytes are owned
      have hz : e.algo = resAlgoZstd := by
        by_contra hne
        exact hown (by simp [h.plain hne])
      refine ⟨⟨h.noFile, absurd hz, fun _ => rfl, fun _ b hb => by cases hb⟩, ?_⟩
      simp [stableKey, hz]

section

variable (h : Alike env e e')
include h

theorem Alike.evict_right : Alike env e (resourceEntryEvict e').2 :=
  h.trans_key h.right.evict.1 h.right.evict.2

theorem Alike.stamp (n n' : Nat) :
    Alike env { e with lastAccess := n } { e' with lastAccess := n' } :=
  ⟨⟨h.left.noFile, h.left.plain, h.left.cached, h.left.decoded⟩,
    ⟨h.right.noFile, h.right.plain, h.right.cached, h.right.decoded⟩, h.key⟩

theorem Alike.pins (n : Nat) : Alike env { e with pinCount := n } { e' with pinCount := n } :=
  ⟨⟨h.left.noFile, h.left.plain, h.left.cached, h.left.decoded⟩,
    ⟨h.right.noFile, h.right.plain, h.right.cached, h.right.decoded⟩,
    show { stableKey e with pinCount := n } = { stableKey e' with pinCount := n } by rw [h.key]⟩

theorem Alike.pin : Alike env (rlPin e) (rlPin e') := by
  have hp := h.pins (u32 (e.pinCount + 1))
  unfold rlPin
  rwa [← h.pin_eq]

theorem Alike.unpin : (rlUnpin e = none ∧ rlUnpin e' = none)
      ∨ ∃ x x', rlUnpin e = some x ∧ rlUnpin e' = some x' ∧ Alike env x x' := by
  have hp := h.pins (e.pinCount - 1)
  unfold rlUnpin
  rw [← h.pin_eq]
  by_cases h0 : e.pinCount = 0
  · exact .inl ⟨if_pos h0, if_pos h0⟩
  · exact .inr ⟨_, _, if_neg h0, if_neg h0, hp⟩

end

end Entries

/-! ## Tables -/

def AlikeTables (env : ResEnv) (t t' : ResTable) : Prop :=
  List.Forall₂ (Alike env) t.entries t'.entries

section Tables

variable {env : ResEnv} {t t' : ResTable}

section

variable (h : AlikeTables env t t')
include h

theorem AlikeTables.symm : AlikeTables env t' t :=
  List.Forall₂.flip (h.imp fun _ _ => Alike.symm)

theorem AlikeTables.find_eq (id : Nat) : resourceTableFind t id = resourceTableFind t' id := by
  obtain ⟨es, clock⟩ := t
  obtain ⟨es', clock'⟩ := t'
  change List.Forall₂ (Alike env) es es' at h
  unfold resourceTableFind
  induction h with
  | nil => rfl
  | cons hd _ ih => rw [findIdx?_cons, findIdx?_cons, hd.id_eq, ih]

theorem AlikeTables.resolve_eq (handle : Nat) :
    resolveResource t handle = resolveResource t' handle := by
  unfold resolveResource
  rw [h.find_eq]

theorem AlikeTables.footprint_eq : resourceTableFootprint t = resourceTableFootprint t' := by
  have hlens : t.entries.map heldLen = t'.entries.map heldLen := by
    rw [← forall₂_eq_eq_eq, forall₂_map_left_iff, forall₂_map_right_iff]
    refine h.imp fun e e' hee => ?_
    rw [heldLen, heldLen, hee.persistent_eq, hee.pin_eq, hee.len_eq]
  rw [resourceTableFootprint_mod, resourceTableFootprint_mod, heldBytes, heldBytes, hlens]

end

theorem footprint_setEntry {t : ResTable} {i : Nat} {e e₁ : ResEntry}
    (hi : t.entries[i]? = some e) (hk : heldLen e₁ = heldLen e) :
    resourceTableFootprint (setEntry t i e₁) = resourceTableFootprint t := by
  have hheld := heldBytes_setEntry e₁ hi
  rw [resourceTableFootprint_mod, resourceTableFootprint_mod]
  congr 1
  omega

section

variable (h : AlikeTables env t t')
include h

theorem AlikeTables.getElem? (i : Nat) :
    (t.entries[i]? = none ∧ t'.entries[i]? = none)
      ∨ ∃ e e', t.entries[i]? = some e ∧ t'.entries[i]? = some e' ∧ Alike env e e' := by
  cases hi : t.entries[i]? with
  | none =>
    refine .inl ⟨rfl, ?_⟩
    rw [List.getElem?_eq_none_iff] at hi ⊢
    rwa [← h.length_eq]
  | some e =>
    obtain ⟨e', he', hee⟩ := forall₂_getElem? h hi
    exact .inr ⟨e, e', rfl, he', hee⟩

theorem AlikeTables.set {e e' : ResEntry} (he : Alike env e e')
    (i : Nat) : AlikeTables env (setEntry t i e) (setEntry t' i e') := forall₂_set h he

theorem AlikeTables.evictLoop_right (fuel bound : Nat) :
    AlikeTables env t (evictLoop fuel t' bound) := by
  induction fuel generalizing t' with
  | zero => exact h
  | succ fuel ih =>
    unfold evictLoop
    split
    · exact h
    cases lruVictim t'.entries with
    | none => exact h
    | some i =>
      rcases h.getElem? i with ⟨-, hn⟩ | ⟨e, e', he, he', hee⟩
      · simp only [hn]
        exact h
      · simp only [he']
        exact ih (forall₂_set_right h he hee.evict_right)

theorem AlikeTables.evictToFit (bound bound' : Nat) :
    AlikeTables env (resourceTableEvictToFit t bound) (resourceTableEvictToFit t' bound') :=
  ((h.evictLoop_right _ _).symm.evictLoop_right _ _).symm

theorem AlikeTables.touch (i : Nat) :
    AlikeTables env (resourceTableTouch t i) (resourceTableTouch t' i) := by
  unfold resourceTableTouch
  rcases h.getElem? i with ⟨hn, hn'⟩ | ⟨e, e', he, he', hee⟩
  · simp only [hn, hn']
    exact h
  · simp only [he, he']
    exact h.set (hee.stamp _ _) i

theorem AlikeTables.releasePins :
    AlikeTables env (resourceTableForceReleasePins t) (resourceTableForceReleasePins t') := by
  refine forall₂_map_left_iff.mpr (forall₂_map_right_iff.mpr ?_)
  exact h.imp fun _ _ hee => hee.pins 0

theorem AlikeTables.evictAll : AlikeTables env t (resourceTableEvictAllEvictable t').2 :=
  forall₂_map_right_iff.mpr (h.imp fun _ _ hee => hee.evict_right)

end

end Tables

/-! ## Sessions -/

/-- The session with another table and another cache figure. -/
def Session.recache (s : Session) (t : ResTable) (v : Nat) : Session :=
  { s with heap := s.heap.setCache v, resources := t }

/-- The sessions differ in what is resident and in the cache figure, at most. -/
def SameButCache (env : ResEnv) (s s' : Session) : Prop :=
  ∃ t v, s' = s.recache t v ∧ AlikeTables env s.resources t

section Sessions

variable {env : ResEnv} {s s' : Session}

theorem AlikeTables.ctxFootprint {t : ResTable} (h : AlikeTables env s.resources t) (v : Nat) :
    ctxNonEvictableFootprint (s.recache t v) = ctxNonEvictableFootprint s := by
  unfold ctxNonEvictableFootprint
  rw [h.footprint_eq]
  rfl

theorem heapUsed_recache (s : Session) (t : ResTable) (v : Nat) :
    memAcctGuestHeapUsed (s.recache t v) = memAcctGuestHeapUsed s := by
  unfold memAcctGuestHeapUsed
  have hacct : (s.recache t v).heap.arena.acct
      = s.heap.arena.acct.map fun c => { c with resourceCacheUsed := v } := rfl
  rw [hacct]
  cases s.heap.arena.acct <;> rfl

/-- The accounting block of a session that has one. -/
def Session.block (s : Session) : Option MemAccounting :=
  if s.memAcct then s.heap.arena.acct else none

theorem Session.found_of_block {c : MemAccounting} (h : s.block = some c) :
    s.memAcct = true ∧ s.heap.arena.acct = some c := by
  unfold Session.block at h
  split at h
  · rename_i hm
    exact ⟨hm, h⟩
  · cases h

theorem publish_of_none (h : s.block = none) : memAcctPublishFootprint s = s := by
  unfold Session.block at h
  unfold memAcctPublishFootprint
  cases hm : s.memAcct with
  | false => rfl
  | true =>
    rw [hm, if_pos rfl] at h
    rw [h]
    rfl

/-- The table after a publication that finds the block `c`. -/
def Session.trimmed (s : Session) (c : MemAccounting) : ResTable :=
  resourceTableEvictToFit s.resources (memCacheRoom c.guestHeapUsed (ctxNonEvictableFootprint s))

theorem publish_of_some {c : MemAccounting} (h : s.block = some c) :
    memAcctPublishFootprint s
      = { s with resources := s.trimmed c }.setAcct
          { c with
            nonEvictableFootprint := ctxNonEvictableFootprint s
            resourceCacheUsed := resourceTableResidentDecompressed (s.trimmed c) } := by
  unfold Session.block at h
  cases hm : s.memAcct with
  | false =>
    rw [hm] at h
    cases h
  | true =>
    rw [hm, if_pos rfl] at h
    simp only [memAcctPublishFootprint, hm, h]
    rfl

theorem publish_gmem (s : Session) : (memAcctPublishFootprint s).gmem = s.gmem := by
  cases hc : s.block with
  | none => rw [publish_of_none hc]
  | some =>
    rw [publish_of_some hc]
    rfl

theorem block_recache (s : Session) (t : ResTable) (v : Nat) :
    (s.recache t v).block = s.block.map fun c => { c with resourceCacheUsed := v } := by
  unfold Session.block
  rw [show (s.recache t v).memAcct = s.memAcct from rfl]
  cases s.memAcct <;> rfl

section

variable (h : SameButCache env s s')
include h

/-- Publishing evicts on both sides, each for itself. -/
theorem SameButCache.publish :
    SameButCache env (memAcctPublishFootprint s) (memAcctPublishFootprint s') := by
  obtain ⟨t, v, rfl, ht⟩ := h
  have hblock := block_recache s t v
  cases hc : s.block with
  | none =>
    rw [hc] at hblock
    rw [publish_of_none hc, publish_of_none hblock]
    exact ⟨t, v, rfl, ht⟩
  | some c =>
    rw [hc] at hblock
    have htrim : AlikeTables env (s.trimmed c)
        ((s.recache t v).trimmed { c with resourceCacheUsed := v }) := by
      exact ht.evictToFit _ _
    rw [publish_of_some hc, publish_of_some hblock, ht.ctxFootprint]
    exact ⟨_, _, rfl, htrim⟩

theorem SameButCache.pin (handle : Nat) :
    (resourcePin env false s handle).1 = (resourcePin env false s' handle).1
      ∧ SameButCache env (resourcePin env false s handle).2
          (resourcePin env false s' handle).2 := by
  obtain ⟨t, v, rfl, ht⟩ := h
  have hres : resolveResource (s.recache t v).resources handle
      = resolveResource s.resources handle := (ht.resolve_eq handle).symm
  have htable : (s.recache t v).resources = t := rfl
  unfold resourcePin
  rw [hres]
  cases resolveResource s.resources handle with
  | none => exact ⟨rfl, t, v, rfl, ht⟩
  | some i =>
    rw [htable]
    rcases ht.getElem? i with ⟨hn, hn'⟩ | ⟨e, e', he, he', hee⟩
    · simp only [hn, hn']
      exact ⟨trivial, t, v, rfl, ht⟩
    simp only [he, he']
    have hfits : memAcctReferenceFits (s.recache t v) e' (rlIsEvictable e')
        = memAcctReferenceFits s e (rlIsEvictable e) := by
      unfold memAcctReferenceFits
      rw [heapUsed_recache, ht.ctxFootprint, hee.evictable_eq, hee.len_eq]
      rfl
    rw [hfits]
    split
    · exact ⟨rfl, t, v, rfl, ht⟩
    -- the entries have the same content, and are alike once they are hydrated
    obtain ⟨hb, hh, hk⟩ := resourceEntryData_hydrated hee.left
    obtain ⟨hb', hh', hk'⟩ := resourceEntryData_hydrated hee.right
    rw [hee.content_eq, ← hb'] at hb
    generalize resourceEntryData env false e = r at hb hh hk ⊢
    generalize resourceEntryData env false e' = r' at hb hh' hk' ⊢
    obtain ⟨bytes, e1⟩ := r
    obtain ⟨bytes', e1'⟩ := r'
    obtain rfl : bytes = bytes' := hb
    have halike : Alike env e1 e1' := ⟨hh, hh', hk.trans (hee.key.trans hk'.symm)⟩
    have hset := ht.set halike i
    simp only [← halike.len_eq]
    split
    · exact ⟨rfl, _, v, rfl, hset⟩
    split
    · exact ⟨rfl, _, v, rfl, hset⟩
    refine ⟨rfl, SameButCache.publish ⟨_, v, rfl, ?_⟩⟩
    exact (hset.set halike.pin i).touch i

theorem SameButCache.unpin (handle : Nat) : (resourceUnpin s handle).1 = (resourceUnpin s' handle).1
      ∧ SameButCache env (resourceUnpin s handle).2 (resourceUnpin s' handle).2 := by
  obtain ⟨t, v, rfl, ht⟩ := h
  have hres : resolveResource (s.recache t v).resources handle
      = resolveResource s.resources handle := (ht.resolve_eq handle).symm
  have htable : (s.recache t v).resources = t := rfl
  unfold resourceUnpin
  rw [hres]
  cases resolveResource s.resources handle with
  | none => exact ⟨rfl, t, v, rfl, ht⟩
  | some i =>
    rw [htable]
    rcases ht.getElem? i with ⟨hn, hn'⟩ | ⟨e, e', he, he', hee⟩
    · simp only [hn, hn']
      exact ⟨trivial, t, v, rfl, ht⟩
    simp only [he, he']
    rcases hee.unpin with ⟨hu, hu'⟩ | ⟨x, x', hu, hu', hxx⟩
    · simp only [hu, hu']
      exact ⟨trivial, t, v, rfl, ht⟩
    · simp only [hu, hu']
      exact ⟨trivial, SameButCache.publish ⟨_, v, rfl, ht.set hxx i⟩⟩

theorem SameButCache.createSlot (oom : Bool) (w ht : Int) :
    (surfaceCreateSlot oom s w ht).1 = (surfaceCreateSlot oom s' w ht).1
      ∧ SameButCache env (surfaceCreateSlot oom s w ht).2 (surfaceCreateSlot oom s' w ht).2 := by
  obtain ⟨t, v, rfl, htab⟩ := h
  have hself : SameButCache env s (s.recache t v) := ⟨t, v, rfl, htab⟩
  have hsurf : (s.recache t v).surfaces = s.surfaces := rfl
  unfold surfaceCreateSlot
  rw [heapUsed_recache, htab.ctxFootprint, hsurf]
  split
  · exact ⟨rfl, hself⟩
  split
  · exact ⟨rfl, hself⟩
  split
  · exact ⟨rfl, hself⟩
  split
  · exact ⟨rfl, hself⟩
  · exact ⟨rfl, SameButCache.publish ⟨t, v, rfl, htab⟩⟩

end

theorem surfacePhaseGate_recache (s : Session) (t : ResTable) (v : Nat) :
    surfacePhaseGate (s.recache t v)
        = ((surfacePhaseGate s).1, (surfacePhaseGate s).2.recache t v)
      ∧ (surfacePhaseGate s).2.resources = s.resources := by
  unfold surfacePhaseGate
  rw [show (s.recache t v).phase = s.phase from rfl,
    show (s.recache t v).cartIsDebug = s.cartIsDebug from rfl]
  split
  · exact ⟨rfl, rfl⟩
  · cases s.cartIsDebug <;> exact ⟨rfl, rfl⟩

theorem surfaceLockGate_recache (s : Session) (t : ResTable) (v : Nat)
    (slot : Option (Fin surfaceMax)) :
    surfaceLockGate (s.recache t v) slot
        = ((surfaceLockGate s slot).1, (surfaceLockGate s slot).2.recache t v)
      ∧ (surfaceLockGate s slot).2.resources = s.resources
      ∧ (surfaceLockGate s slot).2.surfaces = s.surfaces := by
  unfold surfaceLockGate
  rw [show (s.recache t v).surfaces = s.surfaces from rfl,
    show (s.recache t v).cartIsDebug = s.cartIsDebug from rfl]
  split
  · cases s.cartIsDebug <;> exact ⟨rfl, rfl, rfl⟩
  · exact ⟨rfl, rfl, rfl⟩

theorem surfaceAcquireLock_recache (s : Session) (t : ResTable) (v handle : Nat)
    (clearOnly : Bool) :
    surfaceAcquireLock (s.recache t v) handle clearOnly
        = ((surfaceAcquireLock s handle clearOnly).1,
          (surfaceAcquireLock s handle clearOnly).2.recache t v)
      ∧ (surfaceAcquireLock s handle clearOnly).2.resources = s.resources := by
  have hsurf : (s.recache t v).surfaces = s.surfaces := rfl
  unfold surfaceAcquireLock
  rw [hsurf]
  split
  · exact ⟨rfl, rfl⟩
  · simp only
    split
    · exact ⟨rfl, rfl⟩
    · split <;> exact ⟨rfl, rfl⟩

section

variable (h : SameButCache env s s')
include h

theorem SameButCache.surfaceCreate (oom : Bool) (w ht : Int) :
    (surfaceCreate oom s w ht).1 = (Blyt.surfaceCreate oom s' w ht).1
      ∧ SameButCache env (Blyt.surfaceCreate oom s w ht).2 (Blyt.surfaceCreate oom s' w ht).2 := by
  obtain ⟨t, v, rfl, htab⟩ := h
  obtain ⟨hgate, hres⟩ := surfacePhaseGate_recache s t v
  unfold Blyt.surfaceCreate
  rw [hgate]
  generalize surfacePhaseGate s = r at hres ⊢
  obtain ⟨ok, s1⟩ := r
  have h1 : SameButCache env s1 (s1.recache t v) := ⟨t, v, rfl, by rwa [hres]⟩
  cases ok with
  | false => exact ⟨rfl, h1⟩
  | true => exact h1.createSlot oom w ht

theorem SameButCache.surfaceDestroy (handle : Nat) :
    SameButCache env (surfaceDestroy s handle) (Blyt.surfaceDestroy s' handle) := by
  obtain ⟨t, v, rfl, htab⟩ := h
  obtain ⟨hgate, hres, -⟩ :=
    surfaceLockGate_recache s t v (resolveSurface s.surfaces handle)
  unfold Blyt.surfaceDestroy
  simp only [show (s.recache t v).surfaces = s.surfaces from rfl, hgate]
  generalize surfaceLockGate s (resolveSurface s.surfaces handle) = r at hres ⊢
  obtain ⟨ok, s1⟩ := r
  have h1 : SameButCache env s1 (s1.recache t v) := ⟨t, v, rfl, by rwa [hres]⟩
  cases ok with
  | false => exact h1
  | true =>
    simp only
    split
    · exact h1
    · rw [show (s1.recache t v).surfaces = s1.surfaces from rfl]
      split
      · exact h1
      · exact SameButCache.publish ⟨t, v, rfl, by rwa [hres]⟩

theorem SameButCache.surfaceAcquire (handle : Nat) :
    (surfaceAcquire s handle).1 = (Blyt.surfaceAcquire s' handle).1
      ∧ SameButCache env (Blyt.surfaceAcquire s handle).2 (Blyt.surfaceAcquire s' handle).2 := by
  obtain ⟨t, v, rfl, htab⟩ := h
  obtain ⟨hgate, hres⟩ := surfacePhaseGate_recache s t v
  unfold Blyt.surfaceAcquire
  rw [hgate]
  generalize surfacePhaseGate s = r at hres ⊢
  obtain ⟨ok, s1⟩ := r
  have h1 : SameButCache env s1 (s1.recache t v) := ⟨t, v, rfl, by rwa [hres]⟩
  have hlock : ∀ clearOnly, (surfaceAcquireLock s1 handle clearOnly).1
        = (surfaceAcquireLock (s1.recache t v) handle clearOnly).1
      ∧ SameButCache env (surfaceAcquireLock s1 handle clearOnly).2
          (surfaceAcquireLock (s1.recache t v) handle clearOnly).2 := by
    intro clearOnly
    obtain ⟨hl, hlres⟩ := surfaceAcquireLock_recache s1 t v handle clearOnly
    rw [hl]
    exact ⟨rfl, t, v, rfl, by rw [hlres]; rwa [hres]⟩
  cases ok with
  | true => exact hlock false
  | false =>
    simp only [show (s1.recache t v).cartIsDebug = s1.cartIsDebug from rfl]
    cases s1.cartIsDebug with
    | true => exact ⟨rfl, h1⟩
    | false => exact hlock true

theorem SameButCache.surfaceRelease (token : Nat) :
    SameButCache env (surfaceRelease s token) (Blyt.surfaceRelease s' token) := by
  obtain ⟨t, v, rfl, htab⟩ := h
  unfold Blyt.surfaceRelease
  rw [show (s.recache t v).surfaces = s.surfaces from rfl]
  split <;> exact ⟨t, v, rfl, htab⟩

theorem SameButCache.frame :
    SameButCache env (runFrameEntry s false false) (runFrameEntry s' false false) := by
  obtain ⟨t, v, rfl, htab⟩ := h
  refine SameButCache.publish (SameButCache.publish ⟨_, v, rfl, ?_⟩)
  exact htab.releasePins

theorem SameButCache.evictAll :
    SameButCache env (sessionResourceEvictAll s).2 (sessionResourceEvictAll s').2 := by
  obtain ⟨t, v, rfl, htab⟩ := h
  refine SameButCache.publish ⟨_, v, rfl, ?_⟩
  exact (htab.evictAll.symm.evictAll).symm

end

end Sessions

/-! ## A session of a packed cart -/

section Created

variable {env : ResEnv}

theorem loaded_hydrated (f : Image) :
    ∀ e ∈ (resourceTableLoadFromCart f).entries, Hydrated env e := by
  intro e he
  obtain ⟨sect, -, rfl⟩ := List.mem_map.mp he
  refine ⟨rfl, fun _ => rfl, fun hz => ?_, fun hz b hb => ?_⟩
  all_goals
    have hdata : (loadResourceSection f sect).data = none :=
      sectionEntry_data_of_zstd id f sect hz
  · show false = ((loadResourceSection f sect).data.map _).isSome
    rw [hdata]
    rfl
  · have hd : ((loadResourceSection f sect).data.map
        fun d => f.slice d (loadResourceSection f sect).len) = some b := hb
    rw [hdata] at hd
    cases hd

/-- What `data` keeps holds of the entries that a preload loop with it returns. -/
theorem preload_forall {loop : List ResEntry → Option (List ResEntry)} {es es' : List ResEntry}
    (hr : loop es = some es') {data : ResEntry → Option (List UInt8) × ResEntry}
    (hnil : loop [] = some [])
    (hcons : ∀ e es, loop (e :: es) = if !e.persistent then (loop es).map (e :: ·)
      else match data e with
        | (none, _) => none
        | (some _, e') => (loop es).map (e' :: ·))
    {P : ResEntry → Prop} (hP : ∀ e, P e → P (data e).2) (h : ∀ e ∈ es, P e) :
    ∀ e ∈ es', P e := by
  induction es generalizing es' with
  | nil =>
    cases hnil.symm.trans hr
    exact h
  | cons e es ih =>
    obtain ⟨he, hes⟩ := forall_mem_cons.mp h
    rw [hcons] at hr
    split at hr
    · obtain ⟨l, hl, rfl⟩ := map_eq_some_iff.mp hr
      exact forall_mem_cons.mpr ⟨he, ih hl hes⟩
    · have hdata := hP e he
      generalize data e = d at hdata hr
      obtain ⟨_ | b, e1⟩ := d
      · cases hr
      · obtain ⟨l, hl, rfl⟩ := map_eq_some_iff.mp hr
        exact forall_mem_cons.mpr ⟨hdata, ih hl hes⟩

theorem Hydrated.mark {e : ResEntry} (h : Hydrated env e) :
    Hydrated env { e with persistent := true } := ⟨h.noFile, h.plain, h.cached, h.decoded⟩

theorem AlikeTables.of_hydrated {t : ResTable} (h : ∀ e ∈ t.entries, Hydrated env e) :
    AlikeTables env t t :=
  forall₂_same.mpr fun e he => ⟨h e he, h e he, rfl⟩

theorem SameButCache.of_hydrated {s : Session} (h : ∀ e ∈ s.resources.entries, Hydrated env e) :
    SameButCache env s s := by
  refine ⟨s.resources, s.heap.arena.acct.elim 0 MemAccounting.resourceCacheUsed, ?_,
    AlikeTables.of_hydrated h⟩
  obtain ⟨⟨⟨_, _, _, _, _, acct, _, _⟩, _⟩, _⟩ := s
  cases acct <;> rfl

/-- **A session of a packed cart starts hydrated**, whatever it marks as persistent. -/
theorem sessionCreate_same {f : Image} {s₀ s : Session} {ids : List Nat}
    (hload : s₀.resources = resourceTableLoadFromCart f)
    (hcreate : sessionCreate env false s₀ ids = some s) : SameButCache env s s := by
  obtain ⟨t, ht, rfl⟩ := map_eq_some_iff.mp hcreate
  rw [hload] at ht
  unfold resourceTablePreloadPersistent at ht
  split at ht
  · cases ht
  · obtain ⟨es, hes, rfl⟩ := map_eq_some_iff.mp ht
    have hyd := preload_forall hes rfl (fun _ _ => rfl) (P := Hydrated env)
      (fun e he => (resourceEntryData_hydrated he).2.1)
      (markPersistent_forall (fun e he => he.mark) (loaded_hydrated f) ids)
    exact SameButCache.publish (SameButCache.of_hydrated hyd)

end Created

/-- A session for a cart with one compressed resource. -/
def squeezedSession : Session :=
  { demoSession with resources := resourceTableLoadFromCart squeezedCart }

end Blyt
