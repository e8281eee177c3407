import Blyt.NativeResource

/-!
# Host and native resource lifecycles agree

The emulated session and the native runtime, started from one packed cart and taken through
one sequence of calls. What is resident may differ between them at every point, and where a
pin puts the bytes differs always; `Agrees` relates what does not: the pin counts, what an
entry serves, the heap in use and the published footprint. Each call keeps it and answers
alike on both sides (`Agrees.step`), so whole runs have one trace
(`resource_lifecycles_agree`).
-/

namespace Blyt

open List Option

/-! ## Packed carts -/

/-- A decoder that succeeds has filled the buffer: `blyt_res_decode` compares the length. -/
def ResEnv.Fills (env : ResEnv) : Prop :=
  ∀ body n bytes, env.decode resAlgoZstd body n = some bytes → bytes.length = n

/-- The file is an ELF32 one, and its resource headers are as the packer writes them: stored
bodies have the length they state, and empty resources are never compressed. -/
structure PackedCart (f : Image) : Prop where
  size_lt : f.size < 2 ^ 32
  headers : ∀ sect ∈ resourceSections f, ∃ h, resHeaderParse f sect = some h
    ∧ (h.algo = resAlgoNone → h.dsize = h.bodyLen) ∧ (h.algo = resAlgoZstd → 0 < h.dsize)

variable {f : Image}

theorem resourceSections_size {sect : ResSection} (h : sect ∈ resourceSections f) :
    sect.off + sect.size ≤ f.size := by
  unfold resourceSections at h
  split at h
  · obtain ⟨sh, -, hsh⟩ := mem_filterMap.mp h
    unfold resourceSection at hsh
    split at hsh
    · cases hsh
    · simp only [bind_eq_bind, bind_eq_some_iff] at hsh
      obtain ⟨_, -, _, -, hsh⟩ := hsh
      split at hsh
      · cases hsh
      · rename_i hin
        obtain ⟨id, -, rfl⟩ := map_eq_some_iff.mp hsh
        exact Nat.le_of_not_lt hin
  · cases h

/-- Both runtimes build the same table. -/
theorem PackedCart.tables_eq (hf : PackedCart f) :
    resourcesInit f = resourceTableLoadFromCart f := by
  have hmap : nativeMap f = f := by
    unfold nativeMap
    rw [u32_of_lt hf.size_lt]
  have hsects : nativeSections f = resourceSections f := by
    unfold nativeSections
    rw [u32_of_lt hf.size_lt, hmap]
    split
    · rename_i hshort
      exact (if_neg fun hsht => absurd hsht.1 (Nat.not_le.mpr hshort)).symm
    · rfl
  unfold resourcesInit resourceTableLoadFromCart
  rw [hsects, hmap]
  congr 1
  refine map_congr_left fun sect hsect => ?_
  have hsize := resourceSections_size hsect
  have hlt := hf.size_lt
  obtain ⟨h, hh, -⟩ := hf.headers sect hsect
  have hbody : h.bodyLen ≤ sect.size := by
    simp only [resHeaderParse] at hh
    split at hh
    · cases hh
    · split at hh
      · cases hh
      · cases hh
        exact Nat.sub_le _ _
  have hentry : resFillCb f sect = loadResourceSection f sect := by
    unfold resFillCb loadResourceSection sectionEntry
    simp only [hh, u32_of_lt (show h.bodyLen < 2 ^ 32 by omega), id]
  rw [hentry]

/-! ## What an entry delivers -/

/-- An entry of a packed cart: it serves as many bytes as it states, is not both compressed
and empty, and fits the scratch region of the host if it is pinned. -/
structure Deliverable (env : ResEnv) (e : ResEntry) : Prop where
  small : e.len < 2 ^ 32
  stored : e.algo = resAlgoZstd → e.len ≠ 0
  exact_len : ∀ bytes, content env e = some bytes → bytes.length = e.len
  pinned : e.pinCount ≠ 0 → e.len ≤ resourceScratchSize

section Entries

variable {env : ResEnv} {e e' : ResEntry}

theorem Alike.algo_eq (h : Alike env e e') : e.algo = e'.algo :=
  show (stableKey e).algo = (stableKey e').algo from congrArg ResEntry.algo h.key

theorem Deliverable.alike (h : Deliverable env e) (ha : Alike env e e') : Deliverable env e' where
  small := ha.len_eq ▸ h.small
  stored hz := ha.len_eq ▸ h.stored (ha.algo_eq.trans hz)
  exact_len bytes hb := ha.len_eq ▸ h.exact_len bytes (ha.content_eq.trans hb)
  pinned hp := ha.len_eq ▸ h.pinned (ha.pin_eq ▸ hp)

theorem Deliverable.pins (h : Deliverable env e) {n : Nat}
    (hn : n ≠ 0 → e.len ≤ resourceScratchSize) : Deliverable env { e with pinCount := n } :=
  ⟨h.small, h.stored, h.exact_len, hn⟩

theorem Deliverable.length_getD (h : Deliverable env e)
    (hne : ¬ ((content env e).isNone ∧ e.len ≠ 0)) : ((content env e).getD []).length = e.len := by
  cases hc : content env e with
  | some bytes => exact h.exact_len bytes hc
  | none =>
    have h0 : e.len = 0 := by
      by_contra h0
      exact hne ⟨by rw [hc]; rfl, h0⟩
    exact h0.symm

/-- On such an entry `native_res_data` is the host's function. -/
theorem nativeResData_eq (hy : Hydrated env e) (hd : Deliverable env e) :
    nativeResData env false e = resourceEntryData env false e := by
  unfold nativeResData resourceEntryData
  cases e.data with
  | some => rfl
  | none =>
    simp only [hy.noFile]
    by_cases hz : e.algo = resAlgoZstd
    · rewrite [if_neg (by simp [hz, hd.stored hz]), if_neg Bool.false_ne_true,
        if_neg (by simp [hz])]
      rfl
    · rw [if_pos (.inl hz), if_pos (.inl hz)]

end Entries

theorem PackedCart.deliverable {env : ResEnv} (henv : env.Fills) (hf : PackedCart f) :
    ∀ e ∈ (resourceTableLoadFromCart f).entries, Deliverable env e := by
  intro e he
  obtain ⟨sect, hsect, rfl⟩ := List.mem_map.mp he
  obtain ⟨h, hh, -, hz⟩ := hf.headers sect hsect
  have hdsize : h.dsize < 2 ^ 32 := by
    simp only [resHeaderParse] at hh
    split at hh
    · cases hh
    · split at hh
      · cases hh
      · cases hh
        exact read32_lt _ _
  by_cases halgo : h.algo = resAlgoZstd
  · have hentry : loadResourceSection f sect
        = ⟨sect.id, none, h.dsize, resAlgoZstd, some h.body, h.bodyLen⟩ := by
      unfold loadResourceSection sectionEntry
      simp [hh, halgo, id]
    rw [hentry]
    exact ⟨hdsize, fun _ => Nat.ne_of_gt (hz halgo), fun bytes hb => henv _ _ _ hb,
      absurd rfl⟩
  · have hentry : loadResourceSection f sect
        = ⟨sect.id, some h.body, h.dsize, h.algo, none, 0⟩ := by
      unfold loadResourceSection sectionEntry
      simp [hh, halgo]
    rw [hentry]
    refine ⟨hdsize, fun hz => absurd hz halgo, fun bytes hb => ?_, absurd rfl⟩
    have hdata := (if_neg halgo).symm.trans hb
    cases hdata
    exact (length_map _).trans length_range

/-! ## The relation -/

/-- The two runtimes side by side, whatever the published words are. -/
structure SideBySide (env : ResEnv) (s : Session) (n : NativeRes) : Prop where
  block : ∃ c, s.block = some c ∧ c.guestHeapUsed = n.memAcct.guestHeapUsed
  surf : SurfInv s.surfaces ∧ liveSurfaceBytes s.surfaces = 0
  peer : s.peerHeap = 0
  tables : AlikeTables env s.resources n.res
  deliverable : ∀ e ∈ s.resources.entries, Deliverable env e

/-- Both published words are the footprint. -/
structure Agrees (env : ResEnv) (s : Session) (n : NativeRes) : Prop extends
  SideBySide env s n where
  hostWord : publishedWord s.heap.arena = resourceTableFootprint n.res
  nativeWord : n.memAcct.nonEvictableFootprint = resourceTableFootprint n.res

section Relation

variable {env : ResEnv} {s : Session} {n : NativeRes} {t t' : ResTable} {e : ResEntry}

theorem AlikeTables.self_left (h : AlikeTables env t t') : AlikeTables env t t := by
  refine AlikeTables.of_hydrated fun e he => ?_
  obtain ⟨i, hi⟩ := mem_iff_getElem?.mp he
  obtain ⟨e', -, hee⟩ := forall₂_getElem? h hi
  exact hee.left

theorem AlikeTables.deliverable (h : AlikeTables env t t')
    (hd : ∀ e ∈ t.entries, Deliverable env e) : ∀ e ∈ t'.entries, Deliverable env e := by
  intro e' he'
  obtain ⟨i, hi⟩ := mem_iff_getElem?.mp he'
  obtain ⟨e, he, hee⟩ := forall₂_getElem? h.symm hi
  exact (hd e (mem_of_getElem? he)).alike hee.symm

section

variable (h : SideBySide env s n)
include h

/-- With no surface and no peer the host's footprint is the table's. -/
theorem SideBySide.footprint : ctxNonEvictableFootprint s = resourceTableFootprint n.res := by
  have hbytes := h.surf.1.bytes.trans h.surf.2
  have hlt : resourceTableFootprint n.res < 2 ^ 32 := by
    rw [resourceTableFootprint_mod]
    exact Nat.mod_lt _ (by norm_num)
  unfold ctxNonEvictableFootprint
  rw [hbytes, h.peer, h.tables.footprint_eq, Nat.add_zero, u32_of_lt hlt]

theorem SideBySide.heapUsed : memAcctGuestHeapUsed s = n.memAcct.guestHeapUsed := by
  obtain ⟨c, hc, hused⟩ := h.block
  obtain ⟨hm, hacct⟩ := Session.found_of_block hc
  rw [← hused, memAcctGuestHeapUsed, hm, hacct]
  rfl

/-- The host publishes what the native word already is, and evicts for itself. -/
theorem SideBySide.publish_left
    (hword : n.memAcct.nonEvictableFootprint = resourceTableFootprint n.res) :
    Agrees env (memAcctPublishFootprint s) n := by
  obtain ⟨c, hc, hused⟩ := h.block
  obtain ⟨hm, -⟩ := Session.found_of_block hc
  have htrim : AlikeTables env s.resources (s.trimmed c) :=
    h.tables.self_left.evictLoop_right _ _
  have htables : AlikeTables env (s.trimmed c) n.res := (h.tables.symm.evictLoop_right _ _).symm
  rw [publish_of_some hc]
  exact ⟨⟨⟨_, if_pos hm, hused⟩, h.surf, h.peer, htables, htrim.deliverable h.deliverable⟩,
    h.footprint, hword⟩

/-- **Publishing on both sides brings the words in line.** -/
theorem SideBySide.publish :
    Agrees env (memAcctPublishFootprint s) (nativeMemPublishFootprint n) := by
  have htables : AlikeTables env s.resources (nativeMemPublishFootprint n).res :=
    h.tables.evictLoop_right _ _
  have hword : (nativeMemPublishFootprint n).memAcct.nonEvictableFootprint
      = resourceTableFootprint (nativeMemPublishFootprint n).res := by
    rw [← htables.footprint_eq, h.tables.footprint_eq]
    rfl
  exact SideBySide.publish_left ⟨h.block, h.surf, h.peer, htables, h.deliverable⟩ hword

theorem SideBySide.fits {e' : ResEntry} (he : e ∈ s.resources.entries) (hee : Alike env e e') :
    memAcctReferenceFits s e (rlIsEvictable e)
      = nativeMemReferenceFits n e' (rlIsEvictable e') := by
  obtain ⟨c, hc, -⟩ := h.block
  obtain ⟨hm, -⟩ := Session.found_of_block hc
  unfold memAcctReferenceFits nativeMemReferenceFits nativeResFootprint
  rw [hm, h.footprint, h.heapUsed, u32_of_lt (h.deliverable e he).small, hee.evictable_eq,
    hee.len_eq]
  rfl

/-- What the gate lets through fits the scratch region: the budget is as large, and an entry
that adds nothing has been let through before. -/
theorem SideBySide.fits_scratch (he : e ∈ s.resources.entries)
    (hfits : memAcctReferenceFits s e (rlIsEvictable e) = true) : e.len ≤ resourceScratchSize := by
  by_cases hp : e.pinCount = 0
  · obtain ⟨c, hc, -⟩ := h.block
    obtain ⟨hm, -⟩ := Session.found_of_block hc
    have hev : rlIsEvictable e = true := by rw [rlIsEvictable, hp]; rfl
    rw [memAcctReferenceFits, hm, hev, Bool.not_true, if_neg Bool.false_ne_true, if_pos rfl,
      u32_of_lt (h.deliverable e he).small, memAllocFits, decide_eq_true_eq] at hfits
    have hsize : memBudgetBytes = resourceScratchSize := rfl
    omega
  · exact (h.deliverable e he).pinned hp

end

theorem deliverable_set (h : ∀ e ∈ t.entries, Deliverable env e)
    (he : Deliverable env e) (i : Nat) : ∀ x ∈ (setEntry t i e).entries, Deliverable env x := by
  intro x hx
  rcases mem_or_eq_of_mem_set hx with hx | rfl
  · exact h x hx
  · exact he

theorem deliverable_touch (h : ∀ e ∈ t.entries, Deliverable env e) (i : Nat) :
    ∀ x ∈ (resourceTableTouch t i).entries, Deliverable env x := by
  unfold resourceTableTouch
  split
  · exact h
  · rename_i e he
    have hd := h e (mem_of_getElem? he)
    exact deliverable_set (e := { e with lastAccess := u32 (t.lruClock + 1) }) h
      ⟨hd.small, hd.stored, hd.exact_len, hd.pinned⟩ i

end Relation

/-! ## Calls on both sides -/

inductive ResEvent where
  | pin (handle : Nat)
  | unpin (handle : Nat)
  | evict
  | frame
  /-- the cart's allocations leave this much in use -/
  | heap (used : Nat)
  deriving DecidableEq, Repr

/-- What the cart gets from a call, with the bytes it finds at the pointer of a pin, and the
footprint word after it. -/
structure ResView where
  code : Nat
  len : Option Nat
  bytes : List UInt8
  footprint : Nat
  deriving DecidableEq, Repr

def Session.setHeapUsed (s : Session) (used : Nat) : Session :=
  match s.heap.arena.acct with
  | none => s
  | some c => s.setAcct { c with guestHeapUsed := used }

def hostCall (env : ResEnv) (s : Session) : ResEvent → Session × ResView
  | .pin handle =>
    let (r, s) := resourcePin env false s handle
    (s, ⟨r.code, r.size, readGuest s.gmem r.ptr (r.size.getD 0), publishedWord s.heap.arena⟩)
  | .unpin handle =>
    let (code, s) := resourceUnpin s handle
    (s, ⟨code, none, [], publishedWord s.heap.arena⟩)
  | .evict =>
    let s := (sessionResourceEvictAll s).2
    (s, ⟨0, none, [], publishedWord s.heap.arena⟩)
  | .frame =>
    let s := runFrameEntry s false false
    (s, ⟨0, none, [], publishedWord s.heap.arena⟩)
  | .heap used =>
    let s := s.setHeapUsed used
    (s, ⟨0, none, [], publishedWord s.heap.arena⟩)

/-- `every` is the test hook that evicts at each frame boundary. -/
def nativeCall (env : ResEnv) (every : Bool) (n : NativeRes) : ResEvent → NativeRes × ResView
  | .pin handle =>
    let (r, n) := blytResourcePin env false n handle
    (n, ⟨r.code, r.size, (r.bytes.getD []).take (r.size.getD 0), n.memAcct.nonEvictableFootprint⟩)
  | .unpin handle =>
    let (code, n) := blytResourceUnpin n handle
    (n, ⟨code, none, [], n.memAcct.nonEvictableFootprint⟩)
  | .evict =>
    let n := { n with res := (nativeResourcesEvictAllEvictable n.res).2 }
    (n, ⟨0, none, [], n.memAcct.nonEvictableFootprint⟩)
  | .frame =>
    let n := blytFrameDone every n
    (n, ⟨0, none, [], n.memAcct.nonEvictableFootprint⟩)
  | .heap used =>
    let n := { n with memAcct := { n.memAcct with guestHeapUsed := used } }
    (n, ⟨0, none, [], n.memAcct.nonEvictableFootprint⟩)

/-- The two pins answer alike and lead to states that agree. -/
structure PinsAgree (env : ResEnv) (r : PinResult × Session) (q : NativePin × NativeRes) :
    Prop where
  code : r.1.code = q.1.code
  size : r.1.size = q.1.size
  bytes : readGuest r.2.gmem r.1.ptr (r.1.size.getD 0)
    = (q.1.bytes.getD []).take (q.1.size.getD 0)
  state : Agrees env r.2 q.2

section Calls

variable {env : ResEnv} {s : Session} {n : NativeRes}

section

variable (h : Agrees env s n)
include h

theorem Agrees.refuse (code : Nat) :
    PinsAgree env (⟨code, 0, none⟩, s) (⟨code, none, none⟩, n) := ⟨rfl, rfl, rfl, h⟩

theorem Agrees.pin (handle : Nat) :
    PinsAgree env (resourcePin env false s handle) (blytResourcePin env false n handle) := by
  unfold resourcePin blytResourcePin resResolve
  rw [← h.tables.resolve_eq handle]
  cases resolveResource s.resources handle with
  | none => exact h.refuse 4
  | some i =>
    rcases h.tables.getElem? i with ⟨hn, hn'⟩ | ⟨e, e', he, he', hee⟩
    · simp only [hn, hn']
      exact h.refuse 4
    simp only [he, he']
    have hmem := mem_of_getElem? he
    have hdel := h.deliverable e hmem
    rw [← h.fits hmem hee]
    by_cases hfits : memAcctReferenceFits s e (rlIsEvictable e) = true
    swap
    · rw [Bool.not_eq_true] at hfits
      rw [hfits]
      exact h.refuse 2
    have hroom := h.fits_scratch hmem hfits
    rw [hfits, Bool.not_true, if_neg Bool.false_ne_true, if_neg Bool.false_ne_true,
      nativeResData_eq hee.right (hdel.alike hee)]
    -- both get at the same content, and keep entries that are alike
    obtain ⟨hb, hh, hk⟩ := resourceEntryData_hydrated hee.left
    obtain ⟨hb', hh', hk'⟩ := resourceEntryData_hydrated hee.right
    rw [← hee.content_eq] at hb'
    generalize resourceEntryData env false e = r at hb hh hk ⊢
    generalize resourceEntryData env false e' = r' at hb' hh' hk' ⊢
    obtain ⟨bytes, e1⟩ := r
    obtain ⟨bytes', e1'⟩ := r'
    obtain rfl : bytes = content env e := hb
    obtain rfl : bytes' = content env e := hb'
    have halike : Alike env e1 e1' := ⟨hh, hh', hk.trans (hee.key.trans hk'.symm)⟩
    have hsame : Alike env e e1 := ⟨hee.left, hh, hk.symm⟩
    have hdel1 := hdel.alike hsame
    have hset := h.tables.set halike i
    simp only [← halike.len_eq, ← hsame.len_eq]
    by_cases hbad : (content env e).isNone ∧ e.len ≠ 0
    · have hfoot : resourceTableFootprint (setEntry n.res i e1') = resourceTableFootprint n.res :=
        footprint_setEntry he' (show heldLen (stableKey e1') = heldLen (stableKey e') from
          congrArg heldLen hk')
      have hleft : Agrees env { s with resources := setEntry s.resources i e1 }
          { n with res := setEntry n.res i e1' } :=
        ⟨⟨h.block, h.surf, h.peer, hset, deliverable_set h.deliverable hdel1 i⟩,
          h.hostWord.trans hfoot.symm, h.nativeWord.trans hfoot.symm⟩
      rw [if_pos hbad, if_pos hbad]
      exact hleft.refuse 3
    have hlen := u32_of_lt hdel.small
    have hgot := hdel.length_getD hbad
    rw [if_neg hbad, if_neg hbad, hlen, if_neg (Nat.not_lt.mpr hroom)]
    refine ⟨rfl, rfl, ?_, SideBySide.publish ⟨h.block, h.surf, h.peer, ?_, ?_⟩⟩
    · have htake : ((content env e).getD []).take e.len = (content env e).getD [] := by
        rw [← hgot, take_length]
      show readGuest (memAcctPublishFootprint _).gmem _ e.len
        = ((content env e).getD []).take e.len
      rw [publish_gmem, htake]
      show readGuest (writeGuest s.gmem _ (((content env e).getD []).take e.len)) _ e.len = _
      rw [htake]
      conv_lhs => rw [← hgot]
      exact readGuest_writeGuest _ _ _
    · exact (hset.set halike.pin i).touch i
    · exact deliverable_touch (deliverable_set (deliverable_set h.deliverable hdel1 i)
        (hdel1.pins fun _ => hsame.len_eq ▸ hroom) i) i

theorem Agrees.unpin (handle : Nat) :
    (resourceUnpin s handle).1 = (blytResourceUnpin n handle).1
      ∧ Agrees env (resourceUnpin s handle).2 (blytResourceUnpin n handle).2 := by
  unfold resourceUnpin blytResourceUnpin resResolve
  rw [← h.tables.resolve_eq handle]
  cases resolveResource s.resources handle with
  | none => exact ⟨rfl, h⟩
  | some i =>
    rcases h.tables.getElem? i with ⟨hn, hn'⟩ | ⟨e, e', he, he', hee⟩
    · simp only [hn, hn']
      exact ⟨trivial, h⟩
    simp only [he, he']
    have hdel := h.deliverable e (mem_of_getElem? he)
    rcases hee.unpin with ⟨hu, hu'⟩ | ⟨x, x', hu, hu', hxx⟩
    · simp only [hu, hu']
      exact ⟨trivial, h⟩
    · simp only [hu, hu']
      refine ⟨trivial, SideBySide.publish ⟨h.block, h.surf, h.peer, h.tables.set hxx i,
        deliverable_set h.deliverable ?_ i⟩⟩
      unfold rlUnpin at hu
      split at hu
      · cases hu
      · rename_i hpin
        cases hu
        exact hdel.pins fun _ => hdel.pinned hpin

theorem Agrees.evict :
    Agrees env (sessionResourceEvictAll s).2
      { n with res := (nativeResourcesEvictAllEvictable n.res).2 } := by
  have hnative : AlikeTables env s.resources (nativeResourcesEvictAllEvictable n.res).2 :=
    h.tables.evictAll
  have hhost := h.tables.self_left.evictAll
  refine SideBySide.publish_left ⟨h.block, h.surf, h.peer, (hnative.symm.evictAll).symm,
    hhost.deliverable h.deliverable⟩ (h.nativeWord.trans ?_)
  rw [← hnative.footprint_eq, h.tables.footprint_eq]

theorem Agrees.frame (every : Bool) :
    Agrees env (runFrameEntry s false false) (blytFrameDone every n) := by
  obtain ⟨hinv, hlive⟩ := h.surf.1.reap s.gmem
  have hreleased := h.tables.releasePins
  have hdel : ∀ e ∈ (resourceTableForceReleasePins s.resources).entries, Deliverable env e := by
    intro e he
    obtain ⟨e0, he0, rfl⟩ := List.mem_map.mp he
    exact (h.deliverable e0 he0).pins fun hp => absurd rfl hp
  have hevicted : AlikeTables env (resourceTableForceReleasePins s.resources)
      (if every then (nativeResourcesEvictAllEvictable (resourcesForceReleasePins n.res)).2
        else resourcesForceReleasePins n.res) := by
    cases every with
    | false => exact hreleased
    | true => exact hreleased.evictAll
  have hpub : Agrees env (memAcctPublishFootprint
      { s with resourceScratchOff := 0
               resources := resourceTableForceReleasePins s.resources
               surfaces := surfaceReapSlots s.gmem s.surfaces }) (blytFrameDone every n) :=
    SideBySide.publish ⟨h.block, ⟨hinv, Nat.le_zero.mp (h.surf.2 ▸ hlive)⟩, h.peer, hevicted, hdel⟩
  -- the host publishes a second time
  exact hpub.toSideBySide.publish_left hpub.nativeWord

theorem Agrees.heap (used : Nat) :
    Agrees env (s.setHeapUsed used)
      { n with memAcct := { n.memAcct with guestHeapUsed := used } } := by
  obtain ⟨c, hc, -⟩ := h.block
  obtain ⟨hm, hacct⟩ := Session.found_of_block hc
  have hset : s.setHeapUsed used = s.setAcct { c with guestHeapUsed := used } := by
    rw [Session.setHeapUsed, hacct]
  have hword := h.hostWord
  rw [publishedWord, hacct] at hword
  rw [hset]
  exact ⟨⟨⟨_, if_pos hm, rfl⟩, h.surf, h.peer, h.tables, h.deliverable⟩, hword, h.nativeWord⟩

/-- **One call on both sides**: the same view, and the states still agree. -/
theorem Agrees.step (every : Bool) (ev : ResEvent) :
    (hostCall env s ev).2 = (nativeCall env every n ev).2
      ∧ Agrees env (hostCall env s ev).1 (nativeCall env every n ev).1 := by
  cases ev with
  | pin handle =>
    have hp := h.pin handle
    refine ⟨?_, hp.state⟩
    simp only [hostCall, nativeCall, hp.code, hp.bytes, hp.state.hostWord, hp.state.nativeWord]
    rw [hp.size]
  | unpin handle =>
    obtain ⟨hcode, hp⟩ := h.unpin handle
    refine ⟨?_, hp⟩
    simp only [hostCall, nativeCall, hcode, hp.hostWord, hp.nativeWord]
  | evict =>
    have hp := h.evict
    refine ⟨?_, hp⟩
    simp only [hostCall, nativeCall, hp.hostWord]
    rw [hp.nativeWord.symm]
  | frame =>
    have hp := h.frame every
    refine ⟨?_, hp⟩
    simp only [hostCall, nativeCall, hp.hostWord, hp.nativeWord]
  | heap used =>
    have hp := h.heap used
    refine ⟨?_, hp⟩
    simp only [hostCall, nativeCall, hp.hostWord]
    rw [hp.nativeWord.symm]

end

end Calls

/-! ## Whole runs -/

/-- The session of a cart before its persistent set is preloaded: the accounting block is
there and blank, and the only surface is the screen. -/
structure HostStart (f : Image) (s : Session) : Prop where
  table : s.resources = resourceTableLoadFromCart f
  found : s.memAcct = true
  blank : s.heap.arena.acct = some ⟨0, 0, 0, 0⟩
  screen : ∀ i, (s.surfaces.slots i).inUse = true → (s.surfaces.slots i).isScreen = true
  bytes : s.surfaces.surfaceBytes = 0
  peer : s.peerHeap = 0

section Runs

variable {env : ResEnv} {f : Image}

theorem nativePreloadEntries_eq {es : List ResEntry}
    (h : ∀ e ∈ es, Hydrated env e ∧ Deliverable env e) :
    nativePreloadEntries env false es = preloadEntries env false es := by
  induction es with
  | nil => rfl
  | cons e es ih =>
    obtain ⟨⟨hy, hd⟩, hes⟩ := forall_mem_cons.mp h
    unfold nativePreloadEntries preloadEntries
    rewrite [ih hes, nativeResData_eq hy hd]
    rfl

/-- Both runtimes start or neither does, and if they do they agree. -/
theorem HostStart.agrees {s₀ : Session} (h : HostStart f s₀) (henv : env.Fills)
    (hf : PackedCart f) (ids : List Nat) :
    (sessionCreate env false s₀ ids = none ∧ blytRuntimeStartup env false f ids = none)
      ∨ ∃ s n, sessionCreate env false s₀ ids = some s
        ∧ blytRuntimeStartup env false f ids = some n ∧ Agrees env s n := by
  have hmarked : ∀ e ∈ (resourceTableMarkPersistent (resourceTableLoadFromCart f) ids).entries,
      Hydrated env e ∧ Deliverable env e :=
    markPersistent_forall
      (fun e he => ⟨he.1.mark, he.2.small, he.2.stored, he.2.exact_len, he.2.pinned⟩)
      (fun e he => ⟨loaded_hydrated f e he, hf.deliverable henv e he⟩) ids
  unfold sessionCreate blytRuntimeStartup nativeMarkPersistent nativePreloadPersistent
    nativeResFootprint resourceTablePreloadPersistent
  rw [h.table, hf.tables_eq]
  generalize resourceTableMarkPersistent (resourceTableLoadFromCart f) ids = t at hmarked ⊢
  simp only [nativePreloadEntries_eq hmarked]
  split
  · exact .inl ⟨rfl, rfl⟩
  cases hes : preloadEntries env false t.entries with
  | none => exact .inl ⟨rfl, rfl⟩
  | some =>
    have hdata : ∀ e, Hydrated env e ∧ Deliverable env e →
        Hydrated env (resourceEntryData env false e).2
          ∧ Deliverable env (resourceEntryData env false e).2 := by
      intro e ⟨hy, hd⟩
      obtain ⟨-, hh, hk⟩ := resourceEntryData_hydrated hy
      exact ⟨hh, hd.alike ⟨hy, hh, hk.symm⟩⟩
    have hpre := preload_forall hes rfl (fun _ _ => rfl) hdata hmarked
    refine .inr ⟨_, _, rfl, rfl, SideBySide.publish ⟨⟨⟨0, 0, 0, 0⟩, ?_, rfl⟩,
      surfInv_of_screen h.screen h.bytes, h.peer, ?_, fun e he => (hpre e he).2⟩⟩
    · exact (if_pos h.found).trans h.blank
    · exact AlikeTables.of_hydrated fun e he => (hpre e he).1

/-- **Host and native resource lifecycles agree.** On a packed cart, both runtimes refuse to
start or both start, and then every sequence of pins, unpins, forced evictions, frame
boundaries and changes of the heap in use has the same codes, lengths, bytes and footprints
on both, whatever is evicted in between. -/
theorem resource_lifecycles_agree (henv : env.Fills) (hf : PackedCart f) {s₀ : Session}
    (hstart : HostStart f s₀) (ids : List Nat) (every : Bool) :
    (sessionCreate env false s₀ ids = none ∧ blytRuntimeStartup env false f ids = none)
      ∨ ∃ s n, sessionCreate env false s₀ ids = some s
        ∧ blytRuntimeStartup env false f ids = some n
        ∧ publishedWord s.heap.arena = n.memAcct.nonEvictableFootprint
        ∧ ∀ evs : List ResEvent,
          (traceOf (hostCall env) s evs).2 = (traceOf (nativeCall env every) n evs).2 := by
  rcases hstart.agrees henv hf ids with hnone | ⟨s, n, hs, hn, h⟩
  · exact .inl hnone
  refine .inr ⟨s, n, hs, hn, h.hostWord.trans h.nativeWord.symm, fun evs => ?_⟩
  exact (traceOf_simulation (fun s n ev hsn (_ : True) => hsn.step every ev) h fun _ _ => trivial).1

end Runs

theorem demoEnv_fills : demoEnv.Fills := by
  intro body n bytes h
  obtain ⟨b, -, h⟩ := Option.bind_eq_some_iff.mp h
  split at h <;> cases h
  exact length_replicate

theorem squeezedCart_packed : PackedCart squeezedCart := by
  have hsects : resourceSections squeezedCart = [⟨7, 0x4000, 21⟩] := by decide +kernel
  refine ⟨by decide +kernel, fun sect hsect => ?_⟩
  rw [hsects, mem_singleton] at hsect
  subst hsect
  exact ⟨⟨1, 5, 0x4008, 13⟩, by decide +kernel, by decide, by decide⟩

/-- The pins that are refused are of an absent resource, and one with the heap full. -/
def resourceRun : List ResEvent :=
  [.heap 100, .pin (2 ^ 29 + 7), .evict, .frame, .pin (2 ^ 29 + 7), .unpin (2 ^ 29 + 7), .evict,
   .unpin (2 ^ 29 + 7), .pin (2 ^ 29 + 3), .heap memBudgetBytes, .pin (2 ^ 29 + 7)]

theorem resource_lifecycles_agree_squeezed :
    ∃ s n, sessionCreate demoEnv false squeezedSession [] = some s
      ∧ blytRuntimeStartup demoEnv false squeezedCart [] = some n
      ∧ (traceOf (hostCall demoEnv) s resourceRun).2
        = (traceOf (nativeCall demoEnv true) n resourceRun).2
      ∧ (traceOf (nativeCall demoEnv true) n resourceRun).2.map ResView.code
        = [0, 0, 0, 0, 0, 0, 0, 1, 4, 0, 2] := by
  have hstart : HostStart squeezedCart squeezedSession :=
    ⟨rfl, rfl, rfl, demoSession_new.screen, rfl, rfl⟩
  obtain ⟨n, hn, hcodes⟩ : ∃ n, blytRuntimeStartup demoEnv false squeezedCart [] = some n
      ∧ (traceOf (nativeCall demoEnv true) n resourceRun).2.map ResView.code
        = [0, 0, 0, 0, 0, 0, 0, 1, 4, 0, 2] := by decide +kernel
  rcases resource_lifecycles_agree demoEnv_fills squeezedCart_packed hstart [] true
    with ⟨-, hnone⟩ | ⟨s, n', hs, hn', -, hrun⟩
  · cases hnone.symm.trans hn
  · cases hn'.symm.trans hn
    exact ⟨s, n, hs, hn, hrun resourceRun, hcodes⟩

end Blyt
