import Blyt.Session

/-!
# The unified budget of an emulated session

Over every run of a packed cart: heap, held resources and live surfaces
together stay within the 16 MiB, and the footprint word the guest reads is
never stale. `Ready` is what holds whether or not the word is current;
`BudgetInv` adds the word and the bound, and `publish_budget` is the step from
one to the other that every host call ends with. The steps are proved with a
share `other` of the budget that is used outside the session, as a hybrid cart
needs them; a session that runs alone has `other = 0`.

The allocator keeps its side only for requests that header and rounding do not
push past 32 bits, and for pointers that are held (`SessionOp.Admissible`):
`session_budget_wrap` is a run of plain `malloc` and `free` calls that breaks
the counter with a request just below 2^32.
-/

namespace Blyt

inductive SessionOp where
  | heap (op : ArenaOp)
  | pin (handle : Nat) (oom : Bool)
  | unpin (handle : Nat)
  | surfaceCreate (w h : Int) (oom : Bool)
  | surfaceDestroy (handle : Nat)
  | surfaceAcquire (handle : Nat)
  | surfaceRelease (token : Nat)
  | enterPhase (phase : Phase)
  /-- the guest writes memory outside its heap -/
  | poke (addr : Nat) (v : UInt8)
  | evictAll
  | frame
  deriving DecidableEq, Repr

/-- The guest's `size_t` has 32 bits. -/
def guestSizeMax : Nat := 2 ^ 32 - 1

theorem le_guestSizeMax : 2 ^ 32 ≤ guestSizeMax + 1 := by norm_num [guestSizeMax]

def sessionStep (env : ResEnv) (s : Session) : SessionOp → Option Session
  | .heap op => (heapStep guestSizeMax s.heap op).map fun h => { s with heap := h }
  | .pin handle oom => some (resourcePin env oom s handle).2
  | .unpin handle => some (resourceUnpin s handle).2
  | .surfaceCreate w h oom => some (surfaceCreate oom s w h).2
  | .surfaceDestroy handle => some (surfaceDestroy s handle)
  | .surfaceAcquire handle => some (surfaceAcquire s handle).2
  | .surfaceRelease token => some (surfaceRelease s token)
  | .enterPhase phase => some { s with phase := phase }
  | .poke addr v => some { s with gmem := fill s.gmem addr 1 v }
  | .evictAll => some (sessionResourceEvictAll s).2
  | .frame => some (runFrameEntry s false false)

/-- The calls a guest can make: `libblytc` exports no unaccounted variant, and
a reset is the host's. -/
def ArenaOp.fromGuest : ArenaOp → Bool
  | .mallocNoacct _ | .reallocNoacct _ _ | .reset => false
  | _ => true

/-- A free that the double-free check of `blyt_arena_free` still recognises. -/
def FreedAgain (s : HeapState) : ArenaOp → Prop
  | .free p => p ≠ 0 ∧ (hdrAt s.arena.mem (hdrOff s.arena p)).free ≠ 0
  | _ => False

instance (s : HeapState) (op : ArenaOp) : Decidable (FreedAgain s op) := by
  induction op using ArenaOp.casesOn <;> unfold FreedAgain <;> infer_instance

/-- A guest call whose sizes stay below `limit` and whose pointers are held, or
freed once more in a way the allocator notices. -/
def SessionOp.Admissible (limit : Nat) (s : Session) : SessionOp → Prop
  | .heap op => op.fromGuest = true ∧ (op.Admissible limit s.heap ∨ FreedAgain s.heap op)
  | _ => True

instance (limit : Nat) (s : Session) (op : SessionOp) : Decidable (op.Admissible limit s) := by
  cases op <;> unfold SessionOp.Admissible <;> infer_instance

/-! ## The invariant -/

/-- Everything but the word and the bound. -/
structure Ready (s : Session) (c : MemAccounting) : Prop where
  heap : HeapInv s.heap
  found : s.memAcct = true
  block : s.heap.arena.acct = some c
  baseline : c.guestHeapBaseline = 0
  packed : s.resources.Packed
  surf : SurfInv s.surfaces
  peer : s.peerHeap ≤ memBudgetBytes

/-- The session's bytes and `other` fit in the budget; of a session that runs
alone (`solo`) the word is current. -/
def BudgetInv (other : Nat) (solo : Prop) (s : Session) : Prop :=
  ∃ c, Ready s c
    ∧ (solo → s.peerHeap = 0
      ∧ c.nonEvictableFootprint = heldBytes s.resources + liveSurfaceBytes s.surfaces)
    ∧ memCartHeap c + heldBytes s.resources + liveSurfaceBytes s.surfaces + other
      ≤ memBudgetBytes

/-- The footprint word an arena's gate reads. -/
def publishedWord (a : Arena) : Nat := a.acct.elim 0 MemAccounting.nonEvictableFootprint

theorem HeapInv.setAcct {h : HeapState} (hi : HeapInv h) {c c' : MemAccounting}
    (hc : h.arena.acct = some c) (hu : c'.guestHeapUsed = c.guestHeapUsed) :
    HeapInv { h with arena := { h.arena with acct := some c' } } := by
  obtain ⟨offs, fl, hs, hl⟩ := hi
  have he : ensureReady { h.arena with acct := some c' }
      = { ensureReady h.arena with acct := some c' } := by
    unfold ensureReady
    split <;> rfl
  have hv : { ensureReady h.arena with acct := some c' }.view = (ensureReady h.arena).view := rfl
  refine ⟨offs, fl, ?_, ?_⟩
  · rw [he]
    exact ⟨hv ▸ hs.toThreaded, hs.bump_le⟩
  · rw [he]
    refine hl.same ?_ rfl fun c1 hc1 => ⟨c, by rw [ensureReady_acct, hc], ?_⟩
    · exact ⟨fun _ => Iff.rfl, fun _ _ => ⟨rfl, rfl⟩⟩
    · rw [← Option.some.inj hc1, hu]

section Publish

variable {s : Session} {c : MemAccounting} {other : Nat} {solo : Prop}

theorem memCartHeap_of_baseline (h : c.guestHeapBaseline = 0) :
    memCartHeap c = c.guestHeapUsed := by
  unfold memCartHeap
  split <;> omega

theorem Ready.heapUsed (h : Ready s c) : memAcctGuestHeapUsed s = memCartHeap c := by
  simp [memAcctGuestHeapUsed, h.found, h.block, memCartHeap_of_baseline h.baseline]

theorem Ready.footprint (h : Ready s c)
    (hle : heldBytes s.resources + liveSurfaceBytes s.surfaces ≤ memBudgetBytes) :
    ctxNonEvictableFootprint s
      = heldBytes s.resources + liveSurfaceBytes s.surfaces + s.peerHeap := by
  have hpeer := h.peer
  have hb : memBudgetBytes = 16777216 := rfl
  rw [ctxNonEvictableFootprint, resourceTableFootprint_eq h.packed, h.surf.bytes, u32_of_lt]
  omega

/-- **Publishing makes the word current.** -/
theorem publish_budget (h : Ready s c)
    (hle : memCartHeap c + heldBytes s.resources + liveSurfaceBytes s.surfaces + other
      ≤ memBudgetBytes) (hsolo : solo → s.peerHeap = 0) :
    BudgetInv other solo (memAcctPublishFootprint s) := by
  obtain ⟨t, ht⟩ : ∃ t, t = resourceTableEvictToFit s.resources
    (memCacheRoom c.guestHeapUsed (ctxNonEvictableFootprint s)) := ⟨_, rfl⟩
  have hrefs := ht ▸ resourceTableEvictToFit_refs _ _
  obtain ⟨c', hc'⟩ : ∃ c' : MemAccounting, c' = { c with
      nonEvictableFootprint := ctxNonEvictableFootprint s
      resourceCacheUsed := resourceTableResidentDecompressed t } := ⟨_, rfl⟩
  have heq : memAcctPublishFootprint s = { s with resources := t }.setAcct c' := by
    rw [memAcctPublishFootprint, h.found, hc', ht, h.block]
    rfl
  rw [heq]
  refine ⟨c', ⟨?_, h.found, rfl, ?_, h.packed.congr hrefs, h.surf, h.peer⟩, ?_, ?_⟩
  · exact h.heap.setAcct h.block (by rw [hc'])
  · rw [hc']
    exact h.baseline
  · intro hs
    refine ⟨hsolo hs, ?_⟩
    show c'.nonEvictableFootprint = heldBytes t + liveSurfaceBytes s.surfaces
    rw [heldBytes_congr hrefs, hc']
    exact (h.footprint (by omega)).trans (by rw [hsolo hs, Nat.add_zero])
  · show memCartHeap c' + heldBytes t + liveSurfaceBytes s.surfaces + other ≤ memBudgetBytes
    rw [heldBytes_congr hrefs, hc']
    exact hle

end Publish

/-! ## The steps -/

section Steps

variable {s : Session} {c : MemAccounting} {other : Nat} {solo : Prop}

/-- Bytes may move in and out of the caches, and fields the budget does not
read may change. -/
theorem BudgetInv.congr {s' : Session} (h : BudgetInv other solo s) (hheap : s'.heap = s.heap)
    (hfound : s'.memAcct = s.memAcct) (hrefs : s'.resources.refs = s.resources.refs)
    (hsurf : SurfInv s'.surfaces ∧ liveSurfaceBytes s'.surfaces = liveSurfaceBytes s.surfaces)
    (hpeer : s'.peerHeap = s.peerHeap) : BudgetInv other solo s' := by
  obtain ⟨c, hr, hword, hle⟩ := h
  refine ⟨c, ⟨hheap ▸ hr.heap, hfound.trans hr.found, ?_, hr.baseline, hr.packed.congr hrefs,
    hsurf.1, hpeer ▸ hr.peer⟩, ?_, ?_⟩
  · rw [hheap]
    exact hr.block
  · rw [heldBytes_congr hrefs, hsurf.2, hpeer]
    exact hword
  · rw [heldBytes_congr hrefs, hsurf.2]
    exact hle

theorem HeapInv.freeAgain {h : HeapState} (hi : HeapInv h) {op : ArenaOp}
    (hop : FreedAgain h op) : heapStep guestSizeMax h op = some h := by
  cases op with
  | free p =>
    obtain ⟨hp0, hfr⟩ := hop
    have hfree : arenaFree h.arena p = some h.arena := by
      simp only [arenaFree, if_neg hp0]
      rw [if_pos hfr]
    have hdrop : dropLive p h.live = h.live := by
      refine List.eraseP_of_forall_not fun b hb => ?_
      simp only [decide_eq_true_eq]
      rintro rfl
      obtain ⟨-, offs, fl, o, -, -, ho⟩ := hi.of_live hb
      rw [ho.hdrOff] at hfr
      exact hfr ho.inUse.2
    simp [heapStep, hfree, hdrop]
  | _ => exact hop.elim

/-- **The heap's side.** The arena's gate adds the published word, and the word
is current. -/
theorem BudgetInv.heapOp (h : BudgetInv other solo s) {op : ArenaOp}
    (hop : (SessionOp.heap op).Admissible (2 ^ 32 - 31) s)
    (hgate : heldBytes s.resources + liveSurfaceBytes s.surfaces + other
      ≤ publishedWord s.heap.arena) :
    ∃ h', heapStep guestSizeMax s.heap op = some h'
      ∧ BudgetInv other solo { s with heap := h' } := by
  obtain ⟨c, hr, hword, hle⟩ := h
  obtain ⟨hg, hadm | hagain⟩ := hop
  · obtain ⟨h', hstep, hi, hacct⟩ :=
      heapStep_spec le_guestSizeMax (by norm_num)
        s.heap op hr.heap hadm
    obtain ⟨c', hc', hf, -, hb, hbound⟩ := hacct (fun he => by simp [he, ArenaOp.fromGuest] at hg)
      c hr.block
    refine ⟨h', hstep, c', ⟨hi, hr.found, hc', hb.trans hr.baseline, hr.packed, hr.surf, hr.peer⟩,
      fun hs => ⟨(hword hs).1, hf.trans (hword hs).2⟩, ?_⟩
    rw [publishedWord, hr.block, Option.elim_some] at hgate
    show memCartHeap c' + heldBytes s.resources + liveSurfaceBytes s.surfaces + other
      ≤ memBudgetBytes
    omega
  · exact ⟨s.heap, hr.heap.freeAgain hagain, c, hr, hword, hle⟩

theorem Ready.fits (h : Ready s c)
    (hle : heldBytes s.resources + liveSurfaceBytes s.surfaces ≤ memBudgetBytes) {n : Nat}
    (hfit : memAllocFits (memAcctGuestHeapUsed s) (ctxNonEvictableFootprint s) n = true) :
    memCartHeap c + heldBytes s.resources + liveSurfaceBytes s.surfaces + s.peerHeap + n
      ≤ memBudgetBytes := by
  rw [h.heapUsed, h.footprint hle] at hfit
  have := of_decide_eq_true hfit
  omega

section

variable (h : BudgetInv other solo s)
include h

/-- A host call that gives nothing new away: publishing keeps the budget. -/
theorem BudgetInv.release {s' : Session} (hheap : s'.heap = s.heap)
    (hfound : s'.memAcct = s.memAcct) (hpeer : s'.peerHeap = s.peerHeap)
    (hres : s'.resources.Packed ∧ heldBytes s'.resources ≤ heldBytes s.resources)
    (hsurf : SurfInv s'.surfaces
      ∧ liveSurfaceBytes s'.surfaces ≤ liveSurfaceBytes s.surfaces) :
    BudgetInv other solo (memAcctPublishFootprint s') := by
  obtain ⟨c, hr, hword, hle⟩ := h
  have hr' : Ready s' c := by
    refine ⟨hheap ▸ hr.heap, hfound.trans hr.found, ?_, hr.baseline, hres.1, hsurf.1,
      hpeer ▸ hr.peer⟩
    rw [hheap]
    exact hr.block
  refine publish_budget hr' ?_ fun hs => hpeer.trans (hword hs).1
  omega

theorem BudgetInv.pin (hpeer : other ≤ s.peerHeap) (env : ResEnv)
    (oom : Bool) (handle : Nat) : BudgetInv other solo (resourcePin env oom s handle).2 := by
  unfold resourcePin
  cases hres : resolveResource s.resources handle with
  | none => exact h
  | some i =>
    simp only
    cases hi : s.resources.entries[i]? with
    | none => exact h
    | some e =>
      simp only
      split
      · exact h
      rename_i hfits
      obtain ⟨c, hr, hword, hle⟩ := id h
      have hkey := resourceEntryData_refKey env oom (hr.packed.noFile e (List.mem_of_getElem? hi))
      generalize resourceEntryData env oom e = r at hkey ⊢
      obtain ⟨bytes, e1⟩ := r
      have hlt := hr.packed.len_lt (List.mem_of_getElem? hi)
      have hmid : BudgetInv other solo { s with resources := setEntry s.resources i e1 } :=
        h.congr rfl rfl (setEntry_refs hi hkey) ⟨hr.surf, rfl⟩ rfl
      split
      · exact hmid
      split
      · exact hmid
      -- the entry now holds its length, which the gate has found room for
      obtain ⟨hpk, hheld⟩ := hr.packed.pin hi hkey
      rw [scratchPlace]
      generalize resourceTableTouch (setEntry (setEntry s.resources i e1) i (rlPin e1)) i = t
        at hpk hheld ⊢
      have hfit := hr.fits (by omega) (by simpa [memAcctReferenceFits, hr.found] using hfits)
      refine publish_budget ⟨hr.heap, hr.found, hr.block, hr.baseline, hpk, hr.surf, hr.peer⟩ ?_
        (fun hs => (hword hs).1)
      show memCartHeap c + heldBytes t + liveSurfaceBytes s.surfaces + other ≤ memBudgetBytes
      cases hev : rlIsEvictable e with
      | true =>
        rw [hev, if_pos rfl, u32_of_lt hlt] at hfit
        omega
      | false =>
        have := heldLen_of_pinned hev
        omega

theorem BudgetInv.unpin (handle : Nat) : BudgetInv other solo (resourceUnpin s handle).2 := by
  have hpk := h.choose_spec.1.packed
  have hsf := h.choose_spec.1.surf
  unfold resourceUnpin
  split
  · exact h
  · split
    · exact h
    · rename_i i _ _ e hi
      split
      · exact h
      · rename_i e' he'
        exact h.release rfl rfl rfl (hpk.unpin hi he') ⟨hsf, le_rfl⟩

theorem BudgetInv.evictAll : BudgetInv other solo (sessionResourceEvictAll s).2 := by
  have hrefs := resourceTableEvictAllEvictable_refs s.resources
  have hpk := h.choose_spec.1.packed.congr hrefs
  exact h.release rfl rfl rfl ⟨hpk, (heldBytes_congr hrefs).le⟩ ⟨h.choose_spec.1.surf, le_rfl⟩

end

/-! The surface calls. A refused call only sets the fault flag. -/

section

variable (h : BudgetInv other solo s)
include h

theorem BudgetInv.phaseGate : BudgetInv other solo (surfacePhaseGate s).2 := by
  unfold surfacePhaseGate
  split
  · exact h
  · split
    · exact h.congr rfl rfl rfl ⟨h.choose_spec.1.surf, rfl⟩ rfl
    · exact h

theorem BudgetInv.lockGate (slot : Option (Fin surfaceMax)) :
    BudgetInv other solo (surfaceLockGate s slot).2 := by
  unfold surfaceLockGate
  split
  · split
    · exact h.congr rfl rfl rfl ⟨h.choose_spec.1.surf, rfl⟩ rfl
    · exact h
  · exact h

theorem BudgetInv.createSlot (hpeer : other ≤ s.peerHeap) (oom : Bool)
    (w ht : Int) : BudgetInv other solo (surfaceCreateSlot oom s w ht).2 := by
  unfold surfaceCreateSlot
  split
  · exact h
  split
  · exact h
  rename_i hfits
  split
  · exact h
  rename_i i hi
  split
  · exact h
  obtain ⟨c, hr, hword, hle⟩ := h
  have hb : memBudgetBytes = 16777216 := rfl
  have hfit := hr.fits (by omega) (by simpa using hfits)
  have hbytes := hr.surf.bytes
  have hw : 0 < w := by omega
  have hw' : w ≤ surfaceMaxDim := by omega
  have hh : 0 < ht := by omega
  have hh' : ht ≤ surfaceMaxDim := by omega
  obtain ⟨hs, hlive⟩ := hr.surf.occupy (firstFreeSlot_free hi) hw hw' hh hh' (by omega)
  generalize surfaceOccupy s.surfaces i w ht = r at hs hlive ⊢
  refine publish_budget ⟨hr.heap, hr.found, hr.block, hr.baseline, hr.packed, hs, hr.peer⟩ ?_ ?_
  · show memCartHeap c + heldBytes s.resources + liveSurfaceBytes r + other ≤ memBudgetBytes
    omega
  · exact fun hs => (hword hs).1

theorem BudgetInv.create (hpeer : other ≤ s.peerHeap) (oom : Bool)
    (w ht : Int) : BudgetInv other solo (surfaceCreate oom s w ht).2 := by
  have hgate := h.phaseGate
  unfold surfaceCreate
  by_cases hp : s.phase = .draw
  · rw [surfacePhaseGate, if_pos hp]
    exact h.createSlot hpeer oom w ht
  · rw [surfacePhaseGate, if_neg hp] at hgate ⊢
    exact hgate

theorem BudgetInv.destroy (handle : Nat) : BudgetInv other solo (surfaceDestroy s handle) := by
  have hgate := h.lockGate (resolveSurface s.surfaces handle)
  unfold surfaceDestroy
  simp only
  generalize surfaceLockGate s (resolveSurface s.surfaces handle) = g at hgate ⊢
  obtain ⟨ok, s'⟩ := g
  cases ok with
  | false => exact hgate
  | true =>
    have hr := hgate.choose_spec.1
    cases resolveSurface s.surfaces handle with
    | none => exact hgate
    | some i =>
      simp only
      split
      · exact hgate
      · exact hgate.release rfl rfl rfl ⟨hr.packed, le_rfl⟩ (hr.surf.freeSlot i)

theorem BudgetInv.acquireLock (handle : Nat) (clearOnly : Bool) :
    BudgetInv other solo (surfaceAcquireLock s handle clearOnly).2 := by
  unfold surfaceAcquireLock
  split
  · exact h
  rename_i i _
  simp only
  split
  · exact h
  split
  · exact h
  have hsf := h.choose_spec.1.surf
  exact h.congr rfl rfl rfl (hsf.setSame (s := { s.surfaces.slots i with
    locked := true, lockPhantom := clearOnly
    lockVaddr := lockArenaBase + s.surfaces.lockBump
    lockLen := slotArea (s.surfaces.slots i).w (s.surfaces.slots i).h })
    (hsf.slots i) rfl rfl rfl) rfl

theorem BudgetInv.acquire (handle : Nat) : BudgetInv other solo (surfaceAcquire s handle).2 := by
  have hgate := h.phaseGate
  unfold surfaceAcquire
  generalize surfacePhaseGate s = g at hgate ⊢
  obtain ⟨ok, s'⟩ := g
  cases ok with
  | true => exact hgate.acquireLock handle false
  | false =>
    simp only
    split
    · exact hgate
    · exact hgate.acquireLock handle true

theorem BudgetInv.releaseLock (token : Nat) : BudgetInv other solo (surfaceRelease s token) := by
  unfold surfaceRelease
  split
  · exact h
  · exact h.congr rfl rfl rfl (h.choose_spec.1.surf.flushLock s.gmem _) rfl

theorem BudgetInv.frame (rcResuming fnCall : Bool) :
    BudgetInv other solo (runFrameEntry s rcResuming fnCall) := by
  obtain ⟨c, hr, -, -⟩ := id h
  have hagain : ∀ {s' : Session}, BudgetInv other solo s' →
      BudgetInv other solo (memAcctPublishFootprint s') :=
    fun h' => h'.release rfl rfl rfl ⟨h'.choose_spec.1.packed, le_rfl⟩
      ⟨h'.choose_spec.1.surf, le_rfl⟩
  cases rcResuming with
  | true =>
    cases fnCall with
    | true => exact hagain h
    | false => exact hagain (h.release rfl rfl rfl ⟨hr.packed, le_rfl⟩ (hr.surf.reap s.gmem))
  | false =>
    have hfree := And.intro hr.packed.forceReleasePins (heldBytes_forceReleasePins s.resources)
    cases fnCall with
    | true => exact h.release rfl rfl rfl hfree ⟨hr.surf, le_rfl⟩
    | false => exact hagain (h.release rfl rfl rfl hfree (hr.surf.reap s.gmem))

end

end Steps

/-- What a call's gate knows of the rest: the arena reads the published word,
the host's own checks add the other half's heap as it was last told. -/
def SessionOp.GateSees (other : Nat) (s : Session) : SessionOp → Prop
  | .heap _ =>
    heldBytes s.resources + liveSurfaceBytes s.surfaces + other ≤ publishedWord s.heap.arena
  | .pin _ _ | .surfaceCreate _ _ _ => other ≤ s.peerHeap
  | _ => True

instance (other : Nat) (s : Session) (op : SessionOp) : Decidable (op.GateSees other s) := by
  cases op <;> unfold SessionOp.GateSees <;> infer_instance

variable {s : Session}

/-- **Every step keeps the budget**, if its gate sees the rest. -/
theorem sessionStep_budget (env : ResEnv) {other : Nat} {solo : Prop}
    {op : SessionOp} (h : BudgetInv other solo s) (hop : op.Admissible (2 ^ 32 - 31) s)
    (hsees : op.GateSees other s) :
    ∃ s', sessionStep env s op = some s' ∧ BudgetInv other solo s' := by
  have hsurf : SurfInv s.surfaces ∧ liveSurfaceBytes s.surfaces = liveSurfaceBytes s.surfaces :=
    ⟨h.choose_spec.1.surf, rfl⟩
  cases op with
  | heap =>
    obtain ⟨h', hstep, hi⟩ := h.heapOp hop hsees
    exact ⟨_, by simp [sessionStep, hstep], hi⟩
  | pin handle oom => exact ⟨_, rfl, h.pin hsees env oom handle⟩
  | unpin handle => exact ⟨_, rfl, h.unpin handle⟩
  | surfaceCreate w ht oom => exact ⟨_, rfl, h.create hsees oom w ht⟩
  | surfaceDestroy handle => exact ⟨_, rfl, h.destroy handle⟩
  | surfaceAcquire handle => exact ⟨_, rfl, h.acquire handle⟩
  | surfaceRelease token => exact ⟨_, rfl, h.releaseLock token⟩
  | enterPhase phase | poke addr v => exact ⟨_, rfl, h.congr rfl rfl rfl hsurf rfl⟩
  | evictAll => exact ⟨_, rfl, h.evictAll⟩
  | frame => exact ⟨_, rfl, h.frame false false⟩

/-- Alone, a session's gates always see everything. -/
theorem BudgetInv.gateSees (h : BudgetInv 0 True s) (op : SessionOp) : op.GateSees 0 s := by
  obtain ⟨c, hr, hword, -⟩ := h
  cases op with
  | heap =>
    show heldBytes s.resources + liveSurfaceBytes s.surfaces + 0 ≤ publishedWord s.heap.arena
    rw [publishedWord, hr.block, Option.elim_some, (hword trivial).2, Nat.add_zero]
  | pin handle oom | surfaceCreate w ht oom => exact Nat.zero_le _
  | _ => trivial

/-! ## Whole runs -/

/-- A packed cart's session before its persistent set is preloaded: the
accounting block is there and blank, and the only surface is the screen. -/
structure NewSession (s : Session) : Prop where
  fresh : s.heap.arena.Fresh
  live : s.heap.live = []
  found : s.memAcct = true
  block : s.heap.arena.acct = some ⟨0, 0, 0, 0⟩
  packed : s.resources.Packed
  screen : ∀ i, (s.surfaces.slots i).inUse = true → (s.surfaces.slots i).isScreen = true
  bytes : s.surfaces.surfaceBytes = 0
  peer : s.peerHeap = 0

theorem NewSession.surf (h : NewSession s) :
    SurfInv s.surfaces ∧ liveSurfaceBytes s.surfaces = 0 := surfInv_of_screen h.screen h.bytes

theorem NewSession.budget {env : ResEnv} {oom : Bool} {s₀ : Session} {ids : List Nat}
    (h : NewSession s₀) (hcreate : sessionCreate env oom s₀ ids = some s) : BudgetInv 0 True s := by
  obtain ⟨t, ht, rfl⟩ := Option.map_eq_some_iff.mp hcreate
  obtain ⟨hpk, hheld⟩ := h.packed.preloaded ht
  have hheap : HeapInv s₀.heap := by
    have := h.fresh.heapInv
    rwa [← h.live] at this
  refine publish_budget ⟨hheap, h.found, h.block, rfl, hpk, h.surf.1, h.peer ▸ Nat.zero_le _⟩ ?_
    fun _ => h.peer
  show memCartHeap ⟨0, 0, 0, 0⟩ + heldBytes t + liveSurfaceBytes s₀.surfaces + 0
    ≤ memBudgetBytes
  have hblank : memCartHeap ⟨0, 0, 0, 0⟩ = 0 := rfl
  rw [h.surf.2]
  omega

/-- The bound and the published word, as the guest and the host see them. -/
def BudgetOK (s : Session) : Prop :=
  ∃ c, s.heap.arena.acct = some c
    ∧ memCartHeap c + heldBytes s.resources + liveSurfaceBytes s.surfaces ≤ memBudgetBytes
    ∧ c.nonEvictableFootprint = heldBytes s.resources + liveSurfaceBytes s.surfaces

instance (s : Session) : Decidable (BudgetOK s) :=
  decidable_of_iff ((s.heap.arena.acct.any fun c => decide
    (memCartHeap c + heldBytes s.resources + liveSurfaceBytes s.surfaces ≤ memBudgetBytes
      ∧ c.nonEvictableFootprint = heldBytes s.resources + liveSurfaceBytes s.surfaces)) = true)
    (by simp [Option.any_eq_true, BudgetOK])

/-- **The unified budget.** In every state a created session reaches, cart heap,
held resources and live surfaces fit in the budget and the published footprint
is current - provided the guest asks for at most 2^32 - 32 bytes at a time and
hands back pointers it holds. -/
theorem sessionRun_budget {env : ResEnv} {oom : Bool} {s₀ s : Session} {ids : List Nat}
    (hnew : NewSession s₀) (hcreate : sessionCreate env oom s₀ ids = some s) {ops : List SessionOp}
    (hadm : AdmRun (sessionStep env) (fun s op => op.Admissible (2 ^ 32 - 31) s) s ops) :
    ∃ s', runSteps (sessionStep env) s ops = some s' ∧ BudgetOK s' := by
  obtain ⟨s', hrun, c, hr, hword, hle⟩ :=
    runSteps_inv (fun s op h hop => sessionStep_budget env h hop (h.gateSees op))
      (hnew.budget hcreate) hadm
  rw [Nat.add_zero] at hle
  exact ⟨s', hrun, c, hr.block, hle, (hword trivial).2⟩

/-- A compressed resource of zeros. -/
def demoEntry (id len : Nat) : ResEntry :=
  ⟨id, none, len, false, resAlgoZstd, runFrame len 0, none, 0, false, 0⟩

def demoSlot : SurfaceSlot where
  pixels := none
  w := 0
  h := 0
  gen := 0
  inUse := false
  isScreen := false
  owned := false
  locked := false
  lockPhantom := false
  lockDirect := false
  lockGen := 0
  lockVaddr := 0
  lockLen := 0

def demoSession : Session where
  heap := ⟨demoArena, []⟩
  memAcct := true
  resources := ⟨[demoEntry 5 4, demoEntry 7 4], 0⟩
  resourceScratchOff := 0
  surfaces := ⟨fun i => if i = 0 then { demoSlot with inUse := true, isScreen := true }
    else demoSlot,
    0, 0, 0⟩
  phase := .none
  cartIsDebug := false
  devFault := false
  peerHeap := 0
  gmem := fun _ => 0

theorem demoSession_new : NewSession demoSession := by
  refine ⟨⟨rfl, by rintro c ⟨⟩; rfl⟩, rfl, rfl, rfl, ⟨by decide, by decide⟩, ?_, rfl, rfl⟩
  intro i
  simp only [demoSession]
  split
  · exact fun _ => rfl
  · exact fun h => by cases h

/-- Resource 5 is pinned (7 is persistent), a surface comes and goes. -/
def demoSessionOps : List SessionOp :=
  [.heap (.malloc 100), .pin (2 ^ 29 + 5) false, .enterPhase .draw, .surfaceCreate 16 8 false,
   .surfaceAcquire (surfaceEncode 0 1), .evictAll, .heap (.calloc 3 8), .unpin (2 ^ 29 + 5),
   .heap (.free 0x04000010), .heap (.free 0x04000010), .frame, .heap (.realloc 0 (2 ^ 32 - 32))]

theorem sessionRun_budget_demo : ∃ s s', sessionCreate demoEnv false demoSession [7] = some s
    ∧ runSteps (sessionStep demoEnv) s demoSessionOps = some s' ∧ BudgetOK s' := by
  obtain ⟨s, hs, hadm⟩ : ∃ s, sessionCreate demoEnv false demoSession [7] = some s
      ∧ AdmRun (sessionStep demoEnv) (fun s op => op.Admissible (2 ^ 32 - 31) s) s
        demoSessionOps := by decide +kernel
  obtain ⟨s', hrun, hok⟩ := sessionRun_budget demoSession_new hs hadm
  exact ⟨s, s', hs, hrun, hok⟩

/-- The second request wraps to a block of size 0, so the third gets the same
address; after both are freed around a merge the counter is below zero. -/
def wrapOps : List SessionOp :=
  [.heap (.malloc 1), .heap (.malloc 0xFFFFFFF0), .heap (.malloc 1), .heap (.free 0x04000030),
   .heap (.free 0x04000010), .heap (.free 0x04000030)]

theorem session_budget_wrap : NewSession demoSession
    ∧ ∃ s s', sessionCreate demoEnv false demoSession [] = some s
      ∧ AdmRun (sessionStep demoEnv) (fun s op => op.Admissible (2 ^ 32) s) s wrapOps
      ∧ runSteps (sessionStep demoEnv) s wrapOps = some s' ∧ ¬ BudgetOK s' := by
  obtain ⟨s, hs, hadm, s', hrun⟩ : ∃ s, sessionCreate demoEnv false demoSession [] = some s
      ∧ AdmRun (sessionStep demoEnv) (fun s op => op.Admissible (2 ^ 32) s) s wrapOps
      ∧ ∃ s', runSteps (sessionStep demoEnv) s wrapOps = some s' ∧ ¬ BudgetOK s' := by
    decide +kernel
  exact ⟨demoSession_new, s, s', hs, hadm, hrun⟩

end Blyt
