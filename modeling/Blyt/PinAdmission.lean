import Blyt.ResourceAgree
import Blyt.SurfaceSound

/-!
# What a pin is admitted for

A pin should be granted exactly if cart heap, surfaces and the resources that are held
once it is granted fit in the budget. The gates before it decide with a sum of their own:
the footprint as it is, and the whole length of an entry that has no pin yet. `recounted` is
what that sum has too much, `unseen` what it misses:

- a persistent entry is in the footprint from the start, and its first pin adds it again;
- the native gate leaves the surfaces out;
- the footprint is a 32-bit sum, and the count of pins a 32-bit count;
- a session whose libraries have no accounting block has no gate.

`pin_admission_iff` says that a pin is decided right exactly if the two sums are on the same
side of the budget, in every state that either runtime reaches.
-/

namespace Blyt

open List Option MemAccounting

/-! ## The two sums -/

/-- The length of an entry that the gate adds though the pin does not: it is held anyway, or
the pin is the one that wraps the count to zero. -/
def recounted (e : ResEntry) : Nat :=
  if e.persistent then (if e.pinCount = 0 then e.len else 0)
  else if e.pinCount + 1 = 2 ^ 32 then e.len else 0

/-- The sum that decides is `extra` too high and `unseen` too low. The real one is neither in
the window below the budget where that is too much, nor in the one above it where it is not. -/
def SameSide (sum extra unseen : Nat) : Prop :=
  ¬ (sum ≤ memBudgetBytes ∧ memBudgetBytes + unseen < sum + extra)
    ∧ ¬ (memBudgetBytes < sum ∧ sum + extra ≤ memBudgetBytes + unseen)

theorem sameSide_iff {sum extra unseen : Nat} : SameSide sum extra unseen
    ↔ (sum + extra ≤ memBudgetBytes + unseen ↔ sum ≤ memBudgetBytes) := by
  unfold SameSide
  omega

instance (sum extra unseen : Nat) : Decidable (SameSide sum extra unseen) := by
  unfold SameSide
  infer_instance

/-- The multiples of `2 ^ 32` that a 32-bit sum loses. -/
def wrapped (n : Nat) : Nat := 2 ^ 32 * (n / 2 ^ 32)

theorem u32_add_wrapped (n : Nat) : u32 n + wrapped n = n := Nat.mod_add_div n (2 ^ 32)

/-- What is held once entry `i` has one more pin. -/
def heldAfter (t : ResTable) (i : Nat) (e : ResEntry) : Nat := heldBytes (setEntry t i (rlPin e))

section Sums

variable {t : ResTable} {i : Nat} {e : ResEntry}

theorem heldLen_pin (hcount : e.pinCount < 2 ^ 32) :
    heldLen e + (if rlIsEvictable e then e.len else 0) = heldLen (rlPin e) + recounted e := by
  unfold heldLen rlIsEvictable rlPin recounted u32
  cases e.persistent with
  | true => by_cases h0 : e.pinCount = 0 <;> simp [h0]
  | false =>
    by_cases h0 : e.pinCount = 0
    · simp [h0]
    · by_cases hlast : e.pinCount + 1 = 2 ^ 32
      · simp [h0, hlast]
      · have hmod : (e.pinCount + 1) % 2 ^ 32 = e.pinCount + 1 := Nat.mod_eq_of_lt (by omega)
        simp only [hmod, hlast]
        simp [h0]

/-- What the gate adds is what the pin adds and what it recounts. -/
theorem heldBytes_charge (hi : t.entries[i]? = some e) (hcount : e.pinCount < 2 ^ 32) :
    heldBytes t + (if rlIsEvictable e then e.len else 0) = heldAfter t i e + recounted e := by
  have hset := heldBytes_setEntry (rlPin e) hi
  have hpin := heldLen_pin hcount
  unfold heldAfter
  omega

end Sums

/-! ## What the books say -/

/-- Lengths and counts are those of 32-bit fields, and a staging file has kept its length. -/
structure ResEntry.Countable (env : ResEnv) (e : ResEntry) : Prop where
  len_lt : e.len < 2 ^ 32
  count_lt : e.pinCount < 2 ^ 32
  fileLen : e.FileLen env

/-- What a pin goes by, but for the surfaces and the heap's own word. -/
structure Books where
  refs : List ResEntry
  memAcct : Bool
  peerHeap : Nat
  scratchOff : Nat
  baseline : Option Nat

structure Books.OK (env : ResEnv) (b : Books) : Prop where
  refs : ∀ e ∈ b.refs, e.Countable env
  peer : b.peerHeap = 0
  scratch : b.scratchOff ≤ resourceScratchSize
  baseline : b.baseline = if b.memAcct then some 0 else none

def Session.books (s : Session) : Books where
  refs := s.resources.refs
  memAcct := s.memAcct
  peerHeap := s.peerHeap
  scratchOff := s.resourceScratchOff
  baseline := s.heap.arena.acct.map guestHeapBaseline

/-- Cart heap, surfaces and held resources as they would be after the pin. -/
def Session.afterPin (s : Session) (i : Nat) (e : ResEntry) : Nat :=
  s.cartHeap + liveSurfaceBytes s.surfaces + heldAfter s.resources i e

/-- What the footprint loses of the bytes it is a sum of. -/
def Session.unseen (s : Session) : Nat :=
  wrapped (heldBytes s.resources + liveSurfaceBytes s.surfaces)

/-- The entry has bytes to serve, or needs none. -/
def Delivered (r : Option (List UInt8) × ResEntry) : Prop := r.1.isSome = true ∨ r.2.len = 0

section Books

variable {env : ResEnv} {t t' : ResTable} {s : Session} {i : Nat} {e e' : ResEntry}

theorem ResEntry.Countable.of_key (h : e.Countable env) (hk : refKey e' = refKey e) :
    e'.Countable env := by
  have hlen : e'.len = e.len := show (refKey e').len = (refKey e).len from congrArg _ hk
  have hcount : e'.pinCount = e.pinCount :=
    show (refKey e').pinCount = (refKey e).pinCount from congrArg ResEntry.pinCount hk
  have hsrc : e'.srcPath = e.srcPath :=
    show (refKey e').srcPath = (refKey e).srcPath from congrArg ResEntry.srcPath hk
  refine ⟨hlen ▸ h.len_lt, hcount ▸ h.count_lt, fun path buf hp hb => ?_⟩
  rw [hlen]
  exact h.fileLen path buf (hsrc ▸ hp) hb

theorem countable_refs (h : ∀ e ∈ t.entries, e.Countable env) : ∀ e ∈ t.refs, e.Countable env := by
  intro e he
  obtain ⟨e0, he0, rfl⟩ := List.mem_map.mp he
  exact (h e0 he0).of_key rfl

theorem countable_of_refs (h : ∀ e ∈ t.refs, e.Countable env) : ∀ e ∈ t.entries, e.Countable env :=
  fun e he => (h (refKey e) (List.mem_map_of_mem he)).of_key rfl

/-- The pin counts of a table may change one at a time, within 32 bits. -/
theorem countable_setEntry (h : ∀ e ∈ t.refs, e.Countable env)
    (he' : e'.Countable env) : ∀ e ∈ (setEntry t i e').refs, e.Countable env := by
  refine countable_refs fun x hx => ?_
  rcases mem_or_eq_of_mem_set hx with hx | rfl
  · exact countable_of_refs h x hx
  · exact he'

theorem Books.OK.cartHeap (h : s.books.OK env) : memAcctGuestHeapUsed s = s.cartHeap := by
  have hbase : s.heap.arena.acct.map guestHeapBaseline
      = if s.memAcct then some 0 else none := h.baseline
  unfold memAcctGuestHeapUsed Session.cartHeap
  cases hm : s.memAcct with
  | false =>
    rw [hm] at hbase
    rw [map_eq_none_iff.mp hbase]
    rfl
  | true =>
    rw [hm] at hbase
    obtain ⟨c, hc, hzero⟩ := map_eq_some_iff.mp hbase
    rw [hc]
    exact (memCartHeap_of_baseline hzero).symm

/-- **The emulated gate**: it lets a pin through if there is no accounting block, or if what it
recounts fits as well. -/
theorem referenceFits_iff (h : s.books.OK env) (hsurf : SurfInv s.surfaces)
    (hi : s.resources.entries[i]? = some e) :
    memAcctReferenceFits s e (rlIsEvictable e) = true
      ↔ (s.memAcct = true → s.afterPin i e + recounted e ≤ memBudgetBytes + s.unseen) := by
  have he := countable_of_refs h.refs e (mem_of_getElem? hi)
  have hfoot : ctxNonEvictableFootprint s + s.unseen
      = heldBytes s.resources + liveSurfaceBytes s.surfaces := by
    have hpeer : s.peerHeap = 0 := h.peer
    have hadd := Nat.mod_add_mod (heldBytes s.resources) (2 ^ 32) (liveSurfaceBytes s.surfaces)
    rw [ctxNonEvictableFootprint, resourceTableFootprint_mod, hsurf.bytes, hpeer, Nat.add_zero,
      u32, hadd]
    exact u32_add_wrapped _
  unfold memAcctReferenceFits
  cases hm : s.memAcct with
  | false => simp
  | true =>
    have hcharge := heldBytes_charge hi he.count_lt
    simp only [Bool.not_true, Bool.false_eq_true, if_false, true_imp_iff, memAllocFits,
      decide_eq_true_eq, h.cartHeap, u32_of_lt he.len_lt, Session.afterPin]
    omega

theorem Delivered.not_missing {r : Option (List UInt8) × ResEntry} (h : Delivered r) :
    ¬ (r.1.isNone = true ∧ r.2.len ≠ 0) := by
  rintro ⟨hnone, hne⟩
  rcases h with h | h
  · rw [isNone_iff_eq_none.mp hnone] at h
    cases h
  · exact hne h

/-- A pin that can be delivered succeeds if the gate lets it through. -/
theorem resourcePin_code_iff {oom : Bool} {handle : Nat}
    (hres : resolveResource s.resources handle = some i) (hi : s.resources.entries[i]? = some e)
    (he : e.Countable env) (hdel : Delivered (resourceEntryData env oom e))
    (hfit : e.len ≤ resourceScratchSize) :
    (resourcePin env oom s handle).1.code = 0
      ↔ memAcctReferenceFits s e (rlIsEvictable e) = true := by
  unfold resourcePin
  simp only [hres, hi]
  cases memAcctReferenceFits s e (rlIsEvictable e) with
  | false => exact iff_of_false (show (2 : Nat) ≠ 0 by decide) (by decide)
  | true =>
    have hkey := resourceEntryData_fileLen oom he.fileLen
    generalize resourceEntryData env oom e = r at hkey hdel ⊢
    obtain ⟨bytes, e1⟩ := r
    have hlen : e1.len = e.len := show (refKey e1).len = (refKey e).len from congrArg _ hkey
    have hsome := hdel.not_missing
    have hroom : ¬ resourceScratchSize < u32 e1.len := by
      rw [hlen, u32_of_lt he.len_lt]
      omega
    rw [if_neg (by decide)]
    simp only [if_neg hsome, if_neg hroom]

end Books

/-! ## Emulated runs -/

/-- A session of a cart before its persistent set is preloaded. -/
structure NewCart (env : ResEnv) (s : Session) : Prop where
  books : s.books.OK env
  surfaces : s.surfaces = newSurfaces

/-- The states that a session gets to. -/
def Session.Reached (env : ResEnv) (s : Session) : Prop :=
  ∃ s₀ s₁ ids oom ops, NewCart env s₀ ∧ sessionCreate env oom s₀ ids = some s₁
    ∧ runSteps (sessionStep env) s₁ ops = some s

/-- The books are those of a session alone, and the registry is sound. -/
structure Accounted (env : ResEnv) (s : Session) : Prop where
  books : s.books.OK env
  regs : RegInv s.surfaces

section Emulated

variable {env : ResEnv} {s s' : Session}

theorem publish_books (s : Session) : (memAcctPublishFootprint s).books = s.books := by
  cases hc : s.block with
  | none => rw [publish_of_none hc]
  | some =>
    have hacct := (Session.found_of_block hc).2
    rw [publish_of_some hc]
    unfold Session.books
    rw [hacct]
    exact congrArg (fun refs => (⟨refs, _, _, _, _⟩ : Books)) (resourceTableEvictToFit_refs _ _)

variable {m : ByteMem} {t : ResTable} {e : ResEntry}

/-- The surfaces move, the books stay. -/
theorem Accounted.move {a : Access} (h : Accounted env s)
    (hbooks : s'.books = s.books) (hmove : RegMove a m s.surfaces s'.surfaces) :
    Accounted env s' := ⟨hbooks ▸ h.books, h.regs.move hmove⟩

/-- The table changes, and the footprint is published. -/
theorem Accounted.setTable (h : Accounted env s) {t : ResTable} (ht : ∀ e ∈ t.refs, e.Countable env)
    {off : Nat} (hoff : off ≤ resourceScratchSize) {m : ByteMem} :
    Accounted env (memAcctPublishFootprint
      { s with resources := t, resourceScratchOff := off, gmem := m }) := by
  refine ⟨?_, ?_⟩
  · rw [publish_books]
    exact ⟨ht, h.books.peer, hoff, h.books.baseline⟩
  · rw [publish_surfaces]
    exact h.regs

theorem ResEntry.Countable.rlPin (h : e.Countable env) :
    (rlPin e).Countable env := ⟨h.len_lt, u32_lt _, h.fileLen⟩

theorem ResEntry.Countable.rlUnpin {e' : ResEntry} (h : e.Countable env)
    (hun : rlUnpin e = some e') : e'.Countable env := by
  unfold Blyt.rlUnpin at hun
  split at hun
  · cases hun
  · cases hun
    exact ⟨h.len_lt, (Nat.sub_le _ _).trans_lt h.count_lt, h.fileLen⟩

theorem scratchPlace_off {need : Nat} (hneed : need ≤ resourceScratchSize) (bytes : List UInt8) :
    (scratchPlace s bytes need).2.resourceScratchOff ≤ resourceScratchSize := by
  have hsize : resourceScratchSize = 16777216 := rfl
  simp only [scratchPlace]
  split_ifs with hwrap
  · exact (Nat.mod_le _ _).trans (by omega)
  · exact Nat.le_of_not_lt hwrap

theorem Accounted.pin (h : Accounted env s) (oom : Bool) (handle : Nat) :
    Accounted env (resourcePin env oom s handle).2 := by
  unfold resourcePin
  split
  · exact h
  split
  · exact h
  rename_i i _ _ e hi
  split
  · exact h
  have he := countable_of_refs h.books.refs e (mem_of_getElem? hi)
  have hkey := resourceEntryData_fileLen oom he.fileLen
  generalize resourceEntryData env oom e = r at hkey ⊢
  obtain ⟨bytes, e1⟩ := r
  have hrefs := setEntry_refs hi hkey
  have hmid : Accounted env { s with resources := setEntry s.resources i e1 } :=
    h.move (a := .handle) (m := s.gmem)
      (congrArg (fun refs => (⟨refs, _, _, _, _⟩ : Books)) hrefs) .idle
  simp only
  split
  · exact hmid
  split
  · exact hmid
  rename_i hroom
  refine h.setTable ?_ (scratchPlace_off (Nat.le_of_not_lt hroom) (bytes.getD []))
  rw [resourceTableTouch_refs]
  exact countable_setEntry (hrefs ▸ h.books.refs) (he.of_key hkey).rlPin

theorem Accounted.unpin (h : Accounted env s) (handle : Nat) :
    Accounted env (resourceUnpin s handle).2 := by
  unfold resourceUnpin
  split
  · exact h
  split
  · exact h
  rename_i i _ _ e hi
  have he := countable_of_refs h.books.refs e (mem_of_getElem? hi)
  split
  · exact h
  · rename_i e' hun
    exact h.setTable (countable_setEntry h.books.refs (he.rlUnpin hun)) h.books.scratch

theorem Accounted.evictAll (h : Accounted env s) : Accounted env (sessionResourceEvictAll s).2 := by
  have ht : ∀ e ∈ (resourceTableEvictAllEvictable s.resources).2.refs, e.Countable env := by
    rw [resourceTableEvictAllEvictable_refs]
    exact h.books.refs
  exact h.setTable ht h.books.scratch

theorem countable_forceReleasePins (h : ∀ e ∈ t.refs, e.Countable env) :
    ∀ e ∈ (resourceTableForceReleasePins t).refs, e.Countable env := by
  refine countable_refs fun e he => ?_
  obtain ⟨e0, he0, rfl⟩ := List.mem_map.mp he
  have h0 := countable_of_refs h e0 he0
  exact ⟨h0.len_lt, by simp [rlForceReleasePins], h0.fileLen⟩

theorem surfaceReapAll_books (s : Session) : (surfaceReapAll s).books = s.books := by
  rw [surfaceReapAll, publish_books]
  simp only [Session.books]

theorem Accounted.frame (h : Accounted env s) (rcResuming fnCall : Bool) :
    Accounted env (runFrameEntry s rcResuming fnCall) := by
  refine ⟨?_, h.regs.move (HostLeg.runFrameEntry_move s rcResuming fnCall)⟩
  have hpins : (Session.books { s with
      resourceScratchOff := 0, resources := resourceTableForceReleasePins s.resources }).OK env :=
    ⟨countable_forceReleasePins h.books.refs, h.books.peer, Nat.zero_le _, h.books.baseline⟩
  unfold runFrameEntry
  rw [publish_books]
  cases rcResuming <;> cases fnCall <;>
    simp [surfaceReapAll_books]
  exacts [hpins, hpins, h.books, h.books]

/-! The surface calls leave the books alone. -/

theorem surfaceCreate_books (oom : Bool) (s : Session) (w ht : Int) :
    (surfaceCreate oom s w ht).2.books = s.books := by
  unfold surfaceCreate
  by_cases hp : s.phase = .draw
  · rw [phaseGate_draw hp]
    rcases surfaceCreateSlot_cases oom s w ht with heq | ⟨i, -, -, heq⟩
    · simp only [heq]
    · simp only [heq, publish_books]
      rfl
  · rw [phaseGate_other hp]
    unfold Session.refused
    split_ifs <;> rfl

theorem surfaceDestroy_books (s : Session) (handle : Nat) :
    (surfaceDestroy s handle).books = s.books := by
  rw [surfaceDestroy_any]
  split
  · rfl
  · unfold Session.refused Session.destroySlot
    split_ifs
    · rfl
    · rfl
    · rfl
    · rw [publish_books]
      rfl

theorem surfaceAcquire_books (s : Session) (handle : Nat) :
    (surfaceAcquire s handle).2.books = s.books := by
  rw [surfaceAcquire_any]
  split_ifs
  · unfold surfaceAcquireLock
    split
    · rfl
    · simp only
      split_ifs <;> rfl
  · unfold Session.refused
    split_ifs <;> rfl

theorem surfaceRelease_books (s : Session) (token : Nat) :
    (surfaceRelease s token).books = s.books := by
  unfold surfaceRelease
  split <;> rfl

theorem heapStep_baseline {sizeMax : Nat} {a a' : HeapState} {op : ArenaOp}
    (h : heapStep sizeMax a op = some a') :
    a'.arena.acct.map guestHeapBaseline = a.arena.acct.map guestHeapBaseline := by
  have hwords := congrArg (Option.map guestHeapBaseline) (heapStep_words h)
  simpa only [Arena.hostWords, Option.map_map, Function.comp_def] using hwords

/-- **Every call keeps the books.** -/
theorem Accounted.step (h : Accounted env s) {op : SessionOp}
    (hstep : sessionStep env s op = some s') : Accounted env s' := by
  cases op with
  | heap =>
    obtain ⟨h', hheap, rfl⟩ := map_eq_some_iff.mp hstep
    refine h.move (a := .handle) (m := s.gmem) ?_ .idle
    exact congrArg (fun b => (⟨_, _, _, _, b⟩ : Books)) (heapStep_baseline hheap)
  | pin handle oom =>
    cases hstep
    exact h.pin oom handle
  | unpin handle =>
    cases hstep
    exact h.unpin handle
  | surfaceCreate w ht oom =>
    cases hstep
    exact h.move (surfaceCreate_books oom s w ht)
      (surfaceCreate_move (a := .handle) (m := s.gmem) oom s w ht)
  | surfaceDestroy handle =>
    cases hstep
    exact h.move (surfaceDestroy_books s handle)
      (surfaceDestroy_move (a := .handle) (m := s.gmem) s handle)
  | surfaceAcquire handle =>
    cases hstep
    exact h.move (surfaceAcquire_books s handle)
      (surfaceAcquire_move (a := .handle) (m := s.gmem) s handle)
  | surfaceRelease token =>
    cases hstep
    exact h.move (surfaceRelease_books s token) (surfaceRelease_move s token)
  | enterPhase phase | poke addr v =>
    cases hstep
    exact h.move (a := .handle) (m := s.gmem) rfl .idle
  | evictAll =>
    cases hstep
    exact h.evictAll
  | frame =>
    cases hstep
    exact h.frame false false

theorem ResEntry.Countable.mark (h : e.Countable env) :
    ResEntry.Countable env { e with persistent := true } := ⟨h.len_lt, h.count_lt, h.fileLen⟩

theorem NewCart.accounted {s₀ : Session} {ids : List Nat} {oom : Bool} (h : NewCart env s₀)
    (hcreate : sessionCreate env oom s₀ ids = some s) : Accounted env s := by
  obtain ⟨t, ht, rfl⟩ := map_eq_some_iff.mp hcreate
  have hmarked := markPersistent_forall (fun e he => he.mark) (countable_of_refs h.books.refs) ids
  have h0 : Accounted env s₀ := ⟨h.books, h.surfaces ▸ newSurfaces_inv⟩
  unfold resourceTablePreloadPersistent at ht
  split at ht
  · cases ht
  · obtain ⟨es, hes, rfl⟩ := map_eq_some_iff.mp ht
    refine h0.setTable (countable_refs ?_) h.books.scratch
    exact preload_forall hes rfl (fun _ _ => rfl)
      (fun e he => he.of_key (resourceEntryData_fileLen oom he.fileLen)) hmarked

theorem Session.Reached.accounted (h : s.Reached env) : Accounted env s := by
  obtain ⟨s0, s1, ids, oom, ops, hnew, hcreate, hrun⟩ := h
  exact runSteps_keeps (fun _ _ _ hs hstep => hs.step hstep) (hnew.accounted hcreate) hrun

end Emulated

/-! ## The native runtime -/

/-- The cart's process: `g_cart_arena`, whose accounting block is `g_mem_acct`, `s_res` and
`s_surfaces`. -/
structure NativeCart where
  heap : HeapState
  res : ResTable
  gfx : NativeLeg

inductive NativeOp where
  | heap (op : ArenaOp)
  | pin (handle : Nat) (oom : Bool)
  | unpin (handle : Nat)
  | surface (call : SurfaceCall)
  deriving DecidableEq, Repr

namespace NativeCart

def runtime (n : NativeCart) : NativeRes := ⟨n.res, n.heap.arena.acct.getD ⟨0, 0, 0, 0⟩⟩

def setRuntime (n : NativeCart) (r : NativeRes) : NativeCart :=
  { n with res := r.res
           heap := { n.heap with arena := { n.heap.arena with acct := some r.memAcct } } }

/-- `every` says that `BLYT_RESOURCE_EVICT_EVERY_FRAME` is set. -/
def step (env : ResEnv) (c : RowCopy) (every : Bool) (n : NativeCart) : NativeOp → Option NativeCart
  | .heap op => (heapStep guestSizeMax n.heap op).map fun h => { n with heap := h }
  | .pin handle oom => some (n.setRuntime (blytResourcePin env oom n.runtime handle).2)
  | .unpin handle => some (n.setRuntime (blytResourceUnpin n.runtime handle).2)
  | .surface .frameDone =>
    let n := n.setRuntime (blytFrameDone every n.runtime)
    some { n with gfx := n.gfx.frameDone.1 }
  | .surface call => some { n with gfx := (n.gfx.step c call).1 }

/-- The bytes of the live off-screen surfaces. -/
def surfaceBytes (n : NativeCart) : Nat :=
  ∑ i, if (n.gfx.surfaces i).inUse && !(n.gfx.surfaces i).isScreen
    then NativeLeg.area (n.gfx.surfaces i) else 0

def cartHeap (n : NativeCart) : Nat := n.heap.arena.acct.elim 0 memCartHeap

def afterPin (n : NativeCart) (i : Nat) (e : ResEntry) : Nat :=
  n.cartHeap + n.surfaceBytes + heldAfter n.res i e

/-- What the native gate misses: the surfaces, and what its footprint loses. -/
def unseen (n : NativeCart) : Nat := n.surfaceBytes + wrapped (heldBytes n.res)

/-- The states that the cart of a file gets to. -/
def Reached (env : ResEnv) (c : RowCopy) (every : Bool) (n : NativeCart) : Prop :=
  ∃ f ids oom r heap ops, blytRuntimeStartup env oom f ids = some r
    ∧ heap.arena.acct = some r.memAcct
    ∧ runSteps (step env c every) ⟨heap, r.res, .start⟩ ops = some n

structure Accounted (env : ResEnv) (n : NativeCart) : Prop where
  refs : ∀ e ∈ n.res.refs, e.Countable env
  baseline : n.heap.arena.acct.map guestHeapBaseline = some 0

section Gate

variable {env : ResEnv} {n n' : NativeCart} {i : Nat} {e : ResEntry}

theorem Accounted.block (h : n.Accounted env) :
    ∃ c, n.heap.arena.acct = some c ∧ c.guestHeapBaseline = 0 :=
  map_eq_some_iff.mp h.baseline

/-- **The native gate.** -/
theorem referenceFits_iff (h : n.Accounted env) (hi : n.res.entries[i]? = some e) :
    nativeMemReferenceFits n.runtime e (rlIsEvictable e) = true
      ↔ n.afterPin i e + recounted e ≤ memBudgetBytes + n.unseen := by
  have he := countable_of_refs h.refs e (mem_of_getElem? hi)
  obtain ⟨c, hc, hzero⟩ := h.block
  have hheap : n.runtime.memAcct.guestHeapUsed = n.cartHeap := by
    rw [runtime, cartHeap, hc]
    exact (memCartHeap_of_baseline hzero).symm
  have hfoot : nativeResFootprint n.runtime.res + wrapped (heldBytes n.res) = heldBytes n.res := by
    rw [nativeResFootprint, resourceTableFootprint_mod]
    exact u32_add_wrapped _
  have hcharge := heldBytes_charge hi he.count_lt
  simp only [nativeMemReferenceFits, memAllocFits, decide_eq_true_eq, hheap, afterPin, unseen]
  omega

theorem nativeResData_refKey (env : ResEnv) (oom : Bool) (e : ResEntry) :
    refKey (nativeResData env oom e).2 = refKey e := by
  unfold nativeResData
  split
  · rfl
  · split_ifs
    · rfl
    · rfl
    · split <;> rfl

theorem blytResourcePin_code_iff {oom : Bool} {handle : Nat}
    (hres : resResolve n.res handle = some i) (hi : n.res.entries[i]? = some e)
    (hdel : Delivered (nativeResData env oom e)) :
    (blytResourcePin env oom n.runtime handle).1.code = 0
      ↔ nativeMemReferenceFits n.runtime e (rlIsEvictable e) = true := by
  have hres' : resResolve n.runtime.res handle = some i := hres
  have hi' : n.runtime.res.entries[i]? = some e := hi
  unfold blytResourcePin
  simp only [hres', hi']
  cases nativeMemReferenceFits n.runtime e (rlIsEvictable e) with
  | false => exact iff_of_false (show (2 : Nat) ≠ 0 by decide) (by decide)
  | true =>
    have hsome := hdel.not_missing
    rw [if_neg (by decide)]
    simp only [if_neg hsome]

end Gate

/-! ### Runs -/

/-- What the runtime's own part of the state has to keep. -/
structure BooksOK (env : ResEnv) (r : NativeRes) : Prop where
  refs : ∀ e ∈ r.res.refs, e.Countable env
  baseline : r.memAcct.guestHeapBaseline = 0

section Run

variable {env : ResEnv} {n n' : NativeCart} {r : NativeRes}

theorem Accounted.runtime (h : n.Accounted env) : BooksOK env n.runtime := by
  obtain ⟨c, hc, hzero⟩ := h.block
  refine ⟨h.refs, ?_⟩
  rw [NativeCart.runtime, hc]
  exact hzero

section

variable (h : BooksOK env r)
include h

theorem BooksOK.set (n : NativeCart) : (n.setRuntime r).Accounted env :=
  ⟨h.refs, congrArg some h.baseline⟩

/-- The table changes, and the footprint is published. -/
theorem BooksOK.publish {t : ResTable} (ht : ∀ e ∈ t.refs, e.Countable env) :
    BooksOK env (nativeMemPublishFootprint { r with res := t }) := by
  refine ⟨?_, h.baseline⟩
  have hrefs : (nativeMemPublishFootprint { r with res := t }).res.refs = t.refs :=
    resourceTableEvictToFit_refs _ _
  rw [hrefs]
  exact ht

theorem BooksOK.pin (oom : Bool) (handle : Nat) :
    BooksOK env (blytResourcePin env oom r handle).2 := by
  unfold blytResourcePin
  split
  · exact h
  split
  · exact h
  rename_i i _ _ e hi
  split
  · exact h
  have he := countable_of_refs h.refs e (mem_of_getElem? hi)
  have hkey := nativeResData_refKey env oom e
  have hrefs := setEntry_refs hi hkey
  simp only
  split
  · exact ⟨hrefs ▸ h.refs, h.baseline⟩
  refine h.publish ?_
  rw [nativeResTouch, resourceTableTouch_refs]
  exact countable_setEntry (hrefs ▸ h.refs) (he.of_key hkey).rlPin

theorem BooksOK.unpin (handle : Nat) : BooksOK env (blytResourceUnpin r handle).2 := by
  unfold blytResourceUnpin
  split
  · exact h
  split
  · exact h
  rename_i i _ _ e hi
  have he := countable_of_refs h.refs e (mem_of_getElem? hi)
  split
  · exact h
  · rename_i e' hun
    exact h.publish (countable_setEntry h.refs (he.rlUnpin hun))

theorem BooksOK.frameDone (every : Bool) : BooksOK env (blytFrameDone every r) := by
  refine h.publish ?_
  have hpins := countable_forceReleasePins h.refs
  cases every with
  | false => exact hpins
  | true =>
    have hrefs := resourceTableEvictAllEvictable_refs (resourcesForceReleasePins r.res)
    exact fun e he => hpins e (hrefs ▸ he)

end

variable {c : RowCopy} {every oom : Bool}

/-- **Every call keeps the books.** -/
theorem Accounted.step (h : n.Accounted env) {op : NativeOp}
    (hstep : n.step env c every op = some n') : n'.Accounted env := by
  cases op with
  | heap =>
    obtain ⟨h', hheap, rfl⟩ := map_eq_some_iff.mp hstep
    exact ⟨h.refs, (heapStep_baseline hheap).trans h.baseline⟩
  | pin handle oom =>
    cases hstep
    exact (h.runtime.pin oom handle).set n
  | unpin handle =>
    cases hstep
    exact (h.runtime.unpin handle).set n
  | surface call =>
    cases call with
    | frameDone =>
      cases hstep
      have hset := (h.runtime.frameDone every).set n
      exact ⟨hset.refs, hset.baseline⟩
    | _ =>
      cases hstep
      exact ⟨h.refs, h.baseline⟩

theorem sectionEntry_len_lt (narrow : Nat → Nat) (f : Image) {sect : ResSection}
    (hsize : sect.size < 2 ^ 32) : (sectionEntry narrow f sect).len < 2 ^ 32 := by
  unfold sectionEntry
  split
  · exact hsize
  · rename_i hd hparse
    have hdsize : hd.dsize < 2 ^ 32 := by
      unfold resHeaderParse at hparse
      simp only at hparse
      split_ifs at hparse
      cases hparse
      exact read32_lt _ _
    split_ifs <;> exact hdsize

theorem resourcesInit_countable (env : ResEnv) (f : Image) :
    ∀ e ∈ (resourcesInit f).entries, e.Countable env := by
  intro e he
  obtain ⟨sect, hsect, rfl⟩ := List.mem_map.mp he
  have hsize : sect.size < 2 ^ 32 := by
    unfold nativeSections at hsect
    split_ifs at hsect
    · cases hsect
    · have hle := resourceSections_size hsect
      have hlt : (nativeMap f).size < 2 ^ 32 := u32_lt _
      omega
  refine ⟨sectionEntry_len_lt _ _ hsize, by simp [FileEntry.entry], fun path buf hp => ?_⟩
  cases hp

theorem startup_booksOK {f : Image} {ids : List Nat}
    (h : blytRuntimeStartup env oom f ids = some r) : BooksOK env r := by
  obtain ⟨t, ht, rfl⟩ := map_eq_some_iff.mp h
  have hmarked := markPersistent_forall (fun e he => he.mark) (resourcesInit_countable env f) ids
  unfold nativePreloadPersistent at ht
  split at ht
  · cases ht
  · obtain ⟨es, hes, rfl⟩ := map_eq_some_iff.mp ht
    have hloaded := preload_forall hes rfl (fun _ _ => rfl)
      (fun e he => he.of_key (nativeResData_refKey env oom e)) hmarked
    have hblank : BooksOK env ⟨⟨[], 0⟩, ⟨0, 0, 0, 0⟩⟩ := ⟨fun e he => (by cases he), rfl⟩
    exact hblank.publish (countable_refs hloaded)

theorem Reached.accounted (h : n.Reached env c every) : n.Accounted env := by
  obtain ⟨f, ids, oom, r, heap, ops, hstart, hacct, hrun⟩ := h
  have hok := startup_booksOK hstart
  refine runSteps_keeps (fun _ _ _ hs hstep => hs.step hstep) ?_ hrun
  refine ⟨hok.refs, ?_⟩
  rw [hacct]
  exact congrArg some hok.baseline

end Run

end NativeCart

/-- **Pins are decided right** exactly if the gate's sum and the real one are on the same side
of the budget. The gate's sum has what it recounts too much and what it does not see too
little; an emulated session without an accounting block grants every pin. -/
theorem pin_admission_iff (env : ResEnv) (oom : Bool) (handle i : Nat) (e : ResEntry) :
    (∀ s : Session, s.Reached env → resolveResource s.resources handle = some i →
      s.resources.entries[i]? = some e → Delivered (resourceEntryData env oom e) →
      e.len ≤ resourceScratchSize →
        (((resourcePin env oom s handle).1.code = 0 ↔ s.afterPin i e ≤ memBudgetBytes)
          ↔ if s.memAcct then SameSide (s.afterPin i e) (recounted e) s.unseen
            else s.afterPin i e ≤ memBudgetBytes))
      ∧ ∀ (c : RowCopy) (every : Bool) (n : NativeCart), n.Reached env c every →
        resResolve n.res handle = some i → n.res.entries[i]? = some e →
        Delivered (nativeResData env oom e) → e.len ≤ resourceScratchSize →
          (((blytResourcePin env oom n.runtime handle).1.code = 0
              ↔ n.afterPin i e ≤ memBudgetBytes)
            ↔ SameSide (n.afterPin i e) (recounted e) n.unseen) := by
  constructor
  · intro s hs hres hi hdel hfit
    have hacc := hs.accounted
    have he := countable_of_refs hacc.books.refs e (mem_of_getElem? hi)
    rw [resourcePin_code_iff hres hi he hdel hfit, referenceFits_iff hacc.books hacc.regs.surf hi]
    cases s.memAcct with
    | true => simp [sameSide_iff]
    | false => simp
  · intro c every n hn hres hi hdel _
    rw [NativeCart.blytResourcePin_code_iff hres hi hdel, n.referenceFits_iff hn.accounted hi,
      sameSide_iff]

/-! ## On both sides of the budget -/

instance (r : Option (List UInt8) × ResEntry) : Decidable (Delivered r) := by
  unfold Delivered
  infer_instance

theorem Session.exists_reached {env : ResEnv} {s₀ : Session} (hnew : NewCart env s₀)
    (ids : List Nat) (ops : List SessionOp) (P : Session → ResEntry → Prop)
    (hrun : ∃ s₁, sessionCreate env false s₀ ids = some s₁
      ∧ ∃ s, runSteps (sessionStep env) s₁ ops = some s
      ∧ ∃ e, s.resources.entries[0]? = some e ∧ P s e) :
    ∃ s e, s.Reached env ∧ s.resources.entries[0]? = some e ∧ P s e := by
  obtain ⟨s₁, hs1, s, hs, e, he⟩ := hrun
  exact ⟨s, e, ⟨s₀, s₁, ids, false, ops, hnew, hs1, hs⟩, he⟩

theorem NativeCart.exists_reached (env : ResEnv) (c : RowCopy) (every : Bool) (f : Image)
    (ids : List Nat) (ops : List NativeOp) (P : NativeCart → ResEntry → Prop)
    (hrun : ∃ r, blytRuntimeStartup env false f ids = some r
      ∧ ∃ n, runSteps (step env c every)
        ⟨⟨{ demoArena with acct := some r.memAcct }, []⟩, r.res, .start⟩ ops = some n
      ∧ ∃ e, n.res.entries[0]? = some e ∧ P n e) :
    ∃ n e, n.Reached env c every ∧ n.res.entries[0]? = some e ∧ P n e := by
  obtain ⟨r, hr, n, hn, e, he⟩ := hrun
  exact ⟨n, e, ⟨f, ids, false, r, _, ops, hr, rfl, hn⟩, he⟩

/-- A cart with one compressed resource of `len` bytes. -/
def lengthCart (len : Nat) : Image :=
  resourceCart ".cart.resource.5\x00" resAlgoZstd len (runFrame len 0)

def lengthSession (len : Nat) : Session :=
  { demoSession with resources := ⟨[demoEntry 5 len], 0⟩, surfaces := newSurfaces }

theorem lengthSession_new (len : Nat) (h : len < 2 ^ 32) : NewCart demoEnv (lengthSession len) := by
  refine ⟨⟨countable_refs fun e he => ?_, rfl, Nat.zero_le _, rfl⟩, rfl⟩
  obtain rfl := mem_singleton.mp he
  exact ⟨h, by simp [demoEntry], fun path buf hp => by cases hp⟩

/-- A persistent resource of 9 MiB cannot be pinned, though nothing but it is held; on the
native runtime a resource of 16 MiB can be pinned beside a surface. -/
theorem pin_admission_differs :
    (∃ s e, Session.Reached demoEnv s ∧ s.resources.entries[0]? = some e
        ∧ resolveResource s.resources (2 ^ 29 + 5) = some 0
        ∧ Delivered (resourceEntryData demoEnv false e) ∧ e.len ≤ resourceScratchSize
        ∧ s.afterPin 0 e ≤ memBudgetBytes
        ∧ (resourcePin demoEnv false s (2 ^ 29 + 5)).1.code = 2)
      ∧ ∃ n e, NativeCart.Reached demoEnv bufferedCopy false n ∧ n.res.entries[0]? = some e
        ∧ resResolve n.res (2 ^ 29 + 5) = some 0
        ∧ Delivered (nativeResData demoEnv false e) ∧ e.len ≤ resourceScratchSize
        ∧ memBudgetBytes < n.afterPin 0 e
        ∧ (blytResourcePin demoEnv false n.runtime (2 ^ 29 + 5)).1.code = 0 := by
  constructor
  · exact Session.exists_reached (lengthSession_new 9437184 (by norm_num)) [5] []
      (fun s e => resolveResource s.resources (2 ^ 29 + 5) = some 0
        ∧ Delivered (resourceEntryData demoEnv false e) ∧ e.len ≤ resourceScratchSize
        ∧ s.afterPin 0 e ≤ memBudgetBytes
        ∧ (resourcePin demoEnv false s (2 ^ 29 + 5)).1.code = 2) (by decide +kernel)
  · exact NativeCart.exists_reached demoEnv bufferedCopy false (lengthCart memBudgetBytes) []
      [.surface (.phase .draw), .surface (.create 1 1)]
      (fun n e => resResolve n.res (2 ^ 29 + 5) = some 0
        ∧ Delivered (nativeResData demoEnv false e) ∧ e.len ≤ resourceScratchSize
        ∧ memBudgetBytes < n.afterPin 0 e
        ∧ (blytResourcePin demoEnv false n.runtime (2 ^ 29 + 5)).1.code = 0) (by decide +kernel)

/-- Without the persistent mark the 9 MiB are granted, and the small resource beside a surface
too. -/
theorem pin_admission_demo :
    (∃ s e, Session.Reached demoEnv s ∧ s.resources.entries[0]? = some e ∧ e.len = 9437184
        ∧ ((resourcePin demoEnv false s (2 ^ 29 + 5)).1.code = 0
          ↔ s.afterPin 0 e ≤ memBudgetBytes))
      ∧ ∃ n e, NativeCart.Reached demoEnv bufferedCopy false n ∧ n.res.entries[0]? = some e
        ∧ n.surfaceBytes = 1
        ∧ ((blytResourcePin demoEnv false n.runtime (2 ^ 29 + 5)).1.code = 0
          ↔ n.afterPin 0 e ≤ memBudgetBytes) := by
  constructor
  · obtain ⟨s, e, hs, hi, hlen, hres, hdel, hfit, hside⟩ :=
      Session.exists_reached (lengthSession_new 9437184 (by norm_num)) [] [.heap (.malloc 100)]
        (fun s e => e.len = 9437184 ∧ resolveResource s.resources (2 ^ 29 + 5) = some 0
          ∧ Delivered (resourceEntryData demoEnv false e) ∧ e.len ≤ resourceScratchSize
          ∧ if s.memAcct then SameSide (s.afterPin 0 e) (recounted e) s.unseen
            else s.afterPin 0 e ≤ memBudgetBytes) (by decide +kernel)
    refine ⟨s, e, hs, hi, hlen, ?_⟩
    exact ((pin_admission_iff demoEnv false _ 0 e).1 s hs hres hi hdel hfit).mpr hside
  · obtain ⟨n, e, hn, hi, hsurf, hres, hdel, hfit, hside⟩ :=
      NativeCart.exists_reached demoEnv bufferedCopy false (lengthCart 5) []
        [.surface (.phase .draw), .surface (.create 1 1)]
        (fun n e => n.surfaceBytes = 1 ∧ resResolve n.res (2 ^ 29 + 5) = some 0
          ∧ Delivered (nativeResData demoEnv false e) ∧ e.len ≤ resourceScratchSize
          ∧ SameSide (n.afterPin 0 e) (recounted e) n.unseen) (by decide +kernel)
    refine ⟨n, e, hn, hi, hsurf, ?_⟩
    exact ((pin_admission_iff demoEnv false _ 0 e).2 bufferedCopy false n hn hres hi hdel
      hfit).mpr hside

end Blyt
