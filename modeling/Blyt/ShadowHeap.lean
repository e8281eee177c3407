import Blyt.ArenaRebase
import Blyt.ArenaReset
import Blyt.Hybrid

/-!
# The shadow heap of the host's Lua VM

`hl_lua_alloc` of `cart_run_hostlua.c`: the VM's objects live in plain host memory, and a
16 MiB arena beside it is driven at the sizes the objects would have on rv32, so that it can
count and refuse. What ties the two together is a hidden word before each object, the offset
of its shadow block. The Lua fork publishes the rv32 size of a request in a global just
before the call; a raw request leaves the global unset and counts at its own size.

Here the allocator runs on the host's memory, and the main result compares it with the
same rv32 sizes and flags given to an arena directly, whose caller keeps the offset of each
block itself: they grant and refuse the same requests and count the same bytes, whatever the
sizes and addresses on the host are. `Hybrid` and `HostLua` take the direct calls from there.
-/

namespace Blyt

open List Option Function

/-- `HL_HEAP_PREFIX`. -/
def hlHeapPrefix : Nat := 16

/-- `BLYT_HOSTLUA_HEAP_RV_UNSET`, `(size_t)-1` of a 64-bit host. -/
def hostluaHeapRvUnset : Nat := 2 ^ 64 - 1

/-- The memory that `malloc` hands out for the shadow region. -/
structure ShadowRegion where
  addr : Nat
  bytes : ByteMem
  addr_ne : addr ≠ 0

/-- What the allocator works on: the host's memory, `hl->arena`, `hl->mem_acct` until the
arena has it, and the fork's two globals. -/
structure HlHeap where
  mem : ByteMem
  arena : Arena
  memAcct : MemAccounting
  rvPending : Nat
  stackPending : Bool

/-- What the host's `malloc`, `realloc` or `free` does: the address it returns, and the memory
after it, with all that was written since the last call. -/
structure HostReply where
  addr : Nat
  mem : ByteMem

def MemAccounting.account (c : MemAccounting) (footprint baseline : Nat) : MemAccounting :=
  { c with nonEvictableFootprint := footprint, guestHeapBaseline := baseline }

def Arena.account (a : Arena) (footprint baseline : Nat) : Arena :=
  { a with acct := a.acct.map fun c => c.account footprint baseline }

/-- A zeroed `blyt_arena_t` with this region stamped in. -/
def stampedArena (base : Nat) (bytes : ByteMem) (c : MemAccounting) : Arena where
  base := base
  size := memBudgetBytes
  bump := 0
  freeHead := 0
  ready := false
  acct := some c
  mem := bytes
  size_lt := by decide

namespace HlHeap

/-- The region is created by the first request. -/
def withRegion (R : ShadowRegion) (h : HlHeap) : HlHeap :=
  if h.arena.base = 0 then
    { h with arena := { h.arena with
        base := R.addr, size := memBudgetBytes, acct := some h.memAcct, mem := R.bytes
        size_lt := by decide } }
  else h

/-- Link the object at `raw` to its shadow block at `sp`. -/
def linked (h : HlHeap) (raw sp : Nat) (host : HostReply) : HlHeap :=
  { h with mem := write32 host.mem raw (u32 (sp - h.arena.base)) }

/-- The end of a request, with what the shadow arena said to it. -/
def finish (h : HlHeap) (host : HostReply) (r : Nat × Arena) : Nat × HlHeap :=
  let h := { h with arena := r.2 }
  if r.1 = 0 then (0, h) else (host.addr + hlHeapPrefix, h.linked host.addr r.1 host)

/-- `hl_lua_alloc`, on a host that does not run out of memory. -/
def luaAlloc (R : ShadowRegion) (h : HlHeap) (ptr nsize : Nat) (host : HostReply) :
    Option (Nat × HlHeap) :=
  if nsize = 0 then
    if ptr = 0 then some (0, h)
    else
      let soff := read32 h.mem (ptr - hlHeapPrefix)
      (arenaFree h.arena (h.arena.base + soff)).map fun a =>
        (0, { h with arena := a, mem := host.mem })
  else
    let h := h.withRegion R
    let rv := if h.rvPending = hostluaHeapRvUnset then nsize else h.rvPending
    let noacct := h.stackPending
    let h := { h with rvPending := hostluaHeapRvUnset, stackPending := false }
    if ptr = 0 then
      (if noacct then arenaMallocNoacct h.arena rv else arenaMalloc h.arena rv).map (h.finish host)
    else
      let oldSoff := read32 h.mem (ptr - hlHeapPrefix)
      let baseSp := h.arena.base + oldSoff
      (if noacct then arenaReallocNoacct h.arena baseSp rv
        else arenaRealloc h.arena baseSp rv).map (h.finish host)

/-- The fork's side of a request. -/
def publish (h : HlHeap) (published : Option Nat) (stack : Bool) : HlHeap :=
  { h with rvPending := published.getD h.rvPending, stackPending := stack || h.stackPending }

/-- The host writes to `hl->mem_acct`, which is also the arena's once it has a region. -/
def account (h : HlHeap) (footprint baseline : Nat) : HlHeap :=
  { h with
    arena := h.arena.account footprint baseline
    memAcct := h.memAcct.account footprint baseline }

/-- `hl->mem_acct.guest_heap_used`. -/
def used (h : HlHeap) : Nat := (h.arena.acct.getD h.memAcct).guestHeapUsed

end HlHeap

/-! ## The VM and its allocator -/

/-- A call of the allocator, where `slot` names a variable of the VM that holds the object;
or the host sets its words of the accounting block. -/
inductive LuaEvent where
  | free (slot : Nat)
  | alloc (slot nsize : Nat) (published : Option Nat) (stack : Bool)
  | account (footprint baseline : Nat)

/-- What a call shows: whether it was granted, and `guest_heap_used` after it. -/
structure LuaSeen where
  granted : Bool
  used : Nat
  deriving DecidableEq, Repr

structure LuaVm where
  heap : HlHeap
  slots : Nat → Nat

def luaStep (R : ShadowRegion) (S : LuaVm) (e : LuaEvent × HostReply) : Option (LuaVm × LuaSeen) :=
  match e.1 with
  | .free i =>
    (S.heap.luaAlloc R (S.slots i) 0 e.2).map fun (_, h) =>
      (⟨h, Function.update S.slots i 0⟩, ⟨true, h.used⟩)
  | .alloc i nsize published stack =>
    ((S.heap.publish published stack).luaAlloc R (S.slots i) nsize e.2).map fun (p, h) =>
      (⟨h, if p = 0 then S.slots else Function.update S.slots i p⟩, ⟨decide (p ≠ 0), h.used⟩)
  | .account footprint baseline =>
    let h := S.heap.account footprint baseline
    some (⟨h, S.slots⟩, ⟨true, h.used⟩)

def LuaEvent.slot : LuaEvent → Option Nat
  | .free i | .alloc i _ _ _ => some i
  | .account _ _ => none

theorem luaStep_frame {R : ShadowRegion} {S S' : LuaVm} {e : LuaEvent × HostReply}
    (h : (luaStep R S e).map Prod.fst = some S') {j : Nat} (hj : e.1.slot ≠ some j) :
    S'.slots j = S.slots j := by
  obtain ⟨event, host⟩ := e
  cases event with
  | free =>
    obtain ⟨r, hr, rfl⟩ := map_eq_some_iff.mp h
    obtain ⟨r', -, rfl⟩ := map_eq_some_iff.mp hr
    exact update_of_ne (fun hji => hj (congrArg some hji.symm)) _ _
  | alloc i =>
    obtain ⟨r, hr, rfl⟩ := map_eq_some_iff.mp h
    obtain ⟨⟨p, heap⟩, -, rfl⟩ := map_eq_some_iff.mp hr
    show (if p = 0 then S.slots else Function.update S.slots i p) j = S.slots j
    split
    · rfl
    · exact update_of_ne (fun hji => hj (congrArg some hji.symm)) _ _
  | account =>
    cases h
    rfl

def LuaVm.start (mem : ByteMem) (c : MemAccounting) : LuaVm where
  heap :=
    { mem := mem
      arena := ⟨0, 0, 0, 0, false, none, fun _ => 0, by decide⟩
      memAcct := c
      rvPending := hostluaHeapRvUnset
      stackPending := false }
  slots := fun _ => 0

/-- Requests are for something, and so are the sizes of rv32 that are published. -/
def LuaEvent.Sized : LuaEvent → Prop
  | .alloc _ nsize published _ => 0 < nsize
    ∧ ∀ rv, published = some rv → 0 < rv ∧ rv < 2 ^ 32
  | _ => True

/-- Host and VM leave the hidden words of the objects alone, but for the one in `slot`. -/
def HostKeeps (S : LuaVm) (slot : Nat) (host : HostReply) : Prop :=
  ∀ j, j ≠ slot → S.slots j ≠ 0 → ∀ x, S.slots j - hlHeapPrefix ≤ x → x < S.slots j →
    host.mem x = S.heap.mem x

/-- The block of `n` bytes that the host returns is apart from these words. -/
def HostPlaces (S : LuaVm) (slot n : Nat) (host : HostReply) : Prop :=
  host.addr ≠ 0 ∧ ∀ j, j ≠ slot → S.slots j ≠ 0 →
    host.addr + n ≤ S.slots j - hlHeapPrefix ∨ S.slots j ≤ host.addr

/-- What the host and the VM answer for. -/
def LuaEvent.Fair (S : LuaVm) (e : LuaEvent × HostReply) : Prop :=
  e.1.Sized ∧ match e.1 with
    | .free i => HostKeeps S i e.2
    | .alloc i nsize _ _ => HostKeeps S i e.2 ∧ HostPlaces S i (nsize + hlHeapPrefix) e.2
    | .account _ _ => True

/-! ## The same sizes on an arena -/

inductive LuaRequest where
  | free (slot : Nat)
  | alloc (slot rv : Nat) (noacct : Bool)
  | account (footprint baseline : Nat)
  deriving DecidableEq, Repr

/-- The rv32 side of a call: a raw request counts at its own size. -/
def LuaEvent.request : LuaEvent → LuaRequest
  | .free i => .free i
  | .alloc i nsize published stack => .alloc i (published.getD nsize) stack
  | .account footprint baseline => .account footprint baseline

/-- An arena whose caller keeps the 32-bit offset of each block. -/
structure DirectHeap where
  heap : HeapState
  slots : Nat → Option Nat

def DirectHeap.ptr (D : DirectHeap) (i : Nat) : Nat :=
  (D.slots i).elim 0 (D.heap.arena.base + ·)

/-- The call for a block of `rv` bytes. -/
def allocOp (ptr rv : Nat) (noacct : Bool) : ArenaOp :=
  if ptr = 0 then if noacct then .mallocNoacct rv else .malloc rv
  else if noacct then .reallocNoacct ptr rv else .realloc ptr rv

def DirectHeap.used (D : DirectHeap) : Nat :=
  (D.heap.arena.acct.map MemAccounting.guestHeapUsed).getD 0

def directStep (D : DirectHeap) : LuaRequest → Option (DirectHeap × LuaSeen)
  | .free i =>
    (heapStep guestSizeMax D.heap (.free (D.ptr i))).map fun heap =>
      let D' : DirectHeap := ⟨heap, Function.update D.slots i none⟩
      (D', ⟨true, D'.used⟩)
  | .alloc i rv noacct =>
    let op := allocOp (D.ptr i) rv noacct
    (heapStep guestSizeMax D.heap op).map fun heap =>
      let p := (op.answer guestSizeMax D.heap).getD 0
      let off := u32 (p - D.heap.arena.base)
      let D' : DirectHeap := ⟨heap, if p = 0 then D.slots else Function.update D.slots i (some off)⟩
      (D', ⟨decide (p ≠ 0), D'.used⟩)
  | .account footprint baseline =>
    let arena := D.heap.arena.account footprint baseline
    let D' : DirectHeap := ⟨⟨arena, D.heap.live⟩, D.slots⟩
    some (D', ⟨true, D'.used⟩)

def DirectHeap.start (base : Nat) (bytes : ByteMem) (c : MemAccounting) : DirectHeap :=
  ⟨⟨stampedArena base bytes c, []⟩, fun _ => none⟩

/-! ## One keeps step with the other -/

/-- `NULL` and no block, or an object with its block's offset before it. -/
def LinkedTo (m : ByteMem) (p : Nat) (off : Option Nat) : Prop :=
  (p = 0 ∧ off = none) ∨ (hlHeapPrefix < p ∧ off = some (read32 m (p - hlHeapPrefix)))

/-- The direct heap has the shadow arena at `B`, and the offsets that stand before the
objects; between calls nothing is pending. -/
structure Shadowed (R : ShadowRegion) (B : Nat) (S : LuaVm) (D : DirectHeap) : Prop where
  rv : S.heap.rvPending = hostluaHeapRvUnset
  stack : S.heap.stackPending = false
  arena : D.heap.arena = (S.heap.withRegion R).arena.rebase B
  base : (S.heap.withRegion R).arena.base = R.addr
  acct : D.heap.arena.acct = some (S.heap.arena.acct.getD S.heap.memAcct)
  region : ∀ i, S.slots i ≠ 0 → S.heap.arena.base ≠ 0
  slots : ∀ i, LinkedTo S.heap.mem (S.slots i) (D.slots i)

section Shadow

variable {R : ShadowRegion} {B : Nat} {S : LuaVm} {D : DirectHeap}

theorem withRegion_of_base {h : HlHeap} (hb : h.arena.base ≠ 0) : h.withRegion R = h := if_neg hb

theorem shadowed_start (mem : ByteMem) (c : MemAccounting) :
    Shadowed R B (LuaVm.start mem c) (DirectHeap.start B R.bytes c) :=
  ⟨rfl, rfl, rfl, rfl, rfl, fun _ h => absurd rfl h, fun _ => .inl ⟨rfl, rfl⟩⟩

theorem Shadowed.used (h : Shadowed R B S D) : S.heap.used = D.used := by
  rw [DirectHeap.used, h.acct]
  rfl

/-- Once there is a region, the relation is about the arena itself. -/
theorem Shadowed.of_region (hrv : S.heap.rvPending = hostluaHeapRvUnset)
    (hstack : S.heap.stackPending = false) (hbase : S.heap.arena.base = R.addr)
    (harena : D.heap.arena = S.heap.arena.rebase B) (hacct : S.heap.arena.acct.isSome = true)
    (hslots : ∀ i, LinkedTo S.heap.mem (S.slots i) (D.slots i)) : Shadowed R B S D := by
  have hb := hbase ▸ R.addr_ne
  have hregion : S.heap.withRegion R = S.heap := withRegion_of_base hb
  refine ⟨hrv, hstack, by rw [hregion, harena], by rw [hregion, hbase], ?_, fun _ _ => hb, hslots⟩
  obtain ⟨c, hc⟩ := isSome_iff_exists.mp hacct
  rw [harena, hc]
  exact hc

/-! ### Hidden words -/

variable {m : ByteMem} {p : Nat} {off : Option Nat} {i : Nat} {host : HostReply} {nsize : Nat}
  {published : Option Nat}

theorem LinkedTo.congr {m' : ByteMem} (h : LinkedTo m p off)
    (hm : p ≠ 0 → ∀ x, p - hlHeapPrefix ≤ x → x < p → m' x = m x) : LinkedTo m' p off := by
  refine h.imp_right fun ⟨hlt, hoff⟩ => ⟨hlt, hoff.trans (congrArg some ?_)⟩
  refine (read32_congr fun x hx hx' => hm (by omega) x hx ?_).symm
  unfold hlHeapPrefix at hx' hlt
  omega

theorem linkedTo_update {f : Nat → Nat} {g : Nat → Option Nat} (hi : LinkedTo m p off)
    (h : ∀ j, j ≠ i → LinkedTo m (f j) (g j)) (j : Nat) :
    LinkedTo m (Function.update f i p j) (Function.update g i off j) := by
  by_cases hj : j = i
  · subst hj
    rwa [update_self, update_self]
  · rw [update_of_ne hj, update_of_ne hj]
    exact h j hj

/-- The new object's word is written, and the others' are kept. -/
theorem linkedTo_new {n off : Nat}
    (h : ∀ j, LinkedTo S.heap.mem (S.slots j) (D.slots j)) (hk : HostKeeps S i host)
    (hp : HostPlaces S i (n + hlHeapPrefix) host) (hoff : off < 2 ^ 32) (j : Nat) :
    LinkedTo (write32 host.mem host.addr off)
      (Function.update S.slots i (host.addr + hlHeapPrefix) j)
      (Function.update D.slots i (some off) j) := by
  obtain ⟨haddr, happ⟩ := hp
  refine linkedTo_update ?_ (fun j hj => (h j).congr fun h0 x hx hx' => ?_) j
  · refine .inr ⟨by omega, ?_⟩
    rw [Nat.add_sub_cancel, read32_write32, u32_of_lt hoff]
  · have hapart := happ j hj h0
    rw [write32_outside, hk j hj h0 x hx hx']
    unfold hlHeapPrefix at *
    omega

/-! ### The calls -/

theorem isSome_of_words {a a' : Arena} (h : a'.hostWords = a.hostWords)
    (ha : a.acct.isSome = true) : a'.acct.isSome = true := by
  have := congrArg isSome h
  simp only [Arena.hostWords, isSome_map] at this
  rwa [this]

theorem Shadowed.acct_isSome (h : Shadowed R B S D) :
    (S.heap.withRegion R).arena.acct.isSome = true := by
  have hacct : (S.heap.withRegion R).arena.acct = D.heap.arena.acct := by rw [h.arena]; rfl
  rw [hacct, h.acct]
  rfl

theorem Shadowed.answer (h : Shadowed R B S D) (granted : Bool) {x : Option (LuaVm × LuaSeen)}
    {y : Option (DirectHeap × LuaSeen)} (hx : x = some (S, ⟨granted, S.heap.used⟩))
    (hy : y = some (D, ⟨granted, D.used⟩)) : SameAnswer (Shadowed R B) x y :=
  .inr ⟨S, D, _, hx, by rw [hy, h.used], h⟩

theorem Shadowed.free (h : Shadowed R B S D) (hB : B ≠ 0) (hk : HostKeeps S i host) :
    SameAnswer (Shadowed R B) (luaStep R S (.free i, host)) (directStep D (.free i)) := by
  rcases h.slots i with ⟨hs, hd⟩ | ⟨hlt, hd⟩
  · -- nothing to free
    have hptr : D.ptr i = 0 := by rw [DirectHeap.ptr, hd]; rfl
    have hfree : arenaFree D.heap.arena 0 = some D.heap.arena := if_pos rfl
    have hsh : Shadowed R B ⟨S.heap, Function.update S.slots i 0⟩
        ⟨⟨D.heap.arena, dropLive 0 D.heap.live⟩, Function.update D.slots i none⟩ := by
      refine ⟨h.rv, h.stack, h.arena, h.base, h.acct, fun j hj => h.region j fun h0 => hj ?_,
        linkedTo_update (.inl ⟨rfl, rfl⟩) fun j _ => h.slots j⟩
      show Function.update S.slots i 0 j = 0
      rw [update_apply, h0, ite_self]
    refine hsh.answer true ?_ ?_
    · simp only [luaStep, HlHeap.luaAlloc, hs, if_true, map_some]
    · simp [directStep, hptr, heapStep, hfree]
  · have hs0 : S.slots i ≠ 0 := by omega
    have hb := h.region i hs0
    have harena := h.arena
    have hbase := h.base
    have hacct := h.acct_isSome
    rw [withRegion_of_base hb] at harena hbase hacct
    generalize hoff : read32 S.heap.mem (S.slots i - hlHeapPrefix) = off at hd
    have hptr : D.ptr i = B + off := by
      rw [DirectHeap.ptr, hd, harena]
      rfl
    have hmove := arenaFree_rebase hb hB off
    rw [← harena] at hmove
    simp only [luaStep, directStep, HlHeap.luaAlloc, if_true, if_neg hs0, hoff,
      heapStep, hptr, hmove]
    cases hf : arenaFree S.heap.arena (S.heap.arena.base + off) with
    | none => exact .inl ⟨rfl, rfl⟩
    | some a =>
      have hsh : Shadowed R B
          ⟨{ S.heap with arena := a, mem := host.mem }, Function.update S.slots i 0⟩
          ⟨⟨a.rebase B, dropLive (B + off) D.heap.live⟩, Function.update D.slots i none⟩ := by
        refine .of_region h.rv h.stack ((arenaFree_keeps hf).1.trans hbase) rfl
          (isSome_of_words (arenaFree_keeps hf).2 hacct)
          (linkedTo_update (.inl ⟨rfl, rfl⟩) fun j hj => (h.slots j).congr (hk j hj))
      exact hsh.answer true rfl rfl

/-- A request is a call of `arena_realloc_core`, also where the code calls `malloc`. -/
theorem allocOp_step (s : HeapState) (ptr rv : Nat) (noacct : Bool) :
    heapStep guestSizeMax s (allocOp ptr rv noacct)
        = (arenaReallocCore s.arena ptr rv noacct).map (fun r =>
            ⟨r.2, reallocLive ptr rv r.1 (!noacct) s.live⟩)
      ∧ (allocOp ptr rv noacct).answer guestSizeMax s
        = (arenaReallocCore s.arena ptr rv noacct).map Prod.fst := by
  unfold allocOp
  by_cases hp : ptr = 0
  · subst hp
    cases noacct <;> exact ⟨rfl, rfl⟩
  · rw [if_neg hp]
    cases noacct <;> exact ⟨rfl, rfl⟩

/-- This is the call that the hybrid session's model makes. -/
theorem hlLuaAlloc_eq (ptr : Nat) (hn : nsize ≠ 0) (published : Option Nat) (stack : Bool) :
    hlLuaAlloc ptr nsize published stack = allocOp ptr (published.getD nsize) stack :=
  if_neg hn

/-- The size that the allocator takes from the globals. -/
theorem rv_of_published (hrv : ∀ rv, published = some rv → rv < 2 ^ 32) :
    (if published.getD hostluaHeapRvUnset = hostluaHeapRvUnset then nsize
      else published.getD hostluaHeapRvUnset) = published.getD nsize := by
  cases published with
  | none => exact if_pos rfl
  | some rv =>
    have hlt := hrv rv rfl
    exact if_neg (by unfold hostluaHeapRvUnset; rw [getD_some]; omega)

theorem HlHeap.withRegion_fields (R : ShadowRegion) (h : HlHeap) :
    (h.withRegion R).mem = h.mem ∧ (h.withRegion R).memAcct = h.memAcct
      ∧ (h.withRegion R).rvPending = h.rvPending
      ∧ (h.withRegion R).stackPending = h.stackPending := by
  unfold withRegion
  split <;> exact ⟨rfl, rfl, rfl, rfl⟩

/-- The heap in which a request is finished. -/
def HlHeap.consumed (R : ShadowRegion) (h : HlHeap) : HlHeap :=
  { h.withRegion R with rvPending := hostluaHeapRvUnset, stackPending := false }

section

variable (h : Shadowed R B S D)
include h

theorem Shadowed.luaAlloc_eq (i : Nat) (stack : Bool) (host : HostReply)
    (hn : 0 < nsize) (hrv : ∀ rv, published = some rv → rv < 2 ^ 32) :
    ∃ p, SameOffset R.addr B p (D.ptr i)
      ∧ (S.heap.publish published stack).luaAlloc R (S.slots i) nsize host
        = (arenaReallocCore (S.heap.withRegion R).arena p (published.getD nsize) stack).map
            ((S.heap.consumed R).finish host) := by
  have hpub : (S.heap.publish published stack).withRegion R
      = { S.heap.withRegion R with
          rvPending := published.getD hostluaHeapRvUnset, stackPending := stack } := by
    unfold HlHeap.withRegion HlHeap.publish
    rw [h.rv, h.stack, Bool.or_false]
    split <;> rfl
  obtain ⟨hmem, -⟩ := S.heap.withRegion_fields R
  have hbase := h.base
  simp only [HlHeap.luaAlloc, if_neg (show nsize ≠ 0 by omega), hpub, rv_of_published hrv]
  rcases h.slots i with ⟨hs, hd⟩ | ⟨hlt, hd⟩
  · refine ⟨0, .inl ⟨rfl, by rw [DirectHeap.ptr, hd]; rfl⟩, ?_⟩
    rw [if_pos hs]
    cases stack <;> rfl
  · rw [← hmem] at hd
    refine ⟨R.addr + read32 (S.heap.withRegion R).mem (S.slots i - hlHeapPrefix),
      .inr ⟨_, rfl, ?_⟩, ?_⟩
    · rw [DirectHeap.ptr, hd, h.arena]
      rfl
    · rw [if_neg (by omega), hbase]
      cases stack <;> rfl

theorem Shadowed.alloc (hB : B ≠ 0) {stack : Bool} (hn : 0 < nsize)
    (hrv : ∀ rv, published = some rv → rv < 2 ^ 32) (hk : HostKeeps S i host)
    (hp : HostPlaces S i (nsize + hlHeapPrefix) host) :
    SameAnswer (Shadowed R B) (luaStep R S (.alloc i nsize published stack, host))
      (directStep D (.alloc i (published.getD nsize) stack)) := by
  obtain ⟨p, hpq, hlua⟩ := h.luaAlloc_eq i stack host hn hrv
  obtain ⟨hstep, hans⟩ := allocOp_step D.heap (D.ptr i) (published.getD nsize) stack
  have hA := h.base ▸ R.addr_ne
  have hmove := arenaReallocCore_move hA hB (h.base.symm ▸ hpq) (published.getD nsize) stack
  rw [← h.arena] at hmove
  rw [hmove, Option.map_map] at hstep hans
  have hDbase : D.heap.arena.base = B := by rw [h.arena]; rfl
  obtain ⟨hmem, -⟩ := S.heap.withRegion_fields R
  simp only [luaStep, directStep, hlua, hstep, hans, hDbase]
  cases hx : arenaReallocCore (S.heap.withRegion R).arena p (published.getD nsize) stack with
  | none => exact .inl ⟨rfl, rfl⟩
  | some r =>
    obtain ⟨q, a⟩ := r
    obtain ⟨hkept, hwords⟩ := arenaReallocCore_keeps hx
    have ha := hkept.trans h.base
    have hacct := isSome_of_words hwords h.acct_isSome
    by_cases hq : q = 0
    · have hsh : Shadowed R B ⟨{ S.heap.consumed R with arena := a }, S.slots⟩
          ⟨⟨a.rebase B, reallocLive (D.ptr i) (published.getD nsize) 0 (!stack) D.heap.live⟩,
            D.slots⟩ := by
        refine .of_region rfl rfl ha rfl hacct fun j => ?_
        show LinkedTo (S.heap.withRegion R).mem _ _
        rw [hmem]
        exact h.slots j
      refine hsh.answer false ?_ ?_
      · simp [HlHeap.finish, hq]
      · simp [moveResult, movePtr, hq]
    · have hsh : Shadowed R B
          ⟨HlHeap.linked { S.heap.consumed R with arena := a } host.addr q host,
            Function.update S.slots i (host.addr + hlHeapPrefix)⟩
          ⟨⟨a.rebase B, reallocLive (D.ptr i) (published.getD nsize) (B + (q - R.addr)) (!stack)
              D.heap.live⟩,
            Function.update D.slots i (some (u32 (q - R.addr)))⟩ := by
        refine .of_region rfl rfl ha rfl hacct fun j => ?_
        show LinkedTo (write32 host.mem host.addr (u32 (q - a.base))) _ _
        rw [ha]
        exact linkedTo_new h.slots hk hp (u32_lt _) j
      have hne : host.addr + hlHeapPrefix ≠ 0 :=
        fun h0 => hp.1 (Nat.eq_zero_of_add_eq_zero_right h0)
      have hne' : B + (q - R.addr) ≠ 0 := by omega
      refine hsh.answer true ?_ ?_
      · simp only [map_some, HlHeap.finish, hq, hne, if_false, ne_eq,
          not_false_eq_true, decide_true]
      · simp only [map_some, comp, moveResult, movePtr, hq, hne', h.base,
          if_false, ne_eq, not_false_eq_true, decide_true, getD_some,
          Nat.add_sub_cancel_left]

theorem Shadowed.account (footprint baseline : Nat) (host : HostReply) :
    SameAnswer (Shadowed R B) (luaStep R S (.account footprint baseline, host))
      (directStep D (.account footprint baseline)) := by
  have hregion : (S.heap.account footprint baseline).withRegion R
      = (S.heap.withRegion R).account footprint baseline := by
    by_cases hb : S.heap.arena.base = 0
    · have hb' : (S.heap.account footprint baseline).arena.base = 0 := hb
      rw [HlHeap.withRegion, HlHeap.withRegion, if_pos hb, if_pos hb']
      rfl
    · have hb' : (S.heap.account footprint baseline).arena.base ≠ 0 := hb
      rw [withRegion_of_base hb, withRegion_of_base hb']
  have hsh : Shadowed R B ⟨S.heap.account footprint baseline, S.slots⟩
      ⟨⟨D.heap.arena.account footprint baseline, D.heap.live⟩, D.slots⟩ := by
    refine ⟨h.rv, h.stack, ?_, ?_, ?_, h.region, h.slots⟩
    · rw [hregion, h.arena]
      rfl
    · rw [hregion]
      exact h.base
    · show D.heap.arena.acct.map _ = some ((S.heap.arena.acct.map _).getD _)
      rw [h.acct]
      cases S.heap.arena.acct <;> rfl
  exact hsh.answer true rfl rfl

/-- **Step lemma.** -/
theorem Shadowed.step (hB : B ≠ 0) {e : LuaEvent × HostReply} (hfair : LuaEvent.Fair S e) :
    SameAnswer (Shadowed R B) (luaStep R S e) (directStep D e.1.request) := by
  obtain ⟨event, host⟩ := e
  cases event with
  | free => exact h.free hB hfair.2
  | alloc =>
    exact h.alloc hB hfair.1.1 (fun rv hrv => (hfair.1.2 rv hrv).2) hfair.2.1 hfair.2.2
  | account footprint baseline => exact h.account footprint baseline host

end

/-- **Run lemma.** An arena that starts with the bytes of the region shows the same. -/
theorem shadow_run (hB : B ≠ 0) {mem : ByteMem} {c : MemAccounting}
    {es : List (LuaEvent × HostReply)}
    (hfair : AdmRun (fun S e => (luaStep R S e).map Prod.fst) LuaEvent.Fair
      (LuaVm.start mem c) es) :
    showsOf (luaStep R) (LuaVm.start mem c) es
      = showsOf directStep (DirectHeap.start B R.bytes c) (es.map fun e => e.1.request) := by
  rw [showsOf_map]
  exact showsOf_simulation (fun S D e h he => h.step hB he) (shadowed_start mem c) hfair

end Shadow

/-! ## An arena over other bytes

Where no request wraps the 32-bit sizes, the allocator reads no byte that it has not
written, and the arena may start with any bytes. -/

/-- The offsets that the caller keeps are those of held blocks, each in one slot. -/
structure SlotsHeld (A : Nat) (slots : Nat → Option Nat) (ptrs : List Nat) : Prop where
  held : ∀ i x, slots i = some x → A + x ∈ ptrs
  inj : ∀ i j x, slots i = some x → slots j = some x → i = j

section Slots

variable {A : Nat} {slots : Nat → Option Nat} {ptrs : List Nat}

theorem SlotsHeld.drop (h : SlotsHeld A slots ptrs) (hA : A ≠ 0) (hnd : ptrs.Nodup) (i : Nat) :
    SlotsHeld A (Function.update slots i none) (ptrs.erase ((slots i).elim 0 (A + ·))) := by
  have hkept : ∀ j x, Function.update slots i none j = some x → j ≠ i ∧ slots j = some x := by
    intro j x hj
    rw [update_apply] at hj
    split at hj <;> rename_i hji
    · cases hj
    · exact ⟨hji, hj⟩
  refine ⟨fun j x hj => ?_, fun j k x hj hk => h.inj j k x (hkept j x hj).2 (hkept k x hk).2⟩
  obtain ⟨hji, hjx⟩ := hkept j x hj
  refine hnd.mem_erase_iff.mpr ⟨?_, h.held j x hjx⟩
  cases hi : slots i with
  | none =>
    show A + x ≠ 0
    omega
  | some =>
    rintro hxy
    obtain rfl := Nat.add_left_cancel hxy
    exact hji (h.inj j i x hjx hi)

theorem SlotsHeld.give (h : SlotsHeld A slots ptrs) {x : Nat} (hx : A + x ∉ ptrs) (i : Nat) :
    SlotsHeld A (Function.update slots i (some x)) ((A + x) :: ptrs) := by
  have hcases : ∀ j y, Function.update slots i (some x) j = some y →
      (j = i ∧ y = x) ∨ slots j = some y := by
    intro j y hj
    rw [update_apply] at hj
    split at hj <;> rename_i hji
    · exact .inl ⟨hji, (some.inj hj).symm⟩
    · exact .inr hj
  -- the new offset is in no other slot
  have hother : ∀ j, slots j ≠ some x := fun j hj => hx (h.held j x hj)
  refine ⟨fun j y hj => ?_, fun j k y hj hk => ?_⟩
  · rcases hcases j y hj with ⟨-, rfl⟩ | hj
    · exact mem_cons_self
    · exact mem_cons_of_mem _ (h.held j y hj)
  · rcases hcases j y hj with ⟨rfl, rfl⟩ | hj'
    · rcases hcases k y hk with ⟨rfl, -⟩ | hk'
      · rfl
      · exact absurd hk' (hother k)
    · rcases hcases k y hk with ⟨rfl, rfl⟩ | hk'
      · exact absurd hj' (hother j)
      · exact h.inj j k y hj' hk'

end Slots

theorem dropLive_ptrs (p : Nat) (live : List LiveBlock) :
    (dropLive p live).map LiveBlock.ptr = (live.map LiveBlock.ptr).erase p := by
  rw [erase_eq_eraseP', eraseP_map]
  rfl

theorem resizeLive_ptrs (p n : Nat) (live : List LiveBlock) :
    (resizeLive p n live).map LiveBlock.ptr = live.map LiveBlock.ptr := by
  unfold resizeLive
  rw [List.map_map]
  refine map_congr_left fun b _ => ?_
  show (if b.ptr = p then { b with req := n } else b).ptr = b.ptr
  split <;> rfl

theorem HeapInv.ptrs_nodup {s : HeapState} (h : HeapInv s) : (s.live.map LiveBlock.ptr).Nodup := by
  obtain ⟨offs, fl, -, hl⟩ := h
  exact hl.nodup

theorem SlotsHeld.realloc {A : Nat} {slots : Nat → Option Nat} {live : List LiveBlock}
    (h : SlotsHeld A slots (live.map LiveBlock.ptr)) (hA : A ≠ 0)
    (hnd : (live.map LiveBlock.ptr).Nodup) {i p n x : Nat} {acct : Bool}
    (hp : p = (slots i).elim 0 (A + ·)) (hn : n ≠ 0)
    (hnd' : ((reallocLive p n (A + x) acct live).map LiveBlock.ptr).Nodup) :
    SlotsHeld A (Function.update slots i (some x))
      ((reallocLive p n (A + x) acct live).map LiveBlock.ptr) := by
  have hq : A + x ≠ 0 := by omega
  unfold reallocLive at hnd' ⊢
  rw [if_neg hn, if_neg hq] at hnd' ⊢
  by_cases hp0 : p = 0
  · rw [if_pos hp0, addLive, if_neg hq] at hnd' ⊢
    exact h.give (nodup_cons.mp hnd').1 i
  · rw [if_neg hp0] at hnd' ⊢
    by_cases hqp : A + x = p
    · -- in place: the slot has this offset already
      rw [if_pos hqp, resizeLive_ptrs]
      have hi : slots i = some x := by
        cases hi : slots i with
        | none => exact absurd (hp.trans (by rw [hi]; rfl)) hp0
        | some y =>
          rw [hi] at hp
          have hxy : A + x = A + y := hqp.trans hp
          rw [Nat.add_left_cancel hxy]
      rwa [← hi, update_eq_self]
    · rw [if_neg hqp, map_cons, dropLive_ptrs] at hnd' ⊢
      have hdrop := h.drop hA hnd i
      rw [← hp] at hdrop
      have hgive := hdrop.give (nodup_cons.mp hnd').1 i
      rwa [update_idem] at hgive

/-- Two direct heaps at work on the same requests. -/
structure TwinDirects (A B : Nat) (D E : DirectHeap) : Prop where
  heaps : TwinHeaps A B D.heap E.heap
  slots : E.slots = D.slots
  held : SlotsHeld A D.slots (D.heap.live.map LiveBlock.ptr)

/-- Requests are for something, and do not wrap with their header. -/
def LuaRequest.Fits : LuaRequest → Prop
  | .alloc _ rv _ => 0 < rv ∧ rv + 31 < 2 ^ 32
  | _ => True

section Twins

variable {A B : Nat} {D E : DirectHeap}

theorem TwinDirects.used (h : TwinDirects A B D E) : E.used = D.used := by
  unfold DirectHeap.used
  rw [h.heaps.used]

/-- A slot's pointer is `NULL` or a held block's, and the same block's in both. -/
theorem TwinDirects.ptr (h : TwinDirects A B D E) (i : Nat) :
    D.ptr i = (D.slots i).elim 0 (A + ·) ∧ NullOrLive D.heap (D.ptr i)
      ∧ NullOrLive E.heap (E.ptr i) ∧ SamePtr A B (D.ptr i) (E.ptr i) := by
  obtain ⟨hA, hB⟩ := h.heaps.bases
  unfold DirectHeap.ptr
  rw [hA, hB, h.slots]
  refine ⟨rfl, ?_⟩
  cases hi : D.slots i with
  | none => exact ⟨.inl rfl, .inl rfl, .inl ⟨rfl, rfl⟩⟩
  | some x =>
    obtain ⟨b, hb, hbx⟩ := List.mem_map.mp (h.held.held i x hi)
    exact ⟨.inr ⟨b, hb, hbx⟩, (h.heaps.held hb hbx).imp_left .inr⟩

theorem TwinDirects.answer {D' E' : DirectHeap} (h : TwinDirects A B D' E') (granted : Bool)
    {x y : Option (DirectHeap × LuaSeen)} (hx : x = some (D', ⟨granted, D'.used⟩))
    (hy : y = some (E', ⟨granted, E'.used⟩)) : SameAnswer (TwinDirects A B) x y :=
  .inr ⟨D', E', _, hx, by rw [hy, h.used], h⟩

theorem TwinDirects.free (h : TwinDirects A B D E) (hA : A ≠ 0) (i : Nat) :
    SameAnswer (TwinDirects A B) (directStep D (.free i)) (directStep E (.free i)) := by
  obtain ⟨hptr, hp, hq, hpq⟩ := h.ptr i
  obtain ⟨a, b, ha, hb, h'⟩ := h.heaps.free hp hq hpq
  have hheld := h.held.drop hA h.heaps.inv.ptrs_nodup i
  rw [← hptr, ← dropLive_ptrs] at hheld
  have htwins : TwinDirects A B
      ⟨⟨a, dropLive (D.ptr i) D.heap.live⟩, Function.update D.slots i none⟩
      ⟨⟨b, dropLive (E.ptr i) E.heap.live⟩, Function.update E.slots i none⟩ :=
    ⟨h', by rw [h.slots], hheld⟩
  refine htwins.answer true ?_ ?_
  · simp [directStep, heapStep, ha]
  · simp [directStep, heapStep, hb]

variable {s : HeapState} {n : Nat}

/-- The offset of a held block fits in the hidden word. -/
theorem HeapInv.offset_lt (h : HeapInv s) {b : LiveBlock} (hb : b ∈ s.live) :
    ∃ x, b.ptr = s.arena.base + x ∧ u32 x = x := by
  obtain ⟨-, offs, fl, o, hs, -, ho⟩ := h.of_live hb
  refine ⟨o + hdrSize, by rw [ho.ptr, Nat.add_assoc], u32_of_lt ?_⟩
  have hbump := hs.bump_lt
  have hend : o + blkSize s.arena o ≤ s.arena.bump := hs.end_le ho.inUse.1
  have hreq := ho.req
  omega

theorem reallocLive_refused (p : Nat) (hn : n ≠ 0) (acct : Bool)
    (live : List LiveBlock) : reallocLive p n 0 acct live = live := by
  unfold reallocLive addLive
  rw [if_pos rfl, if_neg hn, if_pos rfl, ite_self]

theorem mem_reallocLive {p q : Nat} {acct : Bool} {live : List LiveBlock} (hn : n ≠ 0) (hq : q ≠ 0)
    (hp : p = 0 ∨ ∃ b ∈ live, b.ptr = p) : ∃ b ∈ reallocLive p n q acct live, b.ptr = q := by
  unfold reallocLive
  rw [if_neg hn, if_neg hq]
  split <;> rename_i hp0
  · rw [addLive, if_neg hq]
    exact ⟨_, mem_cons_self, rfl⟩
  · by_cases hqp : q = p
    · obtain ⟨b, hb, hbp⟩ := hp.resolve_left hp0
      have hmem : q ∈ (resizeLive p n live).map LiveBlock.ptr := by
        rw [resizeLive_ptrs, hqp, ← hbp]
        exact List.mem_map_of_mem hb
      rw [if_pos hqp]
      exact List.mem_map.mp hmem
    · rw [if_neg hqp]
      exact ⟨_, mem_cons_self, rfl⟩

theorem TwinDirects.alloc (h : TwinDirects A B D E) (hA : A ≠ 0) (hB : B ≠ 0) {i rv : Nat}
    (noacct : Bool) (hpos : 0 < rv) (hrv : rv + 31 < 2 ^ 32) :
    SameAnswer (TwinDirects A B) (directStep D (.alloc i rv noacct))
      (directStep E (.alloc i rv noacct)) := by
  obtain ⟨hptr, hp, hq, hpq⟩ := h.ptr i
  obtain ⟨p', q', a, b, hr, hr', hpq', h'⟩ :=
    h.heaps.realloc (iff_of_false hA hB) noacct hrv hp hq hpq
  obtain ⟨hstep, hans⟩ := allocOp_step D.heap (D.ptr i) rv noacct
  obtain ⟨hstep', hans'⟩ := allocOp_step E.heap (E.ptr i) rv noacct
  obtain ⟨hbase, hbase'⟩ := h.heaps.bases
  simp only [directStep, hstep, hstep', hans, hans', hr, hr', hbase, hbase', map_some, getD_some]
  by_cases hp' : p' = 0
  · have hq' := hpq'.null_iff.mpr hp'
    subst hp' hq'
    have hlive : reallocLive (D.ptr i) rv 0 (!noacct) D.heap.live = D.heap.live :=
      reallocLive_refused _ hpos.ne' _ _
    have htwins : TwinDirects A B ⟨⟨a, reallocLive (D.ptr i) rv 0 (!noacct) D.heap.live⟩, D.slots⟩
        ⟨⟨b, reallocLive (E.ptr i) rv 0 (!noacct) E.heap.live⟩, E.slots⟩ :=
      ⟨h', h.slots, by simpa only [hlive] using h.held⟩
    exact htwins.answer false rfl rfl
  · have hq' := mt hpq'.null_iff.mp hp'
    obtain ⟨x, hx, hxp⟩ : ∃ x ∈ reallocLive (D.ptr i) rv p' (!noacct) D.heap.live, x.ptr = p' :=
      mem_reallocLive hpos.ne' hp' hp
    obtain ⟨off, hoff, hu⟩ := h'.inv.offset_lt hx
    obtain rfl : p' = A + off := by rw [← hxp, hoff, h'.bases.1]
    obtain rfl : q' = B + off := by
      obtain ⟨h0, -⟩ | ⟨o, ho, ho'⟩ := hpq'
      · exact absurd h0 hp'
      · omega
    have hheld := h.held.realloc hA h.heaps.inv.ptrs_nodup hptr hpos.ne' h'.inv.ptrs_nodup
    have htwins : TwinDirects A B
        ⟨⟨a, reallocLive (D.ptr i) rv (A + off) (!noacct) D.heap.live⟩,
          Function.update D.slots i (some off)⟩
        ⟨⟨b, reallocLive (E.ptr i) rv (B + off) (!noacct) E.heap.live⟩,
          Function.update E.slots i (some off)⟩ :=
      ⟨h', by rw [h.slots], hheld⟩
    refine htwins.answer true ?_ ?_
    · simp only [hp', if_false, ne_eq, not_false_eq_true, decide_true, Nat.add_sub_cancel_left, hu]
    · simp only [hq', if_false, ne_eq, not_false_eq_true, decide_true, Nat.add_sub_cancel_left, hu]

theorem ensureReady_account (a : Arena) (footprint baseline : Nat) :
    ensureReady (a.account footprint baseline) = (ensureReady a).account footprint baseline := by
  unfold ensureReady Arena.account
  split <;> rfl

theorem HeapInv.account (h : HeapInv s) (footprint baseline : Nat) :
    HeapInv ⟨s.arena.account footprint baseline, s.live⟩ := by
  unfold Arena.account
  cases hc : s.arena.acct with
  | none =>
    rw [map_none, ← hc]
    exact h
  | some => exact h.setAcct hc rfl

theorem TwinHeaps.account {t : HeapState} (h : TwinHeaps A B s t) (footprint baseline : Nat) :
    TwinHeaps A B ⟨s.arena.account footprint baseline, s.live⟩
      ⟨t.arena.account footprint baseline, t.live⟩ := by
  refine ⟨h.inv.account _ _, h.inv'.account _ _, ?_, h.live⟩
  obtain ⟨offs, fl, hs, hab⟩ := h.twins
  refine ⟨offs, fl, ?_, ?_⟩
  · rw [ensureReady_account]
    exact ⟨hs.toThreaded, hs.bump_le⟩
  · rw [ensureReady_account, ensureReady_account]
    have hacct := congrArg (Option.map fun w : Nat × Nat × Nat => (w.1, footprint, baseline))
      hab.acct
    rw [Option.map_map, Option.map_map] at hacct
    refine ⟨hab.base, hab.base', hab.size, hab.bump, hab.freeHead, hab.ready, ?_, hab.hdr⟩
    show (Option.map _ _).map _ = (Option.map _ _).map _
    rw [Option.map_map, Option.map_map]
    exact hacct

/-- **Step lemma.** -/
theorem TwinDirects.step (h : TwinDirects A B D E) (hA : A ≠ 0) (hB : B ≠ 0) {r : LuaRequest}
    (hr : r.Fits) : SameAnswer (TwinDirects A B) (directStep D r) (directStep E r) := by
  cases r with
  | free i => exact h.free hA i
  | alloc i rv noacct => exact h.alloc hA hB noacct hr.1 hr.2
  | account footprint baseline =>
    have htwins : TwinDirects A B ⟨⟨D.heap.arena.account footprint baseline, D.heap.live⟩, D.slots⟩
        ⟨⟨E.heap.arena.account footprint baseline, E.heap.live⟩, E.slots⟩ :=
      ⟨h.heaps.account footprint baseline, h.slots, h.held⟩
    exact htwins.answer true rfl rfl

/-- **Run lemma.** Two arenas over different bytes show the same. -/
theorem direct_run (hA : A ≠ 0) (hB : B ≠ 0) (bytes bytes' : ByteMem) {c : MemAccounting}
    (hc : c.guestHeapUsed = 0) {rs : List LuaRequest} (hrs : ∀ r ∈ rs, r.Fits) :
    showsOf directStep (DirectHeap.start A bytes c) rs
      = showsOf directStep (DirectHeap.start B bytes' c) rs := by
  have hfresh : ∀ base bytes, (stampedArena base bytes c).Fresh :=
    fun _ _ => ⟨rfl, fun c' hc' => by cases hc'; exact hc⟩
  have hstart : TwinDirects A B (DirectHeap.start A bytes c) (DirectHeap.start B bytes' c) :=
    ⟨.fresh (hfresh A bytes) (hfresh B bytes') rfl rfl, rfl, by simp [DirectHeap.start],
      by simp [DirectHeap.start]⟩
  exact showsOf_simulation (fun D E r h hr => h.step hA hB hr) hstart (.of_forall hrs _)

end Twins

/-! ## The shadow heap depends on the rv32 sizes only -/

/-- **Grants, refusals and `guest_heap_used` are those of the rv32 sizes and flags given to an
arena**, wherever the host puts the objects and however large they are there. The arena stands
at any address. It starts with the bytes of the shadow region, or with any others if no
request wraps. -/
theorem hostlua_accounting (R : ShadowRegion) {B : Nat} (hB : B ≠ 0) {mem bytes : ByteMem}
    {c : MemAccounting} {es : List (LuaEvent × HostReply)}
    (hfair : AdmRun (fun S e => (luaStep R S e).map Prod.fst) LuaEvent.Fair (LuaVm.start mem c) es)
    (hbytes : bytes = R.bytes ∨ c.guestHeapUsed = 0 ∧ ∀ e ∈ es, e.1.request.Fits) :
    showsOf (luaStep R) (LuaVm.start mem c) es
      = showsOf directStep (DirectHeap.start B bytes c) (es.map fun e => e.1.request) := by
  rw [shadow_run hB hfair]
  obtain rfl | ⟨hc, hfits⟩ := hbytes
  · rfl
  · refine direct_run hB hB R.bytes bytes hc fun r hr => ?_
    obtain ⟨e, he, rfl⟩ := List.mem_map.mp hr
    exact hfits e he

/-- A table of 40 bytes on the host and 24 on rv32, grown and freed. -/
def demoCalls : List (LuaEvent × HostReply) :=
  [(.alloc 0 40 (some 24) false, ⟨0x1000, fun _ => 0⟩),
    (.alloc 0 400 (some 240) false, ⟨0x2000, fun _ => 0⟩),
    (.free 0, ⟨0, fun _ => 0⟩)]

/-- Only slot 0 is in use, so no other object is there to be disturbed. -/
theorem demoCalls_fair (R : ShadowRegion) (mem : ByteMem) (c : MemAccounting) :
    AdmRun (fun S e => (luaStep R S e).map Prod.fst) LuaEvent.Fair (LuaVm.start mem c)
      demoCalls := by
  have hstep : ∀ {S S' : LuaVm} {e : LuaEvent × HostReply}, (∀ j, j ≠ 0 → S.slots j = 0) →
      e.1.slot = some 0 → (luaStep R S e).map Prod.fst = some S' → ∀ j, j ≠ 0 → S'.slots j = 0 := by
    intro S S' e hS he h j hj
    rw [luaStep_frame h (by rw [he]; exact fun h0 => hj (some.inj h0).symm), hS j hj]
  have hkeeps : ∀ {S : LuaVm} (host : HostReply), (∀ j, j ≠ 0 → S.slots j = 0) →
      HostKeeps S 0 host := fun _ hS j hj h0 => absurd (hS j hj) h0
  have hplaces : ∀ {S : LuaVm} {host : HostReply} (n : Nat), (∀ j, j ≠ 0 → S.slots j = 0) →
      host.addr ≠ 0 → HostPlaces S 0 n host :=
    fun _ hS haddr => ⟨haddr, fun j hj h0 => absurd (hS j hj) h0⟩
  have h0 : ∀ j, j ≠ 0 → (LuaVm.start mem c).slots j = 0 := fun _ _ => rfl
  refine ⟨⟨⟨by decide, by decide⟩, hkeeps _ h0, hplaces _ h0 (by decide)⟩, fun S₁ hS1 => ?_⟩
  have h1 := hstep h0 rfl hS1
  refine ⟨⟨⟨by decide, by decide⟩, hkeeps _ h1, hplaces _ h1 (by decide)⟩, fun S₂ hS2 => ?_⟩
  exact ⟨⟨trivial, hkeeps _ (hstep h1 rfl hS2)⟩, fun _ _ => trivial⟩

theorem hostlua_accounting_demo :
    showsOf (luaStep ⟨0x10000, fun _ => 0xAA, by decide⟩) (LuaVm.start (fun _ => 0) ⟨0, 0, 0, 0⟩)
        demoCalls
      = showsOf directStep (DirectHeap.start 0x40000000 (fun _ => 0) ⟨0, 0, 0, 0⟩)
          [.alloc 0 24 false, .alloc 0 240 false, .free 0] :=
  hostlua_accounting _ (by decide) (demoCalls_fair _ _ _)
    (.inr ⟨rfl, by simp [demoCalls, LuaEvent.request, LuaRequest.Fits]⟩)

end Blyt
