import Blyt.Session

/-!
# Strings over the Lua bridge

A native function reached from Lua reads its string arguments with
`lua_tolstring`. The string lives on the host, so the stub copies it into guest
memory: into a static arena of 4096 bytes handed out from the bottom, or, when
that is full, into one block from `malloc` that every later string shares. The
arena starts over whenever the call token differs from the last one seen. A
bridged call may call back into Lua and so reach a second native function; the
host gives that call a token of its own and puts the old one back afterwards.

The state below is what the stub keeps between calls, together with the stack of
the calls under way. Each call carries the strings it has been given so far,
which the program does not read: they are the pointers that native code may
still be holding.
-/

namespace Blyt

open List Option Function

/-- Where a string can be: the static array, or the `g`-th block `malloc` handed out. -/
inductive StringBlock
  | static
  | heap (g : Nat)
  deriving DecidableEq

structure StringPtr where
  block : StringBlock
  off : Nat
  deriving DecidableEq

/-- A pointer that `lua_tolstring` returned, and the string it was returned for. -/
structure HeldString where
  ptr : StringPtr
  text : List UInt8

/-- The string as C has it. -/
def HeldString.bytes (h : HeldString) : List UInt8 := h.text ++ [0]

structure BridgeCall where
  token : Nat
  held : List HeldString

/-- The globals of the stub, the memory behind them and the calls under way, the innermost
first. `heap` is `g_arena_heap`, named by its place among the `mallocs` so far. -/
structure LuaBridge where
  mem : StringBlock → ByteMem
  heap : Option Nat
  mallocs : Nat
  heapCap : Nat
  used : Nat
  token : Nat
  nextToken : Nat
  calls : List BridgeCall

def arenaStaticCap : Nat := 4096

namespace LuaBridge

def arenaReset (b : LuaBridge) (L : Nat) : LuaBridge :=
  if b.token ≠ L then { b with token := L, used := 0 } else b

/-- `arena_alloc`, where `ok` says whether `malloc` has the memory. Sums are 32 bits wide. -/
def arenaAlloc (b : LuaBridge) (L n : Nat) (ok : Bool) : Option StringPtr × LuaBridge :=
  let b := b.arenaReset L
  if u32 (b.used + n) ≤ arenaStaticCap then
    (some ⟨.static, b.used⟩, { b with used := u32 (b.used + n) })
  else
    let b :=
      if n > b.heapCap then
        if ok then { b with heap := some b.mallocs, mallocs := b.mallocs + 1, heapCap := n }
        else { b with heap := none, heapCap := 0 }
      else b
    (b.heap.map fun g => ⟨.heap g, 0⟩, b)

/-- What the host answers to `OP_TOLSTRING`. `failed` raises an error in the caller, and the
native function is never returned to. -/
inductive TolstringStatus
  | nil
  | retry (full : Nat)
  | failed
  | ok

/-- Whether `n` bytes of a buffer of the arena are guest RAM. A null buffer is: address 0 is
the start of the RAM. A block is as long as what was asked for; only a request that wrapped
around in the sum above ends beyond the static array, and then gigabytes beyond it. -/
def inRam (buf : Option StringPtr) (n : Nat) : Bool :=
  match buf with
  | some ⟨.static, off⟩ => off + n ≤ arenaStaticCap
  | _ => true

/-- The string and its NUL, stored at `p`. -/
def storeString (b : LuaBridge) (p : StringPtr) (text : List UInt8) : LuaBridge :=
  { b with
    mem := Function.update b.mem p.block (writeGuest (b.mem p.block) p.off (text ++ [0])) }

/-- `OP_TOLSTRING` on a value that is the string `text`, or is none. What is stored through a
null pointer is at the bottom of the guest's RAM, apart from the arena. -/
def opTolstring (b : LuaBridge) (value : Option (List UInt8)) (buf : Option StringPtr)
    (cap : Nat) : TolstringStatus × LuaBridge :=
  match value with
  | none => (.nil, b)
  | some text =>
    if text.length + 1 > cap then (.retry (u32 text.length), b)
    else if inRam buf (text.length + 1) then
      (.ok, match buf with
        | none => b
        | some p => b.storeString p text)
    else (.failed, b)

/-- The innermost call is over: its wrapper returned, or an error unwound it. -/
def leave (b : LuaBridge) : LuaBridge := { b with calls := b.calls.tail }

/-- The innermost call has been given a pointer; a null pointer is no string. -/
def giveOut (b : LuaBridge) (buf : Option StringPtr) (text : List UInt8) : LuaBridge :=
  match buf, b.calls with
  | some p, c :: cs => { b with calls := { c with held := ⟨p, text⟩ :: c.held } :: cs }
  | _, _ => b

/-- `lua_tolstring` in the call with token `L`: 64 bytes first, and as many as the string
needs when those are too few. `ok₁` and `ok₂` are what `malloc` would answer. -/
def luaTolstring (b : LuaBridge) (L : Nat) (value : Option (List UInt8)) (ok₁ ok₂ : Bool) :
    LuaBridge :=
  let (buf, b) := b.arenaAlloc L 64 ok₁
  match b.opTolstring value buf 64 with
  | (.nil, b) => b
  | (.failed, b) => b.leave
  | (.ok, b) => b.giveOut buf (value.getD [])
  | (.retry full, b) =>
    let n := u32 (full + 1)
    let (buf, b) := b.arenaAlloc L n ok₂
    if buf = none then b
    else match b.opTolstring value buf n with
      | (.ok, b) => b.giveOut buf (value.getD [])
      | (.failed, b) => b.leave
      | (_, b) => b

/-- A bridged call begins: the next token, never 0. -/
def enter (b : LuaBridge) : LuaBridge :=
  let t := u32 (b.nextToken + 1)
  let t := if t = 0 then 1 else t
  { b with nextToken := t, calls := ⟨t, []⟩ :: b.calls }

end LuaBridge

/-- What native code and Lua can make of the bridge's strings: a bridged call, from Lua or
from within another one, its end, and a string asked for by the innermost call. -/
inductive BridgeEvent
  | enter
  | leave
  | tolstring (value : Option (List UInt8)) (ok₁ ok₂ : Bool)

def bridgeStep (b : LuaBridge) : BridgeEvent → Option LuaBridge
  | .enter => some b.enter
  | .leave => some b.leave
  | .tolstring value ok₁ ok₂ =>
    match b.calls with
    | [] => some b
    | c :: _ => some (b.luaTolstring c.token value ok₁ ok₂)

/-- A guest that has just been loaded, with anything at all in memory `malloc` has not handed
out yet. -/
def bridgeStart (mem : StringBlock → ByteMem) : LuaBridge := ⟨mem, none, 0, 0, 0, 0, 0, []⟩

/-! ## What a pointer is good for -/

namespace LuaBridge

/-- The pointers that may still be used. -/
def active (b : LuaBridge) : List HeldString := b.calls.flatMap BridgeCall.held

/-- The block has not been freed. -/
def Owns (b : LuaBridge) : StringBlock → Prop
  | .static => True
  | .heap g => b.heap = some g

instance (b : LuaBridge) : DecidablePred b.Owns := fun k => by
  cases k <;> unfold Owns <;> infer_instance

/-- The pointer points to its own string, NUL-terminated, in memory that is still there. -/
def Holds (b : LuaBridge) (h : HeldString) : Prop :=
  b.Owns h.ptr.block ∧ readGuest (b.mem h.ptr.block) h.ptr.off h.bytes.length = h.bytes

def Kept (b : LuaBridge) : Prop := ∀ h ∈ b.active, b.Holds h

instance (b : LuaBridge) : Decidable b.Kept :=
  inferInstanceAs (Decidable (∀ h ∈ b.active, _ ∧ _))

end LuaBridge

/-- After the event every pointer that may still be used is good. -/
def BridgeEvent.KeepsStrings (b : LuaBridge) (e : BridgeEvent) : Prop :=
  ∀ b' ∈ bridgeStep b e, b'.Kept

instance (b : LuaBridge) (e : BridgeEvent) : Decidable (e.KeepsStrings b) :=
  inferInstanceAs (Decidable (∀ b' ∈ bridgeStep b e, _))

namespace LuaBridge

/-! ## Where the next string goes

The condition looks at the state before the call only: how far the arena is
filled, as the call will find it, and which strings in use lie where the new one
goes. -/

/-- How far the arena is filled for a call with token `L`: any other call, nested or over,
that asked for a string since has made it start over. -/
def filled (b : LuaBridge) (L : Nat) : Nat := if b.token = L then b.used else 0

/-- `new` at `off` and the string in use at `h` have the same bytes wherever they overlap. -/
def Agrees (off : Nat) (new : List UInt8) (h : HeldString) : Prop :=
  ∀ i < new.length, ∀ j < h.bytes.length, off + i = h.ptr.off + j →
    new.getD i 0 = h.bytes.getD j 0

instance (off : Nat) (new : List UInt8) (h : HeldString) : Decidable (Agrees off new h) :=
  inferInstanceAs (Decidable (∀ i < new.length, _))

/-- A string of the innermost call that takes `n` bytes of the arena, filled up to `off`. If
it fits the static array it spoils no string in use there. If it does not, no string in use
is in the heap block, unless the block is large enough to stay and the two agree. -/
def PlaceClear (b : LuaBridge) (off n : Nat) (text : List UInt8) : Prop :=
  if u32 (off + n) ≤ arenaStaticCap then
    text.length + 1 ≤ n → off + n ≤ arenaStaticCap → ∀ h ∈ b.active,
      h.ptr.block = .static → Agrees off (text ++ [0]) h
  else ∀ h ∈ b.active, h.ptr.block ≠ .static →
    n ≤ b.heapCap ∧ (text.length + 1 ≤ n → Agrees 0 (text ++ [0]) h)

instance (b : LuaBridge) (off n : Nat) (text : List UInt8) :
    Decidable (b.PlaceClear off n text) := by
  unfold PlaceClear; infer_instance

end LuaBridge

/-- The string asked for goes where no string in use is spoiled. The 64 bytes of the first
try stay taken when the string turns out to be longer. -/
def BridgeEvent.Clear (b : LuaBridge) : BridgeEvent → Prop
  | .tolstring (some text) _ _ =>
    match b.calls with
    | [] => True
    | c :: _ =>
      if text.length < 64 then b.PlaceClear (b.filled c.token) 64 text
      else b.PlaceClear
        (if b.filled c.token + 64 ≤ arenaStaticCap then b.filled c.token + 64 else b.filled c.token)
        (u32 (u32 text.length + 1)) text
  | _ => True

instance (b : LuaBridge) (e : BridgeEvent) : Decidable (e.Clear b) := by
  unfold BridgeEvent.Clear; split
  · split
    · exact .isTrue trivial
    · infer_instance
  · exact .isTrue trivial

/-! ## Writes that spare a string -/

/-- A string survives a write exactly if the two agree where they overlap. -/
theorem readGuest_writeGuest_iff {m : ByteMem} {a b : Nat} {new bs : List UInt8}
    (h : readGuest m b bs.length = bs) :
    readGuest (writeGuest m a new) b bs.length = bs ↔
      ∀ i < new.length, ∀ j < bs.length, a + i = b + j → new.getD i 0 = bs.getD j 0 := by
  rw [readGuest_eq_iff] at h ⊢
  constructor
  · intro hw i hi j hj hij
    rw [← hw j hj, ← hij, writeGuest, if_pos (by omega), Nat.add_sub_cancel_left]
  · intro hag j hj
    rw [writeGuest]
    split
    · exact hag _ (by omega) j hj (by omega)
    · rw [h j hj]

variable (b : LuaBridge)

namespace LuaBridge

variable {b : LuaBridge} {c : BridgeCall} {cs : List BridgeCall} {h : HeldString} {p : StringPtr}
  {L n : Nat} {b' : LuaBridge} {text : List UInt8}

theorem active_cons (hc : b.calls = c :: cs) : b.active = c.held ++ cs.flatMap BridgeCall.held := by
  rw [active, hc, flatMap_cons]

theorem storeString_mem (p : StringPtr) (text : List UInt8) :
    (b.storeString p text).mem
      = Function.update b.mem p.block (writeGuest (b.mem p.block) p.off (text ++ [0])) := rfl

theorem storeString_holds_iff (hh : b.Holds h) (p : StringPtr)
    (text : List UInt8) : (b.storeString p text).Holds h ↔
      (h.ptr.block = p.block → Agrees p.off (text ++ [0]) h) := by
  refine (and_iff_right (by exact hh.1)).trans ?_
  by_cases hb : h.ptr.block = p.block
  · rw [storeString_mem, hb, update_self, ← hb]
    exact (readGuest_writeGuest_iff hh.2).trans ⟨fun h _ => h, fun h => h rfl⟩
  · rw [storeString_mem, update_of_ne hb]
    exact iff_of_true hh.2 fun h => absurd h hb

theorem storeString_holds_self (hp : b.Owns p.block)
    (text : List UInt8) : (b.storeString p text).Holds ⟨p, text⟩ := by
  refine ⟨hp, ?_⟩
  rw [storeString_mem, update_self]
  exact readGuest_writeGuest _ _ _

theorem giveOut_some (hc : b.calls = c :: cs) (p : StringPtr) (text : List UInt8) :
    b.giveOut (some p) text = { b with calls := { c with held := ⟨p, text⟩ :: c.held } :: cs } := by
  simp only [giveOut, hc]

theorem giveOut_kept_iff (hc : b.calls ≠ []) (p : StringPtr) (text : List UInt8) :
    (b.giveOut (some p) text).Kept ↔ b.Holds ⟨p, text⟩ ∧ b.Kept := by
  obtain ⟨c, cs, hc⟩ := exists_cons_of_ne_nil hc
  rw [giveOut_some hc, Kept, Kept, active_cons hc]
  exact forall_mem_cons

theorem Kept.leave (hk : b.Kept) : b.leave.Kept := by
  intro h hh
  obtain ⟨c, hc, hh⟩ := mem_flatMap.mp hh
  exact hk h (mem_flatMap.mpr ⟨c, mem_of_mem_tail hc, hh⟩)

/-! ## The arena -/

theorem arenaReset_eq (L : Nat) : b.arenaReset L = { b with token := L, used := b.filled L } := by
  unfold arenaReset filled
  by_cases h : b.token = L
  · rw [if_neg (not_not.mpr h), if_pos h, ← h]
  · rw [if_pos h, if_neg h]

theorem arenaAlloc_static (ok : Bool) (h : u32 (b.filled L + n) ≤ arenaStaticCap) :
    b.arenaAlloc L n ok = (some ⟨.static, b.filled L⟩,
      { b with token := L, used := u32 (b.filled L + n) }) := by
  rw [arenaAlloc, arenaReset_eq]
  exact if_pos h

theorem arenaAlloc_reuse (ok : Bool)
    (h : ¬ u32 (b.filled L + n) ≤ arenaStaticCap) (hn : n ≤ b.heapCap) :
    b.arenaAlloc L n ok = (b.heap.map fun g => ⟨.heap g, 0⟩,
      { b with token := L, used := b.filled L }) := by
  rw [arenaAlloc, arenaReset_eq]
  refine (if_neg h).trans ?_
  simp only [if_neg (not_lt.mpr hn)]

theorem arenaAlloc_grow (ok : Bool)
    (h : ¬ u32 (b.filled L + n) ≤ arenaStaticCap) (hn : b.heapCap < n) :
    b.arenaAlloc L n ok = if ok then (some ⟨.heap b.mallocs, 0⟩,
        { b with token := L, used := b.filled L, heap := some b.mallocs,
                 mallocs := b.mallocs + 1, heapCap := n })
      else (none, { b with token := L, used := b.filled L, heap := none, heapCap := 0 }) := by
  rw [arenaAlloc, arenaReset_eq]
  refine (if_neg h).trans ?_
  simp only [gt_iff_lt, if_pos hn]
  cases ok <;> rfl

/-- The stub's variables between calls. A block that holds a string in use is never smaller
than a first try. -/
structure Sound (b : LuaBridge) : Prop where
  used : b.used ≤ arenaStaticCap
  null : b.heap = none → b.heapCap = 0
  fresh : ∀ g, b.heap = some g → g < b.mallocs
  large : ∀ h ∈ b.active, h.ptr.block ≠ .static → 64 ≤ b.heapCap

theorem Sound.filled_le (hs : b.Sound) (L : Nat) : b.filled L ≤ arenaStaticCap := by
  unfold filled
  split
  · exact hs.used
  · exact Nat.zero_le _

/-- A string in use that is not in the static array is in the current block. -/
theorem Kept.inBlock (hk : b.Kept) (hh : h ∈ b.active)
    (hb : h.ptr.block ≠ .static) : ∃ g, b.heap = some g ∧ h.ptr.block = .heap g := by
  have howns := (hk h hh).1
  cases hblock : h.ptr.block with
  | static => exact absurd hblock hb
  | heap g => exact ⟨g, by rwa [hblock] at howns, rfl⟩

/-- Another block in the place of the old one: what was in the old one is lost. -/
theorem grow_owns_iff (hs : b.Sound) (hk : b.Kept) (hheap : ∀ g, b'.heap = some g → b.mallocs ≤ g)
    (hh : h ∈ b.active) : b'.Owns h.ptr.block ↔ h.ptr.block = .static := by
  by_cases hb : h.ptr.block = .static
  · rw [hb]
    exact iff_of_true trivial rfl
  · obtain ⟨g, hg, hblock⟩ := hk.inBlock hh hb
    refine iff_of_false (fun howns => ?_) hb
    rw [hblock] at howns
    have := hheap g howns
    have := hs.fresh g hg
    omega

theorem kept_of_static (hk : b.Kept) (hmem : b'.mem = b.mem)
    (hcalls : b'.calls = b.calls) (h : ∀ h ∈ b.active, h.ptr.block = .static) : b'.Kept := by
  intro x hx
  rw [active, hcalls] at hx
  refine ⟨?_, ?_⟩
  · rw [h x hx]
    trivial
  · rw [hmem]
    exact (hk x hx).2

theorem arenaAlloc_calls (L n : Nat) (ok : Bool) : (b.arenaAlloc L n ok).2.calls = b.calls := by
  by_cases h : u32 (b.filled L + n) ≤ arenaStaticCap
  · rw [arenaAlloc_static ok h]
  · by_cases hn : n ≤ b.heapCap
    · rw [arenaAlloc_reuse ok h hn]
    · rw [arenaAlloc_grow ok h (not_le.mp hn)]
      cases ok <;> rfl

theorem arenaAlloc_active (L n : Nat) (ok : Bool) : (b.arenaAlloc L n ok).2.active = b.active := by
  rw [active, arenaAlloc_calls, active]

/-- A buffer that is taken without giving up a block with strings in use. -/
theorem arenaAlloc_inv (hs : b.Sound) (hk : b.Kept) (ok : Bool)
    (h : u32 (b.filled L + n) ≤ arenaStaticCap ∨ n ≤ b.heapCap
      ∨ ∀ h ∈ b.active, h.ptr.block = .static) :
    (b.arenaAlloc L n ok).2.Sound ∧ (b.arenaAlloc L n ok).2.Kept := by
  by_cases hfit : u32 (b.filled L + n) ≤ arenaStaticCap
  · rw [arenaAlloc_static ok hfit]
    exact ⟨⟨hfit, hs.null, hs.fresh, hs.large⟩, hk⟩
  by_cases hn : n ≤ b.heapCap
  · rw [arenaAlloc_reuse ok hfit hn]
    exact ⟨⟨hs.filled_le L, hs.null, hs.fresh, hs.large⟩, hk⟩
  have hstat := (h.resolve_left hfit).resolve_left hn
  rw [arenaAlloc_grow ok hfit (not_le.mp hn)]
  cases ok with
  | false =>
    refine ⟨⟨hs.filled_le L, fun _ => rfl, nofun, fun x hx hb => ?_⟩,
      kept_of_static hk rfl rfl hstat⟩
    exact absurd (hstat x hx) hb
  | true =>
    refine ⟨⟨hs.filled_le L, nofun, fun g hg => ?_, fun x hx hb => ?_⟩,
      kept_of_static hk rfl rfl hstat⟩
    · cases hg
      exact Nat.lt_succ_self _
    · exact absurd (hstat x hx) hb

/-- A buffer in the heap block is no longer than the block. -/
theorem arenaAlloc_cap {ok : Bool} (h : (b.arenaAlloc L n ok).1 = some p) (hp : p.block ≠ .static) :
    n ≤ (b.arenaAlloc L n ok).2.heapCap := by
  by_cases hfit : u32 (b.filled L + n) ≤ arenaStaticCap
  · rw [arenaAlloc_static ok hfit] at h
    cases h
    exact absurd rfl hp
  by_cases hn : n ≤ b.heapCap
  · rwa [arenaAlloc_reuse ok hfit hn]
  · rw [arenaAlloc_grow ok hfit (not_le.mp hn)] at h ⊢
    cases ok with
    | false => cases h
    | true => exact le_rfl

/-! ## One string -/

/-- What a call makes of a buffer of `n` bytes: the string stored and handed out, or nothing
if it does not fit. -/
def deliver (b : LuaBridge) (buf : Option StringPtr) (n : Nat) (text : List UInt8) :
    LuaBridge :=
  match b.opTolstring (some text) buf n with
  | (.ok, b) => b.giveOut buf text
  | (.failed, b) => b.leave
  | (_, b) => b

theorem deliver_short (h : n < text.length + 1)
    (buf : Option StringPtr) : b.deliver buf n text = b := by
  simp only [deliver, opTolstring, if_pos (h)]

theorem deliver_null (n : Nat) (text : List UInt8) : b.deliver none n text = b := by
  by_cases h : n < text.length + 1
  · exact deliver_short h none
  · simp only [deliver, opTolstring, if_neg (h)]
    rfl

theorem deliver_some (h : text.length + 1 ≤ n) (p : StringPtr) : b.deliver (some p) n text =
      if inRam (some p) (text.length + 1) then (b.storeString p text).giveOut (some p) text
      else b.leave := by
  rw [deliver, opTolstring, if_neg (not_lt.mpr h)]
  split_ifs <;> rfl

/-- `lua_tolstring` of a string takes one buffer, or a second one if the first is too small. -/
theorem luaTolstring_eq (L : Nat) (text : List UInt8) (ok₁ ok₂ : Bool) :
    b.luaTolstring L (some text) ok₁ ok₂ =
      let b₁ := b.arenaAlloc L 64 ok₁
      if text.length < 64 then b₁.2.deliver b₁.1 64 text
      else
        let b2 := b₁.2.arenaAlloc L (u32 (u32 text.length + 1)) ok₂
        b2.2.deliver b2.1 (u32 (u32 text.length + 1)) text := by
  simp only [luaTolstring]
  obtain ⟨buf, b₁⟩ := b.arenaAlloc L 64 ok₁
  split_ifs
  · simp only [deliver, opTolstring, if_neg (show ¬ text.length + 1 > 64 by omega)]
    split_ifs
    · simp only [getD_some]
    · rfl
  · simp only [opTolstring, if_pos (show text.length + 1 > 64 by omega)]
    obtain ⟨buf2, b2⟩ := b₁.arenaAlloc L (u32 (u32 text.length + 1)) ok₂
    cases buf2 with
    | none => rw [if_pos rfl, deliver_null]
    | some p =>
      rw [if_neg (by simp)]
      simp only [deliver, opTolstring]
      by_cases hn : text.length + 1 > u32 (u32 text.length + 1)
      · simp
      · simp only [if_neg hn]
        by_cases hr : inRam (some p) (text.length + 1) = true
        · simp
        · simp

theorem deliver_kept_iff (hk : b.Kept) (hc : b.calls ≠ []) (hp : b.Owns p.block)
    (hn : text.length + 1 ≤ n) (hr : inRam (some p) (text.length + 1) = true) :
    (b.deliver (some p) n text).Kept ↔
      ∀ h ∈ b.active, h.ptr.block = p.block → Agrees p.off (text ++ [0]) h := by
  rw [deliver_some hn, if_pos hr, giveOut_kept_iff (by exact hc),
    and_iff_right (storeString_holds_self hp text)]
  exact forall₂_congr fun h hh => storeString_holds_iff (hk h hh) p text

theorem deliver_owns (hc : b.calls ≠ []) (hr : inRam (some p) (text.length + 1) = true)
    (hk : (b.deliver (some p) n text).Kept) (hh : h ∈ b.active) : b.Owns h.ptr.block := by
  by_cases hn : n < text.length + 1
  · rw [deliver_short hn] at hk
    exact (hk h hh).1
  · rw [deliver_some (not_lt.mp hn), if_pos hr, giveOut_kept_iff (by exact hc)] at hk
    exact (hk.2 h hh).1

section

variable (hs : b.Sound)
include hs

theorem Sound.leave : b.leave.Sound := by
  refine ⟨hs.used, hs.null, hs.fresh, fun x hx hb => ?_⟩
  obtain ⟨c, hc, hx⟩ := mem_flatMap.mp hx
  exact hs.large x (mem_flatMap.mpr ⟨c, mem_of_mem_tail hc, hx⟩) hb

theorem deliver_sound (hc : b.calls ≠ []) {buf : Option StringPtr}
    (h : ∀ p, buf = some p → p.block ≠ .static → text.length + 1 ≤ n → 64 ≤ b.heapCap) :
    (b.deliver buf n text).Sound := by
  by_cases hn : n < text.length + 1
  · rwa [deliver_short hn]
  cases buf with
  | none => rwa [deliver_null]
  | some p =>
    rw [deliver_some (not_lt.mp hn)]
    split
    · obtain ⟨c, cs, hc⟩ := exists_cons_of_ne_nil hc
      rw [giveOut_some (show (b.storeString p text).calls = c :: cs from hc)]
      refine ⟨hs.used, hs.null, hs.fresh, fun x hx hb => ?_⟩
      rw [active_cons rfl, cons_append, ← active_cons hc] at hx
      obtain rfl | hx := mem_cons.mp hx
      · exact h p rfl hb (not_lt.mp hn)
      · exact hs.large x hx hb
    · exact hs.leave

/-- **One buffer.** Taking a buffer and storing the string there keeps every string in use
exactly if its place is clear. -/
theorem place_kept_iff (hk : b.Kept) (hc : b.calls ≠ []) (L : Nat) (ok : Bool)
    (hn : n = 64 ∨ (text.length + 1 ≤ n → n = text.length + 1)) :
    ((b.arenaAlloc L n ok).2.deliver (b.arenaAlloc L n ok).1 n text).Kept ↔
      b.PlaceClear (b.filled L) n text := by
  by_cases hfit : u32 (b.filled L + n) ≤ arenaStaticCap
  · rw [arenaAlloc_static ok hfit, PlaceClear, if_pos hfit]
    by_cases hlen : text.length + 1 ≤ n
    · by_cases hroom : b.filled L + n ≤ arenaStaticCap
      · have hr : inRam (some ⟨.static, b.filled L⟩) (text.length + 1) = true :=
          decide_eq_true (by omega)
        rw [deliver_kept_iff (by exact hk) (by exact hc) (by exact trivial) hlen hr]
        exact ⟨fun h _ _ => h, fun h => h hlen hroom⟩
      · -- the sum wrapped around, so the string is gigabytes long
        have hr : ¬ inRam (some ⟨.static, b.filled L⟩) (text.length + 1) = true := by
          refine fun hr => hroom ?_
          obtain rfl | hn := hn
          · have := hs.filled_le L
            rwa [u32_of_lt (by simp only [arenaStaticCap] at this; omega)] at hfit
          · have := of_decide_eq_true hr
            rwa [hn hlen]
        rw [deliver_some hlen, if_neg hr]
        exact iff_of_true (Kept.leave (by exact hk)) fun _ h => absurd h hroom
    · rw [deliver_short (not_le.mp hlen)]
      exact iff_of_true hk fun h => absurd h hlen
  rw [PlaceClear, if_neg hfit]
  by_cases hcap : n ≤ b.heapCap
  · rw [arenaAlloc_reuse ok hfit hcap]
    obtain ⟨g, hg⟩ : ∃ g, b.heap = some g := by
      refine ne_none_iff_exists'.mp fun hnull => hfit ?_
      rw [hs.null hnull] at hcap
      rw [Nat.le_zero.mp hcap]
      exact (u32_le _).trans (hs.filled_le L)
    rw [show (b.heap.map fun g => (⟨.heap g, 0⟩ : StringPtr)) = some ⟨.heap g, 0⟩ by rw [hg]; rfl]
    by_cases hlen : text.length + 1 ≤ n
    · rw [deliver_kept_iff (by exact hk) (by exact hc) (by exact hg) hlen rfl]
      refine forall₂_congr fun h hh => ⟨fun hag hb => ⟨hcap, fun _ => ?_⟩, fun hag hb => ?_⟩
      · obtain ⟨g', hg', hblock⟩ := hk.inBlock hh hb
        obtain rfl : g = g' := by rw [hg] at hg'; exact some.inj hg'
        exact hag hblock
      · exact (hag (by rw [hb]; nofun)).2 hlen
    · rw [deliver_short (not_le.mp hlen)]
      exact iff_of_true hk fun h _ _ => ⟨hcap, fun h => absurd h hlen⟩
  · -- the old block is freed, so no string in use may have been in it
    have hright : (∀ h ∈ b.active, h.ptr.block ≠ .static →
        n ≤ b.heapCap ∧ (text.length + 1 ≤ n → Agrees 0 (text ++ [0]) h))
          ↔ ∀ h ∈ b.active, h.ptr.block = .static :=
      forall₂_congr fun h _ => ⟨fun hn => by_contra fun hb => hcap (hn hb).1,
        absurd⟩
    rw [hright, arenaAlloc_grow ok hfit (not_le.mp hcap)]
    cases ok with
    | false =>
      rw [if_neg Bool.false_ne_true, deliver_null]
      refine ⟨fun h x hx => ?_, kept_of_static hk rfl rfl⟩
      exact (grow_owns_iff hs hk (by nofun) hx).mp (h x hx).1
    | true =>
      rw [if_pos rfl]
      constructor
      · intro h x hx
        refine (grow_owns_iff hs hk ?_ hx).mp (deliver_owns (by exact hc) rfl h hx)
        rintro g ⟨⟩
        exact le_rfl
      · intro h
        by_cases hlen : text.length + 1 ≤ n
        · rw [deliver_kept_iff (kept_of_static hk (by rfl) (by rfl) h) (by exact hc)
            (by exact rfl) hlen rfl]
          intro x hx hb
          rw [h x hx] at hb
          cases hb
        · rw [deliver_short (not_le.mp hlen)]
          exact kept_of_static hk rfl rfl h

/-- What the first try leaves behind. -/
theorem arenaAlloc_first (hk : b.Kept) (L : Nat) (ok : Bool) :
    (b.arenaAlloc L 64 ok).2.Sound ∧ (b.arenaAlloc L 64 ok).2.Kept := by
  refine arenaAlloc_inv hs hk ok (.inr ?_)
  by_cases h : ∀ h ∈ b.active, h.ptr.block = .static
  · exact .inr h
  · push Not at h
    obtain ⟨x, hx, hb⟩ := h
    exact .inl (hs.large x hx hb)

theorem filled_first (L : Nat) (ok : Bool) : (b.arenaAlloc L 64 ok).2.filled L =
      if b.filled L + 64 ≤ arenaStaticCap then b.filled L + 64 else b.filled L := by
  have hle := hs.filled_le L
  have hsum : u32 (b.filled L + 64) = b.filled L + 64 :=
    u32_of_lt (by simp only [arenaStaticCap] at hle; omega)
  by_cases hfit : b.filled L + 64 ≤ arenaStaticCap
  · rw [arenaAlloc_static ok (by rwa [hsum]), if_pos hfit, filled, if_pos rfl, hsum]
  have hfit' : ¬ u32 (b.filled L + 64) ≤ arenaStaticCap := by rwa [hsum]
  rw [if_neg hfit]
  by_cases hn : 64 ≤ b.heapCap
  · rw [arenaAlloc_reuse ok hfit' hn, filled, if_pos rfl]
  · rw [arenaAlloc_grow ok hfit' (not_le.mp hn)]
    cases ok <;> exact if_pos rfl

/-- The first try changes the block only when no string in use is in it. -/
theorem placeClear_first (L : Nat) (ok : Bool) (off n : Nat) (text : List UInt8) :
    (b.arenaAlloc L 64 ok).2.PlaceClear off n text ↔ b.PlaceClear off n text := by
  have hcap : ∀ h ∈ b.active, h.ptr.block ≠ .static →
      (b.arenaAlloc L 64 ok).2.heapCap = b.heapCap := by
    intro h hh hb
    by_cases hfit : u32 (b.filled L + 64) ≤ arenaStaticCap
    · rw [arenaAlloc_static ok hfit]
    · rw [arenaAlloc_reuse ok hfit (hs.large h hh hb)]
  unfold PlaceClear
  rw [arenaAlloc_active]
  split
  · exact Iff.rfl
  · exact forall₂_congr fun h hh => forall_congr' fun hb => by rw [hcap h hh hb]

theorem place_sound (hk : b.Kept) (hc : b.calls ≠ []) (ok : Bool)
    (hclear : b.PlaceClear (b.filled L) n text) (hn : text.length + 1 ≤ n → 64 ≤ n) :
    ((b.arenaAlloc L n ok).2.deliver (b.arenaAlloc L n ok).1 n text).Sound := by
  have hroom : u32 (b.filled L + n) ≤ arenaStaticCap ∨ n ≤ b.heapCap
      ∨ ∀ h ∈ b.active, h.ptr.block = .static := by
    by_contra hno
    push Not at hno
    obtain ⟨hfit, hcap, h, hh, hb⟩ := hno
    rw [PlaceClear, if_neg (not_le.mpr hfit)] at hclear
    have := (hclear h hh hb).1
    omega
  refine deliver_sound (arenaAlloc_inv hs hk ok hroom).1 (by rwa [arenaAlloc_calls]) ?_
  intro p hp hb hlen
  exact (hn hlen).trans (arenaAlloc_cap hp hb)

end

end LuaBridge

/-! ## Whole runs -/

open LuaBridge

/-- The second try asks for what the string takes, or for too little. -/
theorem second_exact (text : List UInt8) :
    text.length + 1 ≤ u32 (u32 text.length + 1) → u32 (u32 text.length + 1) = text.length + 1 := by
  have h1 := u32_le (u32 text.length + 1)
  have h2 := u32_le text.length
  omega

variable {b : LuaBridge}

/-- **One event.** The strings in use are kept exactly if the event is clear of them. -/
theorem bridgeStep_kept_iff (hs : b.Sound) (hk : b.Kept) (e : BridgeEvent) :
    e.KeepsStrings b ↔ e.Clear b := by
  unfold BridgeEvent.KeepsStrings
  cases e with
  | enter => exact iff_of_true (fun b' h => by cases h; exact hk) trivial
  | leave => exact iff_of_true (fun b' h => by cases h; exact hk.leave) trivial
  | tolstring value ok1 ok2 =>
    cases hc : b.calls with
    | nil =>
      simp only [bridgeStep, BridgeEvent.Clear, hc, mem_def, some.injEq, forall_eq']
      exact iff_of_true hk (by cases value <;> trivial)
    | cons c =>
      have hne : b.calls ≠ [] := by rw [hc]; nofun
      have hfirst := arenaAlloc_first hs hk c.token ok1
      simp only [bridgeStep, BridgeEvent.Clear, hc, mem_def, some.injEq, forall_eq']
      cases value with
      | none => exact iff_of_true hfirst.2 trivial
      | some text =>
        rw [luaTolstring_eq]
        by_cases hlen : text.length < 64
        · simp only [if_pos hlen]
          exact place_kept_iff hs hk hne c.token ok1 (.inl rfl)
        · simp only [if_neg hlen]
          rw [place_kept_iff hfirst.1 hfirst.2 (by rwa [arenaAlloc_calls]) c.token ok2
            (.inr (second_exact text)), placeClear_first hs, filled_first hs]

theorem bridgeStep_sound {b' : LuaBridge} (hs : b.Sound) (hk : b.Kept) {e : BridgeEvent}
    (he : e.Clear b) (h : bridgeStep b e = some b') : b'.Sound := by
  cases e with
  | enter =>
    cases h
    exact ⟨hs.used, hs.null, hs.fresh, hs.large⟩
  | leave =>
    cases h
    exact hs.leave
  | tolstring value ok1 ok2 =>
    cases hc : b.calls with
    | nil =>
      simp only [bridgeStep, hc, some.injEq] at h
      rwa [← h]
    | cons c =>
      have hne : b.calls ≠ [] := by rw [hc]; nofun
      have hfirst := arenaAlloc_first hs hk c.token ok1
      simp only [bridgeStep, hc, some.injEq] at h
      subst h
      cases value with
      | none => exact hfirst.1
      | some text =>
        simp only [BridgeEvent.Clear, hc] at he
        rw [luaTolstring_eq]
        by_cases hlen : text.length < 64
        · simp only [if_pos hlen] at he ⊢
          exact place_sound hs hk hne ok1 he fun _ => le_rfl
        · simp only [if_neg hlen] at he ⊢
          rw [← filled_first hs c.token ok1, ← placeClear_first hs c.token ok1] at he
          exact place_sound hfirst.1 hfirst.2 (by rwa [arenaAlloc_calls]) ok2 he (by omega)

theorem bridgeStart_inv (mem : StringBlock → ByteMem) :
    (bridgeStart mem).Sound ∧ (bridgeStart mem).Kept :=
  ⟨⟨Nat.zero_le _, fun _ => rfl, nofun, nofun⟩, nofun⟩

/-- **Bridge strings.** In a run of bridged calls every pointer keeps pointing to its own
string until its call is over, exactly if each string asked for goes where it spoils no
string in use: in the static part of the arena only beyond the strings of the calls under
way, and in the one heap block only if none of them is there. -/
theorem bridgeRun_iff (mem : StringBlock → ByteMem) (es : List BridgeEvent) :
    AdmRun bridgeStep (fun b e => e.KeepsStrings b) (bridgeStart mem) es ↔
      AdmRun bridgeStep (fun b e => e.Clear b) (bridgeStart mem) es := by
  refine admRun_congr (I := fun b => b.Sound ∧ b.Kept)
    (fun b e _ hi => bridgeStep_kept_iff hi.1 hi.2 e) ?_ (bridgeStart_inv mem)
  intro b e _ b' hi he hstep
  exact ⟨bridgeStep_sound hi.1 hi.2 he hstep, (bridgeStep_kept_iff hi.1 hi.2 e).mpr he b' hstep⟩

example : AdmRun bridgeStep (fun b e => e.Clear b) (bridgeStart fun _ _ => 0)
    [.enter, .tolstring (some [97]) true true, .enter, .leave,
      .tolstring (some [98, 99]) true true, .leave] := by
  decide +kernel

/-- A native function reads one string and calls Lua, which calls a native function that
reads another: the arena starts over, and the first function's pointer is to `b`. -/
theorem nested_call_overwrites :
    ¬ AdmRun bridgeStep (fun b e => e.KeepsStrings b) (bridgeStart fun _ _ => 0)
      [.enter, .tolstring (some [97]) true true, .enter, .tolstring (some [98]) true true] := by
  decide +kernel

end Blyt
