import Blyt.ArenaRun

/-!
# What the arena's calls write

The allocator keeps its headers among the cart's bytes, so what a call leaves
alone has to be said byte by byte. An allocation or a free writes headers only:
those of blocks on the free list, of the block it serves or takes back, and of the
tail it cuts off. `arenaMallocCore_cases` says which of the three ways a request
was served; from the headers each of them writes follows that the payload of every
other block in use stays as it is, and that a call that answers `NULL` changes
nothing.
-/

namespace Blyt

open List Option

/-! ## Headers written -/

/-- Nothing is written outside the 16 bytes from each of `hs` on. -/
def HdrsOnly (m m' : ByteMem) (hs : List Nat) : Prop :=
  ∀ x, (∀ y ∈ hs, x < y ∨ y + hdrSize ≤ x) → m' x = m x

variable {m : ByteMem} {hs hs' : List Nat} {o : Nat} {a : Arena} {offs fl l₁ l₂ : List Nat}
  {need : Nat} {a' : Arena} {noacct : Bool} {b : LiveBlock} {s : HeapState} {n p q sizeMax : Nat}
  {op : ArenaOp} {acct : Bool}

theorem HdrsOnly.trans {m₁ m₂ : ByteMem} (h : HdrsOnly m m₁ hs)
    (h' : HdrsOnly m₁ m₂ hs') : HdrsOnly m m₂ (hs ++ hs') := by
  intro x hx
  rw [h' x fun y hy => hx y (mem_append_right _ hy), h x fun y hy => hx y (mem_append_left _ hy)]

section

variable (m : ByteMem)

theorem hdrsOnly_word {k : Nat} (v : Nat) (hk : k + 4 ≤ hdrSize) :
    HdrsOnly m (write32 m (o + k) v) [o] := by
  intro x hx
  have := hx o (by simp)
  exact write32_outside (by omega)

theorem hdrsOnly_setFree (o v : Nat) : HdrsOnly m (setFree m o v) [o] :=
  hdrsOnly_word m v (by decide)

theorem hdrsOnly_setNext (o v : Nat) : HdrsOnly m (setNext m o v) [o] :=
  hdrsOnly_word m v (by decide)

theorem hdrsOnly_setPad (o v : Nat) : HdrsOnly m (setPad m o v) [o] :=
  hdrsOnly_word m v (by decide)

theorem hdrsOnly_setSize (o v : Nat) : HdrsOnly m (setSize m o v) [o] :=
  hdrsOnly_word (k := 0) m v (by decide)

end

theorem HdrsOnly.sub {m' : ByteMem} (h : HdrsOnly m m' hs)
    (hsub : hs ⊆ hs') : HdrsOnly m m' hs' := fun x hx => h x fun y hy => hx y (hsub hy)

theorem hdrsOnly_setAll (m : ByteMem) (o s f n p : Nat) :
    HdrsOnly m (setPad (setNext (setFree (setSize m o s) o f) o n) o p) [o] :=
  ((((hdrsOnly_setSize m o s).trans (hdrsOnly_setFree _ o f)).trans
    (hdrsOnly_setNext _ o n)).trans (hdrsOnly_setPad _ o p)).sub (by simp)

section

variable (a : Arena)

theorem hdrsOnly_setLink (q : Option Nat) (v : Nat) :
    HdrsOnly a.mem (a.setLink q v).mem q.toList := by
  cases q with
  | none => exact fun _ _ => rfl
  | some x => exact hdrsOnly_setNext a.mem x v

theorem splitAt_hdrs (q : Option Nat) (o need mark : Nat) :
    HdrsOnly a.mem (splitAt a q o need mark).mem ([o + need] ++ q.toList ++ [o]) :=
  ((hdrsOnly_setAll a.mem (o + need) _ _ _ _).trans (hdrsOnly_setLink _ q (o + need))).trans
    (hdrsOnly_setAll _ o _ _ _ _)

theorem takeWhole_hdrs (q : Option Nat) (o mark : Nat) :
    HdrsOnly a.mem (takeWhole a q o mark).mem (q.toList ++ [o]) :=
  (hdrsOnly_setLink a q _).trans ((((hdrsOnly_setFree _ o 0).trans (hdrsOnly_setNext _ o _)).trans
    (hdrsOnly_setPad _ o mark)).sub (by simp))

theorem pushFree_hdrs (o : Nat) : HdrsOnly a.mem (pushFree a o).mem [o] :=
  ((hdrsOnly_setFree a.mem o 1).trans (hdrsOnly_setNext _ o _)).sub (by simp)

theorem mergeNext_hdrs (q : Option Nat) (o p : Nat) :
    HdrsOnly a.mem (mergeNext a q o p).mem (q.toList ++ [p] ++ [o]) :=
  ((hdrsOnly_setLink a q _).trans (((hdrsOnly_setFree _ p 0).trans
    (hdrsOnly_setNext _ p arenaNone)).sub (by simp))).trans (hdrsOnly_setSize _ o _)

end

/-! ## Payloads of other blocks -/

/-- The bytes behind the header of every block in use but `o` stay. -/
def KeepsPayloads (a : Arena) (m : ByteMem) (offs : List Nat) (o : Nat) : Prop :=
  ∀ z, a.view.InUse offs z → z ≠ o → ∀ x, z + hdrSize ≤ x → x < z + blkSize a z →
    m x = a.mem x

/-- Headers of blocks, headers inside block `o`, and headers past the last block are apart
from the payloads of the other blocks. -/
theorem HdrsOnly.keepsPayloads (hm : HdrsOnly a.mem m hs) (h : Shape a offs fl)
    (hhs : ∀ y ∈ hs, y ∈ offs ∨ (o ∈ offs ∧ o ≤ y ∧ y + hdrSize ≤ o + blkSize a o)
      ∨ a.bump ≤ y) : KeepsPayloads a m offs o := by
  intro z hz hzo x hlo hhi
  refine hm x fun y hy => ?_
  have hend : z + blkSize a z ≤ a.bump := h.end_le hz.1
  rcases hhs y hy with hyo | ⟨hoo, hoy, hyo⟩ | hyb
  · by_cases hyz : y = z
    · rw [hyz]
      exact .inr hlo
    · have hsep : y + blkSize a y ≤ z ∨ z + blkSize a z ≤ y := tiles_apart h.tiles hyo hz.1 hyz
      omega
  · have hsep : o + blkSize a o ≤ z ∨ z + blkSize a z ≤ o :=
      tiles_apart h.tiles hoo hz.1 (Ne.symm hzo)
    omega
  · exact .inl (by omega)

/-! ## The ways a request is served -/

theorem ensureReady_mem (a : Arena) : (ensureReady a).mem = a.mem := by
  unfold ensureReady
  split <;> rfl

theorem ensureReady_size (a : Arena) : (ensureReady a).size = a.size := by
  unfold ensureReady
  split <;> rfl

def bumpAt (a : Arena) (need mark : Nat) : Arena :=
  { a with
    mem := setPad (setNext (setFree (setSize a.mem a.bump need) a.bump 0) a.bump arenaNone)
      a.bump mark
    bump := u32 (a.bump + need) }

/-- How the arena `a` came to hand out block `o`: a free block was cut, or taken whole, or
the end of the region moved. -/
inductive ServedBy (a : Arena) (need : Nat) (noacct : Bool) (fl : List Nat) :
    Nat → Arena → Prop
  | cut {l₁ l₂ : List Nat} {o : Nat} (hfl : fl = l₁ ++ o :: l₂) (hle : need + 32 ≤ blkSize a o) :
      ServedBy a need noacct fl o
        (charge (splitAt a (endLink none l₁) o need (markOf noacct)) noacct
          (blkSize (splitAt a (endLink none l₁) o need (markOf noacct)) o))
  | whole {l₁ l₂ : List Nat} {o : Nat} (hfl : fl = l₁ ++ o :: l₂) (hle : need ≤ blkSize a o) :
      ServedBy a need noacct fl o
        (charge (takeWhole a (endLink none l₁) o (markOf noacct)) noacct
          (blkSize (takeWhole a (endLink none l₁) o (markOf noacct)) o))
  | bump (hle : a.bump + need ≤ a.size) :
      ServedBy a need noacct fl a.bump (charge (bumpAt a need (markOf noacct)) noacct need)

theorem ServedBy.fields {a' : Arena} (hv : ServedBy a need noacct fl o a') :
    a'.base = a.base ∧ a'.size = a.size ∧ a'.ready = a.ready := by
  cases hv with
  | cut => simp [(splitAt_relinks ..).base, (splitAt_relinks ..).size, (splitAt_relinks ..).ready]
  | whole =>
    simp [(takeWhole_relinks ..).base, (takeWhole_relinks ..).size, (takeWhole_relinks ..).ready]
  | bump => simp [bumpAt]

theorem takeFit_cases
    (noacct : Bool) (h : Shape a offs (l₁ ++ o :: l₂)) (hle : need ≤ blkSize a o) :
    takeFit a (endLink none l₁) need (markOf noacct) noacct = (0, a) ∨
    ∃ a', takeFit a (endLink none l₁) need (markOf noacct) noacct = (a.base + o + hdrSize, a')
      ∧ ServedBy a need noacct (l₁ ++ o :: l₂) o a' := by
  rw [takeFit_eq h hle]
  by_cases hsp : 32 ≤ blkSize a o - need
  · simp only [hsp, decide_true, if_true]
    split
    · exact .inl rfl
    · exact .inr ⟨_, rfl, .cut rfl (by omega)⟩
  · simp only [hsp, decide_false, Bool.false_eq_true, if_false]
    split
    · exact .inl rfl
    · exact .inr ⟨_, rfl, .whole rfl hle⟩

theorem takeBump_cases (a : Arena) (need : Nat) (noacct : Bool) (fl : List Nat) :
    takeBump a need (markOf noacct) noacct = (0, a) ∨
    ∃ a', takeBump a need (markOf noacct) noacct = (a.base + a.bump + hdrSize, a')
      ∧ ServedBy a need noacct fl a.bump a' := by
  unfold takeBump
  split
  · exact .inl rfl
  · split
    · exact .inl rfl
    · refine .inr ⟨_, ?_, .bump (by omega)⟩
      cases noacct <;> rfl

/-- **`arena_malloc_core`, case by case.** Nothing is assumed of the request. -/
theorem arenaMallocCore_cases (n : Nat) (noacct : Bool) (h : Shape (ensureReady a) offs fl) :
    arenaMallocCore a n noacct = some (0, a) ∨
    arenaMallocCore a n noacct = some (0, ensureReady a) ∨
    ∃ o a', arenaMallocCore a n noacct = some (a.base + o + hdrSize, a')
      ∧ ServedBy (ensureReady a) (needOf n) noacct fl o a' := by
  rw [← ensureReady_base a]
  rcases arenaMallocCore_walk n noacct h with ⟨-, hc⟩ | ⟨-, hc | ⟨l₁, o, l₂, rfl, hfit, hc⟩⟩
  · exact .inl hc
  · rw [hc]
    rcases takeBump_cases (ensureReady a) (needOf n) noacct fl with hr | ⟨a', hr, hv⟩
    · exact .inr (.inl (congrArg some hr))
    · exact .inr (.inr ⟨_, a', congrArg some hr, hv⟩)
  · rw [hc]
    rcases takeFit_cases noacct h hfit with hr | ⟨a', hr, hv⟩
    · exact .inr (.inl (congrArg some hr))
    · exact .inr (.inr ⟨_, a', congrArg some hr, hv⟩)

@[simp] theorem charge_mem (a : Arena) (noacct : Bool) (bytes : Nat) :
    (charge a noacct bytes).mem = a.mem := by cases noacct <;> rfl

theorem Shape.prev_mem
    (h : Shape a offs (l₁ ++ o :: l₂)) : ∀ y ∈ (endLink none l₁).toList, y ∈ offs := by
  intro y hy
  rcases h.endLink_cases with hq | ⟨x, hq, hx, -⟩
  · simp [hq] at hy
  · obtain rfl : y = x := by simpa [hq] using hy
    exact hx

theorem ServedBy.keepsPayloads (h : Shape a offs fl) (hv : ServedBy a need noacct fl o a') :
    KeepsPayloads a a'.mem offs o := by
  cases hv with
  | @cut l₁ l₂ o hfl hle =>
    subst hfl
    have homem : o ∈ offs := h.mem_offs (by simp)
    rw [charge_mem]
    refine (splitAt_hdrs a _ o need _).keepsPayloads h fun y hy => ?_
    rw [mem_append, mem_append] at hy
    rcases hy with (hy | hy) | hy
    · obtain rfl := mem_singleton.mp hy
      exact .inr (.inl ⟨homem, by omega, by unfold hdrSize; omega⟩)
    · exact .inl (h.prev_mem y hy)
    · obtain rfl := mem_singleton.mp hy
      exact .inl homem
  | @whole l₁ l₂ o hfl hle =>
    subst hfl
    rw [charge_mem]
    refine (takeWhole_hdrs a _ o _).keepsPayloads h fun y hy => .inl ?_
    rcases mem_append.mp hy with hy | hy
    · exact h.prev_mem y hy
    · obtain rfl := mem_singleton.mp hy
      exact h.mem_offs (by simp)
  | bump =>
    rw [charge_mem]
    refine (hdrsOnly_setAll a.mem a.bump _ _ _ _).keepsPayloads h fun y hy => ?_
    obtain rfl := mem_singleton.mp hy
    exact .inr (.inr le_rfl)

theorem ServedBy.fresh
    (h : Shape a offs fl) (hv : ServedBy a need noacct fl o a') : ¬ a.view.InUse offs o := by
  have hfree : ∀ {x}, x ∈ fl → ¬ a.view.InUse offs x := fun hx hu => ((h.mem_fl _).mp hx).2 hu.2
  cases hv with
  | cut hfl _ | whole hfl _ => exact hfree (by simp [hfl])
  | bump _ =>
    intro hu
    have h1 : a.bump + blkSize a a.bump ≤ a.bump := h.end_le hu.1
    have h2 : 32 ≤ blkSize a a.bump := h.size_ge _ hu.1
    omega

/-- Freeing a block in use writes headers of blocks. -/
theorem arenaFree_keepsPayloads (h : Shape a offs fl) (hu : a.view.InUse offs o)
    (hr : arenaFree a (a.base + o + hdrSize) = some a') : KeepsPayloads a a'.mem offs o := by
  have hmem : (discharge a o).mem = a.mem := by unfold discharge; split <;> rfl
  have hpush := pushFree_hdrs (discharge a o) o
  rw [hmem] at hpush
  obtain ⟨hs, -⟩ := pushFree_shape (h.discharge o) (by rwa [discharge_view])
  rw [arenaFree_inUse h hu] at hr
  rcases coalesceForward_cases hs hu.1 with ⟨hc, -⟩ | ⟨o1, p, o2, l₁, l₂, hoffs, hfl, -, hc⟩
  · obtain rfl := some.inj (hc.symm.trans hr)
    refine hpush.keepsPayloads h fun y hy => .inl ?_
    obtain rfl := mem_singleton.mp hy
    exact hu.1
  · obtain rfl := some.inj (hc.symm.trans hr)
    refine (hpush.trans (mergeNext_hdrs _ _ o p)).keepsPayloads h fun y hy => .inl ?_
    simp only [mem_append, mem_singleton] at hy
    rcases hy with rfl | (hy | rfl) | rfl
    · exact hu.1
    · exact (hfl ▸ hs).prev_mem y hy
    · simp [hoffs]
    · exact hu.1

/-! ## Payloads of live blocks -/

def usable (a : Arena) (p : Nat) : Nat := blkSize a (hdrOff a p) - hdrSize

/-- The payload of every live block stays, except for the one at `p`. -/
def KeepsLive (s : HeapState) (m : ByteMem) (p : Option Nat) : Prop :=
  ∀ b ∈ s.live, p ≠ some b.ptr → ∀ i < usable s.arena b.ptr,
    m (b.ptr - s.arena.base + i) = s.arena.mem (b.ptr - s.arena.base + i)

theorem Backs.usable (h : Backs a offs b o) : usable a b.ptr = blkSize a o - hdrSize := by
  rw [Blyt.usable, h.hdrOff]

theorem Backs.off (h : Backs a offs b o) : b.ptr - a.base = o + hdrSize := by
  rw [h.ptr]
  omega

theorem KeepsPayloads.live {p : Option Nat} (h : KeepsPayloads s.arena m offs o)
    (hl : LiveInv s.arena s.live offs)
    (hp : ∀ b ∈ s.live, b.ptr = s.arena.base + o + hdrSize → p = some b.ptr) : KeepsLive s m p := by
  intro b hb hne i hi
  obtain ⟨z, hz⟩ := hl.backed b hb
  have hzo : z ≠ o := by
    rintro rfl
    exact hne (hp b hb hz.ptr)
  rw [hz.usable] at hi
  rw [hz.off]
  exact h z hz.inUse hzo _ (by omega) (by omega)

theorem KeepsLive.mono {p : Option Nat} (h : KeepsLive s m none) :
    KeepsLive s m p := fun b hb _ => h b hb (by simp)

theorem HeapInv.mallocCore_keeps (h : HeapInv s)
    (hr : arenaMallocCore s.arena n noacct = some (p, a')) :
    KeepsLive s a'.mem none ∧ (p = 0 → ensureReady a' = ensureReady s.arena) := by
  obtain ⟨offs, fl, hs, hl⟩ := h
  rcases arenaMallocCore_cases n noacct hs with hc | hc | ⟨o, a1, hc, hv⟩
  · cases hr.symm.trans hc
    exact ⟨fun _ _ _ _ _ => rfl, fun _ => rfl⟩
  · cases hr.symm.trans hc
    exact ⟨fun _ _ _ _ _ => by rw [ensureReady_mem], fun _ => ensureReady_idem _⟩
  · cases hr.symm.trans hc
    refine ⟨fun b hb => ?_, fun hp => absurd hp (by unfold hdrSize; omega)⟩
    have hready := (HeapInv.of_live ⟨offs, fl, hs, hl⟩ hb).1
    rw [ensureReady_of_ready hready] at hs hl hv
    refine (hv.keepsPayloads hs).live hl (fun b' hb' hp => ?_) b hb
    obtain ⟨z, hz⟩ := hl.backed b' hb'
    have hzo : z = o := by
      have := hz.ptr
      omega
    exact absurd (hzo ▸ hz.inUse) (hv.fresh hs)

theorem HeapInv.free_keeps (h : HeapInv s) (hp : NullOrLive s p)
    (hr : arenaFree s.arena p = some a') : KeepsLive s a'.mem (some p) := by
  by_cases hp0 : p = 0
  · rw [arenaFree, if_pos hp0] at hr
    cases hr
    exact fun _ _ _ _ _ => rfl
  obtain ⟨b, hb, rfl⟩ := hp.resolve_left hp0
  obtain ⟨hready, offs, fl, o, hs, hl, ho⟩ := h.of_live hb
  rw [ho.ptr] at hr ⊢
  exact (arenaFree_keepsPayloads hs ho.inUse hr).live hl fun b' _ hb' => by rw [hb']

/-- Writing inside one payload keeps the others. -/
theorem HeapInv.write_keeps (h : HeapInv s) (hb : b ∈ s.live)
    (hm : ∀ x, x < b.ptr - s.arena.base ∨ b.ptr - s.arena.base + b.req ≤ x →
      m x = s.arena.mem x) : KeepsLive s m (some b.ptr) := by
  obtain ⟨-, offs, fl, o, hs, hl, ho⟩ := h.of_live hb
  suffices hkeeps : KeepsPayloads s.arena m offs o from
    hkeeps.live hl fun b' _ hb' => by rw [hb', ho.ptr]
  intro z hz hzo x hlo hhi
  have hsep : z + blkSize s.arena z ≤ o ∨ o + blkSize s.arena o ≤ z :=
    tiles_apart hs.tiles hz.1 ho.inUse.1 hzo
  have hreq := ho.req
  refine hm x ?_
  rw [ho.off]
  omega

/-! ### Sizes -/

theorem usable_congr
    (h : blkSize a' (hdrOff a' p) = blkSize a (hdrOff a p)) : usable a' p = usable a p := by
  rw [usable, h, usable]

section

variable (h : HeapInv s)
include h

theorem HeapInv.mallocCore_blkSize (hn : n + 31 < 2 ^ 32)
    (hr : arenaMallocCore s.arena n noacct = some (p, a')) :
    a'.base = s.arena.base
      ∧ ∀ b ∈ s.live, blkSize a' (hdrOff a' b.ptr) = blkSize s.arena (hdrOff s.arena b.ptr) := by
  have hi := h
  obtain ⟨offs, fl, hs, hl⟩ := h
  rcases arenaMallocCore_spec noacct hs hn with hc | hc | ⟨a1, offs', fl', o, -, hc, -, hv⟩
  · cases hr.symm.trans hc
    exact ⟨rfl, fun _ _ => rfl⟩
  · cases hr.symm.trans hc
    refine ⟨ensureReady_base _, fun b hb => ?_⟩
    rw [ensureReady_of_ready (hi.of_live hb).1]
  · cases hr.symm.trans hc
    refine ⟨hv.base.trans (ensureReady_base _), fun b hb => ?_⟩
    rw [ensureReady_of_ready (hi.of_live hb).1] at hl hv
    obtain ⟨z, hz⟩ := hl.backed b hb
    have hsz : blkSize a' z = blkSize s.arena z := (hv.edit.keep z hz.inUse).1
    rw [hdrOff_congr hv.base, hz.hdrOff, hsz]

theorem HeapInv.free_blkSize {b' : LiveBlock} (hb : b ∈ s.live) (hb' : b' ∈ s.live)
    (hne : b'.ptr ≠ b.ptr) (hr : arenaFree s.arena b.ptr = some a') : a'.base = s.arena.base
      ∧ blkSize a' (hdrOff a' b'.ptr) = blkSize s.arena (hdrOff s.arena b'.ptr) := by
  obtain ⟨-, offs, fl, o, hs, hl, ho⟩ := h.of_live hb
  obtain ⟨z, hz⟩ := hl.backed b' hb'
  obtain ⟨a1, offs1, fl1, hf, -, hv⟩ := arenaFree_spec hs ho.inUse
  rw [ho.ptr] at hr
  cases hf.symm.trans hr
  have hzo : z ≠ o := fun he => hne (by rw [hz.ptr, ho.ptr, he])
  have hsz : blkSize s.arena z = blkSize a' z :=
    (hv.edit.keep z ((hv.edit.other z hzo).mp hz.inUse)).1
  exact ⟨hv.base, by rw [hdrOff_congr hv.base, hz.hdrOff, hsz]⟩

theorem HeapInv.write_blkSize (hb : b ∈ s.live)
    (hm : ∀ x, x < b.ptr - s.arena.base ∨ b.ptr - s.arena.base + b.req ≤ x →
      m x = s.arena.mem x) {b' : LiveBlock} (hb' : b' ∈ s.live) :
    blkSize { s.arena with mem := m } (hdrOff s.arena b'.ptr)
      = blkSize s.arena (hdrOff s.arena b'.ptr) := by
  obtain ⟨-, offs, fl, o, hs, hl, ho⟩ := h.of_live hb
  obtain ⟨z, hz⟩ := hl.backed b' hb'
  have hreq := ho.req
  have hhdr := hs.hdr_of_payload ho.inUse.1 fun x hx => hm x (by rw [ho.off]; omega)
  rw [hz.hdrOff]
  exact congrArg BlkHdr.size (hhdr z hz.inUse.1)

/-! ## `realloc` -/

/-- **What `realloc` keeps**: the other payloads, the bytes of the block it moves, and
everything when it fails. -/
theorem HeapInv.realloc_keeps (hn : n + 31 < 2 ^ 32) (hp : NullOrLive s p)
    (hr : arenaReallocCore s.arena p n noacct = some (q, a')) :
    KeepsLive s a'.mem (some p)
      ∧ (p ≠ 0 → q ≠ 0 → ∀ i < min (usable s.arena p) n,
          a'.mem (q - s.arena.base + i) = s.arena.mem (p - s.arena.base + i))
      ∧ (q = 0 → p = 0 ∨ n ≠ 0 → ensureReady a' = ensureReady s.arena) := by
  unfold arenaReallocCore at hr
  by_cases hp0 : p = 0
  · rw [if_pos hp0] at hr
    obtain ⟨hk, hnull⟩ := h.mallocCore_keeps hr
    exact ⟨hk.mono, absurd hp0, fun hq _ => hnull hq⟩
  rw [if_neg hp0] at hr
  split at hr <;> rename_i hn0
  · obtain ⟨a1, hf, he⟩ := map_eq_some_iff.mp hr
    cases he
    exact ⟨h.free_keeps hp hf, fun _ hq => absurd rfl hq, fun _ hor => (hor.elim hp0 (· hn0)).elim⟩
  obtain ⟨b, hb, rfl⟩ := hp.resolve_left hp0
  obtain ⟨-, offs, fl, o, hs, hl, ho⟩ := h.of_live hb
  simp only [ho.cap hs, ← ho.usable] at hr
  split at hr
  · cases hr
    exact ⟨fun _ _ _ _ _ => rfl, fun _ _ _ _ => rfl, fun hq => absurd hq hp0⟩
  obtain ⟨q1, a1, hm, hi, -⟩ := h.mallocCore noacct hn
  obtain ⟨hk, hnull⟩ := h.mallocCore_keeps hm
  obtain ⟨hbase, hsize⟩ := h.mallocCore_blkSize hn hm
  have husable := fun b hb => usable_congr (hsize b hb)
  simp only [hm] at hr
  split at hr <;> rename_i hq
  · cases hr
    exact ⟨hk.mono, fun _ hne => absurd rfl hne, fun _ _ => hnull hq⟩
  rw [addLive, if_neg hq] at hi
  obtain ⟨a2, hf, he⟩ := map_eq_some_iff.mp hr
  cases he
  -- the copy stays inside the new payload, and the free is that of another block
  have hout : ∀ x, x < q - a1.base ∨ q - a1.base + n ≤ x →
      copyBytes a1.mem (q - a1.base) (b.ptr - a1.base) (usable s.arena b.ptr) x = a1.mem x :=
    fun x hx => copyBytes_outside (by omega)
  have hnew : (⟨q, n, !noacct⟩ : LiveBlock) ∈ ⟨q, n, !noacct⟩ :: s.live := mem_cons_self
  have hcopy := hi.write hnew hout
  have hcopyKeeps := hi.write_keeps hnew hout
  have hfree := hcopy.free_keeps (.inr ⟨b, mem_cons_of_mem _ hb, rfl⟩) hf
  obtain ⟨-, offs', fl', z, -, -, hz⟩ := hi.of_live hnew
  have hqp : ∀ b' ∈ s.live, q ≠ b'.ptr := fun _ => hi.head_ne
  refine ⟨fun b' hb' hne i hi' => ?_, fun _ _ i hi' => ?_, fun h0 => absurd h0 hq⟩
  · have hmem' := mem_cons_of_mem (⟨q, n, !noacct⟩ : LiveBlock) hb'
    have h1 := hfree b' hmem' hne i
      (by rw [usable_congr (hi.write_blkSize hnew hout hmem'), husable b' hb']; exact hi')
    have h2 := hcopyKeeps b' hmem' (by simpa using hqp b' hb') i (by rw [husable b' hb']; exact hi')
    have h3 := hk b' hb' (by simp) i hi'
    simp only [hbase] at h1 h2
    rw [h1, h2, h3]
  · have hi'' : i < usable s.arena b.ptr := by omega
    have hroom : n ≤ usable a1 q := by
      have := hz.req
      rw [show usable a1 q = _ from hz.usable]
      simp only at this ⊢
      omega
    have h1 := hfree ⟨q, n, !noacct⟩ hnew (by simpa using (hqp b hb).symm) i
      (by rw [usable_congr (hi.write_blkSize hnew hout hnew)]; show i < usable a1 q; omega)
    have h3 := hk b hb (by simp) i hi''
    simp only [hbase] at h1
    rw [h1, copyBytes, if_pos (by omega), Nat.add_sub_cancel_left, h3]

theorem HeapInv.calloc_keeps {nmemb sz : Nat} (hsm : 2 ^ 32 ≤ sizeMax + 1)
    (hn : nmemb * sz + 31 < 2 ^ 32) (hr : arenaCalloc sizeMax s.arena nmemb sz = some (p, a')) :
    KeepsLive s a'.mem none ∧ (p = 0 → ensureReady a' = ensureReady s.arena) := by
  unfold arenaCalloc at hr
  split at hr
  · cases hr
    exact ⟨fun _ _ _ _ _ => rfl, fun _ => rfl⟩
  rw [Nat.mod_eq_of_lt (show nmemb * sz < sizeMax + 1 by omega)] at hr
  obtain ⟨q, a1, hm, hi, -⟩ := h.mallocCore false hn
  obtain ⟨hk, hnull⟩ := h.mallocCore_keeps hm
  obtain ⟨hbase, hsize⟩ := h.mallocCore_blkSize hn hm
  have husable := fun b hb => usable_congr (hsize b hb)
  simp only [arenaMalloc, hm, map_some, some.injEq] at hr
  split at hr <;> rename_i hq
  · cases hr
    exact ⟨hk, fun _ => hnull hq⟩
  rw [addLive, if_neg hq] at hi
  cases hr
  have hnew : (⟨p, nmemb * sz, !false⟩ : LiveBlock) ∈ ⟨p, nmemb * sz, !false⟩ :: s.live :=
    mem_cons_self
  have hfill := hi.write_keeps hnew (m := fill a1.mem (p - a1.base) (nmemb * sz) 0)
    fun x hx => fill_outside hx
  refine ⟨fun b hb _ i hi' => ?_, fun h0 => absurd h0 hq⟩
  have h1 := hfill b (mem_cons_of_mem _ hb) (by simpa using hi.head_ne hb) i
    (by rw [husable b hb]; exact hi')
  simp only [hbase] at h1 ⊢
  rw [h1, hk b hb (by simp) i hi']

/-! ## Contents over whole runs -/

def ArenaOp.answer (sizeMax : Nat) (s : HeapState) : ArenaOp → Option Nat
  | .malloc n => (arenaMalloc s.arena n).map Prod.fst
  | .mallocNoacct n => (arenaMallocNoacct s.arena n).map Prod.fst
  | .calloc nmemb sz => (arenaCalloc sizeMax s.arena nmemb sz).map Prod.fst
  | .realloc p n => (arenaRealloc s.arena p n).map Prod.fst
  | .reallocNoacct p n => (arenaReallocNoacct s.arena p n).map Prod.fst
  | _ => none

/-- The block that is freed, reallocated or written by the cart. -/
def ArenaOp.target : ArenaOp → Option Nat
  | .realloc p _ | .reallocNoacct p _ | .free p | .store p _ _ => some p
  | _ => none

/-- The block and the size of a `realloc`. -/
def ArenaOp.resize : ArenaOp → Option (Nat × Nat)
  | .realloc p n | .reallocNoacct p n => some (p, n)
  | _ => none

/-- What a call keeps of the heap's contents. A call that refuses leaves the arena as its
next call sees it; only `realloc(p, 0)` returns `NULL` without refusing anything. -/
structure Preserved (sizeMax : Nat) (s : HeapState) (op : ArenaOp) (s' : HeapState) : Prop where
  others : KeepsLive s s'.arena.mem op.target
  moved : ∀ p n q, op.resize = some (p, n) → p ≠ 0 → op.answer sizeMax s = some q → q ≠ 0 →
    ∀ i < min (usable s.arena p) n,
      s'.arena.mem (q - s.arena.base + i) = s.arena.mem (p - s.arena.base + i)
  refused : op.answer sizeMax s = some 0 → (∀ p, op.resize = some (p, 0) → p = 0) →
    ensureReady s'.arena = ensureReady s.arena ∧ s'.live = s.live

theorem Preserved.of_malloc (htarget : op.target = none)
    (hresize : op.resize = none) (hans : op.answer sizeMax s = some p)
    (hr : arenaMallocCore s.arena n noacct = some (p, a')) :
    Preserved sizeMax s op ⟨a', addLive p n acct s.live⟩ := by
  obtain ⟨hk, hnull⟩ := h.mallocCore_keeps hr
  refine ⟨by rwa [htarget], fun _ _ _ h => by simp [hresize] at h, fun h0 _ => ?_⟩
  obtain rfl := some.inj (hans.symm.trans h0)
  exact ⟨hnull rfl, rfl⟩

theorem Preserved.of_realloc (hn : n + 31 < 2 ^ 32) (hp : NullOrLive s p)
    (htarget : op.target = some p) (hresize : op.resize = some (p, n))
    (hans : op.answer sizeMax s = some q)
    (hr : arenaReallocCore s.arena p n noacct = some (q, a')) :
    Preserved sizeMax s op ⟨a', reallocLive p n q acct s.live⟩ := by
  obtain ⟨hk, hmoved, hnull⟩ := h.realloc_keeps hn hp hr
  refine ⟨by rwa [htarget], fun p' n' q' hres hp' hq' hq0 => ?_, fun h0 hres => ?_⟩
  · cases hresize.symm.trans hres
    cases hans.symm.trans hq'
    exact hmoved hp' hq0
  · cases hans.symm.trans h0
    have hor : p = 0 ∨ n ≠ 0 := by
      by_cases hn0 : n = 0
      · exact .inl (hres p (by rw [hresize, hn0]))
      · exact .inr hn0
    refine ⟨hnull rfl hor, ?_⟩
    rw [reallocLive]
    split <;> rename_i hp0
    · rfl
    · rw [if_neg (hor.resolve_left hp0), if_pos rfl]

end

/-- **One call** on live pointers with requests below the limit. -/
theorem heapStep_preserved {limit : Nat} (hsm : 2 ^ 32 ≤ sizeMax + 1) (hlim : limit + 30 < 2 ^ 32)
    {s' : HeapState} (h : HeapInv s) (hadm : op.Admissible limit s)
    (hstep : heapStep sizeMax s op = some s') : Preserved sizeMax s op s' := by
  cases op with
  | malloc n | mallocNoacct n =>
    obtain ⟨⟨p, a'⟩, hr, rfl⟩ := map_eq_some_iff.mp hstep
    exact .of_malloc h rfl rfl (by rw [ArenaOp.answer, hr]; rfl) hr
  | calloc nmemb sz =>
    obtain ⟨⟨p, a'⟩, hr, rfl⟩ := map_eq_some_iff.mp hstep
    have hn : nmemb * sz < limit := hadm
    obtain ⟨hk, hnull⟩ := h.calloc_keeps hsm (by omega) hr
    refine ⟨hk, nofun, fun h0 _ => ?_⟩
    rw [ArenaOp.answer, hr] at h0
    obtain rfl : p = 0 := some.inj h0
    exact ⟨hnull rfl, rfl⟩
  | realloc p n | reallocNoacct p n =>
    obtain ⟨⟨q, a'⟩, hr, rfl⟩ := map_eq_some_iff.mp hstep
    have hn := hadm.1
    exact .of_realloc h (by omega) hadm.2 rfl rfl (by rw [ArenaOp.answer, hr]; rfl) hr
  | free =>
    obtain ⟨a', hr, rfl⟩ := map_eq_some_iff.mp hstep
    exact ⟨h.free_keeps hadm hr, nofun, nofun⟩
  | reset =>
    cases hstep
    exact ⟨fun _ _ _ _ _ => rfl, nofun, nofun⟩
  | store =>
    cases hstep
    obtain ⟨b, hb, rfl, hi⟩ := hadm
    exact ⟨h.write_keeps hb fun x hx => fill_outside (by omega), nofun, nofun⟩

/-- **Heap contents are preserved.** After any sequence of calls on live pointers with
requests below 2^31, one more such call leaves the payloads of all other live blocks alone,
a successful `realloc` keeps the first bytes of its block, and a call that fails leaves
payloads, free list, bump offset and counter as they were. -/
theorem heap_contents_preserved {sizeMax : Nat} (hsm : 2 ^ 32 ≤ sizeMax + 1) {a : Arena}
    (hfresh : a.Fresh) {ops : List ArenaOp}
    (hadm : AdmRun (heapStep sizeMax) (fun s op => op.Admissible (2 ^ 31) s) ⟨a, []⟩ ops) :
    ∃ s, runSteps (heapStep sizeMax) ⟨a, []⟩ ops = some s ∧
      ∀ op : ArenaOp, op.Admissible (2 ^ 31) s →
        ∃ s', heapStep sizeMax s op = some s' ∧ Preserved sizeMax s op s' := by
  obtain ⟨s, hrun, hi⟩ := heapRun_inv hsm (by norm_num) hfresh hadm
  refine ⟨s, hrun, fun op hop => ?_⟩
  obtain ⟨s', hstep, -⟩ := heapStep_spec hsm (by norm_num) s op hi hop
  exact ⟨s', hstep, heapStep_preserved hsm (by norm_num) hi hop hstep⟩

theorem heap_contents_preserved_demo :
    ∃ s, runSteps (heapStep (2 ^ 32 - 1)) ⟨demoArena, []⟩ demoOps = some s ∧
      ∀ op : ArenaOp, op.Admissible (2 ^ 31) s →
        ∃ s', heapStep (2 ^ 32 - 1) s op = some s' ∧ Preserved (2 ^ 32 - 1) s op s' :=
  heap_contents_preserved (by norm_num) ⟨rfl, by rintro c ⟨⟩; rfl⟩ (by decide +kernel)

/-! ## Requests of any size -/

/-- Every live block has the bytes that were asked for, inside the region and apart from the
other live blocks. -/
structure HeapState.LiveOK (s : HeapState) : Prop where
  room : ∀ b ∈ s.live, b.req + hdrSize ≤ blkSize s.arena (hdrOff s.arena b.ptr)
  inside : ∀ b ∈ s.live, s.arena.base + hdrSize ≤ b.ptr
    ∧ b.ptr + usable s.arena b.ptr ≤ s.arena.base + s.arena.size
  apart : s.live.Pairwise fun b b' => b.ptr + usable s.arena b.ptr ≤ b'.ptr
    ∨ b'.ptr + usable s.arena b'.ptr ≤ b.ptr

theorem HeapInv.liveOK (h : HeapInv s) : s.LiveOK := by
  refine ⟨fun b hb => ?_, fun b hb => ?_, ?_⟩
  · obtain ⟨-, offs, fl, o, -, -, ho⟩ := h.of_live hb
    rw [ho.hdrOff]
    exact ho.req
  · obtain ⟨-, offs, fl, o, hs, -, ho⟩ := h.of_live hb
    have hend : o + blkSize s.arena o ≤ s.arena.bump := hs.end_le ho.inUse.1
    have h32 : 32 ≤ blkSize s.arena o := hs.size_ge o ho.inUse.1
    have hsize := hs.bump_le
    rw [ho.usable, ho.ptr]
    unfold hdrSize
    omega
  · obtain ⟨offs, fl, hok⟩ := h.heapOK
    refine hok.disjoint.imp_of_mem fun {b b'} hb _ hsep => ?_
    rwa [ensureReady_of_ready (h.of_live hb).1] at hsep

/-- The call's request is honoured or refused: whenever it returns, every live block, the one
it returned included, is as it should be. -/
def ArenaOp.Honoured (sizeMax : Nat) (s : HeapState) (op : ArenaOp) : Prop :=
  ∀ s', heapStep sizeMax s op = some s' → s'.LiveOK

/-- There is room for any block size that a request of `n` bytes is served with. -/
def Arena.Roomy (a : Arena) (n : Nat) (noacct : Bool) : Prop :=
  a.base ≠ 0 ∧ a.size ≠ 0 ∧ a.size + 16 ≤ 2 ^ 32 ∧ (ensureReady a).bump + needOf n ≤ a.size
    ∧ (noacct = false → capAllows a (needOf n + 31) = true)

/-- The call allocates afresh, and there is room. -/
def ArenaOp.Roomy (s : HeapState) : ArenaOp → Prop
  | .malloc n => s.arena.Roomy n false
  | .mallocNoacct n => s.arena.Roomy n true
  | .calloc nmemb sz => s.arena.Roomy (nmemb * sz) false
  | .realloc p n => p = 0 ∧ s.arena.Roomy n false
  | .reallocNoacct p n => p = 0 ∧ s.arena.Roomy n true
  | _ => False

theorem capAllows_mono {m : Nat} (h : capAllows a m = true) (hle : n ≤ m) :
    capAllows a n = true := by
  unfold capAllows at h ⊢
  cases hacct : a.acct with
  | none => rfl
  | some =>
    simp only [hacct, memAllocFits, decide_eq_true_eq] at h ⊢
    omega

/-- With room, no request is refused. -/
theorem Arena.Roomy.served (hroom : a.Roomy n noacct) (h : Shape (ensureReady a) offs fl) :
    ∃ p a', arenaMallocCore a n noacct = some (p, a') ∧ p ≠ 0 := by
  obtain ⟨hbase, hsize, -, hfit, hcap⟩ := hroom
  have hallow : ∀ m ≤ needOf n + 31, (!noacct && !capAllows (ensureReady a) m) = false := by
    intro m hm
    have hacct : capAllows (ensureReady a) m = capAllows a m := by
      unfold capAllows
      rw [ensureReady_acct]
    cases noacct with
    | true => rfl
    | false => rw [hacct, capAllows_mono (hcap rfl) hm]; rfl
  rcases arenaMallocCore_walk n noacct h with ⟨hnull, -⟩ | ⟨-, hc | ⟨l₁, o, l₂, rfl, hle', hc⟩⟩
  · exact absurd hnull (not_or.mpr ⟨hbase, hsize⟩)
  · refine ⟨(takeBump (ensureReady a) (needOf n) _ noacct).1, _, hc, ?_⟩
    rw [takeBump, if_neg (by rw [ensureReady_size]; omega), hallow _ (by omega), if_neg (by simp)]
    simp only [hdrSize]
    omega
  · refine ⟨(takeFit (ensureReady a) (endLink none l₁) (needOf n) _ noacct).1, _, hc, ?_⟩
    have heq : takeFit _ (endLink none l₁) (needOf n) (markOf noacct) noacct = _ :=
      takeFit_eq h hle' noacct
    simp only [hallow _ (show (if decide (32 ≤ blkSize (ensureReady a) o - needOf n) = true
      then needOf n else blkSize (ensureReady a) o) ≤ needOf n + 31 by
        simp only [decide_eq_true_eq]
        split <;> omega),
      Bool.false_eq_true, if_false] at heq
    rw [heq]
    simp only [hdrSize]
    omega

theorem arenaMallocCore_size (h : Shape (ensureReady a) offs fl)
    (hr : arenaMallocCore a n noacct = some (p, a')) : a'.size = a.size := by
  rcases arenaMallocCore_cases n noacct h with hc | hc | ⟨o, a1, hc, hv⟩
  · cases hr.symm.trans hc
    rfl
  · cases hr.symm.trans hc
    exact ensureReady_size a
  · cases hr.symm.trans hc
    exact hv.fields.2.1.trans (ensureReady_size a)

/-- A block that is as it should be was asked for with a size that does not wrap around. -/
theorem HeapState.LiveOK.req_lt (h : s.LiveOK) (hsize : s.arena.size + 16 ≤ 2 ^ 32)
    (hb : b ∈ s.live) : b.req < 2 ^ 32 - 31 := by
  have hroom := h.room b hb
  obtain ⟨hlo, hhi⟩ := h.inside b hb
  unfold usable at hhi
  unfold hdrSize at *
  omega

/-- A granted request in an arena with room tells how large it was. -/
theorem Arena.Roomy.req_lt (hroom : s.arena.Roomy n noacct) (hi : HeapInv s)
    (h : ∀ p a', arenaMallocCore s.arena n noacct = some (p, a') → p ≠ 0 →
      ∃ s' : HeapState, s'.LiveOK ∧ s'.arena.size = a'.size
        ∧ (⟨p, n, !noacct⟩ : LiveBlock) ∈ s'.live) : n < 2 ^ 32 - 31 := by
  obtain ⟨offs, fl, hs, -⟩ := hi
  obtain ⟨p, a', hr, hp⟩ := hroom.served hs
  obtain ⟨s', hok, hsize, hb⟩ := h p a' hr hp
  rw [arenaMallocCore_size hs hr] at hsize
  exact hok.req_lt (by rw [hsize]; exact hroom.2.2.1) hb

theorem honoured_admissible (hi : HeapInv s) (hadm : op.Admissible (sizeMax + 1) s)
    (hroom : op.Roomy s) (h : op.Honoured sizeMax s) : op.Admissible (2 ^ 32 - 31) s := by
  have hlive : ∀ {p n acct}, p ≠ 0 → (⟨p, n, acct⟩ : LiveBlock) ∈ addLive p n acct s.live := by
    intro p n acct hp
    rw [addLive, if_neg hp]
    exact mem_cons_self
  cases op with
  | malloc n =>
    refine Arena.Roomy.req_lt hroom hi fun p a' hr hp => ?_
    exact ⟨_, h ⟨a', addLive p n true s.live⟩ (by rw [heapStep, arenaMalloc, hr]; rfl), rfl,
      hlive hp⟩
  | mallocNoacct n =>
    refine Arena.Roomy.req_lt hroom hi fun p a' hr hp => ?_
    exact ⟨_, h ⟨a', addLive p n false s.live⟩ (by rw [heapStep, arenaMallocNoacct, hr]; rfl),
      rfl, hlive hp⟩
  | calloc nmemb sz =>
    refine Arena.Roomy.req_lt hroom hi fun p a' hr hp => ?_
    have hn : nmemb * sz < sizeMax + 1 := hadm
    have hov : ¬ (sz ≠ 0 ∧ sizeMax / sz < nmemb) := by
      rintro ⟨hsz, hlt⟩
      have := (Nat.div_lt_iff_lt_mul (Nat.pos_of_ne_zero hsz)).mp hlt
      omega
    refine ⟨_, h ⟨{ a' with mem := fill a'.mem (p - a'.base) (nmemb * sz) 0 },
      addLive p (nmemb * sz) true s.live⟩ ?_, rfl, hlive hp⟩
    simp only [heapStep, arenaCalloc, if_neg hov, Nat.mod_eq_of_lt hn, arenaMalloc, hr,
      map_some, if_neg hp]
  | realloc p n =>
    obtain ⟨rfl, hroom⟩ := hroom
    refine ⟨Arena.Roomy.req_lt hroom hi fun q a' hr hq => ?_, .inl rfl⟩
    exact ⟨_, h ⟨a', addLive q n true s.live⟩
      (by rw [heapStep, arenaRealloc, arenaReallocCore, if_pos rfl, hr]; rfl), rfl, hlive hq⟩
  | reallocNoacct p n =>
    obtain ⟨rfl, hroom⟩ := hroom
    refine ⟨Arena.Roomy.req_lt hroom hi fun q a' hr hq => ?_, .inl rfl⟩
    exact ⟨_, h ⟨a', addLive q n false s.live⟩
      (by rw [heapStep, arenaReallocNoacct, arenaReallocCore, if_pos rfl, hr]; rfl), rfl,
      hlive hq⟩
  | free p | reset | store p i v => cases hroom

/-- **Requests of any size.** In every state that calls with requests below 2^32 - 31 lead
to, one more such call gives only blocks that are large enough, inside the region and apart
from the others. Where there is room for the block size a request comes out as, this is
exactly the limit: header and rounding push any larger request past 32 bits. -/
theorem requests_honoured {sizeMax : Nat} (hsm : 2 ^ 32 ≤ sizeMax + 1) {a : Arena}
    (hfresh : a.Fresh) {ops : List ArenaOp}
    (hadm : AdmRun (heapStep sizeMax) (fun s op => op.Admissible (2 ^ 32 - 31) s) ⟨a, []⟩ ops) :
    ∃ s, runSteps (heapStep sizeMax) ⟨a, []⟩ ops = some s ∧
      ∀ op : ArenaOp, op.Admissible (sizeMax + 1) s →
        (op.Admissible (2 ^ 32 - 31) s → op.Honoured sizeMax s)
          ∧ (op.Roomy s → (op.Honoured sizeMax s ↔ op.Admissible (2 ^ 32 - 31) s)) := by
  obtain ⟨s, hrun, hi⟩ := heapRun_inv hsm (by norm_num) hfresh hadm
  refine ⟨s, hrun, fun op hop => ?_⟩
  have hsmall : op.Admissible (2 ^ 32 - 31) s → op.Honoured sizeMax s := by
    intro hop' s' hstep
    obtain ⟨s1, hstep', hi', -⟩ := heapStep_spec hsm (by norm_num) s op hi hop'
    cases hstep'.symm.trans hstep
    exact hi'.liveOK
  exact ⟨hsmall, fun hroom => ⟨honoured_admissible hi hop hroom, hsmall⟩⟩

theorem requests_honoured_demo :
    ∃ s, runSteps (heapStep (2 ^ 32 - 1)) ⟨demoArena, []⟩ demoOps = some s ∧
      ∀ op : ArenaOp, op.Admissible (2 ^ 32 - 1 + 1) s →
        (op.Admissible (2 ^ 32 - 31) s → op.Honoured (2 ^ 32 - 1) s)
          ∧ (op.Roomy s → (op.Honoured (2 ^ 32 - 1) s ↔ op.Admissible (2 ^ 32 - 31) s)) :=
  requests_honoured (by norm_num) ⟨rfl, by rintro c ⟨⟩; rfl⟩ (by decide +kernel)

/-- A request of 2^32 - 16 bytes to a fresh arena of 1024: the size wraps around to 0 and the
request is granted, with a block of no bytes at all. -/
theorem huge_request_granted :
    ¬ (ArenaOp.malloc (2 ^ 32 - 16)).Honoured (2 ^ 32 - 1) ⟨demoArena, []⟩ := by
  intro h
  obtain ⟨s', hs', b, hb, hlt⟩ : ∃ s, heapStep (2 ^ 32 - 1) ⟨demoArena, []⟩ (.malloc (2 ^ 32 - 16))
      = some s ∧ ∃ b ∈ s.live, blkSize s.arena (hdrOff s.arena b.ptr) < b.req + hdrSize := by
    decide +kernel
  exact absurd ((h s' hs').room b hb) (not_le.mpr hlt)

end Blyt
