import Blyt.ArenaFrame

/-!
# Freeing a pointer twice

`blyt_arena_free` tells a second free by the flag in the block's header. But the
header of a free block does not stay a header: when the block in front is freed,
`coalesce_forward` takes the block off the free list, clears its flag and merges it,
and what remains inside the larger block is a dead header that says the block is in
use. This file follows dead headers through all later calls.

`StaleHeap` adds the pointers that were freed and whose bytes have not been handed
out since to the state of `Blyt.ArenaRun`; the code keeps no such record.
-/

namespace Blyt

open List Option ArenaOp

/-- A pointer that was freed, with the size its block then had. -/
structure StaleBlock where
  ptr : Nat
  size : Nat
  deriving DecidableEq

structure StaleHeap where
  heap : HeapState
  stale : List StaleBlock

/-- The block behind `q` takes no byte of the block that was freed. -/
def StaleBlock.Apart (a : Arena) (q : Nat) (r : StaleBlock) : Prop :=
  hdrOff a r.ptr + r.size ≤ hdrOff a q ∨ hdrOff a q + blkSize a (hdrOff a q) ≤ hdrOff a r.ptr

instance (a : Arena) (q : Nat) : DecidablePred (StaleBlock.Apart a q) :=
  fun _ => inferInstanceAs (Decidable (_ ∨ _))

/-- What is left of the freed pointers once `q` has been handed out. -/
def spare (a : Arena) (q : Nat) (stale : List StaleBlock) : List StaleBlock :=
  if q = 0 then stale else stale.filter (StaleBlock.Apart a q)

def retire (a : Arena) (p : Nat) (stale : List StaleBlock) : List StaleBlock :=
  ⟨p, blkSize a (hdrOff a p)⟩ :: stale

/-- The freed pointers after a call that led to `s'`. A second free adds none, and a reset
starts a new heap. -/
def ArenaOp.staleAfter (sizeMax : Nat) (t : StaleHeap) (s' : HeapState) (op : ArenaOp) :
    List StaleBlock :=
  let q := (op.answer sizeMax t.heap).getD 0
  match op with
  | .free p => if ∃ b ∈ t.heap.live, b.ptr = p then retire t.heap.arena p t.stale else t.stale
  | .realloc p n | .reallocNoacct p n =>
    if p = 0 then spare s'.arena q t.stale
    else if n = 0 then retire t.heap.arena p t.stale
    else if q = 0 ∨ q = p then t.stale
    else retire t.heap.arena p (spare s'.arena q t.stale)
  | .reset => []
  | .store _ _ _ => t.stale
  | _ => spare s'.arena q t.stale

def staleStep (sizeMax : Nat) (t : StaleHeap) (op : ArenaOp) : Option StaleHeap :=
  (heapStep sizeMax t.heap op).map fun s' => ⟨s', op.staleAfter sizeMax t s'⟩

/-- Calls on live pointers, and second frees. -/
def ArenaOp.StaleAdmissible (limit : Nat) (t : StaleHeap) (op : ArenaOp) : Prop :=
  match op with
  | .free p => NullOrLive t.heap p ∨ ∃ r ∈ t.stale, r.ptr = p
  | op => op.Admissible limit t.heap

instance (limit : Nat) (t : StaleHeap) (op : ArenaOp) : Decidable (op.StaleAdmissible limit t) := by
  unfold StaleAdmissible
  split <;> infer_instance

/-- Headers, free list, bump offset and counters are the same. -/
def SameHeap (a a' : Arena) : Prop :=
  a'.freeHead = a.freeHead ∧ a'.bump = a.bump ∧ a'.acct = a.acct
    ∧ ∀ o < a.bump, hdrAt a'.mem o = hdrAt a.mem o

instance (a a' : Arena) : Decidable (SameHeap a a') := inferInstanceAs (Decidable (_ ∧ _))

/-- If the call frees a pointer a second time, it returns and leaves the heap as it is. -/
def ArenaOp.IgnoresDouble (t : StaleHeap) : ArenaOp → Prop
  | .free p => (∃ r ∈ t.stale, r.ptr = p) → ∃ a' ∈ arenaFree t.heap.arena p,
      SameHeap t.heap.arena a'
  | _ => True

instance (t : StaleHeap) (op : ArenaOp) : Decidable (op.IgnoresDouble t) := by
  unfold IgnoresDouble
  split <;> infer_instance

/-- The block at `h` is one of those on the free list. -/
def Arena.OnFreeList (a : Arena) (h : Nat) : Prop :=
  ∃ fl, Chain a.link arenaNone none fl ∧ h ∈ fl

/-- If the call frees a pointer a second time, the block has not been merged into the one in
front of it: it is still on the free list by itself. -/
def ArenaOp.DoubleUnmerged (t : StaleHeap) : ArenaOp → Prop
  | .free p => (∃ r ∈ t.stale, r.ptr = p) →
      t.heap.arena.OnFreeList (hdrOff t.heap.arena p)
  | _ => True

/-! ## Dead headers -/

/-- Where a freed block is: inside a free block, and unless it is that block, its header
there is dead and says the block is in use. -/
structure StaleAt (a : Arena) (fl : List Nat) (r : StaleBlock) (h : Nat) : Prop where
  ptr : r.ptr = a.base + h + hdrSize
  dvd : 16 ∣ h
  large : 32 ≤ r.size
  inside : ∃ o ∈ fl, o ≤ h ∧ h + r.size ≤ o + blkSize a o
  dead : h ∉ fl → blkFree a h = 0 ∧ 32 ≤ blkSize a h

variable {a : Arena} {fl : List Nat} {r : StaleBlock} {h : Nat} {offs offs' fl' : List Nat}
  {a' : Arena} {o need : Nat} {noacct : Bool} {s : HeapState} {stale : List StaleBlock} {n p : Nat}
  {b : LiveBlock} {q sizeMax : Nat} {t t' : StaleHeap}

theorem StaleAt.hdrOff (hr : StaleAt a fl r h) : hdrOff a r.ptr = h := by
  rw [hr.ptr, hdrOff_payload]

section Edits

variable {a : Arena} {offs fl l₁ l₂ : List Nat} {o need mark : Nat} {r : StaleBlock} {h : Nat}

/-- A block in use is not where a freed block is. -/
theorem StaleAt.ne_of_inUse (hs : Shape a offs fl) (hr : StaleAt a fl r h)
    (hu : a.view.InUse offs o) : h + r.size ≤ o ∨ o + blkSize a o ≤ h := by
  obtain ⟨x, hx, hlo, hhi⟩ := hr.inside
  have hxo : x ≠ o := fun he => ((hs.mem_fl x).mp hx).2 (he ▸ hu.2)
  have hsep : x + blkSize a x ≤ o ∨ o + blkSize a o ≤ x :=
    tiles_apart hs.tiles (hs.mem_offs hx) hu.1 hxo
  omega

theorem StaleAt.lt_bump (hs : Shape a offs fl) (hr : StaleAt a fl r h) : h + 32 ≤ a.bump := by
  obtain ⟨x, hx, hlo, hhi⟩ := hr.inside
  have hend : x + blkSize a x ≤ a.bump := hs.end_le (hs.mem_offs hx)
  have := hr.large
  omega

/-- Headers that keep size and flag keep a dead header dead. -/
theorem StaleAt.keep {a' : Arena} {fl' : List Nat} (hr : StaleAt a fl r h)
    (hbase : a'.base = a.base) (hinside : ∃ o ∈ fl', o ≤ h ∧ h + r.size ≤ o + blkSize a' o)
    (hdead : h ∉ fl' → h ∉ fl ∧ (hdrAt a'.mem h).size = (hdrAt a.mem h).size
      ∧ (hdrAt a'.mem h).free = (hdrAt a.mem h).free) : StaleAt a' fl' r h := by
  refine ⟨by rw [hbase, hr.ptr], hr.dvd, hr.large, hinside, fun hn => ?_⟩
  obtain ⟨hn', hsize, hfree⟩ := hdead hn
  obtain ⟨h1, h2⟩ := hr.dead hn'
  exact ⟨hfree.trans h1, h2.trans_eq hsize.symm⟩

/-- A free block is cut, and what is handed out is not the freed block. -/
theorem StaleAt.cut (hs : Shape a offs (l₁ ++ o :: l₂)) (hdvd : 16 ∣ need) (h32 : 32 ≤ need)
    (hle : need + 32 ≤ blkSize a o) (hmark : mark < 2 ^ 32)
    (hr : StaleAt a (l₁ ++ o :: l₂) r h) (hap : h + r.size ≤ o ∨ o + need ≤ h) :
    StaleAt (splitAt a (endLink none l₁) o need mark) (l₁ ++ (o + need) :: l₂) r h := by
  have homem : o ∈ offs := hs.mem_offs (by simp)
  have hat := fun {x : Nat} (hx : 16 ∣ x) =>
    splitAt_hdr hs hdvd (by omega) (by omega) hmark hx
  have hsize : ∀ x, 16 ∣ x → x ≠ o → x ≠ o + need →
      (hdrAt (splitAt a (endLink none l₁) o need mark).mem x).size = (hdrAt a.mem x).size
      ∧ (hdrAt (splitAt a (endLink none l₁) o need mark).mem x).free = (hdrAt a.mem x).free := by
    intro x hx hxo hxt
    rw [hat hx, if_neg hxo, if_neg hxt]
    split <;> exact ⟨rfl, rfl⟩
  have hbase := (splitAt_relinks a (endLink none l₁) o need mark).base
  have hlarge := hr.large
  obtain ⟨x, hx, hlo, hhi⟩ := hr.inside
  by_cases hxo : x = o
  · -- the freed block is in the part that is cut off
    subst hxo
    have ht := (hs.dvd homem).add hdvd
    have htsize : blkSize (splitAt a (endLink none l₁) x need mark) (x + need)
        = blkSize a x - need := by
      show (hdrAt _ _).size = _
      rw [hat ht, if_neg (by omega), if_pos rfl]
    refine hr.keep hbase ⟨x + need, by simp, by omega, by rw [htsize]; omega⟩ fun hn => ?_
    have hne : h ≠ x + need := fun he => hn (by simp [he])
    refine ⟨fun hm => hn ?_, hsize h hr.dvd (by omega) hne⟩
    have hno := hs.inside_notMem homem (by omega) (show h < x + blkSize a x by omega)
    exact absurd (hs.mem_offs hm) hno
  · have hxm : x ∈ l₁ ++ l₂ := by
      simp only [mem_append, mem_cons] at hx ⊢
      tauto
    have hxoffs := hs.mem_offs hx
    have hsep : x + blkSize a x ≤ o ∨ o + blkSize a o ≤ x :=
      tiles_apart hs.tiles hxoffs homem hxo
    have hxsz : blkSize (splitAt a (endLink none l₁) o need mark) x = blkSize a x :=
      (hsize x (hs.dvd hxoffs) hxo (by have := hs.size_ge x hxoffs; omega)).1
    refine hr.keep hbase ⟨x, ?_, hlo, by rw [hxsz]; exact hhi⟩ fun hn => ?_
    · simp only [mem_append, mem_cons] at hxm ⊢
      tauto
    · refine ⟨fun hm => ?_, hsize h hr.dvd (by omega) (by omega)⟩
      simp only [mem_append, mem_cons, not_or] at hm hn
      have : h = o := by tauto
      omega

/-- A free block is taken whole, and it is not the one the freed block is in. -/
theorem StaleAt.whole (hs : Shape a offs (l₁ ++ o :: l₂)) (hmark : mark < 2 ^ 32)
    (hr : StaleAt a (l₁ ++ o :: l₂) r h) (hap : h + r.size ≤ o ∨ o + blkSize a o ≤ h) :
    StaleAt (takeWhole a (endLink none l₁) o mark) (l₁ ++ l₂) r h := by
  have homem : o ∈ offs := hs.mem_offs (by simp)
  have hsize : ∀ x, 16 ∣ x → x ≠ o →
      (hdrAt (takeWhole a (endLink none l₁) o mark).mem x).size = (hdrAt a.mem x).size
      ∧ (hdrAt (takeWhole a (endLink none l₁) o mark).mem x).free = (hdrAt a.mem x).free := by
    intro x hx hxo
    rw [takeWhole_hdr hs hmark hx, if_neg hxo]
    split <;> exact ⟨rfl, rfl⟩
  have hlarge := hr.large
  obtain ⟨x, hx, hlo, hhi⟩ := hr.inside
  have hxo : x ≠ o := by
    rintro rfl
    omega
  have hxm : x ∈ l₁ ++ l₂ := by
    simp only [mem_append, mem_cons] at hx ⊢
    tauto
  have hxsz : blkSize (takeWhole a (endLink none l₁) o mark) x = blkSize a x :=
    (hsize x (hs.dvd (hs.mem_offs hx)) hxo).1
  refine hr.keep (takeWhole_relinks ..).base ⟨x, hxm, hlo, by rw [hxsz]; exact hhi⟩ fun hn => ?_
  have h32 : 32 ≤ blkSize a o := hs.size_ge o homem
  have hho : h ≠ o := by omega
  refine ⟨fun hm => hn ?_, hsize h hr.dvd hho⟩
  simp only [mem_append, mem_cons] at hm ⊢
  tauto

theorem StaleAt.bump (hs : Shape a offs fl) (hr : StaleAt a fl r h) :
    StaleAt (bumpAt a need mark) fl r h := by
  have hat : ∀ x, 16 ∣ x → x ≠ a.bump → hdrAt (bumpAt a need mark).mem x = hdrAt a.mem x := by
    intro x hx hxb
    have hb : 16 ∣ a.bump := hs.dvd_hi
    exact (hdrAt_setAll hb hx).trans (if_neg hxb)
  obtain ⟨x, hx, hlo, hhi⟩ := hr.inside
  have hxoffs := hs.mem_offs hx
  have hb := hr.lt_bump hs
  have hxsz : blkSize (bumpAt a need mark) x = blkSize a x :=
    congrArg BlkHdr.size (hat x (hs.dvd hxoffs) (by omega))
  refine hr.keep rfl ⟨x, hx, hlo, by rw [hxsz]; exact hhi⟩ fun hn => ⟨hn, ?_⟩
  rw [hat h hr.dvd (by omega)]
  exact ⟨rfl, rfl⟩

/-- A block in use goes on the free list; it is the one that has just been freed. -/
theorem StaleAt.push (hs : Shape a offs fl) (hu : a.view.InUse offs o)
    (hr : StaleAt a fl r h) : StaleAt (pushFree a o) (o :: fl) r h := by
  have ho := hs.dvd hu.1
  have hat : ∀ x, 16 ∣ x → x ≠ o → hdrAt (pushFree a o).mem x = hdrAt a.mem x := by
    intro x hx hxo
    rw [pushFree, hdrAt_setNext ho hx, if_neg hxo, hdrAt_setFree ho hx, if_neg hxo]
  obtain ⟨x, hx, hlo, hhi⟩ := hr.inside
  have hxo : x ≠ o := fun he => ((hs.mem_fl x).mp hx).2 (he ▸ hu.2)
  have hxsz : blkSize (pushFree a o) x = blkSize a x :=
    congrArg BlkHdr.size (hat x (hs.dvd (hs.mem_offs hx)) hxo)
  refine hr.keep rfl ⟨x, mem_cons_of_mem _ hx, hlo, by rw [hxsz]; exact hhi⟩ fun hn => ?_
  obtain ⟨hho, hhf⟩ := not_or.mp (mt mem_cons.mpr hn)
  rw [hat h hr.dvd hho]
  exact ⟨hhf, rfl, rfl⟩

theorem StaleAt.pushed (hs : Shape a offs fl) (hu : a.view.InUse offs o) :
    StaleAt (pushFree a o) (o :: fl) ⟨a.base + o + hdrSize, blkSize a o⟩ o := by
  have ho := hs.dvd hu.1
  have hsz : blkSize (pushFree a o) o = blkSize a o := by
    show (hdrAt _ _).size = _
    rw [pushFree, hdrAt_setNext ho ho, if_pos rfl, hdrAt_setFree ho ho, if_pos rfl]
    rfl
  exact ⟨rfl, ho, hs.size_ge o hu.1, ⟨o, mem_cons_self, le_rfl, by rw [hsz]⟩,
    absurd mem_cons_self⟩

variable {o₁ o₂ : List Nat} {p : Nat}

section

variable (hs : Shape a (o₁ ++ o :: p :: o₂) (l₁ ++ p :: l₂))
include hs

/-- The header of a block that has been merged into the one in front of it: dead. -/
theorem mergeNext_dead (hpo : p ≠ o) : blkFree (mergeNext a (endLink none l₁) o p) p = 0
      ∧ blkSize (mergeNext a (endLink none l₁) o p) p = blkSize a p := by
  have ho : 16 ∣ o := hs.dvd (by simp)
  have hp : 16 ∣ p := hs.dvd (by simp)
  have hhdr : hdrAt (mergeNext a (endLink none l₁) o p).mem p
      = { hdrAt a.mem p with free := 0, next := arenaNone } := by
    simp only [mergeNext, hdrAt_setSize ho hp, if_neg hpo, hdrAt_setNext hp hp, if_true,
      hdrAt_setFree hp hp, hdrAt_setLink hs.prev_aligned hp, if_neg hs.endLink_ne]
    rfl
  exact ⟨congrArg BlkHdr.free hhdr, by rw [blkSize, hhdr]; rfl⟩

/-- A free block is merged into the free block in front of it. -/
theorem StaleAt.merge (hp : p = o + blkSize a o)
    (hofr : blkFree a o ≠ 0) (hr : StaleAt a (l₁ ++ p :: l₂) r h) :
    StaleAt (mergeNext a (endLink none l₁) o p) (l₁ ++ l₂) r h := by
  have homem : o ∈ o₁ ++ o :: p :: o₂ := by simp
  have ho32 : 32 ≤ blkSize a o := hs.size_ge o homem
  have hpo : p ≠ o := by omega
  have hofl : o ∈ l₁ ++ l₂ := hs.mem_cut_iff.mpr ⟨Ne.symm hpo, homem, hofr⟩
  have hat := fun {x : Nat} (hx : 16 ∣ x) (hxp : x ≠ p) => mergeNext_hdr hs hpo hx hxp
  have hosz : blkSize (mergeNext a (endLink none l₁) o p) o = blkSize a o + blkSize a p := by
    show (hdrAt _ _).size = _
    rw [hat (hs.dvd homem) (Ne.symm hpo)]
    exact if_pos rfl
  have hbase := (mergeNext_relinks a (endLink none l₁) o p).base
  obtain ⟨x, hx, hlo, hhi⟩ := hr.inside
  refine ⟨by rw [hbase, hr.ptr], hr.dvd, hr.large, ?_, fun hn => ?_⟩
  · by_cases hxp : x = p
    · rw [hxp] at hlo hhi
      exact ⟨o, hofl, by omega, by rw [hosz]; omega⟩
    have hxm : x ∈ l₁ ++ l₂ := by
      simp only [mem_append, mem_cons] at hx ⊢
      tauto
    refine ⟨x, hxm, hlo, hhi.trans ?_⟩
    show _ ≤ x + (hdrAt _ x).size
    rw [hat (hs.dvd (hs.mem_offs hx)) hxp]
    simp only
    split <;> rename_i hxo
    · rw [hxo]
      omega
    · rfl
  · by_cases hhp : h = p
    · obtain ⟨hf, hsz⟩ := mergeNext_dead hs hpo
      rw [hhp]
      exact ⟨hf, by rw [hsz]; exact hs.size_ge p (by simp)⟩
    have hhn : h ∉ l₁ ++ p :: l₂ := by
      simp only [mem_append, mem_cons] at hn ⊢
      tauto
    obtain ⟨h1, h2⟩ := hr.dead hhn
    have hho : h ≠ o := fun he => hn (he ▸ hofl)
    have hhdr := hat hr.dvd hhp
    rw [if_neg hho] at hhdr
    exact ⟨(congrArg BlkHdr.free hhdr).trans h1, h2.trans_eq (congrArg BlkHdr.size hhdr).symm⟩

end

/-- The cart, or the allocator for it, writes in the payload of a block in use. -/
theorem StaleAt.write {m : ByteMem} (hs : Shape a offs fl) (hu : a.view.InUse offs o)
    (hm : ∀ x, x < o + hdrSize ∨ o + blkSize a o ≤ x → m x = a.mem x)
    (hr : StaleAt a fl r h) : StaleAt { a with mem := m } fl r h := by
  have hap := hr.ne_of_inUse hs hu
  have hlarge := hr.large
  have hhdr : hdrAt m h = hdrAt a.mem h := by
    have hword : ∀ k, k + 4 ≤ 16 → read32 m (h + k) = read32 a.mem (h + k) := fun k hk =>
      read32_congr fun y _ _ => hm y (by omega)
    simp only [hdrAt]
    rw [hword 4 (by norm_num), hword 8 (by norm_num), hword 12 (by norm_num),
      show read32 m h = read32 a.mem h from hword 0 (by norm_num)]
  obtain ⟨x, hx, hlo, hhi⟩ := hr.inside
  have hxsz : blkSize { a with mem := m } x = blkSize a x :=
    congrArg BlkHdr.size (hs.hdr_of_payload hu.1 hm x (hs.mem_offs hx))
  exact hr.keep rfl ⟨x, hx, hlo, by rw [hxsz]; exact hhi⟩ fun hn => ⟨hn, by rw [hhdr], by rw [hhdr]⟩

end Edits

theorem StaleAt.charge (hr : StaleAt a fl r h) (noacct : Bool) (bytes : Nat) :
    StaleAt (charge a noacct bytes) fl r h := by
  cases noacct <;> exact ⟨hr.ptr, hr.dvd, hr.large, hr.inside, hr.dead⟩

theorem StaleAt.discharge (hr : StaleAt a fl r h) (o : Nat) : StaleAt (discharge a o) fl r h := by
  unfold Blyt.discharge
  split <;> exact ⟨hr.ptr, hr.dvd, hr.large, hr.inside, hr.dead⟩

/-! ## Dead headers over the calls -/

/-- Every freed block is where `StaleAt` says, whatever the order of the free list. -/
def StaleInv (a : Arena) (stale : List StaleBlock) : Prop :=
  ∀ offs fl, Shape a offs fl → ∀ r ∈ stale, ∃ h, StaleAt a fl r h

theorem Shape.fl_unique (h : Shape a offs fl)
    (h' : Shape a offs' fl') : fl = fl' := chain_unique h.chain h'.chain

/-- What a block that is handed out does not overlap stays as it is. -/
theorem ServedBy.staleAt (hs : Shape a offs fl) (hv : ServedBy a need noacct fl o a')
    (hs' : Shape a' offs' fl') (h32 : 32 ≤ need) (hdvd : 16 ∣ need) (hr : StaleAt a fl r h)
    (hap : h + r.size ≤ o ∨ o + blkSize a' o ≤ h) : StaleAt a' fl' r h := by
  have hm := markOf_lt noacct
  have hsz : ∀ (b : Arena) (n x : Nat), blkSize (Blyt.charge b noacct n) x = blkSize b x := by
    intro b n x
    show (hdrAt _ x).size = _
    rw [charge_mem]
    rfl
  cases hv with
  | @cut l₁ l₂ o hfl hle =>
    subst hfl
    obtain ⟨offs1, hcut, -, hosz, -⟩ := splitAt_shape hs hdvd h32 hle hm
    rw [hsz, hosz] at hap
    rw [hs'.fl_unique (hcut.charge _ _)]
    exact (StaleAt.cut hs hdvd h32 hle hm hr hap).charge _ _
  | @whole l₁ l₂ o hfl hle =>
    subst hfl
    obtain ⟨hwhole, -, hosz, -⟩ := takeWhole_shape hs hm
    rw [hsz, hosz] at hap
    rw [hs'.fl_unique (hwhole.charge _ _)]
    exact (StaleAt.whole hs hm hr hap).charge _ _
  | bump =>
    -- the new block is beyond the list, which stays as it is
    have hfl : fl' = fl := by
      refine chain_unique hs'.chain (chain_transfer hs.chain ?_ fun y hy => ?_)
      · cases noacct <;> rfl
      · have hy' := hs.mem_offs hy
        have hend : y + blkSize a y ≤ a.bump := hs.end_le hy'
        have hy32 : 32 ≤ blkSize a y := hs.size_ge y hy'
        have hb : 16 ∣ a.bump := hs.dvd_hi
        show (hdrAt (Blyt.charge (bumpAt a need _) noacct need).mem y).next = _
        rw [charge_mem]
        exact congrArg BlkHdr.next ((hdrAt_setAll hb (hs.dvd hy')).trans (if_neg (by omega)))
    rw [hfl]
    exact (hr.bump hs).charge _ _

/-- A block in use is freed: the other freed blocks stay where they are, and it is one of
them now. -/
theorem arenaFree_staleAt (hs : Shape a offs fl) (hu : a.view.InUse offs o)
    (hr : arenaFree a (a.base + o + hdrSize) = some a') (hs' : Shape a' offs' fl') :
    (∀ r h, StaleAt a fl r h → StaleAt a' fl' r h)
      ∧ StaleAt a' fl' ⟨a.base + o + hdrSize, blkSize a o⟩ o := by
  have hd := hs.discharge o
  have hu' : (discharge a o).view.InUse offs o := by rwa [discharge_view]
  have hbase := (discharge_words a o).2.1
  have hsz : blkSize (discharge a o) o = blkSize a o :=
    congrArg (fun v => v.sz o) (discharge_view a o)
  obtain ⟨hp, -⟩ := pushFree_shape hd hu'
  have hnew := StaleAt.pushed hd hu'
  rw [hbase, hsz] at hnew
  have hold : ∀ r h, StaleAt a fl r h → StaleAt (pushFree (discharge a o) o) (o :: fl) r h :=
    fun r h hr => (hr.discharge o).push hd hu'
  rw [arenaFree_inUse hs hu] at hr
  rcases coalesceForward_cases hp hu.1 with ⟨hc, -⟩ | ⟨o₁, p, o₂, l₁, l₂, hoffs, hfl, hpeq, hc⟩
  · obtain rfl := some.inj (hc.symm.trans hr)
    rw [hs'.fl_unique hp]
    exact ⟨hold, hnew⟩
  · obtain rfl := some.inj (hc.symm.trans hr)
    have hofr := ((hp.mem_fl o).mp mem_cons_self).2
    rw [hfl] at hp hold hnew
    rw [hoffs] at hp
    obtain ⟨hm, -⟩ := mergeNext_shape hp hofr
    rw [hs'.fl_unique hm]
    exact ⟨fun r h hr => (hold r h hr).merge hp hpeq hofr, hnew.merge hp hpeq hofr⟩

theorem HeapInv.mallocCore_stale (hi : HeapInv s) (hst : StaleInv (ensureReady s.arena) stale)
    (hn : n + 31 < 2 ^ 32) (hr : arenaMallocCore s.arena n noacct = some (p, a')) :
    StaleInv (ensureReady a') (spare a' p stale) := by
  obtain ⟨offs, fl, hs, -⟩ := hi
  obtain ⟨-, h32, hdvd⟩ := needOf_spec hn
  rcases arenaMallocCore_cases n noacct hs with hc | hc | ⟨o, a1, hc, hv⟩
  · cases hr.symm.trans hc
    exact hst
  · cases hr.symm.trans hc
    rw [ensureReady_idem]
    exact hst
  · cases hr.symm.trans hc
    obtain ⟨hbase, -, hready⟩ := hv.fields
    rw [ensureReady_base] at hbase
    rw [ensureReady_of_ready (hready.trans (ensureReady_ready _)), spare, ← hbase]
    intro offs' fl' hs' r hr
    obtain ⟨hr, hap⟩ := mem_filter.mp hr
    obtain ⟨h, hh⟩ := hst offs fl hs r hr
    have hoff : hdrOff a' r.ptr = h := by
      rw [hdrOff_congr (hbase.trans (ensureReady_base _).symm), hh.hdrOff]
    have hap := of_decide_eq_true hap
    rw [StaleBlock.Apart, hdrOff_payload, hoff] at hap
    exact ⟨h, hv.staleAt hs hs' h32 hdvd hh hap⟩

theorem HeapInv.free_stale (hi : HeapInv s) (hst : StaleInv (ensureReady s.arena) stale)
    (hb : b ∈ s.live) (hr : arenaFree s.arena b.ptr = some a') :
    StaleInv (ensureReady a') (retire s.arena b.ptr stale) := by
  obtain ⟨hready, offs, fl, o, hs, hl, ho⟩ := hi.of_live hb
  rw [ensureReady_of_ready hready] at hst
  obtain ⟨a1, offs1, fl1, hf, -, hv⟩ := arenaFree_spec hs ho.inUse
  rw [ho.ptr] at hr
  cases hf.symm.trans hr
  rw [ensureReady_of_ready (hv.ready.trans hready)]
  intro offs' fl' hs' r hr'
  obtain ⟨hold, hnew⟩ := arenaFree_staleAt hs ho.inUse hr hs'
  rcases mem_cons.mp hr' with rfl | hr'
  · refine ⟨o, ?_⟩
    rw [ho.hdrOff, ho.ptr]
    exact hnew
  · obtain ⟨h, hh⟩ := hst offs fl hs r hr'
    exact ⟨h, hold r h hh⟩

theorem HeapInv.write_stale (hi : HeapInv s)
    (hst : StaleInv (ensureReady s.arena) stale) (hb : b ∈ s.live) {m : ByteMem}
    (hm : ∀ x, x < b.ptr - s.arena.base ∨ b.ptr - s.arena.base + b.req ≤ x →
      m x = s.arena.mem x) : StaleInv (ensureReady { s.arena with mem := m }) stale := by
  obtain ⟨hready, offs, fl, o, hs, hl, ho⟩ := hi.of_live hb
  rw [ensureReady_of_ready hready] at hst
  rw [ensureReady_of_ready (a := { s.arena with mem := m }) hready]
  have hreq := ho.req
  have hm' : ∀ x, x < o + hdrSize ∨ o + blkSize s.arena o ≤ x → m x = s.arena.mem x :=
    fun x hx => hm x (by rw [ho.off]; omega)
  obtain ⟨hs1, -⟩ := hs.setMem (hs.hdr_of_payload ho.inUse.1 hm')
  intro offs' fl' hs' r hr
  obtain ⟨h, hh⟩ := hst offs fl hs r hr
  rw [hs'.fl_unique hs1]
  exact ⟨h, hh.write hs ho.inUse hm'⟩

/-- Freed pointers do not depend on what the header of a block in use is read from. -/
theorem spare_congr (hbase : a'.base = a.base)
    (hsize : blkSize a' (hdrOff a' q) = blkSize a (hdrOff a q)) (stale : List StaleBlock) :
    spare a' q stale = spare a q stale := by
  have hoff := hdrOff_congr hbase
  have : StaleBlock.Apart a' q = StaleBlock.Apart a q := by
    funext r
    rw [StaleBlock.Apart, StaleBlock.Apart, hsize, hoff, hoff]
  unfold spare
  simp only [this]

theorem HeapInv.calloc_stale (hi : HeapInv s) (hst : StaleInv (ensureReady s.arena) stale)
    {nmemb sz : Nat} (hsm : 2 ^ 32 ≤ sizeMax + 1) (hn : nmemb * sz + 31 < 2 ^ 32)
    (hr : arenaCalloc sizeMax s.arena nmemb sz = some (p, a')) :
    StaleInv (ensureReady a') (spare a' p stale) := by
  unfold arenaCalloc at hr
  split at hr
  · cases hr
    exact hst
  rw [Nat.mod_eq_of_lt (by omega)] at hr
  obtain ⟨q, a1, hm, hi1, -⟩ := hi.mallocCore false hn
  have hst1 := hi.mallocCore_stale hst hn hm
  simp only [arenaMalloc, hm, map_some, some.injEq] at hr
  split at hr <;> rename_i hq
  · cases hr
    rwa [hq] at hst1
  rw [addLive, if_neg hq] at hi1
  cases hr
  have hnew : (⟨p, nmemb * sz, !false⟩ : LiveBlock) ∈ ⟨p, nmemb * sz, !false⟩ :: s.live :=
    mem_cons_self
  have hout : ∀ x, x < p - a1.base ∨ p - a1.base + nmemb * sz ≤ x →
      fill a1.mem (p - a1.base) (nmemb * sz) 0 x = a1.mem x := fun x hx => fill_outside hx
  have hst2 := hi1.write_stale hst1 hnew hout
  have hspare := spare_congr (by rfl) (hi1.write_blkSize hnew hout hnew) stale
  rw [hspare]
  exact hst2

theorem retire_congr (hsize : blkSize a' (hdrOff a' p) = blkSize a (hdrOff a p))
    (stale : List StaleBlock) : retire a' p stale = retire a p stale := by
  rw [retire, hsize, retire]

theorem HeapInv.realloc_stale (hi : HeapInv s) (hst : StaleInv (ensureReady s.arena) stale)
    (hn : n + 31 < 2 ^ 32) (hp : NullOrLive s p)
    (hr : arenaReallocCore s.arena p n noacct = some (q, a')) :
    StaleInv (ensureReady a')
      (if p = 0 then spare a' q stale
        else if n = 0 then retire s.arena p stale
        else if q = 0 ∨ q = p then stale
        else retire s.arena p (spare a' q stale)) := by
  unfold arenaReallocCore at hr
  by_cases hp0 : p = 0
  · rw [if_pos hp0] at hr ⊢
    exact hi.mallocCore_stale hst hn hr
  rw [if_neg hp0] at hr ⊢
  obtain ⟨b, hb, rfl⟩ := hp.resolve_left hp0
  by_cases hn0 : n = 0
  · rw [if_pos hn0] at hr ⊢
    obtain ⟨a1, hf, he⟩ := map_eq_some_iff.mp hr
    cases he
    exact hi.free_stale hst hb hf
  rw [if_neg hn0] at hr ⊢
  obtain ⟨-, offs, fl, o, hs, hl, ho⟩ := hi.of_live hb
  simp only [ho.cap hs, ← ho.usable] at hr
  split at hr
  · cases hr
    rw [if_pos (.inr rfl)]
    exact hst
  obtain ⟨q1, a1, hm, hi1, -⟩ := hi.mallocCore noacct hn
  have hst1 := hi.mallocCore_stale hst hn hm
  obtain ⟨hbase, hsize⟩ := hi.mallocCore_blkSize hn hm
  simp only [hm] at hr
  split at hr <;> rename_i hq
  · cases hr
    rwa [spare, if_pos hq] at hst1
  rw [addLive, if_neg hq] at hi1
  obtain ⟨a2, hf, he⟩ := map_eq_some_iff.mp hr
  cases he
  -- the copy goes into the new block, then the old one is freed
  have hnew : (⟨q, n, !noacct⟩ : LiveBlock) ∈ ⟨q, n, !noacct⟩ :: s.live := mem_cons_self
  have hmem := mem_cons_of_mem (⟨q, n, !noacct⟩ : LiveBlock) hb
  have hout : ∀ x, x < q - a1.base ∨ q - a1.base + n ≤ x →
      copyBytes a1.mem (q - a1.base) (b.ptr - a1.base) (usable s.arena b.ptr) x = a1.mem x :=
    fun x hx => copyBytes_outside (by omega)
  have hqb := hi1.head_ne hb
  have hi2 := hi1.write hnew hout
  have hst2 := hi2.free_stale (hi1.write_stale hst1 hnew hout) hmem hf
  obtain ⟨hbase', hsize'⟩ := hi2.free_blkSize hmem hnew hqb hf
  have hspare : spare a' q stale = spare a1 q stale :=
    @spare_congr a1 a' q hbase' (hsize'.trans (hi1.write_blkSize hnew hout hnew)) stale
  rw [if_neg (not_or.mpr ⟨hq, hqb⟩), hspare]
  have hretire := retire_congr ((hi1.write_blkSize hnew hout hmem).trans (hsize b hb))
    (spare a1 q stale)
  rw [← hretire]
  exact hst2

/-! ## The second free -/

theorem findLink_at_none {α : Type} [DecidableEq α] {lk : Option α → α} {nil : α}
    {stop : α → Bool} {fuel : Nat} {p : Option α}
    (h : findLink lk nil stop fuel p = .at none) : p = none ∧ stop (lk none) = true := by
  induction fuel generalizing p with
  | zero => cases h
  | succ fuel ih =>
    rw [findLink] at h
    split at h
    · cases h
    · split at h
      · cases h
        exact ⟨rfl, ‹_›⟩
      · exact absurd (ih h).1 (by simp)

/-- Merging never takes the head off a list whose head is the block itself. -/
theorem coalesceForward_freeHead (hh : h < 2 ^ 32) (hsz : 32 ≤ blkSize a h) (hhead : a.freeHead = h)
    (hr : coalesceForward a h = some a') : a'.freeHead = h := by
  have hlt : blkSize a h < 2 ^ 32 := read32_lt _ _
  have hne : u32 (u32 h + (hdrAt a.mem h).size) ≠ h := by
    rw [u32_of_lt hh]
    show u32 (h + blkSize a h) ≠ h
    unfold u32
    omega
  simp only [coalesceForward] at hr
  split at hr
  · cases hr
    exact hhead
  split at hr
  · cases hr
    exact hhead
  obtain ⟨a1, hf, rfl⟩ := map_eq_some_iff.mp hr
  unfold flRemove at hf
  split at hf
  · cases hf
  · cases hf
    exact hhead
  · rename_i prev hfind
    cases hf
    rw [setLink_freeHead, if_neg ?_, hhead]
    rintro rfl
    have := of_decide_eq_true (findLink_at_none hfind).2
    exact hne (this.symm.trans hhead)

theorem StaleInv.ready (hi : HeapInv s)
    (hst : StaleInv (ensureReady s.arena) stale) (hr : r ∈ stale) :
    s.arena.ready = true ∧ ∃ offs fl h, Shape s.arena offs fl ∧ LiveInv s.arena s.live offs
      ∧ StaleAt s.arena fl r h := by
  obtain ⟨offs, fl, hs, hl⟩ := hi
  obtain ⟨h, hh⟩ := hst offs fl hs r hr
  have hready : s.arena.ready = true := by
    by_contra hne
    have hlt := hh.lt_bump hs
    rw [ensureReady, if_neg hne] at hlt
    exact absurd hlt (by simp)
  rw [ensureReady_of_ready hready] at hs hl hh
  exact ⟨hready, offs, fl, h, hs, hl, hh⟩

/-- On the free list, the flag is seen and the free ignored. -/
theorem arenaFree_onFreeList (hi : HeapInv s) (hst : StaleInv (ensureReady s.arena) stale)
    (hr : r ∈ stale) (h : s.arena.OnFreeList (hdrOff s.arena r.ptr)) :
    arenaFree s.arena r.ptr = some s.arena := by
  obtain ⟨-, offs, fl, o, hs, -, ho⟩ := hst.ready hi hr
  obtain ⟨fl', hchain, hm⟩ := h
  obtain rfl : fl' = fl := chain_unique hchain hs.chain
  rw [ho.hdrOff] at hm
  have hflag := ((hs.mem_fl o).mp hm).2
  have hne : r.ptr ≠ 0 := by
    rw [ho.ptr]
    unfold hdrSize
    omega
  rw [arenaFree, if_neg hne, ho.hdrOff]
  exact if_pos hflag

/-- A dead header passes for a block in use: what was merged goes on the list once more. -/
theorem arenaFree_dead (hs : Shape a offs fl) (hh : StaleAt a fl r h) (hfl : h ∉ fl)
    (hr : arenaFree a r.ptr = some a') : a'.freeHead = h := by
  have hlt := hh.lt_bump hs
  have hb := hs.bump_lt
  have hne : r.ptr ≠ 0 := by
    rw [hh.ptr]
    unfold hdrSize
    omega
  obtain ⟨hflag, hsz⟩ := hh.dead hfl
  have hflag' : ¬ (hdrAt a.mem h).free ≠ 0 := not_not.mpr hflag
  rw [arenaFree, if_neg hne, hh.hdrOff] at hr
  simp only [if_neg hflag', u32_of_lt (show h < 2 ^ 32 by omega)] at hr
  refine coalesceForward_freeHead (by omega) ?_ rfl hr
  show 32 ≤ (hdrAt (setNext (setFree _ h 1) h _) h).size
  rw [hdrAt_setNext hh.dvd hh.dvd, if_pos rfl, hdrAt_setFree hh.dvd hh.dvd, if_pos rfl]
  split <;> exact hsz

/-- **Freeing twice.** The second free of a pointer leaves the heap alone exactly if the
block is still on the free list. -/
theorem double_free_iff (hi : HeapInv s)
    (hst : StaleInv (ensureReady s.arena) stale) (hr : r ∈ stale) :
    (∃ a' ∈ arenaFree s.arena r.ptr, SameHeap s.arena a')
      ↔ s.arena.OnFreeList (hdrOff s.arena r.ptr) := by
  constructor
  · rintro ⟨a', hfree, hsame, -⟩
    obtain ⟨-, offs, fl, h, hs, -, hh⟩ := hst.ready hi hr
    rw [hh.hdrOff]
    by_contra hno
    have hfl : h ∉ fl := fun hm => hno ⟨fl, hs.chain, hm⟩
    have hhead := hsame.symm.trans (arenaFree_dead hs hh hfl hfree)
    have hlt := hh.lt_bump hs
    have hb := hs.bump_lt
    have hchain := hs.chain
    cases fl with
    | nil =>
      have : s.arena.freeHead = arenaNone := hchain
      unfold arenaNone at this
      omega
    | cons x =>
      have : s.arena.freeHead = x := hchain.1
      exact hfl (by rw [← hhead, this]; exact mem_cons_self)
  · intro h
    exact ⟨s.arena, arenaFree_onFreeList hi hst hr h, rfl, rfl, rfl, fun _ _ => rfl⟩

/-! ## Runs -/

/-- The invariant of a run with second frees. -/
def StaleHeap.Inv (t : StaleHeap) : Prop :=
  HeapInv t.heap ∧ StaleInv (ensureReady t.heap.arena) t.stale

theorem StaleHeap.Inv.free (hi : t.Inv) (hadm : (ArenaOp.free p).StaleAdmissible (2 ^ 32 - 31) t)
    (hok : (ArenaOp.free p).DoubleUnmerged t)
    (hstep : staleStep sizeMax t (.free p) = some t') : t'.Inv := by
  by_cases hlive : ∃ b ∈ t.heap.live, b.ptr = p
  · obtain ⟨s', hs', rfl⟩ := map_eq_some_iff.mp hstep
    obtain ⟨a', hf, rfl⟩ := map_eq_some_iff.mp hs'
    obtain ⟨a1, hf', hinv, -⟩ := hi.1.free (.inr hlive)
    cases hf'.symm.trans hf
    refine ⟨hinv, ?_⟩
    simp only [staleAfter, if_pos hlive]
    obtain ⟨b, hb, rfl⟩ := hlive
    exact hi.1.free_stale hi.2 hb hf
  · -- nothing happens: a null pointer, or a second free that is ignored
    have hsame : arenaFree t.heap.arena p = some t.heap.arena := by
      rcases hadm with (hp | hp) | ⟨r, hr, rfl⟩
      · rw [arenaFree, if_pos hp]
      · exact absurd hp hlive
      · exact arenaFree_onFreeList hi.1 hi.2 hr (hok ⟨r, hr, rfl⟩)
    have hdrop : dropLive p t.heap.live = t.heap.live :=
      eraseP_of_forall_not fun b hb => by simpa using fun he => hlive ⟨b, hb, he⟩
    simp only [staleStep, heapStep, hsame, map_some, hdrop, staleAfter,
      if_neg hlive, some.injEq] at hstep
    subst hstep
    exact hi

/-- Every call keeps track of the dead headers. -/
theorem staleStep_inv (hsm : 2 ^ 32 ≤ sizeMax + 1) (hi : t.Inv)
    {op : ArenaOp} (hadm : op.StaleAdmissible (2 ^ 32 - 31) t) (hok : op.DoubleUnmerged t)
    (hstep : staleStep sizeMax t op = some t') : t'.Inv := by
  by_cases hfree : ∃ p, op = .free p
  · obtain ⟨p, rfl⟩ := hfree
    exact hi.free hadm hok hstep
  have hadm' : op.Admissible (2 ^ 32 - 31) t.heap := by
    cases op with
    | free p => exact absurd ⟨p, rfl⟩ hfree
    | _ => exact hadm
  obtain ⟨s', hs', rfl⟩ := map_eq_some_iff.mp hstep
  obtain ⟨s1, hs1, hinv, -⟩ := heapStep_spec hsm (by norm_num) t.heap op hi.1 hadm'
  cases hs1.symm.trans hs'
  refine ⟨hinv, ?_⟩
  cases op with
  | malloc n | mallocNoacct n =>
    obtain ⟨⟨p, a'⟩, hr, rfl⟩ := map_eq_some_iff.mp hs'
    have hn : n < 2 ^ 32 - 31 := hadm'
    simp only [staleAfter, answer, hr, map_some, getD_some]
    exact hi.1.mallocCore_stale hi.2 (by omega) hr
  | calloc nmemb sz =>
    obtain ⟨⟨p, a'⟩, hr, rfl⟩ := map_eq_some_iff.mp hs'
    simp only [staleAfter, answer, hr, map_some, getD_some]
    have hn : nmemb * sz < 2 ^ 32 - 31 := hadm'
    exact hi.1.calloc_stale hi.2 hsm (by omega) hr
  | realloc p n | reallocNoacct p n =>
    obtain ⟨⟨q, a'⟩, hr, rfl⟩ := map_eq_some_iff.mp hs'
    have hn := hadm'.1
    simp only [staleAfter, answer, hr, map_some, getD_some]
    exact hi.1.realloc_stale hi.2 (by omega) hadm'.2 hr
  | free p => exact absurd ⟨p, rfl⟩ hfree
  | reset => exact fun _ _ _ _ hr => absurd hr not_mem_nil
  | store =>
    cases hs'
    obtain ⟨b, hb, rfl, hlt⟩ := hadm'
    exact hi.1.write_stale hi.2 hb fun x hx => fill_outside (by omega)

/-- **Double frees.** Along any run of calls on live pointers and second frees of pointers
whose bytes have not been handed out since, with requests below 2^32 - 31, every second
free leaves the heap as it is exactly if its block has never been merged into the free block
in front of it, or has been cut off from that again. -/
theorem doubleFree_iff {sizeMax : Nat} (hsm : 2 ^ 32 ≤ sizeMax + 1) {a : Arena}
    (hfresh : a.Fresh) {ops : List ArenaOp}
    (hadm : AdmRun (staleStep sizeMax) (fun t op => op.StaleAdmissible (2 ^ 32 - 31) t)
      ⟨⟨a, []⟩, []⟩ ops) :
    AdmRun (staleStep sizeMax) (fun t op => op.IgnoresDouble t) ⟨⟨a, []⟩, []⟩ ops ↔
      AdmRun (staleStep sizeMax) (fun t op => op.DoubleUnmerged t) ⟨⟨a, []⟩, []⟩ ops := by
  refine hadm.congr (fun t op hi _ => ?_)
    (fun t op t' hi hop hok hstep => staleStep_inv hsm hi hop hok hstep)
    ⟨hfresh.heapInv, fun _ _ _ _ hr => absurd hr not_mem_nil⟩
  cases op with
  | free =>
    refine forall_congr' fun hp => ?_
    obtain ⟨r, hr, rfl⟩ := hp
    exact double_free_iff hi.1 hi.2 hr
  | _ => exact Iff.rfl

/-- Two blocks, the first freed twice, the second freed, and what is left reused. -/
theorem doubleFree_demo :
    AdmRun (staleStep (2 ^ 32 - 1)) (fun t op => op.IgnoresDouble t) ⟨⟨demoArena, []⟩, []⟩
        [.malloc 16, .malloc 16, .free 0x04000010, .free 0x04000010, .free 0x04000030, .malloc 8] ↔
      AdmRun (staleStep (2 ^ 32 - 1)) (fun t op => op.DoubleUnmerged t) ⟨⟨demoArena, []⟩, []⟩
        [.malloc 16, .malloc 16, .free 0x04000010, .free 0x04000010, .free 0x04000030, .malloc 8] :=
  doubleFree_iff (by norm_num) ⟨rfl, by rintro c ⟨⟩; rfl⟩ (by decide +kernel)

/-- Two blocks next to each other, freed from the back, and the second freed again: its
header was merged away and reads as in use, so the free goes through once more. -/
theorem merged_block_freed_twice :
    ¬ AdmRun (staleStep (2 ^ 32 - 1)) (fun t op => op.IgnoresDouble t) ⟨⟨demoArena, []⟩, []⟩
      [.malloc 16, .malloc 16, .free 0x04000030, .free 0x04000010, .free 0x04000030] := by
  decide +kernel

end Blyt
