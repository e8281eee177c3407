import Blyt.ArenaInv
import Blyt.Runs

/-!
# Runs of the arena

The cart's side of the allocator: the pointers it holds, with the size it
last asked for and whether the call that made them was accounted. The list is
a ghost - the code keeps no such record - and `LiveInv` ties it to the headers.
One lemma per call shows that `HeapInv` survives it, whatever the cart has
written into its payloads in between; `heapRun_inv` is the induction over runs.
-/

namespace Blyt

open List Option Function

/-- A pointer the cart holds. -/
structure LiveBlock where
  ptr : Nat
  req : Nat
  accounted : Bool
  deriving DecidableEq, Repr

structure HeapState where
  arena : Arena
  live : List LiveBlock

inductive ArenaOp where
  | malloc (n : Nat)
  | mallocNoacct (n : Nat)
  | calloc (nmemb sz : Nat)
  | realloc (p n : Nat)
  | reallocNoacct (p n : Nat)
  | free (p : Nat)
  | reset
  /-- the cart writes byte `i` of the payload at `p` -/
  | store (p i : Nat) (v : UInt8)
  deriving DecidableEq, Repr

def addLive (p n : Nat) (acct : Bool) (live : List LiveBlock) : List LiveBlock :=
  if p = 0 then live else ⟨p, n, acct⟩ :: live

def dropLive (p : Nat) (live : List LiveBlock) : List LiveBlock :=
  live.eraseP fun b => b.ptr = p

def resizeLive (p n : Nat) (live : List LiveBlock) : List LiveBlock :=
  live.map fun b => if b.ptr = p then { b with req := n } else b

/-- The live list after `realloc(p, n)` has returned `q`. -/
def reallocLive (p n q : Nat) (acct : Bool) (live : List LiveBlock) : List LiveBlock :=
  if p = 0 then addLive q n acct live
  else if n = 0 then dropLive p live
  else if q = 0 then live
  else if q = p then resizeLive p n live
  else ⟨q, n, acct⟩ :: dropLive p live

def heapStep (sizeMax : Nat) (s : HeapState) : ArenaOp → Option HeapState
  | .malloc n => (arenaMalloc s.arena n).map fun (p, a) => ⟨a, addLive p n true s.live⟩
  | .mallocNoacct n =>
    (arenaMallocNoacct s.arena n).map fun (p, a) => ⟨a, addLive p n false s.live⟩
  | .calloc nmemb sz =>
    (arenaCalloc sizeMax s.arena nmemb sz).map fun (p, a) =>
      ⟨a, addLive p (nmemb * sz) true s.live⟩
  | .realloc p n =>
    (arenaRealloc s.arena p n).map fun (q, a) => ⟨a, reallocLive p n q true s.live⟩
  | .reallocNoacct p n =>
    (arenaReallocNoacct s.arena p n).map fun (q, a) => ⟨a, reallocLive p n q false s.live⟩
  | .free p => (arenaFree s.arena p).map fun a => ⟨a, dropLive p s.live⟩
  | .reset => some ⟨arenaReset s.arena, []⟩
  | .store p i v =>
    some ⟨{ s.arena with mem := fill s.arena.mem (p - s.arena.base + i) 1 v }, s.live⟩

/-- `p` is `NULL` or a pointer the cart holds. -/
def NullOrLive (s : HeapState) (p : Nat) : Prop := p = 0 ∨ ∃ b ∈ s.live, b.ptr = p

/-- Requests stay below `limit`; only held pointers are freed, reallocated or
written through. -/
def ArenaOp.Admissible (limit : Nat) (s : HeapState) : ArenaOp → Prop
  | .malloc n => n < limit
  | .mallocNoacct n => n < limit
  | .calloc nmemb sz => nmemb * sz < limit
  | .realloc p n => n < limit ∧ NullOrLive s p
  | .reallocNoacct p n => n < limit ∧ NullOrLive s p
  | .free p => NullOrLive s p
  | .reset => True
  | .store p i _ => ∃ b ∈ s.live, b.ptr = p ∧ i < b.req

instance (s : HeapState) (p : Nat) : Decidable (NullOrLive s p) :=
  inferInstanceAs (Decidable (p = 0 ∨ ∃ b ∈ s.live, b.ptr = p))

instance (limit : Nat) (s : HeapState) (op : ArenaOp) : Decidable (op.Admissible limit s) := by
  induction op using ArenaOp.casesOn <;> unfold ArenaOp.Admissible <;> infer_instance

/-! ## The invariant -/

/-- Bytes of the live blocks that accounted calls made. -/
def liveBytes (a : Arena) (live : List LiveBlock) : Nat :=
  ((live.filter LiveBlock.accounted).map fun b => blkSize a (hdrOff a b.ptr)).sum

/-- Block `o` is the one behind the live pointer `b`. -/
structure Backs (a : Arena) (offs : List Nat) (b : LiveBlock) (o : Nat) : Prop where
  ptr : b.ptr = a.base + o + hdrSize
  inUse : a.view.InUse offs o
  req : b.req + hdrSize ≤ blkSize a o
  pad : blkPad a o = blkNoacct ↔ b.accounted = false

structure LiveInv (a : Arena) (live : List LiveBlock) (offs : List Nat) : Prop where
  nodup : (live.map LiveBlock.ptr).Nodup
  backed : ∀ b ∈ live, ∃ o, Backs a offs b o
  held : ∀ o, a.view.InUse offs o → ∃ b ∈ live, b.ptr = a.base + o + hdrSize
  used : ∀ c, a.acct = some c → c.guestHeapUsed = liveBytes a live

/-- The invariant of a run, about the arena as its next call sees it: a fresh
arena's fields are stamped by the first allocation. -/
def HeapInv (s : HeapState) : Prop :=
  ∃ offs fl, Shape (ensureReady s.arena) offs fl
    ∧ LiveInv (ensureReady s.arena) s.live offs

/-! ## Accounting over the live list -/

variable {a a' : Arena} {offs : List Nat} {b : LiveBlock} {o : Nat} {live : List LiveBlock}
  {fl : List Nat} {n : Nat} {offs' : List Nat} {s : HeapState} {p sizeMax limit : Nat}

theorem hdrOff_congr (h : a'.base = a.base) (p : Nat) : hdrOff a' p = hdrOff a p := by
  unfold hdrOff
  rw [h]

theorem Backs.hdrOff (h : Backs a offs b o) : hdrOff a b.ptr = o := by
  rw [h.ptr, hdrOff_payload]

theorem liveBytes_congr
    (h : ∀ b ∈ live, blkSize a' (hdrOff a' b.ptr) = blkSize a (hdrOff a b.ptr)) :
    liveBytes a' live = liveBytes a live := by
  unfold liveBytes
  rw [map_congr_left fun b hb => h b (mem_filter.mp hb).1]

theorem liveBytes_cons (a : Arena) (b : LiveBlock) (live : List LiveBlock) :
    liveBytes a (b :: live)
      = (if b.accounted then blkSize a (hdrOff a b.ptr) else 0) + liveBytes a live := by
  unfold liveBytes
  cases hb : b.accounted <;> simp [hb]

theorem liveBytes_middle (a : Arena) (b : LiveBlock) (l₁ l₂ : List LiveBlock) :
    liveBytes a (l₁ ++ b :: l₂)
      = (if b.accounted then blkSize a (hdrOff a b.ptr) else 0) + liveBytes a (l₁ ++ l₂) := by
  unfold liveBytes
  cases hb : b.accounted
  · simp [hb]
  · simp only [filter_append, filter_cons, hb, if_true, map_append, map_cons, sum_append, sum_cons]
    omega

/-- Live blocks are different blocks of the tiling, so they fit in it. -/
theorem LiveInv.liveBytes_le (hs : Shape a offs fl) (hnd : (live.map LiveBlock.ptr).Nodup)
    (hb : ∀ b ∈ live, ∃ o, Backs a offs b o) : liveBytes a live ≤ a.bump := by
  have hmem : ∀ b ∈ live, hdrOff a b.ptr ∈ offs := by
    intro b hbm
    obtain ⟨o, ho⟩ := hb b hbm
    rw [ho.hdrOff]
    exact ho.inUse.1
  have hinj : ((live.filter LiveBlock.accounted).map fun b => hdrOff a b.ptr).Nodup := by
    have hsub : ((live.filter LiveBlock.accounted).map LiveBlock.ptr).Nodup :=
      hnd.sublist ((filter_sublist).map _)
    refine List.Nodup.of_map (fun o => a.base + o + hdrSize) ?_
    rw [List.map_map]
    refine (map_congr_left ?_) ▸ hsub
    intro b hbm
    obtain ⟨o, ho⟩ := hb b (mem_filter.mp hbm).1
    simp only [comp, ho.hdrOff]
    exact ho.ptr
  have hsubset : (live.filter LiveBlock.accounted).map (fun b => hdrOff a b.ptr) ⊆ offs := by
    intro o ho
    obtain ⟨b, hbm, rfl⟩ := List.mem_map.mp ho
    exact hmem b (mem_filter.mp hbm).1
  obtain ⟨l, hl, hsubl⟩ := hinj.subperm hsubset
  have hsum : liveBytes a live = (l.map (blkSize a)).sum := by
    rw [(hl.map _).sum_eq]
    rw [List.map_map]
    rfl
  have hle : (l.map (blkSize a)).sum ≤ (offs.map (blkSize a)).sum :=
    (hsubl.map _).sum_le_sum (by simp)
  have htile : 0 + (offs.map (blkSize a)).sum = a.bump := tiles_sum hs.tiles
  omega

/-! ## What an edit does to the live list -/

section Steps

variable {a a' : Arena} {live : List LiveBlock} {offs offs' fl' : List Nat} {o : Nat}
  {b : LiveBlock} {n : Nat}

/-- A live block survives an edit of another one. -/
theorem Backs.transfer {x : Nat} (h : Backs a offs b x)
    (hbase : a'.base = a.base) (hu : a'.view.InUse offs' x)
    (hkeep : blkSize a' x = blkSize a x ∧ blkPad a' x = blkPad a x) : Backs a' offs' b x where
  ptr := by rw [hbase, h.ptr]
  inUse := hu
  req := by rw [hkeep.1]; exact h.req
  pad := by rw [hkeep.2]; exact h.pad

theorem LiveInv.serve {need : Nat} {noacct : Bool} (h : LiveInv a live offs)
    (hs' : Shape a' offs' fl') (hv : Served a a' offs offs' o need noacct)
    (hn : n + hdrSize ≤ need) : LiveInv a' (⟨a.base + o + hdrSize, n, !noacct⟩ :: live) offs' := by
  have hnew : Backs a' offs' ⟨a.base + o + hdrSize, n, !noacct⟩ o := by
    refine ⟨by rw [hv.base], hv.edit.new, le_trans hn hv.need_le, ?_⟩
    rw [hv.pad]
    cases noacct <;> simp [blkNoacct]
  have hold : ∀ b ∈ live, ∃ x, x ≠ o ∧ Backs a offs b x ∧ Backs a' offs' b x := by
    intro b hb
    obtain ⟨x, hx⟩ := h.backed b hb
    have hxo : x ≠ o := fun he => hv.edit.fresh (he ▸ hx.inUse)
    exact ⟨x, hxo, hx, hx.transfer hv.base ((hv.edit.other x hxo).mpr hx.inUse)
      (hv.edit.keep x hx.inUse)⟩
  have hnd : (List.map LiveBlock.ptr (⟨a.base + o + hdrSize, n, !noacct⟩ :: live)).Nodup := by
    refine nodup_cons.mpr ⟨fun hm => ?_, h.nodup⟩
    obtain ⟨b, hb, hbp⟩ := List.mem_map.mp hm
    obtain ⟨x, hxo, hx, -⟩ := hold b hb
    have hp := hx.ptr
    exact hxo (by have : b.ptr = a.base + o + hdrSize := hbp; omega)
  have hback : ∀ b ∈ ⟨a.base + o + hdrSize, n, !noacct⟩ :: live, ∃ x, Backs a' offs' b x := by
    intro b hb
    rcases mem_cons.mp hb with rfl | hb
    · exact ⟨o, hnew⟩
    · obtain ⟨x, -, -, hx⟩ := hold b hb
      exact ⟨x, hx⟩
  have hbytes : liveBytes a' live = liveBytes a live := by
    refine liveBytes_congr fun b hb => ?_
    obtain ⟨x, -, hx, hx'⟩ := hold b hb
    rw [hx'.hdrOff, hx.hdrOff]
    exact (hv.edit.keep x hx.inUse).1
  have hle := LiveInv.liveBytes_le hs' hnd hback
  have hlt := hs'.bump_lt
  refine ⟨hnd, hback, ?_, ?_⟩
  · intro x hx
    by_cases hxo : x = o
    · exact ⟨_, mem_cons_self, by rw [hxo, hv.base]⟩
    · obtain ⟨b, hb, hp⟩ := h.held x ((hv.edit.other x hxo).mp hx)
      exact ⟨b, mem_cons_of_mem _ hb, by rw [hp, hv.base]⟩
  · intro c hc
    rw [liveBytes_cons, hnew.hdrOff, hbytes] at hle ⊢
    rw [hv.acct] at hc
    cases noacct with
    | true =>
      simpa using h.used c hc
    | false =>
      -- the counter does not wrap: what it counts lies inside the region
      simp only [Bool.false_eq_true, if_false, acctAdd, map_eq_some_iff] at hc
      obtain ⟨c0, hc0, rfl⟩ := hc
      simp only [Bool.not_false, if_true] at hle ⊢
      rw [h.used c0 hc0, Nat.add_comm]
      exact u32_of_lt (by omega)

theorem LiveInv.drop (h : LiveInv a live offs) (hs : Shape a offs fl')
    (hv : Returned a a' offs offs' o) (hb : b ∈ live) (hbo : Backs a offs b o) :
    LiveInv a' (dropLive b.ptr live) offs' := by
  obtain ⟨b', l1, l2, hl1, hb', rfl, hdrop⟩ := exists_of_eraseP hb
    (p := fun x => decide (x.ptr = b.ptr)) (by simp)
  have hnd := h.nodup
  rw [map_append] at hnd
  obtain ⟨hnot, hnd'⟩ := nodup_cons.mp (nodup_middle.mp hnd)
  have hptr : b'.ptr = b.ptr := by simpa using hb'
  -- the two entries with this pointer are one
  have hbo' : Backs a offs b' o := by
    obtain ⟨x, hx⟩ := h.backed b' (by simp)
    have hxo : x = o := by rw [← hx.hdrOff, ← hbo.hdrOff, hptr]
    exact hxo ▸ hx
  have hdrop' : dropLive b.ptr (l1 ++ b' :: l2) = l1 ++ l2 := hdrop
  have hsub : ∀ x ∈ l1 ++ l2, x ∈ l1 ++ b' :: l2 := by
    intro x hx
    simp only [mem_append, mem_cons] at hx ⊢
    tauto
  have hold : ∀ x ∈ l1 ++ l2, ∃ y, y ≠ o ∧ Backs a offs x y ∧ Backs a' offs' x y := by
    intro x hx
    obtain ⟨y, hy⟩ := h.backed x (hsub x hx)
    have hyo : y ≠ o := by
      intro he
      refine hnot ?_
      rw [← map_append]
      refine List.mem_map.mpr ⟨x, hx, ?_⟩
      rw [hy.ptr, hbo'.ptr, he]
    have hu' := (hv.edit.other y hyo).mp hy.inUse
    obtain ⟨h1, h2⟩ := hv.edit.keep y hu'
    exact ⟨y, hyo, hy, hy.transfer hv.base hu' ⟨h1.symm, h2.symm⟩⟩
  have hbytes : liveBytes a' (l1 ++ l2) = liveBytes a (l1 ++ l2) := by
    refine liveBytes_congr fun x hx => ?_
    obtain ⟨y, -, hy, hy'⟩ := hold x hx
    rw [hy'.hdrOff, hy.hdrOff]
    exact ((hv.edit.keep y hy'.inUse).1).symm
  rw [hdrop']
  refine ⟨by rwa [map_append], ?_, ?_, ?_⟩
  · intro x hx
    obtain ⟨y, -, -, hy⟩ := hold x hx
    exact ⟨y, hy⟩
  · intro y hy
    have hyo : y ≠ o := fun he => hv.edit.fresh (he ▸ hy)
    obtain ⟨x, hx, hp⟩ := h.held y ((hv.edit.other y hyo).mpr hy)
    refine ⟨x, ?_, by rw [hp, hv.base]⟩
    have hxb : x ≠ b' := by
      rintro rfl
      have h1 := hbo'.ptr
      omega
    simp only [mem_append, mem_cons] at hx ⊢
    tauto
  · intro c hc
    rw [hbytes]
    rw [hv.acct] at hc
    have hle := LiveInv.liveBytes_le hs h.nodup h.backed
    have hlt := hs.bump_lt
    have hused := h.used
    rw [liveBytes_middle, hbo'.hdrOff] at hle hused
    cases hacc : b'.accounted with
    | false =>
      rw [if_pos (hbo'.pad.mpr hacc)] at hc
      simpa [hacc] using hused c hc
    | true =>
      have hpad : blkPad a o ≠ blkNoacct := fun he => by simp [hbo'.pad.mp he] at hacc
      simp only [if_neg hpad, acctSub, map_eq_some_iff] at hc
      obtain ⟨c0, hc0, rfl⟩ := hc
      have hu := hused c0 hc0
      simp only [hacc, if_true] at hu hle
      rw [hu, u32, show blkSize a o + liveBytes a (l1 ++ l2) + 2 ^ 32 - blkSize a o
        = liveBytes a (l1 ++ l2) + 2 ^ 32 by omega, Nat.add_mod_right]
      exact Nat.mod_eq_of_lt (by omega)

theorem LiveInv.resize (h : LiveInv a live offs) (hbo : Backs a offs b o)
    (hn : n + hdrSize ≤ blkSize a o) : LiveInv a (resizeLive b.ptr n live) offs := by
  have hptr : ∀ x : LiveBlock, (if x.ptr = b.ptr then { x with req := n } else x).ptr = x.ptr := by
    intro x
    split <;> rfl
  have hacc : ∀ x : LiveBlock,
      (if x.ptr = b.ptr then { x with req := n } else x).accounted = x.accounted := by
    intro x
    split <;> rfl
  refine ⟨?_, ?_, ?_, ?_⟩
  · have : (resizeLive b.ptr n live).map LiveBlock.ptr = live.map LiveBlock.ptr := by
      simp only [resizeLive, List.map_map]
      exact map_congr_left fun x _ => hptr x
    rw [this]
    exact h.nodup
  · intro x hx
    obtain ⟨y, hy, rfl⟩ := List.mem_map.mp hx
    obtain ⟨z, hz⟩ := h.backed y hy
    refine ⟨z, (hptr y).trans hz.ptr, hz.inUse, ?_, by rw [hacc]; exact hz.pad⟩
    by_cases hyb : y.ptr = b.ptr
    · have hzo : z = o := by rw [← hz.hdrOff, ← hbo.hdrOff, hyb]
      rw [if_pos hyb, hzo]
      exact hn
    · rw [if_neg hyb]
      exact hz.req
  · intro x hx
    obtain ⟨y, hy, hp⟩ := h.held x hx
    exact ⟨_, List.mem_map_of_mem hy, (hptr y).trans hp⟩
  · intro c hc
    rw [h.used c hc]
    unfold liveBytes resizeLive
    rw [List.filter_map, List.map_map]
    have hf : (LiveBlock.accounted ∘ fun x : LiveBlock =>
        if x.ptr = b.ptr then { x with req := n } else x) = LiveBlock.accounted := funext hacc
    rw [hf]
    exact congrArg sum (map_congr_left fun x _ => by simp [hptr])

end Steps

/-! ## Writes into payloads -/

section Payload

variable {a : Arena} {live : List LiveBlock} {offs fl : List Nat} {m : ByteMem}

/-- Bytes that no header of a block occupies may change. -/
theorem Shape.setMem (h : Shape a offs fl) (hm : ∀ x ∈ offs, hdrAt m x = hdrAt a.mem x) :
    Shape { a with mem := m } offs fl ∧ SameUse a.view { a with mem := m }.view offs offs := by
  obtain ⟨ht, hu⟩ := h.toThreaded.keep (w := { a with mem := m }.view) rfl
    (fun x hx => by simp [Arena.view, blkSize, blkFree, blkPad, hm x hx]) rfl
    (fun x hx => by simp [Arena.view, Arena.link, hm x hx])
  exact ⟨⟨ht, h.bump_le⟩, hu⟩

theorem LiveInv.same {a' : Arena} (h : LiveInv a live offs) (hu : SameUse a.view a'.view offs offs)
    (hbase : a'.base = a.base) (hacct : ∀ c', a'.acct = some c' →
      ∃ c, a.acct = some c ∧ c'.guestHeapUsed = c.guestHeapUsed) : LiveInv a' live offs := by
  have hback : ∀ b ∈ live, ∃ o, Backs a offs b o ∧ Backs a' offs b o := by
    intro b hb
    obtain ⟨o, ho⟩ := h.backed b hb
    exact ⟨o, ho, ho.transfer hbase ((hu.iff o).mpr ho.inUse) (hu.keep o ho.inUse)⟩
  refine ⟨h.nodup, fun b hb => ?_, fun o ho => ?_, fun c' hc' => ?_⟩
  · obtain ⟨o, -, ho⟩ := hback b hb
    exact ⟨o, ho⟩
  · rw [hbase]
    exact h.held o ((hu.iff o).mp ho)
  · obtain ⟨c, hc, hcc⟩ := hacct c' hc'
    rw [hcc, h.used c hc]
    refine (liveBytes_congr fun b hb => ?_).symm
    obtain ⟨o, ho, ho'⟩ := hback b hb
    rw [ho'.hdrOff, ho.hdrOff]
    exact (hu.keep o ho.inUse).1

/-- The payload of a block lies between its header and the next block. -/
theorem Shape.hdr_of_payload (h : Shape a offs fl) {o : Nat} (ho : o ∈ offs)
    (hm : ∀ x, x < o + hdrSize ∨ o + blkSize a o ≤ x → m x = a.mem x) :
    ∀ x ∈ offs, hdrAt m x = hdrAt a.mem x := by
  intro x hx
  have hword : ∀ k, k + 4 ≤ 16 → read32 m (x + k) = read32 a.mem (x + k) := by
    intro k hk
    refine read32_congr fun y hy hy' => hm y ?_
    unfold hdrSize
    by_cases hxo : x = o
    · omega
    · rcases tiles_apart h.tiles hx ho hxo with h1 | h1
      · omega
      · have h1' : o + blkSize a o ≤ x := h1
        omega
  simp only [hdrAt]
  rw [hword 4 (by norm_num), hword 8 (by norm_num), hword 12 (by norm_num)]
  have h0 := hword 0 (by norm_num)
  rw [Nat.add_zero] at h0
  rw [h0]

end Payload

/-! ## The calls and the accounting block -/

/-- What a call may do to the accounting block: leave the host's words alone,
and raise the cart's heap by at most `growth` and only as far as the budget allows. -/
def AcctStep (growth : Nat) (a a' : Arena) : Prop :=
  ∀ c, a.acct = some c → ∃ c', a'.acct = some c'
    ∧ c'.nonEvictableFootprint = c.nonEvictableFootprint
    ∧ c'.resourceCacheUsed = c.resourceCacheUsed
    ∧ c'.guestHeapBaseline = c.guestHeapBaseline
    ∧ (memCartHeap c' ≤ memCartHeap c
      ∨ memCartHeap c' ≤ memCartHeap c + growth
        ∧ memCartHeap c' + c.nonEvictableFootprint ≤ memBudgetBytes)

variable {g : Nat}

theorem AcctStep.of_eq (h : a'.acct = a.acct) : AcctStep g a a' := by
  intro c hc
  exact ⟨c, h.trans hc, rfl, rfl, rfl, Or.inl le_rfl⟩

theorem AcctStep.trans {a₁ a₂ : Arena} (h : AcctStep g a a₁) (h' : AcctStep 0 a₁ a₂) :
    AcctStep g a a₂ := by
  intro c hc
  obtain ⟨c1, hc1, hf, hr, hb, hle⟩ := h c hc
  obtain ⟨c2, hc2, hf', hr', hb', hle'⟩ := h' c1 hc1
  refine ⟨c2, hc2, hf'.trans hf, hr'.trans hr, hb'.trans hb, ?_⟩
  omega

theorem memCartHeap_add (c : MemAccounting) (n : Nat) :
    memCartHeap { c with guestHeapUsed := u32 (c.guestHeapUsed + n) } ≤ memCartHeap c + n := by
  have hle := u32_le (c.guestHeapUsed + n)
  simp only [memCartHeap]
  split <;> split <;> omega

theorem memCartHeap_mono {c : MemAccounting} (h : n ≤ c.guestHeapUsed) :
    memCartHeap { c with guestHeapUsed := n } ≤ memCartHeap c := by
  simp only [memCartHeap]
  split <;> split <;> omega

theorem Served.acctStep {need : Nat} {noacct : Bool}
    (hv : Served a a' offs offs' o need noacct) :
    AcctStep (if noacct then 0 else need + 31) a a' := by
  cases noacct with
  | true => exact AcctStep.of_eq (by rw [hv.acct, if_pos rfl])
  | false =>
    intro c hc
    have hcap := hv.cap rfl
    simp only [capAllows, hc, memAllocFits, decide_eq_true_eq] at hcap
    refine ⟨{ c with guestHeapUsed := u32 (c.guestHeapUsed + blkSize a' o) }, ?_, rfl, rfl, rfl,
      Or.inr ?_⟩
    · rw [hv.acct, if_neg (by simp), acctAdd, hc, map_some]
    have := memCartHeap_add c (blkSize a' o)
    have := hv.size_lt
    simp only [Bool.false_eq_true, if_false]
    omega

theorem Returned.acctStep (hv : Returned a a' offs offs' o) (hl : LiveInv a live offs)
    (hb : b ∈ live) (ho : Backs a offs b o) : AcctStep 0 a a' := by
  by_cases hpad : blkPad a o = blkNoacct
  · exact AcctStep.of_eq (by rw [hv.acct, if_pos hpad])
  intro c hc
  refine ⟨{ c with guestHeapUsed := u32 (c.guestHeapUsed + 2 ^ 32 - blkSize a o) }, ?_, rfl, rfl,
    rfl, Or.inl (memCartHeap_mono ?_)⟩
  · rw [hv.acct, if_neg hpad, acctSub, hc, map_some]
  -- the block is part of what the counter counts, so nothing wraps
  have hacc : b.accounted = true := by
    by_contra hne
    exact hpad (ho.pad.mpr (by simpa using hne))
  obtain ⟨l1, l2, rfl⟩ := append_of_mem hb
  have hused := hl.used c hc
  rw [liveBytes_middle, ho.hdrOff, if_pos hacc] at hused
  rw [u32, show c.guestHeapUsed + 2 ^ 32 - blkSize a o
    = c.guestHeapUsed - blkSize a o + 2 ^ 32 by omega, Nat.add_mod_right]
  exact le_trans (Nat.mod_le _ _) (Nat.sub_le _ _)

/-! ## The calls keep the invariant -/

theorem ensureReady_of_ready (h : a.ready = true) : ensureReady a = a := if_pos h

theorem ensureReady_acct (a : Arena) : (ensureReady a).acct = a.acct := by
  unfold ensureReady
  split <;> rfl

theorem ensureReady_ready (a : Arena) : (ensureReady a).ready = true := by
  unfold ensureReady
  split
  · assumption
  · rfl

theorem ensureReady_idem (a : Arena) : ensureReady (ensureReady a) = ensureReady a :=
  ensureReady_of_ready (ensureReady_ready a)

/-- A block just handed out is none of the others. -/
theorem HeapInv.head_ne (h : HeapInv ⟨a, b :: live⟩) {c : LiveBlock} (hc : c ∈ live) :
    b.ptr ≠ c.ptr := by
  obtain ⟨offs, fl, -, hl⟩ := h
  exact fun he => (nodup_cons.mp hl.nodup).1 (List.mem_map.mpr ⟨c, hc, he.symm⟩)

/-- A pointer is held only into an arena that has been set up. -/
theorem HeapInv.of_live (h : HeapInv s) (hb : b ∈ s.live) :
    s.arena.ready = true ∧ ∃ offs fl o, Shape s.arena offs fl ∧ LiveInv s.arena s.live offs
      ∧ Backs s.arena offs b o := by
  obtain ⟨offs, fl, hs, hl⟩ := h
  obtain ⟨o, ho⟩ := hl.backed b hb
  have hready : s.arena.ready = true := by
    by_contra hne
    have hb0 : (ensureReady s.arena).bump = 0 := by
      unfold ensureReady
      rw [if_neg hne]
    have h1 : o + blkSize (ensureReady s.arena) o ≤ (ensureReady s.arena).bump :=
      hs.end_le ho.inUse.1
    have h2 : 0 < blkSize (ensureReady s.arena) o := hs.pos ho.inUse.1
    omega
  rw [ensureReady_of_ready hready] at hs hl ho
  exact ⟨hready, offs, fl, o, hs, hl, ho⟩

theorem HeapInv.of_ready (hr : a.ready = true) (hs : Shape a offs fl) (hl : LiveInv a live offs) :
    HeapInv ⟨a, live⟩ :=
  ⟨offs, fl, by rwa [ensureReady_of_ready hr], by rwa [ensureReady_of_ready hr]⟩

theorem HeapInv.mallocCore (h : HeapInv s) (noacct : Bool) (hn : n + 31 < 2 ^ 32) :
    ∃ p a', arenaMallocCore s.arena n noacct = some (p, a')
      ∧ HeapInv ⟨a', addLive p n (!noacct) s.live⟩
      ∧ AcctStep (if noacct then 0 else needOf n + 31) s.arena a' := by
  obtain ⟨offs, fl, hs, hl⟩ := h
  have hacct := ensureReady_acct s.arena
  rcases arenaMallocCore_spec noacct hs hn with hr | hr | ⟨a', offs', fl', o, hb, hr, hs', hv⟩
  · exact ⟨0, s.arena, hr, ⟨offs, fl, hs, hl⟩, AcctStep.of_eq rfl⟩
  · refine ⟨0, _, hr, ⟨offs, fl, ?_, ?_⟩, AcctStep.of_eq hacct⟩ <;> rwa [ensureReady_idem]
  · have hready := hv.ready.trans (ensureReady_ready _)
    have hl' := hl.serve hs' hv (needOf_spec hn).1
    rw [ensureReady_base] at hl'
    refine ⟨_, a', hr, ?_, fun c hc => hv.acctStep c (hacct.trans hc)⟩
    exact HeapInv.of_ready hready hs' hl'

theorem HeapInv.free (h : HeapInv s) (hp : NullOrLive s p) :
    ∃ a', arenaFree s.arena p = some a' ∧ HeapInv ⟨a', dropLive p s.live⟩
      ∧ AcctStep 0 s.arena a' := by
  by_cases hp0 : p = 0
  · -- no live pointer is `NULL`, so the list stays as it is
    have hdrop : dropLive p s.live = s.live := by
      refine eraseP_of_forall_not fun b hb => ?_
      obtain ⟨-, offs, fl, o, -, -, ho⟩ := h.of_live hb
      have hptr := ho.ptr
      have h16 : hdrSize = 16 := rfl
      simp only [decide_eq_true_eq]
      omega
    refine ⟨s.arena, if_pos hp0, ?_, AcctStep.of_eq rfl⟩
    rw [hdrop]
    exact h
  obtain ⟨b, hb, rfl⟩ := hp.resolve_left hp0
  obtain ⟨hready, offs, fl, o, hs, hl, ho⟩ := h.of_live hb
  obtain ⟨a', offs', fl', hr, hs', hv⟩ := arenaFree_spec hs ho.inUse
  refine ⟨a', by rw [ho.ptr, hr], ?_, hv.acctStep hl hb ho⟩
  exact HeapInv.of_ready (hv.ready.trans hready) hs' (hl.drop hs hv hb ho)

/-- The cart, or the allocator for it, writes inside the payload of a live
block. -/
theorem HeapInv.write (h : HeapInv s) (hb : b ∈ s.live)
    {m : ByteMem} (hm : ∀ x, x < b.ptr - s.arena.base ∨ b.ptr - s.arena.base + b.req ≤ x →
      m x = s.arena.mem x) : HeapInv ⟨{ s.arena with mem := m }, s.live⟩ := by
  obtain ⟨hready, offs, fl, o, hs, hl, ho⟩ := h.of_live hb
  have hptr : b.ptr - s.arena.base = o + hdrSize := by rw [ho.ptr]; omega
  have hreq := ho.req
  have hhdr := hs.hdr_of_payload ho.inUse.1 fun x hx => hm x (by omega)
  obtain ⟨hs', hu⟩ := hs.setMem hhdr
  exact HeapInv.of_ready hready hs' (hl.same hu rfl fun c hc => ⟨c, hc, rfl⟩)

/-- The capacity that `realloc` works out for a block in use. -/
theorem Backs.cap (ho : Backs a offs b o) (hs : Shape a offs fl) :
    u32 ((hdrAt a.mem (Blyt.hdrOff a b.ptr)).size + 2 ^ 32 - hdrSize) = blkSize a o - hdrSize := by
  have hsz : 32 ≤ blkSize a o := hs.size_ge o ho.inUse.1
  have hend : o + blkSize a o ≤ a.bump := hs.end_le ho.inUse.1
  have hlt := hs.bump_lt
  rw [ho.hdrOff]
  show u32 (blkSize a o + 2 ^ 32 - hdrSize) = blkSize a o - hdrSize
  rw [show blkSize a o + 2 ^ 32 - hdrSize
      = blkSize a o - hdrSize + 2 ^ 32 by unfold hdrSize; omega, u32, Nat.add_mod_right]
  exact Nat.mod_eq_of_lt (by omega)

/-- How far a `realloc` can raise the cart's heap: not at all where the block is large
enough. -/
def reallocGrowth (a : Arena) (p n : Nat) (noacct : Bool) : Nat :=
  if noacct ∨ p ≠ 0 ∧ n ≤ u32 ((hdrAt a.mem (hdrOff a p)).size + 2 ^ 32 - hdrSize) then 0
  else needOf n + 31

theorem AcctStep.realloc (h : AcctStep (if noacct then 0 else needOf n + 31) a a')
    (hmove : p ≠ 0 → ¬ n ≤ u32 ((hdrAt a.mem (hdrOff a p)).size + 2 ^ 32 - hdrSize)) :
    AcctStep (reallocGrowth a p n noacct) a a' := by
  have hiff : (noacct = true ∨ p ≠ 0 ∧ n ≤ u32 ((hdrAt a.mem (hdrOff a p)).size + 2 ^ 32
      - hdrSize)) ↔ noacct = true := or_iff_left fun hc => hmove hc.1 hc.2
  simpa only [reallocGrowth, hiff] using h

theorem HeapInv.realloc (h : HeapInv s) (noacct : Bool)
    (hn : n + 31 < 2 ^ 32) (hp : NullOrLive s p) :
    ∃ q a', arenaReallocCore s.arena p n noacct = some (q, a')
      ∧ HeapInv ⟨a', reallocLive p n q (!noacct) s.live⟩
      ∧ AcctStep (reallocGrowth s.arena p n noacct) s.arena a' := by
  unfold arenaReallocCore
  by_cases hp0 : p = 0
  · obtain ⟨q, a', hr, hi, hacct⟩ := h.mallocCore noacct hn
    exact ⟨q, a', by rw [if_pos hp0, hr], by rwa [reallocLive, if_pos hp0],
      hacct.realloc (absurd hp0)⟩
  rw [if_neg hp0]
  by_cases hn0 : n = 0
  · obtain ⟨a', hr, hi, hacct⟩ := h.free hp
    refine ⟨0, a', by rw [if_pos hn0, hr, map_some], ?_, ?_⟩
    · rwa [reallocLive, if_neg hp0, if_pos hn0]
    · rwa [reallocGrowth, if_pos (.inr ⟨hp0, hn0 ▸ Nat.zero_le _⟩)]
  rw [if_neg hn0]
  obtain ⟨b, hb, rfl⟩ := hp.resolve_left hp0
  obtain ⟨hready, offs, fl, o, hs, hl, ho⟩ := h.of_live hb
  have hcap := ho.cap hs
  simp only [hcap]
  by_cases hfit : n ≤ blkSize s.arena o - hdrSize
  · refine ⟨b.ptr, s.arena, if_pos hfit, ?_, AcctStep.of_eq rfl⟩
    rw [reallocLive, if_neg hp0, if_neg hn0, if_neg hp0, if_pos rfl]
    refine HeapInv.of_ready hready hs (hl.resize ho ?_)
    omega
  rw [if_neg hfit]
  obtain ⟨q, a', hr, hi, hmalloc⟩ := h.mallocCore noacct hn
  have hacct := hmalloc.realloc (p := b.ptr) fun _ => hcap.symm ▸ hfit
  simp only [hr]
  by_cases hq : q = 0
  · refine ⟨0, a', if_pos hq, ?_, hacct⟩
    rw [reallocLive, if_neg hp0, if_neg hn0]
    rwa [addLive, if_pos hq] at hi
  rw [if_neg hq]
  rw [addLive, if_neg hq] at hi
  -- copy into the new payload, then give the old block back
  have hcopy := hi.write (b := ⟨q, n, !noacct⟩) (by simp)
    (m := copyBytes a'.mem (q - a'.base) (b.ptr - a'.base) (blkSize s.arena o - hdrSize))
    (fun x hx => copyBytes_outside (by simp only at hx; omega))
  obtain ⟨a'', hf, hi'', hacct'⟩ := hcopy.free (Or.inr ⟨b, mem_cons_of_mem _ hb, rfl⟩)
  refine ⟨q, a'', by rw [hf, map_some], ?_, (hacct.trans (AcctStep.of_eq rfl)).trans hacct'⟩
  have hqp := hi.head_ne hb
  rw [reallocLive, if_neg hp0, if_neg hn0, if_neg hq, if_neg hqp]
  have hdrop : dropLive b.ptr (⟨q, n, !noacct⟩ :: s.live)
      = ⟨q, n, !noacct⟩ :: dropLive b.ptr s.live := by
    simp [dropLive, hqp]
  rwa [hdrop] at hi''

theorem HeapInv.calloc (h : HeapInv s)
    (hsm : 2 ^ 32 ≤ sizeMax + 1) (nmemb sz : Nat) (hn : nmemb * sz + 31 < 2 ^ 32) :
    ∃ p a', arenaCalloc sizeMax s.arena nmemb sz = some (p, a')
      ∧ HeapInv ⟨a', addLive p (nmemb * sz) true s.live⟩
      ∧ AcctStep (needOf (nmemb * sz) + 31) s.arena a' := by
  unfold arenaCalloc
  by_cases hov : sz ≠ 0 ∧ sizeMax / sz < nmemb
  · exact ⟨0, s.arena, if_pos hov, h, AcctStep.of_eq rfl⟩
  rw [if_neg hov, Nat.mod_eq_of_lt (by omega)]
  obtain ⟨p, a', hr, hi, hacct⟩ := h.mallocCore false hn
  simp only [arenaMalloc, hr, map_some]
  by_cases hp : p = 0
  · exact ⟨0, a', by rw [if_pos hp], by rwa [hp] at hi, hacct⟩
  refine ⟨p, { a' with mem := fill a'.mem (p - a'.base) (nmemb * sz) 0 }, by rw [if_neg hp], ?_,
    hacct.trans (AcctStep.of_eq rfl)⟩
  rw [addLive, if_neg hp] at hi ⊢
  refine hi.write (b := ⟨p, nmemb * sz, true⟩) (by simp) fun x hx => ?_
  exact fill_outside (by simpa using hx)

def Arena.Fresh (a : Arena) : Prop :=
  a.ready = false ∧ ∀ c, a.acct = some c → c.guestHeapUsed = 0

theorem Arena.Fresh.reset (a : Arena) : (arenaReset a).Fresh := by
  refine ⟨rfl, fun c hc => ?_⟩
  obtain ⟨c0, -, rfl⟩ := map_eq_some_iff.mp hc
  rfl

theorem Arena.Fresh.heapInv (h : a.Fresh) : HeapInv ⟨a, []⟩ := by
  have he : ensureReady a = { a with bump := 0, freeHead := arenaNone, ready := true } :=
    if_neg (by simp [h.1])
  refine ⟨[], [], ?_, ?_⟩
  · rw [he]
    exact ⟨⟨rfl, by simp, by simp, Nat.zero_le _, rfl, nodup_nil, by simp⟩, Nat.zero_le _⟩
  · rw [he]
    exact ⟨nodup_nil, by simp, fun o ho => absurd ho.1 (by simp), h.2⟩

/-! ## Runs -/

/-- How far a call can raise the cart's heap. -/
def ArenaOp.growth (s : HeapState) : ArenaOp → Nat
  | .malloc n => needOf n + 31
  | .calloc nmemb sz => needOf (nmemb * sz) + 31
  | .realloc p n => reallocGrowth s.arena p n false
  | _ => 0

/-- **Every call keeps the invariant**, as long as header and rounding do not
push a request past 32 bits; a call other than a reset also minds the budget. -/
theorem heapStep_spec (hsm : 2 ^ 32 ≤ sizeMax + 1)
    (hlim : limit + 30 < 2 ^ 32) (s : HeapState) (op : ArenaOp) (h : HeapInv s)
    (hadm : op.Admissible limit s) : ∃ s', heapStep sizeMax s op = some s' ∧ HeapInv s'
      ∧ (op ≠ .reset → AcctStep (op.growth s) s.arena s'.arena) := by
  cases op with
  | malloc n =>
    have hn : n < limit := hadm
    obtain ⟨p, a', hr, hi, hacct⟩ := h.mallocCore false (n := n) (by omega)
    exact ⟨_, by simp [heapStep, arenaMalloc, hr], hi, fun _ => hacct⟩
  | mallocNoacct n =>
    have hn : n < limit := hadm
    obtain ⟨p, a', hr, hi, hacct⟩ := h.mallocCore true (n := n) (by omega)
    exact ⟨_, by simp [heapStep, arenaMallocNoacct, hr], hi, fun _ => hacct⟩
  | calloc nmemb sz =>
    have hn : nmemb * sz < limit := hadm
    obtain ⟨p, a', hr, hi, hacct⟩ := h.calloc hsm nmemb sz (by omega)
    exact ⟨_, by simp [heapStep, hr], hi, fun _ => hacct⟩
  | realloc p n =>
    have hn := hadm.1
    obtain ⟨q, a', hr, hi, hacct⟩ := h.realloc false (n := n) (by omega) hadm.2
    exact ⟨_, by simp [heapStep, arenaRealloc, hr], hi, fun _ => hacct⟩
  | reallocNoacct p n =>
    have hn := hadm.1
    obtain ⟨q, a', hr, hi, hacct⟩ := h.realloc true (n := n) (by omega) hadm.2
    exact ⟨_, by simp [heapStep, arenaReallocNoacct, hr], hi, fun _ => hacct⟩
  | free =>
    obtain ⟨a', hr, hi, hacct⟩ := h.free hadm
    exact ⟨_, by simp [heapStep, hr], hi, fun _ => hacct⟩
  | reset =>
    exact ⟨_, rfl, (Arena.Fresh.reset s.arena).heapInv, absurd rfl⟩
  | store =>
    obtain ⟨b, hb, rfl, hi⟩ := hadm
    exact ⟨_, rfl, h.write hb fun x hx => fill_outside (by omega), fun _ => AcctStep.of_eq rfl⟩

theorem heapRun_inv (hsm : 2 ^ 32 ≤ sizeMax + 1)
    (hlim : limit + 30 < 2 ^ 32) (hfresh : a.Fresh) {ops : List ArenaOp}
    (hadm : AdmRun (heapStep sizeMax) (fun s op => op.Admissible limit s) ⟨a, []⟩ ops) :
    ∃ s, runSteps (heapStep sizeMax) ⟨a, []⟩ ops = some s ∧ HeapInv s :=
  runSteps_inv (fun s op h hop => by
    obtain ⟨s', hr, hi, -⟩ := heapStep_spec hsm hlim s op h hop
    exact ⟨s', hr, hi⟩) hfresh.heapInv hadm

/-- Without a reset the accounting block stays in place as well. -/
theorem heapRun_block (hsm : 2 ^ 32 ≤ sizeMax + 1)
    (hlim : limit + 30 < 2 ^ 32) (hfresh : a.Fresh) (hblock : a.acct.isSome = true)
    {ops : List ArenaOp}
    (hadm : AdmRun (heapStep sizeMax) (fun s op => op ≠ .reset ∧ op.Admissible limit s)
      ⟨a, []⟩ ops) (hrun : runSteps (heapStep sizeMax) ⟨a, []⟩ ops = some s) :
    HeapInv s ∧ s.arena.acct.isSome = true := by
  have hstep : ∀ (s : HeapState) (op : ArenaOp),
      (HeapInv s ∧ s.arena.acct.isSome = true) → (op ≠ .reset ∧ op.Admissible limit s) →
      ∃ s', heapStep sizeMax s op = some s' ∧ HeapInv s' ∧ s'.arena.acct.isSome = true := by
    rintro s op ⟨hs, hb⟩ ⟨hne, hop⟩
    obtain ⟨c, hc⟩ := isSome_iff_exists.mp hb
    obtain ⟨s', hr, hs', hacct⟩ := heapStep_spec hsm hlim s op hs hop
    obtain ⟨c', hc', -⟩ := hacct hne c hc
    exact ⟨s', hr, hs', by rw [hc']; rfl⟩
  obtain ⟨s', hs', hi⟩ := runSteps_inv hstep ⟨hfresh.heapInv, hblock⟩ hadm
  obtain rfl : s' = s := some.inj (hs'.symm.trans hrun)
  exact hi

/-- A well-formed heap, as its clients see it: `offs` are the blocks, `fl` the
free list in order. -/
structure HeapOK (s : HeapState) (offs fl : List Nat) : Prop where
  tiles : Tiles (blkSize (ensureReady s.arena)) 0 (ensureReady s.arena).bump offs
  sizes : ∀ o ∈ offs, 16 ∣ blkSize (ensureReady s.arena) o
    ∧ 32 ≤ blkSize (ensureReady s.arena) o
  chain : Chain (ensureReady s.arena).link arenaNone none fl
  once : fl.Nodup
  freeBlocks : ∀ o, o ∈ fl ↔ o ∈ offs ∧ blkFree (ensureReady s.arena) o ≠ 0
  usedBlocks : ∀ o ∈ offs, o ∉ fl ↔ ∃ b ∈ s.live, b.ptr = s.arena.base + o + hdrSize
  /-- each live payload fills a used block behind its header, and is aligned if
  the region is -/
  payload : ∀ b ∈ s.live, ∃ o ∈ offs, o ∉ fl ∧ b.ptr = s.arena.base + o + hdrSize
    ∧ 16 ∣ o ∧ (16 ∣ s.arena.base → 16 ∣ b.ptr)
    ∧ b.req ≤ blkSize (ensureReady s.arena) o - hdrSize
  disjoint : s.live.Pairwise fun b b' =>
    b.ptr + (blkSize (ensureReady s.arena) (hdrOff s.arena b.ptr) - hdrSize) ≤ b'.ptr
    ∨ b'.ptr + (blkSize (ensureReady s.arena) (hdrOff s.arena b'.ptr) - hdrSize) ≤ b.ptr
  headers : ∀ b ∈ s.live, ∀ o ∈ offs, s.arena.base + o + hdrSize ≤ b.ptr
    ∨ b.ptr + (blkSize (ensureReady s.arena) (hdrOff s.arena b.ptr) - hdrSize)
        ≤ s.arena.base + o
  used : ∀ c, s.arena.acct = some c → c.guestHeapUsed
    = ((s.live.filter LiveBlock.accounted).map fun b =>
        blkSize (ensureReady s.arena) (hdrOff s.arena b.ptr)).sum

theorem HeapInv.heapOK (h : HeapInv s) : ∃ offs fl, HeapOK s offs fl := by
  obtain ⟨offs, fl, hs, hl⟩ := h
  have hbase := ensureReady_base s.arena
  have hoff := hdrOff_congr hbase
  have hnotfl : ∀ o, o ∈ offs → (o ∉ fl ↔ blkFree (ensureReady s.arena) o = 0) := by
    intro o ho
    have hmem : o ∈ fl ↔ o ∈ offs ∧ blkFree (ensureReady s.arena) o ≠ 0 := hs.mem_fl o
    tauto
  -- a live pointer, its block, and the room behind the header
  have hblk : ∀ b ∈ s.live, ∃ o, o ∈ offs ∧ blkFree (ensureReady s.arena) o = 0
      ∧ b.ptr = s.arena.base + o + 16 ∧ hdrOff s.arena b.ptr = o
      ∧ b.req + 16 ≤ blkSize (ensureReady s.arena) o := by
    intro b hb
    obtain ⟨o, ho⟩ := hl.backed b hb
    refine ⟨o, ho.inUse.1, ho.inUse.2, hbase ▸ ho.ptr, ?_, ho.req⟩
    rw [← hoff]
    exact ho.hdrOff
  refine ⟨offs, fl, hs.tiles, fun o ho => ⟨hs.size_dvd o ho, hs.size_ge o ho⟩, hs.chain,
    hs.nodup, hs.mem_fl, ?_, ?_, ?_, ?_, ?_⟩
  · intro o ho
    rw [hnotfl o ho]
    constructor
    · intro hf
      obtain ⟨b, hb, hp⟩ := hl.held o ⟨ho, hf⟩
      exact ⟨b, hb, hbase ▸ hp⟩
    · rintro ⟨b, hb, hp⟩
      obtain ⟨x, hx, hf, hpx, -⟩ := hblk b hb
      have hxo : x = o := by unfold hdrSize at hp; omega
      exact hxo ▸ hf
  · intro b hb
    obtain ⟨o, ho, hf, hp, -, hreq⟩ := hblk b hb
    have hd := hs.dvd ho
    refine ⟨o, ho, (hnotfl o ho).mpr hf, hp, hd, fun hba => ?_, ?_⟩
    · rw [hp]
      exact (hba.add hd).add (dvd_refl 16)
    · unfold hdrSize
      omega
  · have hpair := pairwise_map.mp hl.nodup
    refine hpair.imp_of_mem fun {b b'} hb hb' hne => ?_
    obtain ⟨o, ho, -, hp, hoo, -⟩ := hblk b hb
    obtain ⟨o', ho', -, hp', hoo', -⟩ := hblk b' hb'
    rw [hoo, hoo']
    rcases tiles_apart hs.tiles ho ho' (fun he => hne (by rw [hp, hp', he])) with h1 | h1
    · have h1' : o + blkSize (ensureReady s.arena) o ≤ o' := h1
      omega
    · have h1' : o' + blkSize (ensureReady s.arena) o' ≤ o := h1
      omega
  · intro b hb x hx
    obtain ⟨o, ho, -, hp, hoo, -⟩ := hblk b hb
    rw [hoo]
    have h32 := hs.size_ge o ho
    unfold hdrSize
    by_cases hxo : x = o
    · omega
    · rcases tiles_apart hs.tiles ho hx (Ne.symm hxo) with h1 | h1
      · have h1' : o + blkSize (ensureReady s.arena) o ≤ x := h1
        omega
      · omega
  · intro c hc
    rw [hl.used c (by rw [ensureReady_acct, hc]), liveBytes]
    simp only [hoff]

/-- **The heap stays well formed.** From a fresh or reset arena, after any
sequence of calls with held pointers and sizes below 2^31 - the cart writing
its payloads as it likes - the headers tile the used region, the free list
holds each free block once, live payloads are apart from each other and from
all headers, and the counter is the sum over the live accounted blocks. -/
theorem arenaRun_heapOK {sizeMax : Nat} (hsm : 2 ^ 32 ≤ sizeMax + 1) {a : Arena}
    (hfresh : a.Fresh) {ops : List ArenaOp}
    (hadm : AdmRun (heapStep sizeMax) (fun s op => op.Admissible (2 ^ 31) s) ⟨a, []⟩ ops) :
    ∃ s, runSteps (heapStep sizeMax) ⟨a, []⟩ ops = some s ∧ ∃ offs fl, HeapOK s offs fl := by
  obtain ⟨s, hrun, hi⟩ := heapRun_inv hsm (by norm_num) hfresh hadm
  exact ⟨s, hrun, hi.heapOK⟩

/-- A small region with a budget, before its first use. -/
def demoArena : Arena where
  base := 0x04000000
  size := 1024
  bump := 0
  freeHead := 0
  ready := false
  acct := some ⟨0, 0, 0, 0⟩
  mem := fun _ => 0
  size_lt := by norm_num

def demoOps : List ArenaOp :=
  [.malloc 10, .calloc 3 8, .mallocNoacct 40, .free 0x04000010, .malloc 1,
   .realloc 0x04000030 100, .store 0x040000a0 7 255, .free 0x04000010, .malloc 0]

theorem arenaRun_heapOK_demo :
    ∃ s, runSteps (heapStep (2 ^ 32 - 1)) ⟨demoArena, []⟩ demoOps = some s
      ∧ ∃ offs fl, HeapOK s offs fl :=
  arenaRun_heapOK (by norm_num) ⟨rfl, by rintro c ⟨⟩; rfl⟩ (by decide +kernel)

end Blyt
