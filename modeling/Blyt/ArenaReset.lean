import Blyt.ArenaFrame

/-!
# A reset arena and a new one

A reset forgets the blocks but leaves their bytes, headers among them. Two arenas that agree
on the headers of their blocks (`HdrsAlike`) stay in step, whatever else their regions hold: a
call reads nothing but those headers, and every header it makes it also writes. So a reset
arena answers like a new one (`Twins.step`), as long as no request wraps around in 32 bits;
one that does can copy old payload bytes over a header (`reset_fresh_iff`).

Pointers are compared as offsets into the two regions, which may lie anywhere.
-/

namespace Blyt

open List Option MemAccounting

/-- The words of the accounting block that the allocator works with. -/
def MemAccounting.figures (c : MemAccounting) : Nat × Nat × Nat :=
  (c.guestHeapUsed, c.nonEvictableFootprint, c.guestHeapBaseline)

/-- Two arenas, at `A` and at `B`, with the same fields, figures and block headers. -/
structure HdrsAlike (A B : Nat) (a b : Arena) (offs : List Nat) : Prop where
  base : a.base = A
  base' : b.base = B
  size : b.size = a.size
  bump : b.bump = a.bump
  freeHead : b.freeHead = a.freeHead
  ready : b.ready = a.ready
  acct : b.acct.map figures = a.acct.map figures
  hdr : ∀ x ∈ offs, hdrAt b.mem x = hdrAt a.mem x

section HdrsAlike

variable {A B : Nat} {a b : Arena} {offs fl : List Nat} {x o : Nat}

section

variable (h : HdrsAlike A B a b offs)
include h

theorem HdrsAlike.size_at (hx : x ∈ offs) :
    blkSize b x = blkSize a x := congrArg BlkHdr.size (h.hdr x hx)

theorem HdrsAlike.link (hs : Shape a offs fl) : ∀ q ∈ linksOf none fl, b.link q = a.link q := by
  intro q hq
  rcases mem_cons.mp hq with rfl | hq
  · exact h.freeHead
  · obtain ⟨x, hx, rfl⟩ := List.mem_map.mp hq
    exact congrArg BlkHdr.next (h.hdr x (hs.mem_offs hx))

/-- The shape is a matter of the headers. -/
theorem HdrsAlike.shape (hs : Shape a offs fl) : Shape b offs fl := by
  obtain ⟨ht, -⟩ := hs.toThreaded.keep (w := b.view) h.bump
    (fun x hx => by simp [Arena.view, blkSize, blkFree, blkPad, h.hdr x hx]) h.freeHead
    (fun x hx => by simp [Arena.view, Arena.link, h.hdr x hx])
  exact ⟨ht, by rw [h.bump, h.size]; exact hs.bump_le⟩

theorem HdrsAlike.inUse (hu : a.view.InUse offs x) : b.view.InUse offs x :=
  ⟨hu.1, (congrArg BlkHdr.free (h.hdr x hu.1)).trans hu.2⟩

theorem HdrsAlike.cap (n : Nat) : capAllows b n = capAllows a n := by
  have hacct := h.acct
  unfold capAllows
  cases hb : b.acct with
  | none =>
    rw [hb, map_none, eq_comm, map_eq_none_iff] at hacct
    rw [hacct]
  | some =>
    rw [hb, map_some, eq_comm, map_eq_some_iff] at hacct
    obtain ⟨c, hc, hcd⟩ := hacct
    simp only [figures, Prod.mk.injEq] at hcd
    simp only [hc, memCartHeap, hcd]

end

theorem figures_used {f : Nat → Nat} {x y : Option MemAccounting}
    (h : y.map figures = x.map figures) :
    (y.map fun c => { c with guestHeapUsed := f c.guestHeapUsed }).map figures
      = (x.map fun c => { c with guestHeapUsed := f c.guestHeapUsed }).map
        figures := by
  have hf : ∀ z : Option MemAccounting,
      (z.map fun c => { c with guestHeapUsed := f c.guestHeapUsed }).map figures
        = (z.map figures).map fun t => (f t.1, t.2) := by
    intro z
    cases z <;> rfl
  rw [hf, hf, h]

theorem HdrsAlike.charged (h : HdrsAlike A B a b offs) (noacct : Bool) {n m : Nat} (hnm : m = n) :
    HdrsAlike A B (charge a noacct n) (charge b noacct m) offs := by
  subst hnm
  cases noacct with
  | true => exact h
  | false =>
    exact ⟨h.base, h.base', h.size, h.bump, h.freeHead, h.ready,
      figures_used (f := fun u => u32 (u + m)) h.acct, h.hdr⟩

theorem HdrsAlike.discharged (h : HdrsAlike A B a b offs) (ho : o ∈ offs) :
    HdrsAlike A B (discharge a o) (discharge b o) offs := by
  have hpad : blkPad b o = blkPad a o := congrArg BlkHdr.pad (h.hdr o ho)
  unfold discharge
  rw [hpad, h.size_at ho]
  split
  · exact h
  · exact ⟨h.base, h.base', h.size, h.bump, h.freeHead, h.ready,
      figures_used (f := fun u => u32 (u + 2 ^ 32 - blkSize a o)) h.acct, h.hdr⟩

/-- Each block is in use or on the list. -/
theorem Shape.mem_cases (h : Shape a offs fl) (hx : x ∈ offs) : a.view.InUse offs x ∨ x ∈ fl := by
  by_cases hf : a.view.fr x = 0
  · exact .inl ⟨hx, hf⟩
  · exact .inr ((h.mem_fl x).mpr ⟨hx, hf⟩)

/-- What may be a block after block `o` has come into use. -/
theorem Edit.mem_cases {a' : Arena} {offs' fl' : List Nat} (he : Edit a.view a'.view offs offs' o)
    (hs' : Shape a' offs' fl') (hx : x ∈ offs') : x = o ∨ x ∈ offs ∨ x ∈ fl' := by
  rcases hs'.mem_cases hx with hu | hfl
  · by_cases hxo : x = o
    · exact .inl hxo
    · exact .inr (.inl ((he.other x hxo).mp hu).1)
  · exact .inr (.inr hfl)

end HdrsAlike

/-! ## The edits -/

section Edits

variable {A B : Nat} {a b : Arena} {offs l₁ l₂ : List Nat} {o need mark : Nat}

section

variable (h : HdrsAlike A B a b offs)
include h

/-- The same link is set to the same block in both. -/
theorem HdrsAlike.relink {a' b' : Arena} {q : Option Nat} {t : Nat} {offs' : List Nat}
    (ha : Relinks a a' q t) (hb : Relinks b b' q t)
    (hhdr : ∀ x ∈ offs', hdrAt b'.mem x = hdrAt a'.mem x) : HdrsAlike A B a' b' offs' where
  base := ha.base.trans h.base
  base' := hb.base.trans h.base'
  size := by rw [hb.size, ha.size, h.size]
  bump := by rw [hb.bump, ha.bump, h.bump]
  freeHead := by rw [hb.head, ha.head, h.freeHead]
  ready := by rw [hb.ready, ha.ready, h.ready]
  acct := by rw [hb.acct, ha.acct, h.acct]
  hdr := hhdr

theorem HdrsAlike.split (hs : Shape a offs (l₁ ++ o :: l₂))
    (hdvd : 16 ∣ need) (h32 : 32 ≤ need) (hrem : need + 32 ≤ blkSize a o) (hmark : mark < 2 ^ 32) :
    ∃ offs' fl', o ∈ offs' ∧ Shape (splitAt a (endLink none l₁) o need mark) offs' fl'
      ∧ HdrsAlike A B (splitAt a (endLink none l₁) o need mark)
          (splitAt b (endLink none l₁) o need mark) offs' := by
  obtain ⟨offs', hs', he, -⟩ := splitAt_shape hs hdvd h32 hrem hmark
  have homem : o ∈ offs := hs.mem_offs (by simp)
  have hsz := h.size_at homem
  refine ⟨offs', _, he.new.1, hs', h.relink (splitAt_relinks ..) (splitAt_relinks ..)
    fun x hx => ?_⟩
  have hpos : 0 < need := by omega
  rw [splitAt_hdr hs hdvd hpos (by omega) hmark (hs'.dvd hx),
    splitAt_hdr (h.shape hs) hdvd hpos (by omega) hmark (hs'.dvd hx), hsz, h.hdr o homem]
  split <;> rename_i hxo
  · rfl
  split <;> rename_i hxt
  · rfl
  have hold : x ∈ offs := by
    rcases he.mem_cases hs' hx with hx' | hx' | hx'
    · exact absurd hx' hxo
    · exact hx'
    · refine hs.mem_offs ?_
      simp only [mem_append, mem_cons] at hx' ⊢
      tauto
  rw [h.hdr x hold]

theorem HdrsAlike.whole (hs : Shape a offs (l₁ ++ o :: l₂)) (hmark : mark < 2 ^ 32) :
    ∃ offs' fl', o ∈ offs' ∧ Shape (takeWhole a (endLink none l₁) o mark) offs' fl'
      ∧ HdrsAlike A B (takeWhole a (endLink none l₁) o mark)
          (takeWhole b (endLink none l₁) o mark) offs' := by
  obtain ⟨hs', -⟩ := takeWhole_shape hs hmark
  have homem : o ∈ offs := hs.mem_offs (by simp)
  have hlink : b.link (some o) = a.link (some o) := congrArg BlkHdr.next (h.hdr o homem)
  refine ⟨offs, _, homem, hs', h.relink (takeWhole_relinks ..) (hlink ▸ takeWhole_relinks ..)
    fun x hx => ?_⟩
  rw [takeWhole_hdr hs hmark (hs.dvd hx), takeWhole_hdr (h.shape hs) hmark (hs.dvd hx),
    h.size_at homem, hlink, h.hdr x hx]

end

variable {fl : List Nat}

theorem HdrsAlike.bumped (h : HdrsAlike A B a b offs) (hs : Shape a offs fl) :
    HdrsAlike A B (bumpAt a need mark) (bumpAt b need mark) (offs ++ [a.bump]) := by
  have hb : 16 ∣ a.bump := hs.dvd_hi
  refine ⟨h.base, h.base', h.size, ?_, h.freeHead, h.ready, h.acct, fun x hx => ?_⟩
  · simp only [bumpAt, h.bump]
  · have hx' : x ∈ offs ∨ x = a.bump := by simpa using hx
    have hx16 : 16 ∣ x := hx'.elim hs.dvd fun he => he ▸ hb
    simp only [bumpAt, h.bump, hdrAt_setAll hb hx16]
    split <;> rename_i hxb
    · rfl
    · rw [h.hdr x (hx'.resolve_right hxb)]

theorem HdrsAlike.push (h : HdrsAlike A B a b offs) (hs : Shape a offs fl)
    (hu : a.view.InUse offs o) : HdrsAlike A B (pushFree a o) (pushFree b o) offs := by
  have ho := hs.dvd hu.1
  refine ⟨h.base, h.base', h.size, h.bump, rfl, h.ready, h.acct, fun x hx => ?_⟩
  have hx16 := hs.dvd hx
  simp only [pushFree, hdrAt_setNext ho hx16, hdrAt_setFree ho ho, hdrAt_setFree ho hx16,
    h.hdr x hx, h.hdr o hu.1, h.freeHead]

theorem HdrsAlike.merge {o₁ o₂ : List Nat} {p : Nat} (h : HdrsAlike A B a b (o₁ ++ o :: p :: o₂))
    (hs : Shape a (o₁ ++ o :: p :: o₂) (l₁ ++ p :: l₂)) (hofr : blkFree a o ≠ 0) :
    Shape (mergeNext a (endLink none l₁) o p) (o₁ ++ o :: o₂) (l₁ ++ l₂)
      ∧ HdrsAlike A B (mergeNext a (endLink none l₁) o p) (mergeNext b (endLink none l₁) o p)
          (o₁ ++ o :: o₂) := by
  obtain ⟨hs', -⟩ := mergeNext_shape hs hofr
  have hp : p ∈ o₁ ++ o :: p :: o₂ := by simp
  have ho : o ∈ o₁ ++ o :: p :: o₂ := by simp
  have hlink : ∀ x ∈ o₁ ++ o :: p :: o₂, b.link (some x) = a.link (some x) := fun x hx =>
    congrArg BlkHdr.next (h.hdr x hx)
  have hpo : p ≠ o := by
    obtain ⟨mid, -, rfl, hpos, rfl, -, -⟩ := tiles_append.mp hs.tiles
    omega
  refine ⟨hs', h.relink (mergeNext_relinks ..) (hlink p hp ▸ mergeNext_relinks ..) fun x hx => ?_⟩
  have hmem : x ∈ o₁ ++ o :: p :: o₂ := by
    simp only [mem_append, mem_cons] at hx ⊢
    tauto
  have hxp : x ≠ p := by
    rintro rfl
    have hnd := tiles_nodup hs.tiles
    rw [append_cons] at hnd
    refine (nodup_cons.mp (nodup_middle.mp hnd)).1 ?_
    simp only [mem_append, mem_cons, not_mem_nil] at hx ⊢
    tauto
  rw [mergeNext_hdr hs hpo (hs.dvd hmem) hxp, mergeNext_hdr (h.shape hs) hpo (hs.dvd hmem) hxp,
    h.hdr x hmem, h.size_at ho, h.size_at hp, h.size_at hmem, hlink p hp, hlink x hmem]

end Edits

/-! ## The calls -/

/-- `NULL` in both regions, or the payload of the same block. -/
def SamePtr (A B p q : Nat) : Prop :=
  (p = 0 ∧ q = 0) ∨ ∃ o, p = A + o + hdrSize ∧ q = B + o + hdrSize

variable {A B p q : Nat} {op : ArenaOp} {limit : Nat}

theorem SamePtr.null_iff (h : SamePtr A B p q) : q = 0 ↔ p = 0 := by
  unfold SamePtr hdrSize at h
  obtain h | ⟨o, h⟩ := h <;> omega

theorem SamePtr.eq_iff {p' q' : Nat} (h : SamePtr A B p q) (h' : SamePtr A B p' q') :
    q = q' ↔ p = p' := by
  unfold SamePtr hdrSize at h h'
  obtain h | ⟨o, h⟩ := h <;> obtain h' | ⟨o', h'⟩ := h' <;> omega

theorem SamePtr.payload {o : Nat} (h : SamePtr A B p q) (hp : p = A + o + hdrSize) :
    q = B + o + hdrSize := (h.eq_iff (.inr ⟨o, rfl, rfl⟩)).mpr hp

/-- The arenas are alike once they are set up. -/
def Twins (A B : Nat) (a b : Arena) : Prop :=
  ∃ offs fl, Shape (ensureReady a) offs fl ∧ HdrsAlike A B (ensureReady a) (ensureReady b) offs

section Calls

variable {A B : Nat} {a b : Arena} {offs fl : List Nat}

theorem Twins.of_ready (hr : a.ready = true) (hs : Shape a offs fl) (h : HdrsAlike A B a b offs) :
    Twins A B a b := by
  refine ⟨offs, fl, ?_, ?_⟩
  · rwa [ensureReady_of_ready hr]
  · rwa [ensureReady_of_ready hr, ensureReady_of_ready (h.ready.trans hr)]

/-- What both arenas give a caller who asks the same of them. -/
structure SameResult (A B : Nat) (r r' : Nat × Arena) : Prop where
  ptr : SamePtr A B r.1 r'.1
  twins : Twins A B r.2 r'.2

theorem SameResult.refused (h : Twins A B a b) : SameResult A B (0, a) (0, b) :=
  ⟨.inl ⟨rfl, rfl⟩, h⟩

variable {o need : Nat}

theorem HdrsAlike.served (h : HdrsAlike A B a b offs) (hs : Shape a offs fl) (hr : a.ready = true)
    {p q : Nat} (hp : p = A + o + hdrSize) (hq : q = B + o + hdrSize) :
    SameResult A B (p, a) (q, b) := ⟨.inr ⟨o, hp, hq⟩, Twins.of_ready hr hs h⟩

theorem takeBump_eq (a : Arena) (need mark : Nat) (noacct : Bool) :
    takeBump a need mark noacct = if a.size < a.bump + need then (0, a)
      else if !noacct && !capAllows a need then (0, a)
      else (a.base + a.bump + hdrSize, charge (bumpAt a need mark) noacct need) := by
  unfold takeBump
  split
  · rfl
  · split
    · rfl
    · cases noacct <;> rfl

theorem HdrsAlike.takeBump (h : HdrsAlike A B a b offs) (hs : Shape a offs fl) (hr : a.ready = true)
    (noacct : Bool) (h32 : 32 ≤ need) (hdvd : 16 ∣ need) :
    SameResult A B (takeBump a need (markOf noacct) noacct)
      (takeBump b need (markOf noacct) noacct) := by
  have hspec := takeBump_spec noacct hs h32 hdvd
  rw [takeBump_eq] at hspec
  rw [takeBump_eq, takeBump_eq, h.size, h.bump, h.cap]
  split <;> rename_i hfit
  · exact .refused (.of_ready hr hs h)
  split <;> rename_i hcap
  · exact .refused (.of_ready hr hs h)
  rw [if_neg hfit, if_neg hcap] at hspec
  obtain ⟨a', ha', hs'⟩ : ∃ a', charge (bumpAt a need (markOf noacct)) noacct need = a'
      ∧ Shape a' (offs ++ [a.bump]) fl := by
    rcases hspec with hno | ⟨a', hr', hs', -⟩
    · exact absurd (congrArg Prod.fst hno) (by unfold hdrSize; simp)
    · exact ⟨a', congrArg Prod.snd hr', hs'⟩
  rw [h.base, h.base']
  refine (HdrsAlike.charged (h.bumped hs) noacct rfl).served (ha' ▸ hs') ?_ rfl rfl
  rw [charge_ready]
  exact hr

theorem HdrsAlike.takeFit {l₁ l₂ : List Nat} (h : HdrsAlike A B a b offs)
    (hs : Shape a offs (l₁ ++ o :: l₂)) (hr : a.ready = true) (noacct : Bool)
    (hle : need ≤ blkSize a o) (h32 : 32 ≤ need) (hdvd : 16 ∣ need) :
    SameResult A B (takeFit a (endLink none l₁) need (markOf noacct) noacct)
      (takeFit b (endLink none l₁) need (markOf noacct) noacct) := by
  have homem : o ∈ offs := hs.mem_offs (by simp)
  have hsz := h.size_at homem
  have hm := markOf_lt noacct
  rw [takeFit_eq hs hle, takeFit_eq (h.shape hs) (hsz ▸ hle)]
  simp only [hsz, h.cap, h.base, h.base']
  by_cases hsp : 32 ≤ blkSize a o - need
  · simp only [hsp, decide_true, if_true]
    split
    · exact .refused (.of_ready hr hs h)
    · obtain ⟨offs', fl', ho', hs', h'⟩ := h.split hs hdvd h32 (by omega) hm
      refine (h'.charged noacct (h'.size_at ho')).served (hs'.charge _ _) ?_ rfl rfl
      rw [charge_ready, (splitAt_relinks ..).ready, hr]
  · simp only [hsp, decide_false, Bool.false_eq_true, if_false]
    split
    · exact .refused (.of_ready hr hs h)
    · obtain ⟨offs', fl', ho', hs', h'⟩ := h.whole hs hm
      refine (h'.charged noacct (h'.size_at ho')).served (hs'.charge _ _) ?_ rfl rfl
      rw [charge_ready, (takeWhole_relinks ..).ready, hr]

theorem Twins.mallocCore (h : Twins A B a b) (hAB : A = 0 ↔ B = 0) {n : Nat} (noacct : Bool)
    (hn : n + 31 < 2 ^ 32) : ∃ r r', arenaMallocCore a n noacct = some r
      ∧ arenaMallocCore b n noacct = some r' ∧ SameResult A B r r' := by
  have htwins := h
  obtain ⟨offs, fl, hs, h⟩ := h
  obtain ⟨-, h32, hdvd⟩ := needOf_spec hn
  have hnull : (b.base = 0 ∨ b.size = 0) ↔ a.base = 0 ∨ a.size = 0 := by
    have hbase := h.base
    have hbase' := h.base'
    have hsize := h.size
    rw [ensureReady_base] at hbase hbase'
    rw [ensureReady_size, ensureReady_size] at hsize
    rw [hbase, hbase', hsize, hAB]
  simp only [arenaMallocCore, hnull]
  split
  · exact ⟨_, _, rfl, rfl, .refused htwins⟩
  have hready := ensureReady_ready a
  generalize ensureReady a = a at *
  generalize ensureReady b = b at *
  -- both walks come to the same link
  have hfind : findLink b.link arenaNone (fun o => decide (needOf n ≤ (hdrAt b.mem o).size))
        loopFuel none
      = findLink a.link arenaNone (fun o => decide (needOf n ≤ (hdrAt a.mem o).size))
        loopFuel none :=
    findLink_congr hs.chain hs.fuel (h.link hs) fun x hx => by rw [h.hdr x (hs.mem_offs hx)]
  simp only [hfind]
  rcases findLink_chain (fun o => decide (needOf n ≤ (hdrAt a.mem o).size)) hs.chain hs.fuel with
    ⟨hf, -⟩ | ⟨l₁, o, l₂, rfl, hf, hfit, -⟩
  · have hf' : findLink a.link arenaNone _ loopFuel none = .absent := hf
    simp only [hf']
    exact ⟨_, _, rfl, rfl, h.takeBump hs hready noacct h32 hdvd⟩
  · have hf' : findLink a.link arenaNone _ loopFuel none = .at _ := hf
    simp only [hf']
    exact ⟨_, _, rfl, rfl, h.takeFit hs hready noacct (of_decide_eq_true hfit) h32 hdvd⟩

section

variable (h : HdrsAlike A B a b offs)
include h

theorem HdrsAlike.coalesce (hs : Shape a offs fl) (ho : o ∈ offs) (hofr : blkFree a o ≠ 0) :
    ∃ a' b' offs' fl', coalesceForward a o = some a' ∧ coalesceForward b o = some b'
      ∧ a'.ready = a.ready ∧ Shape a' offs' fl' ∧ HdrsAlike A B a' b' offs' := by
  have hsb := h.shape hs
  have hsz := h.size_at ho
  -- a free block behind `o` in one arena is one in the other
  have hnone : ∀ {p} {o1 o2 l₁ l₂ : List Nat}, offs = o1 ++ o :: p :: o2 → fl = l₁ ++ p :: l₂ →
      p = o + blkSize a o → ¬ (a.bump ≤ o + blkSize a o ∨ blkFree a (o + blkSize a o) = 0) := by
    intro p o1 o2 l₁ l₂ hoffs hfl hp hno
    obtain ⟨hmem, hfree⟩ := (hs.mem_fl p).mp (by simp [hfl])
    have hend : p + blkSize a p ≤ a.bump := hs.end_le hmem
    have hpos : 0 < blkSize a p := hs.pos hmem
    rw [← hp] at hno
    exact hno.elim (fun hle => by omega) hfree
  rcases coalesceForward_cases hs ho with ⟨hc, hno⟩ | ⟨o1, p, o2, l₁, l₂, hoffs, hfl, hp, hc⟩
  · refine ⟨a, b, offs, fl, hc, ?_, rfl, hs, h⟩
    rcases coalesceForward_cases hsb ho with ⟨hc', -⟩ | ⟨o1, p, o2, l₁, l₂, hoffs, hfl, hp, -⟩
    · exact hc'
    · exact absurd hno (hnone hoffs hfl (hsz ▸ hp))
  · rcases coalesceForward_cases hsb ho with ⟨-, hno⟩ | ⟨-, p', -, l1', l2', -, hfl', hp', hc'⟩
    · rw [hsz, h.bump, blkFree, h.hdr _ (by rw [← hp, hoffs]; simp)] at hno
      exact absurd hno (hnone hoffs hfl hp)
    · obtain rfl : p' = p := by rw [hp, hp', hsz]
      have hl : l1' = l₁ := by
        have hnd := hs.nodup
        rw [hfl] at hnd hfl'
        have hnot : p' ∉ l₁ ++ l₂ := (nodup_cons.mp (nodup_middle.mp hnd)).1
        exact ((append_cons_inj_of_notMem (fun hm => hnot (by simp [hm]))
          (fun hm => hnot (by simp [hm]))).mp hfl').1.symm
      subst hl hoffs hfl
      obtain ⟨hs', h'⟩ := h.merge hs hofr
      exact ⟨_, _, _, _, hc, hc', (mergeNext_relinks ..).ready, hs', h'⟩

theorem HdrsAlike.free (hs : Shape a offs fl) (hr : a.ready = true) (hu : a.view.InUse offs o) :
    ∃ a' b', arenaFree a (A + o + hdrSize) = some a' ∧ arenaFree b (B + o + hdrSize) = some b'
      ∧ Twins A B a' b' := by
  have hd := hs.discharge o
  have hu' : (discharge a o).view.InUse offs o := by rwa [discharge_view]
  obtain ⟨hp, -⟩ := pushFree_shape hd hu'
  have hofr := ((hp.mem_fl o).mp mem_cons_self).2
  obtain ⟨a', b', offs', fl', hc, hc', hready, hs', h'⟩ :=
    ((h.discharged hu.1).push hd hu').coalesce hp hu.1 hofr
  have hf := arenaFree_inUse hs hu
  have hf' := arenaFree_inUse (h.shape hs) (h.inUse hu)
  rw [h.base] at hf
  rw [h.base'] at hf'
  refine ⟨a', b', hf.trans hc, hf'.trans hc', Twins.of_ready (hready.trans ?_) hs' h'⟩
  unfold discharge
  split <;> exact hr

/-- Bytes inside one block's payload may change in both arenas, each in its own way. -/
theorem HdrsAlike.write (hs : Shape a offs fl) (ho : o ∈ offs)
    {m w : ByteMem} (hm : ∀ x, x < o + hdrSize ∨ o + blkSize a o ≤ x → m x = a.mem x)
    (hm' : ∀ x, x < o + hdrSize ∨ o + blkSize a o ≤ x → w x = b.mem x) :
    Shape { a with mem := m } offs fl
      ∧ HdrsAlike A B { a with mem := m } { b with mem := w } offs := by
  have hhdr := hs.hdr_of_payload ho hm
  have hhdr' := (h.shape hs).hdr_of_payload ho (by rwa [h.size_at ho])
  refine ⟨(hs.setMem hhdr).1, h.base, h.base', h.size, h.bump, h.freeHead, h.ready, h.acct, ?_⟩
  intro x hx
  exact (hhdr' x hx).trans ((h.hdr x hx).trans (hhdr x hx).symm)

end

end Calls

/-! ## The heaps -/

structure SameBlock (A B : Nat) (x y : LiveBlock) : Prop where
  ptr : SamePtr A B x.ptr y.ptr
  req : y.req = x.req
  accounted : y.accounted = x.accounted

structure TwinHeaps (A B : Nat) (s t : HeapState) : Prop where
  inv : HeapInv s
  inv' : HeapInv t
  twins : Twins A B s.arena t.arena
  live : List.Forall₂ (SameBlock A B) s.live t.live

section Heaps

variable {A B : Nat} {s t : HeapState}
  {p q n : Nat} {acct : Bool} {l l' : List LiveBlock} {x : LiveBlock}

section

variable (h : SamePtr A B p q)
include h

theorem SamePtr.addLive (hl : List.Forall₂ (SameBlock A B) l l') :
    List.Forall₂ (SameBlock A B) (addLive p n acct l) (addLive q n acct l') := by
  simp only [Blyt.addLive, h.null_iff]
  split
  · exact hl
  · exact .cons ⟨h, rfl, rfl⟩ hl

theorem SamePtr.dropLive (hl : List.Forall₂ (SameBlock A B) l l') :
    List.Forall₂ (SameBlock A B) (dropLive p l) (dropLive q l') :=
  forall₂_eraseP (fun _ _ hxy => decide_eq_decide.mpr (hxy.ptr.eq_iff h)) hl

theorem SamePtr.resizeLive (hl : List.Forall₂ (SameBlock A B) l l') :
    List.Forall₂ (SameBlock A B) (resizeLive p n l) (resizeLive q n l') := by
  unfold Blyt.resizeLive
  rw [forall₂_map_left_iff, forall₂_map_right_iff]
  refine hl.imp fun x y hxy => ?_
  simp only [hxy.ptr.eq_iff h]
  split
  · exact ⟨hxy.ptr, rfl, hxy.accounted⟩
  · exact hxy

theorem SamePtr.reallocLive {p' q' : Nat} (h' : SamePtr A B p' q')
    (hl : List.Forall₂ (SameBlock A B) l l') :
    List.Forall₂ (SameBlock A B) (reallocLive p n p' acct l) (reallocLive q n q' acct l') := by
  unfold Blyt.reallocLive
  simp only [h.null_iff, h'.null_iff, h'.eq_iff h]
  split_ifs
  · exact h'.addLive hl
  · exact h.dropLive hl
  · exact hl
  · exact h.resizeLive hl
  · exact .cons ⟨h', rfl, rfl⟩ (h.dropLive hl)

end

section

variable (h : TwinHeaps A B s t)
include h

theorem TwinHeaps.partner (hx : x ∈ s.live) : ∃ y ∈ t.live, SameBlock A B x y := by
  obtain ⟨i, hi⟩ := getElem?_of_mem hx
  obtain ⟨y, hy, hxy⟩ := forall₂_getElem? h.live hi
  exact ⟨y, mem_of_getElem? hy, hxy⟩

theorem TwinHeaps.of_live (hx : x ∈ s.live) :
    s.arena.ready = true ∧ ∃ offs fl o, Shape s.arena offs fl ∧ HdrsAlike A B s.arena t.arena offs
      ∧ Backs s.arena offs x o := by
  obtain ⟨hready, offs, fl, o, hs, -, ho⟩ := h.inv.of_live hx
  obtain ⟨y, hy, -⟩ := h.partner hx
  obtain ⟨hready', -⟩ := h.inv'.of_live hy
  obtain ⟨offs', fl', hs', hab⟩ := h.twins
  rw [ensureReady_of_ready hready] at hs' hab
  rw [ensureReady_of_ready hready'] at hab
  obtain rfl := tiles_unique hs.tiles hs'.tiles
  exact ⟨hready, offs, fl', o, hs', hab, ho⟩

theorem TwinHeaps.mallocCore (hAB : A = 0 ↔ B = 0) (noacct : Bool) (hn : n + 31 < 2 ^ 32) :
    ∃ p q a b, arenaMallocCore s.arena n noacct = some (p, a)
      ∧ arenaMallocCore t.arena n noacct = some (q, b) ∧ SamePtr A B p q
      ∧ TwinHeaps A B ⟨a, addLive p n (!noacct) s.live⟩ ⟨b, addLive q n (!noacct) t.live⟩ := by
  obtain ⟨⟨p, a⟩, ⟨q, b⟩, hr, hr', hptr, htwins⟩ := h.twins.mallocCore hAB noacct hn
  obtain ⟨p', a', hc, hi, -⟩ := h.inv.mallocCore noacct hn
  obtain ⟨q', b', hc', hi', -⟩ := h.inv'.mallocCore noacct hn
  cases hr.symm.trans hc
  cases hr'.symm.trans hc'
  exact ⟨p, q, a, b, hr, hr', hptr, hi, hi', htwins, hptr.addLive h.live⟩

theorem TwinHeaps.free (hp : NullOrLive s p) (hq : NullOrLive t q) (hpq : SamePtr A B p q) :
    ∃ a b, arenaFree s.arena p = some a ∧ arenaFree t.arena q = some b
      ∧ TwinHeaps A B ⟨a, dropLive p s.live⟩ ⟨b, dropLive q t.live⟩ := by
  obtain ⟨a', hf, hi, -⟩ := h.inv.free hp
  obtain ⟨b', hf', hi', -⟩ := h.inv'.free hq
  refine ⟨a', b', hf, hf', hi, hi', ?_, hpq.dropLive h.live⟩
  by_cases hp0 : p = 0
  · cases hf.symm.trans (if_pos hp0)
    cases hf'.symm.trans (if_pos (hpq.null_iff.mpr hp0))
    exact h.twins
  · obtain ⟨x, hx, rfl⟩ := hp.resolve_left hp0
    obtain ⟨hready, offs, fl, o, hs, hab, ho⟩ := h.of_live hx
    obtain ⟨a, b, ha, hb, htwins⟩ := hab.free hs hready ho.inUse
    have hxo := hab.base ▸ ho.ptr
    rw [hxo, ha] at hf
    rw [hpq.payload hxo, hb] at hf'
    cases hf
    cases hf'
    exact htwins

/-- The payloads of one block change in both, each in its own way. -/
theorem TwinHeaps.write {y : LiveBlock} (hx : x ∈ s.live)
    (hy : y ∈ t.live) (hxy : SameBlock A B x y) {m w : ByteMem}
    (hm : ∀ k, k < x.ptr - s.arena.base ∨ x.ptr - s.arena.base + x.req ≤ k → m k = s.arena.mem k)
    (hm' : ∀ k, k < y.ptr - t.arena.base ∨ y.ptr - t.arena.base + y.req ≤ k →
      w k = t.arena.mem k) :
    TwinHeaps A B ⟨{ s.arena with mem := m }, s.live⟩ ⟨{ t.arena with mem := w }, t.live⟩ := by
  refine ⟨h.inv.write hx hm, h.inv'.write hy hm', ?_, h.live⟩
  obtain ⟨hready, offs, fl, o, hs, hab, ho⟩ := h.of_live hx
  have hxo := hab.base ▸ ho.ptr
  have hyo := hxy.ptr.payload hxo
  have hreq := ho.req
  rw [hab.base] at hm
  rw [hab.base', hxy.req] at hm'
  obtain ⟨hs', hab'⟩ := hab.write hs ho.inUse.1 (fun k hk => hm k (by unfold hdrSize at *; omega))
    (fun k hk => hm' k (by unfold hdrSize at *; omega))
  exact Twins.of_ready hready hs' hab'

end

theorem TwinHeaps.realloc (h : TwinHeaps A B s t) (hAB : A = 0 ↔ B = 0) (noacct : Bool)
    (hn : n + 31 < 2 ^ 32) (hp : NullOrLive s p) (hq : NullOrLive t q) (hpq : SamePtr A B p q) :
    ∃ p' q' a b, arenaReallocCore s.arena p n noacct = some (p', a)
      ∧ arenaReallocCore t.arena q n noacct = some (q', b) ∧ SamePtr A B p' q'
      ∧ TwinHeaps A B ⟨a, reallocLive p n p' (!noacct) s.live⟩
          ⟨b, reallocLive q n q' (!noacct) t.live⟩ := by
  suffices hsame : ∃ p' q' a b, arenaReallocCore s.arena p n noacct = some (p', a)
      ∧ arenaReallocCore t.arena q n noacct = some (q', b) ∧ SamePtr A B p' q' ∧ Twins A B a b by
    obtain ⟨p', q', a, b, hr, hr', hpq', htwins⟩ := hsame
    obtain ⟨_, _, hc, hi, -⟩ := h.inv.realloc noacct hn hp
    obtain ⟨_, _, hc', hi', -⟩ := h.inv'.realloc noacct hn hq
    cases hr.symm.trans hc
    cases hr'.symm.trans hc'
    exact ⟨p', q', a, b, hr, hr', hpq', hi, hi', htwins, hpq.reallocLive hpq' h.live⟩
  simp only [arenaReallocCore, hpq.null_iff]
  split <;> rename_i hp0
  · obtain ⟨p1, q1, a1, b1, hm, hm', hpq', h'⟩ := h.mallocCore hAB noacct hn
    exact ⟨p1, q1, a1, b1, hm, hm', hpq', h'.twins⟩
  split
  · obtain ⟨a1, b1, hf, hf', h'⟩ := h.free hp hq hpq
    rw [hf, hf']
    exact ⟨0, 0, a1, b1, rfl, rfl, .inl ⟨rfl, rfl⟩, h'.twins⟩
  obtain ⟨x, hx, rfl⟩ := hp.resolve_left hp0
  obtain ⟨-, offs, fl, o, hs, hab, ho⟩ := h.of_live hx
  have hxo := hab.base ▸ ho.ptr
  have hoff : hdrOff t.arena q = o := by
    rw [hpq.payload hxo, ← hab.base', hdrOff_payload]
  -- the capacity is read from the header
  rw [hoff, hab.hdr o ho.inUse.1, ← ho.hdrOff]
  simp only [ho.cap hs]
  split
  · exact ⟨_, _, _, _, rfl, rfl, hpq, h.twins⟩
  obtain ⟨p1, q1, a1, b1, hm, hm', hpq1, h1⟩ := h.mallocCore hAB noacct hn
  simp only [hm, hm', hpq1.null_iff]
  split <;> rename_i hp1
  · exact ⟨0, 0, a1, b1, rfl, rfl, .inl ⟨rfl, rfl⟩, h1.twins⟩
  rw [addLive, addLive, if_neg hp1, if_neg (mt hpq1.null_iff.mp hp1)] at h1
  have hcopy := h1.write mem_cons_self mem_cons_self ⟨hpq1, rfl, rfl⟩
    (m := copyBytes a1.mem (p1 - a1.base) (x.ptr - a1.base) (blkSize s.arena o - hdrSize))
    (w := copyBytes b1.mem (q1 - b1.base) (q - b1.base) (blkSize s.arena o - hdrSize))
    (fun k hk => copyBytes_outside (by simp only at hk; omega))
    (fun k hk => copyBytes_outside (by simp only at hk; omega))
  have hlive : q = 0 ∨ ∃ y ∈ ⟨q1, n, !noacct⟩ :: t.live, y.ptr = q := by
    obtain ⟨y, hy, hyq⟩ := hq.resolve_left (mt hpq.null_iff.mp hp0)
    exact .inr ⟨y, mem_cons_of_mem _ hy, hyq⟩
  obtain ⟨a2, b2, hf, hf', h2⟩ := hcopy.free (.inr ⟨x, mem_cons_of_mem _ hx, rfl⟩) hlive hpq
  rw [hf, hf']
  exact ⟨p1, q1, a2, b2, rfl, rfl, hpq1, h2.twins⟩

theorem TwinHeaps.calloc (h : TwinHeaps A B s t) (hAB : A = 0 ↔ B = 0) {sizeMax : Nat}
    (hsm : 2 ^ 32 ≤ sizeMax + 1) {nmemb sz : Nat} (hn : nmemb * sz + 31 < 2 ^ 32) :
    ∃ p q a b, arenaCalloc sizeMax s.arena nmemb sz = some (p, a)
      ∧ arenaCalloc sizeMax t.arena nmemb sz = some (q, b) ∧ SamePtr A B p q
      ∧ TwinHeaps A B ⟨a, addLive p (nmemb * sz) true s.live⟩
          ⟨b, addLive q (nmemb * sz) true t.live⟩ := by
  unfold arenaCalloc
  split
  · exact ⟨0, 0, _, _, rfl, rfl, .inl ⟨rfl, rfl⟩, h⟩
  rw [Nat.mod_eq_of_lt (by omega)]
  obtain ⟨p, q, a, b, hm, hm', hpq, h'⟩ := h.mallocCore hAB false hn
  simp only [arenaMalloc, hm, hm', map_some, addLive, hpq.null_iff] at h' ⊢
  split <;> rename_i hp
  · rw [if_pos hp, if_pos hp] at h'
    exact ⟨0, 0, a, b, rfl, rfl, .inl ⟨rfl, rfl⟩, h'⟩
  · refine ⟨p, q, _, _, rfl, rfl, hpq, ?_⟩
    rw [if_neg hp, if_neg hp] at h'
    rw [if_neg hp, if_neg (mt hpq.null_iff.mp hp)]
    exact h'.write mem_cons_self mem_cons_self ⟨hpq, rfl, rfl⟩
      (fun k hk => fill_outside (by simpa using hk)) (fun k hk => fill_outside (by simpa using hk))

end Heaps

/-! ## Calls by offset -/

/-- The pointer to offset `x` of the region at `base`; no payload is at offset 0. -/
def ptrAt (base x : Nat) : Nat := if x = 0 then 0 else base + x

/-- The call with its pointer given as an offset. -/
def ArenaOp.based (base : Nat) : ArenaOp → ArenaOp
  | .realloc x n => .realloc (ptrAt base x) n
  | .reallocNoacct x n => .reallocNoacct (ptrAt base x) n
  | .free x => .free (ptrAt base x)
  | .store x i v => .store (ptrAt base x) i v
  | op => op

def offsetStep (sizeMax : Nat) (s : HeapState) (op : ArenaOp) : Option HeapState :=
  heapStep sizeMax s (op.based s.arena.base)

def offsetAdmissible (limit : Nat) (s : HeapState) (op : ArenaOp) : Prop :=
  (op.based s.arena.base).Admissible limit s

instance (limit : Nat) (s : HeapState) (op : ArenaOp) : Decidable (offsetAdmissible limit s op) :=
  inferInstanceAs (Decidable ((op.based s.arena.base).Admissible limit s))

/-- What a call shows: the offset it returns, 0 for `NULL`, and `guest_heap_used` after it. -/
structure ArenaSeen where
  offset : Option Nat
  used : Option Nat
  deriving DecidableEq, Repr

def arenaCall (sizeMax : Nat) (s : HeapState) (op : ArenaOp) : Option (HeapState × ArenaSeen) :=
  (offsetStep sizeMax s op).map fun s' =>
    let answer := (op.based s.arena.base).answer sizeMax s
    (s', ⟨answer.map fun p => if p = 0 then 0 else p - s.arena.base,
      s'.arena.acct.map MemAccounting.guestHeapUsed⟩)

def arenaShows (sizeMax : Nat) (a : Arena) (ops : List ArenaOp) : List (Option ArenaSeen) :=
  showsOf (arenaCall sizeMax) ⟨a, []⟩ ops

section Offsets

variable {A B sizeMax limit : Nat} {s t : HeapState}

theorem TwinHeaps.bases (h : TwinHeaps A B s t) : s.arena.base = A ∧ t.arena.base = B := by
  obtain ⟨offs, fl, -, hab⟩ := h.twins
  exact ⟨(ensureReady_base _).symm.trans hab.base, (ensureReady_base _).symm.trans hab.base'⟩

theorem TwinHeaps.used (h : TwinHeaps A B s t) :
    t.arena.acct.map MemAccounting.guestHeapUsed
      = s.arena.acct.map MemAccounting.guestHeapUsed := by
  obtain ⟨offs, fl, -, hab⟩ := h.twins
  have hacct := congrArg (Option.map Prod.fst) hab.acct
  rw [ensureReady_acct, ensureReady_acct, Option.map_map, Option.map_map] at hacct
  exact hacct

variable {p q : Nat} {a b : Arena} {op : ArenaOp}

theorem SamePtr.offset (h : SamePtr A B p q) :
    (if q = 0 then 0 else q - B) = if p = 0 then 0 else p - A := by
  simp only [h.null_iff]
  obtain ⟨rfl, rfl⟩ | ⟨o, rfl, rfl⟩ := h
  · rfl
  · split <;> omega

theorem TwinHeaps.held (h : TwinHeaps A B s t) {b : LiveBlock} (hb : b ∈ s.live) {x : Nat}
    (hbx : b.ptr = A + x) : (∃ c ∈ t.live, c.ptr = B + x) ∧ SamePtr A B (A + x) (B + x) := by
  obtain ⟨-, offs, fl, o, -, hab, ho⟩ := h.of_live hb
  obtain ⟨c, hc, hbc⟩ := h.partner hb
  have hbo := hab.base ▸ ho.ptr
  have hcx : c.ptr = B + x := by
    rw [hbc.ptr.payload hbo]
    omega
  refine ⟨⟨c, hc, hcx⟩, ?_⟩
  rw [← hbx, ← hcx]
  exact hbc.ptr

/-- An offset that is admissible in one heap names the same block in the other. -/
theorem TwinHeaps.ptr (h : TwinHeaps A B s t) {x : Nat} (hx : NullOrLive s (ptrAt A x)) :
    NullOrLive t (ptrAt B x) ∧ SamePtr A B (ptrAt A x) (ptrAt B x) := by
  by_cases hx0 : x = 0
  · simp only [ptrAt, hx0, if_true]
    exact ⟨.inl rfl, .inl ⟨rfl, rfl⟩⟩
  · simp only [ptrAt, if_neg hx0] at hx ⊢
    obtain ⟨b, hb, hbx⟩ := hx.resolve_left (by omega)
    exact (h.held hb hbx).imp_left .inr

structure SameStep (A B sizeMax : Nat) (s t : HeapState) (op : ArenaOp) (s' t' : HeapState) :
    Prop where
  left : heapStep sizeMax s (op.based A) = some s'
  right : heapStep sizeMax t (op.based B) = some t'
  answer : ((op.based B).answer sizeMax t).map (fun q => if q = 0 then 0 else q - B)
    = ((op.based A).answer sizeMax s).map fun p => if p = 0 then 0 else p - A
  twins : TwinHeaps A B s' t'

theorem TwinHeaps.fresh (ha : a.Fresh) (hb : b.Fresh) (hsize : b.size = a.size)
    (hacct : b.acct.map figures = a.acct.map figures) :
    TwinHeaps a.base b.base ⟨a, []⟩ ⟨b, []⟩ := by
  refine ⟨ha.heapInv, hb.heapInv, ?_, .nil⟩
  have he : ∀ c : Arena, c.ready = false →
      ensureReady c = { c with bump := 0, freeHead := arenaNone, ready := true } :=
    fun c hc => if_neg (by simp [hc])
  refine ⟨[], [], ?_, ?_⟩
  · rw [he a ha.1]
    exact ⟨⟨rfl, by simp, by simp, Nat.zero_le _, rfl, nodup_nil, by simp⟩, Nat.zero_le _⟩
  · rw [he a ha.1, he b hb.1]
    exact ⟨rfl, rfl, hsize, rfl, rfl, rfl, hacct, by simp⟩

theorem TwinHeaps.reset (h : TwinHeaps A B s t) :
    TwinHeaps A B ⟨arenaReset s.arena, []⟩ ⟨arenaReset t.arena, []⟩ := by
  obtain ⟨hA, hB⟩ := h.bases
  obtain ⟨offs, fl, -, hab⟩ := h.twins
  have hsize := hab.size
  have hacct := hab.acct
  rw [ensureReady_size, ensureReady_size] at hsize
  rw [ensureReady_acct, ensureReady_acct] at hacct
  have hnew := TwinHeaps.fresh (Arena.Fresh.reset s.arena) (Arena.Fresh.reset t.arena) hsize
    (figures_used (f := fun _ => 0) hacct)
  rwa [show (arenaReset s.arena).base = A from hA, show (arenaReset t.arena).base = B from hB]
    at hnew

theorem SameStep.of_calls {r r' : Option (Nat × Arena)} (live live' : Nat → List LiveBlock)
    (hr : r = some (p, a)) (hr' : r' = some (q, b)) (hpq : SamePtr A B p q)
    (h : TwinHeaps A B ⟨a, live p⟩ ⟨b, live' q⟩)
    (hs : heapStep sizeMax s (op.based A) = r.map fun (p, a) => ⟨a, live p⟩)
    (ht : heapStep sizeMax t (op.based B) = r'.map fun (q, b) => ⟨b, live' q⟩)
    (ha : (op.based A).answer sizeMax s = r.map Prod.fst)
    (hb : (op.based B).answer sizeMax t = r'.map Prod.fst) :
    SameStep A B sizeMax s t op ⟨a, live p⟩ ⟨b, live' q⟩ := by
  subst hr hr'
  refine ⟨hs, ht, ?_, h⟩
  rw [ha, hb, map_some, map_some, map_some, map_some, hpq.offset]

/-- **Twins stay twins.** -/
theorem TwinHeaps.step (h : TwinHeaps A B s t) (hAB : A = 0 ↔ B = 0) (hsm : 2 ^ 32 ≤ sizeMax + 1)
    (hlim : limit + 30 < 2 ^ 32) (hadm : (op.based A).Admissible limit s) :
    ∃ s' t', SameStep A B sizeMax s t op s' t' := by
  cases op with
  | malloc n =>
    have hn : n < limit := hadm
    obtain ⟨p, q, a, b, hr, hr', hpq, h'⟩ := h.mallocCore hAB false (n := n) (by omega)
    exact ⟨_, _, .of_calls (addLive · n true s.live) (addLive · n true t.live)
      hr hr' hpq h' rfl rfl rfl rfl⟩
  | mallocNoacct n =>
    have hn : n < limit := hadm
    obtain ⟨p, q, a, b, hr, hr', hpq, h'⟩ := h.mallocCore hAB true (n := n) (by omega)
    exact ⟨_, _, .of_calls (addLive · n false s.live) (addLive · n false t.live)
      hr hr' hpq h' rfl rfl rfl rfl⟩
  | calloc nmemb sz =>
    have hn : nmemb * sz < limit := hadm
    obtain ⟨p, q, a, b, hr, hr', hpq, h'⟩ :=
      h.calloc hAB hsm (show nmemb * sz + 31 < 2 ^ 32 by omega)
    exact ⟨_, _, .of_calls (addLive · (nmemb * sz) true s.live) (addLive · (nmemb * sz) true t.live)
      hr hr' hpq h' rfl rfl rfl rfl⟩
  | realloc x n =>
    obtain ⟨hn, hp⟩ : n < limit ∧ NullOrLive s (ptrAt A x) := hadm
    obtain ⟨hq, hpq⟩ := h.ptr hp
    obtain ⟨p', q', a, b, hr, hr', hpq', h'⟩ :=
      h.realloc hAB false (show n + 31 < 2 ^ 32 by omega) hp hq hpq
    exact ⟨_, _, .of_calls (reallocLive (ptrAt A x) n · true s.live)
      (reallocLive (ptrAt B x) n · true t.live)
      hr hr' hpq' h' rfl rfl rfl rfl⟩
  | reallocNoacct x n =>
    obtain ⟨hn, hp⟩ : n < limit ∧ NullOrLive s (ptrAt A x) := hadm
    obtain ⟨hq, hpq⟩ := h.ptr hp
    obtain ⟨p', q', a, b, hr, hr', hpq', h'⟩ :=
      h.realloc hAB true (show n + 31 < 2 ^ 32 by omega) hp hq hpq
    exact ⟨_, _, .of_calls (reallocLive (ptrAt A x) n · false s.live)
      (reallocLive (ptrAt B x) n · false t.live)
      hr hr' hpq' h' rfl rfl rfl rfl⟩
  | free =>
    obtain ⟨hq, hpq⟩ := h.ptr hadm
    obtain ⟨a, b, hr, hr', h'⟩ := h.free hadm hq hpq
    exact ⟨_, _, by simp [ArenaOp.based, heapStep, hr],
      by simp [ArenaOp.based, heapStep, hr'], rfl, h'⟩
  | reset => exact ⟨_, _, rfl, rfl, rfl, h.reset⟩
  | store x =>
    obtain ⟨b, hb, hbx, hi⟩ := hadm
    obtain ⟨-, hpq⟩ := h.ptr (.inr ⟨b, hb, hbx⟩)
    obtain ⟨c, hc, hbc⟩ := h.partner hb
    have hcx := (hbc.ptr.eq_iff hpq).mpr hbx
    refine ⟨_, _, rfl, rfl, rfl, h.write hb hc hbc (fun k hk => fill_outside ?_)
      (fun k hk => fill_outside ?_)⟩
    · omega
    · rw [hbc.req] at hk
      omega

/-- **Run lemma.** Twins show the same. -/
theorem TwinHeaps.shows (h : TwinHeaps A B s t) (hAB : A = 0 ↔ B = 0)
    (hsm : 2 ^ 32 ≤ sizeMax + 1) (hlim : limit + 30 < 2 ^ 32) {ops : List ArenaOp}
    (hadm : AdmRun (offsetStep sizeMax) (offsetAdmissible limit) s ops) :
    showsOf (arenaCall sizeMax) s ops = showsOf (arenaCall sizeMax) t ops := by
  refine showsOf_simulation (fun s t op h hop => .inr ?_) h (hadm.step_congr fun s op _ => ?_)
  · obtain ⟨hA, hB⟩ := h.bases
    rw [offsetAdmissible, hA] at hop
    obtain ⟨s', t', hs, ht, hanswer, h'⟩ := h.step hAB hsm hlim hop
    refine ⟨s', t', ⟨((op.based A).answer sizeMax s).map fun p => if p = 0 then 0 else p - A,
      s'.arena.acct.map MemAccounting.guestHeapUsed⟩, ?_, ?_, h'⟩
    · rw [arenaCall, offsetStep, hA, hs, map_some]
    · simp [arenaCall, offsetStep, hB, ht, hanswer, h'.used]
  · rw [arenaCall]
    cases offsetStep sizeMax s op <;> rfl

end Offsets

/-! ## After a reset -/

/-- A region of the same size in the same circumstances: both there or neither, with the same
footprint and baseline if there is a budget. -/
structure SameSetup (a b : Arena) : Prop where
  null : a.base = 0 ↔ b.base = 0
  size : b.size = a.size
  words : b.acct.map (fun c => (c.nonEvictableFootprint, c.guestHeapBaseline))
    = a.acct.map fun c => (c.nonEvictableFootprint, c.guestHeapBaseline)

/-- Any arena at all, once it is reset, is a twin of a new one. -/
theorem twins_of_reset {a b : Arena} (hb : b.Fresh) (h : SameSetup a b) :
    TwinHeaps b.base a.base ⟨b, []⟩ ⟨arenaReset a, []⟩ := by
  refine TwinHeaps.fresh hb (Arena.Fresh.reset a) h.size.symm ?_
  have hfig : ∀ (z : Option MemAccounting), (∀ c, z = some c → c.guestHeapUsed = 0) →
      z.map figures
        = (z.map fun c => (c.nonEvictableFootprint, c.guestHeapBaseline)).map fun t => (0, t) := by
    intro z hz
    cases z with
    | none => rfl
    | some c =>
      simp only [map_some, figures]
      rw [hz c rfl]
  rw [hfig _ hb.2, h.words]
  simp only [arenaReset, Option.map_map]
  rfl

/-! ### The wrapped request -/

/-- The four calls after which a wrapped request copies payload bytes over a header. -/
def wrappedOps : List ArenaOp := [.malloc 16, .malloc 32, .free 16, .realloc 48 (2 ^ 32 - 31)]

/-- What the region held before: one block, with a byte of its payload set. -/
def oldOps : List ArenaOp := [.malloc 100, .store 0x04000010 48 0x30]

/-- Only `calloc` looks at the width of `size_t`. -/
def ArenaOp.isCalloc : ArenaOp → Bool
  | .calloc _ _ => true
  | _ => false

theorem heapStep_width (h : op.isCalloc = false) (k k' : Nat) (s : HeapState) :
    heapStep k s op = heapStep k' s op := by
  cases op with
  | calloc => cases h
  | _ => rfl

theorem arenaCall_width (h : op.isCalloc = false) (k k' : Nat)
    (s : HeapState) : arenaCall k s op = arenaCall k' s op := by
  cases op with
  | calloc => cases h
  | _ => rfl

theorem ArenaOp.Admissible.mono {limit' : Nat} (hle : limit ≤ limit') {s : HeapState}
    (h : op.Admissible limit s) : op.Admissible limit' s := by
  cases op with
  | malloc n | mallocNoacct n | calloc m n => exact lt_of_lt_of_le h hle
  | realloc p n | reallocNoacct p n => exact ⟨lt_of_lt_of_le h.1 hle, h.2⟩
  | _ => exact h

/-- Below a limit that lets the wrapped request through, the old bytes show, whatever the
width of `size_t`. -/
theorem wrappedOps_differ (k : Nat) (hlim : 2 ^ 32 - 31 < limit) :
    ∃ s, runSteps (heapStep k) ⟨demoArena, []⟩ oldOps = some s ∧ SameSetup s.arena demoArena
      ∧ AdmRun (offsetStep k) (offsetAdmissible limit) ⟨demoArena, []⟩ wrappedOps
      ∧ arenaShows k (arenaReset s.arena) wrappedOps ≠ arenaShows k demoArena wrappedOps := by
  have hwrap : ∀ op ∈ wrappedOps, op.isCalloc = false := by decide
  have hold : ∀ op ∈ oldOps, op.isCalloc = false := by decide
  obtain ⟨s, hs, hbase, hsize, hwords, hne⟩ : ∃ s,
      runSteps (heapStep 0) ⟨demoArena, []⟩ oldOps = some s
        ∧ s.arena.base = demoArena.base ∧ s.arena.size = demoArena.size
        ∧ s.arena.acct.map (fun c => (c.nonEvictableFootprint, c.guestHeapBaseline)) = some (0, 0)
        ∧ arenaShows 0 (arenaReset s.arena) wrappedOps ≠ arenaShows 0 demoArena wrappedOps := by
    decide +kernel
  have hshows : ∀ a, arenaShows k a wrappedOps = arenaShows 0 a wrappedOps := fun a =>
    showsOf_congr (fun s op hop => arenaCall_width (hwrap op hop) k 0 s) _
  refine ⟨s, ?_, ⟨by rw [hbase], hsize.symm, hwords.symm⟩, ?_, by rwa [hshows, hshows]⟩
  · rw [runSteps_congr (fun s op hop => heapStep_width (hold op hop) k 0 s), hs]
  · have hadm : AdmRun (offsetStep 0) (offsetAdmissible (2 ^ 32 - 30)) ⟨demoArena, []⟩ wrappedOps :=
      by decide +kernel
    refine AdmRun.step_congr (fun s op hop => ?_)
      (AdmRun.imp (fun s op _ _ h => ?_) (fun _ _ _ _ _ _ _ => trivial)
        trivial hadm)
    · have hbased : (op.based s.arena.base).isCalloc = false := by
        have := hwrap op hop
        cases op <;> exact this
      exact heapStep_width hbased k 0 s
    · exact ArenaOp.Admissible.mono hlim h

/-- **Reset.** After a reset, whatever ran before, calls with held pointers and requests below
`limit` show what they show on a new arena of that size, footprint and baseline, exactly if
`limit` is at most 2^32 - 31. -/
theorem reset_fresh_iff {sizeMax : Nat} (hsm : 2 ^ 32 ≤ sizeMax + 1) (limit : Nat) :
    (∀ (a₀ b : Arena) (before ops : List ArenaOp) (s : HeapState), a₀.Fresh →
      runSteps (heapStep sizeMax) ⟨a₀, []⟩ before = some s → b.Fresh → SameSetup s.arena b →
      AdmRun (offsetStep sizeMax) (offsetAdmissible limit) ⟨b, []⟩ ops →
      arenaShows sizeMax (arenaReset s.arena) ops = arenaShows sizeMax b ops) ↔
    limit ≤ 2 ^ 32 - 31 := by
  constructor
  · intro h
    by_contra hlim
    have hfresh : demoArena.Fresh := ⟨rfl, by rintro c ⟨⟩; rfl⟩
    obtain ⟨s, hs, hsetup, hadm, hne⟩ := wrappedOps_differ sizeMax (Nat.lt_of_not_le hlim)
    exact hne (h demoArena demoArena oldOps wrappedOps s hfresh hs hfresh hsetup hadm)
  · intro hlim a₀ b before ops s _ _ hb hsetup hadm
    exact ((twins_of_reset hb hsetup).shows hsetup.null.symm hsm (by omega) hadm).symm

/-- A run with a freed, a split and a grown block, after the region was used before. -/
theorem reset_fresh_demo :
    ∃ s, runSteps (heapStep (2 ^ 32 - 1)) ⟨demoArena, []⟩ oldOps = some s ∧
      arenaShows (2 ^ 32 - 1) (arenaReset s.arena)
          [.malloc 90, .calloc 3 8, .free 16, .malloc 1, .realloc 16 60, .free 128]
        = arenaShows (2 ^ 32 - 1) demoArena
          [.malloc 90, .calloc 3 8, .free 16, .malloc 1, .realloc 16 60, .free 128] := by
  obtain ⟨s, hs, hsetup, -⟩ := wrappedOps_differ (2 ^ 32 - 1) (Nat.lt_succ_self _)
  have hfresh : demoArena.Fresh := ⟨rfl, by rintro c ⟨⟩; rfl⟩
  exact ⟨s, hs, (reset_fresh_iff (by norm_num) (2 ^ 31)).mpr (by norm_num) demoArena demoArena
    oldOps _ s hfresh hs hfresh hsetup (by decide +kernel)⟩

/-- A block of 100 bytes, one of them set, then a reset. The fourth call wraps around to a
block of no bytes, copies the old byte over the header it is about to free, and takes another
amount out of the account than on a new arena. -/
theorem reset_shows_old_bytes :
    ∃ s, runSteps (heapStep (2 ^ 32 - 1)) ⟨demoArena, []⟩ oldOps = some s
      ∧ SameSetup s.arena demoArena
      ∧ AdmRun (offsetStep (2 ^ 32 - 1)) (offsetAdmissible (2 ^ 32)) ⟨demoArena, []⟩ wrappedOps
      ∧ arenaShows (2 ^ 32 - 1) (arenaReset s.arena) wrappedOps
          ≠ arenaShows (2 ^ 32 - 1) demoArena wrappedOps :=
  wrappedOps_differ (2 ^ 32 - 1) (by norm_num)

end Blyt
