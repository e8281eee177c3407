import Blyt.Arena
import Blyt.FreeHeap

/-!
# The shape of a running arena

The arena as a tiled heap with a threaded free list: `Arena.view` reads the
in-band headers, and `Shape` is the invariant of `Blyt.FreeHeap` for it. Every
call of the allocator is one or two edits of that heap; here each of them is
matched with the bytes the code writes. The clients of this module (the ghost
list of live blocks, the budget) see only `Served`, `Returned` and the shape.
-/

namespace Blyt

open Arena

def blkSize (a : Arena) (o : Nat) : Nat := (hdrAt a.mem o).size
def blkFree (a : Arena) (o : Nat) : Nat := (hdrAt a.mem o).free
def blkPad (a : Arena) (o : Nat) : Nat := (hdrAt a.mem o).pad

/-- What the headers of the arena say. -/
def Arena.view (a : Arena) : HeapView := ⟨blkSize a, blkFree a, blkPad a, a.link, a.bump⟩

/-- Headers at `offs` tile `[0, bump)`; the free list visits `fl`. -/
structure Shape (a : Arena) (offs fl : List Nat) : Prop
    extends Threaded 16 32 arenaNone a.view offs fl where
  bump_le : a.bump ≤ a.size

/-! ## Reading headers after field writes -/

variable {o x n : Nat} {a : Arena} {offs : List Nat} {need : Nat} {fl : List Nat}

theorem hdrAt_setAll {m : ByteMem} {s f p : Nat} (ho : 16 ∣ o) (hx : 16 ∣ x) :
    hdrAt (setPad (setNext (setFree (setSize m o s) o f) o n) o p) x
      = if x = o then ⟨u32 s, u32 f, u32 n, u32 p⟩ else hdrAt m x := by
  rw [hdrAt_setPad ho hx, hdrAt_setNext ho ho, hdrAt_setNext ho hx, hdrAt_setFree ho ho,
    hdrAt_setFree ho hx, hdrAt_setSize ho ho, hdrAt_setSize ho hx]
  by_cases h : x = o <;> simp [h]

/-- The link words a proof looks at are aligned ones. -/
def AlignedLink : Option Nat → Prop
  | none => True
  | some x => 16 ∣ x

theorem hdrAt_setLink {q : Option Nat} {v : Nat} (hq : AlignedLink q) (hx : 16 ∣ x) :
    hdrAt (a.setLink q v).mem x
      = if q = some x then { hdrAt a.mem x with next := u32 v } else hdrAt a.mem x := by
  cases q with
  | none => simp [setLink]
  | some o =>
    simp only [setLink, hdrAt_setNext hq hx, Option.some.injEq]
    by_cases h : x = o
    · subst h
      simp
    · simp [h, Ne.symm h]

/-- The arena's own words but `bump` and the head of the list are kept. -/
structure SameWords (a a' : Arena) : Prop where
  acct : a'.acct = a.acct
  base : a'.base = a.base
  size : a'.size = a.size
  ready : a'.ready = a.ready

/-- The link `q` has been set to `t`, with whatever has happened to the headers. -/
structure Relinks (a a' : Arena) (q : Option Nat) (t : Nat) : Prop extends SameWords a a' where
  bump : a'.bump = a.bump
  head : a'.freeHead = if q = none then t else a.freeHead

theorem setLink_relinks (a : Arena) (q : Option Nat) (v : Nat) : Relinks a (a.setLink q v) q v := by
  cases q <;> exact ⟨⟨rfl, rfl, rfl, rfl⟩, rfl, rfl⟩

theorem setLink_freeHead (a : Arena) (q : Option Nat) (v : Nat) :
    (a.setLink q v).freeHead = if q = none then v else a.freeHead :=
  (setLink_relinks a q v).head

section

variable {a' : Arena} {q : Option Nat} {t : Nat}

theorem Relinks.bump_le (hr : Relinks a a' q t) (h : a.bump ≤ a.size) : a'.bump ≤ a'.size := by
  rw [hr.bump, hr.size]
  exact h

theorem Relinks.withMem {m m' : ByteMem} (hr : Relinks { a with mem := m } a' q t) :
    Relinks a { a' with mem := m' } q t :=
  ⟨⟨hr.acct, hr.base, hr.size, hr.ready⟩, hr.bump, hr.head⟩

end

/-! ## The size of a block for a request -/

/-- For a request that header and rounding do not push past 32 bits, the block
has room for it. -/
theorem needOf_spec (hn : n + 31 < 2 ^ 32) : n + 16 ≤ needOf n ∧ 32 ≤ needOf n ∧ 16 ∣ needOf n := by
  have h1 : u32 (if n = 0 then 1 else n) = if n = 0 then 1 else n :=
    u32_of_lt (by split <;> omega)
  have h2 : u32 ((if n = 0 then 1 else n) + 16) = (if n = 0 then 1 else n) + 16 :=
    u32_of_lt (by split <;> omega)
  have h3 : u32 ((if n = 0 then 1 else n) + 16 + 16 - 1) = (if n = 0 then 1 else n) + 31 := by
    rw [u32_of_lt] <;> split <;> omega
  unfold needOf alignUp hdrSize arenaAlign
  rw [h1, h2, h3, land_mask16 (by split <;> omega)]
  split <;> omega

/-! ## Serving a request from a free block -/

/-- What a successful allocation guarantees: block `o` has come into use, large
enough, marked and accounted, and the budget allowed its size. -/
structure Served (a a' : Arena) (offs offs' : List Nat) (o need : Nat) (noacct : Bool) :
    Prop where
  edit : Edit a.view a'.view offs offs' o
  pad : blkPad a' o = if noacct then blkNoacct else 0
  need_le : need ≤ blkSize a' o
  size_lt : blkSize a' o < need + 32
  acct : a'.acct = if noacct then a.acct else (acctAdd a (blkSize a' o)).acct
  cap : noacct = false → capAllows a (blkSize a' o) = true
  base : a'.base = a.base
  size : a'.size = a.size
  ready : a'.ready = a.ready

/-- Account a block that has been handed out. -/
def charge (a : Arena) (noacct : Bool) (bytes : Nat) : Arena :=
  if noacct then a else acctAdd a bytes

/-- The arena after block `o`, found behind `prev`, is cut at `need`. -/
def splitAt (a : Arena) (prev : Option Nat) (o need mark : Nat) : Arena :=
  let t := o + need
  let h := hdrAt a.mem o
  let m := setPad (setNext (setFree (setSize a.mem t (h.size - need)) t 1) t h.next) t 0
  let a := { a with mem := m }.setLink prev t
  { a with mem := setPad (setNext (setFree (setSize a.mem o need) o 0) o arenaNone) o mark }

/-- The arena after block `o`, found behind `prev`, is taken whole. -/
def takeWhole (a : Arena) (prev : Option Nat) (o mark : Nat) : Arena :=
  let a := a.setLink prev (hdrAt a.mem o).next
  { a with mem := setPad (setNext (setFree a.mem o 0) o arenaNone) o mark }

theorem splitAt_relinks (a : Arena) (q : Option Nat) (o need mark : Nat) :
    Relinks a (splitAt a q o need mark) q (o + need) :=
  (setLink_relinks ..).withMem

theorem takeWhole_relinks (a : Arena) (q : Option Nat) (o mark : Nat) :
    Relinks a (takeWhole a q o mark) q (a.link (some o)) :=
  (setLink_relinks ..).withMem

section Fit

variable {l₁ l₂ : List Nat} {mark : Nat}

theorem Shape.bump_lt (h : Shape a offs fl) : a.bump < 2 ^ 32 :=
  lt_of_le_of_lt h.bump_le a.size_lt

/-- The free list is shorter than any walk along it may be. -/
theorem Shape.fuel (h : Shape a offs fl) : fl.length < loopFuel := by
  have h1 := h.length_le (by norm_num)
  have h2 : a.view.hi < 2 ^ 32 := h.bump_lt
  unfold loopFuel
  omega

theorem Shape.prev_aligned (h : Shape a offs (l₁ ++ o :: l₂)) : AlignedLink (endLink none l₁) := by
  rcases h.endLink_cases with hq | ⟨x, hq, hx, -⟩
  · rw [hq]
    trivial
  · rw [hq]
    exact h.dvd hx

theorem Shape.link_prev (h : Shape a offs (l₁ ++ o :: l₂)) : a.link (endLink none l₁) = o :=
  (chain_append.mp h.chain).2.1

section

variable (h : Shape a offs (l₁ ++ o :: l₂))
include h

theorem Shape.endLink_ne : endLink none l₁ ≠ some o := by
  rcases h.endLink_cases with hq | ⟨y, hq, -, hy⟩
  · simp [hq]
  · simpa [hq] using hy

theorem splitAt_hdr (hdvd : 16 ∣ need) (hpos : 0 < need) (hlt : need < blkSize a o)
    (hmark : mark < 2 ^ 32) (hx : 16 ∣ x) :
    hdrAt (splitAt a (endLink none l₁) o need mark).mem x
      = if x = o then ⟨need, 0, arenaNone, mark⟩
        else if x = o + need then ⟨blkSize a o - need, 1, (hdrAt a.mem o).next, 0⟩
        else if endLink none l₁ = some x then { hdrAt a.mem x with next := o + need }
        else hdrAt a.mem x := by
  have homem : o ∈ offs := h.mem_offs (by simp)
  have ho := h.dvd homem
  have ht := ho.add hdvd
  have hend : o + blkSize a o ≤ a.bump := h.end_le homem
  have hb := h.bump_lt
  simp only [splitAt, hdrAt_setAll ho hx]
  split
  · rw [u32_of_lt (show need < 2 ^ 32 by omega), u32_of_lt hmark]
    rfl
  · rw [hdrAt_setLink h.prev_aligned hx, hdrAt_setAll ht hx]
    by_cases hxt : x = o + need
    · -- the link that is rewritten belongs to a block, the tail does not start one
      have hxq : endLink none l₁ ≠ some x := by
        rcases h.endLink_cases with hq | ⟨y, hq, hy, -⟩
        · simp [hq]
        · rw [hq]
          intro he
          obtain rfl : y = x := by simpa using he
          exact h.inside_notMem homem (show o < y by omega) (show y < o + blkSize a o by omega) hy
      have h1 : u32 ((hdrAt a.mem o).size - need) = blkSize a o - need :=
        u32_of_lt (show blkSize a o - need < 2 ^ 32 by omega)
      have h2 : u32 (hdrAt a.mem o).next = (hdrAt a.mem o).next := u32_of_lt (read32_lt _ _)
      rw [if_neg hxq, if_pos hxt, if_pos hxt, h1, h2]
      rfl
    · rw [if_neg hxt, if_neg hxt, u32_of_lt (show o + need < 2 ^ 32 by omega)]

/-- Block `o` is taken off the list: what is written into the link before it is all that the
other headers notice. -/
theorem Shape.relink {a' : Arena} {t : Nat}
    (hhead : a'.freeHead = if endLink none l₁ = none then t else a.freeHead)
    (hat : ∀ x ∈ offs, x ≠ o → hdrAt a'.mem x
      = if endLink none l₁ = some x then { hdrAt a.mem x with next := t } else hdrAt a.mem x) :
    KeepsHdrs a.view a'.view offs o ∧ KeepsLinks a.view a'.view offs o (endLink none l₁)
      ∧ a'.view.lk (endLink none l₁) = t := by
  refine ⟨fun x hx hxo => ?_, ⟨fun hne => ?_, fun x hx hxo hne => ?_⟩, ?_⟩
  · simp only [view, blkSize, blkFree, blkPad, hat x hx hxo]
    split <;> simp
  · exact hhead.trans (if_neg (Ne.symm hne))
  · simp only [view, link, hat x hx hxo, if_neg (Ne.symm hne)]
  · rcases h.endLink_cases with hq | ⟨x, hq, hx, hxo⟩
    · rw [hq]
      exact hhead.trans (if_pos hq)
    · rw [hq]
      simp only [view, link, hat x hx hxo, if_pos hq]

theorem splitAt_shape (hdvd : 16 ∣ need)
    (h32 : 32 ≤ need) (hrem : need + 32 ≤ blkSize a o) (hmark : mark < 2 ^ 32) :
    ∃ offs', Shape (splitAt a (endLink none l₁) o need mark) offs' (l₁ ++ (o + need) :: l₂)
      ∧ Edit a.view (splitAt a (endLink none l₁) o need mark).view offs offs' o
      ∧ blkSize (splitAt a (endLink none l₁) o need mark) o = need
      ∧ blkPad (splitAt a (endLink none l₁) o need mark) o = mark := by
  have homem : o ∈ offs := h.mem_offs (by simp)
  have ho := h.dvd homem
  have ht := ho.add hdvd
  have htn : o + need ∉ offs := h.inside_notMem homem (show o < o + need by omega)
    (show o + need < o + blkSize a o by omega)
  have hview := fun {x : Nat} (hx : 16 ∣ x) =>
    splitAt_hdr h hdvd (show 0 < need by omega) (by omega) hmark hx
  have hrel := splitAt_relinks a (endLink none l₁) o need mark
  generalize splitAt a (endLink none l₁) o need mark = a' at hview hrel ⊢
  have hto : o + need ≠ o := by omega
  have hat_o : hdrAt a'.mem o = ⟨need, 0, arenaNone, mark⟩ := by rw [hview ho, if_pos rfl]
  have hat_t : hdrAt a'.mem (o + need) = ⟨blkSize a o - need, 1, (hdrAt a.mem o).next, 0⟩ := by
    rw [hview ht, if_neg hto, if_pos rfl]
  have hat : ∀ x ∈ offs, x ≠ o → hdrAt a'.mem x
      = if endLink none l₁ = some x then { hdrAt a.mem x with next := o + need }
        else hdrAt a.mem x := by
    intro x hx hxo
    have hxt : x ≠ o + need := fun he => htn (he ▸ hx)
    rw [hview (h.dvd hx), if_neg hxo, if_neg hxt]
  obtain ⟨hkeep, hlk, hprev⟩ := h.relink hrel.head hat
  have hnext : a'.view.lk (some (o + need)) = a.view.lk (some o) := by
    simp only [view, link, hat_t]
  obtain ⟨offs', hs, he⟩ := h.toThreaded.split h32 (by omega) hdvd hrem
    (show need < blkSize a o by omega) hrel.bump (congrArg BlkHdr.size hat_o)
    (congrArg BlkHdr.free hat_o) (congrArg BlkHdr.size hat_t)
    (ne_of_eq_of_ne (congrArg BlkHdr.free hat_t) one_ne_zero) hkeep hprev hnext hlk
  exact ⟨offs', ⟨hs, hrel.bump_le h.bump_le⟩, he,
    congrArg BlkHdr.size hat_o, congrArg BlkHdr.pad hat_o⟩

theorem takeWhole_hdr (hmark : mark < 2 ^ 32) (hx : 16 ∣ x) :
    hdrAt (takeWhole a (endLink none l₁) o mark).mem x
      = if x = o then ⟨blkSize a o, 0, arenaNone, mark⟩
        else if endLink none l₁ = some x then { hdrAt a.mem x with next := a.link (some o) }
        else hdrAt a.mem x := by
  have ho : 16 ∣ o := h.dvd (h.mem_offs (by simp))
  have h2 : u32 (hdrAt a.mem o).next = (hdrAt a.mem o).next := u32_of_lt (read32_lt _ _)
  simp only [takeWhole, hdrAt_setPad ho hx, hdrAt_setNext ho ho, hdrAt_setNext ho hx,
    hdrAt_setFree ho ho, hdrAt_setFree ho hx, hdrAt_setLink h.prev_aligned ho,
    hdrAt_setLink h.prev_aligned hx, u32_of_lt hmark, h2, link]
  by_cases hxo : x = o
  · subst hxo
    simp only [if_true, if_neg h.endLink_ne]
    rfl
  · simp only [if_neg hxo]

theorem takeWhole_shape (hmark : mark < 2 ^ 32) :
    Shape (takeWhole a (endLink none l₁) o mark) offs (l₁ ++ l₂)
      ∧ Edit a.view (takeWhole a (endLink none l₁) o mark).view offs offs o
      ∧ blkSize (takeWhole a (endLink none l₁) o mark) o = blkSize a o
      ∧ blkPad (takeWhole a (endLink none l₁) o mark) o = mark := by
  have homem : o ∈ offs := h.mem_offs (by simp)
  have hview := fun {x : Nat} (hx : 16 ∣ x) => takeWhole_hdr h hmark hx
  have hrel := takeWhole_relinks a (endLink none l₁) o mark
  generalize takeWhole a (endLink none l₁) o mark = a' at hview hrel ⊢
  have hat_o : hdrAt a'.mem o = ⟨blkSize a o, 0, arenaNone, mark⟩ := by
    rw [hview (h.dvd homem), if_pos rfl]
  have hat : ∀ x ∈ offs, x ≠ o → hdrAt a'.mem x
      = if endLink none l₁ = some x then { hdrAt a.mem x with next := a.link (some o) }
        else hdrAt a.mem x := by
    intro x hx hxo
    rw [hview (h.dvd hx), if_neg hxo]
  obtain ⟨hkeep, hlk, hprev⟩ := h.relink hrel.head hat
  have hsz : blkSize a' o = blkSize a o := by
    show (hdrAt a'.mem o).size = blkSize a o
    rw [hat_o]
  obtain ⟨hs, he⟩ := h.toThreaded.take hrel.bump hsz (congrArg BlkHdr.free hat_o) hkeep hprev hlk
  exact ⟨⟨hs, hrel.bump_le h.bump_le⟩, he, hsz, congrArg BlkHdr.pad hat_o⟩

end

/-! ### The two ways of serving a request -/

/-- The code's `takeFit` is one of the two edits, charged, or a refusal. -/
theorem takeFit_eq (h : Shape a offs (l₁ ++ o :: l₂)) (hle : need ≤ blkSize a o) (noacct : Bool) :
    takeFit a (endLink none l₁) need mark noacct =
      (let split := decide (32 ≤ blkSize a o - need)
       let a' := if split then splitAt a (endLink none l₁) o need mark
                 else takeWhole a (endLink none l₁) o mark
       if !noacct && !capAllows a (if split then need else blkSize a o) then (0, a)
       else (a.base + o + hdrSize, charge a' noacct (blkSize a' o))) := by
  have homem : o ∈ offs := h.mem_offs (by simp)
  have hend : o + blkSize a o ≤ a.bump := h.end_le homem
  have hb := h.bump_lt
  have ht : u32 (o + need) = o + need := u32_of_lt (by omega)
  have hsz : (hdrAt a.mem o).size = blkSize a o := rfl
  have h32 : hdrSize + arenaAlign = 32 := rfl
  unfold takeFit
  simp only [h.link_prev, ht, hsz, h32]
  split
  · split
    · rfl
    · cases noacct <;> simp [charge, splitAt, acctAdd, blkSize, (setLink_relinks ..).base]
  · split
    · rfl
    · cases noacct <;> simp [charge, takeWhole, acctAdd, blkSize, (setLink_relinks ..).base]

end Fit

section

variable (a : Arena)

@[simp] theorem charge_view (noacct : Bool) (bytes : Nat) :
    (charge a noacct bytes).view = a.view := by cases noacct <;> rfl

@[simp] theorem charge_bump (noacct : Bool) (bytes : Nat) :
    (charge a noacct bytes).bump = a.bump := by cases noacct <;> rfl

@[simp] theorem charge_size (noacct : Bool) (bytes : Nat) :
    (charge a noacct bytes).size = a.size := by cases noacct <;> rfl

@[simp] theorem charge_base (noacct : Bool) (bytes : Nat) :
    (charge a noacct bytes).base = a.base := by cases noacct <;> rfl

@[simp] theorem charge_ready (noacct : Bool) (bytes : Nat) :
    (charge a noacct bytes).ready = a.ready := by cases noacct <;> rfl

end

/-- The mark `arena_malloc_core` writes into `_pad`. -/
def markOf (noacct : Bool) : Nat := if noacct then blkNoacct else 0

theorem markOf_lt (noacct : Bool) : markOf noacct < 2 ^ 32 := by cases noacct <;> decide

/-- Charging the size of a block that has come into use serves the request. -/
theorem Served.of_edit {a' : Arena} {offs' : List Nat} {noacct : Bool}
    (he : Edit a.view a'.view offs offs' o) (hpad : blkPad a' o = markOf noacct)
    (hneed : need ≤ blkSize a' o) (hlt : blkSize a' o < need + 32)
    (hcap : noacct = false → capAllows a (blkSize a' o) = true)
    (hset : SameWords a a') :
    Served a (charge a' noacct (blkSize a' o)) offs offs' o need noacct := by
  have hsz : blkSize (charge a' noacct (blkSize a' o)) o = blkSize a' o :=
    congrArg (fun v => v.sz o) (charge_view a' noacct _)
  have hpd : blkPad (charge a' noacct (blkSize a' o)) o = blkPad a' o :=
    congrArg (fun v => v.tag o) (charge_view a' noacct _)
  refine ⟨by rwa [charge_view], hpd.trans hpad, by rwa [hsz], by rwa [hsz], ?_, by rwa [hsz], ?_,
    ?_, ?_⟩
  · rw [hsz]
    cases noacct <;> simp [charge, acctAdd, hset.acct]
  · rw [charge_base, hset.base]
  · rw [charge_size, hset.size]
  · rw [charge_ready, hset.ready]

theorem Shape.charge (h : Shape a offs fl) (noacct : Bool)
    (bytes : Nat) : Shape (charge a noacct bytes) offs fl :=
  ⟨by rw [charge_view]; exact h.toThreaded, by simpa using h.bump_le⟩

theorem takeFit_spec {l₁ l₂ : List Nat} (noacct : Bool) (h : Shape a offs (l₁ ++ o :: l₂))
    (hle : need ≤ blkSize a o) (h32 : 32 ≤ need) (hdvd : 16 ∣ need) :
    takeFit a (endLink none l₁) need (markOf noacct) noacct = (0, a) ∨
    ∃ a' offs' fl', takeFit a (endLink none l₁) need (markOf noacct) noacct
        = (a.base + o + hdrSize, a')
      ∧ Shape a' offs' fl' ∧ Served a a' offs offs' o need noacct := by
  have hm := markOf_lt noacct
  rw [takeFit_eq h hle]
  by_cases hsp : 32 ≤ blkSize a o - need
  · obtain ⟨offs', hs, he, hsz, hpad⟩ := splitAt_shape h hdvd h32 (by omega) hm
    simp only [hsp, decide_true, if_true]
    by_cases hcap : (!noacct && !capAllows a need) = true
    · exact Or.inl (if_pos hcap)
    · rw [if_neg hcap]
      refine Or.inr ⟨_, offs', _, rfl, hs.charge _ _, Served.of_edit he hpad (le_of_eq hsz.symm)
        (by omega) ?_ (splitAt_relinks ..).toSameWords⟩
      rw [hsz]
      simpa using hcap
  · obtain ⟨hs, he, hsz, hpad⟩ := takeWhole_shape h hm
    simp only [hsp, decide_false, Bool.false_eq_true, if_false]
    by_cases hcap : (!noacct && !capAllows a (blkSize a o)) = true
    · exact Or.inl (if_pos hcap)
    · rw [if_neg hcap]
      refine Or.inr ⟨_, offs, _, rfl, hs.charge _ _, Served.of_edit he hpad (hsz.symm ▸ hle)
        (by omega) ?_ (takeWhole_relinks ..).toSameWords⟩
      rw [hsz]
      simpa using hcap

/-! ## Serving a request from the end of the region -/

theorem takeBump_spec (noacct : Bool) (h : Shape a offs fl) (h32 : 32 ≤ need) (hdvd : 16 ∣ need) :
    takeBump a need (markOf noacct) noacct = (0, a) ∨
    ∃ a', takeBump a need (markOf noacct) noacct = (a.base + a.bump + hdrSize, a')
      ∧ Shape a' (offs ++ [a.bump]) fl
      ∧ Served a a' offs (offs ++ [a.bump]) a.bump need noacct := by
  by_cases hfit : a.size < a.bump + need
  · exact Or.inl (if_pos hfit)
  by_cases hcap : (!noacct && !capAllows a need) = true
  · exact Or.inl (by rw [takeBump, if_neg hfit, if_pos hcap])
  have hlt := a.size_lt
  have hb : 16 ∣ a.bump := h.dvd_hi
  have hu : u32 (a.bump + need) = a.bump + need := u32_of_lt (by omega)
  -- the new arena before it is charged
  obtain ⟨a', ha'⟩ : ∃ a', a' = { a with
      mem := setPad (setNext (setFree (setSize a.mem a.bump need) a.bump 0) a.bump arenaNone)
        a.bump (markOf noacct)
      bump := a.bump + need } := ⟨_, rfl⟩
  have hat : ∀ x, 16 ∣ x → hdrAt a'.mem x
      = if x = a.bump then ⟨need, 0, arenaNone, markOf noacct⟩ else hdrAt a.mem x := by
    intro x hx
    rw [ha', hdrAt_setAll hb hx, u32_of_lt (show need < 2 ^ 32 by omega),
      u32_of_lt (markOf_lt noacct)]
    rfl
  have hat_b : hdrAt a'.mem a.bump = ⟨need, 0, arenaNone, markOf noacct⟩ := by
    rw [hat _ hb, if_pos rfl]
  have hsz : blkSize a' a.bump = need := congrArg BlkHdr.size hat_b
  have heq : takeBump a need (markOf noacct) noacct
      = (a.base + a.bump + hdrSize, charge a' noacct (blkSize a' a.bump)) := by
    rw [takeBump, if_neg hfit, if_neg hcap, hsz, ha', hu]
    cases noacct <;> rfl
  have hne : ∀ x ∈ offs, x ≠ a.bump := by
    intro x hx he
    have h1 : x + blkSize a x ≤ a.bump := h.end_le hx
    have h2 : 0 < blkSize a x := h.pos hx
    omega
  have hkeep : KeepsHdrs a.view a'.view offs a.bump := by
    intro x hx hxb
    simp [view, blkSize, blkFree, blkPad, hat x (h.dvd hx), hxb]
  have hlk : ∀ x ∈ offs, a'.view.lk (some x) = a.view.lk (some x) := by
    intro x hx
    simp only [view, link, hat x (h.dvd hx), if_neg (hne x hx)]
  have hbump : a'.view.hi = a.view.hi + need := by rw [ha']; rfl
  have hnil : a'.view.hi ≤ arenaNone := by
    rw [hbump]
    show a.bump + need ≤ arenaNone
    unfold arenaNone
    omega
  obtain ⟨hs, he⟩ := h.toThreaded.append h32 (by omega) hdvd hbump hnil hsz
    (congrArg BlkHdr.free hat_b) hkeep (by rw [ha']; rfl) hlk
  have hsh : Shape a' (offs ++ [a.bump]) fl := ⟨hs, by rw [ha']; show a.bump + need ≤ a.size; omega⟩
  refine Or.inr ⟨_, heq, hsh.charge _ _, Served.of_edit he (congrArg BlkHdr.pad hat_b)
    (le_of_eq hsz.symm) (by omega) ?_ (by constructor <;> rw [ha'])⟩
  rw [hsz]
  simpa using hcap

theorem ensureReady_base (a : Arena) : (ensureReady a).base = a.base := by
  unfold ensureReady
  split <;> rfl

/-- The walk along the free list ends at its first fitting block, or at the end of the list. -/
theorem arenaMallocCore_walk (n : Nat) (noacct : Bool) (h : Shape (ensureReady a) offs fl) :
    (a.base = 0 ∨ a.size = 0) ∧ arenaMallocCore a n noacct = some (0, a) ∨
    ¬(a.base = 0 ∨ a.size = 0) ∧
      (arenaMallocCore a n noacct
          = some (takeBump (ensureReady a) (needOf n) (markOf noacct) noacct)
        ∨ ∃ l₁ o l₂, fl = l₁ ++ o :: l₂ ∧ needOf n ≤ blkSize (ensureReady a) o
          ∧ arenaMallocCore a n noacct = some
            (takeFit (ensureReady a) (endLink none l₁) (needOf n) (markOf noacct) noacct)) := by
  unfold arenaMallocCore
  by_cases hnull : a.base = 0 ∨ a.size = 0
  · exact .inl ⟨hnull, if_pos hnull⟩
  rw [if_neg hnull]
  refine .inr ⟨hnull, ?_⟩
  rcases findLink_chain (fun o => decide (needOf n ≤ (hdrAt (ensureReady a).mem o).size))
    h.chain h.fuel with ⟨hf, -⟩ | ⟨l₁, o, l₂, rfl, hf, hfit, -⟩
  · have hf' : findLink (ensureReady a).link arenaNone _ loopFuel none = .absent := hf
    simp only [hf']
    exact .inl rfl
  · have hf' : findLink (ensureReady a).link arenaNone _ loopFuel none = .at _ := hf
    simp only [hf']
    exact .inr ⟨l₁, o, l₂, rfl, of_decide_eq_true hfit, rfl⟩

/-- **What `arena_malloc_core` does.** It returns; either with `NULL` and no
block touched, or with the payload of a block that has just come into use. -/
theorem arenaMallocCore_spec (noacct : Bool)
    (h : Shape (ensureReady a) offs fl) (hn : n + 31 < 2 ^ 32) :
    arenaMallocCore a n noacct = some (0, a) ∨
    arenaMallocCore a n noacct = some (0, ensureReady a) ∨
    ∃ a' offs' fl' o, a.base ≠ 0 ∧ arenaMallocCore a n noacct = some (a.base + o + hdrSize, a')
      ∧ Shape a' offs' fl' ∧ Served (ensureReady a) a' offs offs' o (needOf n) noacct := by
  obtain ⟨-, h32, hdvd⟩ := needOf_spec hn
  rw [← ensureReady_base a]
  rcases arenaMallocCore_walk n noacct h with ⟨-, hc⟩ | ⟨hnull, hc | ⟨l₁, o, l₂, rfl, hfit, hc⟩⟩
  · exact .inl hc
  · rw [hc]
    rcases takeBump_spec noacct h h32 hdvd with hr | ⟨a', hr, hs, hv⟩
    · exact .inr (.inl (congrArg some hr))
    · exact .inr (.inr ⟨a', _, _, _, fun h0 => hnull (.inl (ensureReady_base a ▸ h0)),
        congrArg some hr, hs, hv⟩)
  · rw [hc]
    rcases takeFit_spec noacct h hfit h32 hdvd with hr | ⟨a', o', f', hr, hs, hv⟩
    · exact .inr (.inl (congrArg some hr))
    · exact .inr (.inr ⟨a', _, _, _, fun h0 => hnull (.inl (ensureReady_base a ▸ h0)),
        congrArg some hr, hs, hv⟩)

/-! ## Returning a block -/

/-- What a free of block `o` does: it goes out of use and out of the account. -/
structure Returned (a a' : Arena) (offs offs' : List Nat) (o : Nat) : Prop where
  edit : Edit a'.view a.view offs' offs o
  acct : a'.acct = if blkPad a o = blkNoacct then a.acct else (acctSub a (blkSize a o)).acct
  base : a'.base = a.base
  size : a'.size = a.size
  ready : a'.ready = a.ready

/-- The arena after block `o` is put on the free list. -/
def pushFree (a : Arena) (o : Nat) : Arena :=
  { a with mem := setNext (setFree a.mem o 1) o a.freeHead, freeHead := o }

theorem Shape.freeHead_lt (h : Shape a offs fl) : a.freeHead < 2 ^ 32 := by
  have hc := h.chain
  cases fl with
  | nil =>
    have hn : a.freeHead = arenaNone := hc
    rw [hn]
    decide
  | cons o =>
    have ho : a.freeHead = o := hc.1
    have h1 : o + blkSize a o ≤ a.bump := h.end_le (h.mem_offs (by simp))
    have h2 := h.bump_lt
    omega

theorem pushFree_shape (h : Shape a offs fl) (hu : a.view.InUse offs o) :
    Shape (pushFree a o) offs (o :: fl) ∧ Edit (pushFree a o).view a.view offs offs o := by
  have ho := h.dvd hu.1
  have hat : ∀ x, 16 ∣ x → hdrAt (pushFree a o).mem x
      = if x = o then { hdrAt a.mem o with free := 1, next := a.freeHead }
        else hdrAt a.mem x := by
    intro x hx
    simp only [pushFree, hdrAt_setNext ho hx, hdrAt_setFree ho ho, hdrAt_setFree ho hx,
      if_true, u32_of_lt h.freeHead_lt]
    split <;> rfl
  have hat_o : hdrAt (pushFree a o).mem o =
      { hdrAt a.mem o with free := 1, next := a.freeHead } := by
    rw [hat o ho, if_pos rfl]
  have hkeep : KeepsHdrs a.view (pushFree a o).view offs o := by
    intro x hx hxo
    simp [view, blkSize, blkFree, blkPad, hat x (h.dvd hx), hxo]
  have hsz : blkSize (pushFree a o) o = blkSize a o := by
    show (hdrAt (pushFree a o).mem o).size = blkSize a o
    rw [hat_o]
    rfl
  obtain ⟨hs, he⟩ := h.toThreaded.push (w := (pushFree a o).view) hu rfl hsz
    (ne_of_eq_of_ne (congrArg BlkHdr.free hat_o) one_ne_zero) hkeep rfl
    (congrArg BlkHdr.next hat_o) (fun x hx hxo => by
      simp only [view, link, hat x (h.dvd hx), if_neg hxo])
  exact ⟨⟨hs, h.bump_le⟩, he⟩

/-- The arena after block `p`, found behind `prev`, is unlinked and merged into
block `o`. -/
def mergeNext (a : Arena) (prev : Option Nat) (o p : Nat) : Arena :=
  let a := a.setLink prev (hdrAt a.mem p).next
  let a := { a with mem := setNext (setFree a.mem p 0) p arenaNone }
  { a with mem := setSize a.mem o ((hdrAt a.mem o).size + (hdrAt a.mem p).size) }

theorem mergeNext_relinks (a : Arena) (q : Option Nat) (o p : Nat) :
    Relinks a (mergeNext a q o p) q (a.link (some p)) :=
  (setLink_relinks ..).withMem

section Merge

variable {a : Arena} {o₁ o₂ l₁ l₂ : List Nat} {o p : Nat}

section

variable (h : Shape a (o₁ ++ o :: p :: o₂) (l₁ ++ p :: l₂))
include h

theorem mergeNext_hdr (hpo : p ≠ o) {x : Nat} (hx : 16 ∣ x) (hxp : x ≠ p) :
    hdrAt (mergeNext a (endLink none l₁) o p).mem x
      = { hdrAt a.mem x with
          size := if x = o then blkSize a o + blkSize a p else blkSize a x
          next := if endLink none l₁ = some x then a.link (some p) else a.link (some x) } := by
  have ho : 16 ∣ o := h.dvd (by simp)
  have hp : 16 ∣ p := h.dvd (by simp)
  have hq := h.prev_aligned
  have hn : u32 (hdrAt a.mem p).next = (hdrAt a.mem p).next := u32_of_lt (read32_lt _ _)
  have hend : o + blkSize a o + blkSize a p ≤ a.bump := by
    obtain ⟨mid, -, rfl, -, rfl, -, ht⟩ := tiles_append.mp h.tiles
    exact tiles_le ht
  have hsum : u32 (blkSize a o + blkSize a p) = blkSize a o + blkSize a p :=
    u32_of_lt (by have := h.bump_lt; omega)
  simp only [mergeNext, hdrAt_setSize ho hx, hdrAt_setNext hp hp, hdrAt_setNext hp ho,
    hdrAt_setNext hp hx, hdrAt_setFree hp hp, hdrAt_setFree hp ho, hdrAt_setFree hp hx,
    hdrAt_setLink hq hp, hdrAt_setLink hq ho, hdrAt_setLink hq hx, if_neg hxp,
    if_neg (Ne.symm hpo), if_neg h.endLink_ne, if_true, hn]
  by_cases hxo : x = o
  · subst hxo
    simp only [if_true, link]
    split <;> (rw [← hsum]; rfl)
  · simp only [if_neg hxo, link]
    split <;> rfl

theorem mergeNext_shape (hofr : blkFree a o ≠ 0) :
    Shape (mergeNext a (endLink none l₁) o p) (o₁ ++ o :: o₂) (l₁ ++ l₂)
      ∧ SameUse a.view (mergeNext a (endLink none l₁) o p).view (o₁ ++ o :: p :: o₂)
          (o₁ ++ o :: o₂) := by
  have hpo : p ≠ o := by
    obtain ⟨mid, -, rfl, hpos, rfl, -, -⟩ := tiles_append.mp h.tiles
    omega
  have hview := fun {x : Nat} (hx : 16 ∣ x) (hxp : x ≠ p) => mergeNext_hdr h hpo hx hxp
  have hrel := mergeNext_relinks a (endLink none l₁) o p
  generalize mergeNext a (endLink none l₁) o p = a' at hview hrel ⊢
  have homem : o ∈ o₁ ++ o :: p :: o₂ := by simp
  have hnd := tiles_nodup h.tiles
  have hnd' : ((o₁ ++ [o]) ++ p :: o₂).Nodup := by simpa using hnd
  have hrest : ∀ x ∈ o₁ ++ o₂, x ∈ o₁ ++ o :: p :: o₂ ∧ x ≠ o ∧ x ≠ p := by
    intro x hx
    refine ⟨by simp at hx ⊢; tauto, ?_, ?_⟩
    · intro he
      refine (List.nodup_cons.mp (List.nodup_middle.mp hnd)).1 (he ▸ ?_)
      simp at hx ⊢
      tauto
    · intro he
      refine (List.nodup_cons.mp (List.nodup_middle.mp hnd')).1 (he ▸ ?_)
      simp at hx ⊢
      tauto
  have hlink : ∀ x ∈ o₁ ++ o :: p :: o₂, x ≠ p →
      a'.view.lk (some x) = if endLink none l₁ = some x then a.view.lk (some p)
        else a.view.lk (some x) := by
    intro x hx hxp
    simp only [view, link, hview (h.dvd hx) hxp]
  obtain ⟨hs, hu⟩ := h.toThreaded.merge hofr hrel.bump
    (by simp [view, blkSize, hview (h.dvd homem) (Ne.symm hpo)])
    (by simp [view, blkFree, hview (h.dvd homem) (Ne.symm hpo)])
    (fun x hx => by
      obtain ⟨hm, hxo, hxp⟩ := hrest x hx
      simp [view, blkSize, blkFree, blkPad, hview (h.dvd hm) hxp, hxo])
    (by
      rcases h.endLink_cases with hq | ⟨x, hq, hx, hxp⟩
      · rw [hq]
        exact hrel.head.trans (if_pos hq)
      · rw [hq, hlink x hx hxp, if_pos hq])
    ⟨fun hne => hrel.head.trans (if_neg (Ne.symm hne)),
      fun x hx hxp hne => (hlink x hx hxp).trans (if_neg (Ne.symm hne))⟩
  exact ⟨⟨hs, hrel.bump_le h.bump_le⟩, hu⟩

end

variable {offs fl : List Nat}

/-- `coalesce_forward` of a block leaves the arena as it is if there is no free block behind
it; else it merges that block, which it finds on the free list. -/
theorem coalesceForward_cases (h : Shape a offs fl) (ho : o ∈ offs) :
    (coalesceForward a o = some a
      ∧ (a.bump ≤ o + blkSize a o ∨ blkFree a (o + blkSize a o) = 0)) ∨
    ∃ o₁ p o₂ l₁ l₂, offs = o₁ ++ o :: p :: o₂ ∧ fl = l₁ ++ p :: l₂ ∧ p = o + blkSize a o
      ∧ coalesceForward a o = some (mergeNext a (endLink none l₁) o p) := by
  have hend : o + blkSize a o ≤ a.bump := h.end_le ho
  have hb := h.bump_lt
  have hnext : u32 (u32 o + (hdrAt a.mem o).size) = o + blkSize a o := by
    rw [u32_of_lt (show o < 2 ^ 32 by omega)]
    exact u32_of_lt (show o + blkSize a o < 2 ^ 32 by omega)
  simp only [coalesceForward, hnext]
  by_cases hlast : a.bump ≤ o + blkSize a o
  · exact .inl ⟨if_pos hlast, .inl hlast⟩
  rw [if_neg hlast]
  by_cases hpfr : (hdrAt a.mem (o + blkSize a o)).free = 0
  · exact .inl ⟨if_pos hpfr, .inr hpfr⟩
  rw [if_neg hpfr]
  -- the next block is on the free list, where `fl_remove` finds it
  obtain ⟨o₁, o₂, rfl⟩ := List.append_of_mem ho
  obtain ⟨o3, rfl⟩ := tiles_next h.tiles (show o + blkSize a o < a.bump by omega)
  generalize hp : o + blkSize a o = p at *
  have hp' : o + a.view.sz o = p := hp
  rw [hp'] at h ho ⊢
  have hpfl : p ∈ fl := (h.mem_fl p).mpr ⟨by simp, hpfr⟩
  rcases findLink_chain (fun o => decide (o = p)) h.chain h.fuel with
    ⟨-, hno⟩ | ⟨l₁, x, l₂, rfl, hf, hx, -⟩
  · exact absurd (hno p hpfl) (by simp)
  · obtain rfl : x = p := of_decide_eq_true hx
    have hf' : findLink a.link arenaNone _ loopFuel none = .at _ := hf
    refine .inr ⟨o₁, x, o3, l₁, l₂, rfl, rfl, rfl, ?_⟩
    simp only [flRemove, hf', Option.map_some]
    rfl

/-- Merging forward touches only free blocks. -/
theorem coalesceForward_spec (h : Shape a offs fl) (ho : o ∈ offs) (hofr : blkFree a o ≠ 0) :
    ∃ a' offs' fl', coalesceForward a o = some a' ∧ Shape a' offs' fl'
      ∧ SameUse a.view a'.view offs offs' ∧ SameWords a a' := by
  rcases coalesceForward_cases h ho with ⟨hc, -⟩ | ⟨o₁, p, o₂, l₁, l₂, rfl, rfl, -, hc⟩
  · exact ⟨a, offs, fl, hc, h, ⟨fun _ => Iff.rfl, fun _ _ => ⟨rfl, rfl⟩⟩, ⟨rfl, rfl, rfl, rfl⟩⟩
  · obtain ⟨hs, hu⟩ := mergeNext_shape h hofr
    exact ⟨_, _, _, hc, hs, hu, (mergeNext_relinks ..).toSameWords⟩

end Merge

/-- Take a block that is being freed out of the account. -/
def discharge (a : Arena) (o : Nat) : Arena :=
  if blkPad a o = blkNoacct then a else acctSub a (blkSize a o)

theorem discharge_view (a : Arena) (o : Nat) : (discharge a o).view = a.view := by
  unfold discharge
  split <;> rfl

theorem discharge_words (a : Arena) (o : Nat) : (discharge a o).bump = a.bump
    ∧ (discharge a o).base = a.base ∧ (discharge a o).size = a.size
    ∧ (discharge a o).ready = a.ready := by
  unfold discharge
  split <;> exact ⟨rfl, rfl, rfl, rfl⟩

theorem hdrOff_payload (a : Arena) (o : Nat) : hdrOff a (a.base + o + hdrSize) = o := by
  unfold hdrOff
  omega

/-- `blyt_arena_free` of a block in use: out of the account, onto the list, merged. -/
theorem arenaFree_inUse (h : Shape a offs fl)
    (hu : a.view.InUse offs o) : arenaFree a (a.base + o + hdrSize)
      = coalesceForward (pushFree (discharge a o) o) o := by
  have hend : o + blkSize a o ≤ a.bump := h.end_le hu.1
  have hb := h.bump_lt
  have hne : a.base + o + hdrSize ≠ 0 := by unfold hdrSize; omega
  have huo : u32 o = o := u32_of_lt (by omega)
  have hfr0 : (hdrAt a.mem o).free = 0 := hu.2
  have hd0 : discharge a o
      = if (hdrAt a.mem o).pad ≠ blkNoacct then acctSub a (hdrAt a.mem o).size else a := by
    unfold discharge blkPad
    by_cases hpad : (hdrAt a.mem o).pad = blkNoacct <;> simp [hpad, blkSize]
  rw [hd0]
  simp only [arenaFree, if_neg hne, hdrOff_payload, hfr0, huo, pushFree]
  rfl

theorem Shape.discharge (h : Shape a offs fl) (o : Nat) : Shape (discharge a o) offs fl := by
  obtain ⟨hbump, -, hsize, -⟩ := discharge_words a o
  exact ⟨by rw [discharge_view]; exact h.toThreaded, by rw [hbump, hsize]; exact h.bump_le⟩

/-- **What `blyt_arena_free` does** to a block in use: it returns, and the block
goes out of use. -/
theorem arenaFree_spec (h : Shape a offs fl) (hu : a.view.InUse offs o) :
    ∃ a' offs' fl', arenaFree a (a.base + o + hdrSize) = some a' ∧ Shape a' offs' fl'
      ∧ Returned a a' offs offs' o := by
  obtain ⟨hs, he⟩ := pushFree_shape (h.discharge o) (by rwa [discharge_view])
  have hpfr := ((hs.mem_fl o).mp (by simp)).2
  obtain ⟨a', offs', fl', hc, hs', hsame, hset⟩ := coalesceForward_spec hs hu.1 hpfr
  obtain ⟨-, hbase, hsize, hready⟩ := discharge_words a o
  rw [discharge_view] at he
  refine ⟨a', offs', fl', (arenaFree_inUse h hu).trans hc, hs', hsame.edit he,
    hset.acct.trans ?_, hset.base.trans hbase, hset.size.trans hsize, hset.ready.trans hready⟩
  unfold discharge
  split <;> rfl

end Blyt
