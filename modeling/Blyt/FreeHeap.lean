import Blyt.LinkList
import Blyt.Tiling

/-!
# Tiled heaps with a threaded free list

What a first-fit allocator keeps: blocks tile `[0, hi)`, and a linked list
runs through exactly the blocks whose free flag is set. A `HeapView` is what
the headers say, as functions of the block's offset; how they are stored is
the client's business, and the lemmas below ask only for the header words an
edit changes and for the ones it keeps.

`Threaded` is the invariant. The edits are: take a free block whole, cut one
in two, append a block, push a block on the list, merge a free block into its
left neighbour. `InUse` blocks are what the outside holds pointers to, and
each edit says what it does to them: one comes into use (`Edit`), one goes out
of use (`Edit` read backwards), or nothing changes (`SameUse`).
-/

namespace Blyt

open List

/-- What the block headers say. -/
structure HeapView where
  sz : Nat → Nat
  fr : Nat → Nat
  tag : Nat → Nat
  lk : Option Nat → Nat
  hi : Nat

/-- Blocks at `offs`, of sizes at least `mn` and multiples of `g`, tile
`[0, hi)`; the free ones are on the list, whose order is `fl`. -/
structure Threaded (g mn nil : Nat) (v : HeapView) (offs fl : List Nat) : Prop where
  tiles : Tiles v.sz 0 v.hi offs
  size_ge : ∀ o ∈ offs, mn ≤ v.sz o
  size_dvd : ∀ o ∈ offs, g ∣ v.sz o
  hi_le : v.hi ≤ nil
  chain : Chain v.lk nil none fl
  nodup : fl.Nodup
  mem_fl : ∀ o, o ∈ fl ↔ o ∈ offs ∧ v.fr o ≠ 0

/-- A block handed out and not yet returned. -/
def HeapView.InUse (v : HeapView) (offs : List Nat) (o : Nat) : Prop :=
  o ∈ offs ∧ v.fr o = 0

/-- The two views agree on the blocks in use. -/
structure SameUse (v w : HeapView) (offs offs' : List Nat) : Prop where
  iff : ∀ x, w.InUse offs' x ↔ v.InUse offs x
  keep : ∀ x, v.InUse offs x → w.sz x = v.sz x ∧ w.tag x = v.tag x

/-- From `v` to `w` block `o` comes into use and nothing else changes for the
blocks in use. Read from right to left it is a block going out of use. -/
structure Edit (v w : HeapView) (offs offs' : List Nat) (o : Nat) : Prop where
  fresh : ¬ v.InUse offs o
  new : w.InUse offs' o
  other : ∀ x, x ≠ o → (w.InUse offs' x ↔ v.InUse offs x)
  keep : ∀ x, v.InUse offs x → w.sz x = v.sz x ∧ w.tag x = v.tag x

theorem SameUse.edit {v u w : HeapView} {offs offs₁ offs' : List Nat} {o : Nat}
    (h : Edit u w offs₁ offs' o) (hs : SameUse u v offs₁ offs) : Edit v w offs offs' o where
  fresh := fun hu => h.fresh ((hs.iff o).mp hu)
  new := h.new
  other := fun x hx => (h.other x hx).trans (hs.iff x).symm
  keep := by
    intro x hx
    have hw := (hs.iff x).mp hx
    obtain ⟨h1, h2⟩ := hs.keep x hw
    obtain ⟨h3, h4⟩ := h.keep x hw
    exact ⟨h3.trans h1.symm, h4.trans h2.symm⟩

namespace Threaded

variable {g mn nil : Nat} {v w : HeapView} {offs fl l₁ l₂ : List Nat} {o : Nat}

section

variable (h : Threaded g mn nil v offs fl)
include h

theorem dvd (ho : o ∈ offs) : g ∣ o :=
  tiles_dvd h.tiles (dvd_zero _) h.size_dvd ho

theorem dvd_hi : g ∣ v.hi :=
  tiles_dvd_hi h.tiles (dvd_zero _) h.size_dvd

theorem end_le (ho : o ∈ offs) : o + v.sz o ≤ v.hi :=
  (tiles_mem h.tiles ho).2.2

theorem pos (ho : o ∈ offs) : 0 < v.sz o :=
  (tiles_mem h.tiles ho).2.1

theorem ne_nil (ho : o ∈ offs) : o ≠ nil := by
  have h1 := h.end_le ho
  have h2 := h.pos ho
  have h3 := h.hi_le
  omega

theorem mem_offs (ho : o ∈ fl) : o ∈ offs :=
  ((h.mem_fl o).mp ho).1

theorem length_le (hmn : 0 < mn) : fl.length ≤ v.hi := by
  have h1 : fl.length ≤ offs.length := (h.nodup.subperm fun o ho => h.mem_offs ho).length_le
  have h2 := tiles_length h.tiles h.size_ge
  have h3 : offs.length ≤ mn * offs.length := Nat.le_mul_of_pos_left _ hmn
  omega

/-- An offset strictly inside a block starts no block. -/
theorem inside_notMem (ho : o ∈ offs) {x : Nat}
    (hlo : o < x) (hhi : x < o + v.sz o) : x ∉ offs := by
  intro hx
  rcases tiles_apart h.tiles ho hx (by omega) with h1 | h1
  · omega
  · omega

end

/-- The link before the block at the cut: the head or a block of the list. -/
theorem endLink_cases (h : Threaded g mn nil v offs (l₁ ++ o :: l₂)) :
    endLink none l₁ = none ∨ ∃ x, endLink none l₁ = some x ∧ x ∈ offs ∧ x ≠ o := by
  have hmem := endLink_mem none l₁
  cases hq : endLink none l₁ with
  | none => exact Or.inl rfl
  | some x =>
    rw [hq] at hmem
    have hx : x ∈ l₁ := by simpa [linksOf] using hmem
    refine Or.inr ⟨x, rfl, h.mem_offs (by simp [hx]), fun he => ?_⟩
    exact (nodup_append.mp h.nodup).2.2 x hx o (by simp) he

theorem mem_cut_iff (h : Threaded g mn nil v offs (l₁ ++ o :: l₂)) {x : Nat} :
    x ∈ l₁ ++ l₂ ↔ x ≠ o ∧ x ∈ offs ∧ v.fr x ≠ 0 := by
  have hnd := (nodup_cons.mp (nodup_middle.mp h.nodup)).1
  have hx := h.mem_fl x
  constructor
  · intro hm
    refine ⟨fun he => hnd (he ▸ hm), hx.mp ?_⟩
    simp only [mem_append, mem_cons] at hm ⊢
    tauto
  · rintro ⟨hne, hm⟩
    have := hx.mpr hm
    simp only [mem_append, mem_cons] at this ⊢
    tauto

end Threaded

/-! ## Edits

Hypotheses common to all: which words of which headers the edit keeps.
-/

/-- Every block of `offs` but `o` keeps size, flag and tag. -/
def KeepsHdrs (v w : HeapView) (offs : List Nat) (o : Nat) : Prop :=
  ∀ x ∈ offs, x ≠ o → w.sz x = v.sz x ∧ w.fr x = v.fr x ∧ w.tag x = v.tag x

/-- Every link but `q` and that of block `o` keeps its word. -/
def KeepsLinks (v w : HeapView) (offs : List Nat) (o : Nat) (q : Option Nat) : Prop :=
  (none ≠ q → w.lk none = v.lk none) ∧
  ∀ x ∈ offs, x ≠ o → some x ≠ q → w.lk (some x) = v.lk (some x)

section Edits

variable {g mn nil : Nat} {v w : HeapView} {offs fl l₁ l₂ : List Nat} {o : Nat}

theorem KeepsLinks.on_cut (h : Threaded g mn nil v offs (l₁ ++ o :: l₂))
    (hlk : KeepsLinks v w offs o (endLink none l₁)) :
    ∀ q ∈ linksOf none (l₁ ++ l₂), q ≠ endLink none l₁ → w.lk q = v.lk q := by
  intro q hq hne
  cases q with
  | none => exact hlk.1 hne
  | some x =>
    have hx : x ∈ l₁ ++ l₂ := by simpa [linksOf] using hq
    obtain ⟨hxo, hxm, -⟩ := h.mem_cut_iff.mp hx
    exact hlk.2 x hxm hxo hne

theorem edit_of_keeps {offs' : List Nat} (hfree : ¬ v.InUse offs o)
    (hnew : w.InUse offs' o) (hkeep : KeepsHdrs v w offs o) (hsub : ∀ x ∈ offs, x ∈ offs')
    (hback : ∀ x ∈ offs', x ≠ o → w.fr x = 0 → x ∈ offs) : Edit v w offs offs' o where
  fresh := hfree
  new := hnew
  other := by
    intro x hx
    constructor
    · rintro ⟨hm, hf⟩
      have hmo := hback x hm hx hf
      exact ⟨hmo, (hkeep x hmo hx).2.1 ▸ hf⟩
    · rintro ⟨hm, hf⟩
      exact ⟨hsub x hm, (hkeep x hm hx).2.1.trans hf⟩
  keep := by
    intro x hx
    have hne : x ≠ o := fun he => hfree (he ▸ hx)
    exact ⟨(hkeep x hx.1 hne).1, (hkeep x hx.1 hne).2.2⟩

/-- Blocks that keep their sizes, under another list. -/
theorem Threaded.relist {fl' : List Nat} (h : Threaded g mn nil v offs fl) (hhi : w.hi = v.hi)
    (hsz : ∀ x ∈ offs, w.sz x = v.sz x) (hchain : Chain w.lk nil none fl') (hnd : fl'.Nodup)
    (hmem : ∀ x, x ∈ fl' ↔ x ∈ offs ∧ w.fr x ≠ 0) : Threaded g mn nil w offs fl' where
  tiles := hhi ▸ tiles_congr hsz h.tiles
  size_ge := fun x hx => hsz x hx ▸ h.size_ge x hx
  size_dvd := fun x hx => hsz x hx ▸ h.size_dvd x hx
  hi_le := hhi ▸ h.hi_le
  chain := hchain
  nodup := hnd
  mem_fl := hmem

theorem KeepsHdrs.size (hkeep : KeepsHdrs v w offs o) (hsz : w.sz o = v.sz o) :
    ∀ x ∈ offs, w.sz x = v.sz x := by
  intro x hx
  by_cases hxo : x = o
  · rw [hxo, hsz]
  · exact (hkeep x hx hxo).1

/-- Nothing happens to a heap whose headers all stay. -/
theorem Threaded.keep (h : Threaded g mn nil v offs fl) (hhi : w.hi = v.hi)
    (hkeep : ∀ x ∈ offs, w.sz x = v.sz x ∧ w.fr x = v.fr x ∧ w.tag x = v.tag x)
    (hhead : w.lk none = v.lk none) (hlk : ∀ x ∈ offs, w.lk (some x) = v.lk (some x)) :
    Threaded g mn nil w offs fl ∧ SameUse v w offs offs := by
  refine ⟨h.relist hhi (fun x hx => (hkeep x hx).1) ?_ h.nodup ?_, ?_, ?_⟩
  · exact chain_transfer h.chain hhead fun x hx => hlk x (h.mem_offs hx)
  · intro x
    refine (h.mem_fl x).trans (and_congr_right fun hx => ?_)
    rw [(hkeep x hx).2.1]
  · intro x
    refine and_congr_right fun hx => ?_
    rw [(hkeep x hx).2.1]
  · intro x hx
    exact ⟨(hkeep x hx.1).1, (hkeep x hx.1).2.2⟩

theorem Threaded.take (h : Threaded g mn nil v offs (l₁ ++ o :: l₂)) (hhi : w.hi = v.hi)
    (hsz : w.sz o = v.sz o) (hfr : w.fr o = 0) (hkeep : KeepsHdrs v w offs o)
    (hprev : w.lk (endLink none l₁) = v.lk (some o))
    (hlk : KeepsLinks v w offs o (endLink none l₁)) :
    Threaded g mn nil w offs (l₁ ++ l₂) ∧ Edit v w offs offs o := by
  obtain ⟨homem, hofr⟩ := (h.mem_fl o).mp (by simp)
  refine ⟨h.relist hhi (hkeep.size hsz) ?_ ?_ ?_, ?_⟩
  · exact chain_unlink h.chain h.nodup hprev (hlk.on_cut h)
  · exact (nodup_cons.mp (nodup_middle.mp h.nodup)).2
  · intro x
    rw [h.mem_cut_iff]
    constructor
    · rintro ⟨hne, hm, hf⟩
      exact ⟨hm, (hkeep x hm hne).2.1.symm ▸ hf⟩
    · rintro ⟨hm, hf⟩
      have hne : x ≠ o := fun he => hf (he ▸ hfr)
      exact ⟨hne, hm, (hkeep x hm hne).2.1 ▸ hf⟩
  · exact edit_of_keeps (fun hu => hofr hu.2) ⟨homem, hfr⟩ hkeep (fun _ hx => hx) fun _ hx _ _ => hx

/-- Cut a free block in two: the front comes into use, the tail `t` takes its
place on the list. -/
theorem Threaded.split {n : Nat} (h : Threaded g mn nil v offs (l₁ ++ o :: l₂)) (hmn : mn ≤ n)
    (hn0 : 0 < n) (hg : g ∣ n) (hrem : n + mn ≤ v.sz o) (hlt : n < v.sz o) (hhi : w.hi = v.hi)
    (hsz : w.sz o = n) (hfr : w.fr o = 0) (htsz : w.sz (o + n) = v.sz o - n)
    (htfr : w.fr (o + n) ≠ 0) (hkeep : KeepsHdrs v w offs o)
    (hprev : w.lk (endLink none l₁) = o + n) (hnext : w.lk (some (o + n)) = v.lk (some o))
    (hlk : KeepsLinks v w offs o (endLink none l₁)) :
    ∃ offs', Threaded g mn nil w offs' (l₁ ++ (o + n) :: l₂) ∧ Edit v w offs offs' o := by
  obtain ⟨homem, hofr⟩ := (h.mem_fl o).mp (by simp)
  have htn : o + n ∉ offs := h.inside_notMem homem (by omega) (by omega)
  have hend := h.end_le homem
  have hnil := h.hi_le
  have htdvd : g ∣ v.sz o - n := Nat.dvd_sub (h.size_dvd o homem) hg
  obtain ⟨o1, o2, hoffs⟩ := append_of_mem homem
  have hmem' : ∀ x, x ∈ o1 ++ o :: (o + n) :: o2 ↔ x = o + n ∨ x = o ∨ x ≠ o ∧ x ∈ offs := by
    intro x
    by_cases hx : x = o
    · simp [hx]
    · simp only [hoffs, mem_append, mem_cons, hx]
      tauto
  have hne : ∀ x ∈ o1 ++ o2, x ≠ o := by
    have hnd := tiles_nodup h.tiles
    rw [hoffs] at hnd
    intro x hx he
    exact (nodup_cons.mp (nodup_middle.mp hnd)).1 (he ▸ hx)
  have hsize : ∀ x ∈ o1 ++ o :: (o + n) :: o2, mn ≤ w.sz x ∧ g ∣ w.sz x := by
    intro x hx
    rcases (hmem' x).mp hx with rfl | rfl | ⟨hxo, hxm⟩
    · exact ⟨by omega, htsz ▸ htdvd⟩
    · exact ⟨by omega, hsz ▸ hg⟩
    · rw [(hkeep x hxm hxo).1]
      exact ⟨h.size_ge x hxm, h.size_dvd x hxm⟩
  refine ⟨o1 ++ o :: (o + n) :: o2, ⟨?_, fun x hx => (hsize x hx).1, fun x hx => (hsize x hx).2,
    hhi ▸ h.hi_le, ?_, ?_, ?_⟩, ?_⟩
  · rw [hhi]
    refine tiles_split (hoffs ▸ h.tiles) hn0 hlt hsz htsz fun x hx => ?_
    exact (hkeep x (by rw [hoffs]; simp at hx ⊢; tauto) (hne x hx)).1

  · exact chain_replace h.chain h.nodup (by omega) hprev hnext (hlk.on_cut h)
  · refine nodup_middle.mpr (nodup_cons.mpr ⟨fun hm => ?_, ?_⟩)
    · exact htn (h.mem_cut_iff.mp hm).2.1
    · exact (nodup_cons.mp (nodup_middle.mp h.nodup)).2
  · intro x
    rw [mem_append, mem_cons, or_left_comm, ← mem_append, h.mem_cut_iff, hmem']
    constructor
    · rintro (rfl | ⟨hxo, hm, hf⟩)
      · exact ⟨Or.inl rfl, htfr⟩
      · exact ⟨Or.inr (Or.inr ⟨hxo, hm⟩), (hkeep x hm hxo).2.1.symm ▸ hf⟩
    · rintro ⟨rfl | rfl | ⟨hxo, hm⟩, hf⟩
      · exact Or.inl rfl
      · exact absurd hfr hf
      · exact Or.inr ⟨hxo, hm, (hkeep x hm hxo).2.1 ▸ hf⟩
  · refine edit_of_keeps (fun hu => hofr hu.2) ⟨(hmem' o).mpr (by simp), hfr⟩ hkeep ?_ ?_
    · intro x hx
      by_cases hxo : x = o
      · exact (hmem' x).mpr (Or.inr (Or.inl hxo))
      · exact (hmem' x).mpr (Or.inr (Or.inr ⟨hxo, hx⟩))
    · intro x hx hxo hf
      rcases (hmem' x).mp hx with rfl | rfl | ⟨-, hm⟩
      · exact absurd hf htfr
      · exact absurd rfl hxo
      · exact hm

theorem Threaded.append {n : Nat} (h : Threaded g mn nil v offs fl) (hmn : mn ≤ n) (hn0 : 0 < n)
    (hg : g ∣ n) (hhi : w.hi = v.hi + n) (hnil : w.hi ≤ nil) (hsz : w.sz v.hi = n)
    (hfr : w.fr v.hi = 0) (hkeep : KeepsHdrs v w offs v.hi) (hhead : w.lk none = v.lk none)
    (hlk : ∀ x ∈ offs, w.lk (some x) = v.lk (some x)) :
    Threaded g mn nil w (offs ++ [v.hi]) fl ∧ Edit v w offs (offs ++ [v.hi]) v.hi := by
  have hne : ∀ x ∈ offs, x ≠ v.hi := by
    intro x hx
    have h1 := h.end_le hx
    have h2 := h.pos hx
    omega
  have hnot : v.hi ∉ offs := fun hm => hne _ hm rfl
  have hmem' : ∀ x, x ∈ offs ++ [v.hi] ↔ x ∈ offs ∨ x = v.hi := by simp
  have hsize : ∀ x ∈ offs ++ [v.hi], mn ≤ w.sz x ∧ g ∣ w.sz x := by
    intro x hx
    rcases (hmem' x).mp hx with hm | rfl
    · rw [(hkeep x hm (hne x hm)).1]
      exact ⟨h.size_ge x hm, h.size_dvd x hm⟩
    · exact ⟨by omega, hsz ▸ hg⟩
  refine ⟨⟨?_, fun x hx => (hsize x hx).1, fun x hx => (hsize x hx).2, hnil, ?_, h.nodup, ?_⟩, ?_⟩
  · rw [hhi]
    exact tiles_snoc h.tiles hn0 hsz fun x hx => (hkeep x hx (hne x hx)).1

  · exact chain_transfer h.chain hhead fun x hx => hlk x (h.mem_offs hx)
  · intro x
    rw [h.mem_fl, hmem']
    constructor
    · rintro ⟨hm, hf⟩
      exact ⟨Or.inl hm, (hkeep x hm (hne x hm)).2.1.symm ▸ hf⟩
    · rintro ⟨hm | rfl, hf⟩
      · exact ⟨hm, (hkeep x hm (hne x hm)).2.1 ▸ hf⟩
      · exact absurd hfr hf
  · refine edit_of_keeps (fun hu => hnot hu.1) ⟨(hmem' _).mpr (Or.inr rfl), hfr⟩ hkeep
      (fun x hx => (hmem' x).mpr (Or.inl hx)) fun x hx hne' _ => ?_
    exact ((hmem' x).mp hx).resolve_right hne'

theorem Threaded.push (h : Threaded g mn nil v offs fl) (hu : v.InUse offs o) (hhi : w.hi = v.hi)
    (hsz : w.sz o = v.sz o) (hfr : w.fr o ≠ 0) (hkeep : KeepsHdrs v w offs o)
    (hhead : w.lk none = o) (hnext : w.lk (some o) = v.lk none)
    (hlk : ∀ x ∈ offs, x ≠ o → w.lk (some x) = v.lk (some x)) :
    Threaded g mn nil w offs (o :: fl) ∧ Edit w v offs offs o := by
  obtain ⟨homem, hofr⟩ := hu
  have honot : o ∉ fl := fun hm => ((h.mem_fl o).mp hm).2 hofr
  have hback : KeepsHdrs w v offs o := by
    intro x hx hxo
    obtain ⟨h1, h2, h3⟩ := hkeep x hx hxo
    exact ⟨h1.symm, h2.symm, h3.symm⟩
  refine ⟨h.relist hhi (hkeep.size hsz) ?_ ?_ ?_, ?_⟩
  · refine chain_push h.chain (h.ne_nil homem) hhead hnext fun x hx => ?_
    exact hlk x (h.mem_offs hx) fun he => honot (he ▸ hx)
  · exact nodup_cons.mpr ⟨honot, h.nodup⟩
  · intro x
    rw [mem_cons, h.mem_fl]
    constructor
    · rintro (rfl | ⟨hm, hf⟩)
      · exact ⟨homem, hfr⟩
      · have hxo : x ≠ o := fun he => hf (he ▸ hofr)
        exact ⟨hm, (hkeep x hm hxo).2.1.symm ▸ hf⟩
    · rintro ⟨hm, hf⟩
      by_cases hxo : x = o
      · exact Or.inl hxo
      · exact Or.inr ⟨hm, (hkeep x hm hxo).2.1 ▸ hf⟩
  · exact edit_of_keeps (fun hu' => hfr hu'.2) ⟨homem, hofr⟩ hback (fun _ hx => hx)
      fun _ hx _ _ => hx

/-- Merge the free block `p` into the free block `o` before it. -/
theorem Threaded.merge {p : Nat} {o₁ o₂ : List Nat}
    (h : Threaded g mn nil v (o₁ ++ o :: p :: o₂) (l₁ ++ p :: l₂)) (hofr : v.fr o ≠ 0)
    (hhi : w.hi = v.hi) (hsz : w.sz o = v.sz o + v.sz p) (hfr : w.fr o = v.fr o)
    (hkeep : ∀ x ∈ o₁ ++ o₂, w.sz x = v.sz x ∧ w.fr x = v.fr x ∧ w.tag x = v.tag x)
    (hprev : w.lk (endLink none l₁) = v.lk (some p))
    (hlk : KeepsLinks v w (o₁ ++ o :: p :: o₂) p (endLink none l₁)) :
    Threaded g mn nil w (o₁ ++ o :: o₂) (l₁ ++ l₂)
      ∧ SameUse v w (o₁ ++ o :: p :: o₂) (o₁ ++ o :: o₂) := by
  have hpfr := ((h.mem_fl p).mp (by simp)).2
  have hnd := tiles_nodup h.tiles
  have hpo : p ≠ o := by
    simp only [nodup_append, nodup_cons, mem_cons, not_or] at hnd
    exact fun he => hnd.2.1.1.1 he.symm
  have hpn : p ∉ o₁ ++ o₂ := by
    have : (p :: (o₁ ++ o :: o₂)).Nodup := by
      have := nodup_middle.mp (show ((o₁ ++ [o]) ++ p :: o₂).Nodup by simpa using hnd)
      simpa using this
    intro hm
    refine (nodup_cons.mp this).1 ?_
    simp only [mem_append, mem_cons] at hm ⊢
    tauto
  have hmem : ∀ x, x ∈ o₁ ++ o :: p :: o₂ ↔ x = o ∨ x = p ∨ x ∈ o₁ ++ o₂ := by
    simp only [mem_append, mem_cons]
    tauto
  have hmem' : ∀ x, x ∈ o₁ ++ o :: o₂ ↔ x = o ∨ x ∈ o₁ ++ o₂ := by
    simp only [mem_append, mem_cons]
    tauto
  have hfr' : ∀ x ∈ o₁ ++ o :: o₂, w.fr x = v.fr x := by
    intro x hx
    rcases (hmem' x).mp hx with rfl | hx
    · exact hfr
    · exact (hkeep x hx).2.1
  have hsize : ∀ x ∈ o₁ ++ o :: o₂, mn ≤ w.sz x ∧ g ∣ w.sz x := by
    intro x hx
    rcases (hmem' x).mp hx with rfl | hx
    · have ho := (hmem x).mpr (Or.inl rfl)
      have hge := h.size_ge x ho
      exact ⟨by omega, hsz ▸ (h.size_dvd x ho).add (h.size_dvd p ((hmem p).mpr (by simp)))⟩
    · have hm := (hmem x).mpr (Or.inr (Or.inr hx))
      rw [(hkeep x hx).1]
      exact ⟨h.size_ge x hm, h.size_dvd x hm⟩
  refine ⟨⟨?_, fun x hx => (hsize x hx).1, fun x hx => (hsize x hx).2, hhi ▸ h.hi_le, ?_, ?_, ?_⟩,
    ?_, ?_⟩
  · rw [hhi]
    exact tiles_merge h.tiles hsz fun x hx => (hkeep x hx).1

  · exact chain_unlink h.chain h.nodup hprev (hlk.on_cut h)
  · exact (nodup_cons.mp (nodup_middle.mp h.nodup)).2
  · intro x
    rw [h.mem_cut_iff, hmem]
    constructor
    · rintro ⟨hxp, hm, hf⟩
      have hm' := (hmem' x).mpr (hm.imp_right (·.resolve_left hxp))
      exact ⟨hm', (hfr' x hm').symm ▸ hf⟩
    · rintro ⟨hm, hf⟩
      refine ⟨fun he => ?_, ?_, hfr' x hm ▸ hf⟩
      · rcases (hmem' x).mp hm with h1 | h1
        · exact hpo (he.symm.trans h1)
        · exact hpn (he ▸ h1)
      · exact ((hmem' x).mp hm).imp_right Or.inr
  · intro x
    constructor
    · rintro ⟨hm, hf⟩
      exact ⟨(hmem x).mpr (((hmem' x).mp hm).imp_right Or.inr), hfr' x hm ▸ hf⟩
    · rintro ⟨hm, hf⟩
      have hxp : x ≠ p := fun he => hpfr (he ▸ hf)
      have hm' := (hmem' x).mpr (((hmem x).mp hm).imp_right (·.resolve_left hxp))
      exact ⟨hm', (hfr' x hm').trans hf⟩
  · rintro x ⟨hm, hf⟩
    have hxp : x ≠ p := fun he => hpfr (he ▸ hf)
    have hxo : x ≠ o := fun he => hofr (he ▸ hf)
    have hx := (((hmem x).mp hm).resolve_left hxo).resolve_left hxp
    exact ⟨(hkeep x hx).1, (hkeep x hx).2.2⟩

end Edits

end Blyt
