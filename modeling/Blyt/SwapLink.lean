import Blyt.CartSwap

/-!
# A swapped cart is linked like a fresh one

The libraries stay where they are, and their slots still point into the old cart
when the swap begins. What a slot holds afterwards depends on one thing only,
the word `resolve_elf_plt` stores for its relocation (`plt_word`): a strong
symbol that is found, a weak one that is found or 0. The swap and a fresh link
store the same words, because they look them up in the same table
(`relinkTable_eq`), and nothing that comes later touches a slot. For the bytes
of the new image it is the same the other way round: nothing that comes after
the mapping touches them, but the relocations.
-/

namespace Blyt

open List

/-! ## Relocation slots -/

def WordsApart (a b : Nat) : Prop := a + 4 ≤ b ∨ b + 4 ≤ a

instance (a b : Nat) : Decidable (WordsApart a b) := inferInstanceAs (Decidable (_ ∨ _))

variable {a : Nat} {m : Lib} {syms : List Symbol} {w : Nat × Nat} {r : PltReloc} {ms : List Lib}
  {ws : List (Nat × Nat)} {p q : Patch} {old new : ImageLayout} {x : Nat} {f : Image} {bias : Nat}
  {store : LibStore} {s : HostSession}

theorem WordsApart.symm {b : Nat} (h : WordsApart a b) : WordsApart b a := Or.symm h

def Lib.slot (m : Lib) (r : PltReloc) : Nat := u32 (m.bias + r.rela.offset)

/-- The slots of all relocations of a module. -/
def relocSlots (m : Lib) : List Nat :=
  (applyLibRela m.image m.bias).map Prod.fst ++ (pltRelocs m.image).map m.slot

/-- What `resolve_elf_plt` finds for a relocation; 0 for a weak symbol that is not
there. -/
def pltWord (m : Lib) (syms : List Symbol) (r : PltReloc) : Nat :=
  symtabLookup m.image r.name syms

/-- All words of the lookups, module by module. -/
def pltWords (ms : List Lib) (syms : List Symbol) : List (Nat × Nat) :=
  ms.flatMap fun m => resolveElfPlt m.image m.bias syms

theorem pltWords_cons (m : Lib) (ms : List Lib) (syms : List Symbol) :
    pltWords (m :: ms) syms = resolveElfPlt m.image m.bias syms ++ pltWords ms syms :=
  flatMap_cons

theorem mem_resolveElfPlt
    (h : w ∈ resolveElfPlt m.image m.bias syms) : ∃ r ∈ pltRelocs m.image, w.1 = m.slot r := by
  obtain ⟨r, hr, hw⟩ := mem_filterMap.mp h
  refine ⟨r, hr, ?_⟩
  dsimp only at hw
  split at hw
  · split at hw
    · cases hw
      rfl
    · cases hw
  · cases hw
    rfl

theorem plt_word (hr : r ∈ pltRelocs m.image)
    (hfound : (m.image.sym r.sym).bind ≠ stbWeak → symtabLookup m.image r.name syms ≠ 0) :
    (m.slot r, pltWord m syms r) ∈ resolveElfPlt m.image m.bias syms := by
  refine mem_filterMap.mpr ⟨r, hr, ?_⟩
  dsimp only
  split
  · rename_i h0
    rw [if_pos (not_not.mp fun hb => hfound hb h0), pltWord, h0]
    rfl
  · rfl

theorem resolveElfPlt_sublist (m : Lib) (syms : List Symbol) :
    ((resolveElfPlt m.image m.bias syms).map Prod.fst).Sublist (relocSlots m) := by
  refine .trans ?_ (sublist_append_right _ _)
  rw [resolveElfPlt]
  induction pltRelocs m.image with
  | nil => exact nil_sublist _
  | cons r rs ih =>
    rw [filterMap_cons]
    split
    · exact ih.cons _
    · rename_i w hw
      have hslot : w.1 = m.slot r := by
        dsimp only at hw
        split at hw
        · split at hw
          · cases hw
            rfl
          · cases hw
        · cases hw
          rfl
      rw [map_cons, hslot]
      exact ih.cons_cons _

theorem pltWords_sublist (ms : List Lib) (syms : List Symbol) :
    ((pltWords ms syms).map Prod.fst).Sublist (ms.flatMap relocSlots) := by
  induction ms with
  | nil => exact nil_sublist _
  | cons m ms ih =>
    rw [pltWords_cons, map_append]
    exact (resolveElfPlt_sublist m syms).append ih

/-- If no two slots touch, a word of the lookups is alone on its bytes. -/
theorem pltWords_alone {w' : Nat × Nat} (hapart : (ms.flatMap relocSlots).Pairwise WordsApart)
    (hw : w ∈ pltWords ms syms) (hw' : w' ∈ pltWords ms syms) : w = w' ∨ WordsApart w.1 w'.1 := by
  have hpair := pairwise_map.mp (hapart.sublist (pltWords_sublist ms syms))
  by_cases h : w = w'
  · exact .inl h
  · have : Std.Symm fun w w' : Nat × Nat => WordsApart w.1 w'.1 := ⟨fun _ _ h => h.symm⟩
    exact .inr (hpair.forall hw hw' h)

section Stores

variable [GuestRam]

theorem mem_wordPatches : p ∈ wordPatches ws
    ↔ ∃ w ∈ ws, GuestRam.contains w.1 4 = true ∧ p = Patch.word w.1 w.2 := by
  rw [wordPatches, mem_flatMap]
  refine exists_congr fun w => and_congr_right fun _ => ?_
  rw [storeAt]
  split
  · rename_i h
    rw [mem_singleton]
    exact ⟨fun hp => ⟨h, hp⟩, fun hp => hp.2⟩
  · rename_i h
    exact ⟨fun hp => absurd hp not_mem_nil, fun hp => absurd hp.1 h⟩

theorem storeAt_eq (hp : 0 < p.len) (h : p.start + p.len ≤ emuMemSize) : storeAt p = [p] :=
  if_pos ((GuestRam.contains_iff hp).mpr h)

theorem mem_storeAt (h : q ∈ storeAt p) : q = p ∧ GuestRam.contains p.start p.len = true := by
  rw [storeAt] at h
  split at h
  · rename_i hin
    exact ⟨mem_singleton.mp h, hin⟩
  · cases h

/-! ## Places -/

/-- The region of an image, counted from its base in 32 bits. -/
def ImageLayout.Contains (l : ImageLayout) (x : Nat) : Prop := u32 (x + (2 ^ 32 - l.base)) < l.span

/-- What is cleared belongs to the old image, and not to a new one at the same
base. -/
theorem oldPatches_covers
    (hbase : old.base < 2 ^ 32) (hspan : old.span < 2 ^ 32) (hp : p ∈ oldPatches old new)
    (hx : p.Covers x) : old.Contains x ∧ (old.base = new.base → ¬new.Contains x) := by
  rw [oldPatches] at hp
  split at hp
  · cases hp
  split at hp
  · rename_i hsame
    split at hp
    · rename_i hlt
      obtain ⟨rfl, hin⟩ := mem_storeAt hp
      obtain ⟨h1, h2⟩ := hx
      simp only [Patch.zeros, GuestRam.contains_iff (Nat.sub_pos_of_lt hlt)] at h1 h2 hin
      have hoff : u32 (x + (2 ^ 32 - old.base)) = new.span + (x - u32 (old.base + new.span)) := by
        unfold u32 at h1 h2 ⊢
        omega
      unfold ImageLayout.Contains
      rw [← hsame, hoff]
      exact ⟨by omega, fun _ => by omega⟩
    · cases hp
  · rename_i hne
    obtain ⟨rfl, -⟩ := mem_storeAt hp
    obtain ⟨h1, h2⟩ := hx
    simp only [Patch.zeros] at h1 h2
    refine ⟨?_, fun h => absurd h hne⟩
    unfold ImageLayout.Contains u32
    omega

theorem mem_mapSegment {i : Nat} (h : p ∈ (mapSegment f bias i).1) :
    (f.segment i).type = ptLoad
      ∧ (p = ⟨u32 (bias + (f.segment i).vaddr), (f.segment i).filesz,
          fun k => f.byte ((f.segment i).offset + k)⟩
        ∨ (f.segment i).filesz < (f.segment i).memsz
          ∧ p = .zeros (u32 (u32 (bias + (f.segment i).vaddr) + (f.segment i).filesz))
            ((f.segment i).memsz - (f.segment i).filesz)) := by
  have hseg : f.phdr (phdrAt f i) = f.segment i := rfl
  rw [mapSegment, hseg] at h
  split at h
  · cases h
  split at h
  · cases h
  rename_i htype
  refine ⟨not_not.mp htype, ?_⟩
  split at h
  · cases h
  split at h
  · cases h
  split at h
  · exact .inl (mem_singleton.mp h)
  rename_i hsize
  split at h
  · exact .inl (mem_singleton.mp h)
  · rcases mem_cons.mp h with h | h
    · exact .inl h
    · exact .inr ⟨by omega, mem_singleton.mp h⟩

theorem mem_mapSegments {is : List Nat}
    (h : p ∈ (mapSegments f bias is).1) : ∃ i ∈ is, p ∈ (mapSegment f bias i).1 := by
  induction is with
  | nil => cases h
  | cons i is ih =>
    rw [mapSegments] at h
    rcases hseg : mapSegment f bias i with ⟨ps, ok⟩
    rw [hseg] at h
    cases ok
    · exact ⟨i, mem_cons_self, by rw [hseg]; exact h⟩
    · rcases mem_append.mp h with h | h
      · exact ⟨i, mem_cons_self, by rw [hseg]; exact h⟩
      · obtain ⟨j, hj, hp⟩ := ih h
        exact ⟨j, mem_cons_of_mem _ hj, hp⟩

omit [GuestRam] in
theorem le_foldl_max {l : List Nat} (h : a ∈ l) (n : Nat) : a ≤ l.foldl max n := by
  induction l generalizing n with
  | nil => cases h
  | cons b l ih =>
    have hmono : ∀ (l : List Nat) n, n ≤ l.foldl max n := by
      intro l
      induction l with
      | nil => exact fun n => le_rfl
      | cons c l ih => exact fun n => (le_max_left n c).trans (ih _)
    rcases mem_cons.mp h with rfl | h
    · exact (le_max_right n a).trans (hmono l _)
    · exact ih h _

/-- Segments as ELF has them: no more bytes in the file than in memory, and an
end that is an address. -/
def SegmentsSized (f : Image) : Prop :=
  ∀ i < f.ehdr.phnum, (f.segment i).type = ptLoad →
    (f.segment i).filesz ≤ (f.segment i).memsz ∧ (f.segment i).vaddr + (f.segment i).memsz < 2 ^ 32

instance (f : Image) : Decidable (SegmentsSized f) :=
  inferInstanceAs (Decidable (∀ i < f.ehdr.phnum, _))

/-- What is mapped is in the region that is recorded. -/
theorem mapImage_contains {base : Nat} (hbase : base < 2 ^ 32)
    (hok : (mapImage f base).2 = true) (hsized : SegmentsSized f) (hp : p ∈ (mapImage f base).1)
    (hx : p.Covers x) : (recordCartImageLayout f base).Contains x := by
  have hfits := mapImage_ok_iff.mp hok
  obtain ⟨i, hi, hp⟩ := mem_mapSegments hp
  have hi := mem_range.mp hi
  obtain ⟨htype, hpart⟩ := mem_mapSegment hp
  obtain ⟨hsize, hend⟩ := hsized i hi htype
  have hmem : f.segment i ∈ loadsInFile f := by
    refine mem_filter.mpr ⟨mem_map.mpr ⟨i, ?_, rfl⟩, decide_eq_true htype⟩
    rw [takeWhile_eq_self_iff.mpr fun j hj =>
      decide_eq_true (hfits j (mem_range.mp hj)).header]
    exact mem_range.mpr hi
  have hspan : (f.segment i).vaddr + (f.segment i).memsz ≤ (recordCartImageLayout f base).span := by
    have := le_foldl_max (mem_map_of_mem (f := fun ph => u32 (ph.vaddr + ph.memsz)) hmem) 0
    rwa [u32_of_lt hend] at this
  -- the offset from the base is the address the segment was linked for
  have hoff : ∃ k < (f.segment i).memsz, u32 (x + (2 ^ 32 - base)) = (f.segment i).vaddr + k := by
    obtain ⟨h1, h2⟩ := hx
    rcases hpart with rfl | ⟨hlt, rfl⟩
    · refine ⟨x - u32 (base + (f.segment i).vaddr), ?_, ?_⟩
      · simp only at h1 h2
        omega
      · simp only at h1 h2
        unfold u32 at h1 h2 ⊢
        omega
    · simp only [Patch.zeros] at h1 h2
      refine ⟨(f.segment i).filesz
        + (x - u32 (u32 (base + (f.segment i).vaddr) + (f.segment i).filesz)), ?_, ?_⟩
      · omega
      · unfold u32 at h1 h2 ⊢
        omega
  obtain ⟨k, hk, hoff⟩ := hoff
  show u32 (x + (2 ^ 32 - base)) < _
  rw [hoff]
  omega

/-! ## The words the host sets -/

/-- The runtime's own data words, with their sizes. -/
def hostWords : List (String × Nat) :=
  [("blytc_arena_base", 4), ("blytc_arena_size", 4), ("blytc_arena_ready", 4),
    ("blyt_mem_acct", 8), ("blyt_runtime_flags", 4)]

def HostWord (syms : List Symbol) (x : Nat) : Prop :=
  ∃ w ∈ hostWords, symtabAddr syms w.1 ≠ 0 ∧ symtabAddr syms w.1 ≤ x
    ∧ x < symtabAddr syms w.1 + w.2

theorem arenaWords_covers
    (hp : p ∈ wordPatches (arenaWords syms)) (hx : p.Covers x) : HostWord syms x := by
  obtain ⟨w, hw, -, rfl⟩ := mem_wordPatches.mp hp
  obtain ⟨h1, h2⟩ := hx
  rw [arenaWords] at hw
  split at hw
  · rename_i hne
    rcases mem_cons.mp hw with rfl | hw
    · exact ⟨("blytc_arena_base", 4), by decide, hne.1, h1, h2⟩
    · rw [mem_singleton.mp hw] at h1 h2
      exact ⟨("blytc_arena_size", 4), by decide, hne.2, h1, h2⟩
  · cases hw

/-- A store to one of the words, made if the word is there. -/
theorem hostStore_covers {name : String}
    (hw : (name, q.len) ∈ hostWords) (hstart : q.start = symtabAddr syms name)
    (hp : p ∈ if symtabAddr syms name ≠ 0 then storeAt q else []) (hx : p.Covers x) :
    HostWord syms x := by
  split at hp
  · rename_i hne
    obtain ⟨rfl, -⟩ := mem_storeAt hp
    obtain ⟨h1, h2⟩ := hx
    rw [hstart] at h1 h2
    exact ⟨(name, p.len), hw, hne, h1, h2⟩
  · cases hp

/-- Behind the lookups the swap stores to the host's words and clears the old
image. -/
def relinkRest (syms : List Symbol) (old new : ImageLayout) : List Patch :=
  wordPatches (arenaWords syms)
    ++ (if symtabAddr syms "blytc_arena_ready" ≠ 0 then
        storeAt (.word (symtabAddr syms "blytc_arena_ready") 0)
      else [])
    ++ (if symtabAddr syms "blyt_mem_acct" ≠ 0 then
        storeAt (.zeros (symtabAddr syms "blyt_mem_acct") 8)
      else [])
    ++ oldPatches old new

theorem relinkRest_covers (hp : p ∈ relinkRest syms old new) (hx : p.Covers x) :
    HostWord syms x ∨ p ∈ oldPatches old new := by
  rcases mem_append.mp hp with hp | hp
  · rcases mem_append.mp hp with hp | hp
    · rcases mem_append.mp hp with hp | hp
      · exact .inl (arenaWords_covers hp hx)
      · exact .inl (hostStore_covers (by decide : ("blytc_arena_ready", 4) ∈ hostWords) rfl hp hx)
    · exact .inl (hostStore_covers (by decide : ("blyt_mem_acct", 8) ∈ hostWords) rfl hp hx)
  · exact .inr hp

theorem wordPatches_append (ws ws' : List (Nat × Nat)) :
    wordPatches (ws ++ ws') = wordPatches ws ++ wordPatches ws' := flatMap_append

theorem wordPatches_flatMap (ms : List Lib) (syms : List Symbol) :
    ms.flatMap (fun m => wordPatches (resolveElfPlt m.image m.bias syms))
      = wordPatches (pltWords ms syms) := by
  rw [wordPatches, pltWords, flatMap_assoc]
  rfl

theorem relinkPatches_eq (cart : Lib) (libs : List Lib) (syms : List Symbol)
    (old new : ImageLayout) :
    relinkPatches cart libs syms ++ oldPatches old new
      = wordPatches (pltWords (cart :: libs) syms) ++ relinkRest syms old new := by
  rw [relinkPatches, relinkRest, wordPatches_flatMap, pltWords_cons, wordPatches_append]
  simp

/-! ## Slots -/

/-- A slot after the lookups: the word of its relocation. Only that words of the
lookups do not touch is used, so their order does not matter. -/
theorem read32_pltWords {rest : List Patch} {mem : ByteMem}
    (hws : ∀ w, w ∈ ws ↔ w ∈ pltWords ms syms)
    (hapart : (ms.flatMap relocSlots).Pairwise WordsApart) (hm : m ∈ ms)
    (hr : r ∈ pltRelocs m.image)
    (hfound : (m.image.sym r.sym).bind ≠ stbWeak → symtabLookup m.image r.name syms ≠ 0)
    (hin : GuestRam.contains (m.slot r) 4 = true)
    (hrest : ∀ p ∈ rest, ∀ x, m.slot r ≤ x → x < m.slot r + 4 → ¬p.Covers x) :
    read32 (patchAll mem (wordPatches ws ++ rest)) (m.slot r) = u32 (pltWord m syms r) := by
  have hw : (m.slot r, pltWord m syms r) ∈ pltWords ms syms :=
    mem_flatMap.mpr ⟨m, hm, plt_word hr hfound⟩
  rw [patchAll_append, read32_patchAll_apart hrest]
  refine read32_patchAll (mem_wordPatches.mpr ⟨_, (hws _).mpr hw, hin, rfl⟩) ?_
  intro p hp x h1 h2 hx
  obtain ⟨w, hw', -, rfl⟩ := mem_wordPatches.mp hp
  obtain ⟨h3, h4⟩ := hx
  simp only [Patch.word] at h3 h4
  rcases pltWords_alone hapart ((hws w).mp hw') hw with rfl | hap
  · rfl
  · unfold WordsApart at hap
    omega

/-! ## Swaps -/

def CartFile.lib (cart : CartFile) (base : Nat) : Lib := ⟨[], cart.image, base⟩

/-- Guest memory after a fresh link of these libraries with the cart at `base`. -/
def freshMem (cart : CartFile) (base : Nat) (libs : List Lib) : ByteMem :=
  patchAll (fun _ => 0) ((mapImage cart.image base).1
    ++ linkPatches (cart.lib base) libs cart.isDebug)

/-- The cart can take the place of the one the session runs: every symbol that is
looked up and not weak is there, no two relocation slots touch, slots lie in the
image of their module, segments are sized as ELF has them, and the old image
overlaps neither a library nor, unless both are at one base, the new image. -/
structure Relinkable (s : HostSession) (cart : CartFile) (base : Nat) (libs : List Lib) : Prop where
  base_lt : base < 2 ^ 32
  old_lt : s.layout.base < 2 ^ 32 ∧ s.layout.span < 2 ^ 32
  found : ∀ m ∈ cart.lib base :: libs, ∀ r ∈ pltRelocs m.image,
    (m.image.sym r.sym).bind ≠ stbWeak →
      symtabLookup m.image r.name (linkTable (cart.lib base) libs) ≠ 0
  apart : ((cart.lib base :: libs).flatMap relocSlots).Pairwise WordsApart
  inside : ∀ m ∈ cart.lib base :: libs, ∀ a ∈ relocSlots m, GuestRam.contains a 4 = true
    ∧ ∀ x, a ≤ x → x < a + 4 → ∃ p ∈ (mapImage m.image m.bias).1, p.Covers x
  sized : SegmentsSized cart.image
  oldLibs : ∀ lib ∈ libs, ∀ p ∈ (mapImage lib.image lib.bias).1, ∀ x, p.Covers x →
    ¬s.layout.Contains x
  placed : s.layout.base = base
    ∨ ∀ p ∈ (mapImage cart.image base).1, ∀ x, p.Covers x → ¬s.layout.Contains x

/-- The words the host sets are apart from the slots and from the new image. -/
structure HostWordsApart (cart : CartFile) (base : Nat) (libs : List Lib) : Prop where
  slots : ∀ m ∈ cart.lib base :: libs, ∀ a ∈ relocSlots m, ∀ x, a ≤ x → x < a + 4 →
    ¬HostWord (linkTable (cart.lib base) libs) x
  image : ∀ p ∈ (mapImage cart.image base).1, ∀ x, p.Covers x →
    ¬HostWord (linkTable (cart.lib base) libs) x

/-- Slots and entry points as a fresh link gives them, and the image's bytes
outside the slots as the file has them. -/
structure LinkedLikeFresh (s : HostSession) (cart : CartFile) (base : Nat) (libs : List Lib) :
    Prop where
  slots : ∀ m ∈ cart.lib base :: libs, ∀ r ∈ pltRelocs m.image,
    read32 s.mem (m.slot r) = read32 (freshMem cart base libs) (m.slot r)
  entries : s.entries = resolveCartEntryPoints (linkTable (cart.lib base) libs)
  bytes : ∀ x b, (∃ p ∈ (mapImage cart.image base).1, p.Covers x) →
    (∀ p ∈ (mapImage cart.image base).1, p.Covers x → p.byte (x - p.start) = b) →
    (∀ a ∈ (cart.lib base :: libs).flatMap relocSlots, ¬(a ≤ x ∧ x < a + 4)) → s.mem x = b

section

variable {env : SwapEnv} {s s' : HostSession} {cart : CartFile} {base : Nat} {libs : List Lib}

/-- Nothing the swap does after the lookups touches what is mapped from the cart
or from a library. -/
theorem relinkRest_apart (hok : Relinkable s cart base libs)
    (hmap : (mapImage cart.image base).2 = true) {m : Lib} (hm : m ∈ cart.lib base :: libs)
    {x : Nat} (hin : ∃ p ∈ (mapImage m.image m.bias).1, p.Covers x)
    (hhost : ¬HostWord (linkTable (cart.lib base) libs) x) :
    ∀ p ∈ relinkRest (linkTable (cart.lib base) libs) s.layout
      (recordCartImageLayout cart.image base), ¬p.Covers x := by
  intro p hp hx
  obtain ⟨q, hq, hqx⟩ := hin
  rcases relinkRest_covers hp hx with h | hold
  · exact hhost h
  · obtain ⟨hcontains, hsame⟩ := oldPatches_covers hok.old_lt.1 hok.old_lt.2 hold hx
    rcases mem_cons.mp hm with rfl | hlib
    · rcases hok.placed with hbase | happly
      · exact hsame hbase (mapImage_contains hok.base_lt hmap hok.sized hq hqx)
      · exact happly q hq x hqx hcontains
    · exact hok.oldLibs m hlib q hq x hqx hcontains

theorem swapCart_mem (hswap : swapCart env s cart base = (true, s'))
    (hsyms : appendSymtab (buildSymtab cart.image base []) s.libSyms
      = linkTable (cart.lib base) libs) (hlibs : s.libs = libs) :
    (mapImage cart.image base).2 = true
      ∧ s'.entries = resolveCartEntryPoints (linkTable (cart.lib base) libs)
      ∧ s'.mem = patchAll s.mem ((mapImage cart.image base).1
        ++ wordPatches (applyLibRela cart.image base)
        ++ (wordPatches (pltWords (cart.lib base :: libs) (linkTable (cart.lib base) libs))
          ++ relinkRest (linkTable (cart.lib base) libs) s.layout
            (recordCartImageLayout cart.image base))) := by
  obtain ⟨-, hmap, -, rfl⟩ := swapCart_succeeded hswap
  refine ⟨hmap, ?_, ?_⟩
  · show resolveCartEntryPoints (appendSymtab (buildSymtab cart.image base []) s.libSyms) = _
    rw [hsyms]
  · show patchAll (patchAll s.mem (loadPatches cart.image base))
      (relinkPatches (cart.lib base) s.libs
        (appendSymtab (buildSymtab cart.image base []) s.libSyms) ++ _) = _
    rw [hsyms, hlibs, relinkPatches_eq, loadPatches, if_pos hmap, ← patchAll_append]

/-- **One swap.** The session is linked as a fresh one with the new cart would be. -/
theorem swapCart_linked (hswap : swapCart env s cart base = (true, s'))
    (hsyms : appendSymtab (buildSymtab cart.image base []) s.libSyms
      = linkTable (cart.lib base) libs) (hlibs : s.libs = libs) (hok : Relinkable s cart base libs)
    (hhost : HostWordsApart cart base libs) : LinkedLikeFresh s' cart base libs := by
  obtain ⟨hmap, hentries, hmem⟩ := swapCart_mem hswap hsyms hlibs
  refine ⟨fun m hm r hr => ?_, hentries, fun x b hcov hbyte hslots => ?_⟩
  · have hslot : m.slot r ∈ relocSlots m :=
      mem_append.mpr (.inr (mem_map_of_mem hr))
    obtain ⟨hin, hcov⟩ := hok.inside m hm _ hslot
    have hfound := hok.found m hm r hr
    rw [hmem, patchAll_append, read32_pltWords (fun _ => Iff.rfl) hok.apart hm hr hfound hin]
    · -- the fresh link looks the same words up, the libraries' first
      rw [freshMem, linkPatches, wordPatches_flatMap]
      simp only [append_assoc]
      rw [← append_assoc (wordPatches (pltWords libs _)), ← wordPatches_append,
        patchAll_append, patchAll_append, patchAll_append]
      symm
      refine read32_pltWords ?_ hok.apart hm hr hfound hin ?_
      · intro w
        rw [pltWords_cons, mem_append, mem_append, or_comm]
      · intro p hp x h1 h2 hx
        refine hhost.slots m hm _ hslot x h1 h2 ?_
        rcases mem_append.mp hp with hp | hp
        · exact arenaWords_covers hp hx
        · exact hostStore_covers (by decide : ("blyt_runtime_flags", 4) ∈ hostWords) rfl hp hx
    · intro p hp x h1 h2
      exact relinkRest_apart hok hmap hm (hcov x h1 h2) (hhost.slots m hm _ hslot x h1 h2) p hp
  · -- what comes after the mapping is at slots, or apart from the image
    have hword : ∀ {ws : List (Nat × Nat)},
        (∀ w ∈ ws, w.1 ∈ (cart.lib base :: libs).flatMap relocSlots) →
        ∀ p ∈ wordPatches ws, ¬p.Covers x := by
      intro ws hws p hp hx
      obtain ⟨w, hw, -, rfl⟩ := mem_wordPatches.mp hp
      exact hslots w.1 (hws w hw) hx
    rw [hmem, append_assoc, patchAll_append, patchAll_apart]
    · exact patchAll_agree hcov hbyte
    · intro p hp
      rcases mem_append.mp hp with hp | hp
      · refine hword (fun w hw => ?_) p hp
        refine mem_flatMap.mpr ⟨cart.lib base, mem_cons_self, ?_⟩
        exact mem_append.mpr (.inl (mem_map_of_mem hw))
      · rcases mem_append.mp hp with hp | hp
        · refine hword (fun w hw => ?_) p hp
          obtain ⟨m, hm, hw⟩ := mem_flatMap.mp hw
          obtain ⟨r, hr, hslot⟩ := mem_resolveElfPlt hw
          refine mem_flatMap.mpr ⟨m, hm, mem_append.mpr (.inr ?_)⟩
          rw [hslot]
          exact mem_map_of_mem hr
        · obtain ⟨q, hq, hqx⟩ := hcov
          exact relinkRest_apart hok hmap mem_cons_self ⟨q, hq, hqx⟩ (hhost.image q hq x hqx) p hp

end

/-! ## Whole runs -/

/-- What `dynlink` has left on a new session: the libraries and their symbols. -/
def LinkedSession (store : LibStore) (s : HostSession) : Prop :=
  ∃ f linked, (dynlink store f).2 = some linked ∧ s.libs = linked.libs
    ∧ s.libSyms = linked.libSyms

/-- One step of a session: a swap, whether it succeeds or not, or anything the
session does between two swaps, which leaves the libraries and the record of the
image alone. -/
inductive HostStep : HostSession → HostSession → Prop
  | swap (env : SwapEnv) (s : HostSession) (cart : CartFile) (base : Nat) :
      HostStep s (swapCart env s cart base).2
  | run {s s' : HostSession} (libs : s'.libs = s.libs) (syms : s'.libSyms = s.libSyms)
      (layout : s'.layout = s.layout) : HostStep s s'

theorem swapCart_libs (env : SwapEnv) (s : HostSession) (cart : CartFile) (base : Nat) :
    (swapCart env s cart base).2.libs = s.libs
      ∧ (swapCart env s cart base).2.libSyms = s.libSyms := by
  by_cases hargs : env.args = true
  · by_cases hok : (mapImage cart.image base).2 = true ∧ env.calloc = true
    · rw [swapCart_ok hargs hok.1 hok.2]
      exact ⟨rfl, rfl⟩
    · rw [swapCart_failed hargs hok]
      exact ⟨rfl, rfl⟩
  · rw [swapCart, Bool.not_eq_true _ |>.mp hargs]
    exact ⟨rfl, rfl⟩

theorem LinkedSession.step {s' : HostSession} (h : LinkedSession store s)
    (hstep : HostStep s s') : LinkedSession store s' := by
  obtain ⟨f, linked, hl, hlibs, hsyms⟩ := h
  cases hstep with
  | swap env _ cart base =>
    obtain ⟨h1, h2⟩ := swapCart_libs env s cart base
    exact ⟨f, linked, hl, h1.trans hlibs, h2.trans hsyms⟩
  | run libs syms => exact ⟨f, linked, hl, libs.trans hlibs, syms.trans hsyms⟩

theorem LinkedSession.run {s₀ : HostSession} (h : LinkedSession store s₀)
    (hrun : Relation.ReflTransGen HostStep s₀ s) : LinkedSession store s := by
  induction hrun with
  | refl => exact h
  | tail _ hstep ih => exact ih.step hstep

omit [GuestRam] in
/-- The retained symbols are those a fresh link of the same libraries makes. -/
theorem LinkedSession.libSyms_eq (h : LinkedSession store s) :
    s.libSyms = s.libs.foldl (fun syms lib => buildSymtab lib.image lib.bias syms) [] := by
  obtain ⟨f, linked, hl, hlibs, hsyms⟩ := h
  rw [hsyms, hlibs]
  unfold dynlink at hl
  split at hl
  · cases hl
  · cases hl
    rfl

/-- **Hot swaps.** However a session has got where it is, a swap links the new
cart and the libraries as a fresh link of the same libraries with that cart does. -/
theorem swap_links_like_fresh {store : LibStore} {s₀ s s' : HostSession} {env : SwapEnv}
    {cart : CartFile} {base : Nat} (hnew : LinkedSession store s₀)
    (hrun : Relation.ReflTransGen HostStep s₀ s) (hok : Relinkable s cart base s.libs)
    (hhost : HostWordsApart cart base s.libs) (hswap : swapCart env s cart base = (true, s')) :
    LinkedLikeFresh s' cart base s.libs := by
  refine swapCart_linked hswap ?_ rfl hok hhost
  rw [(hnew.run hrun).libSyms_eq]
  rfl

end Stores

/-- A segment of 16 bytes at 0x1000. -/
def shortSegment : Phdr := ⟨ptLoad, 0x580, 0x1000, 16, 16, 6⟩

/-- A library that calls `blyt_cart_update` through the slot at 0x1004. -/
def relayLib : Lib :=
  ⟨bytesOf "libblyt32.so", linkImage "blyt_cart_update" [1, 0, 0, 0x12]
    [[0x1004, 256 + rRiscvJumpSlot, 0]] [shortSegment] [], 0x08000000⟩

def relayStore : LibStore := demoStore relayLib.image (by decide +kernel)

def relayHost : HostSession := { blankHost with libs := [relayLib] }

/-- A cart whose only symbol, at 0x1000, has this name; its first byte there is 1. -/
def wordCart (name : String) : CartFile :=
  { segmentsCart 0 [] [] with
    image := linkImage name [1, 0x1000, 0, 0x10011] [] [shortSegment] [1] }

theorem relayHost_linked : LinkedSession relayStore relayHost := by
  have hseed : seedNames (linkCart [1] "blyt_exit" 0x12) = [bytesOf "libblyt32.so"] := by
    decide +kernel
  have hsyms : buildSymtab relayLib.image relayLib.bias [] = [] := by decide +kernel
  have hload : loadLibs relayStore maxRuntimeLibs ⟨[bytesOf "libblyt32.so"], 0, []⟩
      = (⟨[bytesOf "libblyt32.so"], 1, [relayLib]⟩, true) := by
    rfl
  refine ⟨linkCart [1] "blyt_exit" 0x12, _, by rw [dynlink, hseed, hload], rfl, ?_⟩
  show ([] : List Symbol)
    = [relayLib].foldl (fun syms lib => buildSymtab lib.image lib.bias syms) []
  rw [foldl_cons, hsyms, foldl_nil]

theorem relayHost_relinkable : Relinkable relayHost (wordCart "blyt_cart_update") 0 [relayLib] := by
  have hslots : ∀ m ∈ [(wordCart "blyt_cart_update").lib 0, relayLib],
      relocSlots m = [] ∨ relocSlots m = [0x08001004] ∧ m.bias = 0x08000000
        ∧ ∃ p ∈ (mapImage m.image m.bias).1, p.start = 0x08001000 ∧ p.len = 16 := by
    decide +kernel
  have hempty : ∀ x, ¬relayHost.layout.Contains x := fun x => Nat.not_lt_zero _
  refine ⟨by decide, by decide, by decide +kernel, by decide +kernel, ?_, by decide +kernel,
    fun _ _ _ _ x _ => hempty x, .inl rfl⟩
  intro m hm a ha
  rcases hslots m hm with h | ⟨h, -, p, hp, hstart, hlen⟩
  · rw [h] at ha
    cases ha
  · rw [h, mem_singleton] at ha
    subst ha
    refine ⟨by decide, fun x h1 h2 => ⟨p, hp, ?_⟩⟩
    unfold Patch.Covers
    omega

/-- The library's slot gets the new cart's function. -/
theorem swap_links_like_fresh_relay : ∃ s',
    swapCart demoSwapEnv relayHost (wordCart "blyt_cart_update") 0 = (true, s')
      ∧ LinkedLikeFresh s' (wordCart "blyt_cart_update") 0 [relayLib] := by
  have hwords : ∀ w ∈ hostWords,
      symtabAddr (linkTable ((wordCart "blyt_cart_update").lib 0) [relayLib]) w.1 = 0 := by
    decide +kernel
  have hnone : ∀ x, ¬HostWord (linkTable ((wordCart "blyt_cart_update").lib 0) [relayLib]) x := by
    rintro x ⟨w, hw, hne, -⟩
    exact hne (hwords w hw)
  have hswap : swapCart demoSwapEnv relayHost (wordCart "blyt_cart_update") 0 = _ :=
    swapCart_ok rfl (by decide +kernel) rfl
  exact ⟨_, hswap, swap_links_like_fresh relayHost_linked .refl relayHost_relinkable
    ⟨fun _ _ _ _ x _ _ => hnone x, fun _ _ x _ => hnone x⟩ hswap⟩

/-- A cart that defines `blytc_arena_ready` itself has its own word cleared: the
byte at 0x1000 is 1 in the file and 0 in memory. -/
theorem arena_ready_cleared :
    LinkedSession relayStore blankHost
      ∧ Relinkable blankHost (wordCart "blytc_arena_ready") 0 []
      ∧ ∃ s', swapCart demoSwapEnv blankHost (wordCart "blytc_arena_ready") 0 = (true, s')
        ∧ ¬LinkedLikeFresh s' (wordCart "blytc_arena_ready") 0 [] := by
  have hseed : seedNames (wordCart "blytc_arena_ready").image = [] := by decide +kernel
  have hslots : relocSlots ((wordCart "blytc_arena_ready").lib 0) = [] := by decide +kernel
  refine ⟨⟨(wordCart "blytc_arena_ready").image, _, by rw [dynlink, hseed]; rfl, rfl, rfl⟩, ?_,
    _, swapCart_ok rfl (by decide +kernel) rfl, fun h => ?_⟩
  · refine ⟨by decide, by decide, by decide +kernel, by decide +kernel, ?_, by decide +kernel,
      nofun, .inl rfl⟩
    intro m hm a ha
    rw [mem_singleton.mp hm, hslots] at ha
    cases ha
  · have hone : ∃ p ∈ (mapImage (wordCart "blytc_arena_ready").image 0).1, p.Covers 0x1000 := by
      decide +kernel
    have hbyte : ∀ p ∈ (mapImage (wordCart "blytc_arena_ready").image 0).1, p.Covers 0x1000 →
        p.byte (0x1000 - p.start) = 1 := by decide +kernel
    have hmem := h.bytes 0x1000 1 hone hbyte (by decide +kernel)
    revert hmem
    decide +kernel

end Blyt
