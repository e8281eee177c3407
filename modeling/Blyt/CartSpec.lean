import Blyt.CartOpen

/-!
# What an accepted cart satisfies

One lemma per stage of `cartOpen`: what the file is like when the stage goes
through. The selections the stages make - the first 64 segments, the last
section of a name, the entries up to `DT_NULL` - are written as pure functions
of the file, so that they can be compared with those of the loader.
-/

namespace Blyt

open List Reader

variable {f : Image}

/-! ## Segments -/

def Image.segment (f : Image) (i : Nat) : Phdr := f.phdr (f.ehdr.phoff + i * f.ehdr.phentsize)

/-- The `PT_LOAD` headers among these indices. -/
def loadsOf (f : Image) (is : List Nat) : List Phdr :=
  (is.map f.segment).filter fun ph => decide (ph.type = ptLoad)

/-- All `PT_LOAD` headers, in the order the loader maps them. -/
def Image.loads (f : Image) : List Phdr := loadsOf f (range f.ehdr.phnum)

/-- Two half-open ranges have no point in common. -/
def RangesApart (a alen b blen : Nat) : Prop :=
  ∀ x, a ≤ x → x < a + alen → b ≤ x → x < b + blen → False

/-- File ranges and address ranges of two segments are disjoint. -/
def SegsApart (a b : Phdr) : Prop :=
  RangesApart a.offset a.filesz b.offset b.filesz ∧ RangesApart a.vaddr a.memsz b.vaddr b.memsz

theorem rangesOverlap_eq_false {a alen b blen : Nat} :
    rangesOverlap a alen b blen = false ↔ RangesApart a alen b blen := by
  unfold rangesOverlap RangesApart
  split
  · exact ⟨fun _ x h1 h2 h3 h4 => by omega, fun _ => rfl⟩
  · rw [decide_eq_false_iff_not]
    constructor
    · intro h x h1 h2 h3 h4
      exact h ⟨by omega, by omega⟩
    · rintro h ⟨h1, h2⟩
      -- the larger of the two starts lies in both
      exact h (max a b) (le_max_left _ _) (by omega) (le_max_right _ _) (by omega)

variable {u : Unit} {l : List Phdr} {ph : Phdr} {n i : Nat} {s : Segs} {p : Nat} {sh : Shdr}
  {found : Found} {pos : Nat} {lua : Bool} {dynsym : Shdr} {j : Nat} {v : Flat}

theorem gives_checkPair {a b : Phdr} : (checkPair a b).Gives f u ↔ SegsApart a b := by
  unfold checkPair SegsApart
  rw [gives_bind]
  simp only [gives_need, rangesOverlap_eq_false]
  exact ⟨fun ⟨_, h⟩ => h, fun h => ⟨(), h⟩⟩

theorem gives_checkOverlap : (checkOverlap l).Gives f u ↔ l.Pairwise SegsApart := by
  induction l with
  | nil => exact ⟨fun _ => List.Pairwise.nil, fun _ => gives_pure.mpr rfl⟩
  | cons a rest ih =>
    rw [checkOverlap, gives_bind, pairwise_cons, ← ih]
    simp only [gives_forEach, gives_checkPair]
    exact ⟨fun ⟨_, h⟩ => h, fun h => ⟨(), h⟩⟩

/-- No trap at an even distance from the segment's first byte. -/
theorem gives_scanOpcodes :
    (scanOpcodes ph).Gives f u ↔ (ph.exec = true → ∀ k, 2 * k + 4 ≤ ph.filesz →
      isTrap (f.slice (ph.offset + 2 * k) 4) = false) := by
  unfold scanOpcodes
  split
  · rename_i hskip
    refine ⟨fun _ hx k hk => ?_, fun _ => gives_pure.mpr rfl⟩
    rcases hskip with hx' | hsz
    · rw [hx'] at hx
      cases hx
    · omega
  · rename_i hscan
    rw [gives_forEach]
    have hx : ph.exec = true := by
      by_contra hne
      exact hscan (Or.inl (by simpa using hne))
    constructor
    · intro h _ k hk
      obtain ⟨code, hcode, hok⟩ := gives_bind.mp (h k (mem_range.mpr (by omega)))
      rw [gives_fetch.mp hcode]
      exact gives_need.mp hok
    · intro h k hk
      have hk' := mem_range.mp hk
      exact gives_bind.mpr ⟨_, gives_fetch.mpr rfl, gives_need.mpr (h hx k (by omega))⟩

theorem gives_checkLoad (h : (checkLoad ph).Gives f u) : ph.offset + ph.filesz ≤ f.size := by
  simp only [checkLoad, gives_bind, gives_fileSize, gives_need] at h
  obtain ⟨n, rfl, -, -, h⟩ := h
  exact h

/-- Once 64 segments are in the table, the rest is dropped. -/
theorem take_snoc_of_full (x : Phdr) :
    (l ++ [x]).take n = if (l.take n).length < n then l.take n ++ [x] else l.take n := by
  by_cases hl : l.length < n
  · have hfull : (l ++ [x]).length ≤ n := by
      rw [length_append, length_singleton]
      omega
    rw [take_of_length_le hfull, take_of_length_le hl.le, if_pos hl]
  · rw [length_take, if_neg (by omega), take_append_of_le_length (by omega)]

theorem checkPhdr_loads {done : List Nat} {s' : Segs} (hs : s.loads = (loadsOf f done).take maxLoad
      ∧ ∀ ph ∈ loadsOf f done, ph.offset + ph.filesz ≤ f.size)
    (h : (checkPhdr f.ehdr s i).Gives f s') :
    s'.loads = (loadsOf f (done ++ [i])).take maxLoad
      ∧ ∀ ph ∈ loadsOf f (done ++ [i]), ph.offset + ph.filesz ≤ f.size := by
  simp only [checkPhdr, gives_bind, gives_onlyIf, gives_pure] at h
  obtain ⟨ph, hph, -, -, -, -, u, hload, rfl⟩ := h
  obtain rfl : f.segment i = ph := gives_fetch.mp hph
  have hsnoc : loadsOf f (done ++ [i])
      = loadsOf f done ++ if (f.segment i).type = ptLoad then [f.segment i] else [] := by
    unfold loadsOf
    by_cases ht : (f.segment i).type = ptLoad <;> simp [ht]
  split at hsnoc <;> rename_i ht
  · rw [hsnoc, take_snoc_of_full]
    refine ⟨?_, forall_mem_append.mpr ⟨hs.2, forall_mem_singleton.mpr (gives_checkLoad (hload ht))⟩⟩
    simp [ht, hs.1]
  · rw [append_nil] at hsnoc
    rw [hsnoc]
    refine ⟨?_, hs.2⟩
    simp [ht, hs.1]

/-- The table after the loop: the first 64 segments, all in the file. -/
theorem collect_loads {s₀ : Segs} (h₀ : s₀.loads = [])
    (h : (foldOver (checkPhdr f.ehdr) s₀ (range f.ehdr.phnum)).Gives f s) :
    s.loads = f.loads.take maxLoad ∧ ∀ ph ∈ f.loads, ph.offset + ph.filesz ≤ f.size :=
  foldOver_inv (P := fun done s =>
    s.loads = (loadsOf f done).take maxLoad
      ∧ ∀ ph ∈ loadsOf f done, ph.offset + ph.filesz ≤ f.size)
    (fun _ _ _ _ hs hgives => checkPhdr_loads hs hgives) ⟨h₀, by simp [loadsOf]⟩ h

/-- **The segment checks.** Every segment's file range is in the file; the first
64 are apart and hold no trap at an even distance from their start. -/
theorem checkSegments_spec (h : (checkSegments f.ehdr).Gives f u) :
    (∀ ph ∈ f.loads, ph.offset + ph.filesz ≤ f.size)
      ∧ (f.loads.take maxLoad).Pairwise SegsApart
      ∧ ∀ ph ∈ f.loads.take maxLoad, ph.exec = true → ∀ k, 2 * k + 4 ≤ ph.filesz →
        isTrap (f.slice (ph.offset + 2 * k) 4) = false := by
  unfold checkSegments at h
  split at h
  · rename_i hzero
    have hnil : f.loads = [] := by rw [Image.loads, hzero]; rfl
    rw [hnil]
    simp
  · simp only [gives_bind, gives_checkOverlap, gives_forEach, gives_scanOpcodes] at h
    obtain ⟨-, -, n, -, -, -, segs, hfold, -, -, -, -, -, -, _, hpairs, hscan⟩ := h
    obtain ⟨hloads, hin⟩ := collect_loads rfl hfold
    rw [hloads] at hpairs hscan
    exact ⟨hin, hpairs, hscan⟩

/-! ## Sections -/

namespace Image

def sects (f : Image) : List Shdr := (range f.ehdr.shnum).map f.sect

/-- The section that holds the section names. -/
def strtab (f : Image) : Shdr := f.sect f.ehdr.shstrndx

/-- Does the section's name, read as a C string, equal this one? -/
def hasName (f : Image) (name : String) (sh : Shdr) : Bool :=
  f.strIs (f.strtab.offset + sh.name) (bytesOf name)

/-- The section the verifier settles on for a name: the last one. -/
def lastNamed (f : Image) (name : String) (l : List Shdr) : Option Shdr :=
  (l.filter (f.hasName name)).getLast?

def lastDynsym (l : List Shdr) : Option Shdr :=
  (l.filter fun sh => decide (sh.type = shtDynsym)).getLast?

end Image

theorem getLast?_filter_snoc {α : Type} (p : α → Bool) (l : List α) (x : α) :
    ((l ++ [x]).filter p).getLast? = if p x then some x else (l.filter p).getLast? := by
  cases hp : p x <;> simp [hp]

theorem gives_note {name : String} {old r : Option Shdr} :
    (note p name sh old).Gives f r ↔ r = if f.strIs p (bytesOf name) then some sh else old := by
  constructor
  · intro h
    obtain ⟨hit, hhit, h⟩ := gives_bind.mp h
    obtain rfl := gives_strEq.unique hhit
    exact (gives_pure.mp h).symm
  · rintro rfl
    exact gives_bind.mpr ⟨_, gives_strEq, gives_pure.mpr rfl⟩

/-- What the walk has established about the sections it has passed. -/
structure Walked (f : Image) (l : List Shdr) (found : Found) : Prop where
  name_lt : ∀ sh ∈ l, sh.name < f.strtab.size
  inside : ∀ sh ∈ l, sh.type = shtNobits ∨ sh.size = 0 ∨ sh.offset + sh.size ≤ f.size
  cartInfo : found.cartInfo = f.lastNamed ".cart.info" l
  cartConfig : found.cartConfig = f.lastNamed ".cart.config" l
  cartLayouts : found.cartLayouts = f.lastNamed ".cart.layouts" l
  cartLua : found.cartLua = f.lastNamed ".cart.lua" l
  dynamic : found.dynamic = f.lastNamed ".dynamic" l
  dynstr : found.dynstr = f.lastNamed ".dynstr" l
  dynsym : found.dynsym = Image.lastDynsym l

theorem walkSection_spec {l : List Shdr} {found' : Found}
    (hw : Walked f l found) (h : (walkSection f.ehdr f.strtab found i).Gives f found') :
    Walked f (l ++ [f.sect i]) found' := by
  simp only [walkSection, gives_bind, gives_fileSize, gives_need, gives_pure] at h
  obtain ⟨n, rfl, sh, hsh, _, hname, denied, -, -, -, _, hin, dwarf, -, h⟩ := h
  obtain ⟨r1, h1, r2, h2, r3, h3, r4, h4, r5, h5, r6, h6, rfl⟩ := h
  obtain rfl : f.sect i = sh := gives_fetch.mp hsh
  -- each remembered section is the last of its name so far
  have hlast : ∀ {name : String} {old r : Option Shdr}, old = f.lastNamed name l →
      (note (f.strtab.offset + (f.sect i).name) name (f.sect i) old).Gives f r →
      r = f.lastNamed name (l ++ [f.sect i]) := by
    intro name old r hold hr
    rw [gives_note.mp hr, hold]
    exact (getLast?_filter_snoc (f.hasName name) l (f.sect i)).symm
  refine ⟨?_, ?_, hlast hw.cartInfo h1, hlast hw.cartConfig h2, hlast hw.cartLayouts h3,
    hlast hw.cartLua h4, hlast hw.dynamic h5, hlast hw.dynstr h6, ?_⟩
  · exact forall_mem_append.mpr ⟨hw.name_lt, forall_mem_singleton.mpr hname⟩
  · exact forall_mem_append.mpr ⟨hw.inside, forall_mem_singleton.mpr hin⟩
  · show (if (f.sect i).type = shtDynsym then some (f.sect i) else found.dynsym) = _
    rw [Image.lastDynsym, getLast?_filter_snoc, hw.dynsym]
    simp only [decide_eq_true_eq]
    rfl

theorem walkSections_spec (h : (walkSections f.ehdr).Gives f found) :
    f.ehdr.shoff + f.ehdr.shnum * f.ehdr.shentsize ≤ f.size ∧ shdrSize ≤ f.ehdr.shentsize
      ∧ f.ehdr.shstrndx < f.ehdr.shnum ∧ f.strtab.offset + f.strtab.size ≤ f.size
      ∧ Walked f f.sects found := by
  simp only [walkSections, gives_bind, gives_fileSize, gives_need] at h
  obtain ⟨_, ⟨h40, -, hndx⟩, n, rfl, _, htab, sh, hsh, _, hstr, h⟩ := h
  obtain rfl : f.strtab = sh := gives_fetch.mp hsh
  refine ⟨htab, h40, hndx, hstr, ?_⟩
  have hfold := foldOver_inv (P := fun done s => Walked f (done.map f.sect) s)
    (fun done i s s' hs hgives => by
      rw [map_append]
      exact walkSection_spec hs hgives)
    ⟨by simp, by simp, rfl, rfl, rfl, rfl, rfl, rfl, rfl⟩ h
  exact hfold

/-! ## Needed libraries -/

namespace Image

/-- The dynamic entries from `pos` on, up to `DT_NULL`. -/
def dynPos (f : Image) (stride : Nat) : Nat → Nat → List Nat
  | 0, _ => []
  | n + 1, pos =>
    if (f.dyn pos).tag = dtNull then [] else pos :: f.dynPos stride n (pos + stride)

def strtabAt (f : Image) (addr : Nat) : List Nat → Option Nat
  | [] => none
  | k :: ks =>
    if (f.sect k).type = shtStrtab ∧ (f.sect k).addr = addr then some (f.sect k).offset
    else f.strtabAt addr ks

def dynStrings (f : Image) (entries : List Nat) : Option Nat × Nat :=
  entries.foldl (fun st pos =>
    if (f.dyn pos).tag = dtStrtab then
      ((f.strtabAt (f.dyn pos).val (range f.ehdr.shnum)).or st.1, st.2)
    else if (f.dyn pos).tag = dtStrsz then (st.1, (f.dyn pos).val)
    else st) (none, 0)

/-- The entries the verifier looks at: those of the last section named
`.dynamic`, at the distance the section declares. -/
def verifierEntries (f : Image) : List Nat :=
  match f.lastNamed ".dynamic" f.sects with
  | none => []
  | some sh => f.dynPos sh.entsize (sh.size / sh.entsize) sh.offset

/-- The string table it reads their names from: where `DT_STRTAB` points to. -/
def verifierStrtab (f : Image) : Option Nat := (f.dynStrings f.verifierEntries).1

/-- Does the entry at `pos` need this library, read through that string table? -/
def needs (f : Image) (strtab pos : Nat) (name : String) : Bool :=
  decide ((f.dyn pos).tag = dtNeeded) && f.strIs (strtab + (f.dyn pos).val) (bytesOf name)

/-- The cart needs `libblyt32lua.so`. -/
def needsLua (f : Image) : Bool :=
  f.verifierEntries.any fun pos =>
    f.verifierStrtab.any fun strtab => f.needs strtab pos "libblyt32lua.so"

end Image

theorem gives_dynEntries {stride : Nat} :
    (dynEntries stride n pos).Gives f (f.dynPos stride n pos) := by
  induction n generalizing pos with
  | zero => exact gives_pure.mpr rfl
  | succ n ih =>
    refine gives_bind.mpr ⟨_, gives_fetch.mpr rfl, ?_⟩
    rw [Image.dynPos]
    split
    · exact gives_pure.mpr rfl
    · exact gives_bind.mpr ⟨_, ih, gives_pure.mpr rfl⟩

theorem gives_findStrtab {ks : List Nat} :
    (findStrtab f.ehdr pos ks).Gives f (f.strtabAt (f.dyn pos).val ks) := by
  induction ks with
  | nil => exact gives_pure.mpr rfl
  | cons k ks ih =>
    refine gives_bind.mpr ⟨_, gives_fetch.mpr rfl, ?_⟩
    rw [Image.strtabAt]
    show Gives (if (f.sect k).type = shtStrtab then _ else _) f _
    by_cases htype : (f.sect k).type = shtStrtab
    · simp only [htype, if_true, true_and]
      refine gives_bind.mpr ⟨_, gives_fetch.mpr rfl, ?_⟩
      show Gives (if (f.sect k).addr = (f.dyn pos).val then _ else _) f _
      split
      · exact gives_pure.mpr rfl
      · exact ih
    · rw [if_neg htype, if_neg fun h => htype h.1]
      exact ih

theorem gives_noteDyn (st : Option Nat × Nat) (pos : Nat) : (noteDyn f.ehdr st pos).Gives f
    (if (f.dyn pos).tag = dtStrtab then
      ((f.strtabAt (f.dyn pos).val (range f.ehdr.shnum)).or st.1, st.2)
    else if (f.dyn pos).tag = dtStrsz then (st.1, (f.dyn pos).val) else st) := by
  refine gives_bind.mpr ⟨_, gives_fetch.mpr rfl, ?_⟩
  split
  · exact gives_bind.mpr ⟨_, gives_findStrtab, gives_pure.mpr rfl⟩
  · split
    · exact gives_bind.mpr ⟨_, gives_fetch.mpr rfl, gives_pure.mpr rfl⟩
    · exact gives_pure.mpr rfl

theorem gives_dynStrings {entries : List Nat} :
    (foldOver (noteDyn f.ehdr) (none, 0) entries).Gives f (f.dynStrings entries) :=
  gives_foldOver gives_noteDyn _ _

/-- One entry: a needed library must be on the list. -/
theorem checkNeededEntry_spec {st : Option Nat × Nat} {lua' : Bool}
    (h : (checkNeededEntry st lua pos).Gives f lua') :
    ((f.dyn pos).tag = dtNeeded → ∃ strtab, st.1 = some strtab
      ∧ ∃ name ∈ neededAllowlist, f.needs strtab pos name = true)
    ∧ lua' = (lua || st.1.any fun strtab => f.needs strtab pos "libblyt32lua.so") := by
  obtain ⟨d, hd, h⟩ := gives_bind.mp h
  obtain rfl := gives_fetch.mp hd
  by_cases ht : (f.dyn pos).tag = dtNeeded
  · rw [if_neg (not_not.mpr ht)] at h
    cases hst : st.1 with
    | none =>
      rw [hst] at h
      exact absurd h not_gives_fail
    | some strtab =>
      rw [hst] at h
      simp only [gives_bind, gives_need, gives_pure] at h
      obtain ⟨val, hval, -, -, allowed, hallowed, _, hok, isLua, hlua, h⟩ := h
      obtain rfl := gives_fetch.mp hval
      obtain rfl := gives_strEq.unique hlua
      rw [(gives_anyOf (fun _ => gives_strEq) neededAllowlist).unique hallowed |>.symm] at hok
      obtain ⟨name, hname, hit⟩ := any_eq_true.mp hok
      refine ⟨fun _ => ⟨strtab, rfl, name, hname, ?_⟩, ?_⟩
      · rw [Image.needs, hit, decide_eq_true ht]
        rfl
      · rw [Option.any_some, Image.needs, decide_eq_true ht, Bool.true_and, h]
  · rw [if_pos ht] at h
    refine ⟨fun ht' => absurd ht' ht, ?_⟩
    have hno : (st.1.any fun strtab => f.needs strtab pos "libblyt32lua.so") = false := by
      cases st.1 <;> simp [Image.needs, ht]
    rw [hno, Bool.or_false]
    exact (gives_pure.mp h).symm

theorem checkNeeded_spec (hw : Walked f f.sects found)
    (h : (checkNeeded f.ehdr found).Gives f lua) :
    (∀ pos ∈ f.verifierEntries, (f.dyn pos).tag = dtNeeded → ∃ strtab,
      f.verifierStrtab = some strtab ∧ ∃ name ∈ neededAllowlist, f.needs strtab pos name = true)
    ∧ lua = f.needsLua := by
  unfold checkNeeded at h
  rw [hw.dynamic] at h
  cases hdyn : f.lastNamed ".dynamic" f.sects with
  | none =>
    rw [hdyn] at h
    have hnil : f.verifierEntries = [] := by rw [Image.verifierEntries, hdyn]
    rw [Image.needsLua, hnil]
    exact ⟨by simp, (gives_pure.mp h).symm⟩
  | some =>
    rw [hdyn] at h
    obtain ⟨-, -, h⟩ := gives_bind.mp h
    obtain ⟨entries, hent, h⟩ := gives_bind.mp h
    obtain ⟨st, hst, h⟩ := gives_bind.mp h
    obtain rfl : f.verifierEntries = entries := by
      rw [Image.verifierEntries, hdyn]
      exact gives_dynEntries.unique hent
    obtain rfl := gives_dynStrings.unique hst
    -- over the entries seen so far: all allowed, and the flag is their disjunction
    exact foldOver_inv (P := fun done lua =>
      (∀ pos ∈ done, (f.dyn pos).tag = dtNeeded → ∃ strtab, f.verifierStrtab = some strtab
        ∧ ∃ name ∈ neededAllowlist, f.needs strtab pos name = true)
      ∧ lua = done.any fun pos => f.verifierStrtab.any fun strtab =>
        f.needs strtab pos "libblyt32lua.so")
      (fun done pos lua lua' hs hgives => by
        obtain ⟨hallowed, hlua⟩ := checkNeededEntry_spec hgives
        refine ⟨forall_mem_append.mpr ⟨hs.1, forall_mem_singleton.mpr hallowed⟩, ?_⟩
        rw [hlua, hs.2, any_append, any_cons, any_nil, Bool.or_false]
        rfl)
      ⟨by simp, rfl⟩ h

/-! ## Imports -/

/-- A name a cart may import: on the list or, for a Lua cart, of the Lua API. -/
def AllowedImport (f : Image) (lua : Bool) (p : Nat) : Prop :=
  (∃ name ∈ symbolAllowlist, f.strIs p (bytesOf name) = true)
    ∨ lua = true ∧ (f.strStarts p (bytesOf "lua_") = true ∨ f.strStarts p (bytesOf "luaL_") = true)

/-- The string table the verifier reads symbol names from. -/
def Image.importStrtab (f : Image) (dynsym : Shdr) : Option (Nat × Nat) :=
  match f.lastNamed ".dynstr" f.sects with
  | some sh => some (sh.offset, sh.size)
  | none =>
    if dynsym.link < f.ehdr.shnum then
      some ((f.sect dynsym.link).offset, (f.sect dynsym.link).size)
    else none

theorem gives_isLuaApi :
    (isLuaApi lua p).Gives f
      (lua && (f.strStarts p (bytesOf "lua_") || f.strStarts p (bytesOf "luaL_"))) := by
  cases lua with
  | false => exact gives_pure.mpr rfl
  | true =>
    refine gives_bind.mpr ⟨_, gives_strNEq, ?_⟩
    cases f.strStarts p (bytesOf "lua_") with
    | true => exact gives_pure.mpr rfl
    | false => exact gives_strNEq

theorem gives_symStrtab (hw : Walked f f.sects found) :
    (symStrtab f.ehdr found dynsym).Gives f (f.importStrtab dynsym) := by
  unfold symStrtab Image.importStrtab
  rw [hw.dynstr]
  cases f.lastNamed ".dynstr" f.sects with
  | some => exact gives_pure.mpr rfl
  | none =>
    simp only
    split
    · exact gives_bind.mpr ⟨_, gives_fetch.mpr rfl, gives_pure.mpr rfl⟩
    · exact gives_pure.mpr rfl

theorem checkImport_spec {symstr : Option (Nat × Nat)}
    (h : (checkImport dynsym symstr lua j).Gives f u)
    (hbind : (f.sym (dynsym.offset + j * dynsym.entsize)).bind = stbGlobal)
    (hundef : (f.sym (dynsym.offset + j * dynsym.entsize)).shndx = shnUndef) :
    ∃ off size, symstr = some (off, size)
      ∧ AllowedImport f lua (off + (f.sym (dynsym.offset + j * dynsym.entsize)).name) := by
  obtain ⟨sym, hsym, h⟩ := gives_bind.mp h
  obtain rfl := gives_fetch.mp hsym
  rw [if_neg (by simp [hbind, hundef])] at h
  cases symstr with
  | none => exact absurd h not_gives_fail
  | some st =>
    obtain ⟨off, size⟩ := st
    refine ⟨off, size, rfl, ?_⟩
    obtain ⟨-, -, h⟩ := gives_bind.mp h
    obtain ⟨luaApi, hapi, h⟩ := gives_bind.mp h
    obtain rfl := gives_isLuaApi.unique hapi
    split at h
    · rename_i hlua
      rw [Bool.and_eq_true, Bool.or_eq_true] at hlua
      exact Or.inr hlua
    · obtain ⟨allowed, hallowed, h⟩ := gives_bind.mp h
      rw [(gives_anyOf (fun _ => gives_strEq) symbolAllowlist).unique hallowed |>.symm] at h
      exact Or.inl (any_eq_true.mp (gives_need.mp h))

/-- **The imports.** Every global undefined symbol of the last dynamic symbol
table has an allowed name. -/
theorem checkImports_spec (hw : Walked f f.sects found)
    (h : (checkImports f.ehdr found lua).Gives f u) (hds : Image.lastDynsym f.sects = some dynsym)
    (hj : j < dynsym.size / dynsym.entsize)
    (hbind : (f.sym (dynsym.offset + j * dynsym.entsize)).bind = stbGlobal)
    (hundef : (f.sym (dynsym.offset + j * dynsym.entsize)).shndx = shnUndef) :
    ∃ off size, f.importStrtab dynsym = some (off, size)
      ∧ AllowedImport f lua (off + (f.sym (dynsym.offset + j * dynsym.entsize)).name) := by
  unfold checkImports at h
  rw [hw.dynsym, hds] at h
  obtain ⟨-, -, h⟩ := gives_bind.mp h
  obtain ⟨symstr, hstr, h⟩ := gives_bind.mp h
  obtain rfl := (gives_symStrtab hw).unique hstr
  exact checkImport_spec (gives_forEach.mp h j (mem_range.mpr hj)) hbind hundef

/-! ## Layouts, and the whole -/

theorem checkLayouts_spec (hw : Walked f f.sects found) (h : (checkLayouts v found).Gives f u)
    (hsh : f.lastNamed ".cart.layouts" f.sects = some sh) :
    preambleSize ≤ sh.size
      ∧ v.layoutsVerify (f.slice (sh.offset + preambleSize) (sh.size - preambleSize)) = true := by
  unfold checkLayouts at h
  rw [hw.cartLayouts, hsh] at h
  simp only [sectionBody, gives_bind, gives_need, gives_fetch] at h
  obtain ⟨body, ⟨_, hsize, t, -, -, -, major, -, -, -, -, -, rfl⟩, hok⟩ := h
  exact ⟨hsize, hok⟩

theorem cartOpen_stages {cart : Cart} (h : (cartOpen v).Gives f cart) :
    ehdrSize ≤ f.size ∧ ∃ found lua, (checkSegments f.ehdr).Gives f ()
      ∧ (walkSections f.ehdr).Gives f found ∧ (checkNeeded f.ehdr found).Gives f lua
      ∧ (checkImports f.ehdr found lua).Gives f ()
      ∧ (checkLayouts v found).Gives f () := by
  simp only [cartOpen, gives_bind, gives_fileSize, gives_need, gives_fetch] at h
  obtain ⟨n, rfl, _, hsize, eh, rfl, -, -, _, hseg, found, hfound, lua, hlua, h⟩ := h
  obtain ⟨_, himp, info, -, config, -, _, hlay, -⟩ := h
  exact ⟨hsize, found, lua, hseg, hfound, hlua, himp, hlay⟩

end Blyt
