import Blyt.CartCode

/-!
# Where the stages of the verifier read

For each stage of `cartOpen` two exact statements: when it gets through
(`passes_…`), and when all it reads lies in the file (`inside_…`). The header,
the segments, the section table and the symbols are guarded and always stay
inside. For the rest the statement names what has to hold of the file: where a
string comparison ends, and where a section without file bytes points to.
-/

namespace Blyt

open List Reader Image

variable {f : Image}

/-! ## The stages that stay inside -/

variable {stride j : Nat} {eh : Ehdr} {ph : Phdr} {p : Nat} {name : String} {sh : Shdr}
  {n pos q : Nat} {found : Found} {ds : Shdr} {lua : Bool} {v : Flat} {tag : String}

/-- Entry `j` of a table that fits `size` bytes fits too. -/
theorem entry_le {size len : Nat} (hlen : len ≤ stride) (hj : j < size / stride) :
    j * stride + len ≤ size := by
  have h1 : (j + 1) * stride ≤ size / stride * stride := Nat.mul_le_mul_right _ hj
  have h2 := Nat.div_mul_le_self size stride
  rw [Nat.succ_mul] at h1
  omega

theorem inside_checkIdent : (checkIdent eh).Inside f := by
  unfold checkIdent
  simp [inside_need_bind, inside_need]

theorem inside_checkInterp : (checkInterp ph).Inside f := by
  simp only [checkInterp, inside_fileSize_bind, inside_need_bind, inside_fetch_bind]
  exact fun hin hlen => ⟨by omega, inside_need⟩

theorem inside_checkLoad : (checkLoad ph).Inside f := by
  unfold checkLoad
  simp [inside_fileSize_bind, inside_need_bind, inside_need]

theorem inside_checkPhdr {s : Segs} {i : Nat}
    (h : eh.phoff + i * eh.phentsize + phdrSize ≤ f.size) : (checkPhdr eh s i).Inside f := by
  unfold checkPhdr readPhdr
  rw [inside_fetch_bind]
  refine ⟨h, inside_bind.mpr ⟨inside_onlyIf.mpr fun _ => inside_checkInterp, fun _ _ => ?_⟩⟩
  rw [inside_need_bind]
  intro _
  exact inside_bind.mpr ⟨inside_onlyIf.mpr fun _ => inside_checkLoad, fun _ _ => inside_pure⟩

theorem inside_checkOverlap {l : List Phdr} : (checkOverlap l).Inside f := by
  induction l with
  | nil => exact inside_pure
  | cons a rest ih =>
    refine inside_bind.mpr ⟨inside_forEach.mpr fun _ b _ _ _ => ?_, fun _ _ => ih⟩
    unfold checkPair
    simp [inside_need_bind, inside_need]

theorem inside_scanOpcodes (h : ph.offset + ph.filesz ≤ f.size) : (scanOpcodes ph).Inside f := by
  unfold scanOpcodes
  split
  · exact inside_pure
  · rw [inside_forEach_range]
    intro k hk _
    rw [inside_fetch_bind]
    exact ⟨by omega, inside_need⟩

theorem inside_checkSegments : (checkSegments f.ehdr).Inside f := by
  unfold checkSegments
  split
  · exact inside_pure
  · rw [inside_need_bind]
    intro hsize
    rw [inside_fileSize_bind, inside_need_bind]
    intro htab
    refine inside_bind.mpr ⟨inside_foldOver_of (fun s i hi => ?_) _, fun segs hsegs => ?_⟩
    · refine inside_checkPhdr ?_
      have hrow := Nat.mul_le_mul_right f.ehdr.phentsize (Nat.succ_le_of_lt (mem_range.mp hi))
      rw [Nat.succ_mul] at hrow
      omega
    · -- the collected segments have passed their bounds check
      obtain ⟨hloads, hin⟩ := collect_loads rfl hsegs
      simp only [inside_need_bind]
      intro _ _ _
      refine inside_bind.mpr ⟨inside_checkOverlap, fun _ _ => ?_⟩
      rw [inside_forEach]
      intro done ph rest hsplit _
      have hmem : ph ∈ f.loads.take maxLoad := by
        rw [← hloads, hsplit]
        exact mem_append_right _ mem_cons_self
      exact inside_scanOpcodes (hin ph (mem_of_mem_take hmem))

/-! ## Section names -/

def notedSections : List String :=
  [".cart.info", ".cart.config", ".cart.layouts", ".cart.lua", ".dynamic", ".dynstr"]

structure SectionOk (f : Image) (sh : Shdr) : Prop where
  name_lt : sh.name < f.strtab.size
  notDenied : deniedSections.any (fun name => f.hasName name sh) = false
  inside : sh.type = shtNobits ∨ sh.size = 0 ∨ sh.offset + sh.size ≤ f.size

/-- No comparison follows the section's name, at `p`, out of the file. -/
structure NameStays (f : Image) (sh : Shdr) (p : Nat) : Prop where
  denied : sh.name < f.strtab.size → ∀ name ∈ deniedSections, ¬ f.runsOff p (bytesOf name)
  debug : SectionOk f sh → ¬ f.runsOffN p (bytesOf ".debug_") ∧ ¬ f.runsOffN p (bytesOf ".zdebug_")
  noted : SectionOk f sh → ∀ name ∈ notedSections, ¬ f.runsOff p (bytesOf name)

theorem gives_isDwarfName : (isDwarfName p).Gives f
    (f.strStarts p (bytesOf ".debug_") || f.strStarts p (bytesOf ".zdebug_")) := by
  refine gives_bind.mpr ⟨_, gives_strNEq, ?_⟩
  cases f.strStarts p (bytesOf ".debug_") with
  | true => exact gives_pure.mpr rfl
  | false => exact gives_strNEq

theorem passes_walkSection (found : Found) (i : Nat) :
    (walkSection f.ehdr f.strtab found i).Passes f ↔ SectionOk f (f.sect i) := by
  unfold walkSection readShdr
  rw [passes_bind_of_gives (gives_fileSize.mpr rfl), passes_bind_of_gives (gives_fetch.mpr rfl),
    passes_need_bind, passes_bind_of_gives (gives_anyOf (fun _ => gives_strEq) _),
    passes_need_bind, passes_need_bind]
  constructor
  · rintro ⟨h1, h2, h3, -⟩
    exact ⟨h1, h2, h3⟩
  · intro h
    refine ⟨h.name_lt, h.notDenied, h.inside, ?_⟩
    simp only [passes_bind_of_gives gives_isDwarfName, passes_bind_of_gives (gives_note.mpr rfl)]
    exact passes_pure

theorem inside_note {old : Option Shdr} :
    (note p name sh old).Inside f ↔ ¬ f.runsOff p (bytesOf name) := by
  rw [note, inside_bind_of_gives gives_strEq, inside_strEq]
  exact and_iff_left inside_pure

theorem inside_walkSection (found : Found) (i : Nat) :
    (walkSection f.ehdr f.strtab found i).Inside f
      ↔ f.ehdr.shoff + shdrSize * i + shdrSize ≤ f.size
        ∧ NameStays f (f.sect i) (f.strtab.offset + (f.sect i).name) := by
  unfold walkSection readShdr
  rw [inside_fileSize_bind, inside_fetch_bind,
    show f.shdr (f.ehdr.shoff + shdrSize * i) = f.sect i from rfl]
  refine and_congr_right fun _ => ?_
  have hnul : ∀ name ∈ deniedSections, 0 ∉ bytesOf name := by decide +kernel
  rw [inside_need_bind, inside_bind_of_gives (gives_anyOf (fun _ => gives_strEq) _),
    inside_anyOf_strEq hnul, inside_need_bind, inside_need_bind,
    inside_bind_of_gives gives_isDwarfName, isDwarfName, inside_either (by decide +kernel)]
  simp only [inside_bind_of_gives (gives_note.mpr rfl), inside_note, inside_pure, and_true]
  constructor
  · intro h
    refine ⟨fun hlt => (h hlt).1, fun hok => ?_, fun hok => ?_⟩
    · exact ((h hok.name_lt).2 hok.notDenied hok.inside).1
    · have hnoted := ((h hok.name_lt).2 hok.notDenied hok.inside).2
      simpa [notedSections] using hnoted
  · intro h hlt
    refine ⟨h.denied hlt, fun hden hin => ?_⟩
    have hok : SectionOk f (f.sect i) := ⟨hlt, hden, hin⟩
    refine ⟨h.debug hok, ?_⟩
    have hnoted := h.noted hok
    simpa [notedSections] using hnoted

/-- The section table and the name table lie in the file. -/
structure TableOk (f : Image) : Prop where
  entsize : shdrSize ≤ f.ehdr.shentsize
  shnum : f.ehdr.shnum ≠ 0
  shstrndx : f.ehdr.shstrndx < f.ehdr.shnum
  table : f.ehdr.shoff + f.ehdr.shnum * f.ehdr.shentsize ≤ f.size
  names : f.strtab.offset + f.strtab.size ≤ f.size

theorem shdr_le (hsize : shdrSize ≤ f.ehdr.shentsize)
    (htab : f.ehdr.shoff + f.ehdr.shnum * f.ehdr.shentsize ≤ f.size) {k : Nat}
    (hk : k < f.ehdr.shnum) : f.ehdr.shoff + shdrSize * k + shdrSize ≤ f.size := by
  have hrow : shdrSize * (k + 1) ≤ f.ehdr.shnum * f.ehdr.shentsize := by
    rw [Nat.mul_comm shdrSize]
    exact Nat.mul_le_mul hk hsize
  rw [Nat.mul_succ] at hrow
  omega

/-- The walk reaches a section if the ones before it pass. -/
def NamesStay (f : Image) : Prop :=
  TableOk f → ∀ i < f.ehdr.shnum, (∀ k < i, SectionOk f (f.sect k)) →
    NameStays f (f.sect i) (f.strtab.offset + (f.sect i).name)

theorem inside_walkSections : (walkSections f.ehdr).Inside f ↔ NamesStay f := by
  unfold walkSections readShdr
  rw [inside_need_bind, inside_fileSize_bind, inside_need_bind, inside_fetch_bind,
    show f.shdr (f.ehdr.shoff + shdrSize * f.ehdr.shstrndx) = f.strtab from rfl, inside_need_bind,
    inside_foldOver_range passes_walkSection inside_walkSection]
  constructor
  · intro h ht i hi hbefore
    exact (((h ⟨ht.entsize, ht.shnum, ht.shstrndx⟩ ht.table).2 ht.names) i hi hbefore).2
  · rintro h ⟨h40, hnum, hndx⟩ htab
    refine ⟨shdr_le h40 htab hndx, fun hnames i hi hbefore => ⟨shdr_le h40 htab hi, ?_⟩⟩
    exact h ⟨h40, hnum, hndx, htab, hnames⟩ i hi hbefore

structure SectionsPass (f : Image) : Prop extends TableOk f where
  sections : ∀ i < f.ehdr.shnum, SectionOk f (f.sect i)

theorem passes_walkSections : (walkSections f.ehdr).Passes f ↔ SectionsPass f := by
  unfold walkSections readShdr
  rw [passes_need_bind, passes_bind_of_gives (gives_fileSize.mpr rfl), passes_need_bind,
    passes_bind_of_gives (gives_fetch.mpr rfl),
    show f.shdr (f.ehdr.shoff + shdrSize * f.ehdr.shstrndx) = f.strtab from rfl, passes_need_bind,
    passes_foldOver passes_walkSection]
  simp only [mem_range]
  constructor
  · rintro ⟨⟨h1, h2, h3⟩, h4, h5, h6⟩
    exact ⟨⟨h1, h2, h3, h4, h5⟩, h6⟩
  · rintro ⟨⟨h1, h2, h3, h4, h5⟩, h6⟩
    exact ⟨⟨h1, h2, h3⟩, h4, h5, h6⟩

/-! ## Dynamic entries -/

/-- The entries that are read: those before `DT_NULL`, and that one. -/
def Image.dynRead (f : Image) (stride : Nat) : Nat → Nat → List Nat
  | 0, _ => []
  | n + 1, pos =>
    pos :: if (f.dyn pos).tag = dtNull then [] else f.dynRead stride n (pos + stride)

theorem inside_dynEntries : (dynEntries stride n pos).Inside f
    ↔ ∀ q ∈ f.dynRead stride n pos, q + 4 ≤ f.size := by
  induction n generalizing pos with
  | zero => exact ⟨fun _ q hq => absurd hq not_mem_nil, fun _ => inside_pure⟩
  | succ n ih =>
    rw [dynEntries, dynTag, inside_fetch_bind, dynRead, forall_mem_cons]
    refine and_congr_right fun _ => ?_
    split
    · exact ⟨fun _ q hq => absurd hq not_mem_nil, fun _ => inside_pure⟩
    · rw [inside_bind_of_gives gives_dynEntries, ih]
      exact and_iff_left inside_pure

theorem mem_dynRead (h : q ∈ f.dynPos stride n pos) : q ∈ f.dynRead stride n pos := by
  induction n generalizing pos with
  | zero => cases h
  | succ n ih =>
    rw [dynPos] at h
    rw [dynRead]
    split at h
    · cases h
    · rename_i hnull
      rw [if_neg hnull]
      rcases mem_cons.mp h with rfl | h
      · exact mem_cons_self
      · exact mem_cons_of_mem _ (ih h)

theorem pos_of_mem_dynRead (h : q ∈ f.dynRead stride n pos) : ∃ j < n, q = pos + j * stride := by
  induction n generalizing pos with
  | zero => cases h
  | succ n ih =>
    rcases mem_cons.mp h with rfl | h
    · exact ⟨0, Nat.succ_pos n, by omega⟩
    · split at h
      · cases h
      · obtain ⟨j, hj, rfl⟩ := ih h
        refine ⟨j + 1, Nat.succ_lt_succ hj, ?_⟩
        rw [Nat.succ_mul]
        omega

theorem inside_findStrtab (ht : TableOk f) {ks : List Nat} (hks : ∀ k ∈ ks, k < f.ehdr.shnum) :
    (findStrtab f.ehdr pos ks).Inside f
      ↔ ((∃ k ∈ ks, (f.sect k).type = shtStrtab) → pos + dynSize ≤ f.size) := by
  induction ks with
  | nil => exact ⟨fun _ ⟨_, hk, _⟩ => absurd hk not_mem_nil, fun _ => inside_pure⟩
  | cons k ks ih =>
    rw [forall_mem_cons] at hks
    rw [findStrtab, readShdr, inside_fetch_bind,
      and_iff_right (shdr_le ht.entsize ht.table hks.1), exists_mem_cons_iff]
    show Inside (if (f.sect k).type = shtStrtab then _ else _) f ↔ _
    by_cases htype : (f.sect k).type = shtStrtab
    · rw [if_pos htype, dynVal, inside_fetch_bind, forall_prop_of_true (.inl htype)]
      refine and_iff_left_of_imp fun hpos => ?_
      split
      · exact inside_pure
      · exact (ih hks.2).mpr fun _ => hpos
    · rw [if_neg htype, ih hks.2, or_iff_right htype]

/-- The entry's value is looked at in the search for the string table. -/
def ValueSought (f : Image) (pos : Nat) : Prop :=
  (f.dyn pos).tag = dtStrsz
    ∨ (f.dyn pos).tag = dtStrtab ∧ ∃ k < f.ehdr.shnum, (f.sect k).type = shtStrtab

theorem inside_noteDyn (ht : TableOk f) (st : Option Nat × Nat) (pos : Nat) :
    (noteDyn f.ehdr st pos).Inside f
      ↔ pos + 4 ≤ f.size ∧ (ValueSought f pos → pos + dynSize ≤ f.size) := by
  rw [noteDyn, dynTag, inside_fetch_bind, ValueSought]
  refine and_congr_right fun _ => ?_
  by_cases htab : (f.dyn pos).tag = dtStrtab
  · have hne : ¬dtStrtab = dtStrsz := by decide
    rw [if_pos htab, inside_bind_of_gives gives_findStrtab, and_iff_left inside_pure,
      inside_findStrtab ht fun k hk => mem_range.mp hk]
    simp only [htab, hne, false_or, true_and, mem_range]
  · rw [if_neg htab]
    by_cases hsz : (f.dyn pos).tag = dtStrsz
    · rw [if_pos hsz, dynVal, inside_fetch_bind, forall_prop_of_true (.inl hsz)]
      exact and_iff_left inside_pure
    · rw [if_neg hsz]
      exact ⟨fun _ h => absurd h (not_or_intro hsz fun h => htab h.1), fun _ => inside_pure⟩

/-- The test on one entry, `st` being the string table. -/
def NeededOk (f : Image) (st : Option Nat × Nat) (pos : Nat) : Prop :=
  (f.dyn pos).tag = dtNeeded → ∃ strtab, st.1 = some strtab ∧ (f.dyn pos).val < st.2
    ∧ neededAllowlist.any (fun name => f.strIs (strtab + (f.dyn pos).val) (bytesOf name)) = true

/-- The name is in the file, and no comparison follows it out of there. -/
def NeededNameStays (f : Image) (st : Option Nat × Nat) (pos : Nat) : Prop :=
  (f.dyn pos).tag = dtNeeded → ∀ strtab, st.1 = some strtab → pos + dynSize ≤ f.size
    ∧ ((f.dyn pos).val < st.2 →
      ∀ name ∈ neededAllowlist, ¬ f.runsOff (strtab + (f.dyn pos).val) (bytesOf name))

theorem passes_checkNeededEntry (st : Option Nat × Nat) (lua : Bool) (pos : Nat) :
    (checkNeededEntry st lua pos).Passes f ↔ NeededOk f st pos := by
  unfold checkNeededEntry NeededOk dynTag dynVal
  rw [passes_bind_of_gives (gives_fetch.mpr rfl)]
  by_cases htag : (f.dyn pos).tag = dtNeeded
  · rw [if_neg (not_not.mpr htag), forall_prop_of_true htag]
    cases st.1 with
    | none => exact ⟨fun h => absurd h not_passes_fail, fun ⟨_, h, _⟩ => nomatch h⟩
    | some strtab =>
      rw [passes_bind_of_gives (gives_fetch.mpr rfl), passes_need_bind,
        passes_bind_of_gives (gives_anyOf (fun _ => gives_strEq) _), passes_need_bind,
        passes_bind_of_gives gives_strEq]
      constructor
      · rintro ⟨hlt, hany, -⟩
        exact ⟨strtab, rfl, hlt, hany⟩
      · rintro ⟨_, ⟨⟩, hlt, hany⟩
        exact ⟨hlt, hany, passes_pure⟩
  · rw [if_pos htag]
    exact ⟨fun _ h => absurd h htag, fun _ => passes_pure⟩

theorem inside_checkNeededEntry (st : Option Nat × Nat) (lua : Bool) (pos : Nat) :
    (checkNeededEntry st lua pos).Inside f ↔ pos + 4 ≤ f.size ∧ NeededNameStays f st pos := by
  unfold checkNeededEntry NeededNameStays dynTag dynVal
  rw [inside_fetch_bind]
  refine and_congr_right fun _ => ?_
  by_cases htag : (f.dyn pos).tag = dtNeeded
  · rw [if_neg (not_not.mpr htag), forall_prop_of_true htag]
    cases st.1 with
    | none => exact ⟨fun _ _ h => (nomatch h), fun _ => inside_fail⟩
    | some strtab =>
      have hnul : ∀ name ∈ neededAllowlist, 0 ∉ bytesOf name := by decide +kernel
      rw [inside_fetch_bind, inside_need_bind,
        inside_bind_of_gives (gives_anyOf (fun _ => gives_strEq) _), inside_anyOf_strEq hnul,
        inside_need_bind, inside_bind_of_gives gives_strEq, inside_strEq]
      constructor
      · rintro ⟨hpos, h⟩ _ ⟨⟩
        exact ⟨hpos, fun hlt => (h hlt).1⟩
      · intro h
        obtain ⟨hpos, h⟩ := h strtab rfl
        -- the library the flag is about is one of the list
        have hlua := fun hlt => h hlt "libblyt32lua.so" (by decide)
        exact ⟨hpos, fun hlt => ⟨h hlt, fun _ => ⟨hlua hlt, inside_pure⟩⟩⟩
  · rw [if_pos htag]
    exact ⟨fun _ h => absurd h htag, fun _ => inside_pure⟩

/-- The string table by the dynamic entries. -/
def Image.neededStrings (f : Image) : Option Nat × Nat := f.dynStrings f.verifierEntries

def NeededPass (f : Image) : Prop :=
  ∀ sh, f.lastNamed ".dynamic" f.sects = some sh →
    dynSize ≤ sh.entsize ∧ ∀ pos ∈ f.verifierEntries, NeededOk f f.neededStrings pos

/-- What is read of the entries of a `.dynamic` without file bytes happens to lie in the file,
and no name that is reached is followed out of it. -/
def NeededStay (f : Image) : Prop :=
  ∀ sh, f.lastNamed ".dynamic" f.sects = some sh → dynSize ≤ sh.entsize →
    (sh.type = shtNobits →
      (∀ q ∈ f.dynRead sh.entsize (sh.size / sh.entsize) sh.offset, q + 4 ≤ f.size)
      ∧ ∀ q ∈ f.verifierEntries, ValueSought f q → q + dynSize ≤ f.size)
    ∧ ∀ done pos rest, f.verifierEntries = done ++ pos :: rest →
      (∀ q ∈ done, NeededOk f f.neededStrings q) → NeededNameStays f f.neededStrings pos

theorem mem_sects_of_lastNamed (h : f.lastNamed name f.sects = some sh) : sh ∈ f.sects :=
  (mem_filter.mp (mem_of_getLast? h)).1

theorem gives_checkNeeded_entries (h : f.lastNamed ".dynamic" f.sects = some sh) :
    (dynEntries sh.entsize (sh.size / sh.entsize) sh.offset).Gives f f.verifierEntries := by
  rw [verifierEntries, h]
  exact gives_dynEntries

theorem passes_checkNeeded (hw : Walked f f.sects found) :
    (checkNeeded f.ehdr found).Passes f ↔ NeededPass f := by
  unfold checkNeeded NeededPass
  rw [hw.dynamic]
  cases hdyn : f.lastNamed ".dynamic" f.sects with
  | none => exact ⟨fun _ sh h => (nomatch h), fun _ => passes_pure⟩
  | some sh =>
    rw [passes_need_bind, passes_bind_of_gives (gives_checkNeeded_entries hdyn),
      passes_bind_of_gives gives_dynStrings, passes_foldOver (passes_checkNeededEntry _)]
    constructor
    · rintro h _ ⟨⟩
      exact h
    · exact fun h => h sh rfl

theorem inside_checkNeeded (ht : TableOk f) (hw : Walked f f.sects found) :
    (checkNeeded f.ehdr found).Inside f ↔ NeededStay f := by
  unfold checkNeeded NeededStay
  rw [hw.dynamic]
  cases hdyn : f.lastNamed ".dynamic" f.sects with
  | none => exact ⟨fun _ sh h => (nomatch h), fun _ => inside_pure⟩
  | some sh =>
    rw [inside_need_bind, inside_bind_of_gives (gives_checkNeeded_entries hdyn),
      inside_dynEntries, inside_bind_of_gives gives_dynStrings,
      inside_foldOver (fun st pos => iff_true_intro ⟨_, gives_noteDyn st pos⟩) (inside_noteDyn ht),
      inside_foldOver (passes_checkNeededEntry _) (inside_checkNeededEntry _)]
    have hread : ∀ q ∈ f.verifierEntries,
        q ∈ f.dynRead sh.entsize (sh.size / sh.entsize) sh.offset := by
      intro q hq
      rw [verifierEntries, hdyn] at hq
      exact mem_dynRead hq
    -- with file bytes, the entries are those of a section that fits
    have hfile : sh.type ≠ shtNobits → dynSize ≤ sh.entsize →
        ∀ q ∈ f.dynRead sh.entsize (sh.size / sh.entsize) sh.offset, q + dynSize ≤ f.size := by
      intro htype hent q hq
      obtain ⟨j, hj, rfl⟩ := pos_of_mem_dynRead hq
      have hle := entry_le hent hj
      rcases hw.inside sh (mem_sects_of_lastNamed hdyn) with h | h | h
      · exact absurd h htype
      · have hdynSize : 0 < dynSize := by decide
        omega
      · omega
    constructor
    · rintro h _ ⟨⟩ hent
      obtain ⟨htags, hsought, hnames⟩ := h hent
      refine ⟨fun _ => ⟨htags, fun q hq => ?_⟩, fun done pos rest hsplit hdone =>
        (hnames done pos rest hsplit hdone).2⟩
      obtain ⟨done, rest, hsplit⟩ := append_of_mem hq
      exact (hsought done q rest hsplit fun _ _ => trivial).2
    · intro h hent
      obtain ⟨hnobits, hnames⟩ := h sh rfl hent
      obtain ⟨htags, hsought⟩ : _ ∧ _ := by
        by_cases htype : sh.type = shtNobits
        · exact hnobits htype
        · have hin := hfile htype hent
          exact ⟨fun q hq => Nat.le_trans (Nat.add_le_add_left (by decide) q) (hin q hq),
            fun q hq _ => hin q (hread q hq)⟩
      have hmem : ∀ {done pos rest}, f.verifierEntries = done ++ pos :: rest →
          pos ∈ f.verifierEntries := fun hsplit => hsplit ▸ mem_append_right _ mem_cons_self
      refine ⟨htags, fun done pos rest hsplit _ => ?_, fun done pos rest hsplit hdone => ?_⟩
      · exact ⟨htags pos (hread pos (hmem hsplit)), hsought pos (hmem hsplit)⟩
      · exact ⟨htags pos (hread pos (hmem hsplit)), hnames done pos rest hsplit hdone⟩

/-! ## Symbols -/

def Shdr.entry (sh : Shdr) (j : Nat) : Nat := sh.offset + j * sh.entsize

/-- A dynamic symbol table has file bytes, and so its entries are in the file. -/
theorem dynsym_entry_le (hw : Walked f f.sects found)
    (hds : lastDynsym f.sects = some ds) (hent : symSize ≤ ds.entsize)
    (hj : j < ds.size / ds.entsize) : ds.entry j + symSize ≤ f.size := by
  obtain ⟨hmem, htype⟩ := mem_filter.mp (mem_of_getLast? hds)
  have hle := entry_le hent hj
  unfold Shdr.entry
  rcases hw.inside ds hmem with h | h | h
  · rw [of_decide_eq_true htype] at h
    exact absurd h (by decide)
  · have hsymSize : 0 < symSize := by decide
    omega
  · omega

def luaName (f : Image) (lua : Bool) (p : Nat) : Bool :=
  lua && (f.strStarts p (bytesOf "lua_") || f.strStarts p (bytesOf "luaL_"))

theorem inside_isLuaApi : (isLuaApi lua p).Inside f
    ↔ (lua = true → ¬ f.runsOffN p (bytesOf "lua_") ∧ ¬ f.runsOffN p (bytesOf "luaL_")) := by
  unfold isLuaApi
  cases lua with
  | false => exact ⟨fun _ h => (nomatch h), fun _ => inside_pure⟩
  | true =>
    rw [if_neg (by simp), inside_either (by decide +kernel), forall_prop_of_true rfl]

/-- The test on symbol `j`. -/
def ImportOk (f : Image) (lua : Bool) (ds : Shdr) (j : Nat) : Prop :=
  (f.sym (ds.entry j)).bind = stbGlobal → (f.sym (ds.entry j)).shndx = shnUndef →
    ∃ off size, f.importStrtab ds = some (off, size) ∧ (f.sym (ds.entry j)).name < size
      ∧ (luaName f lua (off + (f.sym (ds.entry j)).name) = true
        ∨ symbolAllowlist.any (fun name =>
          f.strIs (off + (f.sym (ds.entry j)).name) (bytesOf name)) = true)

/-- No comparison follows its name out of the file. -/
def ImportNameStays (f : Image) (lua : Bool) (ds : Shdr) (j : Nat) : Prop :=
  (f.sym (ds.entry j)).bind = stbGlobal → (f.sym (ds.entry j)).shndx = shnUndef →
    ∀ off size, f.importStrtab ds = some (off, size) → (f.sym (ds.entry j)).name < size →
      (lua = true → ¬ f.runsOffN (off + (f.sym (ds.entry j)).name) (bytesOf "lua_")
        ∧ ¬ f.runsOffN (off + (f.sym (ds.entry j)).name) (bytesOf "luaL_"))
      ∧ (luaName f lua (off + (f.sym (ds.entry j)).name) = false →
        ∀ name ∈ symbolAllowlist, ¬ f.runsOff (off + (f.sym (ds.entry j)).name) (bytesOf name))

theorem gives_checkImport :
    (checkImport ds (f.importStrtab ds) lua j).Gives f () ↔ ImportOk f lua ds j := by
  have hpasses : (checkImport ds (f.importStrtab ds) lua j).Gives f ()
      ↔ (checkImport ds (f.importStrtab ds) lua j).Passes f :=
    ⟨fun h => ⟨(), h⟩, fun ⟨_, h⟩ => h⟩
  rw [hpasses]
  unfold checkImport ImportOk
  rw [passes_bind_of_gives (gives_fetch.mpr rfl),
    show f.sym (ds.offset + j * ds.entsize) = f.sym (ds.entry j) from rfl]
  by_cases hlook : (f.sym (ds.entry j)).bind = stbGlobal ∧ (f.sym (ds.entry j)).shndx = shnUndef
  · rw [if_neg (by simp [hlook]), forall_prop_of_true hlook.1, forall_prop_of_true hlook.2]
    cases f.importStrtab ds with
    | none => exact ⟨fun h => absurd h not_passes_fail, fun ⟨_, _, h, _⟩ => (nomatch h)⟩
    | some st =>
      obtain ⟨off, size⟩ := st
      rw [passes_need_bind, passes_bind_of_gives gives_isLuaApi]
      constructor
      · rintro ⟨hlt, hrest⟩
        refine ⟨off, size, rfl, hlt, ?_⟩
        split at hrest
        · rename_i hlua
          exact Or.inl hlua
        · rw [passes_bind_of_gives (gives_anyOf (fun _ => gives_strEq) _), passes_need] at hrest
          exact Or.inr hrest
      · rintro ⟨_, _, ⟨⟩, hlt, hok⟩
        refine ⟨hlt, ?_⟩
        split
        · exact passes_pure
        · rename_i hlua
          rw [passes_bind_of_gives (gives_anyOf (fun _ => gives_strEq) _), passes_need]
          exact hok.resolve_left hlua
  · rw [if_pos (by tauto)]
    exact ⟨fun _ h1 h2 => absurd ⟨h1, h2⟩ hlook, fun _ => passes_pure⟩

theorem inside_checkImport :
    (checkImport ds (f.importStrtab ds) lua j).Inside f
      ↔ ds.entry j + symSize ≤ f.size ∧ ImportNameStays f lua ds j := by
  unfold checkImport ImportNameStays
  rw [inside_fetch_bind, show ds.offset + j * ds.entsize = ds.entry j from rfl]
  refine and_congr_right fun _ => ?_
  by_cases hlook : (f.sym (ds.entry j)).bind = stbGlobal ∧ (f.sym (ds.entry j)).shndx = shnUndef
  · rw [if_neg (by simp [hlook]), forall_prop_of_true hlook.1, forall_prop_of_true hlook.2]
    cases f.importStrtab ds with
    | none => exact ⟨fun _ _ _ h => (by cases h), fun _ => inside_fail⟩
    | some st =>
      obtain ⟨off, size⟩ := st
      have hnul : ∀ name ∈ symbolAllowlist, 0 ∉ bytesOf name := by decide +kernel
      rw [inside_need_bind, inside_bind_of_gives gives_isLuaApi, inside_isLuaApi]
      -- the list is gone through only if the name is none of the Lua interface
      have hlist : Inside (if luaName f lua (off + (f.sym (ds.entry j)).name) = true then pure ()
          else do
            let allowed ← anyOf (fun name =>
              strEq (off + (f.sym (ds.entry j)).name) (bytesOf name)) symbolAllowlist
            need (allowed = true) CartErr.badImport) f
          ↔ (luaName f lua (off + (f.sym (ds.entry j)).name) = false →
            ∀ name ∈ symbolAllowlist, ¬ f.runsOff (off + (f.sym (ds.entry j)).name)
              (bytesOf name)) := by
        cases luaName f lua (off + (f.sym (ds.entry j)).name) with
        | true => exact ⟨fun _ h => (by cases h), fun _ => inside_pure⟩
        | false =>
          rw [if_neg Bool.false_ne_true, forall_prop_of_true rfl,
            inside_bind_of_gives (gives_anyOf (fun _ => gives_strEq) _), inside_anyOf_strEq hnul]
          exact and_iff_left inside_need
      constructor
      · rintro h _ _ ⟨⟩ hlt
        exact ⟨(h hlt).1, hlist.mp (h hlt).2⟩
      · intro h hlt
        obtain ⟨hlua, hrest⟩ := h off size rfl hlt
        exact ⟨hlua, hlist.mpr hrest⟩
  · rw [if_pos (by tauto)]
    exact ⟨fun _ h1 h2 => absurd ⟨h1, h2⟩ hlook, fun _ => inside_pure⟩

def ImportsPass (f : Image) (lua : Bool) : Prop :=
  ∀ ds, lastDynsym f.sects = some ds →
    symSize ≤ ds.entsize ∧ ∀ j < ds.size / ds.entsize, ImportOk f lua ds j

def ImportsStay (f : Image) (lua : Bool) : Prop :=
  ∀ ds, lastDynsym f.sects = some ds → symSize ≤ ds.entsize →
    ∀ j < ds.size / ds.entsize, (∀ k < j, ImportOk f lua ds k) → ImportNameStays f lua ds j

theorem inside_symStrtab (ht : TableOk f) : (symStrtab f.ehdr found ds).Inside f := by
  unfold symStrtab
  split
  · exact inside_pure
  · split
    · rename_i hlink
      exact inside_fetch_bind.mpr ⟨shdr_le ht.entsize ht.table hlink, inside_pure⟩
    · exact inside_pure

theorem passes_checkImports (hw : Walked f f.sects found) :
    (checkImports f.ehdr found lua).Passes f ↔ ImportsPass f lua := by
  unfold checkImports ImportsPass
  rw [hw.dynsym]
  cases lastDynsym f.sects with
  | none => exact ⟨fun _ ds h => (nomatch h), fun _ => passes_pure⟩
  | some ds =>
    rw [passes_need_bind, passes_bind_of_gives (gives_symStrtab hw)]
    constructor
    · rintro ⟨hent, u, h⟩ _ ⟨⟩
      exact ⟨hent, fun j hj =>
        gives_checkImport.mp (gives_forEach.mp h j (mem_range.mpr hj))⟩
    · intro h
      obtain ⟨hent, hall⟩ := h ds rfl
      exact ⟨hent, (), gives_forEach.mpr fun j hj =>
        gives_checkImport.mpr (hall j (mem_range.mp hj))⟩

theorem inside_checkImports (ht : TableOk f) (hw : Walked f f.sects found) :
    (checkImports f.ehdr found lua).Inside f ↔ ImportsStay f lua := by
  unfold checkImports ImportsStay
  rw [hw.dynsym]
  cases hds : lastDynsym f.sects with
  | none => exact ⟨fun _ ds h => (nomatch h), fun _ => inside_pure⟩
  | some ds =>
    rw [inside_need_bind, inside_bind_of_gives (gives_symStrtab hw), inside_forEach_range]
    simp only [gives_checkImport, inside_checkImport]
    constructor
    · rintro h _ ⟨⟩ hent j hj hbefore
      exact ((h hent).2 j hj hbefore).2
    · intro h hent
      exact ⟨inside_symStrtab ht, fun j hj hbefore =>
        ⟨dynsym_entry_le hw hds hent hj, h ds rfl hent j hj hbefore⟩⟩

/-! ## Metadata -/

def Image.body (f : Image) (sh : Shdr) : List UInt8 :=
  f.slice (sh.offset + preambleSize) (sh.size - preambleSize)

structure BodyOk (v : Flat) (tag : String) (f : Image) (sh : Shdr) : Prop where
  size : preambleSize ≤ sh.size
  tag : f.slice sh.offset 4 = bytesOf tag
  major : f.le16 (sh.offset + 4) = 0
  alloc : v.alloc (sh.size - preambleSize) = true

/-- As far as it is read, the section lies in the file. -/
structure BodyStays (v : Flat) (tag : String) (f : Image) (sh : Shdr) : Prop where
  tagRead : preambleSize ≤ sh.size → sh.offset + 4 ≤ f.size
  majorRead : preambleSize ≤ sh.size → f.slice sh.offset 4 = bytesOf tag →
    sh.offset + 4 + 2 ≤ f.size
  bodyRead : BodyOk v tag f sh → sh.offset + sh.size ≤ f.size

theorem gives_sectionBody {b : List UInt8} :
    (sectionBody v tag sh).Gives f b ↔ BodyOk v tag f sh ∧ f.body sh = b := by
  simp only [sectionBody, gives_bind, gives_need, gives_fetch]
  constructor
  · rintro ⟨_, h1, t, rfl, _, h2, m, rfl, _, h3, _, h4, h⟩
    exact ⟨⟨h1, h2, h3, h4⟩, h⟩
  · rintro ⟨h, rfl⟩
    exact ⟨(), h.size, _, rfl, (), h.tag, _, rfl, (), h.major, (), h.alloc, rfl⟩

/-- A section with file bytes has passed the walk's bounds check. -/
theorem inside_sectionBody
    (hin : sh.type = shtNobits ∨ sh.size = 0 ∨ sh.offset + sh.size ≤ f.size) :
    (sectionBody v tag sh).Inside f ↔ (sh.type = shtNobits → BodyStays v tag f sh) := by
  unfold sectionBody
  rw [inside_need_bind, inside_fetch_bind, inside_need_bind, inside_fetch_bind, inside_need_bind,
    inside_need_bind, inside_fetch]
  constructor
  · intro h _
    refine ⟨fun hs => (h hs).1, fun hs ht => ((h hs).2 ht).1, fun hok => ?_⟩
    have hbody := ((h hok.size).2 hok.tag).2 hok.major hok.alloc
    omega
  · intro h hs
    by_cases hno : sh.type = shtNobits
    · have hst := h hno
      refine ⟨hst.tagRead hs, fun ht => ⟨hst.majorRead hs ht, fun hm ha => ?_⟩⟩
      have hbody := hst.bodyRead ⟨hs, ht, hm, ha⟩
      omega
    · have h8 : preambleSize = 8 := rfl
      refine ⟨by omega, fun _ => ⟨by omega, fun _ _ => by omega⟩⟩

/-- The last section of the name, if it has no file bytes, is read only where
there is a file. -/
def MetaStay (v : Flat) (tag name : String) (f : Image) : Prop :=
  ∀ sh, f.lastNamed name f.sects = some sh → sh.type = shtNobits → BodyStays v tag f sh

/-- What `.cart.info` must say. -/
def InfoValid (v : Flat) (body : List UInt8) : Prop :=
  v.infoVerify body = true ∧ ∃ info, v.info body = some info ∧ info.apiMajor = 0
    ∧ cartIdValid info.id = true ∧ cartTextValid info.title = true
    ∧ cartTextValid info.version = true

def InfoPass (v : Flat) (f : Image) : Prop :=
  ∃ sh, f.lastNamed ".cart.info" f.sects = some sh ∧ BodyOk v "CINF" f sh ∧ InfoValid v (f.body sh)

/-- The last section of the name, if there is one, passes its checks. -/
def MetaPass (v : Flat) (tag name : String) (verify : List UInt8 → Bool) (f : Image) : Prop :=
  ∀ sh, f.lastNamed name f.sects = some sh → BodyOk v tag f sh ∧ verify (f.body sh) = true

section Metadata

variable {v : Flat} {found : Found}

theorem passes_checkInfo (hw : Walked f f.sects found) :
    (checkInfo v found).Passes f ↔ InfoPass v f := by
  unfold checkInfo InfoPass
  rw [hw.cartInfo]
  cases f.lastNamed ".cart.info" f.sects with
  | none => exact ⟨fun h => absurd h not_passes_fail, fun ⟨_, h, _⟩ => (nomatch h)⟩
  | some sh =>
    constructor
    · rintro ⟨info, h⟩
      obtain ⟨body, hbody, h⟩ := gives_bind.mp h
      obtain ⟨hok, rfl⟩ := gives_sectionBody.mp hbody
      obtain ⟨hver, h⟩ := passes_need_bind.mp ⟨info, h⟩
      refine ⟨sh, rfl, hok, hver, ?_⟩
      cases hinfo : v.info (f.body sh) with
      | none =>
        rw [hinfo] at h
        exact absurd h not_passes_fail
      | some got =>
        simp only [hinfo, passes_need_bind] at h
        exact ⟨got, rfl, h.1, h.2.1, h.2.2.1, h.2.2.2.1⟩
    · rintro ⟨_, ⟨⟩, hok, hver, info, hinfo, h1, h2, h3, h4⟩
      rw [passes_bind_of_gives (gives_sectionBody.mpr ⟨hok, rfl⟩), passes_need_bind, hinfo]
      simp only [passes_need_bind]
      exact ⟨hver, h1, h2, h3, h4, passes_pure⟩

/-- A stage that reads the last section of a name and then nothing more. -/
theorem inside_metadata {α : Type} {tag name : String} {o : Option Shdr} {absent : Check α}
    {check : List UInt8 → Check α} (hw : Walked f f.sects found) (ho : o = f.lastNamed name f.sects)
    (habsent : absent.Inside f) (hcheck : ∀ body, (check body).Inside f) :
    (match o with
      | none => absent
      | some sh => sectionBody v tag sh >>= check).Inside f ↔ MetaStay v tag name f := by
  unfold MetaStay
  rw [← ho]
  cases o with
  | none => exact ⟨fun _ sh h => (nomatch h), fun _ => habsent⟩
  | some sh =>
    rw [inside_bind, inside_sectionBody (hw.inside sh (mem_sects_of_lastNamed ho.symm))]
    constructor
    · rintro h _ ⟨⟩
      exact h.1
    · exact fun h => ⟨h sh rfl, fun body _ => hcheck body⟩

/-- The same for its result, if the section may be absent. -/
theorem passes_metadata {α : Type} {tag name : String} {o : Option Shdr} {absent : Check α}
    {check : List UInt8 → Check α} {verify : List UInt8 → Bool} (ho : o = f.lastNamed name f.sects)
    (habsent : absent.Passes f) (hcheck : ∀ body, (check body).Passes f ↔ verify body = true) :
    (match o with
      | none => absent
      | some sh => sectionBody v tag sh >>= check).Passes f ↔ MetaPass v tag name verify f := by
  unfold MetaPass
  rw [← ho]
  cases o with
  | none => exact ⟨fun _ sh h => (nomatch h), fun _ => habsent⟩
  | some sh =>
    constructor
    · rintro ⟨c, h⟩ _ ⟨⟩
      obtain ⟨body, hbody, h⟩ := gives_bind.mp h
      obtain ⟨hok, rfl⟩ := gives_sectionBody.mp hbody
      exact ⟨hok, (hcheck _).mp ⟨c, h⟩⟩
    · intro h
      obtain ⟨hok, hver⟩ := h sh rfl
      rw [passes_bind_of_gives (gives_sectionBody.mpr ⟨hok, rfl⟩), hcheck]
      exact hver

section

variable (hw : Walked f f.sects found)
include hw

theorem inside_checkInfo : (checkInfo v found).Inside f ↔ MetaStay v "CINF" ".cart.info" f := by
  refine inside_metadata hw hw.cartInfo inside_fail fun body => inside_need_bind.mpr fun _ => ?_
  split
  · exact inside_fail
  · simp [inside_need_bind, inside_pure]

theorem inside_checkConfig : (checkConfig v found).Inside f ↔ MetaStay v "CCFG" ".cart.config" f :=
  inside_metadata hw hw.cartConfig inside_pure fun _ => inside_need_bind.mpr fun _ => inside_pure

theorem inside_checkLayouts :
    (checkLayouts v found).Inside f ↔ MetaStay v "CLAY" ".cart.layouts" f :=
  inside_metadata hw hw.cartLayouts inside_pure fun _ => inside_need

theorem passes_checkConfig :
    (checkConfig v found).Passes f ↔ MetaPass v "CCFG" ".cart.config" v.configVerify f :=
  passes_metadata hw.cartConfig passes_pure fun _ =>
    passes_need_bind.trans (and_iff_left passes_pure)

theorem passes_checkLayouts :
    (checkLayouts v found).Passes f ↔ MetaPass v "CLAY" ".cart.layouts" v.layoutsVerify f :=
  passes_metadata hw.cartLayouts passes_pure fun _ => passes_need

end

end Metadata

end Blyt
