import Blyt.CartCode

/-!
# The section that is verified and the section that is used

`blyt_elf32_find_section` of `runtime/shared/blyt_elf_section.c`, by which the
state-buffer initialiser gets at `.cart.layouts`, against the walk of the
verifier. The verifier takes the last section of a name, the lookup the first;
the verifier lets a name run out of the name table, the lookup does not; the
lookup treats offset 0 as absent and refuses a section that leaves the file.
`layouts_same_iff` says when the two agree, `layouts_differ` is a cart with two
sections of the name.
-/

namespace Blyt

open List Option Reader

/-! ## The lookup -/

/-- The comparison loop: `name` and its terminator within the `avail` bytes that
are left of the table. -/
def candMatches (f : Image) : Nat → Nat → List UInt8 → Bool
  | 0, _, _ => false
  | _ + 1, cand, [] => f.byte cand == 0
  | avail + 1, cand, c :: cs => f.byte cand == c && candMatches f avail (cand + 1) cs

/-- Does the lookup take this section for one of the given name? -/
def candidate (f : Image) (name : String) (sh : Shdr) : Bool :=
  decide (sh.name < f.strtab.size)
    && candMatches f (f.strtab.size - sh.name) (f.strtab.offset + sh.name) (bytesOf name)

/-- `resolve_sht`: is there a section table with names? -/
def resolveSht (f : Image) : Prop :=
  ehdrSize ≤ f.size ∧ f.ehdr.shoff ≠ 0 ∧ f.ehdr.shnum ≠ 0 ∧ f.ehdr.shstrndx < f.ehdr.shnum
    ∧ f.ehdr.shoff + f.ehdr.shnum * shdrSize ≤ f.size ∧ f.strtab.offset ≠ 0
    ∧ f.strtab.size ≠ 0 ∧ f.strtab.offset + f.strtab.size ≤ f.size

instance (f : Image) : Decidable (resolveSht f) := by
  unfold resolveSht
  infer_instance

/-- Offset and size of the first candidate; `none` also if that one leaves the file. -/
def elfFindSection (f : Image) (name : String) : Option (Nat × Nat) :=
  if resolveSht f then
    match f.sects.find? (candidate f name) with
    | none => none
    | some sh => if f.size < sh.offset + sh.size then none else some (sh.offset, sh.size)
  else none

theorem candMatches_eq {f : Image} {avail cand : Nat} {name : List UInt8} :
    candMatches f avail cand name = (decide (name.length < avail) && f.strIs cand name) := by
  induction name generalizing avail cand with
  | nil =>
    cases avail with
    | zero => rfl
    | succ => simp [candMatches, Image.strIs]
  | cons c cs ih =>
    cases avail with
    | zero => rfl
    | succ avail =>
      rw [candMatches, ih, Image.strIs]
      by_cases hl : cs.length < avail <;> simp [hl]

theorem hasName_of_candidate {f : Image} {name : String} {sh : Shdr}
    (h : candidate f name sh = true) : f.hasName name sh = true := by
  rw [candidate, candMatches_eq, Bool.and_eq_true, Bool.and_eq_true] at h
  exact h.2.2

/-! ## Two views of `.cart.layouts` -/

/-- The bytes of the section the verifier has checked. -/
def verifiedLayouts (f : Image) : Option (List UInt8) :=
  (f.lastNamed ".cart.layouts" f.sects).map fun sh => f.slice sh.offset sh.size

/-- The bytes `blyt_state_ctx_init` is given. -/
def usedLayouts (f : Image) : Option (List UInt8) :=
  (elfFindSection f ".cart.layouts").map fun (off, size) => f.slice off size

/-- Either there is no such section, or the first the lookup recognises lies in
the file and holds what the last one holds. -/
def FirstIsLast (f : Image) : Prop :=
  f.sects.filter (f.hasName ".cart.layouts") = []
    ∨ f.ehdr.shoff ≠ 0 ∧ f.strtab.offset ≠ 0
      ∧ ∃ a b, f.sects.find? (candidate f ".cart.layouts") = some a
        ∧ f.lastNamed ".cart.layouts" f.sects = some b ∧ a.offset + a.size ≤ f.size
        ∧ f.slice a.offset a.size = f.slice b.offset b.size

theorem slice_drop (f : Image) (off n k : Nat) :
    (f.slice off n).drop k = f.slice (off + k) (n - k) := by
  apply ext_getElem?
  intro i
  simp only [Image.slice, getElem?_drop, getElem?_map]
  by_cases hi : k + i < n
  · rw [getElem?_range hi, getElem?_range (by omega), map_some, map_some, Nat.add_assoc]
  · rw [getElem?_eq_none (by simpa using hi), getElem?_eq_none (by simp; omega)]
    rfl

/-- **Verified and used.** In an accepted cart the verified bytes pass the
FlatBuffers verifier, and they are the bytes that are used exactly if the first
section of the name agrees with the last. -/
theorem layouts_same_iff {v : Flat} {f : Image} (h : Accepts v f) :
    (∀ b, verifiedLayouts f = some b → v.layoutsVerify (b.drop preambleSize) = true)
      ∧ (usedLayouts f = verifiedLayouts f ↔ FirstIsLast f) := by
  obtain ⟨cart, hgives⟩ := h
  obtain ⟨hsize, found, lua, -, hwalk, -, -, hlay⟩ := cartOpen_stages hgives
  obtain ⟨htab, h40, hndx, hstr, hw⟩ := walkSections_spec hwalk
  refine ⟨?_, ?_⟩
  · intro b hb
    obtain ⟨sh, hsh, rfl⟩ := map_eq_some_iff.mp hb
    rw [slice_drop]
    exact (checkLayouts_spec hw hlay hsh).2
  -- the lookup's own checks hold in an accepted cart, but for the two offsets
  have hmem : f.sect 0 ∈ f.sects := List.mem_map_of_mem (mem_range.mpr (by omega))
  have hstrsize := hw.name_lt _ hmem
  have hbound := le_trans (Nat.add_le_add_left (Nat.mul_le_mul_left _ h40) _) htab
  have hsht : resolveSht f ↔ f.ehdr.shoff ≠ 0 ∧ f.strtab.offset ≠ 0 := by
    constructor
    · exact fun hr => ⟨hr.2.1, hr.2.2.2.2.2.1⟩
    · exact fun hr => ⟨hsize, hr.1, by omega, hndx, hbound, hr.2, by omega, hstr⟩
  cases hlast : f.lastNamed ".cart.layouts" f.sects with
  | none =>
    have hnil := getLast?_eq_none_iff.mp hlast
    have hfind : f.sects.find? (candidate f ".cart.layouts") = none := by
      rw [find?_eq_none]
      intro sh hsh hc
      have hin := mem_filter.mpr ⟨hsh, hasName_of_candidate hc⟩
      rw [hnil] at hin
      cases hin
    have hused : usedLayouts f = none := by
      rw [usedLayouts, elfFindSection, hfind]
      split <;> rfl
    rw [hused, verifiedLayouts, hlast]
    exact ⟨fun _ => Or.inl hnil, fun _ => rfl⟩
  | some b =>
    have hne : f.sects.filter (f.hasName ".cart.layouts") ≠ [] := by
      intro hnil
      rw [Image.lastNamed, hnil] at hlast
      cases hlast
    have hver : verifiedLayouts f = some (f.slice b.offset b.size) := by
      rw [verifiedLayouts, hlast, map_some]
    rw [hver]
    constructor
    · intro hused
      obtain ⟨⟨off, size⟩, hfs, hbytes⟩ := map_eq_some_iff.mp hused
      unfold elfFindSection at hfs
      split at hfs
      · rename_i hr
        split at hfs
        · cases hfs
        · rename_i a ha
          split at hfs
          · cases hfs
          · cases hfs
            exact Or.inr ⟨(hsht.mp hr).1, (hsht.mp hr).2, a, b, ha, hlast, by omega, hbytes⟩
      · cases hfs
    · rintro (hnil | ⟨h1, h2, a, b', ha, hb', hin, hbytes⟩)
      · exact absurd hnil hne
      · obtain rfl : b = b' := some.inj (hlast.symm.trans hb')
        rw [usedLayouts, elfFindSection, if_pos (hsht.mpr ⟨h1, h2⟩), ha]
        simp only
        rw [if_neg (by omega), map_some, hbytes]

/-- `.cart.layouts` sections with the given bodies of three words, in that order. -/
def layoutsCart (bodies : List (List Nat)) : Image :=
  demoCart [⟨ptLoad, 0x7000, 0x1000, 8, 8, 4⟩] ".cart.layouts\x00"
    ((range bodies.length).map fun k => ⟨22, 1, 0, 0x4000 + 0x100 * k, 20, 0, 0⟩)
    (bodies.mapIdx fun k body =>
      .bytes (0x4000 + 0x100 * k) (bytesOf "CLAY\x00\x00\x00\x00" ++ rowBytes body))

theorem layouts_same_iff_single :
    Accepts demoFlat (layoutsCart [demoLayouts])
      ∧ usedLayouts (layoutsCart [demoLayouts]) = verifiedLayouts (layoutsCart [demoLayouts]) := by
  have hacc : Accepts demoFlat (layoutsCart [demoLayouts]) := by decide +kernel
  refine ⟨hacc, (layouts_same_iff hacc).2.mpr (Or.inr ⟨by decide +kernel, by decide +kernel, ?_⟩)⟩
  exact ⟨⟨22, 1, 0, 0x4000, 20, 0, 0⟩, ⟨22, 1, 0, 0x4000, 20, 0, 0⟩, by decide +kernel,
    by decide +kernel, by decide +kernel, rfl⟩

/-- The first table's root is outside it. -/
def twoLayouts : Image := layoutsCart [[256, 0x40004, 4], demoLayouts]

/-- The last section is verified, the first one used: it would not have passed. -/
theorem layouts_differ :
    Accepts demoFlat twoLayouts ∧ usedLayouts twoLayouts ≠ verifiedLayouts twoLayouts
      ∧ ∃ b, usedLayouts twoLayouts = some b
        ∧ demoFlat.layoutsVerify (b.drop preambleSize) = false := by
  refine ⟨by decide +kernel, by decide +kernel, ?_⟩
  exact ⟨bytesOf "CLAY\x00\x00\x00\x00" ++ rowBytes [256, 0x40004, 4], by decide +kernel,
    by decide +kernel⟩

end Blyt
