import Mathlib.Data.List.TakeWhile
import Blyt.DynlinkSafe

/-!
# Relocations

What the linker stores for one relocation record. Two passes go over a module:
`apply_lib_rela` of `runtime/host/src/libblyt/cart_run.c` right after its
segments are mapped, for the records that need no other module, and
`resolve_elf_plt` once the combined symbol table is there. Next to them stands
what ELF asks for, the first definition of the name plus the addend, over the
definitions themselves: names in full, no table. The table cuts a name after 127
bytes, has room for 2048 entries and says 0 for "not found"; `kept` are the
definitions it has, and `links_right_iff` names the records that come out right.
-/

namespace Blyt

open List Option

def rRiscvRelative : Nat := 3

namespace Image

def addend (f : Image) (pos : Nat) : Nat := f.le32 (pos + 8)

/-- The section headers in steps of `e_shentsize`, up to the first that leaves
the file. -/
def steppedSects (f : Image) : List Shdr :=
  (((range f.ehdr.shnum).map fun i => f.ehdr.shoff + i * f.ehdr.shentsize).takeWhile
    fun off => decide (off + shdrSize ≤ f.size)).map f.shdr

/-- Where the records of a relocation section stand. -/
def relas (sh : Shdr) : List Nat :=
  if sh.type ≠ shtRela ∨ sh.entsize < relaSize then []
  else (range (sh.size / sh.entsize)).map fun j => sh.offset + j * sh.entsize

def relaPos (f : Image) : List Nat := f.sects.flatMap relas

end Image

/-! ## The two passes -/

/-- `apply_lib_rela`, one record. -/
def applyRela (f : Image) (bias pos : Nat) : Option (Nat × Nat) :=
  let r := f.rela pos
  if r.type = rRiscvRelative then
    some (u32 (bias + r.offset), u32 (bias + f.addend pos))
  else if r.type = rRiscv32 then
    match f.firstDynsym with
    | none => none
    | some dynsym =>
      let off := dynsym.offset + r.sym * dynsym.entsize
      if dynsym.entsize < symSize then none
      else if f.size < off + symSize then none
      else if (f.sym off).shndx = shnUndef then none
      else some (u32 (bias + r.offset), u32 (bias + (f.sym off).value + f.addend pos))
  else none

/-- The words `apply_lib_rela` writes to guest memory. -/
def applyLibRela (f : Image) (bias : Nat) : List (Nat × Nat) :=
  if f.walkable then
    (f.steppedSects.flatMap fun sh =>
      (Image.relas sh).takeWhile fun pos => decide (pos + relaSize ≤ f.size)).filterMap
        (applyRela f bias)
  else []

/-- `resolve_elf_plt`, one relocation that is looked up. -/
def resolveWord (f : Image) (bias : Nat) (syms : List Symbol) (r : PltReloc) : Option (Nat × Nat) :=
  let resolved := symtabLookup f r.name syms
  if resolved = 0 then
    if (f.sym r.sym).bind = stbWeak then some (u32 (bias + r.rela.offset), 0) else none
  else some (u32 (bias + r.rela.offset), resolved)

/-- `resolve_elf_plt`, one record. -/
def resolveRela (f : Image) (bias : Nat) (syms : List Symbol) (pos : Nat) : Option (Nat × Nat) :=
  match f.firstDynsym, f.lastDynstr with
  | some dynsym, some dynstr =>
    if dynsym.entsize < symSize then none
    else (pltReloc f dynsym dynstr pos).bind (resolveWord f bias syms)
  | _, _ => none

/-- The words of both passes for one record. -/
def relocWords (f : Image) (bias : Nat) (syms : List Symbol) (pos : Nat) : List (Nat × Nat) :=
  (applyRela f bias pos).toList ++ (resolveRela f bias syms pos).toList

/-- The table of all symbols, the cart's first. -/
def linkTable (cart : Lib) (libs : List Lib) : List Symbol :=
  appendSymtab (buildSymtab cart.image cart.bias [])
    (libs.foldl (fun syms lib => buildSymtab lib.image lib.bias syms) [])

variable {f : Image} {dynsym dynstr : Shdr} {p : Nat} {lit : List UInt8} {syms defs : List Symbol}
  {d : Symbol} {pos s : Nat}

theorem pltRelocsOf_eq (f : Image) (dynsym dynstr sh : Shdr) :
    pltRelocsOf f dynsym dynstr sh = (Image.relas sh).filterMap (pltReloc f dynsym dynstr) := by
  unfold pltRelocsOf Image.relas
  split
  · rfl
  · rw [filterMap_map]
    rfl

/-- The second pass is its loop body over all records. -/
theorem resolveElfPlt_eq (bias : Nat) (syms : List Symbol) (hw : f.walkable = true) :
    resolveElfPlt f bias syms = f.relaPos.filterMap (resolveRela f bias syms) := by
  have hword : resolveElfPlt f bias syms = (pltRelocs f).filterMap (resolveWord f bias syms) := rfl
  rw [hword, pltRelocs, if_pos hw, Image.relaPos]
  cases hsym : f.firstDynsym with
  | none =>
    have hnone : resolveRela f bias syms = fun _ => none := by
      funext pos
      simp only [resolveRela, hsym]
    rw [hnone]
    simp
  | some dynsym =>
    cases hstr : f.lastDynstr with
    | none =>
      have hnone : resolveRela f bias syms = fun _ => none := by
        funext pos
        simp only [resolveRela, hsym, hstr]
      rw [hnone]
      simp
    | some dynstr =>
      by_cases hent : dynsym.entsize < symSize
      · have hnone : resolveRela f bias syms = fun _ => none := by
          funext pos
          simp only [resolveRela, hsym, hstr, if_pos hent]
        rw [hnone]
        simp [hent]
      · have hsome : resolveRela f bias syms
            = fun pos => (pltReloc f dynsym dynstr pos).bind (resolveWord f bias syms) := by
          funext pos
          simp only [resolveRela, hsym, hstr, if_neg hent]
        simp only [if_neg hent, hsome, filterMap_flatMap, pltRelocsOf_eq, filterMap_filterMap]

/-! ## What ELF asks for -/

/-- The name that stands at `p`, in full. -/
def Image.nameAt (f : Image) (p : Nat) : List UInt8 := f.str f.size p

/-- A module whose tables are the ones ELF means: section headers of the
record's size, one stride for both passes; tables inside the file; the string
table the symbols are linked to is the one named `.dynstr`; names that end. -/
structure LinkForm (f : Image) (dynsym dynstr : Shdr) : Prop where
  walk : f.walkable = true
  stride : f.ehdr.shentsize = shdrSize
  sectsIn : f.ehdr.shoff + f.ehdr.shnum * shdrSize ≤ f.size
  symtab : f.firstDynsym = some dynsym
  symEntsize : dynsym.entsize = symSize
  symsIn : dynsym.offset + dynsym.size ≤ f.size
  link : dynsym.link < f.ehdr.shnum
  linked : f.sect dynsym.link = dynstr
  strtab : f.lastDynstr = some dynstr
  relasIn : ∀ pos ∈ f.relaPos, pos + relaSize ≤ f.size
  named : ∀ j < dynsym.size / symSize, (f.sym (dynsym.offset + j * symSize)).name < dynstr.size →
    f.strIs (dynstr.offset + (f.sym (dynsym.offset + j * symSize)).name)
      (f.nameAt (dynstr.offset + (f.sym (dynsym.offset + j * symSize)).name)) = true

/-- Both passes walk the same section headers, -/
theorem LinkForm.steppedSects_eq (h : LinkForm f dynsym dynstr) : f.steppedSects = f.sects := by
  have hin : ∀ i < f.ehdr.shnum, f.ehdr.shoff + i * f.ehdr.shentsize + shdrSize ≤ f.size := by
    have hsects := h.sectsIn
    rw [h.stride]
    rw [shdrSize] at hsects ⊢
    omega
  rw [Image.steppedSects, takeWhile_eq_self_iff.mpr, List.map_map]
  · refine map_congr_left fun i _ => ?_
    rw [Function.comp_apply, Image.sect, h.stride, Nat.mul_comm]
  · intro off hoff
    obtain ⟨i, hi, rfl⟩ := List.mem_map.mp hoff
    exact decide_eq_true (hin i (mem_range.mp hi))

/-- and the first pass, too, is its loop body over all records. -/
theorem LinkForm.applyLibRela_eq (h : LinkForm f dynsym dynstr)
    (bias : Nat) : applyLibRela f bias = f.relaPos.filterMap (applyRela f bias) := by
  rw [applyLibRela, if_pos h.walk, h.steppedSects_eq]
  refine congrArg _ (flatMap_congr fun sh hsh => takeWhile_eq_self_iff.mpr ?_)
  intro pos hpos
  exact decide_eq_true (h.relasIn pos (mem_flatMap.mpr ⟨sh, hsh, hpos⟩))

/-- A loaded module with its tables. -/
structure LinkModule extends Lib where
  dynsym : Shdr
  dynstr : Shdr
  form : LinkForm image dynsym dynstr

variable (m : LinkModule)

namespace LinkModule

/-- What the symbol at `pos` defines for other modules: its name in full, its address. -/
def definition (m : LinkModule) (pos : Nat) : Option Symbol :=
  let sym := m.image.sym pos
  if sym.shndx = shnUndef then none
  else if sym.bind ≠ stbGlobal ∧ sym.bind ≠ stbWeak then none
  else if m.dynstr.size ≤ sym.name ∨ sym.name = 0 then none
  else some ⟨m.image.nameAt (m.dynstr.offset + sym.name), u32 (m.bias + sym.value)⟩

def symPos (m : LinkModule) (j : Nat) : Nat := m.dynsym.offset + j * symSize

def definitions (m : LinkModule) : List Symbol :=
  ((range (m.dynsym.size / symSize)).map m.symPos).filterMap m.definition

/-- The symbol of a relocation record, and its name. -/
def relocSym (m : LinkModule) (pos : Nat) : Sym := m.image.sym (m.symPos (m.image.rela pos).sym)

def relocName (m : LinkModule) (pos : Nat) : List UInt8 :=
  m.image.nameAt (m.dynstr.offset + (m.relocSym pos).name)

/-- `S`: the first definition of exactly that name. -/
def target (m : LinkModule) (defs : List Symbol) (pos : Nat) : Option Nat :=
  if m.dynsym.size / symSize ≤ (m.image.rela pos).sym then none
  else if m.dynstr.size ≤ (m.relocSym pos).name then none
  else (defs.find? fun d => decide (d.name = m.relocName pos)).map Symbol.addr

/-- The word a relocation stands for: `B + A`, `S + A` or `S`. -/
def value (m : LinkModule) (defs : List Symbol) (pos : Nat) : Option Nat :=
  let type := (m.image.rela pos).type
  if type = rRiscvRelative then some (u32 (m.bias + m.image.addend pos))
  else if type = rRiscv32 ∨ type = rRiscvGlobDat then
    (m.target defs pos).map fun s => u32 (s + m.image.addend pos)
  else if type = rRiscvJumpSlot then m.target defs pos
  else none

def slot (m : LinkModule) (pos : Nat) : Nat := u32 (m.bias + (m.image.rela pos).offset)

/-- What the table answers for the symbol of a record: of the definitions it has, the first
one whose name is, where it was cut, the symbol's. -/
def answer (m : LinkModule) (kept : List Symbol) (pos : Nat) : Option Nat :=
  (kept.find? fun d => decide (d.name.take maxSymName = m.relocName pos)).map Symbol.addr

/-- What the linker stores for a record, by its type. In an `R_RISCV_32` a module takes its own
symbol for granted; the rest is looked up, without a look at the addend. -/
def stored (m : LinkModule) (kept : List Symbol) (pos : Nat) : Option (Nat × Nat) :=
  let type := (m.image.rela pos).type
  if type = rRiscvRelative then some (m.slot pos, u32 (m.bias + m.image.addend pos))
  else if type = rRiscv32 ∧ (m.relocSym pos).shndx ≠ shnUndef then
    some (m.slot pos, u32 (m.bias + (m.relocSym pos).value + m.image.addend pos))
  else if type = rRiscv32 ∨ type = rRiscvGlobDat ∨ type = rRiscvJumpSlot then
    let s := (m.answer kept pos).getD 0
    if s ≠ 0 then some (m.slot pos, s)
    else if (m.relocSym pos).bind = stbWeak then some (m.slot pos, 0)
    else none
  else none

/-- The record is looked up in the table. -/
def Looked (m : LinkModule) (pos : Nat) : Prop :=
  (m.image.rela pos).type ≠ rRiscvRelative
    ∧ ((m.image.rela pos).type = rRiscv32 → (m.relocSym pos).shndx = shnUndef)

/-- The records the linker gets right. One that is looked up has to be answered with the first
definition, and to want nothing added. By chance another word may be the right one: that of a
definition whose name only starts as the symbol's, or the 0 of a weak symbol that is not found. -/
inductive Exact (m : LinkModule) (defs kept : List Symbol) (pos : Nat) : Prop where
  | relative (type : (m.image.rela pos).type = rRiscvRelative)
  | own (type : (m.image.rela pos).type = rRiscv32) (own : (m.relocSym pos).shndx ≠ shnUndef)
      (first : m.target defs pos = some (u32 (m.bias + (m.relocSym pos).value)))
  | found (looked : m.Looked pos) (first : m.answer kept pos = m.target defs pos)
      (placed : m.target defs pos ≠ some 0)
      (addend : (m.image.rela pos).type = rRiscvJumpSlot ∨ m.image.addend pos = 0)
  | stray (looked : m.Looked pos) (other : m.answer kept pos ≠ m.target defs pos)
      (placed : m.answer kept pos ≠ some 0) (chance : m.answer kept pos = m.value defs pos)
  | zero (looked : m.Looked pos) (unknown : ∀ s ∈ m.answer kept pos, s = 0)
      (weak : (m.relocSym pos).bind = stbWeak) (chance : m.value defs pos = some 0)

theorem strIs_name {j : Nat} (hj : j < m.dynsym.size / symSize)
    (hname : (m.image.sym (m.symPos j)).name < m.dynstr.size) :
    m.image.strIs (m.dynstr.offset + (m.image.sym (m.symPos j)).name)
      (m.image.nameAt (m.dynstr.offset + (m.image.sym (m.symPos j)).name)) = true :=
  m.form.named j hj hname

end LinkModule

/-- All definitions, the cart's first, then those of the libraries in load order. -/
def definitionsOf (cart : LinkModule) (libs : List LinkModule) : List Symbol :=
  (cart :: libs).flatMap LinkModule.definitions

/-- The two passes store the words of the records, and nothing else, and every relocation whose
symbol is defined is written once, with the word it stands for. -/
def LinksRight (cart : LinkModule) (libs : List LinkModule) : Prop :=
  let syms := linkTable cart.toLib (libs.map LinkModule.toLib)
  ∀ m ∈ cart :: libs,
    applyLibRela m.image m.bias ++ resolveElfPlt m.image m.bias syms
        ~ m.image.relaPos.flatMap (relocWords m.image m.bias syms)
      ∧ ∀ pos ∈ m.image.relaPos, ∀ v ∈ m.value (definitionsOf cart libs) pos,
        relocWords m.image m.bias syms pos = [(m.slot pos, v)]

/-- An earlier definition answers for this one's name already. One at address 0 does not. -/
def Repeats (seen : List Symbol) (d : Symbol) : Bool :=
  (seen.find? fun e => decide (e.name.take maxSymName = d.name)).any fun e => decide (e.addr ≠ 0)

/-- The definitions that are not repeated. -/
def entered : List Symbol → List Symbol → List Symbol
  | _, [] => []
  | seen, d :: ds =>
    if Repeats seen d then entered (seen ++ [d]) ds else d :: entered (seen ++ [d]) ds

/-- The definitions the table has room for: the cart's, then the libraries'. -/
def kept (cart : LinkModule) (libs : List LinkModule) : List Symbol :=
  (entered [] cart.definitions ++ entered [] (libs.flatMap LinkModule.definitions)).take maxSyms

/-! ## Names -/

theorem zero_notMem_str (f : Image) (n p : Nat) : 0 ∉ f.str n p := by
  induction n generalizing p with
  | zero => exact not_mem_nil
  | succ n ih =>
    rw [Image.str]
    split
    · exact not_mem_nil
    · rename_i h0
      rw [mem_cons, not_or]
      exact ⟨fun h => h0 h.symm, ih (p + 1)⟩

/-- A name that ends is the only one that stands there. -/
theorem strIs_iff (hend : f.strIs p (f.nameAt p) = true)
    (hlit : 0 ∉ lit) : f.strIs p lit = true ↔ lit = f.nameAt p := by
  constructor
  · intro h
    have h1 := str_of_strIs (le_max_left _ (f.nameAt p).length) hlit h
    have h2 : f.str _ p = f.nameAt p :=
      str_of_strIs (le_max_right lit.length _) (zero_notMem_str f _ _) hend
    rw [← h1, h2]
  · rintro rfl
    exact hend

/-- `strncpy` keeps a prefix. -/
theorem str_eq_take {n : Nat} (hnul : 0 ∉ lit)
    (h : f.strIs p lit = true) : f.str n p = lit.take n := by
  induction lit generalizing n p with
  | nil => rw [str_of_strIs (Nat.zero_le n) hnul h, take_nil]
  | cons c cs ih =>
    cases n with
    | zero => rfl
    | succ =>
      rw [Image.strIs, Bool.and_eq_true, beq_iff_eq] at h
      rw [mem_cons, not_or] at hnul
      have hc : f.byte p ≠ 0 := fun h0 => hnul.1 (by rw [← h.1, h0])
      rw [Image.str, if_neg hc, h.1, ih hnul.2 h.2, take_succ_cons]

/-! ## What the table has -/

/-- An entry of the table. -/
def Symbol.cut (d : Symbol) : Symbol := ⟨d.name.take maxSymName, d.addr⟩

/-- The table of these definitions. -/
def tableOf (ds : List Symbol) : List Symbol := ((entered [] ds).take maxSyms).map Symbol.cut

section

variable {seen ds : List Symbol} {name : List UInt8}

theorem entered_append (seen ds ds' : List Symbol) :
    entered seen (ds ++ ds') = entered seen ds ++ entered (seen ++ ds) ds' := by
  induction ds generalizing seen with
  | nil => rw [append_nil]; rfl
  | cons d ds ih =>
    rw [cons_append, entered, entered, ih, append_assoc, singleton_append]
    split <;> rfl

theorem entered_subset : ∀ d ∈ entered seen ds, d ∈ ds := by
  induction ds generalizing seen with
  | nil => exact fun d hd => hd
  | cons a ds ih =>
    intro d hd
    rw [entered] at hd
    split at hd
    · exact mem_cons_of_mem a (ih d hd)
    · rcases mem_cons.mp hd with rfl | hd
      · exact mem_cons_self
      · exact mem_cons_of_mem a (ih d hd)

/-- The first definition of a cut name is never a repeat. -/
theorem find_entered (hseen : ∀ e ∈ seen, e.name.take maxSymName ≠ name) :
    (entered seen ds).find? (fun d => decide (d.name.take maxSymName = name))
      = ds.find? fun d => decide (d.name.take maxSymName = name) := by
  induction ds generalizing seen with
  | nil => rfl
  | cons d ds ih =>
    rw [entered]
    by_cases hd : d.name.take maxSymName = name
    · have hnew : Repeats seen d = false := by
        rw [Repeats, find?_eq_none.mpr]
        · rfl
        · intro e he heq
          -- the name it would repeat is short, so it is not cut itself
          have heq := of_decide_eq_true heq
          refine hseen e he (heq.trans (Eq.trans ?_ hd))
          rw [take_of_length_le (heq ▸ length_take_le _ _)]
      rw [hnew, if_neg Bool.false_ne_true]
      simp only [find?_cons, hd, decide_true]
    · have hseen' : ∀ e ∈ seen ++ [d], e.name.take maxSymName ≠ name := by
        intro e he
        rcases mem_append.mp he with he | he
        · exact hseen e he
        · rwa [mem_singleton.mp he]
      rw [find?_cons_of_neg (by simpa using hd), ← ih hseen']
      split
      · rfl
      · exact find?_cons_of_neg (by simpa using hd)

theorem find_cut (ds : List Symbol) (name : List UInt8) :
    (ds.map Symbol.cut).find? (fun s => decide (s.name = name))
      = (ds.find? fun d => decide (d.name.take maxSymName = name)).map Symbol.cut :=
  find?_map ..

theorem findSymbol_eq (hend : f.strIs p (f.nameAt p) = true) (hnul : ∀ s ∈ syms, 0 ∉ s.name) :
    findSymbol f p syms = syms.find? fun s => decide (s.name = f.nameAt p) := by
  refine find?_congr fun s hs => ?_
  rw [Bool.eq_iff_iff, strIs_iff hend (hnul s hs), decide_eq_true_iff]

theorem cut_nul (hnul : ∀ d ∈ ds, 0 ∉ d.name) : ∀ s ∈ ds.map Symbol.cut, 0 ∉ s.name := by
  intro s hs
  obtain ⟨d, hd, rfl⟩ := List.mem_map.mp hs
  exact fun h0 => hnul d hd (mem_of_mem_take h0)

/-- A lookup finds the first definition whose cut name it is. -/
theorem symtabLookup_cut (hend : f.strIs p (f.nameAt p) = true) (hnul : ∀ d ∈ ds, 0 ∉ d.name) :
    symtabLookup f p (ds.map Symbol.cut)
      = ((ds.find? fun d => decide (d.name.take maxSymName = f.nameAt p)).map Symbol.addr).getD 0
      := by
  rw [symtabLookup, findSymbol_eq hend (cut_nul hnul), find_cut]
  cases ds.find? fun d => decide (d.name.take maxSymName = f.nameAt p) <;> rfl

end

theorem definition_nul (h : m.definition pos = some d) : 0 ∉ d.name := by
  rw [LinkModule.definition] at h
  split at h
  · cases h
  split at h
  · cases h
  split at h
  · cases h
  · cases h
    exact zero_notMem_str _ _ _

theorem definitions_nul : ∀ d ∈ m.definitions, 0 ∉ d.name := by
  intro d hd
  obtain ⟨pos, -, hpos⟩ := mem_filterMap.mp hd
  exact definition_nul m hpos

/-- A definition is entered behind the others, if it is not repeated and there is room. -/
theorem tableOf_snoc (ds : List Symbol) (d : Symbol) :
    tableOf (ds ++ [d]) = if maxSyms ≤ (tableOf ds).length ∨ Repeats ds d = true then tableOf ds
      else tableOf ds ++ [d.cut] := by
  have hsnoc : entered [] (ds ++ [d]) = entered [] ds ++ if Repeats ds d then [] else [d] := by
    rw [entered_append, nil_append, entered]
    split <;> rfl
  have hlen : (tableOf ds).length = min maxSyms (entered [] ds).length := by
    rw [tableOf, length_map, length_take]
  rw [hlen]
  unfold tableOf
  rw [hsnoc]
  by_cases hrep : Repeats ds d = true
  · rw [if_pos hrep, append_nil, if_pos (.inr hrep)]
  rw [if_neg hrep]
  split <;> rename_i hfull
  · rw [take_append_of_le_length (by have := hfull.resolve_right hrep; omega)]
  · rw [not_or] at hfull
    rw [take_of_length_le (by rw [length_append, length_singleton]; omega),
      take_of_length_le (by omega), map_append]
    rfl

theorem addSymbol_eq {ds : List Symbol} {j : Nat} (hnul : ∀ d ∈ ds, 0 ∉ d.name)
    (hj : j < m.dynsym.size / symSize) :
    addSymbol m.image m.bias m.dynstr (tableOf ds) (m.symPos j)
      = tableOf (ds ++ (m.definition (m.symPos j)).toList) := by
  rw [LinkModule.definition, addSymbol]
  by_cases hundef : (m.image.sym (m.symPos j)).shndx = shnUndef
  · simp only [if_pos hundef, toList_none, append_nil, ite_self]
  by_cases hbind : (m.image.sym (m.symPos j)).bind ≠ stbGlobal
      ∧ (m.image.sym (m.symPos j)).bind ≠ stbWeak
  · simp only [if_neg hundef, if_pos hbind, toList_none, append_nil, ite_self]
  by_cases hname : m.dynstr.size ≤ (m.image.sym (m.symPos j)).name
      ∨ (m.image.sym (m.symPos j)).name = 0
  · simp only [if_neg hundef, if_neg hbind, if_pos hname, toList_none, append_nil, ite_self]
  simp only [if_neg hundef, if_neg hbind, if_neg hname, toList_some, tableOf_snoc]
  have hend := m.strIs_name hj (Nat.lt_of_not_le fun hle => hname (Or.inl hle))
  by_cases hfull : maxSyms ≤ (tableOf ds).length
  · rw [if_pos hfull, if_pos (.inl hfull)]
  -- the table has all that was entered, and a lookup in it is one in the definitions
  have hroom : (entered [] ds).length ≤ maxSyms := by
    rw [tableOf, length_map, length_take] at hfull
    omega
  have hlook : symtabLookup m.image (m.dynstr.offset + (m.image.sym (m.symPos j)).name) (tableOf ds)
      ≠ 0 ↔ Repeats ds ⟨m.image.nameAt (m.dynstr.offset + (m.image.sym (m.symPos j)).name),
        u32 (m.bias + (m.image.sym (m.symPos j)).value)⟩ = true := by
    rw [tableOf, take_of_length_le hroom,
      symtabLookup_cut hend fun d hd => hnul d (entered_subset d hd), find_entered (by simp),
      Repeats]
    cases ds.find? _ <;> simp
  rw [if_neg hfull]
  simp only [hlook, hfull, false_or]
  split
  · rfl
  · rw [str_eq_take (zero_notMem_str _ _ _) hend]
    rfl

theorem foldl_addSymbol_eq (js : List Nat) {ds : List Symbol} (hnul : ∀ d ∈ ds, 0 ∉ d.name)
    (hjs : ∀ j ∈ js, j < m.dynsym.size / symSize) :
    (js.map m.symPos).foldl (addSymbol m.image m.bias m.dynstr) (tableOf ds)
      = tableOf (ds ++ (js.map m.symPos).filterMap m.definition) := by
  induction js generalizing ds with
  | nil => rw [map_nil, filterMap_nil, append_nil]; rfl
  | cons j js ih =>
    have hsplit : ds ++ ((j :: js).map m.symPos).filterMap m.definition
        = (ds ++ (m.definition (m.symPos j)).toList)
          ++ (js.map m.symPos).filterMap m.definition := by
      rw [map_cons, filterMap_cons, append_assoc]
      cases m.definition (m.symPos j) <;> rfl
    rw [hsplit, map_cons, foldl_cons, addSymbol_eq m hnul (hjs j mem_cons_self)]
    refine ih (fun d hd => ?_) fun i hi => hjs i (mem_cons_of_mem _ hi)
    rcases mem_append.mp hd with hd | hd
    · exact hnul d hd
    · exact definition_nul m (mem_toList.mp hd)

theorem buildSymtab_eq {ds : List Symbol} (hnul : ∀ d ∈ ds, 0 ∉ d.name) :
    buildSymtab m.image m.bias (tableOf ds) = tableOf (ds ++ m.definitions) := by
  have hcond : ¬(m.image.ehdr.shnum ≤ m.dynsym.link ∨ m.dynsym.entsize < symSize) := by
    have hlink := m.form.link
    have hent := m.form.symEntsize
    omega
  rw [buildSymtab, if_pos m.form.walk, m.form.symtab]
  simp only [if_neg hcond, m.form.linked]
  rw [m.form.symEntsize]
  exact foldl_addSymbol_eq m _ hnul fun j hj => mem_range.mp hj

theorem libSyms_eq (libs : List LinkModule) {ds : List Symbol} (hnul : ∀ d ∈ ds, 0 ∉ d.name) :
    (libs.map LinkModule.toLib).foldl (fun syms lib => buildSymtab lib.image lib.bias syms)
      (tableOf ds) = tableOf (ds ++ libs.flatMap LinkModule.definitions) := by
  induction libs generalizing ds with
  | nil => rw [flatMap_nil, append_nil]; rfl
  | cons m libs ih =>
    rw [map_cons, foldl_cons, buildSymtab_eq m hnul, flatMap_cons, ← append_assoc]
    refine ih fun d hd => ?_
    rcases mem_append.mp hd with hd | hd
    · exact hnul d hd
    · exact definitions_nul m d hd

/-- **The table** has the definitions that are kept, with their names cut. -/
theorem linkTable_eq (cart : LinkModule) (libs : List LinkModule) :
    linkTable cart.toLib (libs.map LinkModule.toLib) = (kept cart libs).map Symbol.cut := by
  have hnil : ∀ d ∈ ([] : List Symbol), 0 ∉ d.name := fun d hd => by cases hd
  have hcart := buildSymtab_eq cart hnil
  have hlibs := libSyms_eq libs hnil
  rw [nil_append] at hcart hlibs
  rw [linkTable, show ([] : List Symbol) = tableOf [] from rfl, hcart, hlibs, appendSymtab, kept,
    take_append, map_append, tableOf, tableOf, length_map, length_take, ← map_take, take_take]
  congr 3
  omega

theorem kept_nul (cart : LinkModule) (libs : List LinkModule) :
    ∀ d ∈ kept cart libs, 0 ∉ d.name := by
  intro d hd
  rcases mem_append.mp (mem_of_mem_take hd) with hd | hd
  · exact definitions_nul cart d (entered_subset d hd)
  · obtain ⟨m, -, hd⟩ := mem_flatMap.mp (entered_subset d hd)
    exact definitions_nul m d hd

/-! ## One record -/

section

variable {m : LinkModule} {kept defs : List Symbol} {pos s : Nat}

/-- The symbol of the record, and its name, are in the module's tables. -/
def LinkModule.InTables (m : LinkModule) (pos : Nat) : Prop :=
  (m.image.rela pos).sym < m.dynsym.size / symSize ∧ (m.relocSym pos).name < m.dynstr.size

theorem LinkModule.target_spec (h : m.target defs pos = some s) :
    m.InTables pos ∧ ∃ d ∈ defs, d.addr = s := by
  rw [target] at h
  split at h
  · cases h
  · split at h
    · cases h
    · obtain ⟨d, hd, rfl⟩ := map_eq_some_iff.mp h
      exact ⟨⟨by omega, by omega⟩, d, mem_of_find?_eq_some hd, rfl⟩

theorem sym_lt (f : Image) (pos : Nat) : (f.rela pos).sym < 2 ^ 24 := by
  have := read32_lt f.byte (pos + 4)
  show read32 f.byte (pos + 4) / 256 < _
  omega

/-- Both passes look at the same symbol. -/
theorem pltReloc_eq (hin : m.InTables pos) :
    pltReloc m.image m.dynsym m.dynstr pos
      = if (m.image.rela pos).type ≠ rRiscvJumpSlot ∧ (m.image.rela pos).type ≠ rRiscvGlobDat
          ∧ (m.image.rela pos).type ≠ rRiscv32 then none
        else if (m.image.rela pos).type = rRiscv32 ∧ (m.relocSym pos).shndx ≠ shnUndef then none
        else some ⟨m.image.rela pos, m.symPos (m.image.rela pos).sym,
          m.dynstr.offset + (m.relocSym pos).name⟩ := by
  obtain ⟨hsym, hname⟩ := hin
  have hlt := sym_lt m.image pos
  have hoff : u32 ((m.image.rela pos).sym * m.dynsym.entsize)
      = (m.image.rela pos).sym * symSize := by
    rw [m.form.symEntsize]
    refine u32_of_lt ?_
    rw [symSize]
    omega
  have hin : ¬m.dynsym.size < (m.image.rela pos).sym * symSize + symSize := by
    rw [symSize] at hsym ⊢
    omega
  have hname' : ¬m.dynstr.size ≤ (m.relocSym pos).name := by omega
  have hplt : pltReloc m.image m.dynsym m.dynstr pos
      = if (m.image.rela pos).type ≠ rRiscvJumpSlot ∧ (m.image.rela pos).type ≠ rRiscvGlobDat
          ∧ (m.image.rela pos).type ≠ rRiscv32 then none
        else if m.dynsym.size < (m.image.rela pos).sym * symSize + symSize then none
        else if m.dynstr.size ≤ (m.relocSym pos).name then none
        else if (m.image.rela pos).type = rRiscv32 ∧ (m.relocSym pos).shndx ≠ shnUndef then none
        else some ⟨m.image.rela pos, m.symPos (m.image.rela pos).sym,
          m.dynstr.offset + (m.relocSym pos).name⟩ := by
    rw [pltReloc, hoff]
    rfl
  rw [hplt, if_neg hin, if_neg hname']

theorem resolveRela_eq (syms : List Symbol) :
    resolveRela m.image m.bias syms pos
      = (pltReloc m.image m.dynsym m.dynstr pos).bind (resolveWord m.image m.bias syms) := by
  have hent : ¬m.dynsym.entsize < symSize := by
    rw [m.form.symEntsize]
    exact lt_irrefl _
  simp only [resolveRela, m.form.symtab, m.form.strtab, if_neg hent]

/-- The first pass on a record that names a symbol. -/
theorem applyRela_eq (hin : m.InTables pos) (htype : (m.image.rela pos).type ≠ rRiscvRelative) :
    applyRela m.image m.bias pos
      = if (m.image.rela pos).type = rRiscv32 ∧ (m.relocSym pos).shndx ≠ shnUndef then
          some (m.slot pos, u32 (m.bias + (m.relocSym pos).value + m.image.addend pos))
        else none := by
  obtain ⟨hsym, -⟩ := hin
  have hin : ¬m.image.size < m.dynsym.offset + (m.image.rela pos).sym * symSize + symSize := by
    have := m.form.symsIn
    rw [symSize] at hsym ⊢
    omega
  by_cases h32 : (m.image.rela pos).type = rRiscv32
  · have happly : applyRela m.image m.bias pos
        = if (m.relocSym pos).shndx = shnUndef then none
          else some (m.slot pos, u32 (m.bias + (m.relocSym pos).value + m.image.addend pos)) := by
      rw [applyRela, if_neg htype, if_pos h32]
      simp only [m.form.symtab, m.form.symEntsize, lt_irrefl, if_false, if_neg hin]
      rfl
    rw [happly]
    split <;> rename_i hundef
    · rw [if_neg (fun h => h.2 hundef)]
    · rw [if_pos ⟨h32, hundef⟩]
  · rw [applyRela, if_neg htype, if_neg h32, if_neg (fun h => h32 h.1)]

/-- **One record**: the two passes store what its type says, once or not at all. -/
theorem relocWords_eq (hnul : ∀ d ∈ kept, 0 ∉ d.name)
    (hin : (m.image.rela pos).type ≠ rRiscvRelative → m.InTables pos) :
    relocWords m.image m.bias (kept.map Symbol.cut) pos = (m.stored kept pos).toList := by
  rw [relocWords, resolveRela_eq, LinkModule.stored]
  by_cases hrel : (m.image.rela pos).type = rRiscvRelative
  · have hplt : pltReloc m.image m.dynsym m.dynstr pos = none := by
      rw [pltReloc, if_pos (by rw [hrel]; decide)]
    rw [hplt, applyRela, if_pos hrel, if_pos hrel]
    rfl
  have hin := hin hrel
  rw [pltReloc_eq hin, applyRela_eq hin hrel, if_neg hrel]
  by_cases hown : (m.image.rela pos).type = rRiscv32 ∧ (m.relocSym pos).shndx ≠ shnUndef
  · rw [if_pos hown, if_pos hown, if_pos hown, if_neg (by rw [hown.1]; decide)]
    rfl
  rw [if_neg hown, if_neg hown, if_neg hown]
  by_cases htype : (m.image.rela pos).type = rRiscv32 ∨ (m.image.rela pos).type = rRiscvGlobDat
      ∨ (m.image.rela pos).type = rRiscvJumpSlot
  · have hlook : symtabLookup m.image (m.dynstr.offset + (m.relocSym pos).name)
        (kept.map Symbol.cut) = (m.answer kept pos).getD 0 :=
      symtabLookup_cut (m.strIs_name hin.1 hin.2) hnul
    rw [if_pos htype, if_neg (by tauto), bind_some, resolveWord, hlook, toList_none, nil_append,
      ite_not]
    rfl
  · rw [if_neg htype, if_pos (by tauto)]
    rfl

end

/-! ## The linker -/

theorem definition_addr_lt (h : m.definition pos = some d) : d.addr < 2 ^ 32 := by
  rw [LinkModule.definition] at h
  split at h
  · cases h
  split at h
  · cases h
  split at h
  · cases h
  · cases h
    exact u32_lt _

theorem definitionsOf_addr_lt {cart : LinkModule} {libs : List LinkModule}
    (h : d ∈ definitionsOf cart libs) : d.addr < 2 ^ 32 := by
  obtain ⟨m, -, hd⟩ := mem_flatMap.mp h
  obtain ⟨pos, -, hpos⟩ := mem_filterMap.mp hd
  exact definition_addr_lt m hpos

/-- Adding the addend changes nothing only if it is 0. -/
theorem u32_add_eq_self {a : Nat} (hs : s < 2 ^ 32) (ha : a < 2 ^ 32) :
    s = u32 (s + a) ↔ a = 0 := by
  unfold u32
  omega

section

variable {m : LinkModule} {kept defs : List Symbol} {pos s v : Nat}

theorem LinkModule.value_cases (h : m.value defs pos = some v) :
    (m.image.rela pos).type = rRiscvRelative ∧ v = u32 (m.bias + m.image.addend pos)
      ∨ ((m.image.rela pos).type = rRiscv32 ∨ (m.image.rela pos).type = rRiscvGlobDat)
        ∧ (∃ s, m.target defs pos = some s ∧ v = u32 (s + m.image.addend pos))
      ∨ (m.image.rela pos).type = rRiscvJumpSlot ∧ m.target defs pos = some v := by
  rw [value] at h
  split at h
  · rename_i htype
    exact .inl ⟨htype, (some.inj h).symm⟩
  · split at h
    · rename_i htype
      obtain ⟨s, hs, hv⟩ := map_eq_some_iff.mp h
      exact .inr (.inl ⟨htype, s, hs, hv.symm⟩)
    · split at h
      · rename_i htype
        exact .inr (.inr ⟨htype, h⟩)
      · cases h

/-- A record that is looked up: right if the table answers with the definition and this alone is
the word that is asked for, or by chance. -/
theorem looked_iff (ht : m.target defs pos = some s) (hv : m.value defs pos = some v)
    (hlooked : m.Looked pos)
    (hplain : s = v ↔ (m.image.rela pos).type = rRiscvJumpSlot ∨ m.image.addend pos = 0) :
    (let a := (m.answer kept pos).getD 0
      if a ≠ 0 then some (m.slot pos, a)
      else if (m.relocSym pos).bind = stbWeak then some (m.slot pos, 0) else none)
        = some (m.slot pos, v) ↔ m.Exact defs kept pos := by
  simp only
  constructor
  · intro h
    split at h
    · rename_i hne
      obtain ⟨a, ha⟩ : ∃ a, m.answer kept pos = some a :=
        ne_none_iff_exists'.mp fun hnone => hne (by rw [hnone]; rfl)
      rw [ha, getD_some] at h hne
      obtain rfl : a = v := congrArg Prod.snd (some.inj h)
      by_cases hs : s = a
      · subst hs
        exact .found hlooked (ha.trans ht.symm) (ht ▸ fun h => hne (some.inj h)) (hplain.mp rfl)
      · refine .stray hlooked ?_ ?_ (ha.trans hv.symm)
        · rw [ha, ht]
          exact fun h => hs (some.inj h).symm
        · rw [ha]
          exact fun h => hne (some.inj h)
    · rename_i hzero
      split at h
      · rename_i hweak
        obtain rfl : 0 = v := congrArg Prod.snd (some.inj h)
        refine .zero hlooked (fun a ha => ?_) hweak hv
        rw [mem_def.mp ha, getD_some, not_not] at hzero
        exact hzero
      · cases h
  · rintro (h | ⟨h, hown, -⟩ | ⟨-, hfirst, hplaced, hadd⟩ | ⟨-, -, hplaced, hchance⟩
      | ⟨-, hunknown, hweak, hzero⟩)
    · exact absurd h hlooked.1
    · exact absurd (hlooked.2 h) hown
    · rw [hfirst, ht, getD_some, if_pos (fun h => hplaced (ht.trans (congrArg some h))),
        hplain.mpr hadd]
    · rw [hchance, hv] at hplaced ⊢
      rw [getD_some, if_pos fun h => hplaced (congrArg some h)]
    · have hnone : (m.answer kept pos).getD 0 = 0 := by
        cases ha : m.answer kept pos with
        | none => rfl
        | some a => exact hunknown a ha
      rw [hv] at hzero
      rw [hnone, if_neg (fun h => h rfl), if_pos hweak, some.inj hzero]

/-- What is stored for a record whose symbol is defined is the right word exactly if the
record is one of those named by `Exact`. -/
theorem stored_iff (hlt : ∀ d ∈ defs, d.addr < 2 ^ 32) (hv : m.value defs pos = some v) :
    m.stored kept pos = some (m.slot pos, v) ↔ m.Exact defs kept pos := by
  have hadd : m.image.addend pos < 2 ^ 32 := read32_lt _ _
  rw [LinkModule.stored]
  rcases m.value_cases hv with ⟨htype, rfl⟩ | ⟨htype, s, ht, rfl⟩ | ⟨htype, ht⟩
  · rw [if_pos htype]
    exact ⟨fun _ => .relative htype, fun _ => rfl⟩
  · obtain ⟨-, d, hd, rfl⟩ := LinkModule.target_spec ht
    have hrel : (m.image.rela pos).type ≠ rRiscvRelative := by
      rcases htype with h | h <;> rw [h] <;> decide
    have hjump : (m.image.rela pos).type ≠ rRiscvJumpSlot := by
      rcases htype with h | h <;> rw [h] <;> decide
    rw [if_neg hrel]
    by_cases hown : (m.image.rela pos).type = rRiscv32 ∧ (m.relocSym pos).shndx ≠ shnUndef
    · rw [if_pos hown, some.injEq, Prod.mk.injEq, and_iff_right rfl]
      have hnot : ¬m.Looked pos := fun h => hown.2 (h.2 hown.1)
      constructor
      · intro h
        refine .own hown.1 hown.2 ?_
        rw [ht, some.injEq]
        have := hlt d hd
        unfold u32 at h ⊢
        omega
      · rintro (h | ⟨-, -, hfirst⟩ | ⟨h, -⟩ | ⟨h, -⟩ | ⟨h, -⟩)
        · exact absurd h hrel
        · rw [ht, some.injEq] at hfirst
          rw [hfirst]
          unfold u32
          omega
        · exact absurd h hnot
        · exact absurd h hnot
        · exact absurd h hnot
    · rw [if_neg hown, if_pos (by tauto)]
      refine looked_iff ht hv ⟨hrel, by tauto⟩ ?_
      rw [u32_add_eq_self (hlt d hd) hadd]
      exact ⟨Or.inr, fun h => h.resolve_left hjump⟩
  · have hrel : (m.image.rela pos).type ≠ rRiscvRelative := by
      rw [htype]
      decide
    have h32 : (m.image.rela pos).type ≠ rRiscv32 := by
      rw [htype]
      decide
    rw [if_neg hrel, if_neg fun h => h32 h.1, if_pos (.inr (.inr htype))]
    exact looked_iff ht hv ⟨hrel, fun h => absurd h h32⟩ ⟨fun _ => .inl htype, fun _ => rfl⟩

theorem LinkModule.inTables_of_value (hv : m.value defs pos = some v)
    (hrel : (m.image.rela pos).type ≠ rRiscvRelative) : m.InTables pos := by
  rcases m.value_cases hv with ⟨htype, -⟩ | ⟨-, s, ht, -⟩ | ⟨-, ht⟩
  · exact absurd htype hrel
  · exact (m.target_spec ht).1
  · exact (m.target_spec ht).1

end

theorem passes_perm_relocWords (m : LinkModule) (syms : List Symbol) :
    applyLibRela m.image m.bias ++ resolveElfPlt m.image m.bias syms
      ~ m.image.relaPos.flatMap (relocWords m.image m.bias syms) := by
  rw [m.form.applyLibRela_eq, resolveElfPlt_eq _ _ m.form.walk, filterMap_eq_flatMap_toList,
    filterMap_eq_flatMap_toList]
  exact flatMap_append_perm _ _ _

/-- **The two passes** store, for every record of a module, the word its type stands for, and
nothing else. -/
theorem passes_perm_stored (cart : LinkModule) (libs : List LinkModule) (m : LinkModule)
    (hin : ∀ pos ∈ m.image.relaPos,
      (m.image.rela pos).type ≠ rRiscvRelative → m.InTables pos) :
    let syms := linkTable cart.toLib (libs.map LinkModule.toLib)
    applyLibRela m.image m.bias ++ resolveElfPlt m.image m.bias syms
      ~ m.image.relaPos.filterMap (m.stored (kept cart libs)) := by
  intro syms
  refine (passes_perm_relocWords m syms).trans (Perm.of_eq ?_)
  rw [filterMap_eq_flatMap_toList]
  refine flatMap_congr fun pos hpos => ?_
  rw [show syms = _ from linkTable_eq cart libs]
  exact relocWords_eq (kept_nul cart libs) (hin pos hpos)

/-- A library that defines `table` at 0x100. -/
def tableLib : LinkModule where
  name := bytesOf "libtable.so"
  image := demoLib "table"
  bias := 0x08000000
  dynsym := ⟨0, shtDynsym, 0, 0x200, 32, 2, 16⟩
  dynstr := ⟨1, shtStrtab, 0, 0x300, 7, 0, 0⟩
  form := by constructor <;> decide +kernel

/-- A cart with one pointer to `table`, filled in by an `R_RISCV_GLOB_DAT` record
with this addend; `h` is its form. -/
def tableCart (addend : Nat) (h : LinkForm
    (linkImage "table" [1, 0, 0, 0x12] [[0x2000, 256 + rRiscvGlobDat, addend]] [] [])
    ⟨0, shtDynsym, 0, 0x200, 32, 2, 16⟩ ⟨1, shtStrtab, 0, 0x300, 7, 0, 0⟩) : LinkModule :=
  ⟨⟨[], _, 0⟩, _, _, h⟩

/-- A pointer to the start of the table. -/
def startCart : LinkModule := tableCart 0 (by constructor <;> decide +kernel)

theorem startCart_relas : startCart.image.relaPos = [0x500] := by decide +kernel

theorem passes_perm_stored_start :
    applyLibRela startCart.image startCart.bias ++ resolveElfPlt startCart.image startCart.bias
        (linkTable startCart.toLib [tableLib.toLib]) ~ [(0x2000, 0x08000100)] := by
  have hin : ∀ pos ∈ startCart.image.relaPos,
      (startCart.image.rela pos).type ≠ rRiscvRelative → startCart.InTables pos := by
    rw [startCart_relas]
    intro pos hpos _
    rw [mem_singleton.mp hpos]
    unfold LinkModule.InTables
    decide +kernel
  have hwords : startCart.image.relaPos.filterMap (startCart.stored (kept startCart [tableLib]))
      = [(0x2000, 0x08000100)] := by
    rw [startCart_relas]
    decide +kernel
  exact hwords ▸ passes_perm_stored startCart [tableLib] startCart hin

end Blyt
