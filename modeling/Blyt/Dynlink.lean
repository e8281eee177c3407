import Blyt.CartSpec

/-!
# The dynamic linker

`dynlink` of `runtime/host/src/libblyt/cart_run.c` and what it calls:
`build_symtab`, `append_symtab`, `get_dt_needed`, `resolve_elf_plt` and the
queue of libraries. It works on a cart the verifier has let through, but it walks
the section table again, on its own terms: the first dynamic symbol table, the
last `SHT_DYNAMIC` section, the last string table named `.dynstr`.

The files of the runtime's libraries and the extent of guest memory come from
outside (`LibStore`). The relocations that need no lookup (`apply_lib_rela`) are
in `Reloc`, the data words that are set once the linking is done in `CartSwap`.
Left out are messages and the debugger's record of loaded libraries.
-/

namespace Blyt

namespace Image

/-- `strncpy` of at most `n` bytes at `p`. -/
def str (f : Image) : Nat → Nat → List UInt8
  | 0, _ => []
  | n + 1, p => if f.byte p = 0 then [] else f.byte p :: f.str n (p + 1)

def firstDynsym (f : Image) : Option Shdr := f.sects.find? fun sh => decide (sh.type = shtDynsym)

def lastDynamic (f : Image) : Option Shdr :=
  (f.sects.filter fun sh => decide (sh.type = shtDynamic)).getLast?

def lastDynstr (f : Image) : Option Shdr :=
  (f.sects.filter fun sh => decide (sh.type = shtStrtab) && f.hasName ".dynstr" sh).getLast?

/-- The section table is one `dynlink` walks. -/
def walkable (f : Image) : Bool := decide (shdrSize ≤ f.ehdr.shentsize) && decide (f.ehdr.shnum ≠ 0)

end Image

/-! ## Symbol tables -/

structure Symbol where
  name : List UInt8
  addr : Nat
  deriving DecidableEq, Repr

def maxSyms : Nat := 2048

/-- Room for a name in the table, without the terminator. -/
def maxSymName : Nat := 127

/-- The first symbol with the name that stands at `p`. -/
def findSymbol (f : Image) (p : Nat) (syms : List Symbol) : Option Symbol :=
  syms.find? fun s => f.strIs p s.name

/-- Its address, 0 if there is none. -/
def symtabLookup (f : Image) (p : Nat) (syms : List Symbol) : Nat :=
  match findSymbol f p syms with
  | some s => s.addr
  | none => 0

def appendSymtab (dst src : List Symbol) : List Symbol := dst ++ src.take (maxSyms - dst.length)

/-- One entry of a library's symbol table. -/
def addSymbol (f : Image) (bias : Nat) (strtab : Shdr) (syms : List Symbol) (pos : Nat) :
    List Symbol :=
  let sym := f.sym pos
  if maxSyms ≤ syms.length then syms
  else if sym.shndx = shnUndef then syms
  else if sym.bind ≠ stbGlobal ∧ sym.bind ≠ stbWeak then syms
  else if strtab.size ≤ sym.name ∨ sym.name = 0 then syms
  else if symtabLookup f (strtab.offset + sym.name) syms ≠ 0 then syms
  else syms ++ [⟨f.str maxSymName (strtab.offset + sym.name), u32 (bias + sym.value)⟩]

/-- The section `sh_link` names is the string table, whatever its type. -/
def buildSymtab (f : Image) (bias : Nat) (syms : List Symbol) : List Symbol :=
  if f.walkable then
    match f.firstDynsym with
    | none => syms
    | some dynsym =>
      if f.ehdr.shnum ≤ dynsym.link ∨ dynsym.entsize < symSize then syms
      else
        ((List.range (dynsym.size / dynsym.entsize)).map fun j =>
          dynsym.offset + j * dynsym.entsize).foldl (addSymbol f bias (f.sect dynsym.link)) syms
  else syms

/-! ## Relocations -/

/-- A relocation that is looked up: its record, and where its symbol and the
symbol's name stand in the file. -/
structure PltReloc where
  rela : Rela
  sym : Nat
  name : Nat
  deriving DecidableEq, Repr

/-- The tests on one relocation record. The offset of the symbol is a 32-bit
product. -/
def pltReloc (f : Image) (dynsym dynstr : Shdr) (pos : Nat) : Option PltReloc :=
  let r := f.rela pos
  let off := u32 (r.sym * dynsym.entsize)
  let sym := f.sym (dynsym.offset + off)
  if r.type ≠ rRiscvJumpSlot ∧ r.type ≠ rRiscvGlobDat ∧ r.type ≠ rRiscv32 then none
  else if dynsym.size < off + symSize then none
  else if dynstr.size ≤ sym.name then none
  else if r.type = rRiscv32 ∧ sym.shndx ≠ shnUndef then none
  else some ⟨r, dynsym.offset + off, dynstr.offset + sym.name⟩

def pltRelocsOf (f : Image) (dynsym dynstr sh : Shdr) : List PltReloc :=
  if sh.type ≠ shtRela ∨ sh.entsize < relaSize then []
  else (List.range (sh.size / sh.entsize)).filterMap fun j =>
    pltReloc f dynsym dynstr (sh.offset + j * sh.entsize)

def pltRelocs (f : Image) : List PltReloc :=
  if f.walkable then
    match f.firstDynsym, f.lastDynstr with
    | some dynsym, some dynstr =>
      if dynsym.entsize < symSize then [] else f.sects.flatMap (pltRelocsOf f dynsym dynstr)
    | _, _ => []
  else []

/-- The words `resolve_elf_plt` writes to guest memory. -/
def resolveElfPlt (f : Image) (bias : Nat) (syms : List Symbol) : List (Nat × Nat) :=
  (pltRelocs f).filterMap fun r =>
    let resolved := symtabLookup f r.name syms
    if resolved = 0 then
      if (f.sym r.sym).bind = stbWeak then some (u32 (bias + r.rela.offset), 0) else none
    else some (u32 (bias + r.rela.offset), resolved)

/-! ## Libraries -/

def maxRuntimeLibs : Nat := 8

/-- Room for a library name in the queue, without the terminator. -/
def maxLibName : Nat := 63

def phdrAt (f : Image) (i : Nat) : Nat := f.ehdr.phoff + i * f.ehdr.phentsize

def vaddrToPtr (f : Image) (vaddr : Nat) : List Nat → Option Nat
  | [] => none
  | i :: is =>
    let ph := f.phdr (phdrAt f i)
    if f.size < phdrAt f i + phdrSize then none
    else if ph.type = ptLoad ∧ ph.vaddr ≤ vaddr ∧ vaddr < u32 (ph.vaddr + ph.filesz)
        ∧ u32 (ph.offset + (vaddr - ph.vaddr)) < f.size then
      some (u32 (ph.offset + (vaddr - ph.vaddr)))
    else vaddrToPtr f vaddr is

/-- The first `PT_DYNAMIC` header. -/
def dynamicPhdr (f : Image) : List Nat → Option Phdr
  | [] => none
  | i :: is =>
    if f.size < phdrAt f i + phdrSize then none
    else if (f.phdr (phdrAt f i)).type = ptDynamic then some (f.phdr (phdrAt f i))
    else dynamicPhdr f is

/-- Where the names of the libraries a library needs stand in its file. -/
def getDtNeeded (f : Image) : List Nat :=
  match dynamicPhdr f (List.range f.ehdr.phnum) with
  | none => []
  | some ph =>
    let entries := f.dynPos dynSize (ph.filesz / dynSize) ph.offset
    match entries.find? fun pos => decide ((f.dyn pos).tag = dtStrtab) with
    | none => []
    | some pos =>
      match vaddrToPtr f (f.dyn pos).val (List.range f.ehdr.phnum) with
      | none => []
      | some strtab =>
        ((entries.filter fun pos => decide ((f.dyn pos).tag = dtNeeded)).map fun pos =>
          strtab + (f.dyn pos).val).take maxRuntimeLibs

/-- The host: the files `open_lib` finds, whether the emulator's memory takes a
range, and whether a host-side Lua machine drives the cart. The libraries are
the runtime's own, and their names fit the queue. -/
structure LibStore where
  openLib : List UInt8 → Option Image
  fits : Nat → Nat → Bool
  bridge : Bool
  short : ∀ name lib, openLib name = some lib →
    ∀ p ∈ getDtNeeded lib, (lib.str (maxLibName + 1) p).length ≤ maxLibName

/-- The Lua library is replaced by a stub when the file is opened. -/
def LibStore.openName (s : LibStore) (name : List UInt8) : List UInt8 :=
  if s.bridge = true ∧ name = bytesOf "libblyt32lua.so" then bytesOf "libblyt32lua-bridge.so"
  else name

def mapLibSegments (s : LibStore) (f : Image) (bias : Nat) : Bool :=
  (List.range f.ehdr.phnum).all fun i =>
    let ph := f.phdr (phdrAt f i)
    decide (phdrAt f i + phdrSize ≤ f.size)
      && (decide (ph.type ≠ ptLoad)
        || decide (ph.offset + ph.filesz ≤ f.size) && s.fits (u32 (bias + ph.vaddr)) ph.filesz
          && (decide (ph.memsz ≤ ph.filesz)
            || s.fits (u32 (bias + ph.vaddr + ph.filesz)) (ph.memsz - ph.filesz)))

/-- A loaded library, under the name it was queued with. -/
structure Lib where
  name : List UInt8
  image : Image
  bias : Nat

/-- `name_buf[0 .. qtail)`, `qhead`, `libs[0 .. nlibs)`. -/
structure LibQueue where
  names : List (List UInt8)
  head : Nat
  libs : List Lib

def libBias (f : Image) (n : Nat) : Nat :=
  if f.ehdr.type = etDyn then u32 (0x08000000 + n * 0x00200000) else 0

/-- Open, check and map the library of this name. -/
def loadLib (s : LibStore) (n : Nat) (name : List UInt8) : Option Lib :=
  match s.openLib (s.openName name) with
  | none => none
  | some f =>
    if f.size < ehdrSize ∨ f.byte 0 ≠ 0x7f ∨ f.ehdr.machine ≠ emRiscv then none
    else if mapLibSegments s f (libBias f n) then some ⟨name, f, libBias f n⟩
    else none

/-- Queue a needed library unless its name is queued already. -/
def enqueue (f : Image) (names : List (List UInt8)) (p : Nat) : List (List UInt8) :=
  if names.length < maxRuntimeLibs ∧ names.any (fun n => f.strIs p n) = false then
    names ++ [f.str maxLibName p]
  else names

/-- The loop over the queue; the first argument is `MAX_RUNTIME_LIBS - nlibs`.
The flag is `ok`. -/
def loadLibs (s : LibStore) : Nat → LibQueue → LibQueue × Bool
  | 0, q => (q, true)
  | n + 1, q =>
    match q.names[q.head]? with
    | none => (q, true)
    | some name =>
      match loadLib s q.libs.length name with
      | none => ({ q with head := q.head + 1 }, false)
      | some lib =>
        loadLibs s n
          { names := (getDtNeeded lib.image).foldl (enqueue lib.image) q.names
            head := q.head + 1
            libs := q.libs ++ [lib] }

/-- The `DT_NEEDED` entries the queue starts with, and where their names stand. -/
def seedEntries (f : Image) : List (Nat × Nat) :=
  if f.walkable then
    match f.lastDynamic, f.lastDynstr with
    | some dynamic, some dynstr =>
      (((f.dynPos dynSize (dynamic.size / dynSize) dynamic.offset).filter fun pos =>
        decide ((f.dyn pos).tag = dtNeeded)).take maxRuntimeLibs).map fun pos =>
          (pos, dynstr.offset + (f.dyn pos).val)
    | _, _ => []
  else []

def seedNames (f : Image) : List (List UInt8) := (seedEntries f).map fun e => f.str maxLibName e.2

structure Linked where
  libs : List Lib
  libSyms : List Symbol
  syms : List Symbol
  writes : List (Nat × Nat)

/-- All of it: the libraries, the combined table, and the relocations of the
libraries and the cart. -/
def dynlink (s : LibStore) (f : Image) : LibQueue × Option Linked :=
  match loadLibs s maxRuntimeLibs ⟨seedNames f, 0, []⟩ with
  | (q, false) => (q, none)
  | (q, true) =>
    let libSyms := q.libs.foldl (fun syms lib => buildSymtab lib.image lib.bias syms) []
    let syms := appendSymtab (buildSymtab f 0 []) libSyms
    (q, some
      { libs := q.libs
        libSyms := libSyms
        syms := syms
        writes := q.libs.flatMap (fun lib => resolveElfPlt lib.image lib.bias syms)
          ++ resolveElfPlt f 0 syms })

end Blyt
