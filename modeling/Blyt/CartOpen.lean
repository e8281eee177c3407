import Blyt.CartNames
import Blyt.Elf

/-!
# Opening a cart

`blyt_cart_open` of `runtime/host/src/libblyt/cart_load.c`, from the mapped file
on: identity, program headers, section walk, needed libraries, imports, the
metadata sections and the entry points, in the order of the source and with its
error codes.

The FlatBuffers verifier and reader are generated code of a library that is not
part of the repository: they are the parameter `Flat`. Sums the source makes in
`size_t` are sums of natural numbers here, those it makes in `uint32_t` are
`u32`.
-/

namespace Blyt

open Reader

inductive CartErr where
  | io | tooSmall | notElf | badClass | badEndian | badOsabi | badMachine | badFlags | badShdr
  | deniedSect | badNeeded | noCartInfo | badPreamble | badCartInfo | badCartConfig | apiVersion
  | badSegment | badInterp | noRelro | badOpcode | badImport | missingEntry | badLayouts | badId
  | badTitle | badVersion
  deriving DecidableEq, Repr

/-- The fields of `.cart.info` that are read; strings without their terminator. -/
structure CartInfo where
  apiMajor : Nat
  debug : Bool
  id : Option (List UInt8)
  title : Option (List UInt8)
  version : Option (List UInt8)
  deriving DecidableEq, Repr

/-- `malloc`, the FlatBuffers verifiers and the accessors behind them. -/
structure Flat where
  alloc : Nat → Bool
  infoVerify : List UInt8 → Bool
  info : List UInt8 → Option CartInfo
  configVerify : List UInt8 → Bool
  /-- `save_version` and `default_palette` -/
  config : List UInt8 → Option (Nat × Nat)
  layoutsVerify : List UInt8 → Bool

structure Cart where
  isDebug : Bool
  hasDwarf : Bool
  saveVersion : Nat
  defaultPalette : Nat
  id : List UInt8
  title : List UInt8
  version : List UInt8
  deriving DecidableEq, Repr

abbrev Check := Reader CartErr

/-! ## Identity -/

def checkIdent (eh : Ehdr) : Check Unit := do
  need (eh.mag = [0x7f, 0x45, 0x4c, 0x46]) .notElf
  need (eh.cls = 1) .badClass
  need (eh.data = 1) .badEndian
  need (eh.osabi = 0) .badOsabi
  need (eh.machine = emRiscv) .badMachine
  need (eh.flags = 5) .badFlags

/-! ## Program headers -/

/-- `MAX_LOAD`. -/
def maxLoad : Nat := 64

/-- What the loop over the program headers collects. -/
structure Segs where
  loads : List Phdr
  hasRelro : Bool
  hasInterp : Bool
  entryOk : Bool

/-- Half-open ranges of 32-bit values, compared in 64 bits. -/
def rangesOverlap (a alen b blen : Nat) : Bool :=
  if alen = 0 ∨ blen = 0 then false else decide (a < b + blen ∧ b < a + alen)

def readPhdr (eh : Ehdr) (i : Nat) : Check Phdr :=
  fetch (eh.phoff + i * eh.phentsize) phdrSize (·.phdr (eh.phoff + i * eh.phentsize))

def checkInterp (ph : Phdr) : Check Unit := do
  let size ← fileSize
  need (ph.offset + ph.filesz ≤ size) .badInterp
  need (ph.filesz = interpPath.length) .badInterp
  let path ← fetch ph.offset interpPath.length (·.slice ph.offset interpPath.length)
  need (path = interpPath) .badInterp

def checkLoad (ph : Phdr) : Check Unit := do
  let size ← fileSize
  need (¬ (ph.writable = true ∧ ph.exec = true)) .badSegment
  need (ph.offset + ph.filesz ≤ size) .badSegment

/-- Does the entry point lie in the file part of this segment? -/
def holdsEntry (eh : Ehdr) (ph : Phdr) : Bool :=
  ph.exec && decide (0 < ph.filesz ∧ ph.vaddr ≤ eh.entry ∧ eh.entry < u32 (ph.vaddr + ph.filesz))

/-- One round of the loop. Only the first 64 segments are collected. -/
def checkPhdr (eh : Ehdr) (s : Segs) (i : Nat) : Check Segs := do
  let ph ← readPhdr eh i
  onlyIf (ph.type = ptInterp) (checkInterp ph)
  need (¬ (ph.type = ptGnuStack ∧ ph.exec = true)) .badSegment
  onlyIf (ph.type = ptLoad) (checkLoad ph)
  pure
    { loads :=
        if ph.type = ptLoad ∧ s.loads.length < maxLoad then s.loads ++ [ph] else s.loads
      hasRelro := s.hasRelro || decide (ph.type = ptGnuRelro)
      hasInterp := s.hasInterp || decide (ph.type = ptInterp)
      entryOk := s.entryOk || decide (ph.type = ptLoad) && holdsEntry eh ph }

def checkPair (a b : Phdr) : Check Unit := do
  need (rangesOverlap a.offset a.filesz b.offset b.filesz = false) .badSegment
  need (rangesOverlap a.vaddr a.memsz b.vaddr b.memsz = false) .badSegment

/-- Each collected segment against every later one. -/
def checkOverlap : List Phdr → Check Unit
  | [] => pure ()
  | a :: rest => do
    forEach (checkPair a) rest
    checkOverlap rest

/-- The encodings of `ecall` and `ebreak`. -/
def isTrap (code : List UInt8) : Bool := code == [0x73, 0, 0, 0] || code == [0x73, 0, 0x10, 0]

/-- The scan steps by two bytes from the start of the segment's file bytes. -/
def scanOpcodes (ph : Phdr) : Check Unit :=
  if ph.exec = false ∨ ph.filesz < 4 then pure ()
  else
    forEach (fun k => do
      let code ← fetch (ph.offset + 2 * k) 4 (·.slice (ph.offset + 2 * k) 4)
      need (isTrap code = false) .badOpcode)
      (List.range ((ph.filesz - 2) / 2))

def checkSegments (eh : Ehdr) : Check Unit :=
  if eh.phnum = 0 then pure ()
  else do
    need (phdrSize ≤ eh.phentsize) .badSegment
    let size ← fileSize
    need (eh.phoff + eh.phnum * eh.phentsize ≤ size) .badSegment
    let segs ← foldOver (checkPhdr eh) ⟨[], false, false, decide (eh.entry = 0)⟩
      (List.range eh.phnum)
    need (segs.entryOk = true) .badSegment
    need (segs.hasInterp = true) .badInterp
    need (segs.hasRelro = true) .noRelro
    checkOverlap segs.loads
    forEach scanOpcodes segs.loads

/-! ## Sections -/

/-- The sections the walk remembers: the last one of each name, and the last
dynamic symbol table. -/
structure Found where
  cartInfo : Option Shdr
  cartConfig : Option Shdr
  cartLayouts : Option Shdr
  cartLua : Option Shdr
  dynamic : Option Shdr
  dynstr : Option Shdr
  dynsym : Option Shdr
  hasDwarf : Bool

def readShdr (eh : Ehdr) (k : Nat) : Check Shdr :=
  fetch (eh.shoff + shdrSize * k) shdrSize (·.shdr (eh.shoff + shdrSize * k))

def isDwarfName (p : Nat) : Check Bool := do
  let debug ← strNEq p (bytesOf ".debug_")
  if debug then pure true else strNEq p (bytesOf ".zdebug_")

/-- Remember `sh` if its name is this one. -/
def note (p : Nat) (name : String) (sh : Shdr) (old : Option Shdr) : Check (Option Shdr) := do
  let hit ← strEq p (bytesOf name)
  pure (if hit then some sh else old)

def walkSection (eh : Ehdr) (strtab : Shdr) (found : Found) (i : Nat) : Check Found := do
  let size ← fileSize
  let sh ← readShdr eh i
  need (sh.name < strtab.size) .badShdr
  let p := strtab.offset + sh.name
  let denied ← anyOf (fun name => strEq p (bytesOf name)) deniedSections
  need (denied = false) .deniedSect
  need (sh.type = shtNobits ∨ sh.size = 0 ∨ sh.offset + sh.size ≤ size) .badShdr
  let dwarf ← isDwarfName p
  let cartInfo ← note p ".cart.info" sh found.cartInfo
  let cartConfig ← note p ".cart.config" sh found.cartConfig
  let cartLayouts ← note p ".cart.layouts" sh found.cartLayouts
  let cartLua ← note p ".cart.lua" sh found.cartLua
  let dynamic ← note p ".dynamic" sh found.dynamic
  let dynstr ← note p ".dynstr" sh found.dynstr
  pure
    { cartInfo, cartConfig, cartLayouts, cartLua, dynamic, dynstr
      dynsym := if sh.type = shtDynsym then some sh else found.dynsym
      hasDwarf := found.hasDwarf || dwarf }

def walkSections (eh : Ehdr) : Check Found := do
  need (shdrSize ≤ eh.shentsize ∧ eh.shnum ≠ 0 ∧ eh.shstrndx < eh.shnum) .badShdr
  let size ← fileSize
  need (eh.shoff + eh.shnum * eh.shentsize ≤ size) .badShdr
  let strtab ← readShdr eh eh.shstrndx
  need (strtab.offset + strtab.size ≤ size) .badShdr
  foldOver (walkSection eh strtab) ⟨none, none, none, none, none, none, none, false⟩
    (List.range eh.shnum)

/-! ## Needed libraries -/

def dynTag (pos : Nat) : Check Nat := fetch pos 4 fun f => (f.dyn pos).tag

def dynVal (pos : Nat) : Check Nat := fetch (pos + 4) 4 fun f => (f.dyn pos).val

/-- The file offsets of the dynamic entries up to `DT_NULL`, at most `n` of them. -/
def dynEntries (stride : Nat) : Nat → Nat → Check (List Nat)
  | 0, _ => pure []
  | n + 1, pos => do
    let tag ← dynTag pos
    if tag = dtNull then pure []
    else do
      let rest ← dynEntries stride n (pos + stride)
      pure (pos :: rest)

/-- The first string table that lives at the address in the entry. -/
def findStrtab (eh : Ehdr) (pos : Nat) : List Nat → Check (Option Nat)
  | [] => pure none
  | k :: ks => do
    let sh ← readShdr eh k
    if sh.type = shtStrtab then do
      let val ← dynVal pos
      if sh.addr = val then pure (some sh.offset) else findStrtab eh pos ks
    else findStrtab eh pos ks

/-- The dynamic string table and its size, by `DT_STRTAB` and `DT_STRSZ`. -/
def noteDyn (eh : Ehdr) (st : Option Nat × Nat) (pos : Nat) : Check (Option Nat × Nat) := do
  let tag ← dynTag pos
  if tag = dtStrtab then do
    let hit ← findStrtab eh pos (List.range eh.shnum)
    pure (hit.or st.1, st.2)
  else if tag = dtStrsz then do
    let val ← dynVal pos
    pure (st.1, val)
  else pure st

def checkNeededEntry (st : Option Nat × Nat) (lua : Bool) (pos : Nat) : Check Bool := do
  let tag ← dynTag pos
  if tag ≠ dtNeeded then pure lua
  else
    match st.1 with
    | none => fail .badNeeded
    | some strtab => do
      let val ← dynVal pos
      need (val < st.2) .badNeeded
      let allowed ← anyOf (fun name => strEq (strtab + val) (bytesOf name)) neededAllowlist
      need (allowed = true) .badNeeded
      let isLua ← strEq (strtab + val) (bytesOf "libblyt32lua.so")
      pure (lua || isLua)

/-- `has_blyt32lua`. -/
def checkNeeded (eh : Ehdr) (found : Found) : Check Bool :=
  match found.dynamic with
  | none => pure false
  | some sh => do
    need (dynSize ≤ sh.entsize) .badShdr
    let entries ← dynEntries sh.entsize (sh.size / sh.entsize) sh.offset
    let st ← foldOver (noteDyn eh) (none, 0) entries
    foldOver (checkNeededEntry st) false entries

/-! ## Imports -/

/-- `.dynstr` if there is one, else the section the symbol table links to. -/
def symStrtab (eh : Ehdr) (found : Found) (dynsym : Shdr) : Check (Option (Nat × Nat)) :=
  match found.dynstr with
  | some sh => pure (some (sh.offset, sh.size))
  | none =>
    if dynsym.link < eh.shnum then do
      let sh ← readShdr eh dynsym.link
      pure (some (sh.offset, sh.size))
    else pure none

def isLuaApi (lua : Bool) (p : Nat) : Check Bool :=
  if lua = false then pure false
  else do
    let hit ← strNEq p (bytesOf "lua_")
    if hit then pure true else strNEq p (bytesOf "luaL_")

def checkImport (dynsym : Shdr) (symstr : Option (Nat × Nat)) (lua : Bool) (j : Nat) :
    Check Unit := do
  let pos := dynsym.offset + j * dynsym.entsize
  let sym ← fetch pos symSize (·.sym pos)
  if sym.bind ≠ stbGlobal ∨ sym.shndx ≠ shnUndef then pure ()
  else
    match symstr with
    | none => fail .badImport
    | some (off, size) => do
      need (sym.name < size) .badImport
      let luaApi ← isLuaApi lua (off + sym.name)
      if luaApi then pure ()
      else do
        let allowed ← anyOf (fun name => strEq (off + sym.name) (bytesOf name)) symbolAllowlist
        need (allowed = true) .badImport

def checkImports (eh : Ehdr) (found : Found) (lua : Bool) : Check Unit :=
  match found.dynsym with
  | none => pure ()
  | some dynsym => do
    need (symSize ≤ dynsym.entsize) .badShdr
    let symstr ← symStrtab eh found dynsym
    forEach (checkImport dynsym symstr lua) (List.range (dynsym.size / dynsym.entsize))

/-! ## Metadata -/

/-- `SECT_PREAMBLE_SIZE`. -/
def preambleSize : Nat := 8

/-- Check the preamble and copy what follows it out of the file. -/
def sectionBody (v : Flat) (tag : String) (sh : Shdr) : Check (List UInt8) := do
  need (preambleSize ≤ sh.size) .badPreamble
  let t ← fetch sh.offset 4 (·.slice sh.offset 4)
  need (t = bytesOf tag) .badPreamble
  let major ← fetch (sh.offset + 4) 2 (·.le16 (sh.offset + 4))
  need (major = 0) .badPreamble
  need (v.alloc (sh.size - preambleSize) = true) .io
  fetch (sh.offset + preambleSize) (sh.size - preambleSize)
    (·.slice (sh.offset + preambleSize) (sh.size - preambleSize))

def isLowerAlnum (c : UInt8) : Bool := (0x61 ≤ c && c ≤ 0x7a) || (0x30 ≤ c && c ≤ 0x39)

/-- 1 to 63 bytes of `[a-z0-9_-]`, the first a letter or digit. -/
def cartIdValid : Option (List UInt8) → Bool
  | some (c :: cs) =>
    decide ((c :: cs).length ≤ 63) && isLowerAlnum c
      && (c :: cs).all fun b => isLowerAlnum b || b == 0x5f || b == 0x2d
  | _ => false

/-- Not empty, no control characters. -/
def cartTextValid : Option (List UInt8) → Bool
  | some (c :: cs) => (c :: cs).all fun b => !(b < 0x20 || b == 0x7f)
  | _ => false

def checkInfo (v : Flat) (found : Found) : Check CartInfo :=
  match found.cartInfo with
  | none => fail .noCartInfo
  | some sh => do
    let body ← sectionBody v "CINF" sh
    need (v.infoVerify body = true) .badCartInfo
    match v.info body with
    | none => fail .badCartInfo
    | some info => do
      need (info.apiMajor = 0) .apiVersion
      need (cartIdValid info.id = true) .badId
      need (cartTextValid info.title = true) .badTitle
      need (cartTextValid info.version = true) .badVersion
      pure info

/-- `save_version` and `default_palette`, 0 where nothing is declared. -/
def checkConfig (v : Flat) (found : Found) : Check (Nat × Nat) :=
  match found.cartConfig with
  | none => pure (0, 0)
  | some sh => do
    let body ← sectionBody v "CCFG" sh
    need (v.configVerify body = true) .badCartConfig
    pure ((v.config body).getD (0, 0))

def checkLayouts (v : Flat) (found : Found) : Check Unit :=
  match found.cartLayouts with
  | none => pure ()
  | some sh => do
    let body ← sectionBody v "CLAY" sh
    need (v.layoutsVerify body = true) .badLayouts

/-! ## Entry points -/

def definesEntry (dynsym dynstr : Shdr) (name : String) (j : Nat) : Check Bool := do
  let pos := dynsym.offset + j * dynsym.entsize
  let sym ← fetch pos symSize (·.sym pos)
  if sym.bind ≠ stbGlobal ∨ sym.shndx = shnUndef ∨ dynstr.size ≤ sym.name then pure false
  else strEq (dynstr.offset + sym.name) (bytesOf name)

def checkEntryPoints (found : Found) : Check Unit :=
  match found.dynsym, found.dynstr with
  | some dynsym, some dynstr =>
    forEach (fun name => do
      let hit ← anyOf (definesEntry dynsym dynstr name) (List.range (dynsym.size / dynsym.entsize))
      need (hit = true) .missingEntry) requiredEntryPoints
  | _, _ => pure ()

/-! ## The whole -/

def cartOpen (v : Flat) : Check Cart := do
  let size ← fileSize
  need (ehdrSize ≤ size) .tooSmall
  let eh ← fetch 0 ehdrSize (·.ehdr)
  checkIdent eh
  checkSegments eh
  let found ← walkSections eh
  let lua ← checkNeeded eh found
  checkImports eh found lua
  let info ← checkInfo v found
  let config ← checkConfig v found
  checkLayouts v found
  -- a Lua cart's entry points are the runtime's
  onlyIf (¬ (found.cartLua.isSome = true ∧ lua = true)) (checkEntryPoints found)
  pure
    { isDebug := info.debug
      hasDwarf := found.hasDwarf
      saveVersion := config.1
      defaultPalette := config.2
      id := info.id.getD []
      title := info.title.getD []
      version := info.version.getD [] }

end Blyt
