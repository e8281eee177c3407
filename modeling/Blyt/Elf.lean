import Blyt.FileReader

/-!
# ELF32 records

The records of `runtime/host/src/libblyt/elf32.h` as they are laid out in a
file, and the constants the verifier and the linker compare with. Fields no
modelled function reads are left out.
-/

namespace Blyt

structure Ehdr where
  mag : List UInt8
  cls : UInt8
  data : UInt8
  osabi : UInt8
  type : Nat
  machine : Nat
  entry : Nat
  phoff : Nat
  shoff : Nat
  flags : Nat
  phentsize : Nat
  phnum : Nat
  shentsize : Nat
  shnum : Nat
  shstrndx : Nat
  deriving DecidableEq, Repr

structure Phdr where
  type : Nat
  offset : Nat
  vaddr : Nat
  filesz : Nat
  memsz : Nat
  flags : Nat
  deriving DecidableEq, Repr

structure Shdr where
  name : Nat
  type : Nat
  addr : Nat
  offset : Nat
  size : Nat
  link : Nat
  entsize : Nat
  deriving DecidableEq, Repr

/-- An entry of a dynamic section. -/
structure Dyn where
  tag : Nat
  val : Nat
  deriving DecidableEq, Repr

structure Sym where
  name : Nat
  value : Nat
  info : Nat
  shndx : Nat
  deriving DecidableEq, Repr

structure Rela where
  offset : Nat
  info : Nat
  deriving DecidableEq, Repr

/-! Record sizes, `sizeof(Elf32_…)`. -/

def ehdrSize : Nat := 52
def phdrSize : Nat := 32
def shdrSize : Nat := 40
def dynSize : Nat := 8
def symSize : Nat := 16
def relaSize : Nat := 12

namespace Image

def ehdr (f : Image) : Ehdr where
  mag := f.slice 0 4
  cls := f.byte 4
  data := f.byte 5
  osabi := f.byte 7
  type := f.le16 16
  machine := f.le16 18
  entry := f.le32 24
  phoff := f.le32 28
  shoff := f.le32 32
  flags := f.le32 36
  phentsize := f.le16 42
  phnum := f.le16 44
  shentsize := f.le16 46
  shnum := f.le16 48
  shstrndx := f.le16 50

def phdr (f : Image) (off : Nat) : Phdr where
  type := f.le32 off
  offset := f.le32 (off + 4)
  vaddr := f.le32 (off + 8)
  filesz := f.le32 (off + 16)
  memsz := f.le32 (off + 20)
  flags := f.le32 (off + 24)

def shdr (f : Image) (off : Nat) : Shdr where
  name := f.le32 off
  type := f.le32 (off + 4)
  addr := f.le32 (off + 12)
  offset := f.le32 (off + 16)
  size := f.le32 (off + 20)
  link := f.le32 (off + 24)
  entsize := f.le32 (off + 36)

def dyn (f : Image) (off : Nat) : Dyn where
  tag := f.le32 off
  val := f.le32 (off + 4)

def sym (f : Image) (off : Nat) : Sym where
  name := f.le32 off
  value := f.le32 (off + 4)
  info := (f.byte (off + 12)).toNat
  shndx := f.le16 (off + 14)

def rela (f : Image) (off : Nat) : Rela where
  offset := f.le32 off
  info := f.le32 (off + 4)

end Image

/-! ## Constants -/

def emRiscv : Nat := 243
def etDyn : Nat := 3

def ptLoad : Nat := 1
def ptDynamic : Nat := 2
def ptInterp : Nat := 3
def ptGnuStack : Nat := 0x6474e551
def ptGnuRelro : Nat := 0x6474e552

def shtStrtab : Nat := 3
def shtRela : Nat := 4
def shtDynamic : Nat := 6
def shtNobits : Nat := 8
def shtDynsym : Nat := 11

def dtNull : Nat := 0
def dtNeeded : Nat := 1
def dtStrtab : Nat := 5
def dtStrsz : Nat := 10

def stbGlobal : Nat := 1
def stbWeak : Nat := 2
def shnUndef : Nat := 0

def rRiscv32 : Nat := 1
def rRiscvJumpSlot : Nat := 5
def rRiscvGlobDat : Nat := 19

/-- `p_flags & PF_X`, `p_flags & PF_W`. -/
def Phdr.exec (p : Phdr) : Bool := p.flags % 2 == 1
def Phdr.writable (p : Phdr) : Bool := p.flags / 2 % 2 == 1

/-- `ELF32_ST_BIND(st_info)`. -/
def Sym.bind (s : Sym) : Nat := s.info / 16

/-- `ELF32_R_TYPE(r_info)`, `ELF32_R_SYM(r_info)`. -/
def Rela.type (r : Rela) : Nat := r.info % 256
def Rela.sym (r : Rela) : Nat := r.info / 256

/-- The header of section `k`: the walks step by the size of the record, whatever
`e_shentsize` says. -/
def Image.sect (f : Image) (k : Nat) : Shdr := f.shdr (f.ehdr.shoff + shdrSize * k)

end Blyt
