import Blyt.CartSpec

/-!
# Code of an accepted cart

The loader maps every `PT_LOAD` header (`map_lib_segments`), the verifier
collects the first 64 and scans them from their first byte on. So what an
accepted cart can bring in is exactly what lies outside: segments after the
64th, and traps at odd offsets of segments that are loaded at odd addresses
(`cartCode_safe_iff`). `cartCode_unchecked` is a cart with 65 segments.
-/

namespace Blyt

open Reader

/-- The verifier lets the file through. -/
def Accepts (v : Flat) (f : Image) : Prop := ∃ cart, (cartOpen v).Gives f cart

instance (v : Flat) (f : Image) : Decidable (Accepts v f) :=
  decidable_of_iff ((cartOpen v f).1.isOk = true) (by
    unfold Accepts Gives
    cases (cartOpen v f).1 <;> simp [Except.isOk, Except.toBool])

/-- No aligned guest address within the segment's file bytes holds a trap. -/
def TrapFree (f : Image) (ph : Phdr) : Prop :=
  ph.exec = true → ∀ off, off + 4 ≤ ph.filesz → u32 (ph.vaddr + off) % 2 = 0 →
    isTrap (f.slice (ph.offset + off) 4) = false

structure CodeSafe (f : Image) : Prop where
  trapFree : ∀ ph ∈ f.loads, TrapFree f ph
  apart : f.loads.Pairwise SegsApart

/-- What the verifier does not look at is harmless: the segments it drops, and
the odd offsets of segments at odd addresses. -/
structure UncheckedClean (f : Image) : Prop where
  odd : ∀ ph ∈ f.loads.take maxLoad, ph.vaddr % 2 = 1 → TrapFree f ph
  dropped : ∀ ph ∈ f.loads.drop maxLoad, TrapFree f ph
  droppedApart : (f.loads.drop maxLoad).Pairwise SegsApart
  crossApart : ∀ a ∈ f.loads.take maxLoad, ∀ b ∈ f.loads.drop maxLoad, SegsApart a b

/-- At an even address, an aligned guest address is an even offset. -/
theorem trapFree_of_scan {f : Image} {ph : Phdr} (heven : ph.vaddr % 2 = 0)
    (hscan : ph.exec = true → ∀ k, 2 * k + 4 ≤ ph.filesz →
      isTrap (f.slice (ph.offset + 2 * k) 4) = false) : TrapFree f ph := by
  intro hx off hoff hal
  have hpar : off = 2 * (off / 2) := by
    unfold u32 at hal
    omega
  rw [hpar]
  exact hscan hx (off / 2) (by omega)

/-- **Code safety of accepted carts.** -/
theorem cartCode_safe_iff {v : Flat} {f : Image} (h : Accepts v f) :
    CodeSafe f ↔ UncheckedClean f := by
  obtain ⟨cart, hgives⟩ := h
  obtain ⟨-, found, lua, hseg, -⟩ := cartOpen_stages hgives
  obtain ⟨-, hpairs, hscan⟩ := checkSegments_spec hseg
  have hsplit : f.loads.take maxLoad ++ f.loads.drop maxLoad = f.loads :=
    List.take_append_drop _ _
  constructor
  · intro hsafe
    have hapart := hsafe.apart
    rw [← hsplit, List.pairwise_append] at hapart
    exact ⟨fun ph hph _ => hsafe.trapFree ph (List.mem_of_mem_take hph),
      fun ph hph => hsafe.trapFree ph (List.mem_of_mem_drop hph), hapart.2.1, hapart.2.2⟩
  · intro hclean
    refine ⟨fun ph hph => ?_, ?_⟩
    · rw [← hsplit] at hph
      rcases List.mem_append.mp hph with hph | hph
      · rcases Nat.mod_two_eq_zero_or_one ph.vaddr with heven | hodd
        · exact trapFree_of_scan heven (hscan ph hph)
        · exact hclean.odd ph hph hodd
      · exact hclean.dropped ph hph
    · rw [← hsplit, List.pairwise_append]
      exact ⟨hpairs, hclean.droppedApart, hclean.crossApart⟩

/-! ## Carts to look at -/

/-- A piece of a file: where it starts, how long it is, its bytes. -/
structure Piece where
  start : Nat
  len : Nat
  byte : Nat → UInt8

/-- Byte `j` of a row of little-endian words. -/
def rowByte (ws : List Nat) (j : Nat) : UInt8 := UInt8.ofNat (ws.getD (j / 4) 0 / 256 ^ (j % 4))

def rowBytes (ws : List Nat) : List UInt8 := (List.range (4 * ws.length)).map (rowByte ws)

/-- A table with rows of `n` words. -/
def Piece.table (start n : Nat) (rows : List (List Nat)) : Piece :=
  ⟨start, 4 * n * rows.length, fun j => rowByte (rows.getD (j / (4 * n)) []) (j % (4 * n))⟩

def Piece.bytes (start : Nat) (l : List UInt8) : Piece := ⟨start, l.length, fun j => l.getD j 0⟩

def Image.ofPieces (size : Nat) (pieces : List Piece) : Image where
  size := size
  byte := fun i =>
    match pieces.find? fun p => decide (p.start ≤ i) && decide (i < p.start + p.len) with
    | some p => p.byte (i - p.start)
    | none => 0

def phdrRow (p : Phdr) : List Nat :=
  [p.type, p.offset, p.vaddr, p.vaddr, p.filesz, p.memsz, p.flags, 4]

def shdrRow (s : Shdr) : List Nat :=
  [s.name, s.type, 0, s.addr, s.offset, s.size, s.link, 0, 1, s.entsize]

/-- A `CartInfo`, as FlatBuffers write it: the root's offset, its vtable and its fields, then the
title "Demo", the id "demo" and the version "1.0.0". -/
def demoInfo : List Nat := [24, 0x100014, 0, 4, 0, 0xc0008, 20, 12, 20, 28, 4, 0x6f6d6544, 0,
  4, 0x6f6d6564, 0, 5, 0x2e302e31, 0x30]

/-- A `CartLayouts` without fields. -/
def demoLayouts : List Nat := [8, 0x40004, 4]

/-- A cart: an interpreter, a RELRO segment and the given ones, their headers at
52; section headers at 0x1000, the name table at 0x2000, `.cart.info` at 0x3000;
the given sections and pieces. -/
def demoCart (loads : List Phdr) (names : String) (sects : List Shdr) (pieces : List Piece) :
    Image :=
  let segs : List Phdr := ⟨ptInterp, 0x3100, 0, 18, 18, 4⟩ :: ⟨ptGnuRelro, 0, 0, 0, 0, 4⟩ :: loads
  let table : List UInt8 := bytesOf "\x00.shstrtab\x00.cart.info\x00" ++ bytesOf names
  let all : List Shdr := ⟨0, 0, 0, 0, 0, 0, 0⟩
    :: ⟨1, shtStrtab, 0, 0x2000, table.length, 0, 0⟩ :: ⟨11, 1, 0, 0x3000, 84, 0, 0⟩ :: sects
  let ehdr : List Nat := [0x464c457f, 0x00010101, 0, 0, 3 + 243 * 65536, 1, 0, 52, 0x1000, 5,
    52 + 32 * 65536, segs.length + 40 * 65536, all.length + 65536]
  Image.ofPieces 0x8000 (.table 0 13 [ehdr] :: .table 52 8 (segs.map phdrRow)
    :: .table 0x1000 10 (all.map shdrRow) :: .bytes 0x2000 table
    :: .bytes 0x3000 (bytesOf "CINF") :: .table 0x3008 19 [demoInfo] :: .bytes 0x3100 interpPath
    :: pieces)

/-- Verifiers that know these two. -/
def demoFlat : Flat where
  alloc := fun _ => true
  infoVerify := fun body => decide (body = rowBytes demoInfo)
  info := fun body => if body = rowBytes demoInfo then
    some ⟨0, false, some (bytesOf "demo"), some (bytesOf "Demo"), some (bytesOf "1.0.0")⟩ else none
  configVerify := fun _ => false
  config := fun _ => none
  layoutsVerify := fun body => decide (body = rowBytes demoLayouts)

/-- One executable segment, `addi` and `ret`. -/
def plainCart : Image :=
  demoCart [⟨ptLoad, 0x4000, 0x1000, 8, 8, 5⟩] "" []
    [.bytes 0x4000 [0x13, 0, 0, 0, 0x67, 0x80, 0, 0]]

theorem cartCode_safe_iff_plain : Accepts demoFlat plainCart ∧ CodeSafe plainCart := by
  have hacc : Accepts demoFlat plainCart := by decide +kernel
  refine ⟨hacc, (cartCode_safe_iff hacc).mpr ?_⟩
  have hloads : plainCart.loads = [⟨ptLoad, 0x4000, 0x1000, 8, 8, 5⟩] := by decide +kernel
  constructor <;> rw [hloads] <;> simp [maxLoad]

/-- 64 empty segments, and one more with an `ecall`. -/
def crowdedCart : Image :=
  demoCart (List.replicate 64 ⟨ptLoad, 0, 0, 0, 0, 4⟩ ++ [⟨ptLoad, 0x4000, 0x1000, 4, 4, 5⟩]) "" []
    [.bytes 0x4000 [0x73, 0, 0, 0]]

/-- The 65th segment is mapped, but never scanned. -/
theorem cartCode_unchecked : Accepts demoFlat crowdedCart ∧ ¬ CodeSafe crowdedCart := by
  refine ⟨by decide +kernel, fun hsafe => ?_⟩
  have hmem : (⟨ptLoad, 0x4000, 0x1000, 4, 4, 5⟩ : Phdr) ∈ crowdedCart.loads := by decide +kernel
  have htrap := hsafe.trapFree _ hmem rfl 0 (by norm_num) (by norm_num [u32])
  cases htrap

end Blyt
