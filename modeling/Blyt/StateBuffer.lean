import Blyt.ByteMem
import Blyt.Runs

/-!
# State buffers of the emulated path

`runtime/host/src/libblyt/state_buffer.c` with the generation counter of
`runtime/shared/blyt_gen.h`, and the typed accessors in front of it: the stubs of
`runtime/guest/src/libblyt32/blyt32.c` and the `BUF_OP` dispatch of `cart_run.c`.
A call is one of the six kinds a cart can make; it fails (`none`) where the C
function returns an error.

The layout comes decoded, with the two facts about its encoding that matter to
the native reader: how far back a table's vtable lies, and whether a count was
written at all. Allocation of the field arrays is taken to succeed, traces are
left out, and so are the field names, which only messages use.
-/

namespace Blyt

/-! ## Layouts -/

/-- `BufferDecl`: the signed distance to its vtable, and its fields. A count that
equals the default is not written. -/
structure BufferDecl where
  soff : Int
  name : Option (List UInt8)
  recordName : List UInt8
  count : Option Nat
  deriving DecidableEq, Repr

/-- `RecordDecl`: its name and the type tags of its fields. -/
structure RecordDecl where
  name : List UInt8
  tags : List Nat
  deriving DecidableEq, Repr

structure CartLayouts where
  soff : Int
  records : List RecordDecl
  buffers : Option (List BufferDecl)
  schemaHash : UInt64
  deriving DecidableEq, Repr

/-- What C takes a byte string for. -/
def cstr (s : List UInt8) : List UInt8 := s.takeWhile fun c => decide (c ≠ 0)

/-! ## Field types -/

inductive FieldType where
  | i8 | u8 | i16 | u16 | i32 | u32 | f32 | bool | f64
  deriving DecidableEq, Repr

/-- The tag in the layout. -/
def FieldType.tag : FieldType → Nat
  | .i8 => 0
  | .u8 => 1
  | .i16 => 2
  | .u16 => 3
  | .i32 => 4
  | .u32 => 5
  | .f32 => 6
  | .bool => 7
  | .f64 => 8

/-- `field_sizeof`, four bytes for a tag it does not know. -/
def fieldSizeof (tag : Nat) : Nat :=
  if tag = 0 ∨ tag = 1 ∨ tag = 7 then 1
  else if tag = 2 ∨ tag = 3 then 2
  else if tag = 8 then 8
  else 4

theorem fieldSizeof_pos (tag : Nat) : 0 < fieldSizeof tag := by
  unfold fieldSizeof
  split_ifs <;> omega

theorem fieldSizeof_le (tag : Nat) : fieldSizeof tag ≤ 8 := by
  unfold fieldSizeof
  split_ifs <;> omega

def canonF32 (bits : Nat) : Nat :=
  if bits &&& 0x7F800000 = 0x7F800000 ∧ bits &&& 0x007FFFFF ≠ 0 then 0x7FC00000 else bits

def canonF64 (bits : Nat) : Nat :=
  if bits &&& 0x7FF0000000000000 = 0x7FF0000000000000 ∧ bits &&& 0x000FFFFFFFFFFFFF ≠ 0 then
    0x7FF8000000000000
  else bits

/-- A value of the type as the accessor hands it over: its bytes, 0 or 1 for a
`bool`. -/
def FieldType.bits (t : FieldType) (v : Nat) : Nat :=
  if t = .bool then (if v = 0 then 0 else 1) else v % 256 ^ fieldSizeof t.tag

/-! ## Generations and references -/

/-- `blyt_gen_next`: 0 stays reserved. -/
def genNext (g : Nat) : Nat := if g = 0xFFFF then 1 else g + 1

def maxSlots : Nat := 128
def maxBuffers : Nat := 32
def maxFields : Nat := 256

/-- `gen:16 | slot:16`. -/
def packRef (gen slot : Nat) : Nat := gen <<< 16 ||| slot

def refSlot (ref : Nat) : Nat := ref % 2 ^ 16
def refGen (ref : Nat) : Nat := ref >>> 16 % 2 ^ 16

/-! ## One buffer -/

structure Buffer where
  count : Nat
  schemaHash : UInt64
  name : List UInt8
  tags : List Nat
  /-- One byte array per field. -/
  data : Nat → ByteMem
  /-- The slot bitset. -/
  used : Nat → Bool
  gens : Nat → Nat

namespace Buffer

/-- `slot_is_allocated`. -/
def allocated (b : Buffer) (slot : Int) : Bool :=
  decide (0 ≤ slot ∧ slot < b.count ∧ slot < maxSlots) && b.used slot.toNat

/-- The field's tag, if slot and field are in range. -/
def access (b : Buffer) (slot : Int) (field : Nat) : Option Nat :=
  if b.allocated slot = false then none
  else if field = 0 then none
  else b.tags[field - 1]?

def get (b : Buffer) (slot : Int) (field : Nat) : Option Nat :=
  match b.access slot field with
  | none => none
  | some tag =>
    if tag = FieldType.f64.tag then none
    else some (readLE (b.data (field - 1)) (slot.toNat * fieldSizeof tag) (fieldSizeof tag))

def store (b : Buffer) (slot : Int) (field width v : Nat) : Buffer :=
  { b with
    data := Function.update b.data (field - 1)
      (writeLE (b.data (field - 1)) (slot.toNat * width) width v) }

def set (b : Buffer) (slot : Int) (field v : Nat) : Option Buffer :=
  match b.access slot field with
  | none => none
  | some tag =>
    if tag = FieldType.f64.tag then none
    else
      let v := if tag = FieldType.f32.tag then canonF32 v else v
      some (b.store slot field (fieldSizeof tag) v)

def get64 (b : Buffer) (slot : Int) (field : Nat) : Option Nat :=
  match b.access slot field with
  | none => none
  | some tag =>
    if tag ≠ FieldType.f64.tag then none
    else some (readLE (b.data (field - 1)) (slot.toNat * 8) 8)

def set64 (b : Buffer) (slot : Int) (field v : Nat) : Option Buffer :=
  match b.access slot field with
  | none => none
  | some tag =>
    if tag ≠ FieldType.f64.tag then none else some (b.store slot field 8 (canonF64 v))

def allocSlot (b : Buffer) : Option (Buffer × Nat) :=
  match (List.range (min b.count maxSlots)).find? fun s => !b.used s with
  | none => none
  | some s => some ({ b with used := Function.update b.used s true }, s)

/-- Free the slot, clear its fields and count up its generation. -/
def freeSlot (b : Buffer) (slot : Int) : Option Buffer :=
  if b.allocated slot = false then none
  else some
    { b with
      used := Function.update b.used slot.toNat false
      data := fun fi =>
        match b.tags[fi]? with
        | none => b.data fi
        | some tag => fill (b.data fi) (slot.toNat * fieldSizeof tag) (fieldSizeof tag) 0
      gens := Function.update b.gens slot.toNat (genNext (b.gens slot.toNat)) }

def ref (b : Buffer) (slot : Int) : Nat :=
  if b.allocated slot then packRef (b.gens slot.toNat) slot.toNat else 0

def refValid (b : Buffer) (r : Nat) : Bool :=
  decide (r ≠ 0) && b.allocated (refSlot r) && decide (b.gens (refSlot r) = refGen r)

end Buffer

/-! ## Calls -/

inductive SlotOp where
  | alloc
  | free (slot : Int)
  | ref (slot : Int)
  | refValid (ref : Nat)
  | get (t : FieldType) (slot : Int) (field : Nat)
  | set (t : FieldType) (slot : Int) (field v : Nat)
  deriving DecidableEq, Repr

/-- The answer if there is no such buffer: `ref` is 0, `ref_valid` is false. -/
def SlotOp.noBuffer : SlotOp → Option Nat
  | .ref _ | .refValid _ => some 0
  | _ => none

/-- The typed accessors. The low half of a field handle is the field, and `f64`
goes its own way. -/
def Buffer.getAs (b : Buffer) (t : FieldType) (slot : Int) (field : Nat) : Option Nat :=
  if t = .f64 then b.get64 slot (field % 2 ^ 16) else (b.get slot (field % 2 ^ 16)).map t.bits

def Buffer.setAs (b : Buffer) (t : FieldType) (slot : Int) (field v : Nat) : Option Buffer :=
  if t = .f64 then b.set64 slot (field % 2 ^ 16) (t.bits v)
  else b.set slot (field % 2 ^ 16) (t.bits v)

def Buffer.step (b : Buffer) : SlotOp → Buffer × Option Nat
  | .alloc =>
    match b.allocSlot with
    | none => (b, none)
    | some (b', s) => (b', some s)
  | .free slot =>
    match b.freeSlot slot with
    | none => (b, none)
    | some b' => (b', some 0)
  | .ref slot => (b, some (b.ref slot))
  | .refValid r => (b, some (b.refValid r).toNat)
  | .get t slot field => (b, b.getAs t slot field)
  | .set t slot field v =>
    match b.setAs t slot field v with
    | none => (b, none)
    | some b' => (b', some 0)

/-- What the field's own tag makes of the bits handed over. -/
def canonBits (tag v : Nat) : Nat :=
  if tag = FieldType.f64.tag then canonF64 v
  else if tag = FieldType.f32.tag then canonF32 v
  else v

theorem Buffer.setAs_eq_some {b b' : Buffer} {t : FieldType} {slot : Int} {field v : Nat}
    (h : b.setAs t slot field v = some b') :
    ∃ tag, b.access slot (field % 2 ^ 16) = some tag
      ∧ b' = b.store slot (field % 2 ^ 16) (fieldSizeof tag) (canonBits tag (t.bits v)) := by
  unfold Buffer.setAs Buffer.set64 Buffer.set at h
  cases hacc : b.access slot (field % 2 ^ 16) with
  | none =>
    simp only [hacc] at h
    split at h <;> cases h
  | some tag =>
    simp only [hacc] at h
    by_cases htag : tag = FieldType.f64.tag
    · subst htag
      by_cases ht : t = .f64
      · simpa [ht, canonBits, fieldSizeof, FieldType.tag] using h.symm
      · simp [ht] at h
    · by_cases ht : t = .f64
      · simp [ht, htag] at h
      · simpa [ht, htag, canonBits] using h.symm

/-- All that a call can do to a buffer. -/
theorem Buffer.step_cases (b : Buffer) (op : SlotOp) :
    (b.step op).1 = b
      ∨ (∃ s, s < min b.count maxSlots ∧ b.used s = false
        ∧ (b.step op).1 = { b with used := Function.update b.used s true })
      ∨ (∃ slot, b.allocated slot = true ∧ op = .free slot
        ∧ b.freeSlot slot = some (b.step op).1)
      ∨ ∃ (slot : Int) (field tag v : Nat), b.access slot field = some tag
        ∧ (b.step op).1 = b.store slot field (fieldSizeof tag) (canonBits tag v) := by
  cases op with
  | alloc =>
    simp only [Buffer.step, Buffer.allocSlot]
    cases hf : (List.range (min b.count maxSlots)).find? fun s => !b.used s with
    | none => exact Or.inl rfl
    | some s =>
      have hmem := List.mem_range.mp (List.mem_of_find?_eq_some hf)
      have hfree : b.used s = false := by simpa using List.find?_some hf
      exact Or.inr (Or.inl ⟨s, hmem, hfree, rfl⟩)
  | free slot =>
    simp only [Buffer.step]
    cases hf : b.freeSlot slot with
    | none => exact Or.inl rfl
    | some =>
      refine Or.inr (Or.inr (Or.inl ⟨slot, ?_, rfl, hf⟩))
      by_contra ha
      rw [Buffer.freeSlot, if_pos (by simpa using ha)] at hf
      cases hf
  | ref slot | refValid r | get t slot field => exact Or.inl rfl
  | set t slot field v =>
    simp only [Buffer.step]
    cases hs : b.setAs t slot field v with
    | none => exact Or.inl rfl
    | some =>
      obtain ⟨tag, hacc, rfl⟩ := Buffer.setAs_eq_some hs
      exact Or.inr (Or.inr (Or.inr ⟨slot, _, tag, _, hacc, rfl⟩))

structure BufCall where
  buf : Nat
  op : SlotOp
  deriving DecidableEq, Repr

/-- Handles start at 1. -/
def findBuffer (s : List Buffer) (buf : Nat) : Option Buffer :=
  if buf = 0 then none else s[buf - 1]?

def stateStep (s : List Buffer) (c : BufCall) : List Buffer × Option Nat :=
  match findBuffer s c.buf with
  | none => (s, c.op.noBuffer)
  | some b => (s.set (c.buf - 1) (b.step c.op).1, (b.step c.op).2)

/-! ## Start -/

def initBuffer (L : CartLayouts) (d : BufferDecl) : Option Buffer :=
  match L.records.find? fun r => decide (cstr r.name = cstr d.recordName) with
  | none => none
  | some r =>
    if r.tags.length = 0 ∨ maxFields < r.tags.length then none
    else some
      { count := d.count.getD 0
        schemaHash := L.schemaHash
        name := cstr (d.name.getD [])
        tags := r.tags
        data := fun _ _ => 0
        used := fun _ => false
        gens := fun _ => 1 }

def initBuffers (L : CartLayouts) : List BufferDecl → Option (List Buffer)
  | [] => some []
  | d :: ds =>
    match initBuffer L d with
    | none => none
    | some b => (initBuffers L ds).map (b :: ·)

/-- `blyt_state_ctx_init`. The session goes on without buffers if it fails. -/
def stateCtxInit (L : CartLayouts) : List Buffer :=
  (initBuffers L ((L.buffers.getD []).take maxBuffers)).getD []

theorem initBuffers_eq_some {L : CartLayouts} {ds : List BufferDecl} {bs : List Buffer} :
    initBuffers L ds = some bs ↔ List.Forall₂ (fun d b => initBuffer L d = some b) ds bs := by
  induction ds generalizing bs with
  | nil =>
    rw [List.forall₂_nil_left_iff]
    exact ⟨fun h => (Option.some.inj h).symm, fun h => h ▸ rfl⟩
  | cons d ds ih =>
    rw [initBuffers, List.forall₂_cons_left_iff]
    cases hd : initBuffer L d with
    | none => exact ⟨fun h => (nomatch h), fun ⟨_, _, h, _⟩ => (nomatch h)⟩
    | some b =>
      constructor
      · intro h
        obtain ⟨bs', hbs', rfl⟩ := Option.map_eq_some_iff.mp h
        exact ⟨b, bs', rfl, ih.mp hbs', rfl⟩
      · rintro ⟨_, bs', ⟨⟩, hbs', rfl⟩
        exact Option.map_eq_some_iff.mpr ⟨bs', ih.mpr hbs', rfl⟩

end Blyt
