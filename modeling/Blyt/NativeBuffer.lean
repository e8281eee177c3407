import Blyt.Blys

/-!
# State buffers of the native path

The second implementation, `frontends/native/src/libblytcommon/blytcommon.c`:
static arrays for eight buffers, one byte arena each with a fixed stride per
field, accessors that know their own width, and an inline reader of the layout.
The reader starts from defaults - 128 slots, no name, no fields - and leaves them
where it does not get through a declaration: in front of it there must be a
vtable, and in it a count.

Both runtimes' saves are here too: what each hands to the serializer.
-/

namespace Blyt

def nativeMaxBuf : Nat := 8
def nativeMaxFields : Nat := 64

/-- `NATIVE_FIELD_STRIDE`. -/
def fieldStride : Nat := maxSlots * 8

/-- Room for a buffer's name, without the terminator. -/
def nativeNameCap : Nat := 63

structure NativeBuffer where
  count : Nat
  name : List UInt8
  tags : List Nat
  arena : ByteMem
  used : Nat → Bool
  gens : Nat → Nat

namespace NativeBuffer

/-- `slot_allocated` behind its range check. -/
def allocated (n : NativeBuffer) (slot : Int) : Bool :=
  decide (0 ≤ slot ∧ slot < n.count) && n.used slot.toNat

/-- `ref_ok`; a field handle of 0 wraps round to a field that is out of range. -/
def refOk (n : NativeBuffer) (slot : Int) (field : Nat) : Bool :=
  n.allocated slot && decide (field ≠ 0 ∧ field - 1 < nativeMaxFields)

/-- Element `slot` of a field of this width. -/
def element (slot : Int) (field width : Nat) : Nat :=
  (field - 1) * fieldStride + slot.toNat * width

/-- `blyt_buffer_get_*`: each reads its own width. -/
def getAs (n : NativeBuffer) (t : FieldType) (slot : Int) (field : Nat) : Option Nat :=
  if n.refOk slot (field % 2 ^ 16) = false then none
  else
    let raw := readLE n.arena (element slot (field % 2 ^ 16) (fieldSizeof t.tag))
      (fieldSizeof t.tag)
    some (if t = .bool then (if raw = 0 then 0 else 1) else raw)

/-- `blyt_buffer_set_*`. -/
def setAs (n : NativeBuffer) (t : FieldType) (slot : Int) (field v : Nat) : Option NativeBuffer :=
  if n.refOk slot (field % 2 ^ 16) = false then none
  else
    let bits := if t = .f32 then canonF32 (t.bits v)
      else if t = .f64 then canonF64 (t.bits v)
      else t.bits v
    some { n with
      arena := writeLE n.arena (element slot (field % 2 ^ 16) (fieldSizeof t.tag))
        (fieldSizeof t.tag) bits }

def allocSlot (n : NativeBuffer) : Option (NativeBuffer × Nat) :=
  match (List.range n.count).find? fun s => !n.used s with
  | none => none
  | some s => some ({ n with used := Function.update n.used s true }, s)

/-- Clear the slot's elements, field by field. -/
def clearSlot (arena : ByteMem) (slot : Nat) : Nat → List Nat → ByteMem
  | _, [] => arena
  | fi, tag :: tags =>
    clearSlot (fill arena (fi * fieldStride + slot * fieldSizeof tag) (fieldSizeof tag) 0) slot
      (fi + 1) tags

def freeSlot (n : NativeBuffer) (slot : Int) : Option NativeBuffer :=
  if n.allocated slot = false then none
  else some
    { n with
      used := Function.update n.used slot.toNat false
      arena := clearSlot n.arena slot.toNat 0 n.tags
      gens := Function.update n.gens slot.toNat (genNext (n.gens slot.toNat)) }

def ref (n : NativeBuffer) (slot : Int) : Nat :=
  if n.allocated slot then packRef (n.gens slot.toNat) slot.toNat else 0

def refValid (n : NativeBuffer) (r : Nat) : Bool :=
  decide (r ≠ 0) && n.allocated (refSlot r) && decide (n.gens (refSlot r) = refGen r)

def step (n : NativeBuffer) : SlotOp → NativeBuffer × Option Nat
  | .alloc =>
    match n.allocSlot with
    | none => (n, none)
    | some (n', s) => (n', some s)
  | .free slot =>
    match n.freeSlot slot with
    | none => (n, none)
    | some n' => (n', some 0)
  | .ref slot => (n, some (n.ref slot))
  | .refValid r => (n, some (n.refValid r).toNat)
  | .get t slot field => (n, n.getAs t slot field)
  | .set t slot field v =>
    match n.setAs t slot field v with
    | none => (n, none)
    | some n' => (n', some 0)

/-- What stands before anything is read. -/
def default : NativeBuffer where
  count := maxSlots
  name := []
  tags := []
  arena := fun _ => 0
  used := fun _ => false
  gens := fun _ => 1

end NativeBuffer

/-- `s_n_buffers`, `s_schema_hash` and the arrays. -/
structure Native where
  nBuffers : Nat
  schemaHash : UInt64
  bufs : List NativeBuffer

def nativeStep (s : Native) (c : BufCall) : Native × Option Nat :=
  match if c.buf = 0 then none else s.bufs[c.buf - 1]? with
  | none => (s, c.op.noBuffer)
  | some n => ({ s with bufs := s.bufs.set (c.buf - 1) (n.step c.op).1 }, (n.step c.op).2)

/-- One declaration. A vtable that does not lie in front of it, or a count that is
not there, leaves the defaults. -/
def readDecl (L : CartLayouts) (d : BufferDecl) : NativeBuffer :=
  if d.soff ≤ 0 then NativeBuffer.default
  else
    match d.count with
    | none => NativeBuffer.default
    | some count =>
      { NativeBuffer.default with
        count := min count maxSlots
        name := (d.name.getD []).take nativeNameCap
        tags :=
          match L.records.find? fun r => decide (r.name = d.recordName) with
          | none => []
          | some r => r.tags.take nativeMaxFields }

/-- `load_cart_buf_counts`. -/
def loadCartBufCounts (L : CartLayouts) : Native :=
  let unread : Native := ⟨0, 0, List.replicate nativeMaxBuf NativeBuffer.default⟩
  if L.soff ≤ 0 then unread
  else
    match L.buffers with
    | none => unread
    | some ds =>
      let read := (ds.take nativeMaxBuf).map (readDecl L)
      ⟨read.length, L.schemaHash,
        read ++ List.replicate (nativeMaxBuf - read.length) NativeBuffer.default⟩

/-! ## Saves -/

/-- `fill_views`. -/
def Buffer.view (b : Buffer) : BlysBuffer := ⟨b.name, b.tags, b.count, b.data, b.used, b.gens⟩

/-- `fill_native_views`: each field's array starts at its stride. -/
def NativeBuffer.view (n : NativeBuffer) : BlysBuffer :=
  ⟨n.name, n.tags, n.count, fun fi k => n.arena (fi * fieldStride + k), n.used, n.gens⟩

/-- The first buffer's hash stands for all, 0 if there is none. -/
def saveHash : List Buffer → UInt64
  | [] => 0
  | b :: _ => b.schemaHash

def stateSave (saveVersion : Nat) (s : List Buffer) : List UInt8 :=
  blysWrite (saveHash s) saveVersion (s.map Buffer.view)

def nativeSave (saveVersion : Nat) (s : Native) : List UInt8 :=
  blysWrite s.schemaHash saveVersion ((s.bufs.take s.nBuffers).map NativeBuffer.view)

end Blyt
