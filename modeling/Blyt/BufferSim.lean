import Blyt.NativeBuffer

/-!
# Simulation of the two kinds of state buffer

When a buffer of the emulated path and one of the native path agree on count,
name, slots and generations, and each field's array is found at the field's stride
in the arena, every call on a declared field answers the same and keeps it that
way (`SimBuffer.step`), and both buffers save the same bytes (`SimBuffer.payload`).

Only the widths of the native tags count, and not even these in a buffer without
slots: no slot is ever allocated there.
-/

namespace Blyt

open NativeBuffer BlysBuffer Buffer

def widths (tags : List Nat) : List Nat := tags.map fieldSizeof

variable {tags : List Nat} {j slot : Nat} {arena : ByteMem} {fi x : Nat}

theorem getElem?_widths {tag : Nat} (h : tags[j]? = some tag) :
    (widths tags)[j]? = some (fieldSizeof tag) := by
  rw [widths, List.getElem?_map, h, Option.map_some]

theorem sum_mul_widths (c : Nat) (tags : List Nat) :
    (tags.map fun tag => c * fieldSizeof tag).sum = c * (widths tags).sum :=
  List.sum_map_mul_left tags fieldSizeof c

/-! ## Clearing a slot of the arena -/

/-- A slot's element stays within its field's stride. -/
theorem element_lt_stride (tag : Nat) (hs : slot < maxSlots) :
    slot * fieldSizeof tag + fieldSizeof tag ≤ fieldStride := by
  have hw := fieldSizeof_le tag
  calc slot * fieldSizeof tag + fieldSizeof tag = (slot + 1) * fieldSizeof tag := by ring
    _ ≤ maxSlots * 8 := Nat.mul_le_mul hs hw

theorem stride_succ (fi : Nat) : (fi + 1) * fieldStride = fi * fieldStride + fieldStride :=
  Nat.succ_mul fi fieldStride

theorem clearSlot_below (h : x < fi * fieldStride) : clearSlot arena slot fi tags x = arena x := by
  induction tags generalizing arena fi with
  | nil => rfl
  | cons tag tags ih =>
    rw [clearSlot, ih (by rw [stride_succ]; omega), fill_outside (by omega)]

/-- Field `fi + j` loses the slot's element and nothing else. -/
theorem clearSlot_field (arena : ByteMem) (fi : Nat) {k w : Nat}
    (hs : slot < maxSlots) (hj : (widths tags)[j]? = some w) (hk : k < fieldStride) :
    clearSlot arena slot fi tags ((fi + j) * fieldStride + k)
      = fill (fun x => arena ((fi + j) * fieldStride + x)) (slot * w) w 0 k := by
  induction tags generalizing arena fi j with
  | nil => cases hj
  | cons tag tags ih =>
    have hstride := element_lt_stride tag hs
    rw [clearSlot]
    cases j with
    | zero =>
      cases hj
      simp only [Nat.add_zero]
      rw [clearSlot_below (by rw [stride_succ]; omega)]
      simp only [fill]
      congr 1
      exact propext ⟨fun _ => by omega, fun _ => by omega⟩
    | succ j =>
      rw [show fi + (j + 1) = fi + 1 + j by omega, ih _ _ hj]
      -- the first field's element lies before the others' strides
      have hge : (fi + 1) * fieldStride ≤ (fi + 1 + j) * fieldStride :=
        Nat.mul_le_mul_right _ (by omega)
      rw [stride_succ] at hge
      congr 1
      funext x
      exact fill_outside (Or.inr (by omega))

theorem clearSlot_beyond (hs : slot < maxSlots) (h : (fi + tags.length) * fieldStride ≤ x) :
    clearSlot arena slot fi tags x = arena x := by
  induction tags generalizing arena fi with
  | nil => rfl
  | cons tag tags ih =>
    have hstride := element_lt_stride tag hs
    rw [List.length_cons, Nat.add_comm tags.length, ← Nat.add_assoc] at h
    have hge : (fi + 1) * fieldStride ≤ x := (Nat.mul_le_mul_right _ (by omega)).trans h
    rw [stride_succ] at hge
    rw [clearSlot, ih h, fill_outside (Or.inr (by omega))]

/-! ## Related buffers -/

/-- Each field's array stands in the arena at the field's stride. -/
def SameData (b : Buffer) (n : NativeBuffer) : Prop :=
  ∀ fi tag, b.tags[fi]? = some tag → ∀ k < b.count * fieldSizeof tag,
    n.arena (fi * fieldStride + k) = b.data fi k

structure SimBuffer (b : Buffer) (n : NativeBuffer) : Prop where
  count : n.count = b.count
  count_le : b.count ≤ maxSlots
  name : n.name = b.name
  used : n.used = b.used
  gens : n.gens = b.gens
  fields : b.tags.length ≤ nativeMaxFields
  same : b.count = 0 ∨ widths n.tags = widths b.tags
  data : SameData b n

/-- A call names a field the buffer has and is the accessor of its type. -/
def SlotOp.Typed (tags : List Nat) : SlotOp → Prop
  | .get t _ field | .set t _ field _ =>
    field % 2 ^ 16 ≠ 0 ∧ tags[field % 2 ^ 16 - 1]? = some t.tag
  | _ => True

namespace SimBuffer

variable {b : Buffer} {n : NativeBuffer}

theorem allocated (h : SimBuffer b n) (slot : Int) : n.allocated slot = b.allocated slot := by
  have hle : (b.count : Int) ≤ maxSlots := by exact_mod_cast h.count_le
  unfold NativeBuffer.allocated Buffer.allocated
  rw [h.count, h.used]
  congr 2
  exact propext ⟨fun _ => ⟨by omega, by omega, by omega⟩, fun _ => ⟨by omega, by omega⟩⟩

variable {slot : Int} {field tag : Nat} {t : FieldType} {v : Nat}

section

variable (h : SimBuffer b n)
include h

/-- An allocated slot is a slot, and there are slots. -/
theorem slot_lt (ha : b.allocated slot = true) : slot.toNat < b.count ∧ slot.toNat < maxSlots := by
  have hle := h.count_le
  simp only [Buffer.allocated, Bool.and_eq_true, decide_eq_true_eq] at ha
  omega

theorem widths_eq (ha : b.allocated slot = true) : widths n.tags = widths b.tags := by
  have := (h.slot_lt ha).1
  exact h.same.resolve_left (by omega)

theorem refOk (hf : field ≠ 0)
    (ht : b.tags[field - 1]? = some tag) : n.refOk slot field = b.allocated slot := by
  obtain ⟨hlt, -⟩ := List.getElem?_eq_some_iff.mp ht
  have hlt : field - 1 < nativeMaxFields := Nat.lt_of_lt_of_le hlt h.fields
  rw [NativeBuffer.refOk, h.allocated, decide_eq_true ⟨hf, hlt⟩, Bool.and_true]

/-! ### One lemma per call -/

theorem getAs (hf : field % 2 ^ 16 ≠ 0) (ht : b.tags[field % 2 ^ 16 - 1]? = some t.tag) :
    n.getAs t slot field = b.getAs t slot field := by
  unfold NativeBuffer.getAs Buffer.getAs
  generalize field % 2 ^ 16 = f at hf ht
  rw [h.refOk hf ht]
  by_cases ha : b.allocated slot = true
  · have hacc : b.access slot f = some t.tag := by simp [access, ha, hf, ht]
    have hread : readLE n.arena (element slot f (fieldSizeof t.tag))
        (fieldSizeof t.tag) = readLE (b.data (f - 1)) (slot.toNat * fieldSizeof t.tag)
          (fieldSizeof t.tag) := by
      refine readLE_congr fun k hk => ?_
      rw [element, Nat.add_assoc]
      refine h.data _ _ ht _ ?_
      calc slot.toNat * fieldSizeof t.tag + k < (slot.toNat + 1) * fieldSizeof t.tag := by
            rw [Nat.succ_mul]; omega
        _ ≤ b.count * fieldSizeof t.tag := Nat.mul_le_mul_right _ (h.slot_lt ha).1
    have hlt := readLE_lt (b.data (f - 1)) (slot.toNat * fieldSizeof t.tag) (fieldSizeof t.tag)
    rw [hread, if_neg (by simp [ha])]
    cases t <;> simp_all [Buffer.get, get64, FieldType.bits, FieldType.tag, fieldSizeof,
      Nat.mod_eq_of_lt]
  · have hacc : b.access slot f = none := by simp [access, ha]
    simp [ha, Buffer.get, get64, hacc]

end

/-- What a typed write leaves in the array. -/
def stored (t : FieldType) (v : Nat) : Nat :=
  if t = .f32 then canonF32 (t.bits v)
  else if t = .f64 then canonF64 (t.bits v)
  else t.bits v

theorem host_setAs (hf : field % 2 ^ 16 ≠ 0) (ht : b.tags[field % 2 ^ 16 - 1]? = some t.tag) :
    b.setAs t slot field v = if b.allocated slot = false then none
      else some (b.store slot (field % 2 ^ 16) (fieldSizeof t.tag) (stored t v)) := by
  unfold Buffer.setAs
  generalize field % 2 ^ 16 = f at hf ht
  by_cases ha : b.allocated slot = true
  · have hacc : b.access slot f = some t.tag := by simp [access, ha, hf, ht]
    cases t <;> simp [Buffer.set, set64, hacc, ha, stored, FieldType.tag, fieldSizeof]
  · have hacc : b.access slot f = none := by simp [access, ha]
    simp [ha, Buffer.set, set64, hacc]

section

variable (h : SimBuffer b n)
include h

theorem store (ha : b.allocated slot = true) : SimBuffer (b.store slot field (fieldSizeof tag) v)
      { n with
        arena := writeLE n.arena (element slot field (fieldSizeof tag)) (fieldSizeof tag) v } := by
  refine ⟨h.count, h.count_le, h.name, h.used, h.gens, h.fields, h.same, ?_⟩
  intro fi tag' ht' k hk
  have hold := h.data fi tag' ht' k hk
  have hslot := element_lt_stride tag (h.slot_lt ha).2
  show writeLE n.arena (element slot field (fieldSizeof tag)) (fieldSizeof tag) v
    (fi * fieldStride + k) = Function.update b.data (field - 1) _ fi k
  rw [element]
  by_cases hfi : fi = field - 1
  · subst hfi
    rw [Function.update_self]
    by_cases hin : slot.toNat * fieldSizeof tag ≤ k
        ∧ k < slot.toNat * fieldSizeof tag + fieldSizeof tag
    · obtain ⟨j, rfl⟩ := Nat.exists_eq_add_of_le hin.1
      rw [← Nat.add_assoc, writeLE_inside (by omega), writeLE_inside (by omega)]
    · rw [writeLE_outside (by omega), writeLE_outside (by omega), hold]
  · -- another field's stride is not touched
    have hk' : k < fieldStride := hk.trans_le (Nat.mul_le_mul h.count_le (fieldSizeof_le tag'))
    rw [Function.update_of_ne hfi, ← hold]
    refine writeLE_outside ?_
    rcases Nat.lt_or_gt_of_ne hfi with hlt | hgt
    · have := Nat.mul_le_mul_right fieldStride hlt
      rw [Nat.succ_mul] at this
      omega
    · have := Nat.mul_le_mul_right fieldStride hgt
      rw [Nat.succ_mul] at this
      omega

theorem allocSlot : (n.allocSlot = none ∧ b.allocSlot = none) ∨
      ∃ n' b' s, n.allocSlot = some (n', s) ∧ b.allocSlot = some (b', s) ∧ SimBuffer b' n' := by
  unfold NativeBuffer.allocSlot Buffer.allocSlot
  rw [h.count, h.used, Nat.min_eq_left h.count_le]
  cases (List.range b.count).find? fun s => !b.used s with
  | none => exact Or.inl ⟨rfl, rfl⟩
  | some s =>
    exact Or.inr ⟨_, _, s, rfl, rfl,
      ⟨rfl, h.count_le, h.name, rfl, h.gens, h.fields, h.same, h.data⟩⟩

theorem freeSlot (slot : Int) : (n.freeSlot slot = none ∧ b.freeSlot slot = none) ∨
      ∃ n' b', n.freeSlot slot = some n' ∧ b.freeSlot slot = some b' ∧ SimBuffer b' n' := by
  unfold NativeBuffer.freeSlot Buffer.freeSlot
  rw [h.allocated slot]
  by_cases ha : b.allocated slot = true
  · rw [if_neg (by simp [ha]), if_neg (by simp [ha])]
    refine Or.inr ⟨_, _, rfl, rfl, h.count, h.count_le, h.name, ?_, ?_, h.fields, h.same, ?_⟩
    · show Function.update n.used _ _ = Function.update b.used _ _
      rw [h.used]
    · show Function.update n.gens _ _ = Function.update b.gens _ _
      rw [h.gens]
    · intro fi tag ht k hk
      have hk' := hk.trans_le (Nat.mul_le_mul h.count_le (fieldSizeof_le tag))
      have hw : (widths n.tags)[fi]? = some (fieldSizeof tag) := by
        rw [h.widths_eq ha]
        exact getElem?_widths ht
      have hclear := clearSlot_field n.arena 0 (h.slot_lt ha).2 hw hk'
      rw [Nat.zero_add] at hclear
      have hold := h.data fi tag ht k hk
      simp only [ht] at hclear ⊢
      rw [hclear]
      simp only [fill, hold]
  · rw [if_pos (by simpa using ha), if_pos (by simpa using ha)]
    exact Or.inl ⟨rfl, rfl⟩

/-- **Step lemma.** A typed call answers the same and keeps the relation. -/
theorem step {op : SlotOp} (hop : op.Typed b.tags) :
    (b.step op).2 = (n.step op).2 ∧ SimBuffer (b.step op).1 (n.step op).1 := by
  cases op with
  | alloc =>
    rcases h.allocSlot with ⟨hn, hb⟩ | ⟨n', b', s, hn, hb, h'⟩
    · simpa only [Buffer.step, NativeBuffer.step, hn, hb, true_and] using h
    · simpa only [Buffer.step, NativeBuffer.step, hn, hb, true_and] using h'
  | free slot =>
    rcases h.freeSlot slot with ⟨hn, hb⟩ | ⟨n', b', hn, hb, h'⟩
    · simpa only [Buffer.step, NativeBuffer.step, hn, hb, true_and] using h
    · simpa only [Buffer.step, NativeBuffer.step, hn, hb, true_and] using h'
  | ref =>
    refine ⟨?_, h⟩
    simp only [Buffer.step, NativeBuffer.step, Buffer.ref, NativeBuffer.ref, h.allocated, h.gens]
  | refValid =>
    refine ⟨?_, h⟩
    simp only [Buffer.step, NativeBuffer.step, Buffer.refValid, NativeBuffer.refValid,
      h.allocated, h.gens]
  | get => exact ⟨(h.getAs hop.1 hop.2).symm, h⟩
  | set t slot field v =>
    have hn : n.setAs t slot field v = if b.allocated slot = false then none
        else some { n with
          arena := writeLE n.arena (element slot (field % 2 ^ 16) (fieldSizeof t.tag))
            (fieldSizeof t.tag) (stored t v) } := by
      rw [← h.refOk hop.1 hop.2]
      rfl
    simp only [Buffer.step, NativeBuffer.step, hn, host_setAs hop.1 hop.2]
    by_cases ha : b.allocated slot = true
    · simpa only [ha, Bool.true_eq_false, if_false, true_and] using h.store ha
    · simpa only [ha, if_true, true_and] using h

/-! ### Saves -/

theorem payload : b.view.payload = n.view.payload := by
  have hfields : b.view.fieldBytes 0 b.tags = n.view.fieldBytes 0 n.tags := by
    rcases h.same with h0 | hw
    · rw [fieldBytes_of_count h0, fieldBytes_of_count (h.count.trans h0)]
    · refine fieldBytes_congr hw.symm h.count.symm fun j tag ht k hk => ?_
      rw [Nat.zero_add]
      exact (h.data j tag ht k hk).symm
  have hused : b.view.used = n.view.used := h.used.symm
  have hbits : b.view.bitset = n.view.bitset := by
    unfold bitset bitsetByte
    rw [hused]
  have hgen : b.view.gens = n.view.gens := h.gens.symm
  have hgens : b.view.genBytes = n.view.genBytes := by
    unfold genBytes
    rw [hgen]
  have hname : b.view.name = n.view.name := h.name.symm
  unfold BlysBuffer.payload
  rw [hname, hbits, hgens]
  exact congrArg (fun l => _ ++ (_ ++ (l ++ _))) hfields

theorem serializedSize : b.view.serializedSize = n.view.serializedSize := by
  have hname : n.view.name = b.view.name := h.name
  unfold BlysBuffer.serializedSize
  rw [hname, sum_mul_widths, sum_mul_widths]
  show _ + b.count * (widths b.tags).sum + _ + _ = _ + n.count * (widths n.tags).sum + _ + _
  rw [h.count]
  rcases h.same with h0 | hw
  · rw [h0, Nat.zero_mul, Nat.zero_mul]
  · rw [hw]

theorem cartSection : b.view.cartSection = n.view.cartSection := by
  rw [BlysBuffer.cartSection, BlysBuffer.cartSection, payloadSize,
    payloadSize, h.serializedSize, h.payload]

end

end SimBuffer

end Blyt
