import Blyt.StateSnapshot

/-!
# State across a reload

A snapshot taken before a reload is restored into the context of the new cart. Buffers are
matched by their place, and a buffer is taken over if the number of slots and the number of
fields agree; the types of the fields are not compared, and how many bytes are copied is
counted by the new ones. `migration_safe_iff` says for which pairs of layouts that is safe.
-/

namespace Blyt

open List Option FieldType StateCtx

/-- One `memcpy` of `blyt_state_ctx_restore_snapshot`: the types of the two fields, the size
of the snapshot's array, and the number of bytes. -/
structure FieldCopy where
  srcTag : Nat
  dstTag : Nat
  srcLen : Nat
  len : Nat
  deriving DecidableEq, Repr

/-- The copies of one round of the loop, those of `restoreBuffer`. -/
def bufferCopies (b : Buffer) (q : SnapBuffer) : List FieldCopy :=
  if q.tags.length ≠ b.tags.length ∨ q.count ≠ b.count then []
  else b.tags.mapIdx fun fi tag =>
    ⟨q.tags.getD fi 0, tag, (q.data.getD fi []).length, b.count * fieldSizeof tag⟩

def restoreCopies (s : List Buffer) (snap : List SnapBuffer) : List FieldCopy :=
  if snap.length ≠ s.length then [] else (zipWith bufferCopies s snap).flatten

/-- Bytes are copied between fields of one type only, no array is read past its end, and a
buffer of another layout stays as it is. -/
structure MigrationSafe (s : List Buffer) (snap : List SnapBuffer) : Prop where
  types : ∀ m ∈ restoreCopies s snap, 0 < m.len → m.srcTag = m.dstTag
  inside : ∀ m ∈ restoreCopies s snap, m.len ≤ m.srcLen
  others : ∀ (junk : ByteMem) (i : Nat) (b : Buffer) (q : SnapBuffer), s[i]? = some b →
    snap[i]? = some q → (q.count, q.tags) ≠ b.shape →
      (stateCtxRestoreSnapshot junk s snap)[i]? = some b

/-- Two layouts with the same number of buffers, in which buffers at the same place that
agree in the number of slots and in the number of fields agree in the types of the fields
as well, empty buffers apart. -/
def MigrationCompatible (old new : List (Nat × List Nat)) : Prop :=
  old.length = new.length → ∀ (i : Nat) (p q : Nat × List Nat), old[i]? = some p →
    new[i]? = some q → p.1 = q.1 → p.1 ≠ 0 → p.2.length = q.2.length → p.2 = q.2

/-! ## A buffer without slots -/

/-- A buffer without slots has nothing allocated or freed. -/
def Buffer.Unused (b : Buffer) : Prop :=
  b.count = 0 → b.used = (fun _ => false) ∧ b.gens = fun _ => 1

theorem unused_keptByCalls : KeptByCalls Buffer.Unused where
  store _ _ _ _ _ h _ := h
  alloc b s _ hs _ h0 := by
    rw [h0] at hs
    exact absurd hs (Nat.not_lt_zero s)
  free b slot b' _ ha hfree h0 := by
    have hcount : b'.count = b.count := congrArg Prod.fst (Buffer.freeSlot_eq_some hfree).2
    obtain ⟨s, -, hs, -⟩ := Buffer.exists_slot ha
    omega
  zero _ _ _ := ⟨rfl, rfl⟩
  same b b' h hs h0 := by
    rw [hs.used, hs.gens]
    exact h (hs.count ▸ h0)

/-! ## One buffer -/

section OneBuffer

variable {b b₀ : Buffer}

theorem snapshotBuffer_array (b₀ : Buffer) {fi tag : Nat} (htag : b₀.tags[fi]? = some tag) :
    ((snapshotBuffer b₀).data.getD fi []).length = b₀.count * fieldSizeof tag := by
  rw [getD_eq_getElem?_getD, snapshotBuffer, getElem?_mapIdx, htag]
  simp

/-- A copy, if there is one at all. -/
theorem mem_bufferCopies {m : FieldCopy} (h : m ∈ bufferCopies b (snapshotBuffer b₀)) :
    b₀.tags.length = b.tags.length ∧ b₀.count = b.count
      ∧ ∃ fi tag₀ tag : Nat, b₀.tags[fi]? = some tag₀ ∧ b.tags[fi]? = some tag
        ∧ m = ⟨tag₀, tag, b₀.count * fieldSizeof tag₀, b.count * fieldSizeof tag⟩ := by
  unfold bufferCopies at h
  split at h
  · cases h
  rename_i heq
  rw [not_or, not_not, not_not] at heq
  obtain ⟨hlen, hcount⟩ := heq
  obtain ⟨fi, hlt, rfl⟩ := mem_mapIdx.mp h
  have hlt0 : fi < b₀.tags.length := hlen.symm ▸ hlt
  refine ⟨hlen, hcount, fi, b₀.tags[fi], b.tags[fi], getElem?_eq_getElem hlt0,
    getElem?_eq_getElem hlt, ?_⟩
  rw [snapshotBuffer_array b₀ (getElem?_eq_getElem hlt0)]
  congr 1
  show (b₀.tags[fi]?).getD 0 = _
  rw [getElem?_eq_getElem hlt0]
  rfl

theorem copy_mem_bufferCopies {fi tag₀ tag : Nat} (hlen : b₀.tags.length = b.tags.length)
    (hcount : b₀.count = b.count) (htag₀ : b₀.tags[fi]? = some tag₀)
    (htag : b.tags[fi]? = some tag) :
    ⟨tag₀, tag, b₀.count * fieldSizeof tag₀, b.count * fieldSizeof tag⟩
      ∈ bufferCopies b (snapshotBuffer b₀) := by
  have hlt := (List.getElem?_eq_some_iff.mp htag).1
  unfold bufferCopies
  rw [if_neg (by rintro (h | h); exacts [h hlen, h hcount])]
  refine mem_mapIdx.mpr ⟨fi, hlt, ?_⟩
  rw [snapshotBuffer_array b₀ htag₀, (List.getElem?_eq_some_iff.mp htag).2]
  congr 1
  show (b₀.tags[fi]?).getD 0 = tag₀
  rw [htag₀]
  rfl

/-- A new buffer without slots stays new. -/
theorem restoreBuffer_unused (junk : ByteMem) (hused : b.used = fun _ => false)
    (hgens : b.gens = fun _ => 1) (h₀ : b₀.Unused) (hzero : b.count = 0) :
    restoreBuffer junk b (snapshotBuffer b₀) = b := by
  unfold restoreBuffer
  split
  · rfl
  rename_i heq
  rw [not_or, not_not, not_not] at heq
  obtain ⟨hu, hg⟩ := h₀ (heq.2.trans hzero)
  obtain ⟨count, schemaHash, name, tags, data, used, gens⟩ := b
  refine (Buffer.mk.injEq ..).mpr ⟨rfl, rfl, rfl, rfl, funext fun fi => ?_, hu.trans hused.symm,
    hg.trans hgens.symm⟩
  obtain rfl : count = 0 := hzero
  split
  · rfl
  · funext x
    rw [if_neg (by rw [Nat.zero_mul]; exact Nat.not_lt_zero x)]

end OneBuffer

/-! ## Whole contexts -/

section Contexts

variable {s s₀ : List Buffer}

theorem mem_restoreCopies {m : FieldCopy} :
    m ∈ restoreCopies s (stateCtxSnapshot s₀)
      ↔ s₀.length = s.length ∧ ∃ (i : Nat) (b₀ b : Buffer), s₀[i]? = some b₀ ∧ s[i]? = some b
        ∧ m ∈ bufferCopies b (snapshotBuffer b₀) := by
  unfold restoreCopies stateCtxSnapshot
  rw [length_map]
  by_cases hlen : s₀.length = s.length
  · rw [if_neg (fun h => h hlen), and_iff_right hlen, mem_flatten]
    constructor
    · rintro ⟨l, hl, hm⟩
      obtain ⟨i, hi⟩ := mem_iff_getElem?.mp hl
      rw [getElem?_zipWith, getElem?_map] at hi
      cases hb : s[i]? with
      | none => simp [hb] at hi
      | some b =>
        cases hb0 : s₀[i]? with
        | none => simp [hb, hb0] at hi
        | some b₀ =>
          simp only [hb, hb0, map_some, some.injEq] at hi
          exact ⟨i, b₀, b, hb0, hb, hi ▸ hm⟩
    · rintro ⟨i, b₀, b, hb0, hb, hm⟩
      refine ⟨_, mem_iff_getElem?.mpr ⟨i, ?_⟩, hm⟩
      rw [getElem?_zipWith, getElem?_map, hb, hb0]
      rfl
  · rw [if_pos hlen]
    exact ⟨fun h => absurd h not_mem_nil, fun h => absurd h.1 hlen⟩

theorem shapes_getElem? (s : List Buffer) (i : Nat) :
    (shapes s)[i]? = (s[i]?).map Buffer.shape := getElem?_map

/-- The condition from the safety of the copies. -/
theorem compatible_of_safe (h : MigrationSafe s (stateCtxSnapshot s₀)) :
    MigrationCompatible (shapes s₀) (shapes s) := by
  intro hlen i p q hp hq hcount hpos hfields
  rw [shapes, shapes, length_map, length_map] at hlen
  rw [shapes_getElem?] at hp hq
  obtain ⟨b₀, hb₀, rfl⟩ := map_eq_some_iff.mp hp
  obtain ⟨b, hb, rfl⟩ := map_eq_some_iff.mp hq
  refine ext_getElem hfields fun fi hlt0 hlt => ?_
  have hmem := copy_mem_bufferCopies hfields hcount (getElem?_eq_getElem hlt0)
    (getElem?_eq_getElem hlt)
  refine h.types _ (mem_restoreCopies.mpr ⟨hlen, i, b₀, b, hb₀, hb, hmem⟩) ?_
  have hb0 : 0 < b.count := Nat.pos_of_ne_zero fun h0 => hpos (hcount.trans h0)
  exact Nat.mul_pos hb0 (fieldSizeof_pos _)

/-- Safety from the condition, for a new context and a snapshot of any context. -/
theorem safe_of_compatible (h : MigrationCompatible (shapes s₀) (shapes s))
    (hnew : ∀ b ∈ s, b.used = (fun _ => false) ∧ b.gens = fun _ => 1)
    (hold : ∀ b ∈ s₀, b.Unused) : MigrationSafe s (stateCtxSnapshot s₀) := by
  have htags : ∀ (i : Nat) (b₀ b : Buffer), s₀.length = s.length → s₀[i]? = some b₀ →
      s[i]? = some b → b₀.tags.length = b.tags.length → b₀.count = b.count → b.count ≠ 0 →
        b₀.tags = b.tags := by
    intro i b₀ b hlen hb₀ hb hfields hcount hpos
    refine h (by rw [shapes, shapes, length_map, length_map, hlen]) i b₀.shape b.shape
      ?_ ?_ hcount (fun h0 => hpos (hcount.symm.trans h0)) hfields
    · rw [shapes_getElem?, hb₀]
      rfl
    · rw [shapes_getElem?, hb]
      rfl
  refine ⟨fun m hm hpos => ?_, fun m hm => ?_, fun junk i b q hb hq hne => ?_⟩
  · obtain ⟨hlen, i, b₀, b, hb₀, hb, hm⟩ := mem_restoreCopies.mp hm
    obtain ⟨hfields, hcount, fi, tag0, tag, ht0, ht, rfl⟩ := mem_bufferCopies hm
    have hb0 : b.count ≠ 0 := fun h0 => by simp [h0] at hpos
    rw [htags i b₀ b hlen hb₀ hb hfields hcount hb0] at ht0
    exact some.inj (ht0.symm.trans ht)
  · obtain ⟨hlen, i, b₀, b, hb₀, hb, hm⟩ := mem_restoreCopies.mp hm
    obtain ⟨hfields, hcount, fi, tag0, tag, ht0, ht, rfl⟩ := mem_bufferCopies hm
    by_cases hb0 : b.count = 0
    · rw [hb0, Nat.zero_mul]
      exact Nat.zero_le _
    · rw [htags i b₀ b hlen hb₀ hb hfields hcount hb0] at ht0
      obtain rfl := some.inj (ht0.symm.trans ht)
      rw [hcount]
  · unfold stateCtxRestoreSnapshot
    split
    · exact hb
    rename_i hlen
    rw [stateCtxSnapshot, length_map, not_not] at hlen
    rw [stateCtxSnapshot, getElem?_map] at hq
    obtain ⟨b₀, hb₀, rfl⟩ := map_eq_some_iff.mp hq
    have hkeep : restoreBuffer junk b (snapshotBuffer b₀) = b := by
      by_cases hmatch : b₀.tags.length = b.tags.length ∧ b₀.count = b.count
      · have hb0 : b.count = 0 := by
          by_contra hb0
          refine hne (Prod.ext hmatch.2 ?_)
          exact htags i b₀ b hlen hb₀ hb hmatch.1 hmatch.2 hb0
        obtain ⟨hused, hgens⟩ := hnew b (mem_of_getElem? hb)
        exact restoreBuffer_unused junk hused hgens (hold b₀ (mem_of_getElem? hb₀)) hb0
      · exact if_pos (by
          by_contra hor
          rw [not_or, not_not, not_not] at hor
          exact hmatch hor)
    rw [stateCtxSnapshot, getElem?_zipWith, getElem?_map, hb, hb₀]
    exact congrArg some hkeep

end Contexts

/-- **When a reload keeps the types.** For every snapshot taken under the old layout and the
context built from the new one. -/
theorem migration_safe_iff (junk : ByteMem) (old new : CartLayouts) (ops : List StateOp) :
    MigrationSafe (stateCtxInit new) (stateCtxSnapshot ((start old).run junk ops).bufs)
      ↔ MigrationCompatible (shapes (stateCtxInit old)) (shapes (stateCtxInit new)) := by
  have hunused : ∀ b ∈ stateCtxInit old, b.Unused := fun b hb _ => (stateCtxInit_blank hb).2
  have hrun := next_run unused_keptByCalls junk (inv_start hunused) ops
  have hinv := hrun.inv (inv_start hunused)
  have hshapes : shapes ((start old).run junk ops).bufs = shapes (stateCtxInit old) :=
    hrun.shapes
  rw [← hshapes]
  exact ⟨compatible_of_safe,
    fun h => safe_of_compatible h (fun b hb => (stateCtxInit_blank hb).2) hinv.bufs⟩

/-- A layout of one buffer of one slot and one field. -/
def oneFieldLayout (tag : Nat) : CartLayouts :=
  ⟨8, [⟨[0x70], [tag]⟩], some [⟨8, some [0x62], [0x70], some 1⟩], 7⟩

/-- The field was a byte and becomes a double: eight bytes are copied from an array of one. -/
theorem byte_restored_as_double :
    restoreCopies (stateCtxInit (oneFieldLayout f64.tag))
        (stateCtxSnapshot ((start (oneFieldLayout u8.tag)).run (fun _ => 0)
          [.alloc 1, .set 1 0 1 42]).bufs) = [⟨u8.tag, f64.tag, 1, 8⟩]
      ∧ ¬ MigrationSafe (stateCtxInit (oneFieldLayout f64.tag))
        (stateCtxSnapshot ((start (oneFieldLayout u8.tag)).run (fun _ => 0)
          [.alloc 1, .set 1 0 1 42]).bufs) := by
  have hcopy : restoreCopies (stateCtxInit (oneFieldLayout f64.tag))
      (stateCtxSnapshot ((start (oneFieldLayout u8.tag)).run (fun _ => 0)
        [.alloc 1, .set 1 0 1 42]).bufs) = [⟨u8.tag, f64.tag, 1, 8⟩] := by
    decide +kernel
  refine ⟨hcopy, fun h => ?_⟩
  have hinside := h.inside _ (hcopy ▸ mem_singleton_self _)
  exact absurd hinside (by decide)

end Blyt
