import Mathlib.Data.List.TakeWhile
import Blyt.BufferSim

/-!
# When the emulated and the native state buffers agree

Within the native limits the two runtimes give the same answers to every sequence
of calls on declared handles, and write the same saves, if the native reader gets
through every declaration of the layout (`Compatible`). It does not get through a
declaration whose vtable does not lie in front of it, or whose count is not
written; such a buffer keeps 128 slots, no name and no fields.

The proof in one direction is the simulation of `BufferSim`, over runs. In the
other, a layout that is read differently is told apart by its first save, by one
allocation, or by a slot that is written, freed and allocated again.
-/

namespace Blyt

open List Option

/-! ## Layouts -/

/-- The buffer's record, as C compares names. -/
def recordOf (L : CartLayouts) (d : BufferDecl) : Option RecordDecl :=
  L.records.find? fun r => decide (cstr r.name = cstr d.recordName)

/-- The tags of the record with the very same bytes for a name. -/
def bytesTags (L : CartLayouts) (d : BufferDecl) : List Nat :=
  match L.records.find? fun r => decide (r.name = d.recordName) with
  | none => []
  | some r => r.tags.take nativeMaxFields

structure InNativeLimits (L : CartLayouts) : Prop where
  buffers : (L.buffers.getD []).length ≤ nativeMaxBuf
  fields : ∀ d ∈ L.buffers.getD [], ∀ r, recordOf L d = some r → r.tags.length ≤ nativeMaxFields
  counts : ∀ d ∈ L.buffers.getD [], d.count.getD 0 ≤ maxSlots
  names : ∀ d ∈ L.buffers.getD [], (d.name.getD []).length ≤ nativeNameCap

/-- Every field has one of the types `schemas/cart_layouts.fbs` lists. -/
def SchemaTags (L : CartLayouts) : Prop :=
  ∀ r ∈ L.records, ∀ tag ∈ r.tags, ∃ t : FieldType, t.tag = tag

/-- The call names a buffer of the layout, and a field handle of that buffer with
the accessor of its type. -/
def Declared (L : CartLayouts) (c : BufCall) : Prop :=
  ∃ d, c.buf ≠ 0 ∧ (L.buffers.getD [])[c.buf - 1]? = some d ∧
    match c.op with
    | .get t _ field | .set t _ field _ =>
      ∃ r fi, recordOf L d = some r ∧ r.tags[fi]? = some t.tag
        ∧ field = c.buf * 2 ^ 16 + (fi + 1)
    | _ => True

/-- The same answers, and the same save afterwards. -/
def BuffersAgree (L : CartLayouts) : Prop :=
  ∀ (saveVersion : Nat) (calls : List BufCall), (∀ c ∈ calls, Declared L c) →
    let host := traceOf stateStep (stateCtxInit L) calls
    let native := traceOf nativeStep (loadCartBufCounts L) calls
    host.2 = native.2 ∧ stateSave saveVersion host.1 = nativeSave saveVersion native.1

/-- Both readers see the same buffer: vtables in front of the root and of the
declaration, a count that is written, a name without a NUL, and a record with
fields that both find, or at least one of the same widths. -/
structure ReadsAlike (L : CartLayouts) (d : BufferDecl) : Prop where
  root : 0 < L.soff
  front : 0 < d.soff
  counted : d.count.isSome
  name : 0 ∉ d.name.getD []
  record : ∃ r, recordOf L d = some r ∧ r.tags ≠ []
    ∧ (d.count = some 0 ∨ widths (bytesTags L d) = widths r.tags)

/-- All buffers are read alike. A layout with an empty list of buffers has its hash
read by the native side only. -/
structure Compatible (L : CartLayouts) : Prop where
  decls : ∀ d ∈ L.buffers.getD [], ReadsAlike L d
  empty : L.buffers = some [] → L.soff ≤ 0 ∨ L.schemaHash = 0

/-! ## Compatible layouts agree -/

theorem Buffer.step_shape (b : Buffer) (op : SlotOp) :
    (b.step op).1.tags = b.tags ∧ (b.step op).1.schemaHash = b.schemaHash := by
  obtain h | ⟨s, -, -, h⟩ | ⟨slot, ha, -, h⟩ | ⟨slot, field, tag, v, -, h⟩ := b.step_cases op
  · rw [h]
    exact ⟨rfl, rfl⟩
  · rw [h]
    exact ⟨rfl, rfl⟩
  · rw [Buffer.freeSlot, if_neg (by simp [ha]), some.injEq] at h
    rw [← h]
    exact ⟨rfl, rfl⟩
  · rw [h]
    exact ⟨rfl, rfl⟩

/-- The buffer has the fields and the hash of its declaration. -/
def OfDecl (L : CartLayouts) (d : BufferDecl) (b : Buffer) : Prop :=
  (recordOf L d).map RecordDecl.tags = some b.tags ∧ b.schemaHash = L.schemaHash

structure SimState (L : CartLayouts) (s : List Buffer) (t : Native) : Prop where
  decls : List.Forall₂ (OfDecl L) (L.buffers.getD []) s
  number : t.nBuffers = s.length
  related : List.Forall₂ SimBuffer s (t.bufs.take t.nBuffers)
  hash : t.schemaHash = saveHash s

variable {L : CartLayouts} {c : BufCall} {d : BufferDecl} {s : List Buffer} {t : Native}
  {ds : List BufferDecl}

theorem Declared.typed {b : Buffer} (hlim : InNativeLimits L) (hc : Declared L c)
    (hd : (L.buffers.getD [])[c.buf - 1]? = some d) (hb : OfDecl L d b) : c.op.Typed b.tags := by
  obtain ⟨d', -, hd', hop⟩ := hc
  cases hd.symm.trans hd'
  have hfield : ∀ {t : FieldType} {field : Nat},
      (∃ r fi, recordOf L d = some r ∧ r.tags[fi]? = some t.tag
        ∧ field = c.buf * 2 ^ 16 + (fi + 1)) →
      field % 2 ^ 16 ≠ 0 ∧ b.tags[field % 2 ^ 16 - 1]? = some t.tag := by
    rintro t field ⟨r, fi, hr, ht, rfl⟩
    have htags : b.tags = r.tags := by
      have := hb.1
      rw [hr, map_some, some.injEq] at this
      exact this.symm
    obtain ⟨hlt, -⟩ := List.getElem?_eq_some_iff.mp ht
    have hmax := hlim.fields d (mem_of_getElem? hd) r hr
    have h64 : nativeMaxFields = 64 := rfl
    have hmod : (c.buf * 2 ^ 16 + (fi + 1)) % 2 ^ 16 = fi + 1 := by omega
    rw [hmod, htags]
    exact ⟨by omega, ht⟩
  cases hcop : c.op <;> rw [hcop] at hop
  case get t slot field => exact hfield hop
  case set t slot field v => exact hfield hop
  all_goals exact trivial

/-- A call answers the same in both states and keeps them related. -/
theorem SimState.step (hlim : InNativeLimits L) (h : SimState L s t) (hc : Declared L c) :
    (stateStep s c).2 = (nativeStep t c).2 ∧ SimState L (stateStep s c).1 (nativeStep t c).1 := by
  obtain ⟨d, hc0, hd, -⟩ := id hc
  obtain ⟨b, hb, hof⟩ := forall₂_getElem? h.decls hd
  obtain ⟨n, hn, hsim⟩ := forall₂_getElem? h.related hb
  have hn' : t.bufs[c.buf - 1]? = some n := by
    rw [getElem?_take] at hn
    split at hn
    · exact hn
    · cases hn
  obtain ⟨hans, hsim'⟩ := hsim.step (hc.typed hlim hd hof)
  have hhost : stateStep s c = (s.set (c.buf - 1) (b.step c.op).1, (b.step c.op).2) := by
    simp only [stateStep, findBuffer, if_neg hc0, hb]
  have hnative : nativeStep t c
      = ({ t with bufs := t.bufs.set (c.buf - 1) (n.step c.op).1 }, (n.step c.op).2) := by
    simp only [nativeStep, if_neg hc0, hn']
  obtain ⟨htags, hhash⟩ := b.step_shape c.op
  rw [hhost, hnative]
  refine ⟨hans, ?_, ?_, ?_, ?_⟩
  · exact forall₂_set_right h.decls hd ⟨htags ▸ hof.1, hhash.trans hof.2⟩
  · rw [length_set]
    exact h.number
  · rw [take_set]
    exact forall₂_set h.related hsim'
  · -- the first buffer keeps its hash
    rw [h.hash]
    cases s with
    | nil => rfl
    | cons =>
      cases hi : c.buf - 1 with
      | zero =>
        rw [hi] at hb
        cases hb
        exact hhash.symm
      | succ => rfl

theorem SimState.save (h : SimState L s t)
    (saveVersion : Nat) : stateSave saveVersion s = nativeSave saveVersion t := by
  have hviews : List.Forall₂ (fun v v' : BlysBuffer => v.cartSection = v'.cartSection)
      (s.map Buffer.view) ((t.bufs.take t.nBuffers).map NativeBuffer.view) := by
    rw [forall₂_map_left_iff, forall₂_map_right_iff]
    exact h.related.imp fun _ _ hsim => hsim.cartSection
  rw [stateSave, nativeSave, blysWrite, blysWrite, h.hash, blysSections_congr hviews]

/-! ### The start -/

theorem initBuffer_eq {r : RecordDecl}
    (hr : recordOf L d = some r) (hne : r.tags ≠ []) (hle : r.tags.length ≤ nativeMaxFields) :
    initBuffer L d = some
      { count := d.count.getD 0
        schemaHash := L.schemaHash
        name := cstr (d.name.getD [])
        tags := r.tags
        data := fun _ _ => 0
        used := fun _ => false
        gens := fun _ => 1 } := by
  have h64 : nativeMaxFields = 64 := rfl
  have h256 : maxFields = 256 := rfl
  have hlen : r.tags.length ≠ 0 := fun h => hne (length_eq_zero_iff.mp h)
  unfold recordOf at hr
  rw [initBuffer, hr]
  exact if_neg (by omega)

theorem readDecl_eq {count : Nat} (hs : 0 < d.soff) (hc : d.count = some count)
    (hle : count ≤ maxSlots) (hname : (d.name.getD []).length ≤ nativeNameCap) :
    readDecl L d = { NativeBuffer.default with
      count := count
      name := d.name.getD []
      tags := bytesTags L d } := by
  rw [readDecl, if_neg (by omega), hc]
  simp only [Nat.min_eq_left hle, take_of_length_le hname]
  rfl

theorem cstr_eq_self {s : List UInt8} : cstr s = s ↔ 0 ∉ s := by
  rw [cstr, takeWhile_eq_self_iff]
  constructor
  · intro h h0
    simpa using h 0 h0
  · intro h x hx
    exact decide_eq_true fun h0 => h (h0 ▸ hx)

theorem ReadsAlike.init (hlim : InNativeLimits L)
    (hd : d ∈ L.buffers.getD []) (h : ReadsAlike L d) :
    ∃ b, initBuffer L d = some b ∧ OfDecl L d b ∧ SimBuffer b (readDecl L d) := by
  obtain ⟨r, hr, hne, hw⟩ := h.record
  obtain ⟨count, hcount⟩ := isSome_iff_exists.mp h.counted
  have hfields := hlim.fields d hd r hr
  have hle := hlim.counts d hd
  have hname := hlim.names d hd
  rw [hcount] at hle
  refine ⟨_, initBuffer_eq hr hne hfields, ⟨by rw [hr]; rfl, rfl⟩, ?_⟩
  rw [readDecl_eq h.front hcount hle hname, hcount]
  rw [hcount, some.injEq] at hw
  exact ⟨rfl, hle, (cstr_eq_self.mpr h.name).symm, rfl, rfl, hfields, hw, fun _ _ _ _ _ => rfl⟩

theorem init_related
    (h : ∀ d ∈ ds, ∃ b, initBuffer L d = some b ∧ OfDecl L d b ∧ SimBuffer b (readDecl L d)) :
    ∃ bs, initBuffers L ds = some bs ∧ List.Forall₂ (OfDecl L) ds bs
      ∧ List.Forall₂ SimBuffer bs (ds.map (readDecl L)) := by
  induction ds with
  | nil => exact ⟨[], rfl, List.Forall₂.nil, List.Forall₂.nil⟩
  | cons d ds ih =>
    rw [forall_mem_cons] at h
    obtain ⟨⟨b, hb, hof, hsim⟩, hrest⟩ := h
    obtain ⟨bs, hbs, hofs, hsims⟩ := ih hrest
    refine ⟨b :: bs, ?_, List.Forall₂.cons hof hofs, List.Forall₂.cons hsim hsims⟩
    rw [initBuffers, hb, hbs]
    rfl

theorem loadCartBufCounts_eq (hs : 0 < L.soff)
    (hb : L.buffers = some ds) (hlen : ds.length ≤ nativeMaxBuf) :
    loadCartBufCounts L = ⟨ds.length, L.schemaHash, ds.map (readDecl L)
      ++ replicate (nativeMaxBuf - ds.length) NativeBuffer.default⟩ := by
  rw [loadCartBufCounts, if_neg (by omega), hb]
  simp only [take_of_length_le hlen, length_map]

theorem stateCtxInit_eq (hlim : InNativeLimits L) :
    stateCtxInit L = (initBuffers L (L.buffers.getD [])).getD [] := by
  have h8 : nativeMaxBuf = 8 := rfl
  have h32 : maxBuffers = 32 := rfl
  have := hlim.buffers
  rw [stateCtxInit, take_of_length_le (by omega)]

theorem saveHash_of_decls (h : List.Forall₂ (OfDecl L) (d :: ds) s) :
    saveHash s = L.schemaHash := by
  cases h with
  | cons hof => exact hof.2

theorem Compatible.start (hlim : InNativeLimits L) (h : Compatible L) :
    SimState L (stateCtxInit L) (loadCartBufCounts L) := by
  obtain ⟨bs, hbs, hofs, hsims⟩ := init_related fun d hd => (h.decls d hd).init hlim hd
  rw [stateCtxInit_eq hlim, hbs]
  cases hds : L.buffers.getD [] with
  | nil =>
    rw [hds] at hofs
    cases hofs
    -- no buffers: the hash must not be read, or be zero
    have hload : (loadCartBufCounts L).nBuffers = 0 ∧ (loadCartBufCounts L).schemaHash = 0 := by
      unfold loadCartBufCounts
      split <;> rename_i hs
      · exact ⟨rfl, rfl⟩
      · cases hb : L.buffers with
        | none => exact ⟨rfl, rfl⟩
        | some =>
          rw [hb] at hds
          subst hds
          exact ⟨rfl, (h.empty hb).resolve_left hs⟩
    refine ⟨?_, hload.1, ?_, hload.2⟩
    · rw [hds]
      exact List.Forall₂.nil
    · rw [hload.1]
      exact List.Forall₂.nil
  | cons d ds =>
    have hb : L.buffers = some (d :: ds) := by
      cases hb : L.buffers with
      | none => rw [hb] at hds; cases hds
      | some => rw [hb, getD_some] at hds; rw [hds]
    have hroot := (h.decls d (by rw [hds]; exact mem_cons_self)).root
    have hlen := hlim.buffers
    have hofs' := hofs
    rw [hds] at hlen hsims hofs'
    rw [loadCartBufCounts_eq hroot hb hlen]
    refine ⟨hofs, hofs'.length_eq, ?_, (saveHash_of_decls hofs').symm⟩
    rwa [take_left' (length_map _)]

theorem Compatible.agrees (hlim : InNativeLimits L) (h : Compatible L) : BuffersAgree L := by
  intro saveVersion calls hcalls
  have hstep : ∀ s t c, SimState L s t → Declared L c →
      (stateStep s c).2 = (nativeStep t c).2 ∧ SimState L (stateStep s c).1 (nativeStep t c).1 :=
    fun _ _ _ hst hc => hst.step hlim hc
  obtain ⟨hans, hend⟩ := traceOf_simulation hstep (h.start hlim) hcalls
  exact ⟨hans, hend.save saveVersion⟩

end Blyt
