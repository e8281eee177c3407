import Blyt.BufferAgree

/-!
# What tells the state buffers of the two runtimes apart

The other direction: runtimes that agree have read the layout alike. The first
save gives away how many buffers there are, their names and how long their field
arrays are; one allocation gives away a buffer whose count was not read; and a slot
that is written, freed and allocated again (`probe`) gives away a field that the
native side takes to be narrower than it is.
-/

namespace Blyt

open List Option BlysBuffer NativeBuffer

/-! ## Calls on one buffer -/

variable {i : Nat} {b : Buffer} {n : NativeBuffer} {t : FieldType} {j : Nat} {l l' : List Nat}

theorem stateTrace_one {s : List Buffer} (hb : s[i]? = some b) (ops : List SlotOp) :
    (traceOf stateStep s (ops.map (BufCall.mk (i + 1)))).2 = (traceOf Buffer.step b ops).2 := by
  rw [traceOf_map]
  have hstep : ∀ s b op, s[i]? = some b → True →
      (stateStep s ⟨i + 1, op⟩).2 = (Buffer.step b op).2
        ∧ (stateStep s ⟨i + 1, op⟩).1[i]? = some (Buffer.step b op).1 := by
    intro s b op hb _
    obtain ⟨hlt, -⟩ := List.getElem?_eq_some_iff.mp hb
    simp only [stateStep, findBuffer, if_neg (Nat.succ_ne_zero i), Nat.add_sub_cancel, hb]
    exact ⟨trivial, getElem?_set_self hlt⟩
  exact (traceOf_simulation hstep hb fun _ _ => trivial).1

theorem nativeTrace_one {t : Native} (hn : t.bufs[i]? = some n) (ops : List SlotOp) :
    (traceOf nativeStep t (ops.map (BufCall.mk (i + 1)))).2
      = (traceOf NativeBuffer.step n ops).2 := by
  rw [traceOf_map]
  have hstep : ∀ (t : Native) n op, t.bufs[i]? = some n → True →
      (nativeStep t ⟨i + 1, op⟩).2 = (NativeBuffer.step n op).2
        ∧ (nativeStep t ⟨i + 1, op⟩).1.bufs[i]? = some (NativeBuffer.step n op).1 := by
    intro t n op hn _
    obtain ⟨hlt, -⟩ := List.getElem?_eq_some_iff.mp hn
    simp only [nativeStep, if_neg (Nat.succ_ne_zero i), Nat.add_sub_cancel, hn]
    exact ⟨trivial, getElem?_set_self hlt⟩
  exact (traceOf_simulation hstep hn fun _ _ => trivial).1

/-! ## A field the native side takes to be narrower -/

/-- Write the field's top byte in slot 0, free the slot and look again. -/
def probe (t : FieldType) (field : Nat) : List SlotOp :=
  [.alloc, .set t 0 field (256 ^ (fieldSizeof t.tag - 1)), .free 0, .alloc, .get t 0 field]

theorem stored_top (t : FieldType) :
    SimBuffer.stored t (256 ^ (fieldSizeof t.tag - 1)) = 256 ^ (fieldSizeof t.tag - 1) := by
  cases t <;> rfl

theorem wordByte_top (w : Nat) : wordByte (256 ^ w) w = 1 := by
  rw [wordByte, Nat.div_self (by positivity)]
  rfl

theorem find_free {c : Nat} {used : Nat → Bool} (hc : 0 < c) (h0 : used 0 = false) :
    (range c).find? (fun s => !used s) = some 0 := by
  obtain ⟨c, rfl⟩ := Nat.exists_eq_succ_of_ne_zero (Nat.pos_iff_ne_zero.mp hc)
  rw [range_succ_eq_map, find?_cons, h0]
  rfl

/-- What the field's element is after the slot was freed. -/
def afterProbe (n : NativeBuffer) (t : FieldType) (j : Nat) : ByteMem :=
  clearSlot (writeLE n.arena (j * fieldStride) (fieldSizeof t.tag)
    (256 ^ (fieldSizeof t.tag - 1))) 0 0 n.tags

theorem NativeBuffer.allocated_zero (hc : 0 < n.count)
    (hu : n.used 0 = true) : n.allocated 0 = true := by
  simp [allocated, hc, hu]

theorem NativeBuffer.step_alloc (hc : 0 < n.count) (hu : n.used 0 = false) :
    n.step .alloc = ({ n with used := Function.update n.used 0 true }, some 0) := by
  simp only [NativeBuffer.step, allocSlot, find_free hc hu]

/-- The last answer is zero exactly if the free has cleared the element. -/
theorem probe_native {field : Nat} (hu : n.used 0 = false) (hc : 0 < n.count)
    (hj : j < nativeMaxFields) (hf : field % 2 ^ 16 = j + 1) :
    ∃ x, (traceOf NativeBuffer.step n (probe t field)).2
        = [some 0, some 0, some 0, some 0, some x]
      ∧ (x = 0 ↔ readLE (afterProbe n t j) (j * fieldStride) (fieldSizeof t.tag) = 0) := by
  have helem : ∀ w, element 0 (j + 1) w = j * fieldStride := fun w => by
    simp [element]
  have hok : ∀ m : NativeBuffer, 0 < m.count → m.used 0 = true → m.refOk 0 (j + 1) = true :=
    fun m hm hmu => by
      rw [refOk, m.allocated_zero hm hmu, decide_eq_true ⟨Nat.succ_ne_zero j, hj⟩]
      rfl
  let n1 : NativeBuffer := { n with used := Function.update n.used 0 true }
  let n2 : NativeBuffer := { n1 with
    arena := writeLE n.arena (j * fieldStride) (fieldSizeof t.tag) (256 ^ (fieldSizeof t.tag - 1)) }
  let n3 : NativeBuffer := { n2 with
    used := Function.update n1.used 0 false
    arena := afterProbe n t j
    gens := Function.update n.gens 0 (genNext (n.gens 0)) }
  let n4 : NativeBuffer := { n3 with used := Function.update n3.used 0 true }
  have hu1 : n1.used 0 = true := by simp [n1]
  have hu3 : n3.used 0 = false := by simp [n3]
  have hu4 : n4.used 0 = true := by simp [n4]
  have h1 : n.step .alloc = (n1, some 0) := step_alloc hc hu
  have h2 : n1.step (.set t 0 field (256 ^ (fieldSizeof t.tag - 1))) = (n2, some 0) := by
    have hset : n1.setAs t 0 field (256 ^ (fieldSizeof t.tag - 1)) = some n2 := by
      rw [setAs, hf, if_neg (by rw [hok n1 hc hu1]; decide), helem]
      show some { n1 with arena := writeLE n.arena _ _ (SimBuffer.stored t _) } = some n2
      rw [stored_top]
    simp only [NativeBuffer.step, hset]
  have h3 : n2.step (.free 0) = (n3, some 0) := by
    have hfree : n2.freeSlot 0 = some n3 := by
      rw [freeSlot, if_neg (by rw [n2.allocated_zero hc hu1]; decide)]
      rfl
    simp only [NativeBuffer.step, hfree]
  have h4 : n3.step .alloc = (n4, some 0) := step_alloc hc hu3
  have h5 : n4.getAs t 0 field = some
      (if t = .bool then
        (if readLE (afterProbe n t j) (j * fieldStride) (fieldSizeof t.tag) = 0 then 0 else 1)
      else readLE (afterProbe n t j) (j * fieldStride) (fieldSizeof t.tag)) := by
    rw [getAs, hf, if_neg (by rw [hok n4 hc hu4]; decide), helem]
  refine ⟨(n4.getAs t 0 field).getD 0, ?_, ?_⟩
  · simp only [probe, traceOf, h1, h2, h3, h4]
    simp only [NativeBuffer.step, h5, getD_some]
  · rw [h5, getD_some]
    split
    · split_ifs <;> simp_all
    · rfl

/-- A free with the right width clears the element. -/
theorem afterProbe_eq_zero (ht : (widths n.tags)[j]? = some (fieldSizeof t.tag)) :
    readLE (afterProbe n t j) (j * fieldStride) (fieldSizeof t.tag) = 0 := by
  rw [readLE_eq_zero]
  intro k hk
  have hlt : k < fieldStride := hk.trans_le ((fieldSizeof_le _).trans (by decide))
  have hclear := clearSlot_field (writeLE n.arena (j * fieldStride) (fieldSizeof t.tag)
    (256 ^ (fieldSizeof t.tag - 1))) 0 (show 0 < maxSlots by decide) ht hlt
  rw [Nat.zero_add] at hclear
  rw [afterProbe, hclear, fill, if_pos (by omega)]

/-- If it is cleared, the native side does not take the field to be narrower. -/
theorem width_le_of_afterProbe
    (h : readLE (afterProbe n t j) (j * fieldStride) (fieldSizeof t.tag) = 0) :
    ∃ w, (widths n.tags)[j]? = some w ∧ fieldSizeof t.tag ≤ w := by
  have hpos := fieldSizeof_pos t.tag
  have hle := fieldSizeof_le t.tag
  have hS : fieldStride = 1024 := rfl
  obtain ⟨top, htop⟩ : ∃ top, fieldSizeof t.tag = top + 1 := ⟨fieldSizeof t.tag - 1, by omega⟩
  have hzero := readLE_eq_zero.mp h top (by omega)
  -- the top byte was 1 before the free
  have hone : writeLE n.arena (j * fieldStride) (fieldSizeof t.tag)
      (256 ^ (fieldSizeof t.tag - 1)) (j * fieldStride + top) = 1 := by
    rw [writeLE_inside (by omega), htop, Nat.add_sub_cancel, wordByte_top]
  rw [afterProbe] at hzero
  cases hw : (widths n.tags)[j]? with
  | none =>
    have hlen : n.tags.length ≤ j := by
      rw [List.getElem?_eq_none_iff, widths, length_map] at hw
      exact hw
    have hbeyond : (0 + n.tags.length) * fieldStride ≤ j * fieldStride + top := by
      rw [Nat.zero_add]
      exact (Nat.mul_le_mul_right fieldStride hlen).trans (Nat.le_add_right _ _)
    rw [clearSlot_beyond (by decide) hbeyond, hone] at hzero
    exact absurd hzero (by decide)
  | some w =>
    refine ⟨w, rfl, ?_⟩
    by_contra hlt
    have hclear := clearSlot_field (writeLE n.arena (j * fieldStride) (fieldSizeof t.tag)
      (256 ^ (fieldSizeof t.tag - 1))) 0 (show 0 < maxSlots by decide) hw
      (show top < fieldStride by omega)
    rw [Nat.zero_add] at hclear
    rw [hclear, fill_outside (by omega), hone] at hzero
    exact absurd hzero (by decide)

theorem SimBuffer.answers (h : SimBuffer b n) {ops : List SlotOp}
    (hops : ∀ op ∈ ops, op.Typed b.tags) :
    (traceOf Buffer.step b ops).2 = (traceOf NativeBuffer.step n ops).2 := by
  have hstep : ∀ (b' : Buffer) n' op, SimBuffer b' n' ∧ b'.tags = b.tags → op.Typed b.tags →
      (b'.step op).2 = (NativeBuffer.step n' op).2
        ∧ SimBuffer (b'.step op).1 (NativeBuffer.step n' op).1 ∧ (b'.step op).1.tags = b.tags := by
    rintro b' n' op ⟨hsim, htags⟩ hop
    obtain ⟨hans, hsim'⟩ := hsim.step (htags ▸ hop)
    exact ⟨hans, hsim', (b'.step_shape op).1.trans htags⟩
  exact (traceOf_simulation hstep ⟨h, rfl⟩ hops).1

theorem sum_le_of_le
    (hle : ∀ (j : Nat) x, l[j]? = some x → ∃ y, l'[j]? = some y ∧ x ≤ y) : l.sum ≤ l'.sum := by
  induction l generalizing l' with
  | nil => exact Nat.zero_le _
  | cons x l ih =>
    obtain ⟨y, hy, hxy⟩ := hle 0 x rfl
    cases l' with
    | nil => cases hy
    | cons =>
      cases hy
      have := ih fun j x hx => hle (j + 1) x hx
      rw [sum_cons, sum_cons]
      omega

/-- Widths that are never less and do not add up to more are the same. -/
theorem eq_of_le_of_sum_le (hpos : ∀ x ∈ l', 0 < x)
    (hle : ∀ (j : Nat) x, l[j]? = some x → ∃ y, l'[j]? = some y ∧ x ≤ y)
    (hsum : l'.sum ≤ l.sum) : l' = l := by
  induction l generalizing l' with
  | nil =>
    cases l' with
    | nil => rfl
    | cons y =>
      have := hpos y mem_cons_self
      rw [sum_cons, sum_nil] at hsum
      omega
  | cons x l ih =>
    obtain ⟨y, hy, hxy⟩ := hle 0 x rfl
    cases l' with
    | nil => cases hy
    | cons z l' =>
      cases hy
      have hle' : ∀ (j : Nat) x, l[j]? = some x → ∃ y, l'[j]? = some y ∧ x ≤ y :=
        fun j x hx => hle (j + 1) x hx
      have hge := sum_le_of_le hle'
      rw [sum_cons, sum_cons] at hsum
      have hhead : y = x := by omega
      rw [hhead, ih (fun v hv => hpos v (mem_cons_of_mem _ hv)) hle' (by omega)]

/-! ## What the first save gives away -/

theorem fits_of_limits {v : BlysBuffer} (hname : v.name.length ≤ nativeNameCap)
    (htags : v.tags.length ≤ nativeMaxFields) (hcount : v.count ≤ maxSlots) : v.Fits := by
  have hsum : (v.tags.map fun tag => v.count * fieldSizeof tag).sum
      ≤ (v.tags.map fun tag => v.count * fieldSizeof tag).length • (maxSlots * 8) := by
    refine sum_le_card_nsmul _ _ fun x hx => ?_
    obtain ⟨tag, -, rfl⟩ := List.mem_map.mp hx
    exact Nat.mul_le_mul hcount (fieldSizeof_le tag)
  rw [length_map, smul_eq_mul] at hsum
  have hlen := Nat.mul_le_mul_right (maxSlots * 8) htags
  have h1 : nativeNameCap = 63 := rfl
  have h2 : nativeMaxFields * (maxSlots * 8) = 65536 := rfl
  unfold Fits serializedSize
  omega

theorem readDecl_fits (L : CartLayouts) (d : BufferDecl) : (readDecl L d).view.Fits := by
  unfold readDecl
  split
  · exact fits_of_limits (by decide) (by decide) (by decide)
  · split
    · exact fits_of_limits (by decide) (by decide) (by decide)
    · refine fits_of_limits (length_take_le _ _) ?_ (Nat.min_le_right _ _)
      show (bytesTags L d).length ≤ nativeMaxFields
      unfold bytesTags
      split
      · exact Nat.zero_le _
      · exact length_take_le _ _

theorem initBuffer_inv {L : CartLayouts} {d : BufferDecl}
    (h : initBuffer L d = some b) : ∃ r, recordOf L d = some r ∧ r.tags ≠ [] := by
  unfold initBuffer at h
  split at h
  · cases h
  · rename_i r hr
    split at h
    · cases h
    · rename_i hlen
      exact ⟨r, hr, fun hnil => hlen (Or.inl (by rw [hnil]; rfl))⟩

/-! ## Runtimes that agree -/

section Necessary

variable {L : CartLayouts} {d : BufferDecl} {b : Buffer} {i : Nat}

/-- The declaration was read: otherwise there are slots where there should be none,
or no field arrays where there should be some. -/
theorem declaration_read (hinit : initBuffer L d = some b)
    (hfields : ∀ r, recordOf L d = some r → r.tags.length ≤ nativeMaxFields)
    (hfits : b.view.Fits) (hpay : b.view.payload = (readDecl L d).view.payload)
    (halloc : (b.step .alloc).2 = ((readDecl L d).step .alloc).2) :
    0 < d.soff ∧ d.count.isSome := by
  obtain ⟨r, hr, hne⟩ := initBuffer_inv hinit
  rw [initBuffer_eq hr hne (hfields r hr), some.injEq] at hinit
  by_contra hnot
  have hdefault : readDecl L d = default := by
    unfold readDecl
    split
    · rfl
    · rename_i hs
      cases hc : d.count with
      | none => rfl
      | some => exact absurd ⟨by omega, by rw [hc]; rfl⟩ hnot
  rw [hdefault] at hpay halloc
  rcases Nat.eq_zero_or_pos b.count with h0 | hpos
  · -- no slot on the emulated side, 128 on the native one
    have hnative : (default.step .alloc).2 = some 0 := by
      rw [step_alloc (by decide) rfl]
    have hhost : (b.step .alloc).2 = none := by
      simp only [Buffer.step, Buffer.allocSlot, h0, Nat.zero_min, range_zero, find?_nil]
    rw [hnative, hhost] at halloc
    cases halloc
  · have hlen := congrArg List.length hpay
    rw [length_payload hfits, length_payload (fits_of_limits (by decide) (by decide) (by decide)),
      payloadSize, u32_of_lt hfits] at hlen
    have hsum : 0 < (widths b.tags).sum := by
      rw [← hinit]
      cases htags : r.tags with
      | nil => exact absurd htags hne
      | cons tag tags =>
        have := fieldSizeof_pos tag
        show 0 < (fieldSizeof tag :: widths tags).sum
        rw [sum_cons]
        omega
    have hmul := Nat.mul_pos hpos hsum
    rw [← sum_mul_widths] at hmul
    have hempty : default.view.payloadSize = 276 := by decide
    rw [hempty] at hlen
    simp only [serializedSize, Buffer.view] at hlen
    omega

theorem initBuffer_fits (hlim : InNativeLimits L) (hd : d ∈ L.buffers.getD [])
    (hinit : initBuffer L d = some b) : b.view.Fits := by
  obtain ⟨r, hr, hne⟩ := initBuffer_inv hinit
  have hfields := hlim.fields d hd r hr
  rw [initBuffer_eq hr hne hfields, some.injEq] at hinit
  rw [← hinit]
  exact fits_of_limits (( List.takeWhile_prefix _).length_le.trans (hlim.names d hd)) hfields
    (hlim.counts d hd)

/-- The two saw the same buffer. -/
theorem readsAlike_of_same (hlim : InNativeLimits L) (hschema : SchemaTags L)
    (hroot : 0 < L.soff) (hd : (L.buffers.getD [])[i]? = some d)
    (hinit : initBuffer L d = some b) (hpay : b.view.payload = (readDecl L d).view.payload)
    (hans : ∀ ops : List SlotOp, (∀ op ∈ ops, Declared L ⟨i + 1, op⟩) →
      (traceOf Buffer.step b ops).2 = (traceOf NativeBuffer.step (readDecl L d) ops).2) :
    ReadsAlike L d := by
  have hmem := mem_of_getElem? hd
  obtain ⟨r, hr, hne⟩ := initBuffer_inv hinit
  have halloc : (b.step .alloc).2 = ((readDecl L d).step .alloc).2 := by
    have := hans [.alloc] fun op hop => by
      rw [mem_singleton.mp hop]
      exact ⟨d, Nat.succ_ne_zero i, hd, trivial⟩
    simpa only [traceOf, cons.injEq, and_true] using this
  have hfits := initBuffer_fits hlim hmem hinit
  obtain ⟨hs, hc⟩ := declaration_read hinit (hlim.fields d hmem) hfits hpay halloc
  obtain ⟨count, hcount⟩ := isSome_iff_exists.mp hc
  have hfields := hlim.fields d hmem r hr
  have hle := hlim.counts d hmem
  have hname := hlim.names d hmem
  rw [hcount, getD_some] at hle
  rw [initBuffer_eq hr hne hfields, hcount, some.injEq, getD_some] at hinit
  have hread := readDecl_eq (L := L) hs hcount hle hname
  obtain ⟨hnames, -⟩ := payload_inj hfits (readDecl_fits L d) hpay
  have hcstr : cstr (d.name.getD []) = d.name.getD [] := by
    rw [hread, ← hinit] at hnames
    exact hnames
  refine ⟨hroot, hs, hc, cstr_eq_self.mp hcstr, r, hr, hne, ?_⟩
  rcases Nat.eq_zero_or_pos count with h0 | hpos
  · exact Or.inl (by rw [hcount, h0])
  refine Or.inr (eq_of_le_of_sum_le ?_ ?_ ?_)
  · intro w hw
    obtain ⟨tag, -, rfl⟩ := List.mem_map.mp hw
    exact fieldSizeof_pos tag
  · -- no field is taken to be narrower, or a slot that comes back would show it
    intro j w hw
    rw [widths, getElem?_map] at hw
    obtain ⟨tag, htag, rfl⟩ := map_eq_some_iff.mp hw
    obtain ⟨t, rfl⟩ := hschema r (mem_of_find?_eq_some hr) tag (mem_of_getElem? htag)
    obtain ⟨hj, -⟩ := List.getElem?_eq_some_iff.mp htag
    have hj := hj.trans_le hfields
    have h64 : nativeMaxFields = 64 := rfl
    have hmod : ((i + 1) * 2 ^ 16 + (j + 1)) % 2 ^ 16 = j + 1 := by omega
    have hdecl : ∀ op ∈ probe t ((i + 1) * 2 ^ 16 + (j + 1)), Declared L ⟨i + 1, op⟩ := by
      intro op hop
      refine ⟨d, Nat.succ_ne_zero i, hd, ?_⟩
      simp only [probe, mem_cons, not_mem_nil, or_false] at hop
      rcases hop with rfl | rfl | rfl | rfl | rfl
      · trivial
      · exact ⟨r, j, hr, htag, rfl⟩
      · trivial
      · trivial
      · exact ⟨r, j, hr, htag, rfl⟩
    have hsame := hans _ hdecl
    -- a native buffer with the right fields stands for the emulated one
    let ideal : NativeBuffer := { readDecl L d with tags := r.tags }
    have hsim : SimBuffer b ideal := by
      rw [← hinit]
      simp only [ideal, hread]
      exact ⟨rfl, hle, hcstr.symm, rfl, rfl, hfields, Or.inr rfl, fun _ _ _ _ _ => rfl⟩
    have htyped : ∀ op ∈ probe t ((i + 1) * 2 ^ 16 + (j + 1)), op.Typed b.tags := fun op hop =>
      (hdecl op hop).typed hlim hd ⟨by rw [hr, ← hinit]; rfl, by rw [← hinit]⟩
    rw [hsim.answers htyped] at hsame
    obtain ⟨x, hx, hx0⟩ := probe_native (n := ideal) (by simp [ideal, hread]; rfl)
      (by simpa [ideal, hread] using hpos) hj hmod
    obtain ⟨y, hy, hy0⟩ := probe_native (n := readDecl L d) (by rw [hread]; rfl)
      (by rw [hread]; exact hpos) hj hmod
    rw [hx, hy] at hsame
    have hxy : x = y := by simpa using hsame
    have hzero := hx0.mpr (afterProbe_eq_zero (getElem?_widths htag))
    have hwidth := width_le_of_afterProbe (hy0.mp (hxy ▸ hzero))
    rwa [hread] at hwidth
  · have hlen := congrArg List.length hpay
    rw [length_payload hfits, length_payload (readDecl_fits L d),
      payloadSize, payloadSize, u32_of_lt hfits,
      u32_of_lt (readDecl_fits L d), hread, ← hinit] at hlen
    simp only [serializedSize, Buffer.view, view, sum_mul_widths, hcstr] at hlen
    exact Nat.le_of_mul_le_mul_left (by omega : count * _ ≤ count * _) hpos

theorem stateCtxInit_fits (hlim : InNativeLimits L) :
    ∀ v ∈ (stateCtxInit L).map Buffer.view, v.Fits := by
  intro v hv
  obtain ⟨b, hb, rfl⟩ := List.mem_map.mp hv
  rw [stateCtxInit_eq hlim] at hb
  cases hbs : initBuffers L (L.buffers.getD []) with
  | none =>
    rw [hbs] at hb
    cases hb
  | some =>
    rw [hbs] at hb
    obtain ⟨i, hi⟩ := mem_iff_getElem?.mp hb
    obtain ⟨d, hd, hinit⟩ := forall₂_getElem? (initBuffers_eq_some.mp hbs).flip hi
    exact initBuffer_fits hlim (mem_of_getElem? hd) hinit

variable {ds : List BufferDecl}

section

variable (hlim : InNativeLimits L)
include hlim

theorem nativeViews_eq (hb : L.buffers = some ds) :
    (loadCartBufCounts L).bufs.take (loadCartBufCounts L).nBuffers
      = if L.soff ≤ 0 then [] else ds.map (readDecl L) := by
  by_cases hs : L.soff ≤ 0
  · rw [if_pos hs, loadCartBufCounts, if_pos hs]
    rfl
  · have hlen : ds.length ≤ nativeMaxBuf := by
      have := hlim.buffers
      rwa [hb] at this
    rw [if_neg hs, loadCartBufCounts_eq (by omega) hb hlen]
    exact take_left' (length_map _)

/-- The first save of runtimes that agree: equal hashes, and payloads one by one. -/
theorem BuffersAgree.save (h : BuffersAgree L) (hb : L.buffers = some ds) :
    saveHash (stateCtxInit L) = (loadCartBufCounts L).schemaHash
      ∧ List.Forall₂ (fun (b : Buffer) (n : NativeBuffer) => b.view.payload = n.view.payload)
        (stateCtxInit L) (if L.soff ≤ 0 then [] else ds.map (readDecl L)) := by
  obtain ⟨-, hsave⟩ := h 0 [] fun c hc => by cases hc
  obtain ⟨hhash, hsec⟩ := blysWrite_inj hsave
  refine ⟨hhash, ?_⟩
  have hnative : ∀ v ∈ ((loadCartBufCounts L).bufs.take
      (loadCartBufCounts L).nBuffers).map view, v.Fits := by
    intro v hv
    obtain ⟨n, hn, rfl⟩ := List.mem_map.mp hv
    rw [nativeViews_eq hlim hb] at hn
    split at hn
    · cases hn
    · obtain ⟨d, -, rfl⟩ := List.mem_map.mp hn
      exact readDecl_fits L d
  have hall := blysSections_inj (stateCtxInit_fits hlim) hnative hsec
  rwa [forall₂_map_left_iff, forall₂_map_right_iff, nativeViews_eq hlim hb] at hall

/-- The emulated side has got through all declarations. -/
theorem BuffersAgree.init (h : BuffersAgree L)
    (hb : L.buffers = some ds) : ∃ bs, initBuffers L ds = some bs := by
  cases hbs : initBuffers L ds with
  | some bs => exact ⟨bs, rfl⟩
  | none =>
    have hempty : stateCtxInit L = [] := by
      rw [stateCtxInit_eq hlim, hb, getD_some, hbs]
      rfl
    obtain ⟨-, hpay⟩ := h.save hlim hb
    rw [hempty, forall₂_nil_left_iff] at hpay
    cases ds with
    | nil => cases hbs
    | cons d =>
      have hs : L.soff ≤ 0 := by
        by_contra hs
        rw [if_neg hs] at hpay
        cases hpay
      -- nothing was read natively: the first buffer has slots there, and none here
      have hdecl : Declared L ⟨1, .alloc⟩ := ⟨d, one_ne_zero, by rw [hb]; rfl, trivial⟩
      obtain ⟨hans, -⟩ := h 0 [⟨1, .alloc⟩] fun c hc => by rwa [mem_singleton.mp hc]
      rw [hempty] at hans
      have hnative : (traceOf nativeStep (loadCartBufCounts L) [⟨1, .alloc⟩]).2 = [some 0] := by
        rw [loadCartBufCounts, if_pos hs]
        decide
      rw [hnative] at hans
      exact absurd hans (by decide)

theorem BuffersAgree.compatible (hschema : SchemaTags L) (h : BuffersAgree L) : Compatible L := by
  cases hb : L.buffers with
  | none =>
    refine ⟨fun d hd => ?_, fun hb' => ?_⟩
    · rw [hb] at hd
      cases hd
    · rw [hb] at hb'
      cases hb'
  | some ds =>
    obtain ⟨hhash, hpay⟩ := h.save hlim hb
    obtain ⟨bs, hbs⟩ := h.init hlim hb
    have hstate : stateCtxInit L = bs := by
      rw [stateCtxInit_eq hlim, hb, getD_some, hbs, getD_some]
    have hinits := initBuffers_eq_some.mp hbs
    have hlen : ds.length ≤ nativeMaxBuf := by
      have := hlim.buffers
      rwa [hb] at this
    rw [hstate] at hhash hpay
    constructor
    · intro d hd
      rw [hb, getD_some] at hd
      have hroot : 0 < L.soff := by
        by_contra hs
        rw [if_pos (by omega), forall₂_nil_right_iff] at hpay
        rw [hpay, forall₂_nil_right_iff] at hinits
        rw [hinits] at hd
        cases hd
      rw [if_neg (by omega)] at hpay
      obtain ⟨i, hi⟩ := mem_iff_getElem?.mp hd
      obtain ⟨b, hbi, hinit⟩ := forall₂_getElem? hinits hi
      obtain ⟨n, hn, hpayi⟩ := forall₂_getElem? hpay hbi
      rw [getElem?_map, hi, map_some, some.injEq] at hn
      subst hn
      have hdi : (L.buffers.getD [])[i]? = some d := by rwa [hb, getD_some]
      refine readsAlike_of_same hlim hschema hroot hdi hinit hpayi fun ops hops => ?_
      obtain ⟨hans, -⟩ := h 0 (ops.map (BufCall.mk (i + 1))) fun c hc => by
        obtain ⟨op, hop, rfl⟩ := List.mem_map.mp hc
        exact hops op hop
      have hbufs : (loadCartBufCounts L).bufs[i]? = some (readDecl L d) := by
        rw [loadCartBufCounts_eq hroot hb hlen]
        refine getElem?_append_left ?_ |>.trans ?_
        · rw [length_map]
          exact (List.getElem?_eq_some_iff.mp hi).1
        · rw [getElem?_map, hi, map_some]
      rwa [stateTrace_one (hstate ▸ hbi), nativeTrace_one hbufs] at hans
    · intro hb'
      rw [hb] at hb'
      cases hb'
      by_cases hs : L.soff ≤ 0
      · exact Or.inl hs
      · right
        rw [loadCartBufCounts_eq (by omega) hb hlen] at hhash
        cases hinits
        exact hhash.symm

end

end Necessary

/-- Two buffers of two slots with one `i32` each. A builder that writes each kind of
vtable once leaves the second declaration at the given distance from it. -/
def twoBuffers (second : Int) : CartLayouts :=
  ⟨8, [⟨[0x70], [4]⟩], some [⟨12, some [0x61], [0x70], some 2⟩,
    ⟨second, some [0x62], [0x70], some 2⟩], 7⟩

theorem twoBuffers_limits (second : Int) : InNativeLimits (twoBuffers second) := by
  have hrec : ∀ d r, recordOf (twoBuffers second) d = some r → r.tags.length ≤ nativeMaxFields := by
    intro d r hr
    have hmem := mem_of_find?_eq_some hr
    rw [mem_singleton.mp hmem]
    decide
  refine ⟨by simp [twoBuffers, nativeMaxBuf], fun d _ r hr => hrec d r hr, ?_, ?_⟩
  · simp [twoBuffers, maxSlots]
  · simp [twoBuffers, nativeNameCap]

end Blyt
