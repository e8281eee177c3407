import Blyt.StateSound

/-!
# Snapshots of the state

The functions of `state_buffer.c` on a whole context, with `blyt_state_ctx_snapshot`,
`blyt_state_ctx_restore_snapshot` and `blyt_state_ctx_zero_data`. A slot is cleared when it
is freed, not when it is allocated; that a fresh slot reads 0 is an invariant of the
context and of all snapshots taken from it (`StateCtx.Inv`), and with it restoring a
snapshot brings back the state it was taken of (`fresh_and_restored`).
-/

namespace Blyt

open List Option FieldType Buffer

/-! ## Snapshots -/

/-- One buffer in a `blyt_state_snapshot`: an array of its own for each field. -/
structure SnapBuffer where
  count : Nat
  tags : List Nat
  data : List (List UInt8)
  used : Nat → Bool
  gens : Nat → Nat

def snapshotBuffer (b : Buffer) : SnapBuffer where
  count := b.count
  tags := b.tags
  data := b.tags.mapIdx fun fi tag => (range (b.count * fieldSizeof tag)).map (b.data fi)
  used := b.used
  gens := b.gens

/-- `blyt_state_ctx_snapshot`. -/
def stateCtxSnapshot (s : List Buffer) : List SnapBuffer := s.map snapshotBuffer

/-- One round of `blyt_state_ctx_restore_snapshot`. The bytes to copy are counted by the
context's own tags; `junk` is what lies behind the end of an array of the snapshot. -/
def restoreBuffer (junk : ByteMem) (b : Buffer) (q : SnapBuffer) : Buffer :=
  if q.tags.length ≠ b.tags.length ∨ q.count ≠ b.count then b
  else
    { b with
      used := q.used
      gens := q.gens
      data := fun fi =>
        match b.tags[fi]? with
        | none => b.data fi
        | some tag => fun x =>
          if x < b.count * fieldSizeof tag then ((q.data.getD fi [])[x]?).getD (junk x)
          else b.data fi x }

/-- `blyt_state_ctx_restore_snapshot`. -/
def stateCtxRestoreSnapshot (junk : ByteMem) (s : List Buffer) (snap : List SnapBuffer) :
    List Buffer :=
  if snap.length ≠ s.length then s else zipWith (restoreBuffer junk) s snap

def zeroBuffer (b : Buffer) : Buffer :=
  { b with
    used := fun _ => false
    gens := fun _ => 1
    data := fun fi =>
      match b.tags[fi]? with
      | none => b.data fi
      | some tag => fill (b.data fi) 0 (b.count * fieldSizeof tag) 0 }

/-- `blyt_state_ctx_zero_data`. -/
def stateCtxZeroData (s : List Buffer) : List Buffer := s.map zeroBuffer

/-! ## Calls on a context -/

inductive StateOp where
  | get (buf : Nat) (slot : Int) (field : Nat)
  | get64 (buf : Nat) (slot : Int) (field : Nat)
  | set (buf : Nat) (slot : Int) (field v : Nat)
  | set64 (buf : Nat) (slot : Int) (field v : Nat)
  | alloc (buf : Nat)
  | free (buf : Nat) (slot : Int)
  | zeroData
  | snapshot
  /-- restore the snapshot taken as number `k` -/
  | restore (k : Nat)
  deriving DecidableEq, Repr

/-- A context, and the snapshots that were taken of it. -/
structure StateCtx where
  bufs : List Buffer
  snaps : List (List SnapBuffer)

namespace StateCtx

def setBuffer (c : StateCtx) (buf : Nat) (b : Buffer) : StateCtx :=
  { c with bufs := c.bufs.set (buf - 1) b }

/-- A function on the buffer with this id; `none` is the return of -1. -/
def onBuffer (c : StateCtx) (buf : Nat) (f : Buffer → Option (Buffer × Nat)) :
    StateCtx × Option Nat :=
  match findBuffer c.bufs buf with
  | none => (c, none)
  | some b =>
    match f b with
    | none => (c, none)
    | some (b', r) => (c.setBuffer buf b', some r)

def step (junk : ByteMem) (c : StateCtx) : StateOp → StateCtx × Option Nat
  | .get buf slot field => c.onBuffer buf fun b => (b.get slot field).map (b, ·)
  | .get64 buf slot field => c.onBuffer buf fun b => (b.get64 slot field).map (b, ·)
  | .set buf slot field v => c.onBuffer buf fun b => (b.set slot field v).map (·, 0)
  | .set64 buf slot field v => c.onBuffer buf fun b => (b.set64 slot field v).map (·, 0)
  | .alloc buf => c.onBuffer buf Buffer.allocSlot
  | .free buf slot => c.onBuffer buf fun b => (b.freeSlot slot).map (·, 0)
  | .zeroData => ({ c with bufs := stateCtxZeroData c.bufs }, some 0)
  | .snapshot => ({ c with snaps := c.snaps ++ [stateCtxSnapshot c.bufs] }, some 0)
  | .restore k =>
    match c.snaps[k]? with
    | none => (c, none)
    | some snap => ({ c with bufs := stateCtxRestoreSnapshot junk c.bufs snap }, some 0)

def start (L : CartLayouts) : StateCtx := ⟨stateCtxInit L, []⟩

def run (junk : ByteMem) (c : StateCtx) (ops : List StateOp) : StateCtx :=
  (traceOf (step junk) c ops).1

end StateCtx

/-! ## What a call does to its buffer -/

namespace Buffer

variable {b b' : Buffer} {slot : Int} {field v : Nat}

theorem set_eq_some (h : b.set slot field v = some b') :
    ∃ tag, b.access slot field = some tag ∧ tag ≠ f64.tag
      ∧ b' = b.store slot field (fieldSizeof tag) (canonBits tag v) := by
  unfold set at h
  cases hacc : b.access slot field with
  | none =>
    rw [hacc] at h
    cases h
  | some tag =>
    simp only [hacc] at h
    split at h
    · cases h
    · rename_i hne
      refine ⟨tag, rfl, hne, ?_⟩
      rw [canonBits, if_neg hne]
      exact (some.inj h).symm

theorem set64_eq_some (h : b.set64 slot field v = some b') :
    b.access slot field = some f64.tag
      ∧ b' = b.store slot field (fieldSizeof f64.tag) (canonBits f64.tag v) := by
  unfold set64 at h
  cases hacc : b.access slot field with
  | none =>
    rw [hacc] at h
    cases h
  | some =>
    simp only [hacc] at h
    split at h
    · cases h
    · rename_i htag
      obtain rfl := not_not.mp htag
      exact ⟨rfl, (some.inj h).symm⟩

theorem allocSlot_eq_some {s : Nat} (h : b.allocSlot = some (b', s)) :
    s < b.count ∧ s < maxSlots ∧ b.used s = false
      ∧ b' = { b with used := Function.update b.used s true } := by
  unfold allocSlot at h
  split at h
  · cases h
  · rename_i s' hf
    cases h
    have hmem := mem_range.mp (mem_of_find?_eq_some hf)
    have hfree : b.used s = false := by simpa using find?_some hf
    exact ⟨by omega, by omega, hfree, rfl⟩

/-- The layout of a buffer, as far as its memory depends on it. -/
def shape (b : Buffer) : Nat × List Nat := (b.count, b.tags)

theorem freeSlot_eq_some (h : b.freeSlot slot = some b') :
    b.allocated slot = true ∧ b'.shape = b.shape := by
  unfold freeSlot at h
  split at h
  · cases h
  · rename_i ha
    cases h
    exact ⟨by simpa using ha, rfl⟩

end Buffer

/-! ## Restoring -/

/-- Two buffers with the same layout, slots and generations, and the same bytes in every
field array. -/
structure Buffer.Same (b b' : Buffer) : Prop where
  shape : b'.shape = b.shape
  used : b'.used = b.used
  gens : b'.gens = b.gens
  data : ∀ fi tag, b.tags[fi]? = some tag → ∀ x < b.count * fieldSizeof tag,
    b'.data fi x = b.data fi x

variable (junk : ByteMem)

section Restore

variable {b b₀ : Buffer}

theorem Buffer.Same.count (h : b₀.Same b) : b.count = b₀.count := congrArg Prod.fst h.shape

theorem Buffer.Same.tags (h : b₀.Same b) : b.tags = b₀.tags := congrArg Prod.snd h.shape

theorem Buffer.Sound.same (h : b₀.Sound) (hs : b₀.Same b) : b.Sound :=
  h.congr hs.count hs.tags (fun _ _ => by rw [hs.gens]) (fun _ _ => by rw [hs.used]) hs.data

/-- **A buffer of the same layout gets all of the snapshot back.** -/
theorem restoreBuffer_same (h : b.shape = b₀.shape) :
    b₀.Same (restoreBuffer junk b (snapshotBuffer b₀)) := by
  have hcount : b.count = b₀.count := congrArg Prod.fst h
  have htags : b.tags = b₀.tags := congrArg Prod.snd h
  have heq : ¬ ((snapshotBuffer b₀).tags.length ≠ b.tags.length
      ∨ (snapshotBuffer b₀).count ≠ b.count) := by
    rintro (hne | hne)
    · exact hne (congrArg List.length htags.symm)
    · exact hne hcount.symm
  unfold restoreBuffer
  rw [if_neg heq]
  refine ⟨h, rfl, rfl, fun fi tag htag x hx => ?_⟩
  have harray : (snapshotBuffer b₀).data.getD fi []
      = (range (b₀.count * fieldSizeof tag)).map (b₀.data fi) := by
    rw [getD_eq_getElem?_getD, snapshotBuffer, getElem?_mapIdx, htag]
    rfl
  simp only [htags, htag, hcount, hx, if_true, harray]
  rw [getElem?_map, getElem?_range hx]
  rfl

theorem zeroBuffer_sound (b : Buffer) : (zeroBuffer b).Sound := by
  have hzero : ∀ fi tag, b.tags[fi]? = some tag → ∀ x < b.count * fieldSizeof tag,
      (zeroBuffer b).data fi x = 0 := by
    intro fi tag htag x hx
    simp only [zeroBuffer, htag]
    exact if_pos ⟨Nat.zero_le _, by omega⟩
  refine ⟨fun s _ => ⟨le_rfl, show 1 ≤ 65535 by decide⟩, fun s hs _ fi tag htag k hk => ?_,
    fun s _ _ => rfl,
    fun fi tag htag s hs => ?_⟩
  · exact hzero fi tag htag _ (slot_byte_lt hs hk)
  · rw [element, readLE_eq_zero.mpr fun k hk => hzero fi tag htag _ (slot_byte_lt hs hk)]
    exact canonical_zero tag

end Restore

def shapes (s : List Buffer) : List (Nat × List Nat) := s.map Buffer.shape

variable {s : List Buffer}

theorem shapes_set {i : Nat} {b b' : Buffer} (hb : s[i]? = some b)
    (h : b'.shape = b.shape) : shapes (s.set i b') = shapes s := by
  refine ext_getElem? fun j => ?_
  rw [shapes, shapes, getElem?_map, getElem?_map, getElem?_set]
  by_cases hj : i = j
  · subst hj
    rw [if_pos rfl, if_pos (List.getElem?_eq_some_iff.mp hb).1, hb, map_some, map_some, h]
  · rw [if_neg hj]

/-- A context of the same layout gets all of the snapshot back. -/
theorem restoreSnapshot_same {s₀ : List Buffer} (h : shapes s = shapes s₀) :
    List.Forall₂ Same s₀ (stateCtxRestoreSnapshot junk s (stateCtxSnapshot s₀)) := by
  have hlen : s.length = s₀.length := by
    simpa [shapes] using congrArg List.length h
  unfold stateCtxRestoreSnapshot
  rw [if_neg (by rw [stateCtxSnapshot, length_map]; exact fun hne => hne hlen.symm)]
  induction s generalizing s₀ with
  | nil =>
    cases s₀ with
    | nil => exact .nil
    | cons => cases hlen
  | cons b s ih =>
    cases s₀ with
    | nil => cases hlen
    | cons =>
      obtain ⟨hb, hs⟩ := cons.inj h
      exact .cons (restoreBuffer_same junk hb) (ih hs (Nat.succ.inj hlen))

/-! ## Invariants -/

/-- A property of buffers that every call keeps. -/
structure KeptByCalls (P : Buffer → Prop) : Prop where
  store : ∀ b slot field tag v, P b → b.access slot field = some tag →
    P (b.store slot field (fieldSizeof tag) (canonBits tag v))
  alloc : ∀ b s, P b → s < b.count → s < maxSlots →
    P { b with used := Function.update b.used s true }
  free : ∀ b slot b', P b → b.allocated slot = true → b.freeSlot slot = some b' → P b'
  zero : ∀ b, P b → P (zeroBuffer b)
  same : ∀ b b', P b → b.Same b' → P b'

theorem sound_keptByCalls : KeptByCalls Sound where
  store _ _ _ _ v h hacc := h.store v hacc
  alloc _ _ h hs hmax := h.alloc hs hmax
  free _ _ _ h ha hfree := h.free ha hfree
  zero b _ := zeroBuffer_sound b
  same _ _ h hs := h.same hs

section Kept

variable {P : Buffer → Prop}

/-- A function on a buffer that keeps its layout and the property. -/
def Keeps (P : Buffer → Prop) (f : Buffer → Option (Buffer × Nat)) : Prop :=
  ∀ b b' r, f b = some (b', r) → b'.shape = b.shape ∧ (P b → P b')

theorem keeps_read (g : Buffer → Option Nat) : Keeps P fun b => (g b).map (b, ·) := by
  intro b b' r h
  obtain ⟨_, -, hr⟩ := map_eq_some_iff.mp h
  cases hr
  exact ⟨rfl, id⟩

section

variable (hP : KeptByCalls P)
include hP

theorem keeps_set (slot : Int) (field v : Nat) :
    Keeps P fun b => (b.set slot field v).map (·, 0) := by
  intro b b' r h
  obtain ⟨b1, hset, hr⟩ := map_eq_some_iff.mp h
  cases hr
  obtain ⟨tag, hacc, -, rfl⟩ := Buffer.set_eq_some hset
  exact ⟨rfl, fun hb => hP.store b slot field tag v hb hacc⟩

theorem keeps_set64 (slot : Int) (field v : Nat) :
    Keeps P fun b => (b.set64 slot field v).map (·, 0) := by
  intro b b' r h
  obtain ⟨b1, hset, hr⟩ := map_eq_some_iff.mp h
  cases hr
  obtain ⟨hacc, rfl⟩ := Buffer.set64_eq_some hset
  exact ⟨rfl, fun hb => hP.store b slot field _ v hb hacc⟩

theorem keeps_alloc : Keeps P Buffer.allocSlot := by
  intro b b' s h
  obtain ⟨hs, hmax, -, rfl⟩ := Buffer.allocSlot_eq_some h
  exact ⟨rfl, fun hb => hP.alloc b s hb hs hmax⟩

theorem keeps_free (slot : Int) : Keeps P fun b => (b.freeSlot slot).map (·, 0) := by
  intro b b' r h
  obtain ⟨b1, hfree, hr⟩ := map_eq_some_iff.mp h
  cases hr
  obtain ⟨ha, hshape⟩ := Buffer.freeSlot_eq_some hfree
  exact ⟨hshape, fun hb => hP.free b slot b' hb ha hfree⟩

theorem KeptByCalls.restored {s s' : List Buffer} (h : List.Forall₂ Same s s') (hs : ∀ b ∈ s, P b) :
    (∀ b ∈ s', P b) ∧ shapes s' = shapes s := by
  induction h with
  | nil => exact ⟨hs, rfl⟩
  | cons hb _ ih =>
    obtain ⟨hhead, htail⟩ := forall_mem_cons.mp hs
    obtain ⟨hall, hshapes⟩ := ih htail
    refine ⟨forall_mem_cons.mpr ⟨hP.same _ _ hhead hb, hall⟩, ?_⟩
    unfold shapes at hshapes ⊢
    rw [map_cons, map_cons, hb.shape, hshapes]

end

end Kept

/-! ## Runs -/

/-- The property holds of the buffers, and every snapshot is one of such buffers, of the same
layout. -/
structure StateCtx.Inv (P : Buffer → Prop) (c : StateCtx) : Prop where
  bufs : ∀ b ∈ c.bufs, P b
  snaps : ∀ snap ∈ c.snaps, ∃ s₀, (∀ b ∈ s₀, P b) ∧ shapes s₀ = shapes c.bufs
    ∧ snap = stateCtxSnapshot s₀

namespace StateCtx

variable {c : StateCtx} {P : Buffer → Prop}

/-- A call on one buffer is refused, or puts another one in its place. -/
theorem onBuffer_cases (c : StateCtx) (buf : Nat) (f : Buffer → Option (Buffer × Nat)) :
    c.onBuffer buf f = (c, none)
      ∨ ∃ b b' r, findBuffer c.bufs buf = some b ∧ f b = some (b', r)
        ∧ c.onBuffer buf f = (c.setBuffer buf b', some r) := by
  unfold onBuffer
  cases hb : findBuffer c.bufs buf with
  | none => exact .inl rfl
  | some b =>
    simp only
    cases hf : f b with
    | none => exact .inl rfl
    | some r => exact .inr ⟨b, r.1, r.2, rfl, hf, rfl⟩

variable {buf : Nat} {b : Buffer} {L : CartLayouts}

theorem getElem?_of_findBuffer {s : List Buffer}
    (h : findBuffer s buf = some b) : buf ≠ 0 ∧ s[buf - 1]? = some b := by
  unfold findBuffer at h
  split at h
  · cases h
  · rename_i h0
    exact ⟨h0, h⟩

/-- What every call keeps: the layout, the snapshots taken before, and the invariant. -/
structure Next (P : Buffer → Prop) (c c' : StateCtx) : Prop where
  shapes : shapes c'.bufs = shapes c.bufs
  snaps : c.snaps <+: c'.snaps
  inv : c.Inv P → c'.Inv P

theorem Next.refl (c : StateCtx) : Next P c c := ⟨rfl, prefix_rfl, id⟩

theorem Next.trans {c₁ c₂ c₃ : StateCtx} (h : Next P c₁ c₂) (h' : Next P c₂ c₃) : Next P c₁ c₃ :=
  ⟨h'.shapes.trans h.shapes, h.snaps.trans h'.snaps, fun hi => h'.inv (h.inv hi)⟩

theorem next_of_bufs {s' : List Buffer} (hshapes : Blyt.shapes s' = Blyt.shapes c.bufs)
    (hbufs : c.Inv P → ∀ b ∈ s', P b) : Next P c { c with bufs := s' } := by
  refine ⟨hshapes, prefix_rfl, fun h => ⟨hbufs h, fun snap hsnap => ?_⟩⟩
  obtain ⟨s0, hs0, hsh, rfl⟩ := h.snaps snap hsnap
  exact ⟨s0, hs0, hsh.trans hshapes.symm, rfl⟩

theorem next_onBuffer (c : StateCtx) (buf : Nat) {f : Buffer → Option (Buffer × Nat)}
    (hf : Keeps P f) : Next P c (c.onBuffer buf f).1 := by
  rcases c.onBuffer_cases buf f with heq | ⟨b, b', r, hb, hfb, heq⟩
  · rw [heq]
    exact .refl c
  · rw [heq]
    obtain ⟨hshape, hkept⟩ := hf b b' r hfb
    obtain ⟨-, hat⟩ := getElem?_of_findBuffer hb
    refine next_of_bufs (shapes_set hat hshape) fun h x hx => ?_
    rcases mem_or_eq_of_mem_set hx with hx | rfl
    · exact h.bufs x hx
    · exact hkept (h.bufs b (mem_of_getElem? hat))

/-- **Step lemma.** -/
theorem next_step (hP : KeptByCalls P) (junk : ByteMem) (h : c.Inv P) (op : StateOp) :
    Next P c (c.step junk op).1 := by
  cases op with
  | get buf slot field | get64 buf slot field => exact c.next_onBuffer buf (keeps_read _)
  | set buf slot field v => exact c.next_onBuffer buf (keeps_set hP slot field v)
  | set64 buf slot field v => exact c.next_onBuffer buf (keeps_set64 hP slot field v)
  | alloc buf => exact c.next_onBuffer buf (keeps_alloc hP)
  | free buf slot => exact c.next_onBuffer buf (keeps_free hP slot)
  | zeroData =>
    refine next_of_bufs ?_ fun h b hb => ?_
    · rw [Blyt.shapes, stateCtxZeroData, List.map_map]
      rfl
    · obtain ⟨b₀, hb0, rfl⟩ := List.mem_map.mp hb
      exact hP.zero b₀ (h.bufs b₀ hb0)
  | snapshot =>
    refine ⟨rfl, prefix_append _ _, fun h => ⟨h.bufs, forall_mem_append.mpr ⟨h.snaps, ?_⟩⟩⟩
    exact forall_mem_singleton.mpr ⟨c.bufs, h.bufs, rfl, rfl⟩
  | restore =>
    unfold step
    simp only
    split
    · exact .refl c
    · rename_i snap hsnap
      obtain ⟨s0, hs0, hsh, rfl⟩ := h.snaps snap (mem_of_getElem? hsnap)
      obtain ⟨hall, hshapes⟩ := hP.restored (restoreSnapshot_same junk hsh.symm) hs0
      exact next_of_bufs (hshapes.trans hsh) fun _ => hall

/-- **Run lemma.** -/
theorem next_run (hP : KeptByCalls P) (junk : ByteMem) (h : c.Inv P) (ops : List StateOp) :
    Next P c (c.run junk ops) := by
  induction ops generalizing c with
  | nil => exact .refl c
  | cons op ops ih =>
    have hstep := next_step hP junk h op
    exact hstep.trans (ih (hstep.inv h))

/-- A slot that was free reads 0 once it is allocated. -/
theorem alloc_reads_zero (h : c.Inv Sound) {slot : Nat}
    (hb : findBuffer c.bufs buf = some b) (hslot : (c.step junk (.alloc buf)).2 = some slot)
    {field tag : Nat} (h0 : field ≠ 0) (htag : b.tags[field - 1]? = some tag) :
    ((c.step junk (.alloc buf)).1.step junk
        (if tag = f64.tag then .get64 buf slot field else .get buf slot field)).2
      = some 0 := by
  obtain ⟨hbuf, hat⟩ := getElem?_of_findBuffer hb
  have hsound := h.bufs b (mem_of_getElem? hat)
  rcases c.onBuffer_cases buf Buffer.allocSlot with heq | ⟨b1, b', r, hb1, halloc, heq⟩
  · rw [step, heq] at hslot
    cases hslot
  obtain rfl := some.inj (hb.symm.trans hb1)
  obtain ⟨hlt, hmax, hfree, rfl⟩ := Buffer.allocSlot_eq_some halloc
  obtain rfl : r = slot := by
    rw [step, heq] at hslot
    exact some.inj hslot
  have hfind : findBuffer (c.step junk (.alloc buf)).1.bufs buf
      = some { b with used := Function.update b.used r true } := by
    rw [step, heq, setBuffer, findBuffer, if_neg hbuf,
      getElem?_set_self (List.getElem?_eq_some_iff.mp hat).1]
  have hacc : access { b with used := Function.update b.used r true } r field = some tag := by
    unfold access
    rw [if_neg, if_neg h0]
    · exact htag
    · rw [Bool.not_eq_false, Buffer.allocated_natCast]
      exact ⟨hlt, hmax, Function.update_self _ _ _⟩
  -- it was not allocated before, so its bytes are 0
  have hzero : readLE (b.data (field - 1)) (r * fieldSizeof tag) (fieldSizeof tag) = 0 := by
    refine readLE_eq_zero.mpr fun k hk => hsound.zero r hlt ?_ _ tag htag k hk
    rw [Bool.eq_false_iff]
    intro ha
    rw [((Buffer.allocated_natCast b r).mp ha).2.2] at hfree
    cases hfree
  by_cases h64 : tag = f64.tag
  · subst h64
    rw [if_pos rfl, step, onBuffer, hfind]
    simp only [Buffer.get64, hacc]
    exact congrArg some hzero
  · rw [if_neg h64, step, onBuffer, hfind]
    simp only [Buffer.get, hacc, if_neg h64]
    exact congrArg some hzero

theorem inv_start (h : ∀ b ∈ stateCtxInit L, P b) : (start L).Inv P :=
  ⟨h, fun _ hs => absurd hs not_mem_nil⟩

/-- An invariant that holds at the start holds whatever is done with the context. -/
theorem inv_run (hP : KeptByCalls P) (junk : ByteMem)
    (h : ∀ b ∈ stateCtxInit L, P b) (ops : List StateOp) : ((start L).run junk ops).Inv P :=
  (next_run hP junk (inv_start h) ops).inv (inv_start h)

end StateCtx

/-- **Fresh slots read as zero, and snapshots restore.** Whatever is done with a context, the
bytes of every slot that is not allocated are 0, a slot reads 0 in all fields when it is
allocated, and a snapshot brings back every byte, slot and generation, whatever was done
since. -/
theorem fresh_and_restored (junk : ByteMem) (L : CartLayouts) (before between : List StateOp) :
    let c := (StateCtx.start L).run junk before
    (∀ b ∈ c.bufs, ∀ s < b.count, b.allocated s = false → ∀ fi tag, b.tags[fi]? = some tag →
        ∀ k < fieldSizeof tag, b.data fi (s * fieldSizeof tag + k) = 0)
      ∧ (∀ buf slot b, findBuffer c.bufs buf = some b →
        (c.step junk (.alloc buf)).2 = some slot → ∀ field tag, field ≠ 0 →
          b.tags[field - 1]? = some tag →
            ((c.step junk (.alloc buf)).1.step junk
              (if tag = f64.tag then .get64 buf slot field
                else .get buf slot field)).2 = some 0)
      ∧ List.Forall₂ Same c.bufs
        ((((c.step junk .snapshot).1.run junk between).step junk
          (.restore c.snaps.length)).1.bufs) := by
  intro c
  have hinv := StateCtx.inv_run sound_keptByCalls junk (stateSound_init L) before
  have hsnapped := StateCtx.next_step sound_keptByCalls junk hinv .snapshot
  have hlater := StateCtx.next_run sound_keptByCalls junk (hsnapped.inv hinv) between
  refine ⟨fun b hb => (hinv.bufs b hb).zero, fun buf slot b hb hslot field tag h0 htag =>
    StateCtx.alloc_reads_zero junk hinv hb hslot h0 htag, ?_⟩
  generalize (c.step junk .snapshot).1.run junk between = c' at hlater
  -- the snapshot is still where it was put
  have hat : c'.snaps[c.snaps.length]? = some (stateCtxSnapshot c.bufs) := by
    obtain ⟨more, hmore⟩ := hlater.snaps
    rw [← hmore]
    show (c.snaps ++ [stateCtxSnapshot c.bufs] ++ more)[c.snaps.length]? = _
    rw [append_assoc, getElem?_append_right le_rfl, Nat.sub_self]
    rfl
  have hshapes := hlater.shapes.trans hsnapped.shapes
  simp only [StateCtx.step, hat]
  exact restoreSnapshot_same junk hshapes

/-- **No NaN but the canonical one is ever read** in a run of these calls. -/
theorem floats_read_canonical (junk : ByteMem) (L : CartLayouts) (ops : List StateOp) :
    let bufs := ((StateCtx.start L).run junk ops).bufs
    (∀ b ∈ bufs, ∀ slot field v, b.access slot field = some f32.tag →
        b.get slot field = some v → canonF32 v = v)
      ∧ ∀ b ∈ bufs, ∀ slot field v, b.get64 slot field = some v → canonF64 v = v := by
  intro bufs
  have hcanon : ∀ b ∈ bufs, ∀ slot field tag, b.access slot field = some tag →
      Canonical tag (b.element (field - 1) tag slot.toNat) := by
    intro b hb slot field tag hacc
    have hsound := (StateCtx.inv_run sound_keptByCalls junk (stateSound_init L) ops).bufs b hb
    obtain ⟨ha, -, htag⟩ := access_allocated hacc
    obtain ⟨s, rfl, hs, -, -⟩ := exists_slot ha
    exact hsound.canonical (field - 1) tag htag s hs
  constructor
  · intro b hb slot field v hacc hget
    rw [Buffer.get, hacc] at hget
    cases hget
    exact hcanon b hb slot field _ hacc
  · intro b hb slot field v hget
    rw [Buffer.get64] at hget
    split at hget
    · cases hget
    · rename_i tag hacc
      split at hget
      · cases hget
      · rename_i htag
        obtain rfl := not_not.mp htag
        cases hget
        exact hcanon b hb slot field _ hacc

end Blyt
