import Blyt.StateBuffer

/-!
# Entity references

A reference packs a slot with the slot's generation, and a successful free counts
the generation up, past 65535 back to 1. So after `k` frees the generation is
back where it was exactly if 65535 divides `k` (`genNext_iterate_eq_iff`), and a
reference is as good as the slot is allocated and its frees since then are such
a multiple (`entityRef_sound`).
-/

namespace Blyt

open List Option Function

/-! ## The counter -/

/-- The public generations. -/
def GenOk (g : Nat) : Prop := 1 ≤ g ∧ g ≤ 65535

variable {g : Nat}

theorem genNext_eq (h : GenOk g) : genNext g = g % 65535 + 1 := by
  obtain ⟨h1, h2⟩ := h
  unfold genNext
  split <;> omega

theorem GenOk.next (h : GenOk g) : GenOk (genNext g) := by
  rw [genNext_eq h]
  constructor <;> omega

theorem GenOk.iterate (h : GenOk g) (k : Nat) : GenOk (genNext^[k] g) := by
  induction k generalizing g with
  | zero => exact h
  | succ k ih => exact ih h.next

theorem genNext_iterate (h : GenOk g) (k : Nat) : genNext^[k] g = (g - 1 + k) % 65535 + 1 := by
  induction k with
  | zero =>
    obtain ⟨h1, h2⟩ := h
    rw [iterate_zero_apply]
    omega
  | succ k =>
    rw [iterate_succ_apply', genNext_eq (h.iterate k)]
    omega

theorem genNext_iterate_eq_iff (h : GenOk g) (k : Nat) : genNext^[k] g = g ↔ 65535 ∣ k := by
  rw [genNext_iterate h]
  obtain ⟨h1, h2⟩ := h
  omega

/-! ## Packing -/

theorem packRef_eq {gen slot : Nat} (hs : slot < 2 ^ 16) :
    packRef gen slot = gen * 2 ^ 16 + slot := by
  rw [packRef, ← Nat.shiftLeft_add_eq_or_of_lt hs, Nat.shiftLeft_eq]

theorem packRef_ne_zero {gen slot : Nat} (hg : GenOk gen) (hs : slot < 2 ^ 16) :
    packRef gen slot ≠ 0 := by
  have := hg.1
  rw [packRef_eq hs]
  omega

theorem refSlot_packRef {gen slot : Nat} (hs : slot < 2 ^ 16) :
    refSlot (packRef gen slot) = slot := by
  rw [packRef_eq hs, refSlot]
  omega

theorem refGen_packRef {gen slot : Nat} (hg : GenOk gen) (hs : slot < 2 ^ 16) :
    refGen (packRef gen slot) = gen := by
  have := hg.2
  rw [packRef_eq hs, refGen]
  omega

/-! ## One call -/

namespace Buffer

variable {b : Buffer} {slot : Int}

theorem slot_bounds (h : b.allocated slot = true) : 0 ≤ slot ∧ slot.toNat < 2 ^ 16 := by
  rw [allocated, Bool.and_eq_true, decide_eq_true_eq] at h
  have : maxSlots = 128 := rfl
  omega

def frees (b : Buffer) (slot : Int) : SlotOp → Bool
  | .free s => b.allocated s && decide (s = slot)
  | _ => false

theorem setAs_gens {b' : Buffer} {t : FieldType} {s : Int} {field v : Nat}
    (h : b.setAs t s field v = some b') : b'.gens = b.gens := by
  unfold setAs set64 set at h
  cases hacc : b.access s (field % 2 ^ 16) with
  | none =>
    simp only [hacc] at h
    split at h <;> cases h
  | some =>
    simp only [hacc] at h
    split at h <;> split at h <;> cases h <;> rfl

/-- Only a free that succeeds touches a generation, and only the slot's own. -/
theorem step_gens (hs : 0 ≤ slot) (op : SlotOp) :
    (b.step op).1.gens slot.toNat
      = if b.frees slot op then genNext (b.gens slot.toNat) else b.gens slot.toNat := by
  cases op with
  | alloc =>
    unfold step allocSlot
    cases (range (min b.count maxSlots)).find? fun s => !b.used s <;> rfl
  | free s =>
    simp only [step, freeSlot, frees]
    by_cases ha : b.allocated s = true
    · obtain ⟨h0, -⟩ := slot_bounds ha
      simp only [ha, Bool.true_and, Bool.true_eq_false, if_false, decide_eq_true_eq]
      by_cases heq : s = slot
      · subst heq
        rw [update_self, if_pos rfl]
      · have hne : slot.toNat ≠ s.toNat := by omega
        rw [update_of_ne hne, if_neg heq]
    · simp [ha]
  | ref => rfl
  | refValid => rfl
  | get => rfl
  | set t s field v =>
    simp only [step, frees, Bool.false_eq_true, if_false]
    cases hset : b.setAs t s field v with
    | none => rfl
    | some => exact congrFun (setAs_gens hset) _

/-- A reference taken now, asked about later: the slot must be allocated then, in
the generation it has now. -/
theorem refValid_ref (b' : Buffer) (h : b.allocated slot = true) (hg : GenOk (b.gens slot.toNat)) :
    b.ref slot ≠ 0 ∧ (b'.refValid (b.ref slot) = true
      ↔ b'.allocated slot = true ∧ b'.gens slot.toNat = b.gens slot.toNat) := by
  obtain ⟨h0, hlt⟩ := slot_bounds h
  rw [ref, if_pos h]
  refine ⟨packRef_ne_zero hg hlt, ?_⟩
  rw [refValid, refSlot_packRef hlt, refGen_packRef hg hlt,
    decide_eq_true (packRef_ne_zero hg hlt), Bool.true_and, Bool.and_eq_true, decide_eq_true_eq,
    Int.toNat_of_nonneg h0]

end Buffer

/-! ## Runs -/

/-- A call changes the buffer it names, and no other. -/
theorem findBuffer_stateStep (s : List Buffer) (c : BufCall) (id : Nat) :
    findBuffer (stateStep s c).1 id
      = (findBuffer s id).map fun b => if c.buf = id then (b.step c.op).1 else b := by
  unfold stateStep findBuffer
  by_cases hid : id = 0
  · simp [hid]
  rw [if_neg hid, if_neg hid]
  by_cases hc : c.buf = 0
  · rw [if_pos hc]
    have hne : c.buf ≠ id := by omega
    simp [hne]
  rw [if_neg hc]
  cases hb : s[c.buf - 1]? with
  | none =>
    by_cases heq : c.buf = id
    · rw [← heq, hb]
      rfl
    · simp [heq]
  | some =>
    obtain ⟨hlt, -⟩ := List.getElem?_eq_some_iff.mp hb
    by_cases heq : c.buf = id
    · subst heq
      rw [getElem?_set_self hlt, hb, map_some, if_pos rfl]
    · rw [getElem?_set_ne (by omega)]
      simp [heq]

def stateAllocated (s : List Buffer) (id : Nat) (slot : Int) : Bool :=
  (findBuffer s id).any fun b => b.allocated slot

def countFrees (id : Nat) (slot : Int) : List Buffer → List BufCall → Nat
  | _, [] => 0
  | s, c :: cs =>
    (decide (c.buf = id) && (findBuffer s id).any fun b => b.frees slot c.op).toNat
      + countFrees id slot (stateStep s c).1 cs

/-- Over a run, a generation counts up once for every free. -/
theorem traceOf_gens {id : Nat} {slot : Int} (hs : 0 ≤ slot) {s : List Buffer} {b : Buffer}
    (hb : findBuffer s id = some b) (cs : List BufCall) :
    ∃ b', findBuffer (traceOf stateStep s cs).1 id = some b'
      ∧ b'.gens slot.toNat = genNext^[countFrees id slot s cs] (b.gens slot.toNat) := by
  induction cs generalizing s b with
  | nil => exact ⟨b, hb, rfl⟩
  | cons c cs ih =>
    have hstep := findBuffer_stateStep s c id
    rw [hb, map_some] at hstep
    obtain ⟨b', hb', hgens⟩ := ih hstep
    refine ⟨b', hb', ?_⟩
    rw [hgens, countFrees, hb, any_some]
    split <;> rename_i hc
    · rw [Buffer.step_gens hs, decide_eq_true hc, Bool.true_and]
      cases b.frees slot c.op with
      | false => rw [if_neg Bool.false_ne_true, Bool.toNat_false, Nat.zero_add]
      | true => rw [if_pos rfl, Bool.toNat_true, Nat.add_comm 1, iterate_succ_apply]
    · rw [decide_eq_false hc, Bool.false_and, Bool.toNat_false, Nat.zero_add]

def GensOk (s : List Buffer) : Prop := ∀ id b, findBuffer s id = some b → ∀ k, GenOk (b.gens k)

theorem exists_decl_of_mem {L : CartLayouts} {ds : List BufferDecl} {bs : List Buffer}
    (h : List.Forall₂ (fun d b => initBuffer L d = some b) ds bs) {b : Buffer} (hb : b ∈ bs) :
    ∃ d ∈ ds, initBuffer L d = some b := by
  induction h with
  | nil => cases hb
  | cons hd _ ih =>
    rcases mem_cons.mp hb with rfl | hb
    · exact ⟨_, mem_cons_self, hd⟩
    · obtain ⟨d, hmem, hinit⟩ := ih hb
      exact ⟨d, mem_cons_of_mem _ hmem, hinit⟩

theorem initBuffer_gens {L : CartLayouts} {d : BufferDecl} {b : Buffer}
    (h : initBuffer L d = some b) (k : Nat) : b.gens k = 1 := by
  unfold initBuffer at h
  split at h
  · cases h
  · split at h
    · cases h
    · cases h
      rfl

theorem gensOk_init (L : CartLayouts) : GensOk (stateCtxInit L) := by
  intro id b hb k
  have hmem : b ∈ stateCtxInit L := by
    unfold findBuffer at hb
    split at hb
    · cases hb
    · exact mem_of_getElem? hb
  unfold stateCtxInit at hmem
  cases hinit : initBuffers L ((L.buffers.getD []).take maxBuffers) with
  | none =>
    rw [hinit] at hmem
    cases hmem
  | some =>
    rw [hinit] at hmem
    obtain ⟨d, -, hd⟩ := exists_decl_of_mem (initBuffers_eq_some.mp hinit) hmem
    rw [initBuffer_gens hd]
    exact ⟨le_refl _, by norm_num⟩

theorem gensOk_stateStep (s : List Buffer) (c : BufCall) (h : GensOk s) :
    GensOk (stateStep s c).1 := by
  intro id b hb k
  rw [findBuffer_stateStep] at hb
  obtain ⟨b0, hb0, rfl⟩ := map_eq_some_iff.mp hb
  have hk := h id b0 hb0 k
  split
  · have hgens := Buffer.step_gens (b := b0) (Int.natCast_nonneg k) c.op
    rw [Int.toNat_natCast] at hgens
    rw [hgens]
    split
    · exact hk.next
    · exact hk
  · exact hk

/-- **Entity references.** Whatever a cart does with its buffers, every generation
lies in 1 to 65535, a reference taken from an allocated slot is not 0, and later
on it is valid exactly if the slot is allocated then and has been freed a multiple
of 65535 times in between. -/
theorem entityRef_sound (L : CartLayouts) (before after : List BufCall) :
    let s := (traceOf stateStep (stateCtxInit L) before).1
    let s' := (traceOf stateStep s after).1
    GensOk s ∧ ∀ id slot r, stateAllocated s id slot = true →
      (stateStep s ⟨id, .ref slot⟩).2 = some r →
        r ≠ 0 ∧ ((stateStep s' ⟨id, .refValid r⟩).2 = some 1
          ↔ stateAllocated s' id slot = true ∧ 65535 ∣ countFrees id slot s after) := by
  intro s s'
  have hgens : GensOk s := traceOf_inv gensOk_stateStep (gensOk_init L)
  refine ⟨hgens, fun id slot r halloc href => ?_⟩
  obtain ⟨b, hb, hslot⟩ := (Option.any_eq_true _ _).mp halloc
  obtain ⟨h0, -⟩ := Buffer.slot_bounds hslot
  have hg := hgens id b hb slot.toNat
  obtain ⟨b', hb', hgen'⟩ := traceOf_gens h0 hb after
  have hr : b.ref slot = r := by
    rw [stateStep, hb] at href
    exact some.inj href
  obtain ⟨hne, hvalid⟩ := Buffer.refValid_ref b' hslot hg
  subst hr
  refine ⟨hne, ?_⟩
  have hanswer : (stateStep s' ⟨id, .refValid (b.ref slot)⟩).2 = some 1
      ↔ b'.refValid (b.ref slot) = true := by
    rw [stateStep, hb']
    show some (b'.refValid (b.ref slot)).toNat = some 1 ↔ _
    cases b'.refValid (b.ref slot) <;> simp
  rw [hanswer, hvalid, hgen', genNext_iterate_eq_iff hg, stateAllocated, hb', any_some]

/-- One buffer of two slots, its record one `i32`. -/
def demoLayout : CartLayouts :=
  ⟨8, [⟨[0x70], [4]⟩], some [⟨8, some [0x62], [0x70], some 2⟩], 7⟩

/-- Its first slot is allocated; the reference is good while it stays, and stale once
it is freed and allocated again. -/
theorem entityRef_sound_demo :
    let s := (traceOf stateStep (stateCtxInit demoLayout) [⟨1, .alloc⟩]).1
    stateAllocated s 1 0 = true ∧ (stateStep s ⟨1, .ref 0⟩).2 = some 0x10000
      ∧ (stateStep (traceOf stateStep s [⟨1, .alloc⟩]).1 ⟨1, .refValid 0x10000⟩).2 = some 1
      ∧ ¬ (stateStep (traceOf stateStep s [⟨1, .free 0⟩, ⟨1, .alloc⟩]).1
        ⟨1, .refValid 0x10000⟩).2 = some 1 := by
  intro s
  have halloc : stateAllocated s 1 0 = true := by decide +kernel
  have href : (stateStep s ⟨1, .ref 0⟩).2 = some 0x10000 := by decide +kernel
  refine ⟨halloc, href, ?_, ?_⟩
  · exact ((entityRef_sound demoLayout [⟨1, .alloc⟩] [⟨1, .alloc⟩]).2 1 0 _ halloc href).2.mpr
      ⟨by decide +kernel, by decide +kernel⟩
  · decide +kernel

end Blyt
