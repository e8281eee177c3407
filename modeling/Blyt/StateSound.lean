import Blyt.EntityRef

/-!
# What the calls keep

Four facts about a buffer that every call of `state_buffer.c` keeps: generations
lie in 1 to 65535, a slot that is not allocated holds zero bytes, no slot behind the
last one is marked, and a float field holds no NaN but the canonical one. So they
hold in every state a cart can reach (`reachable_sound`).
-/

namespace Blyt

open List Function

/-- Bits that the accessors' canonicalisation leaves alone: for a float field, no NaN
but the canonical one. -/
def Canonical (tag bits : Nat) : Prop := canonBits tag bits = bits

instance (tag bits : Nat) : Decidable (Canonical tag bits) :=
  inferInstanceAs (Decidable (canonBits tag bits = bits))

theorem canonical_zero (tag : Nat) : Canonical tag 0 := by
  unfold Canonical canonBits canonF64 canonF32
  split_ifs <;> simp_all

/-- A mask sees no more of a number than its low bits. -/
theorem mod_two_pow_land {mask n : Nat} (h : mask < 2 ^ n) (v : Nat) :
    v % 2 ^ n &&& mask = v &&& mask := by
  calc v % 2 ^ n &&& mask = v % 2 ^ n &&& mask % 2 ^ n := by rw [Nat.mod_eq_of_lt h]
    _ = (v &&& mask) % 2 ^ n := Nat.and_mod_two_pow.symm
    _ = v &&& mask := Nat.mod_eq_of_lt (lt_of_le_of_lt Nat.and_le_right h)

theorem canonF32_fixed (v : Nat) : canonF32 (canonF32 v % 2 ^ 32) = canonF32 v % 2 ^ 32 := by
  rw [canonF32, canonF32]
  split <;> rename_i h
  · decide
  · rw [mod_two_pow_land (by norm_num), mod_two_pow_land (by norm_num), if_neg h]

theorem canonF64_fixed (v : Nat) : canonF64 (canonF64 v % 2 ^ 64) = canonF64 v % 2 ^ 64 := by
  rw [canonF64, canonF64]
  split <;> rename_i h
  · decide
  · rw [mod_two_pow_land (by norm_num), mod_two_pow_land (by norm_num), if_neg h]

theorem canonical_stored (tag v : Nat) :
    Canonical tag (canonBits tag v % 256 ^ fieldSizeof tag) := by
  unfold Canonical
  by_cases h64 : tag = FieldType.f64.tag
  · subst h64
    exact canonF64_fixed v
  · by_cases h32 : tag = FieldType.f32.tag
    · subst h32
      exact canonF32_fixed v
    · rw [canonBits, if_neg h64, if_neg h32]

variable {slot : Int} {b' : Buffer}

namespace Buffer

variable {b : Buffer}

/-- The number stored for one slot and field. -/
def element (b : Buffer) (fi tag s : Nat) : Nat :=
  readLE (b.data fi) (s * fieldSizeof tag) (fieldSizeof tag)

structure Sound (b : Buffer) : Prop where
  gens : ∀ s < maxSlots, GenOk (b.gens s)
  /-- All bytes of a slot that is not allocated are 0. -/
  zero : ∀ s < b.count, b.allocated s = false → ∀ fi tag, b.tags[fi]? = some tag →
    ∀ k < fieldSizeof tag, b.data fi (s * fieldSizeof tag + k) = 0
  marked : ∀ s < maxSlots, b.count ≤ s → b.used s = false
  canonical : ∀ fi tag, b.tags[fi]? = some tag → ∀ s < b.count, Canonical tag (b.element fi tag s)

theorem allocated_natCast (b : Buffer) (s : Nat) :
    b.allocated s = true ↔ s < b.count ∧ s < maxSlots ∧ b.used s = true := by
  simp [allocated, and_assoc]

theorem exists_slot (h : b.allocated slot = true) :
    ∃ s : Nat, slot = s ∧ s < b.count ∧ s < maxSlots ∧ b.used s = true := by
  obtain ⟨s, rfl⟩ := Int.eq_ofNat_of_zero_le (slot_bounds h).1
  exact ⟨s, rfl, (allocated_natCast b s).mp h⟩

theorem slot_apart {s s' width k : Nat} (h : s' ≠ s) (hk : k < width) :
    s' * width + k < s * width ∨ s * width + width ≤ s' * width + k := by
  rcases Nat.lt_or_gt_of_ne h with h | h
  all_goals
    have := Nat.mul_le_mul_right width h
    rw [Nat.succ_mul] at this
    omega

theorem slot_byte_lt {s count width k : Nat} (hs : s < count) (hk : k < width) :
    s * width + k < count * width := by
  have := Nat.mul_le_mul_right width hs
  rw [Nat.succ_mul] at this
  omega

theorem Sound.congr (h : b.Sound) (hcount : b'.count = b.count)
    (htags : b'.tags = b.tags) (hgens : ∀ s < maxSlots, b'.gens s = b.gens s)
    (hused : ∀ s < maxSlots, b'.used s = b.used s)
    (hdata : ∀ fi tag, b.tags[fi]? = some tag → ∀ x < b.count * fieldSizeof tag,
      b'.data fi x = b.data fi x) : b'.Sound := by
  have halloc : ∀ s : Nat, b'.allocated s = b.allocated s := by
    intro s
    rw [Bool.eq_iff_iff, allocated_natCast, allocated_natCast, hcount]
    refine and_congr_right fun _ => and_congr_right fun hmax => ?_
    rw [hused s hmax]
  refine ⟨fun s hmax => ?_, fun s hlt ha fi tag htag k hk => ?_, fun s hmax hge => ?_,
    fun fi tag htag s hlt => ?_⟩
  · rw [hgens s hmax]
    exact h.gens s hmax
  · rw [htags] at htag
    rw [hcount] at hlt
    rw [hdata fi tag htag _ (slot_byte_lt hlt hk)]
    exact h.zero s hlt (halloc s ▸ ha) fi tag htag k hk
  · rw [hused s hmax]
    exact h.marked s hmax (hcount ▸ hge)
  · rw [htags] at htag
    rw [hcount] at hlt
    rw [element, readLE_congr fun k hk => hdata fi tag htag _ (slot_byte_lt hlt hk)]
    exact h.canonical fi tag htag s hlt

/-- A change that stays within one slot, and leaves it in order. -/
theorem Sound.write (h : b.Sound) {s : Nat} (hs : s < b.count) (hmax : s < maxSlots)
    (hcount : b'.count = b.count) (htags : b'.tags = b.tags)
    (hgens : ∀ t, t ≠ s → b'.gens t = b.gens t) (hgen : GenOk (b'.gens s))
    (hused : ∀ t, t ≠ s → b'.used t = b.used t)
    (hdata : ∀ fi tag, b.tags[fi]? = some tag → ∀ t, t ≠ s → ∀ k < fieldSizeof tag,
      b'.data fi (t * fieldSizeof tag + k) = b.data fi (t * fieldSizeof tag + k))
    (hzero : b'.used s = false → ∀ fi tag, b.tags[fi]? = some tag → ∀ k < fieldSizeof tag,
      b'.data fi (s * fieldSizeof tag + k) = 0)
    (hcanon : ∀ fi tag, b.tags[fi]? = some tag → Canonical tag (b'.element fi tag s)) :
    b'.Sound := by
  have halloc : ∀ t : Nat, t ≠ s → b'.allocated t = b.allocated t := fun t ht => by
    rw [Bool.eq_iff_iff, allocated_natCast, allocated_natCast, hcount, hused t ht]
  refine ⟨fun t ht => ?_, fun t ht ha fi tag htag k hk => ?_, fun t ht hge => ?_,
    fun fi tag htag t ht => ?_⟩
  · by_cases heq : t = s
    · exact heq ▸ hgen
    · exact hgens t heq ▸ h.gens t ht
  · rw [htags] at htag
    by_cases heq : t = s
    · subst heq
      refine hzero ?_ fi tag htag k hk
      by_contra hu
      have := (allocated_natCast b' t).mpr ⟨ht, hmax, by simpa using hu⟩
      rw [ha] at this
      cases this
    · rw [hdata fi tag htag t heq k hk]
      exact h.zero t (hcount ▸ ht) (halloc t heq ▸ ha) fi tag htag k hk
  · rw [hcount] at hge
    rw [hused t (by omega)]
    exact h.marked t ht hge
  · rw [htags] at htag
    by_cases heq : t = s
    · exact heq ▸ hcanon fi tag htag
    · rw [element, readLE_congr fun k hk => hdata fi tag htag t heq k hk]
      exact h.canonical fi tag htag t (hcount ▸ ht)

theorem access_allocated {field tag : Nat} (h : b.access slot field = some tag) :
    b.allocated slot = true ∧ field ≠ 0 ∧ b.tags[field - 1]? = some tag := by
  unfold access at h
  split_ifs at h with ha h0
  exact ⟨by simpa using ha, h0, h⟩

theorem Sound.alloc (h : b.Sound) {s : Nat} (hs : s < b.count) (hmax : s < maxSlots) :
    Sound { b with used := Function.update b.used s true } := by
  refine h.write hs hmax rfl rfl (fun _ _ => rfl) (h.gens s hmax)
    (fun t ht => update_of_ne ht _ _) (fun _ _ _ _ _ _ _ => rfl) (fun hu => ?_)
    fun fi tag htag => h.canonical fi tag htag s hs
  exact absurd ((update_self s true b.used).symm.trans hu) (by decide)

theorem Sound.free (h : b.Sound) (ha : b.allocated slot = true)
    (hfree : b.freeSlot slot = some b') : b'.Sound := by
  obtain ⟨s, rfl, hs, hmax, -⟩ := exists_slot ha
  unfold freeSlot at hfree
  rw [if_neg (by rw [ha]; decide), Int.toNat_natCast] at hfree
  cases hfree
  have hcleared : ∀ fi tag, b.tags[fi]? = some tag → ∀ k < fieldSizeof tag,
      fill (b.data fi) (s * fieldSizeof tag) (fieldSizeof tag) 0 (s * fieldSizeof tag + k) = 0 :=
    fun fi tag _ k hk => if_pos ⟨Nat.le_add_right _ _, by omega⟩
  refine h.write hs hmax rfl rfl (fun t ht => update_of_ne ht _ _) ?_
    (fun t ht => update_of_ne ht _ _) (fun fi tag htag t ht k hk => ?_)
    (fun _ fi tag htag k hk => ?_) fun fi tag htag => ?_
  · show GenOk (Function.update b.gens s (genNext (b.gens s)) s)
    rw [update_self]
    exact (h.gens s hmax).next
  · simp only [htag]
    exact fill_outside (slot_apart ht hk)
  · simp only [htag]
    exact hcleared fi tag htag k hk
  · rw [element]
    simp only [htag]
    rw [readLE_eq_zero.mpr (hcleared fi tag htag)]
    exact canonical_zero tag

theorem Sound.store (h : b.Sound) {field tag : Nat} (v : Nat)
    (hacc : b.access slot field = some tag) :
    (b.store slot field (fieldSizeof tag) (canonBits tag v)).Sound := by
  obtain ⟨ha, h0, htag⟩ := access_allocated hacc
  obtain ⟨s, rfl, hs, hmax, hused⟩ := exists_slot ha
  have hfield : ∀ fi tag', b.tags[fi]? = some tag' → fi = field - 1 → tag' = tag := by
    rintro fi tag' htag' rfl
    exact Option.some.inj (htag'.symm.trans htag)
  refine h.write hs hmax rfl rfl (fun _ _ => rfl) (h.gens s hmax) (fun _ _ => rfl)
    (fun fi tag' htag' t ht k hk => ?_) (fun hu => absurd (hused.symm.trans hu) (by decide))
    fun fi tag' htag' => ?_
  · by_cases hfi : fi = field - 1
    · cases hfield fi tag' htag' hfi
      subst hfi
      show Function.update b.data (field - 1) _ (field - 1) _ = _
      rw [update_self, Int.toNat_natCast, writeLE_outside (slot_apart ht hk)]
    · exact congrFun (update_of_ne hfi _ _) _
  · by_cases hfi : fi = field - 1
    · cases hfield fi tag' htag' hfi
      subst hfi
      show Canonical tag (readLE (Function.update b.data (field - 1) _ (field - 1)) _ _)
      rw [update_self, Int.toNat_natCast, readLE_writeLE]
      exact canonical_stored tag v
    · show Canonical tag' (readLE (Function.update b.data (field - 1) _ fi) _ _)
      rw [update_of_ne hfi]
      exact h.canonical fi tag' htag' s hs

/-- **Step lemma.** -/
theorem Sound.step (h : b.Sound) (op : SlotOp) : (b.step op).1.Sound := by
  rcases b.step_cases op with hsame | ⟨s, hs, -, halloc⟩ | ⟨slot, ha, -, hfree⟩
    | ⟨slot, field, tag, v, hacc, hstore⟩
  · rwa [hsame]
  · rw [halloc]
    exact h.alloc (by omega) (by omega)
  · exact h.free ha hfree
  · rw [hstore]
    exact h.store v hacc

end Buffer

def StateSound (s : List Buffer) : Prop := ∀ b ∈ s, b.Sound

theorem stateCtxInit_blank {L : CartLayouts} {b : Buffer} (hb : b ∈ stateCtxInit L) :
    b.data = (fun _ _ => 0) ∧ b.used = (fun _ => false) ∧ b.gens = fun _ => 1 := by
  unfold stateCtxInit at hb
  cases hinit : initBuffers L ((L.buffers.getD []).take maxBuffers) with
  | none =>
    rw [hinit] at hb
    cases hb
  | some =>
    rw [hinit] at hb
    obtain ⟨d, -, hd⟩ := exists_decl_of_mem (initBuffers_eq_some.mp hinit) hb
    unfold initBuffer at hd
    split at hd
    · cases hd
    · split at hd
      · cases hd
      · cases hd
        exact ⟨rfl, rfl, rfl⟩

theorem stateSound_init (L : CartLayouts) : StateSound (stateCtxInit L) := by
  intro b hb
  obtain ⟨hdata, hused, hgens⟩ := stateCtxInit_blank hb
  refine ⟨fun s _ => ?_, fun s _ _ fi tag _ k _ => ?_, fun s _ _ => ?_, fun fi tag _ s _ => ?_⟩
  · rw [hgens]
    exact ⟨le_refl _, by norm_num⟩
  · rw [hdata]
  · rw [hused]
  · rw [Buffer.element, hdata, readLE_eq_zero.mpr fun _ _ => rfl]
    exact canonical_zero tag

theorem stateSound_stateStep (s : List Buffer) (c : BufCall) (h : StateSound s) :
    StateSound (stateStep s c).1 := by
  rw [stateStep]
  cases hf : findBuffer s c.buf with
  | none => exact h
  | some b =>
    have hb : b ∈ s := by
      unfold findBuffer at hf
      split_ifs at hf
      exact mem_of_getElem? hf
    intro b' hb'
    rcases mem_or_eq_of_mem_set hb' with hmem | rfl
    · exact h b' hmem
    · exact (h b hb).step c.op

/-- **Run lemma.** Whatever a cart does with its buffers, they stay sound. -/
theorem reachable_sound (L : CartLayouts) (calls : List BufCall) :
    StateSound (traceOf stateStep (stateCtxInit L) calls).1 :=
  traceOf_inv stateSound_stateStep (stateSound_init L)

end Blyt
