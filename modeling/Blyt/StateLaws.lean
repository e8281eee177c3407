import Blyt.StateSnapshot

/-!
# The laws of get and set

What a field keeps of a value that is stored in it is `keptValue`: the low bytes, and for a
float field one bit pattern in place of all NaNs. A successful `set` or `set64` is seen by
the next read of the same field and by nothing else, a refused call changes nothing, and
no float field ever holds another NaN (`state_get_set_laws`).
-/

namespace Blyt

open StateCtx FieldType

/-! ## NaNs -/

/-- Exponent all ones, mantissa not 0: bits 30 to 23 and 22 to 0. -/
def IsNaN32 (w : Nat) : Prop := w / 2 ^ 23 % 2 ^ 8 = 2 ^ 8 - 1 ∧ w % 2 ^ 23 ≠ 0

/-- The same for a double: bits 62 to 52 and 51 to 0. -/
def IsNaN64 (w : Nat) : Prop := w / 2 ^ 52 % 2 ^ 11 = 2 ^ 11 - 1 ∧ w % 2 ^ 52 ≠ 0

instance (w : Nat) : Decidable (IsNaN32 w) := inferInstanceAs (Decidable (_ ∧ _))

instance (w : Nat) : Decidable (IsNaN64 w) := inferInstanceAs (Decidable (_ ∧ _))

def canonicalNaN32 : Nat := 0x7FC00000
def canonicalNaN64 : Nat := 0x7FF8000000000000

/-- What a field of type `tag` keeps of `v`. -/
def keptValue (tag v : Nat) : Nat :=
  let w := v % 256 ^ fieldSizeof tag
  if tag = f32.tag ∧ IsNaN32 w then canonicalNaN32
  else if tag = f64.tag ∧ IsNaN64 w then canonicalNaN64
  else w

/-- A mask of `n` bits from bit `k` on cuts out a digit. -/
theorem land_field (v k n : Nat) : v &&& ((2 ^ n - 1) * 2 ^ k) = v / 2 ^ k % 2 ^ n * 2 ^ k := by
  rw [← Nat.shiftLeft_eq, ← Nat.shiftLeft_eq, ← Nat.shiftRight_eq_div_pow,
    ← Nat.and_two_pow_sub_one_eq_mod, Nat.shiftLeft_and_distrib]
  refine Nat.eq_of_testBit_eq fun i => ?_
  by_cases hi : k ≤ i
  · simp [hi]
  · simp [hi]

/-- The masks of `blyt_canon_f32` find the NaNs. -/
theorem canonF32_eq (v : Nat) : canonF32 v = if IsNaN32 v then canonicalNaN32 else v := by
  have hexp := land_field v 23 8
  have hman : v &&& 0x007FFFFF = v % 2 ^ 23 := Nat.and_two_pow_sub_one_eq_mod v 23
  norm_num at hexp
  unfold canonF32 IsNaN32 canonicalNaN32
  rw [hman]
  refine if_congr (and_congr_left fun _ => ?_) rfl rfl
  omega

theorem canonF64_eq (v : Nat) : canonF64 v = if IsNaN64 v then canonicalNaN64 else v := by
  have hexp := land_field v 52 11
  have hman : v &&& 0x000FFFFFFFFFFFFF = v % 2 ^ 52 := Nat.and_two_pow_sub_one_eq_mod v 52
  norm_num at hexp
  unfold canonF64 IsNaN64 canonicalNaN64
  rw [hman]
  refine if_congr (and_congr_left fun _ => ?_) rfl rfl
  omega

/-- What the accessors make of a value is what the field keeps. -/
theorem canonBits_eq_keptValue (tag v : Nat) :
    canonBits tag v % 256 ^ fieldSizeof tag = keptValue tag v := by
  by_cases h64 : tag = f64.tag
  · subst h64
    have hlow : IsNaN64 (v % 256 ^ fieldSizeof f64.tag) ↔ IsNaN64 v := by
      show IsNaN64 (v % 256 ^ 8) ↔ IsNaN64 v
      unfold IsNaN64
      omega
    have hne : f64.tag ≠ f32.tag := by decide
    simp only [canonBits, keptValue, hne, canonF64_eq, hlow, false_and, true_and, if_false, if_true]
    split <;> rfl
  by_cases h32 : tag = f32.tag
  · subst h32
    have hlow : IsNaN32 (v % 256 ^ fieldSizeof f32.tag) ↔ IsNaN32 v := by
      show IsNaN32 (v % 256 ^ 4) ↔ IsNaN32 v
      unfold IsNaN32
      omega
    simp only [canonBits, keptValue, h64, canonF32_eq, hlow, false_and, true_and, if_false, if_true]
    split <;> rfl
  · unfold canonBits keptValue
    simp [h64, h32]

/-- Canonical bits are no NaN but the canonical one. -/
theorem Canonical.nan32 {bits : Nat} (h : Canonical f32.tag bits)
    (hnan : IsNaN32 bits) : bits = canonicalNaN32 := by
  have hc : canonF32 bits = bits := h
  rw [canonF32_eq, if_pos hnan] at hc
  exact hc.symm

theorem Canonical.nan64 {bits : Nat} (h : Canonical f64.tag bits)
    (hnan : IsNaN64 bits) : bits = canonicalNaN64 := by
  have hc : canonF64 bits = bits := h
  rw [canonF64_eq, if_pos hnan] at hc
  exact hc.symm

/-! ## What a store changes -/

/-- The buffers differ at most in one element: slot `s` of the field array `fi`, whose
elements have `width` bytes. -/
structure Buffer.SameBut (b b' : Buffer) (s fi width : Nat) : Prop where
  shape : b'.shape = b.shape
  schemaHash : b'.schemaHash = b.schemaHash
  name : b'.name = b.name
  used : b'.used = b.used
  gens : b'.gens = b.gens
  data : ∀ fi' x, (fi' = fi → x / width ≠ s) → b'.data fi' x = b.data fi' x

theorem Buffer.store_sameBut (b : Buffer) (slot : Int) (field width v : Nat) :
    b.SameBut (b.store slot field width v) slot.toNat (field - 1) width := by
  refine ⟨rfl, rfl, rfl, rfl, rfl, fun fi x hx => ?_⟩
  show Function.update b.data (field - 1) _ fi x = b.data fi x
  by_cases hfi : fi = field - 1
  · subst hfi
    rw [Function.update_self]
    refine writeLE_outside ?_
    by_contra hin
    have hdiv : x / width = slot.toNat := by
      refine Nat.div_eq_of_lt_le (by omega) ?_
      rw [Nat.succ_mul]
      omega
    exact hx rfl hdiv
  · rw [Function.update_of_ne hfi]

/-- The context is the old one but for that element, and `read` finds there what the field
keeps of `v`. -/
structure StateCtx.StoredIn (junk : ByteMem) (c c' : StateCtx) (buf : Nat) (slot : Int)
    (field v : Nat) (read : StateOp) : Prop where
  others : ∀ id, id ≠ buf → findBuffer c'.bufs id = findBuffer c.bufs id
  snaps : c'.snaps = c.snaps
  element : ∃ b b' tag, findBuffer c.bufs buf = some b ∧ findBuffer c'.bufs buf = some b'
    ∧ b.tags[field - 1]? = some tag
    ∧ b.SameBut b' slot.toNat (field - 1) (fieldSizeof tag)
    ∧ (c'.step junk read).2 = some (keptValue tag v)

variable (junk : ByteMem)

section Laws

variable {c : StateCtx} {buf : Nat} {slot : Int} {field v : Nat}

theorem findBuffer_set_self {s : List Buffer} {b b' : Buffer} (h : findBuffer s buf = some b) :
    findBuffer (s.set (buf - 1) b') buf = some b' := by
  obtain ⟨h0, hat⟩ := getElem?_of_findBuffer h
  rw [findBuffer, if_neg h0, List.getElem?_set_self (List.getElem?_eq_some_iff.mp hat).1]

theorem findBuffer_set_ne {s : List Buffer} {b b' : Buffer} (h : findBuffer s buf = some b)
    {id : Nat} (hne : id ≠ buf) : findBuffer (s.set (buf - 1) b') id = findBuffer s id := by
  obtain ⟨h0, -⟩ := getElem?_of_findBuffer h
  unfold findBuffer
  split
  · rfl
  · rw [List.getElem?_set_ne (by omega)]

/-- The common part of the two laws; what is read back is left open. -/
theorem storedIn_of_store {b : Buffer} {tag : Nat} {read : StateOp}
    (hb : findBuffer c.bufs buf = some b) (hacc : b.access slot field = some tag)
    (hread : ((c.setBuffer buf
        (b.store slot field (fieldSizeof tag) (canonBits tag v))).step junk read).2
      = some (readLE (writeLE (b.data (field - 1)) (slot.toNat * fieldSizeof tag) (fieldSizeof tag)
        (canonBits tag v)) (slot.toNat * fieldSizeof tag) (fieldSizeof tag))) :
    StoredIn junk c (c.setBuffer buf
        (b.store slot field (fieldSizeof tag) (canonBits tag v))) buf slot field v read := by
  obtain ⟨-, -, htag⟩ := Buffer.access_allocated hacc
  refine ⟨fun id hne => findBuffer_set_ne hb hne, rfl, b, _, tag, hb, findBuffer_set_self hb, htag,
    b.store_sameBut slot field _ _, ?_⟩
  rw [hread, readLE_writeLE, canonBits_eq_keptValue]

theorem Buffer.access_store (b : Buffer) (slot : Int) (field width v : Nat) :
    (b.store slot field width v).access slot field = b.access slot field := rfl

theorem Buffer.store_data (b : Buffer) (slot : Int) (field width v : Nat) :
    (b.store slot field width v).data (field - 1)
      = writeLE (b.data (field - 1)) (slot.toNat * width) width v :=
  Function.update_self _ _ _

theorem set_law {r : Nat} (h : (c.step junk (.set buf slot field v)).2 = some r) :
    StoredIn junk c (c.step junk (.set buf slot field v)).1 buf slot field v
      (.get buf slot field) := by
  rcases c.onBuffer_cases buf fun b => (b.set slot field v).map (·, 0) with
    heq | ⟨b, b', r', hb, hset, heq⟩
  · rw [step, heq] at h
    cases h
  obtain ⟨b1, hset1, hr⟩ := Option.map_eq_some_iff.mp hset
  cases hr
  obtain ⟨tag, hacc, hne, rfl⟩ := Buffer.set_eq_some hset1
  rw [step, heq]
  refine storedIn_of_store junk hb hacc ?_
  simp only [step, onBuffer, setBuffer, findBuffer_set_self hb, Buffer.get,
    Buffer.access_store, hacc, if_neg hne, Buffer.store_data]
  rfl

theorem set64_law {r : Nat} (h : (c.step junk (.set64 buf slot field v)).2 = some r) :
    StoredIn junk c (c.step junk (.set64 buf slot field v)).1 buf slot field v
      (.get64 buf slot field) := by
  rcases c.onBuffer_cases buf fun b => (b.set64 slot field v).map (·, 0) with
    heq | ⟨b, b', r', hb, hset, heq⟩
  · rw [step, heq] at h
    cases h
  obtain ⟨b1, hset1, hr⟩ := Option.map_eq_some_iff.mp hset
  cases hr
  obtain ⟨hacc, rfl⟩ := Buffer.set64_eq_some hset1
  rw [step, heq]
  refine storedIn_of_store junk hb hacc ?_
  simp only [step, onBuffer, setBuffer, findBuffer_set_self hb, Buffer.get64,
    Buffer.access_store, hacc, Buffer.store_data]
  rfl

theorem refused_unchanged {op : StateOp} (h : (c.step junk op).2 = none) :
    (c.step junk op).1 = c := by
  have hon : ∀ (f : Buffer → Option (Buffer × Nat)) (buf : Nat), (c.onBuffer buf f).2 = none →
      (c.onBuffer buf f).1 = c := by
    intro f buf h
    rcases c.onBuffer_cases buf f with heq | ⟨b, b', r, -, -, heq⟩
    · rw [heq]
    · rw [heq] at h
      cases h
  cases op with
  | get | get64 | set | set64 | alloc | free => exact hon _ _ h
  | zeroData | snapshot => cases h
  | restore =>
    unfold step at h ⊢
    simp only at h ⊢
    split at h
    · rfl
    · cases h

end Laws

/-- **The laws of get and set.** -/
theorem state_get_set_laws (junk : ByteMem) :
    (∀ (c : StateCtx) (buf : Nat) (slot : Int) (field v r : Nat),
        (c.step junk (.set buf slot field v)).2 = some r →
          c.StoredIn junk (c.step junk (.set buf slot field v)).1 buf slot field v
            (.get buf slot field))
      ∧ (∀ (c : StateCtx) (buf : Nat) (slot : Int) (field v r : Nat),
        (c.step junk (.set64 buf slot field v)).2 = some r →
          c.StoredIn junk (c.step junk (.set64 buf slot field v)).1 buf slot field v
            (.get64 buf slot field))
      ∧ (∀ (c : StateCtx) (op : StateOp), (c.step junk op).2 = none → (c.step junk op).1 = c)
      ∧ ∀ (L : CartLayouts) (ops : List StateOp), ∀ b ∈ ((start L).run junk ops).bufs,
        ∀ fi tag, b.tags[fi]? = some tag → ∀ s < b.count,
          (tag = f32.tag → IsNaN32 (b.element fi tag s) →
              b.element fi tag s = canonicalNaN32)
            ∧ (tag = f64.tag → IsNaN64 (b.element fi tag s) →
              b.element fi tag s = canonicalNaN64) := by
  refine ⟨fun c buf slot field v r h => set_law junk h,
    fun c buf slot field v r h => set64_law junk h, fun c op h => refused_unchanged junk h,
    fun L ops b hb fi tag htag s hs => ?_⟩
  have hinv := inv_run sound_keptByCalls junk (stateSound_init L) ops
  have hcanon := (hinv.bufs b hb).canonical fi tag htag s hs
  refine ⟨fun h32 hnan => ?_, fun h64 hnan => ?_⟩
  · subst h32
    exact hcanon.nan32 hnan
  · subst h64
    exact hcanon.nan64 hnan

end Blyt
