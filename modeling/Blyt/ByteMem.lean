import Mathlib.Tactic

/-!
# Byte memories with little-endian words

The flat memory that in-band data structures live in: a byte for every
address, words read and written four bytes at a time, low byte first. What a
proof about such a structure needs is the read-over-write pair (the word just
written, and a word apart from it) and the frame lemmas; after them nobody
looks at single bytes again.
-/

namespace Blyt

open List Option

/-- One byte at every address. -/
abbrev ByteMem := Nat → UInt8

/-- A value as a 32-bit unsigned word holds it. -/
def u32 (n : Nat) : Nat := n % 2 ^ 32

theorem u32_lt (n : Nat) : u32 n < 2 ^ 32 := Nat.mod_lt _ (by norm_num)

variable {n x k : Nat} {m m' : ByteMem} {a v w : Nat}

theorem u32_of_lt (h : n < 2 ^ 32) : u32 n = n := Nat.mod_eq_of_lt h

theorem u32_le (n : Nat) : u32 n ≤ n := Nat.mod_le _ _

/-- Clearing the low bits of a word rounds down to a multiple. -/
theorem land_mask (hk : k ≤ 32) (hx : x < 2 ^ 32) : x &&& (2 ^ 32 - 2 ^ k) = x / 2 ^ k * 2 ^ k := by
  have hmask : 2 ^ 32 - 2 ^ k = 2 ^ k * (2 ^ (32 - k) - 1) := by
    rw [Nat.mul_sub, ← Nat.pow_add, Nat.add_sub_cancel' hk, Nat.mul_one]
  rw [hmask, Nat.mul_comm (x / 2 ^ k)]
  apply Nat.eq_of_testBit_eq
  intro i
  rw [Nat.testBit_and, Nat.testBit_two_pow_mul, Nat.testBit_two_pow_mul,
    Nat.testBit_two_pow_sub_one, Nat.testBit_div_two_pow]
  by_cases hi : k ≤ i
  · rw [Nat.sub_add_cancel hi]
    by_cases hi32 : i < 32
    · simp [hi, show i - k < 32 - k by omega]
    · have hpow : x < 2 ^ i :=
        lt_of_lt_of_le hx (Nat.pow_le_pow_right (by norm_num) (by omega))
      simp [hi, Nat.testBit_lt_two_pow hpow]
  · simp [hi]

theorem land_mask16 (hx : x < 2 ^ 32) : x &&& (2 ^ 32 - 16) = x / 16 * 16 :=
  land_mask (k := 4) (by norm_num) hx

/-- Byte `k` of a word, counted from the low end. -/
def wordByte (v k : Nat) : UInt8 := UInt8.ofNat (v / 256 ^ k)

/-- The 32-bit word stored at `a`. -/
def read32 (m : ByteMem) (a : Nat) : Nat :=
  (m a).toNat + 256 * (m (a + 1)).toNat + 65536 * (m (a + 2)).toNat
    + 16777216 * (m (a + 3)).toNat

/-- Store the low 32 bits of `v` at `a`. -/
def write32 (m : ByteMem) (a v : Nat) : ByteMem := fun x =>
  if a ≤ x ∧ x < a + 4 then wordByte v (x - a) else m x

/-- Store the same byte at the `n` addresses from `a` on (`memset`). -/
def fill (m : ByteMem) (a n : Nat) (v : UInt8) : ByteMem := fun x =>
  if a ≤ x ∧ x < a + n then v else m x

/-- Copy the `n` bytes at `src` to `dst`, for ranges apart (`memcpy`). -/
def copyBytes (m : ByteMem) (dst src n : Nat) : ByteMem := fun x =>
  if dst ≤ x ∧ x < dst + n then m (src + (x - dst)) else m x

/-! ## Words -/

theorem read32_lt (m : ByteMem) (a : Nat) : read32 m a < 2 ^ 32 := by
  have h0 := (m a).toNat_lt
  have h1 := (m (a + 1)).toNat_lt
  have h2 := (m (a + 2)).toNat_lt
  have h3 := (m (a + 3)).toNat_lt
  unfold read32
  omega

theorem read32_congr (h : ∀ x, a ≤ x → x < a + 4 → m x = m' x) : read32 m a = read32 m' a := by
  unfold read32
  rw [h a (by omega) (by omega), h (a + 1) (by omega) (by omega),
    h (a + 2) (by omega) (by omega), h (a + 3) (by omega) (by omega)]

@[simp] theorem read32_write32 (m : ByteMem) (a v : Nat) : read32 (write32 m a v) a = u32 v := by
  have h0 : a ≤ a ∧ a < a + 4 := by omega
  have h1 : a ≤ a + 1 ∧ a + 1 < a + 4 := by omega
  have h2 : a ≤ a + 2 ∧ a + 2 < a + 4 := by omega
  have h3 : a ≤ a + 3 ∧ a + 3 < a + 4 := by omega
  simp only [read32, write32, if_pos h0, if_pos h1, if_pos h2, if_pos h3, wordByte,
    UInt8.toNat_ofNat', u32, Nat.sub_self, Nat.add_sub_cancel_left]
  omega

theorem write32_outside (h : x < a ∨ a + 4 ≤ x) : write32 m a v x = m x := if_neg (by omega)

theorem read32_write32_apart {b : Nat}
    (h : b + 4 ≤ a ∨ a + 4 ≤ b) : read32 (write32 m a v) b = read32 m b :=
  read32_congr fun _ _ _ => write32_outside (by omega)

/-! ## Blocks of bytes -/

theorem fill_outside {v : UInt8} (h : x < a ∨ a + n ≤ x) : fill m a n v x = m x := if_neg (by omega)

theorem copyBytes_outside {dst src : Nat}
    (h : x < dst ∨ dst + n ≤ x) : copyBytes m dst src n x = m x := if_neg (by omega)

/-! ## Numbers of any width -/

/-- The `w`-byte number stored at `a`. -/
def readLE (m : ByteMem) : Nat → Nat → Nat
  | _, 0 => 0
  | a, w + 1 => (m a).toNat + 256 * readLE m (a + 1) w

/-- Store the low `w` bytes of `v` at `a`. -/
def writeLE (m : ByteMem) (a w v : Nat) : ByteMem := fun x =>
  if a ≤ x ∧ x < a + w then wordByte v (x - a) else m x

theorem readLE_congr {a' : Nat} (h : ∀ k < w, m (a + k) = m' (a' + k)) :
    readLE m a w = readLE m' a' w := by
  induction w generalizing a a' with
  | zero => rfl
  | succ w ih =>
    rw [readLE, ← Nat.add_zero a, h 0 (Nat.succ_pos w)]
    congr 2
    refine ih fun k hk => ?_
    have hnext := h (k + 1) (Nat.succ_lt_succ hk)
    rwa [Nat.add_comm k 1, ← Nat.add_assoc, ← Nat.add_assoc] at hnext

theorem writeLE_inside (h : k < w) : writeLE m a w v (a + k) = wordByte v k := by
  rw [writeLE, if_pos ⟨Nat.le_add_right _ _, by omega⟩, Nat.add_sub_cancel_left]

theorem writeLE_outside (h : x < a ∨ a + w ≤ x) : writeLE m a w v x = m x := if_neg (by omega)

theorem readLE_lt (m : ByteMem) (a w : Nat) : readLE m a w < 256 ^ w := by
  induction w generalizing a with
  | zero => exact Nat.one_pos
  | succ w ih =>
    have hbyte := (m a).toNat_lt
    have hrest := ih (a + 1)
    rw [readLE]
    omega

theorem readLE_writeLE (m : ByteMem) (a w v : Nat) :
    readLE (writeLE m a w v) a w = v % 256 ^ w := by
  have hread : ∀ w (m' : ByteMem) a v, (∀ k < w, m' (a + k) = wordByte v k) →
      readLE m' a w = v % 256 ^ w := by
    intro w
    induction w with
    | zero =>
      intro m' a v _
      rw [readLE, Nat.pow_zero, Nat.mod_one]
    | succ w ih =>
      intro m' a v h
      have hrest := ih m' (a + 1) (v / 256) fun k hk => by
        rw [Nat.add_assoc, Nat.add_comm 1 k, h (k + 1) (by omega), wordByte, wordByte,
          Nat.div_div_eq_div_mul, Nat.pow_succ, Nat.mul_comm]
      have hfirst := h 0 (Nat.succ_pos w)
      rw [Nat.add_zero] at hfirst
      rw [readLE, hrest, hfirst, wordByte, Nat.pow_zero, Nat.div_one, UInt8.toNat_ofNat']
      exact (Nat.pow_succ' ▸ Nat.mod_mul : v % 256 ^ (w + 1) = _).symm
  exact hread w _ a v fun k hk => writeLE_inside hk

theorem readLE_eq_zero : readLE m a w = 0 ↔ ∀ k < w, m (a + k) = 0 := by
  induction w generalizing a with
  | zero => exact ⟨fun _ _ h => absurd h (Nat.not_lt_zero _), fun _ => rfl⟩
  | succ w ih =>
    have hzero : (m a).toNat = 0 ↔ m a = 0 := UInt8.toNat_inj (b := 0)
    rw [readLE, Nat.add_eq_zero_iff, hzero, Nat.mul_eq_zero, ih]
    constructor
    · rintro ⟨h0, h⟩ k hk
      cases k with
      | zero => exact h0
      | succ k =>
        have := (h.resolve_left (by decide)) k (by omega)
        rwa [Nat.add_assoc, Nat.add_comm 1] at this
    · intro h
      refine ⟨h 0 (Nat.succ_pos w), Or.inr fun k hk => ?_⟩
      have := h (k + 1) (by omega)
      rwa [Nat.add_assoc, Nat.add_comm 1]

/-- The low `w` bytes of `v` as a list. -/
def leBytes (w v : Nat) : List UInt8 := (range w).map (wordByte v)

@[simp] theorem length_leBytes (w v : Nat) : (leBytes w v).length = w := by
  rw [leBytes, length_map, length_range]

theorem leBytes_inj {v' : Nat} (hv : v < 256 ^ w) (hv' : v' < 256 ^ w)
    (h : leBytes w v = leBytes w v') : v = v' := by
  have hbytes : ∀ k < w, v / 256 ^ k % 256 = v' / 256 ^ k % 256 := by
    intro k hk
    have hk' := congrArg (fun l => l[k]?) h
    simp only [leBytes, getElem?_map, getElem?_range hk, map_some, some.injEq, wordByte] at hk'
    have := congrArg UInt8.toNat hk'
    simpa [UInt8.toNat_ofNat'] using this
  have hmod : ∀ n ≤ w, v % 256 ^ n = v' % 256 ^ n := by
    intro n
    induction n with
    | zero => intro _; rw [Nat.pow_zero, Nat.mod_one, Nat.mod_one]
    | succ n ih =>
      intro hn
      rw [Nat.mod_pow_succ, Nat.mod_pow_succ, ih (by omega), hbytes n hn]
  have hend := hmod w le_rfl
  rwa [Nat.mod_eq_of_lt hv, Nat.mod_eq_of_lt hv'] at hend

def leNat : List UInt8 → Nat
  | [] => 0
  | c :: cs => c.toNat + 256 * leNat cs

theorem leNat_lt (cs : List UInt8) : leNat cs < 256 ^ cs.length := by
  induction cs with
  | nil => exact Nat.one_pos
  | cons c =>
    have hc := c.toNat_lt
    rw [leNat, length_cons]
    omega

theorem leBytes_succ (w v : Nat) : leBytes (w + 1) v = UInt8.ofNat v :: leBytes w (v / 256) := by
  rw [leBytes, range_succ_eq_map, map_cons, List.map_map]
  congr 1
  · rw [wordByte, Nat.pow_zero, Nat.div_one]
  · refine map_congr_left fun k _ => ?_
    simp only [Function.comp, wordByte]
    rw [Nat.pow_succ', ← Nat.div_div_eq_div_mul]

theorem leNat_leBytes (h : v < 256 ^ w) : leNat (leBytes w v) = v := by
  induction w generalizing v with
  | zero =>
    rw [Nat.pow_zero, Nat.lt_one_iff] at h
    rw [h]
    rfl
  | succ w ih =>
    rw [leBytes_succ, leNat, ih (by rw [Nat.pow_succ] at h; omega), UInt8.toNat_ofNat']
    omega

theorem leBytes_leNat (cs : List UInt8) : leBytes cs.length (leNat cs) = cs := by
  induction cs with
  | nil => rfl
  | cons c cs ih =>
    have hc := c.toNat_lt
    have hdiv : (c.toNat + 256 * leNat cs) / 256 = leNat cs := by omega
    have hbyte : UInt8.ofNat (c.toNat + 256 * leNat cs) = c := by
      rw [← UInt8.toNat_inj, UInt8.toNat_ofNat']
      omega
    rw [length_cons, leBytes_succ, leNat, hdiv, hbyte, ih]

/-! ## Writing over the front -/

/-- The new bytes over the front of the old, as far as both reach. -/
def overlay (new old : List UInt8) : List UInt8 := new.take old.length ++ old.drop new.length

@[simp] theorem overlay_nil (old : List UInt8) : overlay [] old = old := by
  simp [overlay]

@[simp] theorem length_overlay (new old : List UInt8) : (overlay new old).length = old.length := by
  rw [overlay, length_append, length_take, length_drop]
  omega

theorem overlay_of_length {new old : List UInt8} (h : new.length = old.length) :
    overlay new old = new := by
  rw [overlay, take_of_length_le h.le, drop_of_length_le h.ge, append_nil]

theorem overlay_take (new old : List UInt8) :
    overlay (new.take old.length) old = overlay new old := by
  rw [overlay, overlay, take_take, Nat.min_self, length_take]
  rcases Nat.le_total old.length new.length with h | h
  · rw [Nat.min_eq_left h, drop_of_length_le le_rfl, drop_of_length_le h]
  · rw [Nat.min_eq_right h]

/-- Over two pieces, the second gets what the first leaves. -/
theorem overlay_append (new a b : List UInt8) :
    overlay new (a ++ b) = overlay (new.take a.length) a ++ overlay (new.drop a.length) b := by
  unfold overlay
  rcases Nat.le_total a.length new.length with h | h
  · rw [take_take, length_append, take_add, length_take, length_drop,
      Nat.min_eq_left h, drop_of_length_le (Nat.le_refl a.length),
      Nat.min_self, append_nil, append_assoc, drop_append,
      drop_of_length_le h, nil_append]
  · rw [take_of_length_le (show new.length ≤ (a ++ b).length by
        rw [length_append]; omega), drop_of_length_le h, take_nil, nil_append,
      length_nil, drop_zero, take_of_length_le h, drop_append_of_le_length h,
      take_of_length_le h, append_assoc]

theorem overlay_map_range (new : List UInt8) (m : ByteMem) (n : Nat) :
    overlay new ((range n).map m) = (range n).map fun k => (new[k]?).getD (m k) := by
  refine ext_getElem? fun k => ?_
  unfold overlay
  rw [getElem?_append, length_take, length_map, length_range]
  by_cases hk : k < n
  · rcases Nat.lt_or_ge k new.length with hnew | hnew
    · rw [if_pos (by omega), getElem?_take_of_lt hk, getElem?_map,
        getElem?_range hk, map_some, getElem?_eq_getElem hnew, getD_some]
    · rw [if_neg (by omega), getElem?_drop, Nat.min_eq_right (by omega),
        Nat.add_sub_cancel' hnew, getElem?_map, getElem?_map, getElem?_range hk,
        map_some, map_some, getElem?_eq_none hnew, getD_none]
  · rw [if_neg (by omega)]
    simp [hk]
    omega

end Blyt
