import Mathlib.Tactic

/-!
# The 64-bit division builtins

`softfloat_builtins.c` divides `long long` values by shift and subtract, and its signed builtins
fix the signs around the unsigned ones. A signed value is its two's complement word, and its
negation wraps.
-/

namespace Blyt

open BitVec

/-- One round of the loops of `__udivdi3` and `__umoddi3`, on `(q, r)`. -/
def divRound (a b : BitVec 64) (i : Nat) (s : BitVec 64 × BitVec 64) : BitVec 64 × BitVec 64 :=
  let r := s.2 <<< 1 ||| (a >>> i &&& 1#64)
  if b ≤ r then (s.1 ||| 1#64 <<< i, r - b) else (s.1, r)

/-- The rounds from `i = n - 1` down to 0; `__umoddi3` makes them without the quotient. -/
def divLoop (a b : BitVec 64) : Nat → BitVec 64 × BitVec 64 → BitVec 64 × BitVec 64
  | 0, s => s
  | i + 1, s => divLoop a b i (divRound a b i s)

def udivdi3 (a b : BitVec 64) : BitVec 64 :=
  if b = 0 then 0 else (divLoop a b 64 (0, 0)).1

def umoddi3 (a b : BitVec 64) : BitVec 64 :=
  if b = 0 then 0 else (divLoop a b 64 (0, 0)).2

/-- The `ua` and `ub` of the signed builtins. -/
def magnitude (a : BitVec 64) : BitVec 64 :=
  if a.slt 0#64 then ~~~a + 1#64 else a

def divdi3 (a b : BitVec 64) : BitVec 64 :=
  let q := udivdi3 (magnitude a) (magnitude b)
  if a.slt 0#64 ^^ b.slt 0#64 then -q else q

def moddi3 (a b : BitVec 64) : BitVec 64 :=
  let r := umoddi3 (magnitude a) (magnitude b)
  if a.slt 0#64 then -r else r

variable {a b : BitVec 64}

theorem shiftConcat_eq (x : BitVec 64) (i : Nat) :
    x.shiftConcat (a.getLsbD i) = x <<< 1 ||| (a >>> i &&& 1#64) := by
  ext k
  cases k <;> simp [getElem_shiftConcat]

theorem shiftLeft_shiftConcat (x : BitVec 64) (c : Bool) (i : Nat) :
    x.shiftConcat c <<< i = x <<< (i + 1) ||| bif c then 1#64 <<< i else 0 := by
  have hx : x.shiftConcat c = x <<< 1 ||| bif c then 1#64 else 0 := by
    ext k
    cases k <;> cases c <;> simp [getElem_shiftConcat]
  rw [hx, shiftLeft_or_distrib, Nat.add_comm, shiftLeft_add]
  cases c <;> simp

/-- The library's long division keeps the quotient at the low end, the loop in its place. -/
theorem divRound_eq {i : Nat} {st : DivModState 64} (hwn : st.wn = i + 1) :
    divRound a b i (st.q <<< (i + 1), st.r)
      = ((divSubtractShift ⟨a, b⟩ st).q <<< i, (divSubtractShift ⟨a, b⟩ st).r) := by
  have hr := shiftConcat_eq (a := a) st.r i
  simp only [divRound, divSubtractShift, hwn, Nat.add_sub_cancel, ← hr, ← BitVec.not_lt]
  split_ifs <;> simp [shiftLeft_shiftConcat]

theorem divLoop_eq {m : Nat} {st : DivModState 64} (hwn : st.wn = m) :
    divLoop a b m (st.q <<< m, st.r) = ((divRec m ⟨a, b⟩ st).q, (divRec m ⟨a, b⟩ st).r) := by
  induction m generalizing st with
  | zero => simp [divLoop]
  | succ m ih =>
    rw [divLoop, divRound_eq hwn, divRec_succ, ih]
    simp only [divSubtractShift, hwn]
    split <;> rfl

theorem pos_of_ne (hb : b ≠ 0) : 0 < b :=
  BitVec.not_le.mp fun h => hb (BitVec.le_zero_iff.mp h)

theorem unsigned_eq (hb : b ≠ 0) : udivdi3 a b = a / b ∧ umoddi3 a b = a % b := by
  have hloop := @divLoop_eq a b 64 (.init 64) rfl
  rw [udiv_eq_divRec (pos_of_ne hb), umod_eq_divRec (pos_of_ne hb), udivdi3, umoddi3, if_neg hb,
    if_neg hb]
  exact ⟨congrArg Prod.fst hloop, congrArg Prod.snd hloop⟩

theorem magnitude_eq (a : BitVec 64) : magnitude a = if a.msb then -a else a := by
  rw [magnitude, neg_eq_not_add, slt_zero_eq_msb]

theorem magnitude_ne_zero (hb : b ≠ 0) : magnitude b ≠ 0 := by
  rw [magnitude_eq]
  split
  · exact fun h => hb (neg_eq_zero_iff.mp h)
  · exact hb

theorem divdi3_eq (hb : b ≠ 0) : divdi3 a b = a.sdiv b := by
  rw [divdi3, (unsigned_eq (magnitude_ne_zero hb)).1, magnitude_eq, magnitude_eq, sdiv_eq]
  cases ha : a.msb <;> cases hb : b.msb <;> simp [slt_zero_eq_msb, ha, hb]

theorem moddi3_eq (hb : b ≠ 0) : moddi3 a b = a.srem b := by
  rw [moddi3, (unsigned_eq (magnitude_ne_zero hb)).2, magnitude_eq, magnitude_eq, srem_eq]
  cases ha : a.msb <;> cases b.msb <;> simp [slt_zero_eq_msb, ha]

theorem division_builtins (a b : BitVec 64) (hb : b ≠ 0) :
    (a.toNat = (udivdi3 a b).toNat * b.toNat + (umoddi3 a b).toNat ∧
      (umoddi3 a b).toNat < b.toNat) ∧
    (divdi3 a b).toInt = (a.toInt.tdiv b.toInt).bmod (2 ^ 64) ∧
    (moddi3 a b).toInt = a.toInt.tmod b.toInt := by
  obtain ⟨hdiv, hmod⟩ := unsigned_eq (a := a) hb
  rw [hdiv, hmod, divdi3_eq hb, moddi3_eq hb, toNat_udiv, toNat_umod, toInt_sdiv, toInt_srem]
  exact ⟨⟨(Nat.div_add_mod' _ _).symm, Nat.mod_lt _ (pos_of_ne hb)⟩, rfl, rfl⟩

theorem division_builtins_min :
    (divdi3 (intMin 64) (-1)).toInt = -2 ^ 63 ∧ (moddi3 (intMin 64) (-1)).toInt = 0 := by
  obtain ⟨-, hdiv, hmod⟩ := division_builtins (intMin 64) (-1) (by decide)
  exact ⟨hdiv.trans (by decide), hmod.trans (by decide)⟩

end Blyt
