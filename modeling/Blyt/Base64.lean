import Mathlib.Tactic

/-!
# The base64 encoder

`base64_encode` of `export.rs` writes three bytes as four characters of the alphabet and fills the
last group up with `=`. The decoder is that of RFC 4648.
-/

namespace Blyt

open List

/-- `CHARS` -/
def chars64 : List Char :=
  "ABCDEFGHIJKLMNOPQRSTUVWXYZabcdefghijklmnopqrstuvwxyz0123456789+/".toList

def char64 (n : Nat) : Char :=
  chars64.getD (n &&& 63) '='

/-- `data.chunks(3)` -/
def chunks3 : List UInt8 → List (List UInt8)
  | [] => []
  | [a] => [[a]]
  | [a, b] => [[a, b]]
  | a :: b :: c :: rest => [a, b, c] :: chunks3 rest

/-- The `n` of a chunk, in which a missing byte is zero. -/
def word64 (chunk : List UInt8) : Nat :=
  (chunk.getD 0 0).toNat <<< 16 ||| (chunk.getD 1 0).toNat <<< 8 ||| (chunk.getD 2 0).toNat

def group64 (chunk : List UInt8) : List Char :=
  let n := word64 chunk
  [char64 (n >>> 18), char64 (n >>> 12),
    if 1 < chunk.length then char64 (n >>> 6) else '=',
    if 2 < chunk.length then char64 n else '=']

def base64Encode (data : List UInt8) : List Char :=
  (chunks3 data).flatMap group64

/-- The bytes that four values of six bits hold. -/
def bytes64 (x y z w : Nat) : List UInt8 :=
  let n := x * 2 ^ 18 + y * 2 ^ 12 + z * 2 ^ 6 + w
  [.ofNat (n / 2 ^ 16), .ofNat (n / 2 ^ 8), .ofNat n]

/-- Only the last group may end in `=`, and has a byte less for each. -/
def decode64 : List Char → Option (List UInt8)
  | [] => some []
  | a :: b :: c :: d :: rest => do
    let x ← chars64.idxOf? a
    let y ← chars64.idxOf? b
    if rest = [] ∧ d = '=' then
      if c = '=' then some ((bytes64 x y 0 0).take 1)
      else some ((bytes64 x y (← chars64.idxOf? c) 0).take 2)
    else some (bytes64 x y (← chars64.idxOf? c) (← chars64.idxOf? d)
      ++ (← decode64 rest))
  | _ => none

theorem char64_spec (n : Nat) : chars64.idxOf? (char64 n) = some (n % 64) ∧ char64 n ∈ chars64 := by
  have htable : ∀ k < 64, chars64.idxOf? (chars64.getD k '=') = some k
      ∧ chars64.getD k '=' ∈ chars64 := by decide +kernel
  have hmask : n &&& 63 = n % 64 := Nat.and_two_pow_sub_one_eq_mod n 6
  rw [char64, hmask]
  exact htable _ (Nat.mod_lt n (by decide))

theorem char64_ne (n : Nat) : char64 n ≠ '=' := by
  intro h
  have hmem := (char64_spec n).2
  rw [h] at hmem
  exact absurd hmem (by decide)

section

variable (a b c : UInt8)

theorem word64_eq : word64 [a, b, c] = a.toNat * 2 ^ 16 + b.toNat * 2 ^ 8 + c.toNat := by
  have hb := b.toNat_lt
  have hc := c.toNat_lt
  show a.toNat <<< 16 ||| b.toNat <<< 8 ||| c.toNat = _
  rw [Nat.or_assoc, ← Nat.shiftLeft_add_eq_or_of_lt (by omega : c.toNat < 2 ^ 8),
    ← Nat.shiftLeft_add_eq_or_of_lt (by rw [Nat.shiftLeft_eq]; omega), Nat.shiftLeft_eq,
    Nat.shiftLeft_eq, Nat.add_assoc]

/-- The values of the four characters, put together again. -/
theorem bytes64_word {n : Nat} (hn : n = word64 [a, b, c]) :
    bytes64 (n >>> 18 % 64) (n >>> 12 % 64) (n >>> 6 % 64) (n % 64) = [a, b, c] := by
  have ha := a.toNat_lt
  have hb := b.toNat_lt
  have hc := c.toNat_lt
  have hbyte : ∀ {k : Nat} {u : UInt8}, k % 256 = u.toNat → UInt8.ofNat k = u :=
    fun h => UInt8.toNat.inj (UInt8.toNat_ofNat'.trans h)
  rw [word64_eq] at hn
  simp only [Nat.shiftRight_eq_div_pow, bytes64]
  rw [hbyte (u := a) (by omega), hbyte (u := b) (by omega), hbyte (u := c) (by omega)]

theorem decode64_group {rest : List Char} {data : List UInt8} (h : decode64 rest = some data) :
    decode64 (group64 [a, b, c] ++ rest) = some (a :: b :: c :: data) := by
  have hbytes := bytes64_word a b c rfl
  simp [group64, decode64, char64_spec, char64_ne, hbytes, h]

theorem decode64_two : decode64 (group64 [a, b]) = some [a, b] := by
  have hbytes := bytes64_word a b 0 (n := word64 [a, b]) rfl
  have hlast : word64 [a, b] % 64 = 0 := by
    have hn : word64 [a, b] = _ := word64_eq a b 0
    simp at hn
    omega
  rw [hlast] at hbytes
  simp [group64, decode64, char64_spec, char64_ne, hbytes]

theorem decode64_one : decode64 (group64 [a]) = some [a] := by
  have hbytes := bytes64_word a 0 0 (n := word64 [a]) rfl
  have hlast : word64 [a] % 64 = 0 ∧ word64 [a] >>> 6 % 64 = 0 := by
    have hn : word64 [a] = _ := word64_eq a 0 0
    simp [Nat.shiftRight_eq_div_pow] at hn ⊢
    omega
  rw [hlast.1, hlast.2] at hbytes
  simp [group64, decode64, char64_spec, hbytes]

end

theorem base64Encode_spec (data : List UInt8) :
    (base64Encode data).length = 4 * ((data.length + 2) / 3) ∧
    (∃ body, base64Encode data = body ++ replicate ((3 - data.length % 3) % 3) '=' ∧
      ∀ c ∈ body, c ∈ chars64) ∧
    decode64 (base64Encode data) = some data := by
  have hchar := fun n => (char64_spec n).2
  induction data using chunks3.induct with
  | case1 => exact ⟨rfl, ⟨[], rfl, by simp⟩, rfl⟩
  | case2 a =>
    exact ⟨by simp [base64Encode, chunks3, group64],
      ⟨(group64 [a]).take 2, rfl, by simp [group64, hchar]⟩, decode64_one a⟩
  | case3 a b =>
    exact ⟨by simp [base64Encode, chunks3, group64],
      ⟨(group64 [a, b]).take 3, rfl, by simp [group64, hchar]⟩, decode64_two a b⟩
  | case4 a b c rest ih =>
    obtain ⟨hlen, ⟨body, hbody, hmem⟩, hdec⟩ := ih
    have henc : base64Encode (a :: b :: c :: rest) = group64 [a, b, c] ++ base64Encode rest := by
      rfl
    have hpad := Nat.add_mod_right rest.length 3
    refine ⟨?_, ⟨group64 [a, b, c] ++ body, by simp [henc, hbody, hpad], ?_⟩,
      decode64_group a b c hdec⟩
    · simp [henc, group64, hlen]
      omega
    · simpa [group64, hchar] using hmem

end Blyt
