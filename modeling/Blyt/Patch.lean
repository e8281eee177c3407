import Blyt.ByteMem

/-!
# Stores as data

A procedure that changes a memory only by storing ranges of bytes is known by
the list of its stores. What a byte is afterwards then depends on the list
alone: on the last store that covers it, or on the old memory if there is none.
The lemmas say this in the two forms in which it is used: a byte no store covers
is unchanged, and a byte all covering stores agree on is what they say.
-/

namespace Blyt

/-- One store: a range and its bytes, counted from the start. -/
structure Patch where
  start : Nat
  len : Nat
  byte : Nat → UInt8

namespace Patch

def Covers (p : Patch) (x : Nat) : Prop := p.start ≤ x ∧ x < p.start + p.len

instance (p : Patch) (x : Nat) : Decidable (p.Covers x) := inferInstanceAs (Decidable (_ ∧ _))

def apply (m : ByteMem) (p : Patch) : ByteMem := fun x =>
  if p.Covers x then p.byte (x - p.start) else m x

def word (a v : Nat) : Patch := ⟨a, 4, wordByte v⟩

/-- `memset` to 0. -/
def zeros (a n : Nat) : Patch := ⟨a, n, fun _ => 0⟩

variable {m : ByteMem} {p : Patch} {x : Nat}

theorem apply_covers (h : p.Covers x) : apply m p x = p.byte (x - p.start) := if_pos h

theorem apply_apart (h : ¬p.Covers x) : apply m p x = m x :=
  if_neg h

end Patch

def patchAll (m : ByteMem) (ps : List Patch) : ByteMem := ps.foldl Patch.apply m

theorem patchAll_append (m : ByteMem) (ps qs : List Patch) :
    patchAll m (ps ++ qs) = patchAll (patchAll m ps) qs := List.foldl_append

variable {m : ByteMem} {ps : List Patch} {x a : Nat}

theorem patchAll_apart (h : ∀ p ∈ ps, ¬p.Covers x) : patchAll m ps x = m x := by
  induction ps generalizing m with
  | nil => rfl
  | cons p ps ih =>
    have hrest := ih (m := Patch.apply m p) fun q hq => h q (List.mem_cons_of_mem _ hq)
    exact hrest.trans (Patch.apply_apart (h p List.mem_cons_self))

/-- All stores that cover the byte agree on it. -/
theorem patchAll_agree {b : UInt8} (hex : ∃ p ∈ ps, p.Covers x)
    (hb : ∀ p ∈ ps, p.Covers x → p.byte (x - p.start) = b) : patchAll m ps x = b := by
  induction ps generalizing m with
  | nil =>
    obtain ⟨p, hp, -⟩ := hex
    cases hp
  | cons p ps ih =>
    show patchAll (Patch.apply m p) ps x = b
    by_cases hrest : ∃ q ∈ ps, q.Covers x
    · exact ih hrest fun q hq => hb q (List.mem_cons_of_mem _ hq)
    · -- only the first store covers it
      rw [patchAll_apart fun q hq hc => hrest ⟨q, hq, hc⟩]
      obtain ⟨q, hq, hc⟩ := hex
      rcases List.mem_cons.mp hq with rfl | hq
      · rw [Patch.apply_covers hc]
        exact hb q List.mem_cons_self hc
      · exact absurd ⟨q, hq, hc⟩ hrest

/-- What is covered does not depend on what was there. -/
theorem patchAll_congr {m' : ByteMem} (h : ∃ p ∈ ps, p.Covers x) :
    patchAll m ps x = patchAll m' ps x := by
  induction ps generalizing m m' with
  | nil =>
    obtain ⟨p, hp, -⟩ := h
    cases hp
  | cons p ps ih =>
    show patchAll (Patch.apply m p) ps x = patchAll (Patch.apply m' p) ps x
    by_cases hrest : ∃ q ∈ ps, q.Covers x
    · exact ih hrest
    · obtain ⟨q, hq, hc⟩ := h
      have hp : p.Covers x := by
        rcases List.mem_cons.mp hq with rfl | hq
        · exact hc
        · exact absurd ⟨q, hq, hc⟩ hrest
      rw [patchAll_apart fun q hq hc => hrest ⟨q, hq, hc⟩,
        patchAll_apart fun q hq hc => hrest ⟨q, hq, hc⟩, Patch.apply_covers hp,
        Patch.apply_covers hp]

/-- A word that is stored, with no other store on its bytes. -/
theorem read32_patchAll {v : Nat} (hw : Patch.word a v ∈ ps)
    (hone : ∀ p ∈ ps, ∀ x, a ≤ x → x < a + 4 → p.Covers x → p = Patch.word a v) :
    read32 (patchAll m ps) a = u32 v := by
  have hbytes : ∀ x, a ≤ x → x < a + 4 → patchAll m ps x = write32 m a v x := by
    intro x h1 h2
    rw [write32, if_pos ⟨h1, h2⟩]
    refine patchAll_agree ⟨_, hw, h1, h2⟩ fun p hp hc => ?_
    rw [hone p hp x h1 h2 hc]
    rfl
  rw [read32_congr hbytes, read32_write32]

theorem read32_patchAll_apart (h : ∀ p ∈ ps, ∀ x, a ≤ x → x < a + 4 → ¬p.Covers x) :
    read32 (patchAll m ps) a = read32 m a :=
  read32_congr fun x h1 h2 => patchAll_apart fun p hp => h p hp x h1 h2

/-- Stores leave every memory as it is only if they are empty. -/
theorem patchAll_eq_self_iff : (∀ m, patchAll m ps = m) ↔ ∀ p ∈ ps, p.len = 0 := by
  constructor
  · intro h p hp
    by_contra hlen
    have hcovers : p.Covers p.start := ⟨le_rfl, by omega⟩
    -- what the byte is afterwards does not depend on what it was
    have hsame : patchAll (fun _ => 0) ps p.start = patchAll (fun _ => 1) ps p.start :=
      patchAll_congr ⟨p, hp, hcovers⟩
    rw [h, h] at hsame
    exact absurd hsame (by decide)
  · intro h m
    funext x
    refine patchAll_apart fun p hp hc => ?_
    obtain ⟨hlo, hhi⟩ := hc
    have := h p hp
    omega

end Blyt
