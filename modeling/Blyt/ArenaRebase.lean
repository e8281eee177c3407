import Blyt.ArenaCache

/-!
# The allocator and the address of its region

Inside, the arena works with offsets: `base` goes into the pointers that cross its
interface and into nothing else. So the same region at another address (`Arena.rebase`)
runs in step with the first, whatever is asked of it, and its pointers have the same
offsets. This holds of any arena, in good order or not.
-/

namespace Blyt

/-- The same region at address `B`. -/
def Arena.rebase (a : Arena) (B : Nat) : Arena := { a with base := B }

/-- A pointer into the region at `A`, moved along to `B`. -/
def movePtr (A B p : Nat) : Nat := if p = 0 then 0 else B + (p - A)

/-- The result of a call on the region at `A`, moved along to `B`. -/
def moveResult (A B : Nat) (r : Nat × Arena) : Nat × Arena := (movePtr A B r.1, r.2.rebase B)

def rebaseMove {A B : Nat} (hA : A ≠ 0) (hB : B ≠ 0) : ArenaMove where
  A := A
  B := B
  ptr := movePtr A B
  words := id
  null := iff_of_false hB hA
  ptr_null p := by
    unfold movePtr
    split <;> omega
  ptr_off p := by
    unfold movePtr
    split <;> omega
  ptr_payload o := by
    unfold movePtr hdrSize
    rw [if_neg (by omega)]
    omega
  gate _ _ := rfl
  used _ _ := rfl

/-- `NULL`, or the same offset into either region. -/
def SameOffset (A B p q : Nat) : Prop := (p = 0 ∧ q = 0) ∨ ∃ x, p = A + x ∧ q = B + x

theorem SameOffset.movePtr_eq {A B p q : Nat} (hA : A ≠ 0) (h : SameOffset A B p q) :
    movePtr A B p = q := by
  unfold movePtr
  obtain ⟨rfl, rfl⟩ | ⟨x, rfl, rfl⟩ := h
  · rfl
  · rw [if_neg (by omega)]
    omega

section Rebase

variable {a : Arena} {B : Nat}

theorem rebaseMove_arena {A : Nat} (hA : A ≠ 0) (hB : B ≠ 0) :
    (rebaseMove hA hB).arena = (·.rebase B) := by
  funext b
  simp only [ArenaMove.arena, rebaseMove, Option.map_id_fun, id]
  rfl

variable (hA : a.base ≠ 0) (hB : B ≠ 0)
include hA hB

theorem arenaFree_rebase (x : Nat) :
    arenaFree (a.rebase B) (B + x) = (arenaFree a (a.base + x)).map (·.rebase B) := by
  have h := (rebaseMove hA hB).arenaFree_eq rfl (a.base + x)
  have hptr : movePtr a.base B (a.base + x) = B + x :=
    SameOffset.movePtr_eq hA (.inr ⟨x, rfl, rfl⟩)
  rwa [rebaseMove_arena, show (rebaseMove hA hB).ptr (a.base + x) = B + x from hptr] at h

/-- **Every call moves along with the region.** `realloc` of `NULL` is `malloc`. -/
theorem arenaReallocCore_move {p q : Nat} (hpq : SameOffset a.base B p q) (n : Nat)
    (noacct : Bool) :
    arenaReallocCore (a.rebase B) q n noacct
      = (arenaReallocCore a p n noacct).map (moveResult a.base B) := by
  have h := (rebaseMove hA hB).arenaReallocCore_eq rfl p n noacct
  have hresult : (rebaseMove hA hB).result = moveResult a.base B := by
    funext r
    rw [ArenaMove.result, rebaseMove_arena]
    rfl
  rwa [rebaseMove_arena, hresult, show (rebaseMove hA hB).ptr p = q from hpq.movePtr_eq hA] at h

end Rebase

end Blyt
