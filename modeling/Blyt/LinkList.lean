import Mathlib.Tactic

/-!
# Singly linked lists through link words

A list that lives in link words: one word for the head and one word inside
each node, each naming the next node or holding `nil`. A link is `none` for
the head word and `some x` for the word inside node `x`, so a walk that keeps
a pointer to the link it came through is a walk over `Option α`.

`Chain lk nil p l` is the representation predicate: following the links from
`p` visits exactly `l`. It is cut with `chain_append` at the link that an edit
writes; the part before it is a `Seg`ment, which does not read that link.
`findLink` is the loop every list operation starts with.
-/

namespace Blyt

variable {α : Type}

/-- Following the links from `p` visits exactly `l` and then meets `nil`. -/
def Chain (lk : Option α → α) (nil : α) : Option α → List α → Prop
  | p, [] => lk p = nil
  | p, x :: l => lk p = x ∧ x ≠ nil ∧ Chain lk nil (some x) l

/-- Following the links from `p` visits `l` first. -/
def Seg (lk : Option α → α) (nil : α) : Option α → List α → Prop
  | _, [] => True
  | p, x :: l => lk p = x ∧ x ≠ nil ∧ Seg lk nil (some x) l

/-- The link at which a walk from `p` through `l` stands. -/
def endLink : Option α → List α → Option α
  | p, [] => p
  | _, x :: l => endLink (some x) l

/-- The links a walk from `p` through `l` passes. -/
def linksOf (p : Option α) (l : List α) : List (Option α) := p :: l.map some

theorem endLink_mem (p : Option α) (l : List α) : endLink p l ∈ linksOf p l := by
  induction l generalizing p with
  | nil => simp [endLink, linksOf]
  | cons x l ih =>
    have h := ih (some x)
    simp only [endLink, linksOf, List.map_cons, List.mem_cons] at h ⊢
    exact Or.inr h

variable {l : List α} {lk : Option α → α} {nil : α} {p : Option α} {l₁ l₂ : List α}
  {lk' : Option α → α} {x : α} {fuel : Nat}

theorem linksOf_none_nodup (h : l.Nodup) : (linksOf none l).Nodup := by
  simpa [linksOf] using h.map (Option.some_injective α)

theorem chain_append :
    Chain lk nil p (l₁ ++ l₂) ↔ Seg lk nil p l₁ ∧ Chain lk nil (endLink p l₁) l₂ := by
  induction l₁ generalizing p with
  | nil => simp [Seg, endLink]
  | cons x l ih => simp [Chain, Seg, endLink, ih, and_assoc]

/-- A segment does not read the link it ends at: that link may be rewritten. -/
theorem seg_congr (hnd : (linksOf p l).Nodup)
    (hlk : ∀ q ∈ linksOf p l, q ≠ endLink p l → lk' q = lk q) (h : Seg lk nil p l) :
    Seg lk' nil p l := by
  induction l generalizing p with
  | nil => trivial
  | cons x l ih =>
    obtain ⟨hp, hx, hl⟩ := h
    obtain ⟨hnp, hnd'⟩ := List.nodup_cons.mp hnd
    have hmem : endLink (some x) l ∈ linksOf (some x) l := endLink_mem _ _
    have hne : p ≠ endLink (some x) l := fun he => hnp (by rw [he]; exact hmem)
    refine ⟨(hlk p (by simp [linksOf]) hne).trans hp, hx, ih hnd' (fun q hq hqe => ?_) hl⟩
    exact hlk q (List.mem_cons_of_mem _ hq) hqe

/-- The walk determines the list. -/
theorem chain_unique {l' : List α} (h : Chain lk nil p l) (h' : Chain lk nil p l') : l = l' := by
  induction l generalizing p l' with
  | nil =>
    have hp := h
    cases l' with
    | nil => rfl
    | cons => exact absurd (h'.1.symm.trans hp) h'.2.1
  | cons x l ih =>
    obtain ⟨hp, hx, hl⟩ := h
    cases l' with
    | nil => exact absurd (hp.symm.trans h') hx
    | cons y =>
      obtain ⟨hp', -, hl'⟩ := h'
      obtain rfl : x = y := hp.symm.trans hp'
      rw [ih hl hl']

/-! ## Edits -/

/-- A list hangs off any link that holds the word its own link held. -/
theorem chain_transfer {p' : Option α} (h : Chain lk nil p l) (hp : lk' p' = lk p)
    (hrest : ∀ y ∈ l, lk' (some y) = lk (some y)) : Chain lk' nil p' l := by
  induction l generalizing p p' with
  | nil => exact hp.trans h
  | cons x l ih =>
    obtain ⟨hx, hne, hl⟩ := h
    exact ⟨hp.trans hx, hne, ih hl (hrest x (by simp)) fun y hy => hrest y (by simp [hy])⟩

theorem chain_push (h : Chain lk nil none l) (hx : x ≠ nil) (hhead : lk' none = x)
    (hnext : lk' (some x) = lk none) (hrest : ∀ y ∈ l, lk' (some y) = lk (some y)) :
    Chain lk' nil none (x :: l) :=
  ⟨hhead, hx, chain_transfer h hnext hrest⟩

section

variable (h : Chain lk nil none (l₁ ++ x :: l₂))
include h

section

variable (hnd : (l₁ ++ x :: l₂).Nodup)
include hnd

/-- What an edit at the end of the first part keeps: that part, and the links
of the second. -/
theorem chain_cut (hkeep : ∀ q ∈ linksOf none (l₁ ++ l₂), q ≠ endLink none l₁ → lk' q = lk q) :
    Seg lk' nil none l₁ ∧ ∀ y ∈ l₂, lk' (some y) = lk (some y) := by
  obtain ⟨hnd1, -, hdis⟩ := List.nodup_append.mp hnd
  have hmem : endLink none l₁ ∈ linksOf none l₁ := endLink_mem _ _
  constructor
  · refine seg_congr (linksOf_none_nodup hnd1) (fun q hq hne => hkeep q ?_ hne)
      (chain_append.mp h).1
    simp only [linksOf, List.map_append, List.mem_cons, List.mem_append] at hq ⊢
    tauto
  · intro y hy
    refine hkeep _ (by simp [linksOf, hy]) fun he => ?_
    rw [← he] at hmem
    have hy1 : y ∈ l₁ := by simpa [linksOf] using hmem
    exact hdis y hy1 y (List.mem_cons_of_mem _ hy) rfl

theorem chain_unlink (hprev : lk' (endLink none l₁) = lk (some x))
    (hkeep : ∀ q ∈ linksOf none (l₁ ++ l₂), q ≠ endLink none l₁ → lk' q = lk q) :
    Chain lk' nil none (l₁ ++ l₂) := by
  obtain ⟨-, -, -, hl⟩ := chain_append.mp h
  obtain ⟨hseg, hrest⟩ := chain_cut h hnd hkeep
  exact chain_append.mpr ⟨hseg, chain_transfer hl hprev hrest⟩

theorem chain_replace {y : α}
    (hy : y ≠ nil) (hprev : lk' (endLink none l₁) = y) (hnext : lk' (some y) = lk (some x))
    (hkeep : ∀ q ∈ linksOf none (l₁ ++ l₂), q ≠ endLink none l₁ → lk' q = lk q) :
    Chain lk' nil none (l₁ ++ y :: l₂) := by
  obtain ⟨-, -, -, hl⟩ := chain_append.mp h
  obtain ⟨hseg, hrest⟩ := chain_cut h hnd hkeep
  exact chain_append.mpr ⟨hseg, hprev, hy, chain_transfer hl hnext hrest⟩

end

end

/-! ## The search loop -/

/-- How a walk along the links ends. -/
inductive Walk (α : Type) where
  | diverges
  | absent
  | at (link : Option α)
  deriving DecidableEq, Repr

/-- Walk from link `p` to the first link whose node satisfies `stop`, for at
most `fuel` rounds of the loop. -/
def findLink [DecidableEq α] (lk : Option α → α) (nil : α) (stop : α → Bool) :
    Nat → Option α → Walk α
  | 0, _ => .diverges
  | fuel + 1, p =>
    if lk p = nil then .absent
    else if stop (lk p) then .at p
    else findLink lk nil stop fuel (some (lk p))

/-- **On a chain the walk ends**, at the first node that satisfies `stop` or at
the end of the list, if the loop may run once per node and once more. -/
theorem findLink_chain [DecidableEq α] (stop : α → Bool) (h : Chain lk nil p l)
    (hfuel : l.length < fuel) :
    (findLink lk nil stop fuel p = .absent ∧ ∀ x ∈ l, stop x = false) ∨
    (∃ l₁ x l₂, l = l₁ ++ x :: l₂ ∧ findLink lk nil stop fuel p = .at (endLink p l₁)
      ∧ stop x = true ∧ ∀ y ∈ l₁, stop y = false) := by
  induction l generalizing p fuel with
  | nil =>
    obtain ⟨fuel, rfl⟩ : ∃ n, fuel = n + 1 := ⟨fuel - 1, by omega⟩
    have hp : lk p = nil := h
    exact Or.inl ⟨by simp [findLink, hp], by simp⟩
  | cons x l ih =>
    obtain ⟨fuel, rfl⟩ : ∃ n, fuel = n + 1 := ⟨fuel - 1, by omega⟩
    obtain ⟨hp, hx, hl⟩ := h
    by_cases hs : stop x = true
    · exact Or.inr ⟨[], x, l, rfl, by simp [findLink, hp, hx, hs, endLink], hs, by simp⟩
    · have hs' : stop x = false := by simpa using hs
      have hstep : findLink lk nil stop (fuel + 1) p = findLink lk nil stop fuel (some x) := by
        simp [findLink, hp, hx, hs']
      rcases ih hl (by simpa using hfuel) with ⟨hr, hall⟩ | ⟨l₁, y, l₂, rfl, hr, hy, hall⟩
      · exact Or.inl ⟨hstep.trans hr, by simpa [hs'] using hall⟩
      · exact Or.inr ⟨x :: l₁, y, l₂, rfl, hstep.trans hr, hy, by simpa [hs'] using hall⟩

/-- The walk reads only the links of the chain and the nodes on it. -/
theorem findLink_congr [DecidableEq α] {stop stop' : α → Bool} (h : Chain lk nil p l)
    (hfuel : l.length < fuel) (hlk : ∀ q ∈ linksOf p l, lk' q = lk q)
    (hstop : ∀ x ∈ l, stop' x = stop x) :
    findLink lk' nil stop' fuel p = findLink lk nil stop fuel p := by
  induction l generalizing p fuel with
  | nil =>
    obtain ⟨fuel, rfl⟩ : ∃ n, fuel = n + 1 := ⟨fuel - 1, by omega⟩
    have hp : lk p = nil := h
    rw [findLink, findLink, hlk p (by simp [linksOf]), if_pos hp, if_pos hp]
  | cons x l ih =>
    obtain ⟨fuel, rfl⟩ : ∃ n, fuel = n + 1 := ⟨fuel - 1, by omega⟩
    obtain ⟨rfl, hx, hl⟩ := h
    have hrest := ih hl (by simpa using hfuel) (fun q hq => hlk q (List.mem_cons_of_mem _ hq))
      fun y hy => hstop y (List.mem_cons_of_mem _ hy)
    rw [findLink, findLink, hlk p (by simp [linksOf]), hstop _ List.mem_cons_self, hrest]

end Blyt
