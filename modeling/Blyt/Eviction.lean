import Blyt.Resource
import Mathlib.Data.List.Sort

/-!
# Eviction is least recently used first

`blyt_resource_table_evict_to_fit` looks for the oldest evictable entry anew in every
round. Seen from outside it works off a queue: the entries it may evict, by last access
and then by place in the table. One round takes the head of the queue (`lruQueue_round`),
so the rounds together take a prefix, and the total that is recomputed each time is the
sum of what is left in the queue.
-/

namespace Blyt

open List Option

/-! ## The queue -/

/-- Resident, unpinned and not persistent: what the loop may evict. -/
def evictCandidate (e : ResEntry) : Bool := e.owned && !e.persistent && rlIsEvictable e

/-- `x` goes before `y`: its last access is older, or the same and it is earlier in the table. -/
def lruBefore (x y : ResEntry × Nat) : Prop :=
  x.1.lastAccess < y.1.lastAccess ∨ x.1.lastAccess = y.1.lastAccess ∧ x.2 ≤ y.2

instance : DecidableRel lruBefore := fun x y =>
  inferInstanceAs (Decidable (x.1.lastAccess < y.1.lastAccess
    ∨ x.1.lastAccess = y.1.lastAccess ∧ x.2 ≤ y.2))

instance : Std.Total lruBefore := ⟨fun x y => by unfold lruBefore; omega⟩

instance : IsTrans (ResEntry × Nat) lruBefore := ⟨fun x y z => by unfold lruBefore; omega⟩

/-- The candidates with their places in the table. -/
def lruCandidates (es : List ResEntry) : List (ResEntry × Nat) :=
  es.zipIdx.filter fun x => evictCandidate x.1

def lruQueue (es : List ResEntry) : List (ResEntry × Nat) :=
  (lruCandidates es).insertionSort lruBefore

def queueBytes (q : List (ResEntry × Nat)) : Nat := (q.map fun x => x.1.len).sum

variable {es : List ResEntry} {x : ResEntry × Nat} {q : List (ResEntry × Nat)} {t : ResTable}
  {v : Option Nat} {e : ResEntry} {i bound : Nat} {t' : ResTable} {k : Nat}

theorem mem_lruCandidates :
    x ∈ lruCandidates es ↔ es[x.2]? = some x.1 ∧ evictCandidate x.1 = true := by
  rw [lruCandidates, mem_filter, mem_zipIdx_iff_getElem?]

theorem mem_lruQueue : x ∈ lruQueue es ↔ es[x.2]? = some x.1 ∧ evictCandidate x.1 = true := by
  rw [lruQueue, mem_insertionSort, mem_lruCandidates]

theorem lruQueue_pairwise (es : List ResEntry) : (lruQueue es).Pairwise lruBefore :=
  pairwise_insertionSort _ _

/-- Two queued entries of which each goes before the other are one. -/
theorem lruBefore_antisymm {y : ResEntry × Nat} (hx : es[x.2]? = some x.1)
    (hy : es[y.2]? = some y.1) (hxy : lruBefore x y) (hyx : lruBefore y x) : x = y := by
  have hidx : x.2 = y.2 := by
    unfold lruBefore at hxy hyx
    omega
  rw [hidx, hy] at hx
  exact Prod.ext (some.inj hx).symm hidx

/-- The queue is the only list of the candidates in this order. -/
theorem lruQueue_unique
    (hperm : q.Perm (lruCandidates es)) (hq : q.Pairwise lruBefore) : lruQueue es = q := by
  have hp : (lruQueue es).Perm q := (perm_insertionSort _ _).trans hperm.symm
  refine hp.eq_of_pairwise (fun x y hx hy hxy hyx => ?_) (lruQueue_pairwise es) hq
  have hy' := hp.mem_iff.mpr hy
  exact lruBefore_antisymm (mem_lruQueue.mp hx).1 (mem_lruQueue.mp hy').1 hxy hyx

/-- The total the loop recomputes is what the queue holds. -/
theorem residentEvictable_eq (h : (t.entries.map ResEntry.len).sum < 2 ^ 32) :
    resourceTableResidentEvictable t = queueBytes (lruQueue t.entries) := by
  have hsum : ∀ (es : List ResEntry) (n : Nat),
      (es.map fun e => if evictCandidate e then e.len else 0).sum
        = queueBytes ((es.zipIdx n).filter fun x => evictCandidate x.1) := by
    intro es
    induction es with
    | nil => intro n; rfl
    | cons e es ih =>
      intro n
      rw [map_cons, sum_cons, ih (n + 1), zipIdx_cons, filter_cons]
      cases evictCandidate e <;> simp [queueBytes]
  have hperm : queueBytes (lruQueue t.entries) = queueBytes (lruCandidates t.entries) :=
    ((perm_insertionSort lruBefore (lruCandidates t.entries)).map _).sum_eq
  rw [resourceTableResidentEvictable, sumLens_eq _ h, hperm, lruCandidates, ← hsum]
  rfl

/-! ## One round -/

/-- `v` is what the scan holds after the first `n` entries. -/
def ScanHolds (es : List ResEntry) (n : Nat) : Option Nat → Prop
  | none => ∀ x, x.2 < n → x ∉ lruCandidates es
  | some i => ∃ e, (e, i) ∈ lruCandidates es ∧ i < n
      ∧ ∀ x ∈ lruCandidates es, x.2 < n → lruBefore (e, i) x

/-- What the scan of `lruVictim` does at one entry. -/
def lruScan (es : List ResEntry) (victim : Option Nat) (x : ResEntry × Nat) : Option Nat :=
  if !x.1.owned || x.1.persistent || !rlIsEvictable x.1 then victim
  else match victim with
    | none => some x.2
    | some j => if x.1.lastAccess < es[j]?.elim 0 ResEntry.lastAccess then some x.2 else victim

theorem lruScan_of_candidate (h : evictCandidate x.1 = true) : lruScan es v x = match v with
      | none => some x.2
      | some j => if x.1.lastAccess < es[j]?.elim 0 ResEntry.lastAccess then some x.2 else v := by
  have hskip : (!x.1.owned || x.1.persistent || !rlIsEvictable x.1) = false := by
    simp only [evictCandidate, Bool.and_eq_true, Bool.not_eq_true'] at h
    simp [h]
  unfold lruScan
  rw [hskip, if_neg Bool.false_ne_true]

theorem lruScan_of_not (h : evictCandidate x.1 = false) : lruScan es v x = v := by
  have hskip : (!x.1.owned || x.1.persistent || !rlIsEvictable x.1) = true := by
    rw [← Bool.not_eq_true', evictCandidate] at h
    simpa [Bool.or_assoc] using h
  unfold lruScan
  rw [hskip, if_pos rfl]

theorem ScanHolds.step {n : Nat} (he : es[n]? = some e) (hv : ScanHolds es n v) :
    ScanHolds es (n + 1) (lruScan es v (e, n)) := by
  have hlast : ∀ x ∈ lruCandidates es, x.2 < n + 1 → x.2 < n ∨ x = (e, n) := by
    intro x hx hlt
    rcases Nat.lt_succ_iff_lt_or_eq.mp hlt with h | h
    · exact .inl h
    · have hat := (mem_lruCandidates.mp hx).1
      rw [h, he] at hat
      exact .inr (Prod.ext (some.inj hat).symm h)
  have hrefl : lruBefore (e, n) (e, n) := .inr ⟨rfl, le_rfl⟩
  cases hc : evictCandidate e with
  | false =>
    have hne : (e, n) ∉ lruCandidates es := fun h => by
      rw [(mem_lruCandidates.mp h).2] at hc
      exact Bool.noConfusion hc
    rw [lruScan_of_not hc]
    cases v with
    | none =>
      intro x hx hmem
      rcases hlast x hmem hx with h | rfl
      · exact hv x h hmem
      · exact hne hmem
    | some =>
      obtain ⟨e0, hmem0, hi, hmin⟩ := hv
      refine ⟨e0, hmem0, by omega, fun x hx hlt => ?_⟩
      rcases hlast x hx hlt with h | rfl
      · exact hmin x hx h
      · exact absurd hx hne
  | true =>
    have hmem : (e, n) ∈ lruCandidates es := mem_lruCandidates.mpr ⟨he, hc⟩
    rw [lruScan_of_candidate hc]
    cases v with
    | none =>
      refine ⟨e, hmem, by omega, fun x hx hlt => ?_⟩
      rcases hlast x hx hlt with h | rfl
      · exact absurd hx (hv x h)
      · exact hrefl
    | some i =>
      obtain ⟨e0, hmem0, hi, hmin⟩ := hv
      have hat : es[i]?.elim 0 ResEntry.lastAccess = e0.lastAccess := by
        rw [(mem_lruCandidates.mp hmem0).1]
        rfl
      simp only [hat]
      split <;> rename_i hlt
      · refine ⟨e, hmem, by omega, fun x hx hx' => ?_⟩
        rcases hlast x hx hx' with h | rfl
        · exact trans_of lruBefore (show lruBefore (e, n) (e0, i) from .inl hlt) (hmin x hx h)
        · exact hrefl
      · refine ⟨e0, hmem0, by omega, fun x hx hx' => ?_⟩
        rcases hlast x hx hx' with h | rfl
        · exact hmin x hx h
        · -- an equal stamp does not displace the earlier entry
          show e0.lastAccess < e.lastAccess ∨ e0.lastAccess = e.lastAccess ∧ i ≤ n
          omega

theorem lruVictim_holds (es : List ResEntry) : ScanHolds es es.length (lruVictim es) := by
  have scan : ∀ (suf : List ResEntry) (n : Nat) (v : Option Nat), es.drop n = suf →
      ScanHolds es n v → ScanHolds es (n + suf.length) ((suf.zipIdx n).foldl (lruScan es) v) := by
    intro suf
    induction suf with
    | nil => intro n v _ hv; exact hv
    | cons e suf ih =>
      intro n v hsuf hv
      have he : es[n]? = some e := by rw [← head?_drop, hsuf, head?_cons]
      have hrest : es.drop (n + 1) = suf := by rw [← tail_drop, hsuf, tail_cons]
      rw [length_cons, Nat.add_comm suf.length 1, ← Nat.add_assoc]
      exact ih (n + 1) _ hrest (hv.step he)
  have hall := scan es 0 none rfl (fun x hx => absurd hx (Nat.not_lt_zero _))
  rw [Nat.zero_add] at hall
  exact hall

theorem lruCandidates_lt (h : x ∈ lruCandidates es) : x.2 < es.length :=
  (List.getElem?_eq_some_iff.mp (mem_lruCandidates.mp h).1).1

/-- **The scan finds the head of the queue.** -/
theorem lruVictim_eq (es : List ResEntry) : lruVictim es = (lruQueue es).head?.map Prod.snd := by
  have hv := lruVictim_holds es
  have hmem : ∀ x, x ∈ lruQueue es ↔ x ∈ lruCandidates es := fun x => by
    rw [mem_lruQueue, mem_lruCandidates]
  cases hq : lruQueue es with
  | nil =>
    cases hvic : lruVictim es with
    | none => rfl
    | some =>
      rw [hvic] at hv
      obtain ⟨e, he, -⟩ := hv
      rw [← hmem, hq] at he
      exact absurd he not_mem_nil
  | cons x q =>
    have hx := (hmem x).mp (by rw [hq]; exact mem_cons_self)
    cases hvic : lruVictim es with
    | none =>
      rw [hvic] at hv
      exact absurd hx (hv x (lruCandidates_lt hx))
    | some i =>
      rw [hvic] at hv
      obtain ⟨e, he, -, hmin⟩ := hv
      -- both are first among the candidates
      have hfirst : lruBefore x (e, i) := by
        have heq : (e, i) ∈ x :: q := by rw [← hq, hmem]; exact he
        rcases mem_cons.mp heq with h | h
        · rw [h]
          exact .inr ⟨rfl, le_rfl⟩
        · have hp := lruQueue_pairwise es
          rw [hq] at hp
          exact rel_of_pairwise_cons hp h
      have hxe := lruBefore_antisymm (mem_lruCandidates.mp hx).1 (mem_lruCandidates.mp he).1
        hfirst (hmin x hx (lruCandidates_lt hx))
      rw [head?_cons, map_some, hxe]

def dropBytes (e : ResEntry) : ResEntry := { e with owned := false, data := none }

theorem resourceEntryEvict_candidate (h : evictCandidate e = true) :
    (resourceEntryEvict e).2 = dropBytes e := by
  simp only [evictCandidate, Bool.and_eq_true, Bool.not_eq_true'] at h
  simp [resourceEntryEvict, dropBytes, h]

/-- **A round takes the head of the queue** and leaves the rest as it was. -/
theorem lruQueue_round (hq : lruQueue es = (e, i) :: q) :
    lruVictim es = some i ∧ es[i]? = some e ∧ evictCandidate e = true
      ∧ lruQueue (es.set i (dropBytes e)) = q := by
  have hmem : (e, i) ∈ lruQueue es := by rw [hq]; exact mem_cons_self
  obtain ⟨hat, hc⟩ : es[i]? = some e ∧ evictCandidate e = true := mem_lruQueue.mp hmem
  refine ⟨by rw [lruVictim_eq, hq]; rfl, hat, hc, ?_⟩
  -- the candidates of the new table are those of the old one without the evicted entry
  have hperm : ((e, i) :: lruCandidates (es.set i (dropBytes e))).Perm (lruCandidates es) := by
    obtain ⟨hlt, rfl⟩ := List.getElem?_eq_some_iff.mp hat
    have hsplit : es = es.take i ++ es[i] :: es.drop (i + 1) := by simp
    have hlen : (es.take i).length = i := length_take_of_le hlt.le
    have hset : es.set i (dropBytes es[i]) = es.take i ++ dropBytes es[i] :: es.drop (i + 1) :=
      set_eq_take_append_cons_drop.trans (if_pos hlt)
    rw [hset]
    conv_rhs => rw [hsplit]
    simp only [lruCandidates, zipIdx_append, zipIdx_cons, filter_append, hlen,
      Nat.zero_add, filter_cons, hc, if_true]
    exact perm_middle.symm
  have hrest : q.Perm (lruCandidates (es.set i (dropBytes e))) := by
    have h1 : ((e, i) :: q).Perm (lruCandidates es) := by
      rw [← hq]
      exact perm_insertionSort _ _
    exact (h1.trans hperm.symm).cons_inv
  have hp := lruQueue_pairwise es
  rw [hq] at hp
  exact lruQueue_unique hrest (pairwise_cons.mp hp).2

/-! ## All rounds -/

/-- The loop with its rounds counted: `none` is a loop that is still running after `fuel`
rounds. -/
def evictRounds : Nat → ResTable → Nat → Option ResTable
  | 0, _, _ => none
  | fuel + 1, t, bound =>
    if resourceTableResidentEvictable t ≤ bound then some t
    else
      match lruVictim t.entries with
      | none => some t
      | some i =>
        match t.entries[i]? with
        | none => some t
        | some e => evictRounds fuel (setEntry t i (resourceEntryEvict e).2) bound

/-- `t'` is `t` after the first `k` entries of its queue have lost their bytes, where `k` is
the least number that brings the rest within `bound`, or all of them. -/
structure EvictedPrefix (t t' : ResTable) (bound k : Nat) : Prop where
  enough : queueBytes ((lruQueue t.entries).drop k) ≤ bound ∨ k = (lruQueue t.entries).length
  least : ∀ j < k, bound < queueBytes ((lruQueue t.entries).drop j)
  entries : ∀ j, t'.entries[j]? = (t.entries[j]?).map fun e =>
    if j ∈ ((lruQueue t.entries).take k).map Prod.snd then dropBytes e else e
  clock : t'.lruClock = t.lruClock

theorem EvictedPrefix.none (h : queueBytes (lruQueue t.entries) ≤ bound ∨ lruQueue t.entries = []) :
    EvictedPrefix t t bound 0 := by
  refine ⟨?_, fun j hj => absurd hj (Nat.not_lt_zero _), fun j => by simp, rfl⟩
  rcases h with h | h
  · exact .inl h
  · exact .inr (by rw [h]; rfl)

theorem EvictedPrefix.round (hq : lruQueue t.entries = (e, i) :: q)
    (hover : bound < queueBytes (lruQueue t.entries))
    (h : EvictedPrefix (setEntry t i (dropBytes e)) t' bound k) :
    EvictedPrefix t t' bound (k + 1) := by
  obtain ⟨-, hat, -, hnext⟩ := lruQueue_round hq
  have hlt := (List.getElem?_eq_some_iff.mp hat).1
  have hqueue : lruQueue (setEntry t i (dropBytes e)).entries = q := hnext
  obtain ⟨henough, hleast, hentries, hclock⟩ := h
  rw [hqueue] at henough hleast
  refine ⟨?_, ?_, fun j => ?_, hclock⟩
  · rw [hq]
    exact henough.imp_right (congrArg (· + 1))
  · intro j hj
    cases j with
    | zero => exact hover
    | succ j =>
      rw [hq]
      exact hleast j (by omega)
  · rw [hentries, hqueue, hq]
    by_cases hj : i = j
    · subst hj
      rw [show (setEntry t i (dropBytes e)).entries[i]? = some (dropBytes e) from
        getElem?_set_self hlt, hat]
      simp [dropBytes]
    · rw [show (setEntry t i (dropBytes e)).entries[j]? = t.entries[j]? from getElem?_set_ne hj]
      simp [Ne.symm hj]

/-- One round per queued entry and a last look are enough, and what they do is to take a
prefix of the queue. -/
theorem evictRounds_spec (h : (t.entries.map ResEntry.len).sum < 2 ^ 32)
    (bound : Nat) {fuel : Nat} (hfuel : (lruQueue t.entries).length < fuel) :
    evictRounds fuel t bound = some (evictLoop fuel t bound)
      ∧ ∃ k, EvictedPrefix t (evictLoop fuel t bound) bound k := by
  induction fuel generalizing t with
  | zero => exact absurd hfuel (Nat.not_lt_zero _)
  | succ fuel ih =>
    unfold evictRounds evictLoop
    rw [residentEvictable_eq h]
    split <;> rename_i hfit
    · exact ⟨rfl, 0, .none (.inl hfit)⟩
    cases hq : lruQueue t.entries with
    | nil =>
      have hv : lruVictim t.entries = none := by rw [lruVictim_eq, hq]; rfl
      simp only [hv]
      exact ⟨trivial, 0, .none (.inr hq)⟩
    | cons x q =>
      obtain ⟨e, i⟩ := x
      obtain ⟨hv, hat, hc, hnext⟩ := lruQueue_round hq
      simp only [hv, hat, resourceEntryEvict_candidate hc]
      have hlens : ((setEntry t i (dropBytes e)).entries.map ResEntry.len).sum < 2 ^ 32 := by
        have hkey : (dropBytes e).len = e.len := rfl
        rw [setEntry_map ResEntry.len hat hkey]
        exact h
      have hlen : (lruQueue (setEntry t i (dropBytes e)).entries).length < fuel := by
        rw [show lruQueue (setEntry t i (dropBytes e)).entries = q from hnext]
        rw [hq, length_cons] at hfuel
        omega
      obtain ⟨hrun, k, hk⟩ := ih hlens hlen
      exact ⟨hrun, k + 1, .round hq (by omega) hk⟩

theorem lruQueue_length_le (es : List ResEntry) : (lruQueue es).length ≤ es.length := by
  rw [lruQueue, length_insertionSort]
  exact (length_filter_le _ _).trans (length_zipIdx).le

/-- What is not queued keeps its bytes. -/
theorem EvictedPrefix.kept (h : EvictedPrefix t t' bound k) {j : Nat} (hj : t.entries[j]? = some e)
    (hc : evictCandidate e = false) : t'.entries[j]? = some e := by
  have hout : j ∉ ((lruQueue t.entries).take k).map Prod.snd := by
    intro hin
    obtain ⟨x, hx, rfl⟩ := List.mem_map.mp hin
    obtain ⟨hat, hcx⟩ := mem_lruQueue.mp (mem_of_mem_take hx)
    obtain rfl : e = x.1 := some.inj (hj.symm.trans hat)
    rw [hc] at hcx
    exact Bool.noConfusion hcx
  rw [h.entries, hj, map_some, if_neg hout]

/-- **Eviction is minimal and least recently used first.** The loop ends; what it evicts is
the shortest prefix of the queue that brings the resident total within the bound, or the
whole queue; nothing pinned or persistent loses its bytes. -/
theorem evictToFit_lru (t : ResTable) (h : (t.entries.map ResEntry.len).sum < 2 ^ 32)
    (bound : Nat) :
    evictRounds (t.entries.length + 1) t bound = some (resourceTableEvictToFit t bound)
      ∧ (∃ k, EvictedPrefix t (resourceTableEvictToFit t bound) bound k)
      ∧ ∀ (j : Nat) (e : ResEntry), t.entries[j]? = some e →
          e.pinCount ≠ 0 ∨ e.persistent = true →
          (resourceTableEvictToFit t bound).entries[j]? = some e := by
  have hfuel : (lruQueue t.entries).length < t.entries.length + 1 :=
    Nat.lt_succ_of_le (lruQueue_length_le _)
  obtain ⟨hrun, k, hk⟩ := evictRounds_spec h bound hfuel
  refine ⟨hrun, ⟨k, hk⟩, fun j e hj hheld => hk.kept hj ?_⟩
  rcases hheld with hpin | hpers
  · simp [evictCandidate, rlIsEvictable, hpin]
  · simp [evictCandidate, hpers]

def cachedEntry (id len pinCount lastAccess : Nat) : ResEntry :=
  ⟨id, some (replicate len 0), len, true, resAlgoZstd, [], none, pinCount, false, lastAccess⟩

/-- Two entries with one stamp, the first of them empty, and a pinned one that is older. -/
def cachedTable : ResTable :=
  ⟨[cachedEntry 1 4 0 3, cachedEntry 2 0 0 2, cachedEntry 3 8 0 2, cachedEntry 4 16 1 1], 3⟩

theorem evictToFit_lru_ties :
    (lruQueue cachedTable.entries).map Prod.snd = [1, 2, 0]
      ∧ (resourceTableEvictToFit cachedTable 4).entries.map ResEntry.owned
        = [true, false, false, true]
      ∧ ∃ k, EvictedPrefix cachedTable (resourceTableEvictToFit cachedTable 4) 4 k :=
  ⟨by decide, by decide, (evictToFit_lru cachedTable (by decide) 4).2.1⟩

end Blyt
