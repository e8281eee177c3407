import Blyt.Resource

/-!
# The guard on the persistent set

`blyt_resource_table_preload_persistent` refuses a persistent set above the budget before
it materialises anything. It compares the budget with a 32-bit running sum, so it sees the
lengths only up to multiples of `2 ^ 32`. `preload_guard_iff` says for which tables it does
what it is for.
-/

namespace Blyt

/-- The materialising loop with what it leaves behind: it stops at the first persistent
entry that cannot be materialised, and what came before it stays. -/
def preloadLoop (env : ResEnv) (oom : Bool) : List ResEntry → Bool × List ResEntry
  | [] => (true, [])
  | e :: es =>
    if !e.persistent then
      let r := preloadLoop env oom es
      (r.1, e :: r.2)
    else
      match resourceEntryData env oom e with
      | (none, e') => (false, e' :: es)
      | (some _, e') =>
        let r := preloadLoop env oom es
        (r.1, e' :: r.2)

/-- `blyt_resource_table_preload_persistent`: whether it succeeds, and the table after it. -/
def preloadPersistent (env : ResEnv) (oom : Bool) (t : ResTable) : Bool × ResTable :=
  if memBudgetBytes < resourceTableFootprint t then (false, t)
  else
    let r := preloadLoop env oom t.entries
    (r.1, { t with entries := r.2 })

variable (env : ResEnv)

theorem preloadEntries_loop (oom : Bool) (es : List ResEntry) :
    preloadEntries env oom es
      = if (preloadLoop env oom es).1 then some (preloadLoop env oom es).2 else none := by
  induction es with
  | nil => rfl
  | cons e es ih =>
    rw [preloadEntries, preloadLoop, ih]
    cases e.persistent with
    | false => rcases preloadLoop env oom es with ⟨_ | _, _⟩ <;> rfl
    | true =>
      rcases resourceEntryData env oom e with ⟨_ | _, _⟩ <;>
        rcases preloadLoop env oom es with ⟨_ | _, _⟩ <;> rfl

/-- The table a session starts with is the one of a preload that succeeds. -/
theorem resourceTablePreloadPersistent_eq (oom : Bool) (t : ResTable) :
    resourceTablePreloadPersistent env oom t
      = if (preloadPersistent env oom t).1 then some (preloadPersistent env oom t).2 else none := by
  unfold resourceTablePreloadPersistent preloadPersistent
  split
  · rfl
  · rw [preloadEntries_loop]
    cases (preloadLoop env oom t.entries).1 <;> rfl

/-! ## What the sum sees -/

/-- The lengths of the persistent entries, added up without a limit. -/
def persistentBytes (t : ResTable) : Nat :=
  ((t.entries.filter ResEntry.persistent).map ResEntry.len).sum

theorem persistentBytes_le (t : ResTable) : persistentBytes t ≤ heldBytes t := by
  unfold persistentBytes heldBytes
  induction t.entries with
  | nil => exact le_rfl
  | cons e =>
    rw [List.map_cons, List.sum_cons, List.filter_cons]
    cases hp : e.persistent with
    | true =>
      have hheld : heldLen e = e.len := heldLen_of_held (by simp [hp])
      rw [if_pos rfl, List.map_cons, List.sum_cons]
      omega
    | false =>
      rw [if_neg Bool.false_ne_true]
      omega

/-- The sum lies at most one budget above a positive multiple of `2 ^ 32`. -/
def SumWraps (t : ResTable) : Prop :=
  ∃ k, 2 ^ 32 * (k + 1) ≤ heldBytes t ∧ heldBytes t ≤ 2 ^ 32 * (k + 1) + memBudgetBytes

/-- Above the budget the guard refuses, unless the sum wraps. -/
theorem guard_refuses_iff {t : ResTable} (h : memBudgetBytes < heldBytes t) :
    memBudgetBytes < resourceTableFootprint t ↔ ¬ SumWraps t := by
  rw [resourceTableFootprint_mod]
  constructor
  · rintro hg ⟨k, h1, h2⟩
    omega
  · intro hw
    by_contra hg
    obtain ⟨k, hk⟩ : ∃ k, heldBytes t / 2 ^ 32 = k + 1 := by
      refine ⟨heldBytes t / 2 ^ 32 - 1, ?_⟩
      omega
    exact hw ⟨k, by omega, by omega⟩

/-! ## What the loop does once the guard has let it through -/

/-- The first persistent entry without bytes has nothing to take them from. No entry that is
loaded from a cart or from a staging directory is like that. -/
def Sourceless (es : List ResEntry) : Prop :=
  ∃ e, es.find? (fun e => e.persistent && e.data.isNone) = some e
    ∧ e.srcPath = none ∧ e.algo ≠ resAlgoZstd

theorem preloadLoop_of_sourceless (oom : Bool) {es : List ResEntry}
    (h : Sourceless es) : preloadLoop env oom es = (false, es) := by
  induction es with
  | nil =>
    obtain ⟨e, he, -⟩ := h
    cases he
  | cons e es ih =>
    obtain ⟨e0, he, hsrc, halgo⟩ := h
    unfold preloadLoop
    cases hp : e.persistent with
    | false =>
      rw [List.find?_cons_of_neg (by simp [hp])] at he
      rw [Bool.not_false, if_pos rfl, ih ⟨e0, he, hsrc, halgo⟩]
    | true =>
      rw [Bool.not_true, if_neg Bool.false_ne_true]
      cases hd : e.data with
      | some bytes =>
        rw [List.find?_cons_of_neg (by simp [hd])] at he
        have hdata : resourceEntryData env oom e = (some bytes, e) := by
          rw [resourceEntryData, hd]
        rw [hdata]
        simp only [ih ⟨e0, he, hsrc, halgo⟩]
      | none =>
        rw [List.find?_cons_of_pos (by simp [hp, hd])] at he
        obtain rfl := Option.some.inj he
        have hdata : resourceEntryData env oom e = (none, e) := by
          rw [resourceEntryData, hd, hsrc]
          exact if_pos (.inl halgo)
        rw [hdata]

/-- A world in which everything that has a source can be materialised. -/
def readyEnv : ResEnv := ⟨fun _ _ n => some (List.replicate n 0), fun _ => some []⟩

theorem sourceless_of_preloadLoop {es : List ResEntry}
    (h : preloadLoop readyEnv false es = (false, es)) : Sourceless es := by
  induction es with
  | nil => cases h
  | cons e es ih =>
    have hskip : preloadLoop readyEnv false es = (false, es) →
        (e.persistent && e.data.isNone) = false → Sourceless (e :: es) := by
      intro hr hne
      obtain ⟨e0, he, hrest⟩ := ih hr
      exact ⟨e0, by rw [List.find?_cons_of_neg (by simp [hne]), he], hrest⟩
    have hpair : ∀ r : Bool × List ResEntry, (r.1, e :: r.2) = (false, e :: es) →
        r = (false, es) := by
      rintro ⟨b, l⟩ hr
      simpa using hr
    unfold preloadLoop at h
    cases hp : e.persistent with
    | false =>
      rw [hp] at h
      exact hskip (hpair _ h) (by simp [hp])
    | true =>
      rw [hp] at h
      cases hd : e.data with
      | some bytes =>
        rw [show resourceEntryData readyEnv false e = (some bytes, e) by
          rw [resourceEntryData, hd]] at h
        exact hskip (hpair _ h) (by simp [hd])
      | none =>
        -- an entry that got its bytes is not the one that was there before
        have hgot : ∀ e' bytes, resourceEntryData readyEnv false e = (some bytes, e') →
            e'.data = some bytes → Sourceless (e :: es) := by
          intro e' bytes he hb
          rw [he] at h
          have heq : e' = e := (List.cons.inj (congrArg Prod.snd h)).1
          rw [heq, hd] at hb
          cases hb
        cases hsrc : e.srcPath with
        | some =>
          refine hgot { e with owned := true, data := some [], len := 0 } [] ?_ rfl
          rw [resourceEntryData, hd, hsrc]
          rfl
        | none =>
          by_cases halgo : e.algo = resAlgoZstd
          · refine hgot { e with owned := true, data := some (List.replicate e.len 0) }
              (List.replicate e.len 0) ?_ rfl
            rw [resourceEntryData, hd, hsrc]
            simp [halgo, readyEnv]
          · exact ⟨e, List.find?_cons_of_pos (by simp [hp, hd]), hsrc, halgo⟩

/-- **When the guard keeps an oversized persistent set out.** Whatever the decoder and the
host's memory do, a set above the budget is refused with nothing materialised, exactly if
its lengths do not add up to just above a multiple of `2 ^ 32`. -/
theorem preload_guard_iff (t : ResTable) :
    (∀ env oom, memBudgetBytes < persistentBytes t → preloadPersistent env oom t = (false, t))
      ↔ persistentBytes t ≤ memBudgetBytes ∨ ¬ SumWraps t ∨ Sourceless t.entries := by
  by_cases hover : memBudgetBytes < persistentBytes t
  · have hguard := guard_refuses_iff (hover.trans_le (persistentBytes_le t))
    constructor
    · intro h
      refine .inr (or_iff_not_imp_left.mpr fun hw => ?_)
      have hrun := h readyEnv false hover
      rw [preloadPersistent, if_neg (fun hg => hw (hguard.mp hg))] at hrun
      have hfst : (preloadLoop readyEnv false t.entries).1 = false := congrArg Prod.fst hrun
      have hsnd : (preloadLoop readyEnv false t.entries).2 = t.entries :=
        congrArg (fun r => r.2.entries) hrun
      exact sourceless_of_preloadLoop (Prod.ext hfst hsnd)
    · rintro (hle | hw | hs) env oom -
      · omega
      · exact if_pos (hguard.mpr hw)
      · unfold preloadPersistent
        split
        · rfl
        · rw [preloadLoop_of_sourceless env oom hs]
  · exact ⟨fun _ => .inl (by omega), fun _ _ _ h => absurd h hover⟩

/-- A compressed resource as it is loaded, of 2 GiB once it is decompressed. -/
def hugeEntry (id : Nat) : ResEntry :=
  ⟨id, none, 2 ^ 31, false, resAlgoZstd, [], none, 0, false, 0⟩

/-- Two persistent resources of 2 GiB are let through and materialised. -/
theorem huge_set_preloaded :
    memBudgetBytes < persistentBytes
        (resourceTableMarkPersistent ⟨[hugeEntry 1, hugeEntry 2], 0⟩ [1, 2])
      ∧ (preloadPersistent readyEnv false
        (resourceTableMarkPersistent ⟨[hugeEntry 1, hugeEntry 2], 0⟩ [1, 2])).1 = true := by
  refine ⟨by decide, ?_⟩
  rfl

end Blyt
