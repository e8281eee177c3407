import Mathlib.Data.Finset.Sort
import Blyt.Resource

/-!
# The persistent set, from the build to the run

`persistent.rs` resolves the declared names to ids, checks the set against the memory budget and
writes the ids as `.cart.persistent`; the runtime marks the entries of its table with these bytes.
-/

namespace Blyt

open List

/-- What the build reads of an `AssetInfo`. -/
structure NamedAsset where
  id : Nat
  resourceName : String
  stagedLen : Nat

inductive PersistentError
  | unknown (name : String)
  | repeated (name : String)
  | overBudget (total : Nat) (names : List String)

/-- The loop over the names, and the budget guard behind it. -/
def resolveLoop (names : List String) (assets : List NamedAsset) :
    List String → Finset Nat → Nat → Except PersistentError (List Nat)
  | [], ids, total =>
    if memBudgetBytes < total then .error (.overBudget total names) else .ok (ids.sort (· ≤ ·))
  | name :: rest, ids, total =>
    match assets.find? (·.resourceName == name) with
    | none => .error (.unknown name)
    | some a =>
      if a.id ∈ ids then .error (.repeated name)
      else resolveLoop names assets rest (insert a.id ids) (total + a.stagedLen)

def resolvePersistentIds (names : List String) (assets : List NamedAsset) :
    Except PersistentError (List Nat) :=
  resolveLoop names assets names ∅ 0

def persistentSectionBytes (ids : List Nat) : List UInt8 := ids.flatMap (leBytes 4)

/-- The ids that `blyt_resource_table_mark_persistent` reads. -/
def persistentIds : List UInt8 → List Nat
  | a :: b :: c :: d :: rest => leNat [a, b, c, d] :: persistentIds rest
  | _ => []

/-- The resources that a declaration names. -/
def declared (assets : List NamedAsset) (names : List String) : List NamedAsset :=
  names.filterMap fun name => assets.find? (·.resourceName == name)

/-- The entry, marked if its id is one of `ids`. -/
def ResEntry.markIn (ids : List Nat) (e : ResEntry) : ResEntry :=
  if e.id ∈ ids then { e with persistent := true } else e

variable {names rest : List String} {assets : List NamedAsset} {ids : List Nat}

theorem persistentIds_bytes (h : ∀ id ∈ ids, id < 2 ^ 32) :
    persistentIds (persistentSectionBytes ids) = ids := by
  induction ids with
  | nil => rfl
  | cons id ids ih =>
    obtain ⟨hid, hids⟩ := forall_mem_cons.mp h
    exact congrArg₂ cons (leNat_leBytes (w := 4) hid) (ih hids)

theorem resolveLoop_spec {S : Finset Nat} {total : Nat}
    (h : resolveLoop names assets rest S total = .ok ids) :
    (declared assets rest).map NamedAsset.resourceName = rest ∧
    total + ((declared assets rest).map NamedAsset.stagedLen).sum ≤ memBudgetBytes ∧
    ids.Pairwise (· < ·) ∧
    ∀ id, id ∈ ids ↔ id ∈ S ∨ id ∈ (declared assets rest).map NamedAsset.id := by
  induction rest generalizing S total with
  | nil =>
    rw [resolveLoop] at h
    split at h <;> rename_i hfit <;> cases h
    exact ⟨rfl, Nat.le_of_not_lt hfit, (Finset.sortedLT_sort S).pairwise, by simp [declared]⟩
  | cons name rest ih =>
    rw [resolveLoop] at h
    split at h
    · cases h
    · rename_i a hf
      split at h
      · cases h
      · obtain ⟨hnames, hfit, hs, hids⟩ := ih h
        have hname : a.resourceName = name := by simpa using find?_some hf
        have hcons : declared assets (name :: rest) = a :: declared assets rest :=
          filterMap_cons_some hf
        rw [hcons, map_cons, map_cons, map_cons, sum_cons, hname, hnames]
        refine ⟨rfl, by omega, hs, fun id => ?_⟩
        rw [hids, Finset.mem_insert, mem_cons]
        tauto

theorem markPersistentId_eq {es : List ResEntry} (h : (es.map ResEntry.id).Nodup) (id : Nat) :
    markPersistentId es id = es.map (ResEntry.markIn [id]) := by
  induction es with
  | nil => rfl
  | cons e es ih =>
    obtain ⟨hnot, hes⟩ := nodup_cons.mp h
    rw [markPersistentId_cons, map_cons, ResEntry.markIn, ih hes]
    simp only [mem_singleton]
    split <;> rename_i hid
    · -- no other entry has this id
      refine congrArg _ ((map_id' es).symm.trans (map_congr_left fun x hx => (if_neg ?_).symm))
      rw [mem_singleton, ← hid]
      exact fun hx' => hnot (hx' ▸ mem_map_of_mem hx)
    · rfl

theorem markPersistent_eq {t : ResTable} (h : (t.entries.map ResEntry.id).Nodup) (ids : List Nat) :
    (resourceTableMarkPersistent t ids).entries = t.entries.map (ResEntry.markIn ids) := by
  induction ids generalizing t with
  | nil => exact (map_id' _).symm
  | cons id ids ih =>
    have hkeep := map_markPersistentId (f := ResEntry.id) (fun _ => rfl) t.entries id
    refine (ih (t := ⟨markPersistentId t.entries id, 0⟩) (hkeep ▸ h)).trans ?_
    rw [markPersistentId_eq h, List.map_map]
    refine map_congr_left fun e _ => ?_
    simp only [Function.comp, ResEntry.markIn, mem_cons]
    split_ifs <;> simp_all

/-- **From the declaration to the marks**, in a table whose ids are those of its entries alone. -/
theorem persistentSet_spec (hu32 : ∀ a ∈ assets, a.id < 2 ^ 32)
    (h : resolvePersistentIds names assets = .ok ids) :
    (declared assets names).map NamedAsset.resourceName = names ∧
    ((declared assets names).map NamedAsset.stagedLen).sum ≤ 16 * 1024 * 1024 ∧
    ids.Pairwise (· < ·) ∧
    ∀ t : ResTable, (t.entries.map ResEntry.id).Nodup →
      (resourceTableMarkPersistent t (persistentIds (persistentSectionBytes ids))).entries
        = t.entries.map (ResEntry.markIn ((declared assets names).map NamedAsset.id)) := by
  obtain ⟨hnames, hfit, hs, hids⟩ := resolveLoop_spec h
  rw [Nat.zero_add] at hfit
  refine ⟨hnames, hfit, hs, fun t ht => ?_⟩
  rw [persistentIds_bytes, markPersistent_eq ht]
  · simp [ResEntry.markIn, hids]
  · intro id hid
    obtain ⟨a, ha, rfl⟩ := mem_map.mp (((hids id).mp hid).resolve_left (Finset.notMem_empty id))
    obtain ⟨name, -, hfind⟩ := mem_filterMap.mp ha
    exact hu32 a (mem_of_find?_eq_some hfind)

/-- An entry that is not pinned or marked. -/
def plainEntry (id : Nat) : ResEntry :=
  ⟨id, none, 5, false, 0, [], none, 0, false, 0⟩

/-- Two of three resources, declared in another order than that of their ids. -/
theorem persistentSet_spec_two :
    let assets : List NamedAsset := [⟨4, "a", 5⟩, ⟨2, "b", 6⟩, ⟨9, "c", 7⟩]
    resolvePersistentIds ["c", "a"] assets = .ok [4, 9]
      ∧ ((declared assets ["c", "a"]).map NamedAsset.stagedLen).sum ≤ 16 * 1024 * 1024
      ∧ [4, 9].Pairwise (· < ·)
      ∧ (resourceTableMarkPersistent ⟨[plainEntry 9, plainEntry 2, plainEntry 4], 0⟩
          (persistentIds (persistentSectionBytes [4, 9]))).entries.map ResEntry.persistent
        = [true, false, true] := by
  have hsort : (insert 4 (insert 9 ∅) : Finset Nat).sort (· ≤ ·) = [4, 9] :=
    (List.toFinset_sort (l := [4, 9]) (· ≤ ·) (by decide)).mpr (by decide)
  have h : resolvePersistentIds ["c", "a"] [⟨4, "a", 5⟩, ⟨2, "b", 6⟩, ⟨9, "c", 7⟩] = .ok [4, 9] :=
    congrArg Except.ok hsort
  obtain ⟨-, hfit, hsorted, hmark⟩ := persistentSet_spec (by decide) h
  refine ⟨h, hfit, hsorted, ?_⟩
  rw [hmark _ (by decide)]
  rfl

end Blyt
