import Blyt.Residency

/-!
# Reloading assets

`blyt_session_reload_resources` (`cart_run.c`) fills the resource table anew, from the
sections of a packed cart or else from the staging directory of a dev build. When a session
is created, the persistent set is marked and materialised after that, and the footprint
published; the reload does none of it.
-/

namespace Blyt

open List Option

/-- What a cart is reloaded from: its file, if it is mapped, and the files an index in the
staging directory names, by id, path and contents. -/
structure ReloadSource where
  map : Option Image
  staged : List (Nat × String × List UInt8)

/-- An entry of `blyt_resource_table_load_from_index`. -/
def stagedEntry (file : Nat × String × List UInt8) : ResEntry where
  id := u32 file.1
  data := some file.2.2
  len := file.2.2.length
  owned := true
  algo := resAlgoNone
  cdata := []
  srcPath := some file.2.1
  pinCount := 0
  persistent := false
  lastAccess := 0

/-- `blyt_resource_table_load_for_cart`. The table's clock goes on. -/
def resourceTableLoadForCart (t : ResTable) (src : ReloadSource) : ResTable :=
  let packed := src.map.elim [] fun f => (resourceTableLoadFromCart f).entries
  { t with entries := if packed ≠ [] then packed else src.staged.map stagedEntry }

def sessionReloadResources (s : Session) (src : ReloadSource) : Session :=
  { s with resources := resourceTableLoadForCart s.resources src }

/-- The declared resources that the table has, and no others, are persistent; these are
resident, and the guest's budget counts them. -/
structure Reserved (ids : List Nat) (s : Session) : Prop where
  persistent : ∀ i e, s.resources.entries[i]? = some e →
    (e.persistent = true ↔ ∃ id ∈ ids, resourceTableFind s.resources id = some i)
  resident : ∀ e ∈ s.resources.entries, e.persistent = true → e.data.isSome
  published : s.memAcct = true → ∀ c ∈ s.heap.arena.acct,
    c.nonEvictableFootprint = ctxNonEvictableFootprint s

/-- The ids a cart is reloaded with: of its resource sections, or else of the index. -/
def ReloadSource.ids (src : ReloadSource) : List Nat :=
  let sections := src.map.elim [] resourceSections
  if sections ≠ [] then sections.map ResSection.id else src.staged.map fun file => u32 file.1

/-- No declared resource is among these, and the guest has been told of nothing but surfaces
and the other half's heap. -/
def NothingReserved (ids : List Nat) (s : Session) (src : ReloadSource) : Prop :=
  (∀ id ∈ ids, id ∉ src.ids)
    ∧ (s.memAcct = true → ∀ c ∈ s.heap.arena.acct,
      c.nonEvictableFootprint = u32 (s.surfaces.surfaceBytes + s.peerHeap))

theorem loaded_unheld {t : ResTable} {src : ReloadSource} :
    ∀ e ∈ (resourceTableLoadForCart t src).entries, e.persistent = false ∧ e.pinCount = 0 := by
  simp only [resourceTableLoadForCart]
  split
  · cases src.map with
    | none => exact nofun
    | some => exact forall_mem_map.mpr fun _ _ => ⟨rfl, rfl⟩
  · exact forall_mem_map.mpr fun _ _ => ⟨rfl, rfl⟩

theorem loadResourceSection_id (f : Image) (s : ResSection) :
    (loadResourceSection f s).id = s.id := by
  unfold loadResourceSection sectionEntry
  split
  · rfl
  · split <;> rfl

theorem loaded_ids (t : ResTable) (src : ReloadSource) :
    (resourceTableLoadForCart t src).entries.map ResEntry.id = src.ids := by
  have hstaged : (src.staged.map stagedEntry).map ResEntry.id
      = src.staged.map fun file => u32 file.1 := List.map_map
  simp only [resourceTableLoadForCart, ReloadSource.ids]
  cases src.map with
  | none => exact hstaged
  | some f =>
    by_cases h : resourceSections f = []
    · simpa [resourceTableLoadFromCart, h] using hstaged
    · simp [resourceTableLoadFromCart, h, FileEntry.entry, loadResourceSection_id]

theorem find_loaded_iff (t : ResTable) (src : ReloadSource) (id : Nat) :
    resourceTableFind (resourceTableLoadForCart t src) id = none ↔ id ∉ src.ids := by
  rw [resourceTableFind, findIdx?_eq_none_iff, ← loaded_ids t src]
  simp

theorem loaded_footprint (t : ResTable) (src : ReloadSource) :
    resourceTableFootprint (resourceTableLoadForCart t src) = 0 := by
  rw [resourceTableFootprint_mod, heldBytes, List.sum_eq_zero, Nat.zero_mod]
  refine forall_mem_map.mpr fun e he => ?_
  simp [heldLen, loaded_unheld e he]

theorem reload_reserved_iff (ids : List Nat) (s : Session) (src : ReloadSource) :
    Reserved ids (sessionReloadResources s src) ↔ NothingReserved ids s src := by
  have hctx : ctxNonEvictableFootprint (sessionReloadResources s src)
      = u32 (s.surfaces.surfaceBytes + s.peerHeap) := by
    rw [ctxNonEvictableFootprint, sessionReloadResources, loaded_footprint, Nat.zero_add]
  constructor
  · rintro ⟨hpersistent, -, hpublished⟩
    refine ⟨fun id hid => (find_loaded_iff s.resources src id).mp ?_, hctx ▸ hpublished⟩
    cases hfind : resourceTableFind (resourceTableLoadForCart s.resources src) id with
    | none => rfl
    | some i =>
      obtain ⟨hi, -⟩ := findIdx?_eq_some_iff_getElem.mp hfind
      have hmark := (hpersistent i _ (getElem?_eq_getElem hi)).mpr ⟨id, hid, hfind⟩
      rw [(loaded_unheld _ (getElem_mem hi)).1] at hmark
      cases hmark
  · rintro ⟨hnone, hpublished⟩
    refine ⟨fun i e he => ?_, fun e he hmark => ?_, hctx ▸ hpublished⟩
    · rw [(loaded_unheld e (mem_of_getElem? he)).1]
      refine iff_of_false Bool.false_ne_true ?_
      rintro ⟨id, hid, hfind⟩
      cases ((find_loaded_iff _ _ id).mpr (hnone id hid)).symm.trans hfind
    · rw [(loaded_unheld e he).1] at hmark
      cases hmark

/-- **Asset reload.** A sequence of reloads keeps the reservations after each of them exactly
if each source is without any declared resource, and nothing was held before. -/
theorem reloads_reserved_iff (ids : List Nat) (s : Session) (srcs : List ReloadSource) :
    AdmRun (fun s src => some (sessionReloadResources s src))
        (fun s src => Reserved ids (sessionReloadResources s src)) s srcs
      ↔ ∀ src ∈ srcs, NothingReserved ids s src := by
  induction srcs generalizing s with
  | nil => exact iff_of_true trivial nofun
  | cons src srcs ih =>
    rw [forall_mem_cons, AdmRun, reload_reserved_iff]
    simp only [some.injEq, forall_eq', ih]
    -- the reload changes nothing that the condition looks at
    rfl

/-- Resource 7 is declared; after a reload of the same cart it is not persistent. -/
theorem reload_drops_reservation :
    ∃ s, sessionCreate demoEnv false squeezedSession [7] = some s
      ∧ ¬Reserved [7] (sessionReloadResources s ⟨some squeezedCart, []⟩) := by
  have hcreate : (sessionCreate demoEnv false squeezedSession [7]).isSome := by decide +kernel
  have hids : 7 ∈ ReloadSource.ids ⟨some squeezedCart, []⟩ := by decide +kernel
  obtain ⟨s, hs⟩ := isSome_iff_exists.mp hcreate
  refine ⟨s, hs, fun h => ?_⟩
  exact ((reload_reserved_iff _ _ _).mp h).1 7 mem_cons_self hids

end Blyt
