import Blyt.Runs

/-!
# Staged assets and the watch loop

The devtool stages every asset under a name made of its resource name and a fingerprint
of its content (`assets.rs`), and `resource-id-index` lists the staged files. The watch
loop (`run.rs`) deletes the staged files that left the index one rebuild later. A rebuild
is modelled by the tasks of the asset pipeline, in their order; a task that is skipped
because its outputs are there leaves them there, so it counts as run. The index is kept
as its list of entries: its lines are written and read back unchanged.

After every rebuild the files of the index are there exactly if no asset came back to the
content it had before the last rebuild that got through (`NoReturn`).
-/

namespace Blyt

open List

/-! ## The asset pipeline -/

/-- `resources/<name>-<fp>.data`. -/
structure StagedRel where
  name : String
  fp : String
  deriving DecidableEq, Repr

inductive StagedExt
  | data
  | metadata
  | res
  deriving DecidableEq, Repr

/-- `with_extension`. -/
structure StagedFile where
  rel : StagedRel
  ext : StagedExt
  deriving DecidableEq, Repr

abbrev ResourceIndex := List (Nat × StagedRel)

/-- A file of an asset directory, under its resource name. -/
structure Asset where
  name : String
  content : List UInt8
  deriving DecidableEq, Repr

structure AssetInfo where
  id : Nat
  rel : StagedRel
  deriving DecidableEq, Repr

/-- Sorted by name, with ids from 1; two assets of one name are an error. -/
def scanAssets (fp : List UInt8 → String) (files : List Asset) : Option (List AssetInfo) :=
  let sorted := files.insertionSort fun a b => a.name ≤ b.name
  if (sorted.zip sorted.tail).any fun p => p.1.name == p.2.name then none
  else some (sorted.zipIdx.map fun p => ⟨p.2 + 1, p.1.name, fp p.1.content⟩)

def resourceIndexContents (assets : List AssetInfo) : ResourceIndex :=
  assets.map fun a => (a.id, a.rel)

/-- The tasks of a build: staging an asset, packing it, the index, and all the others. -/
inductive DevTask
  | stage (rel : StagedRel)
  | pack (rel : StagedRel)
  | writeIndex (contents : ResourceIndex)
  | other
  deriving DecidableEq, Repr

def planAssets (assets : List AssetInfo) : List DevTask :=
  assets.flatMap (fun a => [.stage a.rel, .pack a.rel])
    ++ if assets.isEmpty then [] else [.writeIndex (resourceIndexContents assets), .other]

structure StageDir where
  staged : StagedFile → Bool
  /-- `resource-id-index`; empty if there is none. -/
  index : ResourceIndex

/-- The staged files a task writes, in order. -/
def DevTask.files : DevTask → List StagedFile
  | .stage rel => [⟨rel, .data⟩, ⟨rel, .metadata⟩]
  | .pack rel => [⟨rel, .res⟩]
  | .writeIndex _ | .other => []

def StageDir.add (d : StageDir) (fs : List StagedFile) : StageDir :=
  { d with staged := fun f => d.staged f || fs.contains f }

def DevTask.run (d : StageDir) (t : DevTask) : StageDir :=
  match t with
  | .writeIndex contents => { d with index := contents }
  | t => d.add t.files

/-- A rebuild. The scan fails without `files`; a build that fails has run `tasks` tasks
and written `written` files of the next one. -/
structure Rebuild where
  files : Option (List Asset)
  others : Nat
  failed : Option (Nat × Nat)
  codeChanged : Bool
  deriving DecidableEq, Repr

/-- `build_for_dev`: whether it got through, and what is on the disk then. -/
def buildForDev (fp : List UInt8 → String) (d : StageDir) (r : Rebuild) : Bool × StageDir :=
  match r.files.bind (scanAssets fp) with
  | none => (false, d)
  | some assets =>
    let tasks := planAssets assets ++ replicate r.others .other
    match r.failed with
    | none => (true, tasks.foldl DevTask.run d)
    | some (done, written) =>
      (false, ((tasks.take done).foldl DevTask.run d).add
        ((((tasks.drop done).head?.map DevTask.files).getD []).take written))

/-! ## The watch loop -/

/-- Whether the runtimes have to reload, and the ids of the assets they swap. -/
def dispatchSignals (oldIndex newIndex : ResourceIndex) (codeChanged : Bool) : Bool × List Nat :=
  let pairs := fun idx : ResourceIndex => idx.map fun p => (p.1, p.2.name)
  if pairs oldIndex ≠ pairs newIndex then (true, [])
  else
    let assetsChanged := (newIndex.filter fun p =>
      ((oldIndex.find? (·.1 == p.1)).map fun q => q.2 != p.2).getD false).map Prod.fst
    match codeChanged, assetsChanged.isEmpty with
    | true, _ => (true, assetsChanged)
    | false, false => (false, assetsChanged)
    | false, true => (false, [])

def stagedFiles (index : ResourceIndex) : List StagedFile :=
  index.flatMap fun p => [⟨p.2, .data⟩, ⟨p.2, .metadata⟩]

structure WatchLoop where
  dir : StageDir
  lastIndex : ResourceIndex
  pendingGc : List StagedFile

/-- One round of the loop: the signals it sends, if the build got through. -/
def watchRound (fp : List UInt8 → String) (w : WatchLoop) (r : Rebuild) :
    Option (Bool × List Nat) × WatchLoop :=
  let built := buildForDev fp w.dir r
  if built.1 then
    let newIndex := built.2.index
    let superseded := w.lastIndex.filter fun p => !(newIndex.map Prod.snd).contains p.2
    (some (dispatchSignals w.lastIndex newIndex r.codeChanged),
      { dir := { built.2 with staged := fun f => built.2.staged f && !w.pendingGc.contains f }
        lastIndex := newIndex
        pendingGc := stagedFiles superseded })
  else (none, { w with dir := built.2 })

/-- The loop starts after a build that got through. -/
def watchStart (d : StageDir) : WatchLoop := ⟨d, d.index, []⟩

/-- Every staged file that the index names is there. -/
def StageDir.Complete (d : StageDir) : Prop := ∀ f ∈ stagedFiles d.index, d.staged f = true

instance (d : StageDir) : Decidable d.Complete := inferInstanceAs (Decidable (∀ f ∈ _, _))

/-- No file that waits for its deletion is in the index of a build that gets through. -/
def NoReturn (fp : List UInt8 → String) (w : WatchLoop) (r : Rebuild) : Prop :=
  match r.files.bind (scanAssets fp), r.failed with
  | some assets, none => ∀ f ∈ w.pendingGc,
      f ∉ stagedFiles (if assets.isEmpty then w.dir.index else resourceIndexContents assets)
  | _, _ => True

instance (fp : List UInt8 → String) (w : WatchLoop) (r : Rebuild) :
    Decidable (NoReturn fp w r) := by
  unfold NoReturn
  split <;> infer_instance

/-! ## Builds -/

theorem foldl_run_staged (tasks : List DevTask) (d : StageDir) (f : StagedFile) :
    (tasks.foldl DevTask.run d).staged f = true
      ↔ d.staged f = true ∨ f ∈ tasks.flatMap DevTask.files := by
  induction tasks generalizing d with
  | nil => simp
  | cons t tasks ih =>
    rw [foldl_cons, ih, flatMap_cons, mem_append, ← or_assoc]
    refine or_congr_left ?_
    cases t <;> simp [DevTask.run, StageDir.add, DevTask.files]

variable {tasks : List DevTask} {d : StageDir} {rest : List DevTask}

theorem foldl_run_index (h : ∀ c, .writeIndex c ∉ tasks) (d : StageDir) :
    (tasks.foldl DevTask.run d).index = d.index := by
  induction tasks generalizing d with
  | nil => rfl
  | cons t tasks ih =>
    rw [foldl_cons, ih fun c hc => h c (mem_cons_of_mem _ hc)]
    cases t with
    | writeIndex c => exact absurd mem_cons_self (h c)
    | stage _ | pack _ | other => rfl

theorem StageDir.Complete.grow {d' : StageDir} (h : d.Complete) (hindex : d'.index = d.index)
    (hgrow : ∀ f, d.staged f = true → d'.staged f = true) : d'.Complete := by
  intro f hf
  rw [hindex] at hf
  exact hgrow f (h f hf)

variable (assets : List AssetInfo)

/-- The tasks before the index stage every file it names. -/
theorem stagedFiles_subset :
    ∀ f ∈ stagedFiles (resourceIndexContents assets),
      f ∈ (assets.flatMap fun a => [DevTask.stage a.rel, .pack a.rel]).flatMap DevTask.files := by
  intro f hf
  obtain ⟨p, hp, hf⟩ := mem_flatMap.mp hf
  obtain ⟨a, ha, rfl⟩ := mem_map.mp hp
  refine mem_flatMap.mpr ⟨.stage a.rel, ?_, hf⟩
  exact mem_flatMap.mpr ⟨a, ha, mem_cons_self⟩

theorem complete_of_no_index (hd : d.Complete)
    (h : ∀ c, .writeIndex c ∉ tasks) : (tasks.foldl DevTask.run d).Complete :=
  hd.grow (foldl_run_index h d) fun f hf => (foldl_run_staged tasks d f).mpr (.inl hf)

theorem no_index_in_stages (c : ResourceIndex) :
    .writeIndex c ∉ assets.flatMap fun a => [DevTask.stage a.rel, .pack a.rel] := by
  intro hc
  obtain ⟨a, -, ha⟩ := mem_flatMap.mp hc
  simp at ha

/-- Once the index has been written, the rest of the build keeps it. -/
theorem index_written (d : StageDir) (hrest : ∀ c, .writeIndex c ∉ rest) :
    let d' := ((assets.flatMap fun a => [DevTask.stage a.rel, .pack a.rel])
      ++ .writeIndex (resourceIndexContents assets) :: rest).foldl DevTask.run d
    d'.index = resourceIndexContents assets ∧ d'.Complete := by
  intro d'
  have hindex : d'.index = resourceIndexContents assets := by
    simp only [d', foldl_append, foldl_cons]
    exact foldl_run_index hrest _
  refine ⟨hindex, fun f hf => ?_⟩
  rw [hindex] at hf
  refine (foldl_run_staged _ d f).mpr (.inr ?_)
  rw [flatMap_append]
  exact mem_append_left _ (stagedFiles_subset assets f hf)

theorem planAssets_append (a : AssetInfo) (as : List AssetInfo) (rest : List DevTask) :
    planAssets (a :: as) ++ rest
      = ((a :: as).flatMap fun a => [DevTask.stage a.rel, .pack a.rel])
        ++ .writeIndex (resourceIndexContents (a :: as)) :: .other :: rest := by
  simp [planAssets]

/-- Wherever a build stops, the files of the index that is on the disk then are there: the
index is written after them. -/
theorem complete_take (hd : d.Complete) (assets : List AssetInfo)
    (hrest : ∀ c, .writeIndex c ∉ rest) (k : Nat) :
    (((planAssets assets ++ rest).take k).foldl DevTask.run d).Complete := by
  have hsub : ∀ {ts : List DevTask} {k : Nat}, (∀ c, .writeIndex c ∉ ts) →
      ∀ c, .writeIndex c ∉ ts.take k := fun h c hc => h c (mem_of_mem_take hc)
  cases assets with
  | nil => exact complete_of_no_index hd (hsub hrest)
  | cons a as =>
    have hother : ∀ c, .writeIndex c ∉ DevTask.other :: rest := fun c hc =>
      hrest c ((mem_cons.mp hc).resolve_left nofun)
    rw [planAssets_append, take_append]
    cases hm : k - ((a :: as).flatMap fun a => [DevTask.stage a.rel, .pack a.rel]).length with
    | zero =>
      rw [take_zero, append_nil]
      exact complete_of_no_index hd (hsub (no_index_in_stages (a :: as)))
    | succ =>
      rw [take_of_length_le (by omega)]
      exact (index_written (a :: as) d (hsub hother)).2

theorem not_index_replicate (n : Nat) (c : ResourceIndex) :
    .writeIndex c ∉ replicate n DevTask.other := fun hc =>
  DevTask.noConfusion (eq_of_mem_replicate hc)

section

variable (fp : List UInt8 → String)

theorem buildForDev_complete (hd : d.Complete) (r : Rebuild) : (buildForDev fp d r).2.Complete := by
  unfold buildForDev
  cases r.files.bind (scanAssets fp) with
  | none => exact hd
  | some assets =>
    have htake := complete_take hd assets (not_index_replicate r.others)
    cases r.failed with
    | none =>
      have hall := htake (planAssets assets ++ replicate r.others DevTask.other).length
      rwa [take_length] at hall
    | some f =>
      refine (htake f.1).grow rfl fun f hf => ?_
      simp [StageDir.add, hf]

theorem buildForDev_index (d : StageDir) {r : Rebuild}
    {assets : List AssetInfo} (hscan : r.files.bind (scanAssets fp) = some assets)
    (hok : r.failed = none) : (buildForDev fp d r).1 = true ∧ (buildForDev fp d r).2.index
      = if assets.isEmpty then d.index else resourceIndexContents assets := by
  simp only [buildForDev, hscan, hok, true_and]
  cases assets with
  | nil => exact foldl_run_index (not_index_replicate r.others) d
  | cons a as =>
    have hother : ∀ c, .writeIndex c ∉ DevTask.other :: replicate r.others .other :=
      fun c hc => not_index_replicate r.others c ((mem_cons.mp hc).resolve_left nofun)
    rw [planAssets_append]
    exact (index_written (a :: as) d hother).1

/-! ## Rounds -/

theorem watchRound_complete_iff {w : WatchLoop} (hw : w.dir.Complete)
    (r : Rebuild) : (watchRound fp w r).2.dir.Complete ↔ NoReturn fp w r := by
  have hbuilt := buildForDev_complete fp hw r
  unfold NoReturn
  cases hscan : r.files.bind (scanAssets fp) with
  | none =>
    have hfail : (buildForDev fp w.dir r).1 = false := by simp only [buildForDev, hscan]
    simp only [watchRound, hfail, Bool.false_eq_true, if_false, iff_true]
    exact hbuilt
  | some =>
    cases hres : r.failed with
    | some =>
      have hfail : (buildForDev fp w.dir r).1 = false := by
        simp only [buildForDev, hscan, hres]
      simp only [watchRound, hfail, Bool.false_eq_true, if_false, iff_true]
      exact hbuilt
    | none =>
      obtain ⟨hok, hindex⟩ := buildForDev_index fp w.dir hscan hres
      simp only [watchRound, hok, if_true, ← hindex]
      -- the deletion takes away exactly the files that were waiting
      constructor
      · intro hc f hf hnamed
        have := hc f hnamed
        simp [hf] at this
      · intro hno f hf
        have hthere := hbuilt f hf
        have hkeep : f ∉ w.pendingGc := fun hp => hno f hp hf
        simp [hthere, hkeep]

/-- **The files of the index stay there exactly as long as no asset comes back to a content
whose file waits for its deletion.** -/
theorem watchRun_iff {d : StageDir} (hd : d.Complete) (rs : List Rebuild) :
    AdmRun (fun w r => some (watchRound fp w r).2)
        (fun w r => (watchRound fp w r).2.dir.Complete) (watchStart d) rs
      ↔ AdmRun (fun w r => some (watchRound fp w r).2) (NoReturn fp) (watchStart d) rs := by
  refine admRun_congr (fun w r _ hw => watchRound_complete_iff fp hw r) ?_ hd
  rintro w r - w' hw hno ⟨⟩
  exact (watchRound_complete_iff fp hw r).mpr hno

end

/-- The content itself as its fingerprint. -/
def demoFp (content : List UInt8) : String := toString content

def demoStage : StageDir := (planAssets [⟨1, "hero", demoFp [1]⟩, ⟨2, "map", demoFp [5]⟩]).foldl
  DevTask.run ⟨fun _ => false, []⟩

def demoAssets (hero : UInt8) : Option (List Asset) := some [⟨"map", [5]⟩, ⟨"hero", [hero]⟩]

/-- An edit, a failed build, another edit, and all assets removed. -/
def demoRebuilds : List Rebuild :=
  [⟨demoAssets 2, 1, none, false⟩, ⟨demoAssets 1, 1, some (3, 1), false⟩,
   ⟨demoAssets 3, 1, none, true⟩, ⟨some [], 1, none, false⟩]

theorem watchRun_demo : demoStage.Complete ∧ AdmRun (fun w r => some (watchRound demoFp w r).2)
    (fun w r => (watchRound demoFp w r).2.dir.Complete) (watchStart demoStage) demoRebuilds := by
  have hd : demoStage.Complete := by decide +kernel
  exact ⟨hd, (watchRun_iff demoFp hd demoRebuilds).mpr (by decide +kernel)⟩

/-- An asset is edited and put back: its file is staged again, and then deleted. -/
theorem watch_returned :
    let w := [⟨demoAssets 2, 1, none, false⟩, ⟨demoAssets 1, 1, none, false⟩].foldl
      (fun w r => (watchRound demoFp w r).2) (watchStart demoStage)
    (1, ⟨"hero", demoFp [1]⟩) ∈ w.dir.index
      ∧ w.dir.staged ⟨⟨"hero", demoFp [1]⟩, .data⟩ = false := by
  decide +kernel

end Blyt
