import Blyt.Fingerprint
import Blyt.Runs

/-!
# When a skipped task is up to date

What is recorded of an input file after a run is the stamp of the content the tool has read,
if nobody writes the file from the start of the tool to the end of the recording; `Logged`
says so of every state a history reaches, whatever edits land during the calls. A skipped
task is then up to date if its outputs are those of the last run that got through, if it has
the inputs of that run, and if the recording was such a calm one (`FromLast`).
-/

namespace Blyt

open List Option Function

section Disk

variable {η : Type} {b b' b'' : Build η}

/-! ## Accesses to the disk -/

/-- The program has only looked at the disk. -/
def Build.Ticked (b b' : Build η) : Prop := ∃ n, b' = Build.tick^[n] b

/-- Files have been written, and one that was not is the same. -/
structure Build.Later (b b' : Build η) : Prop where
  states : b'.states = b.states
  runs : b'.runs = b.runs
  quiet : b.pending = [] → b'.pending = []
  writes : ∀ p, b.writes p ≤ b'.writes p
  same : ∀ p, b'.writes p = b.writes p → b'.disk p = b.disk p
  versions : ∀ p, b.versions p ⊆ b'.versions p

theorem Build.Ticked.refl (b : Build η) : b.Ticked b := ⟨0, rfl⟩

theorem Build.tick_ticked (b : Build η) : b.Ticked b.tick := ⟨1, rfl⟩

theorem Build.Ticked.trans (h : b.Ticked b') (h' : b'.Ticked b'') : b.Ticked b'' := by
  obtain ⟨n, rfl⟩ := h
  obtain ⟨m, rfl⟩ := h'
  exact ⟨m + n, (iterate_add_apply _ m n b).symm⟩

theorem Build.Ticked.eq_of_quiet (h : b.Ticked b') (hq : b.pending = []) : b' = b := by
  obtain ⟨n, rfl⟩ := h
  exact iterate_fixed (by rw [Build.tick, hq]) n

theorem Build.Later.refl (b : Build η) : b.Later b :=
  ⟨rfl, rfl, id, fun _ => le_rfl, fun _ _ => rfl, fun _ => Subset.refl _⟩

/-- A file that was not written in all was not written in between. -/
theorem Build.Later.between (h : b.Later b') (h' : b'.Later b'') {p : String}
    (heq : b''.writes p = b.writes p) :
    b'.writes p = b.writes p ∧ b''.writes p = b'.writes p := by
  have := h.writes p
  have := h'.writes p
  omega

theorem Build.Later.trans (h : b.Later b') (h' : b'.Later b'') : b.Later b'' where
  states := h'.states.trans h.states
  runs := h'.runs.trans h.runs
  quiet hq := h'.quiet (h.quiet hq)
  writes p := (h.writes p).trans (h'.writes p)
  same p heq :=
    have ⟨h1, h2⟩ := h.between h' heq
    (h'.same p h2).trans (h.same p h1)
  versions p := List.Subset.trans (h.versions p) (h'.versions p)

theorem Build.write_later (b : Build η) (o : Option FileOrigin) (e : FileEdit) :
    b.Later (b.write o e) where
  states := rfl
  runs := rfl
  quiet hq := hq
  writes p := by
    rw [show (b.write o e).writes = update b.writes e.path (b.writes e.path + 1) from rfl,
      update_apply]
    split
    next hp => exact hp ▸ Nat.le_succ _
    next => exact le_rfl
  same p heq := by
    by_cases hp : p = e.path
    · subst hp
      exact absurd (heq.symm.trans (update_self ..)) (Nat.succ_ne_self _).symm
    · exact update_of_ne hp ..
  versions p := by
    by_cases hp : p = e.path
    · subst hp
      rw [show (b.write o e).versions e.path = _ ++ _ from rfl, show (b.write o e).past e.path = _
        from update_self ..]
      exact subset_append_right ..
    · rw [show (b.write o e).versions p = _ ++ _ from rfl, show (b.write o e).past p = _
        from update_of_ne hp .., show (b.write o e).disk p = _ from update_of_ne hp ..]
      exact Subset.refl _

theorem later_foldl {α : Type} {f : Build η → α → Build η} (hf : ∀ b a, Build.Later b (f b a))
    (as : List α) (b : Build η) : b.Later (as.foldl f b) :=
  foldlRecOn as f (.refl b) fun b' hb a _ => hb.trans (hf b' a)

theorem Build.tick_later (b : Build η) : b.Later b.tick := by
  rw [Build.tick]
  split
  next => exact .refl b
  next es rest h =>
    have hes : b.Later (es.foldl Build.edit b) := later_foldl (fun b e => b.write_later none e) es b
    exact ⟨hes.states, hes.runs, fun hq => (by rw [h] at hq; cases hq), hes.writes, hes.same,
      hes.versions⟩

theorem Build.Ticked.later (h : b.Ticked b') : b.Later b' := by
  obtain ⟨n, rfl⟩ := h
  induction n with
  | zero => exact .refl b
  | succ n ih =>
    rw [iterate_succ_apply']
    exact ih.trans (Build.tick_later _)

/-! ## What the runs have made -/

/-- What a run left as its output is still there. -/
def Made (tool : Tool) (b : Build η) : Prop :=
  ∀ p key read, b.origin p = some ⟨key, read, true⟩ → b.content p = some (tool key read p)

variable {tool : Tool}

theorem Made.write (h : Made tool b) {o : Option FileOrigin} {e : FileEdit}
    (hw : ∀ key read, o = some ⟨key, read, true⟩ →
      e.file.map DevFile.content = some (tool key read e.path)) : Made tool (b.write o e) := by
  intro p key read ho
  rw [Build.origin_write] at ho
  rw [Build.content_write]
  split at ho
  next hp =>
    rw [if_pos hp, hp]
    exact hw key read ho
  next hp =>
    rw [if_neg hp]
    exact h p key read ho

theorem Made.tick (h : Made tool b) : Made tool b.tick := by
  rw [Build.tick]
  split
  next => exact h
  next es rest _ =>
    exact (foldlRecOn es Build.edit h fun b hb e _ => hb.write nofun : Made tool _)

theorem Made.ticked (h : Made tool b) (ht : b.Ticked b') : Made tool b' := by
  obtain ⟨n, rfl⟩ := ht
  induction n with
  | zero => exact h
  | succ n ih =>
    rw [iterate_succ_apply']
    exact ih.tick

/-! ## The steps of a round -/

theorem readInputs_ticked (b : Build η) (is : List TaskInput) : b.Ticked (readInputs b is).2 := by
  induction is generalizing b with
  | nil => exact .refl b
  | cons i is ih => exact b.tick_ticked.trans (ih b.tick)

/-- What was read of a file that nobody writes meanwhile. -/
theorem readInputs_calm {is : List TaskInput} {path : String} {c : Option (List UInt8)}
    (hcalm : (readInputs b is).2.writes path = b.writes path)
    (hc : .file path c ∈ (readInputs b is).1) : c = b.content path := by
  induction is generalizing b with
  | nil => cases hc
  | cons i is ih =>
    obtain ⟨h1, h2⟩ := b.tick_later.between (readInputs_ticked b.tick is).later hcalm
    have hsame : b.tick.content path = b.content path := congrArg _ (b.tick_later.same path h1)
    rcases mem_cons.mp hc with hc | hc
    · cases i with
      | value => cases hc
      | file =>
        cases hc
        exact hsame
    · rw [ih h2 hc, hsame]

theorem outputsExist_ticked (b : Build η) (ps : List String) :
    b.Ticked (outputsExist b ps).2 := by
  induction ps generalizing b with
  | nil => exact .refl b
  | cons p ps ih =>
    rw [outputsExist]
    split
    · exact b.tick_ticked.trans (ih b.tick)
    · exact b.tick_ticked

theorem runTool_later (t : BuildTask) (is : List TaskInput) (b : Build η) :
    (readInputs b is).2.Later (runTool tool t is b).2 := by
  have htick := (readInputs b is).2.tick_later
  rw [runTool]
  cases t.result with
  | done => exact htick.trans (later_foldl (fun b p => b.write_later _ _) _ _)
  | failed => exact htick.trans (later_foldl (fun b e => b.write_later _ e) _ _)

theorem runTool_read {t : BuildTask} {is : List TaskInput} {read : List InputData}
    (h : (runTool tool t is b).1 = some read) : read = (readInputs b is).1 := by
  rw [runTool] at h
  cases hres : t.result with
  | done =>
    rw [hres] at h
    exact (some.inj h).symm
  | failed =>
    rw [hres] at h
    cases h

theorem Made.runTool (h : Made tool b) (t : BuildTask) (is : List TaskInput) :
    Made tool (runTool tool t is b).2 := by
  have hread := (h.ticked (readInputs_ticked b is)).tick
  rw [Blyt.runTool]
  cases t.result with
  | done =>
    refine foldlRecOn t.outputs _ hread fun b hb p _ => hb.write ?_
    rintro key read ⟨⟩
    rfl
  | failed writes => exact foldlRecOn writes _ hread fun b hb e _ => hb.write (by simp)

end Disk

section Check

variable {η : Type} [DecidableEq η] [Inhabited η] (hash : List UInt8 → η) {b : Build η}

/-! ## The check -/

/-- The state of a file as it is recorded. -/
def DevFile.stamp (f : DevFile) : FileState η := ⟨f.size, f.mtime, hash f.content⟩

/-- The answer of `check_file` if nobody writes the file meanwhile. -/
def fileAnswer (file : Option DevFile) (prev : Option (FileState η)) :
    Option (FileState η) × Bool :=
  match file, prev with
  | none, _ => (none, true)
  | some f, none => (some (f.stamp hash), true)
  | some f, some p =>
    if p.size = f.size ∧ p.mtime = f.mtime then (some p, false)
    else (some (f.stamp hash), p.hash ≠ hash f.content)

omit [Inhabited η] in
theorem fileAnswer_unchanged {hash : List UInt8 → η} {file : Option DevFile}
    {prev : Option (FileState η)} (h : (fileAnswer hash file prev).2 = false) :
    ∃ f p, file = some f ∧ prev = some p
      ∧ (p.size = f.size ∧ p.mtime = f.mtime ∧ (fileAnswer hash file prev).1 = some p
        ∨ p.hash = hash f.content ∧ (fileAnswer hash file prev).1 = some (f.stamp hash)) := by
  rcases file with _ | f
  · cases h
  rcases prev with _ | p
  · cases h
  refine ⟨f, p, rfl, rfl, ?_⟩
  rw [fileAnswer] at h ⊢
  split at h
  next hst => exact .inl ⟨hst.1, hst.2, by rw [if_pos hst]⟩
  next hst => exact .inr ⟨by simpa using h, by rw [if_neg hst]⟩

theorem checkFile_ticked (b : Build η) (path : String) (prev : Option (FileState η)) :
    b.Ticked (checkFile hash b path prev).2 := by
  have htwice := b.tick_ticked.trans b.tick.tick_ticked
  rw [checkFile]
  simp only
  split
  · exact b.tick_ticked
  · split
    · split
      · exact b.tick_ticked
      · split <;> exact htwice
    · exact htwice

theorem checkFile_calm {path : String} {prev : Option (FileState η)}
    (hcalm : (checkFile hash b path prev).2.writes path = b.writes path) :
    (checkFile hash b path prev).1 = fileAnswer hash (b.disk path) prev := by
  -- the first access finds the file of the start, and so does a second one
  have h1 := b.tick_later
  have h2 := b.tick.tick_later
  have htwo : b.tick.tick.writes path = b.writes path → b.tick.disk path = b.disk path
      ∧ b.tick.tick.content path = b.content path := fun heq =>
    have ⟨ha, hb⟩ := h1.between h2 heq
    ⟨h1.same path ha, congrArg _ ((h2.same path hb).trans (h1.same path ha))⟩
  unfold checkFile at hcalm ⊢
  cases hf : b.tick.disk path with
  | none =>
    simp only [hf] at hcalm ⊢
    rw [← h1.same path hcalm, hf]
    rfl
  | some f =>
    cases prev with
    | none =>
      simp only [hf] at hcalm ⊢
      obtain ⟨hdisk, hcont⟩ := htwo hcalm
      rw [hcont, Build.content, ← hdisk, hf]
      rfl
    | some p =>
      simp only [hf] at hcalm ⊢
      split at hcalm
      next hst =>
        rw [if_pos hst, ← h1.same path hcalm, hf, fileAnswer, if_pos hst]
      next hst =>
        have heq : b.tick.tick.writes path = b.writes path := by
          split at hcalm <;> exact hcalm
        obtain ⟨hdisk, hcont⟩ := htwo heq
        rw [if_neg hst, hcont, Build.content, ← hdisk, hf, fileAnswer, if_neg hst]
        rfl

/-- The file's key is not that of a value. -/
def plainPath (path : String) : Bool := !("value:".toList.isPrefixOf path.toList)

theorem ne_of_plainPath {path : String} (h : plainPath path = true) (v : String) :
    path ≠ "value:" ++ v := by
  rintro rfl
  rw [plainPath, String.toList_append, Bool.not_eq_true', isPrefixOf_iff_prefix.mpr] at h
  · cases h
  · exact prefix_append ..

/-- One input: the disk is looked at, the flag is not taken back, and a file that nobody writes
meanwhile is answered as above. -/
theorem checkInput_spec (prev : Option (TaskState η)) (i : TaskInput)
    (acc : (String → Option (FileState η)) × Bool × Build η) :
    let acc' := checkInput hash prev acc i
    acc.2.2.Ticked acc'.2.2 ∧ (acc'.2.1 = false → acc.2.1 = false)
      ∧ ∀ path, plainPath path = true →
        (.file path ≠ i → acc'.1 path = acc.1 path)
        ∧ (.file path = i → acc'.2.2.writes path = acc.2.2.writes path →
          let ans := fileAnswer hash (acc.2.2.disk path) (prev.bind fun s => s.inputs path)
          (∀ fs, acc'.1 path = some fs → acc.1 path = some fs ∨ ans.1 = some fs)
            ∧ (acc'.2.1 = false → ans.2 = false)) := by
  cases i with
  | value v =>
    refine ⟨.refl _, fun h => (Bool.or_eq_false_iff.mp h).1, fun path hplain => ⟨fun _ => ?_, ?_⟩⟩
    swap
    · rintro ⟨⟩
    exact update_of_ne (ne_of_plainPath hplain v) ..
  | file path' =>
    refine ⟨checkFile_ticked hash _ path' _, fun h => (Bool.or_eq_false_iff.mp h).1,
      fun path hplain => ⟨fun hne => ?_, ?_⟩⟩
    · have hne : path ≠ path' := fun h => hne (by rw [h])
      simp only [checkInput, TaskInput.stateKey]
      cases (checkFile hash acc.2.2 path' (prev.bind fun s => s.inputs path')).1.1 with
      | none => rfl
      | some => exact update_of_ne hne ..
    · rintro ⟨⟩ hcalm
      have hans := checkFile_calm hash hcalm
      simp only [checkInput, TaskInput.stateKey] at hans ⊢
      rw [hans]
      refine ⟨fun fs hfs => ?_, fun h => (Bool.or_eq_false_iff.mp h).2⟩
      cases hnew : (fileAnswer hash (acc.2.2.disk path') (prev.bind fun s => s.inputs path')).1 with
      | none =>
        rw [hnew] at hfs
        exact .inl hfs
      | some =>
        rw [hnew] at hfs
        exact .inr ((update_self path' _ acc.1).symm.trans hfs)

theorem checkInputs_loop (prev : Option (TaskState η)) (is : List TaskInput)
    (acc : (String → Option (FileState η)) × Bool × Build η) :
    let fin := is.foldl (checkInput hash prev) acc
    acc.2.2.Ticked fin.2.2 ∧ (fin.2.1 = false → acc.2.1 = false)
      ∧ ∀ path, plainPath path = true →
        (.file path ∈ is → fin.2.2.writes path = acc.2.2.writes path) →
        let ans := fileAnswer hash (acc.2.2.disk path) (prev.bind fun s => s.inputs path)
        (∀ fs, fin.1 path = some fs → acc.1 path = some fs ∨ .file path ∈ is ∧ ans.1 = some fs)
          ∧ (fin.2.1 = false → .file path ∈ is → ans.2 = false) := by
  induction is generalizing acc with
  | nil => exact ⟨.refl _, id, fun path _ _ => ⟨fun fs => .inl, fun _ => nofun⟩⟩
  | cons i is ih =>
    obtain ⟨ht, hflag, hhere⟩ := checkInput_spec hash prev i acc
    obtain ⟨ht', hflag', hrest⟩ := ih (checkInput hash prev acc i)
    refine ⟨ht.trans ht', fun h => hflag (hflag' h), fun path hplain hcalm => ?_⟩
    rw [foldl_cons] at hcalm ⊢
    obtain ⟨hother, hfile⟩ := hhere path hplain
    obtain ⟨hmap, hans⟩ := hrest path hplain fun hmem =>
      (ht.later.between ht'.later (hcalm (mem_cons_of_mem i hmem))).2
    -- a file of the list has not been written before its turn
    have hdisk : .file path ∈ i :: is →
        (checkInput hash prev acc i).2.2.writes path = acc.2.2.writes path :=
      fun hmem => (ht.later.between ht'.later (hcalm hmem)).1
    constructor
    · intro fs hfs
      rcases hmap fs hfs with hfs | ⟨hmem, hfs⟩
      · by_cases heq : .file path = i
        · refine ((hfile heq (hdisk (heq ▸ mem_cons_self))).1 fs hfs).imp_right fun h => ?_
          exact ⟨heq ▸ mem_cons_self, h⟩
        · exact .inl (hother heq ▸ hfs)
      · rw [ht.later.same path (hdisk (mem_cons_of_mem i hmem))] at hfs
        exact .inr ⟨mem_cons_of_mem i hmem, hfs⟩
    · intro hfin hmem
      rcases mem_cons.mp hmem with heq | hmem'
      · exact (hfile heq (hdisk hmem)).2 (hflag' hfin)
      · rw [← ht.later.same path (hdisk hmem)]
        exact hans hfin hmem'

omit [DecidableEq η] [Inhabited η] in
theorem calmBetween_file {is : List TaskInput} {b' : Build η} (h : calmBetween is b b' = true)
    {path : String} (hmem : .file path ∈ is) : b'.writes path = b.writes path :=
  beq_iff_eq.mp (List.all_eq_true.mp h _ hmem)

theorem checkInputs_ticked (b : Build η) (is : List TaskInput) (prev : Option (TaskState η)) :
    b.Ticked (checkInputs hash b is prev).2.2 :=
  (checkInputs_loop hash prev is (fun _ => none, false, b)).1

/-- **The check** of files that nobody writes meanwhile. -/
theorem checkInputs_calm {is : List TaskInput} {prev : Option (TaskState η)} {path : String}
    (hplain : plainPath path = true)
    (hcalm : .file path ∈ is → (checkInputs hash b is prev).2.2.writes path = b.writes path) :
    let ans := fileAnswer hash (b.disk path) (prev.bind fun s => s.inputs path)
    (∀ fs, (checkInputs hash b is prev).1 path = some fs → .file path ∈ is ∧ ans.1 = some fs)
      ∧ ((checkInputs hash b is prev).2.1 = false → .file path ∈ is → ans.2 = false) := by
  obtain ⟨hmap, hans⟩ := (checkInputs_loop hash prev is (fun _ => none, false, b)).2.2 path hplain
    hcalm
  exact ⟨fun fs hfs => (hmap fs hfs).resolve_left nofun, hans⟩

/-! ## What was recorded -/

/-- The recorded state is the stamp of a version with this content. -/
def Stamps (b : Build η) (path : String) (c : Option (List UInt8)) (fs : FileState η) : Prop :=
  ∃ f ∈ b.versions path, c = some f.content ∧ fs = f.stamp hash

/-- The outputs of a run are what it made, and where its recording was calm, the recorded
states belong to what it had read. -/
structure Logged (tool : Tool) (b : Build η) : Prop where
  made : Made tool b
  recorded : ∀ key read, b.runs key = some ⟨read, true⟩ → ∀ st, b.states key = some st →
    ∀ path c, .file path c ∈ read → plainPath path = true → ∀ fs, st.inputs path = some fs →
      Stamps hash b path c fs

variable {hash} {tool : Tool} {b' : Build η}

omit [DecidableEq η] [Inhabited η] in
theorem Logged.later (h : Logged hash tool b) (hl : b.Later b') (hmade : Made tool b') :
    Logged hash tool b' := by
  refine ⟨hmade, fun key read hrun st hst path c hc hplain fs hfs => ?_⟩
  rw [hl.runs] at hrun
  rw [hl.states] at hst
  obtain ⟨f, hf, hrest⟩ := h.recorded key read hrun st hst path c hc hplain fs hfs
  exact ⟨f, hl.versions path hf, hrest⟩

omit [DecidableEq η] [Inhabited η] in
theorem Logged.ticked (h : Logged hash tool b) (ht : b.Ticked b') : Logged hash tool b' :=
  h.later ht.later (h.made.ticked ht)

omit [DecidableEq η] [Inhabited η] in
theorem Logged.save (h : Logged hash tool b) {key : String} {st : TaskState η}
    {log : Option RunLog} (hrec : ∀ read, log = some ⟨read, true⟩ → ∀ path c, .file path c ∈ read →
      plainPath path = true → ∀ fs, st.inputs path = some fs → Stamps hash b path c fs) :
    Logged hash tool (saveTaskState b key st log) := by
  refine ⟨h.made, fun key' read hrun st' hst => ?_⟩
  replace hrun : update b.runs key log key' = some ⟨read, true⟩ := hrun
  replace hst : update b.states key (some st) key' = some st' := hst
  by_cases hkey : key' = key
  · subst hkey
    rw [update_self] at hrun hst
    cases hst
    exact hrec read hrun
  · rw [update_of_ne hkey] at hrun hst
    exact h.recorded key' read hrun st' hst

/-! ## One round of `run_tasks` -/

variable {exe : Option String} {t : BuildTask} {force : Bool}

/-- A skip confirms the record: what a calm check leaves unchanged or finds by its hash is the
stamp of a version with the same content. -/
theorem Logged.skipsTask (hinj : Injective hash) (h : Logged hash tool b) :
    Logged hash tool (skipsTask hash exe b t).2 := by
  rw [Blyt.skipsTask]
  simp only
  have hout := outputsExist_ticked b t.outputs
  have hr := h.ticked hout
  by_cases hall : (outputsExist b t.outputs).1 = true
  swap
  · rw [if_neg hall]
    exact hr
  rw [if_pos hall]
  generalize (outputsExist b t.outputs).2 = r at hr ⊢
  have hcheck := checkInputs_ticked hash r (effectiveInputs exe t.inputs) (r.states t.key)
  split
  next => exact hr.ticked hcheck
  next hneeds =>
    refine (hr.ticked hcheck).save fun read hlog path c hc hplain fs hfs => ?_
    obtain ⟨⟨read', calm⟩, hrun, heq⟩ := map_eq_some_iff.mp hlog
    obtain ⟨rfl, hcalm⟩ := RunLog.mk.inj heq
    obtain ⟨rfl, hcalm⟩ := Bool.and_eq_true_iff.mp hcalm
    obtain ⟨hmap, hans⟩ := checkInputs_calm hash hplain (calmBetween_file hcalm)
    obtain ⟨hmem, hfs⟩ := hmap fs hfs
    obtain ⟨f, p, hf, hprev, hkept⟩ :=
      fileAnswer_unchanged (hans (Bool.not_eq_true _ ▸ hneeds) hmem)
    obtain ⟨st, hst, hp⟩ := bind_eq_some_iff.mp hprev
    obtain ⟨g, hg, rfl, rfl⟩ := hr.recorded t.key read' hrun st hst path c hc hplain p hp
    rcases hkept with ⟨-, -, hsame⟩ | ⟨hhash, hnew⟩
    · obtain rfl := some.inj (hfs.symm.trans hsame)
      exact ⟨g, hcheck.later.versions path hg, rfl, rfl⟩
    · obtain rfl := some.inj (hfs.symm.trans hnew)
      refine ⟨f, hcheck.later.versions path ?_, congrArg some (hinj hhash), rfl⟩
      simp [Build.versions, hf]

/-- A run whose inputs nobody writes records the stamps of what the tool has read. -/
theorem Logged.runTool (h : Logged hash tool b) (is : List TaskInput) {read : List InputData}
    (hran : (runTool tool t is b).1 = some read) :
    let ran := runTool tool t is b
    let c := checkInputs hash ran.2 is none
    Logged hash tool (saveTaskState c.2.2 t.key ⟨c.1, t.outputs⟩
      (some ⟨read, calmBetween is b c.2.2⟩)) := by
  intro ran c
  have hread := (readInputs_ticked b is).later
  have htool : (readInputs b is).2.Later ran.2 := runTool_later t is b
  have hcheck : ran.2.Ticked c.2.2 := checkInputs_ticked hash _ is none
  have hlogged : Logged hash tool ran.2 := h.later (hread.trans htool) (h.made.runTool t is)
  refine (hlogged.ticked hcheck).save fun read' hlog path d hd hplain fs hfs => ?_
  obtain ⟨rfl, hcalm⟩ := RunLog.mk.inj (some.inj hlog)
  have hsplit : .file path ∈ is → ran.2.writes path = b.writes path
      ∧ c.2.2.writes path = ran.2.writes path := fun hmem =>
    (hread.trans htool).between hcheck.later (calmBetween_file hcalm hmem)
  obtain ⟨hmem, hans⟩ := (checkInputs_calm hash hplain fun hmem => (hsplit hmem).2).1 fs hfs
  obtain ⟨hbefore, hafter⟩ := hsplit hmem
  rw [runTool_read hran] at hd
  obtain rfl := readInputs_calm (hread.between htool hbefore).1 hd
  have hdisk : ran.2.disk path = b.disk path := (hread.trans htool).same path hbefore
  cases hf : ran.2.disk path with
  | none =>
    rw [hf] at hans
    cases hans
  | some f =>
    rw [hf] at hans
    refine ⟨f, ?_, ?_, (some.inj hans).symm⟩
    · simp [Build.versions, hcheck.later.same path hafter, hf]
    · rw [Build.content, ← hdisk, hf]
      rfl

theorem skipsTask_quiet (h : b.pending = []) : (skipsTask hash exe b t).2.pending = [] := by
  have hout := outputsExist_ticked b t.outputs
  rw [skipsTask]
  simp only
  have hcheck := checkInputs_ticked hash (outputsExist b t.outputs).2
    (effectiveInputs exe t.inputs) ((outputsExist b t.outputs).2.states t.key)
  have hq := (hout.trans hcheck).later.quiet h
  split
  · split <;> exact hq
  · exact hout.later.quiet h

theorem runTask_keeps (hinj : Injective hash) (h : Logged hash tool b) :
    Logged hash tool (runTask hash tool exe force b t).2
      ∧ (b.pending = [] → (runTask hash tool exe force b t).2.pending = []) := by
  rw [runTask]
  simp only
  have hfirst : let r := if force then (false, b) else skipsTask hash exe b t
      Logged hash tool r.2 ∧ (b.pending = [] → r.2.pending = []) := by
    intro r
    simp only [r]
    split
    · exact ⟨h, id⟩
    · exact ⟨h.skipsTask hinj, skipsTask_quiet⟩
  generalize (if force then (false, b) else skipsTask hash exe b t) = r at hfirst ⊢
  obtain ⟨hlog, hq⟩ := hfirst
  split
  · exact ⟨hlog, hq⟩
  have hran : r.2.Later (runTool tool t (effectiveInputs exe t.inputsAfter) r.2).2 :=
    (readInputs_ticked r.2 _).later.trans (runTool_later t _ r.2)
  split
  next read hread =>
    refine ⟨hlog.runTool _ hread, fun h => ?_⟩
    exact (checkInputs_ticked hash _ _ none).later.quiet (hran.quiet (hq h))
  next => exact ⟨hlog.later hran (hlog.made.runTool t _), fun h => hran.quiet (hq h)⟩

theorem skipped_quiet (h : b.pending = [])
    (hskip : (runTask hash tool exe force b t).1 = .skipped) {path : String}
    (hplain : plainPath path = true) (hmem : .file path ∈ effectiveInputs exe t.inputs) :
    (fileAnswer hash (b.disk path) ((b.states t.key).bind fun s => s.inputs path)).2 = false := by
  have hskips : (skipsTask hash exe b t).1 = true := by
    rw [runTask] at hskip
    cases force with
    | true =>
      simp only [if_true, Bool.false_eq_true, if_false] at hskip
      split at hskip <;> cases hskip
    | false =>
      simp only [Bool.false_eq_true, if_false] at hskip
      split at hskip
      next hs => exact hs
      next => split at hskip <;> cases hskip
  rw [skipsTask, (outputsExist_ticked b t.outputs).eq_of_quiet h] at hskips
  simp only at hskips
  split at hskips
  next =>
    split at hskips
    next => cases hskips
    next hneeds =>
      refine (checkInputs_calm hash hplain fun _ => ?_).2 (Bool.not_eq_true _ ▸ hneeds) hmem
      rw [(checkInputs_ticked hash b _ _).eq_of_quiet h]
  next => cases hskips

/-- Versions of an input file with the same size and mtime have the same content. -/
def StampedInputs (exe : Option String) (b : Build η) (t : BuildTask) : Prop :=
  ∀ i ∈ effectiveInputs exe t.inputs, match i with
    | .file path => ∀ f ∈ b.versions path, ∀ g ∈ b.versions path,
        f.size = g.size → f.mtime = g.mtime → f.content = g.content
    | .value _ => True

/-- A run has read this: the last one of the task that got through, with the inputs the task has
now, and nobody wrote them before they were recorded. -/
def FromLast (exe : Option String) (b : Build η) (t : BuildTask) (read : List InputData) : Prop :=
  b.runs t.key = some ⟨read, true⟩ ∧ read.map InputData.input = effectiveInputs exe t.inputs
    ∧ ∀ i ∈ effectiveInputs exe t.inputs, ∀ path, i = .file path → plainPath path = true

/-- **What a skipped task's last run has read is what is there now.** -/
theorem FromLast.current (hinj : Injective hash) (hb : Logged hash tool b) (hq : b.pending = [])
    (hskip : (runTask hash tool exe force b t).1 = .skipped) (hst : StampedInputs exe b t)
    {read : List InputData} (h : FromLast exe b t read) :
    read = (effectiveInputs exe t.inputs).map b.look := by
  obtain ⟨hrun, hinputs, hplain⟩ := h
  rw [← hinputs, List.map_map]
  refine (List.map_id read).symm.trans (map_congr_left fun d hd => ?_)
  cases d with
  | value => rfl
  | file path c =>
    have hmem : .file path ∈ effectiveInputs exe t.inputs :=
      hinputs ▸ List.mem_map.mpr ⟨_, hd, rfl⟩
    have hpath := hplain _ hmem path rfl
    obtain ⟨f, p, hf, hprev, hkept⟩ := fileAnswer_unchanged (skipped_quiet hq hskip hpath hmem)
    obtain ⟨st, hstate, hp⟩ := bind_eq_some_iff.mp hprev
    obtain ⟨g, hg, rfl, rfl⟩ := hb.recorded t.key read hrun st hstate path c hd hpath p hp
    have hcontent : g.content = f.content := by
      rcases hkept with ⟨hsize, hmtime, -⟩ | ⟨hhash, -⟩
      · exact hst _ hmem g hg f (by simp [Build.versions, hf]) hsize hmtime
      · exact hinj hhash
    rw [comp_apply, InputData.input, Build.look, Build.content, hf, map_some, hcontent]
    rfl

/-! ## The tasks a call skips -/

variable (hash) (tool) (exe) (force)

/-- The next round's build, if there is one. -/
def taskStep (b : Build η) (t : BuildTask) : Option (Build η) :=
  if (runTask hash tool exe force b t).1 = .failed then none
  else some (runTask hash tool exe force b t).2

/-- `P` holds of every task the call skips. -/
def OnSkips (P : Build η → BuildTask → Prop) : Build η → List BuildTask → Prop :=
  AdmRun (taskStep hash tool exe force)
    fun b t => (runTask hash tool exe force b t).1 = .skipped → P b t

end Check

/-- `P` holds of every task that a call skips during which nothing is edited. -/
def BuildEvent.Skips {η : Type} [DecidableEq η] [Inhabited η] (hash : List UInt8 → η) (tool : Tool)
    (P : Option String → Build η → BuildTask → Prop) (b : Build η) : BuildEvent → Prop
  | .edit _ => True
  | .call tasks exe force during =>
    during = [] → OnSkips hash tool exe force (P exe) { b with pending := [] } tasks

section Histories

variable {η : Type} [DecidableEq η] [Inhabited η] (hash : List UInt8 → η) (tool : Tool)

/-- `P` holds of every task that is skipped in a history. -/
def HistorySkips (P : Option String → Build η → BuildTask → Prop) (disk : String → Option DevFile)
    (es : List BuildEvent) : Prop :=
  AdmRun (fun b e => some (buildStep hash tool b e)) (fun b e => e.Skips hash tool P b)
    (buildStart disk) es

/-- What follows from a condition on skipped tasks for one task, follows for a call. -/
theorem BuildEvent.skips_imp {hash : List UInt8 → η} {tool : Tool}
    {P Q : Option String → Build η → BuildTask → Prop} {I : Build η → Prop} {b : Build η}
    {e : BuildEvent} (hI : I { b with pending := [] })
    (hkeep : ∀ tasks exe force, e = .call tasks exe force [] →
      ∀ b, ∀ t ∈ tasks, I b → I (runTask hash tool exe force b t).2)
    (himp : ∀ exe force b t, I b → (runTask hash tool exe force b t).1 = .skipped →
      P exe b t → Q exe b t) (hP : e.Skips hash tool P b) : e.Skips hash tool Q b := by
  cases e with
  | edit => trivial
  | call tasks exe force =>
    rintro rfl
    refine AdmRun.imp (fun b t _ hb hPt hs => himp exe force b t hb hs (hPt hs)) ?_ hI (hP rfl)
    intro b t ht b' hb _ hstep
    rw [taskStep] at hstep
    split at hstep
    · cases hstep
    · cases hstep
      exact hkeep tasks exe force rfl b t ht hb

variable {P Q : Option String → Build η → BuildTask → Prop} {I : Build η → Prop} {b : Build η}
  {e : BuildEvent} {es : List BuildEvent} {o : Option FileOrigin}

theorem BuildEvent.skips_and {hash : List UInt8 → η} {tool : Tool}
    (hP : e.Skips hash tool P b) (hQ : e.Skips hash tool Q b) :
    e.Skips hash tool (fun exe b t => P exe b t ∧ Q exe b t) b := by
  cases e with
  | edit => trivial
  | call =>
    intro hd
    exact ((hP hd).and (hQ hd)).imp (fun b t _ _ h hs => ⟨h.1 hs, h.2 hs⟩)
      (fun _ _ _ _ _ _ _ => trivial) trivial

theorem runTasks_logged {hash : List UInt8 → η} (hinj : Injective hash) {tool : Tool}
    (exe : Option String) (force : Bool) (ts : List BuildTask) (h : Logged hash tool b) :
    Logged hash tool (runTasks hash tool exe force b ts).2 := by
  induction ts generalizing b with
  | nil => exact h
  | cons t ts ih =>
    have hstep : Logged hash tool (runTask hash tool exe force b t).2 := (runTask_keeps hinj h).1
    rw [runTasks]
    split
    · exact hstep
    · exact ih hstep

theorem buildStep_logged {hash : List UInt8 → η} (hinj : Injective hash) {tool : Tool}
    (e : BuildEvent) (h : Logged hash tool b) : Logged hash tool (buildStep hash tool b e) := by
  cases e with
  | edit e => exact h.later (b.write_later none e) (h.made.write nofun)
  | call tasks exe force during =>
    have hcall : Logged hash tool { b with pending := during } := ⟨h.made, h.recorded⟩
    have hend := runTasks_logged hinj exe force tasks hcall
    exact ⟨hend.made, hend.recorded⟩

/-- What the last run has read decides about every skipped task, in any history. -/
theorem HistorySkips.of_last {hash : List UInt8 → η} (hinj : Injective hash) {tool : Tool}
    {disk : String → Option DevFile} {es : List BuildEvent}
    (hst : HistorySkips hash tool StampedInputs disk es)
    (himp : ∀ exe b t, Made tool b →
      (∀ read, FromLast exe b t read → read = (effectiveInputs exe t.inputs).map b.look) →
      P exe b t → Q exe b t) (hP : HistorySkips hash tool P disk es) :
    HistorySkips hash tool Q disk es := by
  refine AdmRun.imp (I := Logged hash tool) (fun b e _ hb h => ?_) ?_ ⟨nofun, nofun⟩ (hst.and hP)
  · refine BuildEvent.skips_imp (I := fun b => Logged hash tool b ∧ b.pending = [])
      ⟨⟨hb.made, hb.recorded⟩, rfl⟩ (fun _ exe force _ b t _ hb => ?_) ?_
      (BuildEvent.skips_and h.1 h.2)
    · exact (runTask_keeps hinj hb.1).imp_right fun hq => hq hb.2
    · intro exe force b t hb hskip hpt
      exact himp exe b t hb.1.made (fun read h => h.current hinj hb.1 hb.2 hskip hpt.1) hpt.2
  · rintro b e - b' hb - ⟨⟩
    exact buildStep_logged hinj e hb

/-! ## The results -/

/-- The outputs were made from what the inputs are now. -/
def MadeFromCurrent (exe : Option String) (b : Build η) (t : BuildTask) : Prop :=
  ∀ p ∈ t.outputs, ∀ o ∈ b.origin p, o.read = (effectiveInputs exe t.inputs).map b.look

/-- The runs that wrote the outputs had read what the last run of the task had. -/
def ReadByLast (exe : Option String) (b : Build η) (t : BuildTask) : Prop :=
  ∀ p ∈ t.outputs, ∀ o ∈ b.origin p, FromLast exe b t o.read

/-- The outputs are what the task would make of its inputs. -/
def OutputsCurrent (exe : Option String) (b : Build η) (t : BuildTask) : Prop :=
  ∀ p ∈ t.outputs, b.content p = some (tool t.key ((effectiveInputs exe t.inputs).map b.look) p)

/-- The outputs were written last by the last run of the task that got through. -/
def MadeByLast (exe : Option String) (b : Build η) (t : BuildTask) : Prop :=
  ∀ p ∈ t.outputs, ∃ o ∈ b.origin p, o.key = t.key ∧ o.complete = true ∧ FromLast exe b t o.read

end Histories

/-! ## Runs -/

section Checks

variable {η : Type} [DecidableEq η] [Inhabited η] (hash : List UInt8 → η) (tool : Tool)

instance (exe : Option String) (b : Build η) (t : BuildTask) : Decidable (StampedInputs exe b t) :=
  have (i : TaskInput) : Decidable (match i with
      | .file path => ∀ f ∈ b.versions path, ∀ g ∈ b.versions path,
          f.size = g.size → f.mtime = g.mtime → f.content = g.content
      | .value _ => True) := by cases i <;> infer_instance
  inferInstanceAs (Decidable (∀ i ∈ effectiveInputs exe t.inputs, _))

instance (exe : Option String) (b : Build η) (t : BuildTask) (read : List InputData) :
    Decidable (FromLast exe b t read) :=
  have (i : TaskInput) : Decidable (∀ path, i = .file path → plainPath path = true) :=
    match i with
    | .file path => decidable_of_iff (plainPath path = true) (by simp)
    | .value _ => .isTrue nofun
  inferInstanceAs (Decidable (_ ∧ _ ∧ ∀ i ∈ effectiveInputs exe t.inputs, _))

instance (exe : Option String) (b : Build η) (t : BuildTask) : Decidable (ReadByLast exe b t) :=
  inferInstanceAs (Decidable (∀ p ∈ t.outputs, ∀ o ∈ b.origin p, _))

instance (exe : Option String) (b : Build η) (t : BuildTask) : Decidable (MadeByLast exe b t) :=
  inferInstanceAs (Decidable (∀ p ∈ t.outputs, ∃ o ∈ b.origin p, _))

instance (P : Option String → Build η → BuildTask → Prop) [∀ exe b t, Decidable (P exe b t)]
    (b : Build η) (e : BuildEvent) : Decidable (e.Skips hash tool P b) :=
  match e with
  | .edit _ => .isTrue trivial
  | .call _ _ _ _ => inferInstanceAs (Decidable (_ → AdmRun _ _ _ _))

instance (P : Option String → Build η → BuildTask → Prop) [∀ exe b t, Decidable (P exe b t)]
    (disk : String → Option DevFile) (es : List BuildEvent) :
    Decidable (HistorySkips hash tool P disk es) :=
  inferInstanceAs (Decidable (AdmRun _ _ _ _))

end Checks

/-- A linker that puts its objects one after the other. -/
def demoTool : Tool := fun _ read _ => read.flatMap fun d => match d with
  | .file _ c => c.getD []
  | .value _ => []

def demoDisk (path : String) : Option DevFile :=
  if path = "a.o" then some ⟨[1], 10⟩
  else if path = "b.o" then some ⟨[2], 11⟩
  else if path = "cart.ld" then some ⟨[0], 12⟩
  else none

def demoLink (objs : List String) (result : ToolResult) : BuildTask :=
  LinkElfTask.task ⟨"clang", objs, none, [], "cart.ld", "cart.elf"⟩ result

/-- A build, one that is skipped, an edit, a failed build and a good one. -/
def demoHistory : List BuildEvent :=
  [.call [demoLink ["a.o", "b.o"] (.done 20)] none false [],
   .call [demoLink ["a.o", "b.o"] (.done 30)] none false [],
   .edit ⟨"b.o", some ⟨[3], 40⟩⟩,
   .call [demoLink ["a.o", "b.o"] (.failed [⟨"cart.elf", some ⟨[9], 41⟩⟩])] none false [],
   .call [demoLink ["a.o", "b.o"] (.done 50)] none false [],
   .edit ⟨"b.o", some ⟨[3], 60⟩⟩,
   .call [demoLink ["a.o", "b.o"] (.done 70)] none false []]

/-- An edit that lands during the first call, after the linker has read the object. -/
def demoRace : List BuildEvent :=
  [.call [demoLink ["a.o", "b.o"] (.done 20)] none false
    [[], [], [], [], [⟨"a.o", some ⟨[7], 19⟩⟩]]]

end Blyt
