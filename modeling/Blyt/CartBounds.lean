import Blyt.CartReads

/-!
# The verifier and the end of the file

The log of `cartOpen` against the end of the file, on every path. What is not
guarded is

* a name at the very end of the file, which a string comparison follows out of it;
* a section without file bytes (`SHT_NOBITS`) that carries a name the verifier
  reads contents for;
* the size `DT_STRSZ` gives the dynamic string table, and a string table that is
  found by its address or by `sh_link` only.

`cartOpen_inside_iff` says that this is all, stage by stage, and
`cartOpen_outside` is a file that makes the verifier read where nothing is.
-/

namespace Blyt

open Reader

variable {f : Image}

/-! ## Entry points -/

/-- Symbol `j` defines the entry point. -/
def definesName (f : Image) (ds st : Shdr) (name : String) (j : Nat) : Bool :=
  decide ((f.sym (ds.entry j)).bind = stbGlobal) && decide ((f.sym (ds.entry j)).shndx ≠ shnUndef)
    && decide ((f.sym (ds.entry j)).name < st.size)
    && f.strIs (st.offset + (f.sym (ds.entry j)).name) (bytesOf name)

def EntryNameStays (f : Image) (ds st : Shdr) (name : String) (j : Nat) : Prop :=
  (f.sym (ds.entry j)).bind = stbGlobal → (f.sym (ds.entry j)).shndx ≠ shnUndef →
    (f.sym (ds.entry j)).name < st.size →
    ¬ f.runsOff (st.offset + (f.sym (ds.entry j)).name) (bytesOf name)

/-- The search for an entry point goes on while the symbols before do not define
it, and to the next entry point once this one is found. -/
def EntriesStay (f : Image) : Prop :=
  ∀ ds st, Image.lastDynsym f.sects = some ds → f.lastNamed ".dynstr" f.sects = some st →
    ∀ done name rest, requiredEntryPoints = done ++ name :: rest →
      (∀ n ∈ done, (List.range (ds.size / ds.entsize)).any (definesName f ds st n) = true) →
      ∀ j < ds.size / ds.entsize, (∀ k < j, definesName f ds st name k = false) →
        EntryNameStays f ds st name j

theorem gives_definesEntry {ds st : Shdr} {name : String} (j : Nat) :
    (definesEntry ds st name j).Gives f (definesName f ds st name j) := by
  refine gives_bind.mpr ⟨_, gives_fetch.mpr rfl, ?_⟩
  rw [show f.sym (ds.offset + j * ds.entsize) = f.sym (ds.entry j) from rfl]
  unfold definesName
  split
  · rename_i hskip
    refine gives_pure.mpr ?_
    rcases hskip with h | h | h
    · simp [h]
    · simp [h]
    · simp [Nat.not_lt.mpr h]
  · rename_i hlook
    simp only [not_or, not_not, Nat.not_le] at hlook
    simp only [hlook, ne_eq, not_false_eq_true, decide_true, Bool.true_and]
    exact gives_strEq

theorem inside_definesEntry {ds st : Shdr} {name : String} {j : Nat} :
    (definesEntry ds st name j).Inside f
      ↔ ds.entry j + symSize ≤ f.size ∧ EntryNameStays f ds st name j := by
  rw [definesEntry, inside_fetch_bind, show ds.offset + j * ds.entsize = ds.entry j from rfl]
  refine and_congr_right fun _ => ?_
  unfold EntryNameStays
  split
  · rename_i hskip
    refine ⟨fun _ h1 h2 h3 => ?_, fun _ => inside_pure⟩
    rcases hskip with h | h | h
    · exact absurd h1 h
    · exact absurd h h2
    · omega
  · rename_i hlook
    simp only [not_or, not_not, Nat.not_le] at hlook
    rw [inside_strEq, forall_prop_of_true hlook.1, forall_prop_of_true hlook.2.1,
      forall_prop_of_true hlook.2.2]

theorem inside_checkEntryPoints {found : Found} {lua : Bool} (hw : Walked f f.sects found)
    (himports : ImportsPass f lua) : (checkEntryPoints found).Inside f ↔ EntriesStay f := by
  unfold checkEntryPoints EntriesStay
  rw [hw.dynsym, hw.dynstr]
  cases hds : Image.lastDynsym f.sects with
  | none => exact ⟨fun _ _ _ h => (nomatch h), fun _ => inside_pure⟩
  | some ds =>
    cases f.lastNamed ".dynstr" f.sects with
    | none => exact ⟨fun _ _ _ _ h => (nomatch h), fun _ => inside_pure⟩
    | some st =>
      obtain ⟨hent, -⟩ := himports ds hds
      rw [inside_forEach]
      -- one entry point: when its search succeeds, and when it stays inside
      have hgives : ∀ name, (anyOf (definesEntry ds st name)
            (List.range (ds.size / ds.entsize)) >>= fun hit =>
            need (hit = true) CartErr.missingEntry).Gives f ()
          ↔ (List.range (ds.size / ds.entsize)).any (definesName f ds st name) = true := by
        intro name
        rw [gives_bind]
        constructor
        · rintro ⟨hit, hhit, hneed⟩
          rw [(gives_anyOf gives_definesEntry _).unique hhit]
          exact gives_need.mp hneed
        · exact fun h => ⟨_, gives_anyOf gives_definesEntry _, gives_need.mpr h⟩
      have hinside : ∀ name, (anyOf (definesEntry ds st name)
            (List.range (ds.size / ds.entsize)) >>= fun hit =>
            need (hit = true) CartErr.missingEntry).Inside f
          ↔ ∀ j < ds.size / ds.entsize, (∀ k < j, definesName f ds st name k = false) →
            EntryNameStays f ds st name j := by
        intro name
        rw [inside_bind_of_gives (gives_anyOf gives_definesEntry _),
          inside_anyOf_range gives_definesEntry, and_iff_left inside_need]
        simp only [inside_definesEntry]
        exact ⟨fun h j hj hk => (h j hj hk).2,
          fun h j hj hk => ⟨dynsym_entry_le hw hds hent hj, h j hj hk⟩⟩
      simp only [hgives, hinside]
      constructor
      · rintro h _ _ ⟨⟩ ⟨⟩
        exact h
      · exact fun h => h ds st rfl rfl

/-! ## How far the verifier gets -/

/-- The header and the segments pass. -/
structure Opened (f : Image) : Prop where
  size : ehdrSize ≤ f.size
  ident : (checkIdent f.ehdr).Passes f
  segments : (checkSegments f.ehdr).Passes f

structure AtNeeded (f : Image) : Prop extends Opened f, SectionsPass f

structure AtImports (f : Image) : Prop extends AtNeeded f where
  needed : NeededPass f

structure AtInfo (f : Image) : Prop extends AtImports f where
  imports : ImportsPass f f.needsLua

structure AtConfig (v : Flat) (f : Image) : Prop extends AtInfo f where
  info : InfoPass v f

structure AtLayouts (v : Flat) (f : Image) : Prop extends AtConfig v f where
  config : MetaPass v "CCFG" ".cart.config" v.configVerify f

structure AtEntries (v : Flat) (f : Image) : Prop extends AtLayouts v f where
  layouts : MetaPass v "CLAY" ".cart.layouts" v.layoutsVerify f
  native : ¬ ((f.lastNamed ".cart.lua" f.sects).isSome = true ∧ f.needsLua = true)

/-- Stage by stage, as far as the verifier gets: no name it compares runs off the
end of the file, and no section without file bytes is read behind it. -/
structure ReadsStay (v : Flat) (f : Image) : Prop where
  names : Opened f → NamesStay f
  needed : AtNeeded f → NeededStay f
  imports : AtImports f → ImportsStay f f.needsLua
  info : AtInfo f → MetaStay v "CINF" ".cart.info" f
  config : AtConfig v f → MetaStay v "CCFG" ".cart.config" f
  layouts : AtLayouts v f → MetaStay v "CLAY" ".cart.layouts" f
  entries : AtEntries v f → EntriesStay f

theorem inside_cartOpen {v : Flat} : (cartOpen v).Inside f ↔
    (Opened f → (walkSections f.ehdr).Inside f ∧ ∀ found, (walkSections f.ehdr).Gives f found →
      (checkNeeded f.ehdr found).Inside f ∧ ∀ lua, (checkNeeded f.ehdr found).Gives f lua →
        (checkImports f.ehdr found lua).Inside f ∧ ((checkImports f.ehdr found lua).Passes f →
          (checkInfo v found).Inside f ∧ ((checkInfo v found).Passes f →
            (checkConfig v found).Inside f ∧ ((checkConfig v found).Passes f →
              (checkLayouts v found).Inside f ∧ ((checkLayouts v found).Passes f →
                ¬ (found.cartLua.isSome = true ∧ lua = true) →
                  (checkEntryPoints found).Inside f))))) := by
  constructor
  · intro h ho
    have h := (inside_fetch_bind.mp (inside_need_bind.mp (inside_fileSize_bind.mp h) ho.size)).2
    obtain ⟨u, hu⟩ := ho.ident
    have h := (inside_bind.mp h).2 u hu
    obtain ⟨u, hu⟩ := ho.segments
    obtain ⟨hwalk, h⟩ := inside_bind.mp ((inside_bind.mp h).2 u hu)
    refine ⟨hwalk, fun found hfound => ?_⟩
    obtain ⟨hneeded, h⟩ := inside_bind.mp (h found hfound)
    refine ⟨hneeded, fun lua hlua => ?_⟩
    obtain ⟨himports, h⟩ := inside_bind.mp (h lua hlua)
    refine ⟨himports, fun ⟨_, hp⟩ => ?_⟩
    obtain ⟨hinfo, h⟩ := inside_bind.mp (h _ hp)
    refine ⟨hinfo, fun ⟨_, hp⟩ => ?_⟩
    obtain ⟨hconfig, h⟩ := inside_bind.mp (h _ hp)
    refine ⟨hconfig, fun ⟨_, hp⟩ => ?_⟩
    obtain ⟨hlayouts, h⟩ := inside_bind.mp (h _ hp)
    refine ⟨hlayouts, fun ⟨_, hp⟩ hnative => ?_⟩
    exact inside_onlyIf.mp (inside_bind.mp (h _ hp)).1 hnative
  · intro h
    refine inside_fileSize_bind.mpr (inside_need_bind.mpr fun hsize =>
      inside_fetch_bind.mpr ⟨by rw [Nat.zero_add]; exact hsize, ?_⟩)
    refine inside_bind.mpr ⟨inside_checkIdent, fun u hu =>
      inside_bind.mpr ⟨inside_checkSegments, fun u' hu' => ?_⟩⟩
    obtain ⟨hwalk, h⟩ := h ⟨hsize, ⟨u, hu⟩, ⟨u', hu'⟩⟩
    refine inside_bind.mpr ⟨hwalk, fun found hfound => ?_⟩
    obtain ⟨hneeded, h⟩ := h found hfound
    refine inside_bind.mpr ⟨hneeded, fun lua hlua => ?_⟩
    obtain ⟨himports, h⟩ := h lua hlua
    refine inside_bind.mpr ⟨himports, fun _ hp => ?_⟩
    obtain ⟨hinfo, h⟩ := h ⟨_, hp⟩
    refine inside_bind.mpr ⟨hinfo, fun _ hp => ?_⟩
    obtain ⟨hconfig, h⟩ := h ⟨_, hp⟩
    refine inside_bind.mpr ⟨hconfig, fun _ hp => ?_⟩
    obtain ⟨hlayouts, h⟩ := h ⟨_, hp⟩
    refine inside_bind.mpr ⟨hlayouts, fun _ hp => ?_⟩
    exact inside_bind.mpr ⟨inside_onlyIf.mpr fun hnative => h ⟨_, hp⟩ hnative,
      fun _ _ => inside_pure⟩

/-- **Where the verifier reads.** On every path, accepting or not, all reads lie
in the file exactly if the unguarded ones do. -/
theorem cartOpen_inside_iff (v : Flat) (f : Image) : (cartOpen v).Inside f ↔ ReadsStay v f := by
  rw [inside_cartOpen]
  constructor
  · intro h
    have hwalk : AtNeeded f → ∃ found, (walkSections f.ehdr).Gives f found
        ∧ Walked f f.sects found := by
      intro ha
      obtain ⟨found, hfound⟩ := passes_walkSections.mpr ha.toSectionsPass
      exact ⟨found, hfound, (walkSections_spec hfound).2.2.2.2⟩
    have hlua : ∀ {found}, AtImports f → Walked f f.sects found →
        (checkNeeded f.ehdr found).Gives f f.needsLua := by
      intro found ha hw
      obtain ⟨lua, hlua⟩ := (passes_checkNeeded hw).mpr ha.needed
      rw [(checkNeeded_spec hw hlua).2] at hlua
      exact hlua
    -- what is left of the stages where the verifier gets as far
    have himports := fun (ha : AtImports f) found hf hw =>
      ((h ha.toOpened).2 found hf).2 _ (hlua ha hw)
    have hinfo := fun (ha : AtInfo f) found hf hw =>
      (himports ha.toAtImports found hf hw).2 ((passes_checkImports hw).mpr ha.imports)
    have hconfig := fun (ha : AtConfig v f) found hf hw =>
      (hinfo ha.toAtInfo found hf hw).2 ((passes_checkInfo hw).mpr ha.info)
    have hlayouts := fun (ha : AtLayouts v f) found hf hw =>
      (hconfig ha.toAtConfig found hf hw).2 ((passes_checkConfig hw).mpr ha.config)
    refine ⟨?_, ?_, ?_, ?_, ?_, ?_, ?_⟩
    · exact fun ho => inside_walkSections.mp (h ho).1
    · intro ha
      obtain ⟨found, hf, hw⟩ := hwalk ha
      exact (inside_checkNeeded ha.toTableOk hw).mp ((h ha.toOpened).2 found hf).1
    · intro ha
      obtain ⟨found, hf, hw⟩ := hwalk ha.toAtNeeded
      exact (inside_checkImports ha.toTableOk hw).mp (himports ha found hf hw).1
    · intro ha
      obtain ⟨found, hf, hw⟩ := hwalk ha.toAtNeeded
      exact (inside_checkInfo hw).mp (hinfo ha found hf hw).1
    · intro ha
      obtain ⟨found, hf, hw⟩ := hwalk ha.toAtNeeded
      exact (inside_checkConfig hw).mp (hconfig ha found hf hw).1
    · intro ha
      obtain ⟨found, hf, hw⟩ := hwalk ha.toAtNeeded
      exact (inside_checkLayouts hw).mp (hlayouts ha found hf hw).1
    · intro ha
      obtain ⟨found, hf, hw⟩ := hwalk ha.toAtNeeded
      refine (inside_checkEntryPoints hw ha.imports).mp
        ((hlayouts ha.toAtLayouts found hf hw).2 ((passes_checkLayouts hw).mpr ha.layouts) ?_)
      rw [hw.cartLua]
      exact ha.native
  · intro h ho
    refine ⟨inside_walkSections.mpr (h.names ho), fun found hfound => ?_⟩
    have hw := (walkSections_spec hfound).2.2.2.2
    have h1 : AtNeeded f := ⟨ho, passes_walkSections.mp ⟨found, hfound⟩⟩
    refine ⟨(inside_checkNeeded h1.toTableOk hw).mpr (h.needed h1), fun lua hlua => ?_⟩
    obtain rfl := (checkNeeded_spec hw hlua).2
    have h2 : AtImports f := ⟨h1, (passes_checkNeeded hw).mp ⟨_, hlua⟩⟩
    refine ⟨(inside_checkImports h1.toTableOk hw).mpr (h.imports h2), fun hp => ?_⟩
    have h3 : AtInfo f := ⟨h2, (passes_checkImports hw).mp hp⟩
    refine ⟨(inside_checkInfo hw).mpr (h.info h3), fun hp => ?_⟩
    have h4 : AtConfig v f := ⟨h3, (passes_checkInfo hw).mp hp⟩
    refine ⟨(inside_checkConfig hw).mpr (h.config h4), fun hp => ?_⟩
    have h5 : AtLayouts v f := ⟨h4, (passes_checkConfig hw).mp hp⟩
    refine ⟨(inside_checkLayouts hw).mpr (h.layouts h5), fun hp hnative => ?_⟩
    rw [hw.cartLua] at hnative
    have h6 : AtEntries v f := ⟨h5, (passes_checkLayouts hw).mp hp, hnative⟩
    exact (inside_checkEntryPoints hw h3.imports).mpr (h.entries h6)

example : (cartOpen demoFlat).Inside plainCart := by decide +kernel

/-- A second `.cart.info`, without file bytes, at an offset behind the file. -/
def nobitsCart : Image :=
  demoCart [⟨ptLoad, 0x7000, 0x1000, 8, 8, 4⟩] "" [⟨11, shtNobits, 0, 0x9000, 8, 0, 0⟩] []

/-- Its preamble is read there. -/
theorem cartOpen_outside : ¬ (cartOpen demoFlat).Inside nobitsCart := by decide +kernel

end Blyt
