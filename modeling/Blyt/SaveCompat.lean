import Blyt.SaveSound

/-!
# Saves from other versions

A save may hold sections of tags that this reader does not know, and sections of buffers
that the cart no longer has: both are skipped by the length they state. The section of a
buffer that the cart does have is read by the cart's own layout, whatever length it states.
So the reader stays in step as long as such a section was written for a buffer of that
layout, and a skipped one is shorter than 4 GiB (`read_other_version`).
-/

namespace Blyt

open List Option BlysBuffer

/-- A section of a save of any version. -/
inductive FileSection where
  /-- a tag other than `CART` -/
  | unknown (tag payload : List UInt8)
  /-- what `blys_write` writes for a buffer -/
  | buffer (v : BlysBuffer)

namespace FileSection

def bytes : FileSection → List UInt8
  | .unknown tag payload => tag ++ (leBytes 4 payload.length ++ payload)
  | .buffer v => v.cartSection

/-- What some version may have written, whatever buffers this cart has. -/
def Written : FileSection → Prop
  | .unknown tag payload => tag.length = 4 ∧ tag ≠ bytesOf "CART" ∧ payload.length < 2 ^ 32
  | .buffer v => v.name.length < 256 ∧ v.Typed

/-- Those that keep the reader of these buffers in step. -/
def Fitting (known : List BlysBuffer) : FileSection → Prop
  | .unknown _ _ => True
  | .buffer v => v.Fits ∧ ∀ w ∈ known, w.name = v.name → w.SameShape v

def named (name : List UInt8) : FileSection → Option BlysBuffer
  | .unknown _ _ => none
  | .buffer v => if v.name = name then some v else none

/-- One of the buffers has the section's name. -/
def Concerns (known : List BlysBuffer) : FileSection → Bool
  | .unknown _ _ => false
  | .buffer v => known.any fun w => w.name = v.name

def toSave : FileSection → SaveSection
  | .unknown tag payload => .other tag payload
  | .buffer v => v.toSection

theorem toSave_bytes (σ : FileSection) : σ.toSave.bytes = σ.bytes := by
  cases σ with
  | unknown => rfl
  | buffer v => exact (cartSection_eq v).symm

end FileSection

/-- The buffer of the last section with this name. -/
def lastNamed (secs : List FileSection) (name : List UInt8) : Option BlysBuffer :=
  secs.reverse.findSome? (FileSection.named name)

def fileBytes (secs : List FileSection) : List UInt8 := secs.flatMap FileSection.bytes

/-- What reading should do: it succeeds, every buffer with a section gets the contents of the
last one, and every other buffer keeps its own. -/
structure ReadAll (known : List BlysBuffer) (secs : List FileSection)
    (r : BlysResult × List BlysBuffer × Nat) : Prop where
  ok : r.1 = .ok
  loaded : List.Forall₂ (fun w w' => w.SameShape w'
    ∧ ((lastNamed secs w.name).getD w).SameContents w') known r.2.1

section Compat

variable {known : List BlysBuffer} {secs : List FileSection}

theorem block_getElem? (known : List BlysBuffer) (i : Nat) :
    (known.map block)[i]? = (known[i]?).map block := getElem?_map

variable {i : Nat} {w : BlysBuffer}

section

variable (hnames : (known.map BlysBuffer.name).Nodup)
include hnames

/-- With distinct names, the buffer found under a name is the one that has it. -/
theorem findNamed_iff (hw : known[i]? = some w) (name : List UInt8) :
    findNamed blockTarget (known.map block) name = some i ↔ name = w.name := by
  constructor
  · intro h
    obtain ⟨b, hb, hname⟩ := findNamed_lt h
    rw [block_getElem?, hw] at hb
    cases hb
    exact hname.symm
  · rintro rfl
    obtain ⟨hlt, rfl⟩ := List.getElem?_eq_some_iff.mp hw
    have hsplit : known = known.take i ++ known[i] :: known.drop (i + 1) := by
      rw [getElem_cons_drop, take_append_drop]
    have hfresh : ∀ c ∈ (known.take i).map block, c.name ≠ known[i].block.name := by
      intro c hc heq
      obtain ⟨u, hu, rfl⟩ := List.mem_map.mp hc
      rw [hsplit, map_append] at hnames
      exact (nodup_append.mp hnames).2.2 _ (List.mem_map_of_mem hu) _ mem_cons_self heq
    have hmap : known.map block = (known.take i).map block
        ++ known[i].block :: (known.drop (i + 1)).map block := by
      conv_lhs => rw [hsplit]
      rw [map_append, map_cons]
    have hfound : findNamed blockTarget ((known.take i).map block
        ++ known[i].block :: (known.drop (i + 1)).map block) known[i].block.name
          = some _ := findNamed_append hfresh
    rw [hmap]
    show findNamed blockTarget _ known[i].block.name = some i
    rw [hfound, length_map, length_take, Nat.min_eq_left hlt.le]

/-- The body a section has for buffer `i`. -/
theorem bodyFor_toSave (hw : known[i]? = some w) (σ : FileSection) :
    σ.toSave.bodyFor (known.map block) i = (σ.named w.name).map body := by
  cases σ with
  | unknown => rfl
  | buffer v =>
    show (if _ then some v.body else none) = _
    by_cases hname : v.name = w.name
    · rw [if_pos ((findNamed_iff hnames hw _).mpr hname), FileSection.named, if_pos hname]
      rfl
    · rw [if_neg fun h => hname ((findNamed_iff hnames hw _).mp h), FileSection.named, if_neg hname]
      rfl

theorem lastBody_toSave (hw : known[i]? = some w) (secs : List FileSection) :
    lastBody (known.map block) (secs.map FileSection.toSave) i
      = (lastNamed secs w.name).map body := by
  unfold lastBody lastNamed
  rw [← map_reverse]
  induction secs.reverse with
  | nil => rfl
  | cons σ σs ih =>
    rw [map_cons, findSome?_cons, findSome?_cons, bodyFor_toSave hnames hw σ]
    cases σ.named w.name with
    | none => exact ih
    | some => rfl

end

/-- A fitting section is one the loop takes in. -/
theorem toSave_valid {σ : FileSection}
    (hw : σ.Written) (hf : σ.Fitting known) : σ.toSave.Valid (known.map block) := by
  cases σ with
  | unknown => exact hw
  | buffer v =>
    obtain ⟨hname, -⟩ := hw
    obtain ⟨hfits, hshape⟩ := hf
    refine ⟨u32_lt _, hname, ?_⟩
    unfold dataLen
    cases hfind : findNamed blockTarget (known.map block) v.name with
    | none =>
      -- what is skipped is what the stated length leaves
      have hlen := v.length_payload hfits
      have hsize : v.payloadSize < 2 ^ 32 := u32_lt _
      have hpay : v.payload.length = 4 + v.name.length + v.bodySize := by
        rw [← length_body]
        simp only [BlysBuffer.payload, body, length_append, length_leBytes]
        omega
      rw [length_body]
      have hsub : v.payloadSize + 2 ^ 32 - 4 - v.name.length = v.bodySize + 2 ^ 32 := by omega
      rw [hsub, u32, Nat.add_mod_right, Nat.mod_eq_of_lt (by omega)]
    | some =>
      obtain ⟨b, hb, hbname⟩ := findNamed_lt hfind
      rw [block_getElem?] at hb
      obtain ⟨w, hwi, rfl⟩ := map_eq_some_iff.mp hb
      have hsame := hshape w (mem_of_getElem? hwi) hbname
      simp only [block_getElem?, hwi, map_some, getD_some, block, length_body]
      exact hsame.bodySize

theorem sectionBytes_toSave (secs : List FileSection) :
    sectionBytes (secs.map FileSection.toSave) = fileBytes secs := by
  simp only [sectionBytes, fileBytes, flatMap_map, FileSection.toSave_bytes]

theorem lastNamed_mem {name : List UInt8} {v : BlysBuffer} (h : lastNamed secs name = some v) :
    .buffer v ∈ secs ∧ v.name = name := by
  obtain ⟨σ, hσ, hv⟩ := exists_of_findSome?_eq_some h
  cases σ with
  | unknown => cases hv
  | buffer =>
    obtain ⟨hname, huv⟩ := ite_none_right_eq_some.mp hv
    cases huv
    exact ⟨mem_reverse.mp hσ, hname⟩

/-- Sections that concern none of the buffers are not missed. -/
theorem lastNamed_filter (hw : w ∈ known) :
    lastNamed (secs.filter (FileSection.Concerns known)) w.name = lastNamed secs w.name := by
  unfold lastNamed
  rw [← filter_reverse]
  induction secs.reverse with
  | nil => rfl
  | cons σ σs ih =>
    by_cases hc : σ.Concerns known
    · rw [filter_cons_of_pos (by simpa using hc), findSome?_cons, findSome?_cons, ih]
    · have hnone : σ.named w.name = none := by
        cases σ with
        | unknown => rfl
        | buffer =>
          exact if_neg fun h => hc (List.any_eq_true.mpr ⟨w, hw, by simpa using h.symm⟩)
      rw [filter_cons_of_neg (by simpa using hc), findSome?_cons, hnone, ih]

/-- A buffer before and after: what the last section of its name holds, or its own. -/
theorem contents_of_last {w' : BlysBuffer} {last : Option BlysBuffer} (hw : w.Typed)
    (hloaded : w.Loaded w') (hlast : ∀ v, last = some v → v.Fits ∧ v.Typed ∧ w.SameShape v)
    (hbody : w'.body = (last.map body).getD w.body) : (last.getD w).SameContents w' := by
  cases last with
  | none =>
    exact .of_body hloaded.shape hw (hloaded.typed hw)
      (fun fi tag htag k hk _ => hloaded.beyond fi tag htag k hk) hbody
  | some v =>
    obtain ⟨hfits, hv, hshape⟩ := hlast v rfl
    exact SameContents_of_body hfits (hshape.symm.trans hloaded.shape) hv (hloaded.typed hw) hbody

theorem readAll_of_fitting {h : UInt64} {file : List UInt8}
    (hfile : HeaderFor h file (fileBytes secs)) (hnames : (known.map BlysBuffer.name).Nodup)
    (htyped : ∀ w ∈ known, w.Typed) (hwritten : ∀ σ ∈ secs, σ.Written)
    (hfit : ∀ σ ∈ secs, σ.Fitting known) : ReadAll known secs (blysRead h known file) := by
  obtain ⟨major, minor, ver, -, hminor, hver, rfl⟩ := hfile
  have hhash := h.toNat_lt
  rw [blysRead_eq (readHeader_headerBytes hminor (by omega) hver _)]
  have hvalid : ∀ σ ∈ secs.map FileSection.toSave, σ.Valid (known.map block) := by
    intro σ hσ
    obtain ⟨τ, hτ, rfl⟩ := List.mem_map.mp hσ
    exact toSave_valid (hwritten τ hτ) (hfit τ hτ)
  have hloop := sectionLoop_ok hvalid (Nat.lt_succ_self _)
  rw [sectionBytes_toSave] at hloop
  obtain ⟨hok, hblocks⟩ := sectionLoop_block ((fileBytes secs).length + 1) known (fileBytes secs)
  have hloaded := sectionLoop_loaded ((fileBytes secs).length + 1) known (fileBytes secs)
  rw [hloop] at hok hblocks
  dsimp only at hblocks
  refine ⟨hok, ?_⟩
  rw [forall₂_iff_get] at hloaded ⊢
  refine ⟨hloaded.1, fun i hi hi' => ?_⟩
  have hl := hloaded.2 i hi hi'
  have hw := getElem?_eq_getElem hi
  refine ⟨hl.shape, contents_of_last (htyped _ (List.get_mem ..)) hl (fun v hv => ?_) ?_⟩
  · obtain ⟨hmem, hname⟩ := lastNamed_mem hv
    obtain ⟨-, htv⟩ := hwritten _ hmem
    obtain ⟨hfv, hshape⟩ := hfit _ hmem
    exact ⟨hfv, htv, hshape _ (List.get_mem ..) hname.symm⟩
  · have hb := getElem?_applyAll hvalid (by
      rw [block_getElem?, hw]; rfl)
    rw [← hblocks, block_getElem?, getElem?_eq_getElem hi', lastBody_toSave hnames hw] at hb
    exact congrArg Block.bytes (some.inj hb)

end Compat

/-- **Other versions.** A file with the expected hash in a header of any minor version, whose
sections fit the cart's buffers, is read without error: each buffer ends with the contents of
the last section of its name, a buffer without one is untouched, and the sections that concern
no buffer might as well be missing. -/
theorem read_other_version (h : UInt64) (known : List BlysBuffer) (secs : List FileSection)
    (file : List UInt8) (hfile : HeaderFor h file (fileBytes secs))
    (hnames : (known.map BlysBuffer.name).Nodup) (htyped : ∀ w ∈ known, w.Typed)
    (hwritten : ∀ σ ∈ secs, σ.Written) (hfit : ∀ σ ∈ secs, σ.Fitting known) :
    ReadAll known secs (blysRead h known file)
      ∧ ReadAll known (secs.filter (FileSection.Concerns known)) (blysRead h known file) := by
  have hall := readAll_of_fitting hfile hnames htyped hwritten hfit
  refine ⟨hall, hall.ok, ?_⟩
  have hloaded := hall.loaded
  rw [forall₂_iff_get] at hloaded ⊢
  refine ⟨hloaded.1, fun i hi hi' => ?_⟩
  rw [lastNamed_filter (List.get_mem ..)]
  exact hloaded.2 i hi hi'

def demoSized (name : List UInt8) (count : Nat) : BlysBuffer :=
  { demoBuffer name with count := count }

/-- A tag and a buffer that the cart does not know, and the first of its two buffers. -/
theorem read_other_version_demo :
    let known := [demoBuffer [0x61], demoBuffer [0x62]]
    let file := headerBytes 1 0 7 0 ++ fileBytes [.unknown (bytesOf "XTRA") [1, 2, 3],
      .buffer (demoSized [0x7a] 9), .buffer (demoBuffer [0x61])]
    (blysRead 7 known file).1 = .ok := by
  refine (read_other_version 7 [demoBuffer [0x61], demoBuffer [0x62]]
    [.unknown (bytesOf "XTRA") [1, 2, 3], .buffer (demoSized [0x7a] 9),
      .buffer (demoBuffer [0x61])] _ ⟨1, 0, 0, by decide, by decide, by decide, rfl⟩ (by decide)
    ?_ ?_ ?_).1.ok
  · simp only [forall_mem_cons, not_mem_nil, false_implies, implies_true, and_true]
    exact ⟨demoBuffer_typed _, demoBuffer_typed _⟩
  · simp only [forall_mem_cons, not_mem_nil, false_implies, implies_true, and_true]
    exact ⟨⟨rfl, by decide, by decide⟩, ⟨by decide, demoBuffer_typed [0x7a]⟩,
      ⟨by decide, demoBuffer_typed _⟩⟩
  · simp only [forall_mem_cons, not_mem_nil, false_implies, implies_true,
      and_true, FileSection.Fitting, true_and]
    exact ⟨⟨by decide, fun h => absurd h (by decide), fun h => absurd h (by decide)⟩,
      ⟨by decide, fun _ => .refl _, fun h => absurd h (by decide)⟩⟩

/-- A section of a buffer that had three slots where the cart's has two is read as one of two,
and what is left of it is no section. Of two buffers with one name, the second gets nothing. -/
theorem read_other_shape :
    let file := fun σ => headerBytes 1 1 7 0 ++ fileBytes [.buffer σ]
    (demoSized [0x61] 3).name.length < 256 ∧ (demoSized [0x61] 3).Typed
      ∧ (blysRead 7 [demoBuffer [0x61]] (file (demoSized [0x61] 3))).1 = .errIo
      ∧ (blysRead 7 [demoBuffer [0x61], { demoBuffer [0x61] with gens := fun _ => 5 }]
          (file (demoBuffer [0x61]))).2.1.map (fun w => w.gens 0) = [1, 5] := by
  exact ⟨by decide, demoBuffer_typed [0x61], by decide +kernel, by decide +kernel⟩

end Blyt
