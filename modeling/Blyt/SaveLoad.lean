import Blyt.NativeBuffer
import Blyt.SaveRoundTrip

/-!
# Loading a save into the state buffers

`blyt_save_read` of `runtime/host/src/libblyt/save.c`: the reader on the views of
the state's buffers, whose arrays it fills in place. Nothing is undone when the
file turns out to be bad further on: a load that fails has changed something as
soon as one byte of one section's data was read (`failed_load_iff`).
-/

namespace Blyt

open List Option Buffer BlysBuffer Block

def Buffer.withView (b : Buffer) (v : BlysBuffer) : Buffer :=
  { b with data := v.data, used := v.used, gens := v.gens }

def saveRead (s : List Buffer) (file : List UInt8) : BlysResult × List Buffer :=
  let r := blysRead (saveHash s) (s.map view) file
  (r.1, zipWith withView s r.2.1)

def blocksOf (s : List Buffer) : List Block := (s.map view).map block

/-- The file is a save for these buffers, with these sections. -/
def SaveOf (s : List Buffer) (file : List UInt8) (secs : List SaveSection) : Prop :=
  HeaderFor (saveHash s) file (sectionBytes secs) ∧ ∀ σ ∈ secs, σ.Valid (blocksOf s)

section Load

variable {s : List Buffer} {file stream : List UInt8}

theorem blysRead_loaded (h : UInt64) (vs : List BlysBuffer) (file : List UInt8) :
    List.Forall₂ Loaded vs (blysRead h vs file).2.1 := by
  rw [blysRead]
  cases hr : readHeader file with
  | none => exact forall₂_self Loaded.refl vs
  | some r =>
    obtain ⟨ver, hash, stream⟩ := r
    simp only
    split_ifs
    · exact forall₂_self Loaded.refl vs
    · exact sectionLoop_loaded _ vs stream

theorem view_withView {b : Buffer} {v : BlysBuffer} (h : b.view.SameShape v) :
    (b.withView v).view = v := by
  obtain ⟨hname, htags, hcount⟩ := h
  cases v
  cases hname
  cases htags
  cases hcount
  rfl

/-- The views afterwards are those the reader has filled. -/
theorem saveRead_views (s : List Buffer) (file : List UInt8) :
    (saveRead s file).2.map view = (blysRead (saveHash s) (s.map view) file).2.1 := by
  have hloaded := blysRead_loaded (saveHash s) (s.map view) file
  rw [saveRead]
  generalize (blysRead (saveHash s) (s.map view) file).2.1 = vs at hloaded
  induction s generalizing vs with
  | nil =>
    cases hloaded
    rfl
  | cons b s ih =>
    cases hloaded with
    | cons hv hrest =>
      rw [zipWith_cons_cons, map_cons, view_withView hv.shape, ih _ hrest]

theorem saveRead_length (s : List Buffer) (file : List UInt8) :
    (saveRead s file).2.length = s.length := by
  have hloaded := blysRead_loaded (saveHash s) (s.map view) file
  rw [saveRead, length_zipWith, ← hloaded.length_eq, length_map, Nat.min_self]

theorem saveRead_loaded (s : List Buffer) (file : List UInt8) :
    List.Forall₂ (fun b b' : Buffer => b.view.Loaded b'.view) s (saveRead s file).2 := by
  have hloaded := blysRead_loaded (saveHash s) (s.map view) file
  rw [← saveRead_views, forall₂_map_left_iff, forall₂_map_right_iff] at hloaded
  exact hloaded

/-- A header with this hash gets the stream to the loop. -/
theorem saveRead_stream (h : HeaderFor (saveHash s) file stream) :
    (saveRead s file).1 = (sectionLoop blockTarget (stream.length + 1) (blocksOf s) stream).1
      ∧ blocksOf (saveRead s file).2
        = (sectionLoop blockTarget (stream.length + 1) (blocksOf s) stream).2 := by
  obtain ⟨major, minor, ver, -, hminor, hver, rfl⟩ := h
  have hlt := (saveHash s).toNat_lt
  have hheader : readHeader (headerBytes major minor (saveHash s).toNat ver ++ stream)
      = some (if minor = 0 then 0 else ver, (saveHash s).toNat, stream) :=
    readHeader_headerBytes hminor (by omega) hver stream
  obtain ⟨hres, hblocks⟩ := sectionLoop_block (stream.length + 1) (s.map view) stream
  constructor
  · rw [saveRead, blysRead_eq hheader]
    exact hres
  · rw [blocksOf, saveRead_views, blysRead_eq hheader]
    exact hblocks

/-- No such header, and nothing happens. -/
theorem saveRead_of_not_header (h : ∀ stream, ¬ HeaderFor (saveHash s) file stream) :
    (saveRead s file).1 ≠ .ok ∧ (saveRead s file).2.map view = s.map view := by
  rw [saveRead_views, saveRead, blysRead]
  cases hr : readHeader file with
  | none => exact ⟨by simp, rfl⟩
  | some r =>
    obtain ⟨ver, hash, stream⟩ := r
    have hne : hash ≠ (saveHash s).toNat := by
      rintro rfl
      obtain ⟨major, minor, ver', hmajor, hminor, hver, hfile⟩ := headerBytes_of_readHeader hr
      exact h stream ⟨major, minor, ver', hmajor, hminor, hver, hfile⟩
    simp [hne]

/-- What the reader accepts are the saves for these buffers. -/
theorem saveRead_ok_iff : (saveRead s file).1 = .ok ↔ ∃ secs, SaveOf s file secs := by
  constructor
  · intro hok
    have hheader : ∃ stream, HeaderFor (saveHash s) file stream := by
      by_contra hnone
      exact (saveRead_of_not_header (not_exists.mp hnone)).1 hok
    obtain ⟨stream, hstream⟩ := hheader
    obtain ⟨hres, -⟩ := saveRead_stream hstream
    obtain ⟨secs, hvalid, rfl, -⟩ := exists_sections_of_ok
      (Prod.ext (hres.symm.trans hok) rfl : sectionLoop blockTarget (stream.length + 1)
        (blocksOf s) stream = (.ok, _))
    exact ⟨secs, hstream, hvalid⟩
  · rintro ⟨secs, hheader, hvalid⟩
    rw [(saveRead_stream hheader).1, sectionLoop_ok hvalid (Nat.lt_succ_self _)]

/-- And what they do is what their sections say. -/
theorem blocksOf_saveRead {secs : List SaveSection} (h : SaveOf s file secs) :
    blocksOf (saveRead s file).2 = applyAll (blocksOf s) secs := by
  rw [(saveRead_stream h.1).2, sectionLoop_ok h.2 (Nat.lt_succ_self _)]

end Load

/-! ## A load that fails

Whatever the buffers hold, the loop goes the same way through a file, and what the
first byte of a block's data becomes once it is written depends on the file only. -/

theorem overInto_nil (bs : List Block) (i : Nat) : overInto bs i [] = bs := by
  rw [overInto, show (fun b : Block => (⟨b.name, overlay [] b.bytes⟩ : Block)) = id by
    funext b; rw [overlay_nil]; rfl, modify_id]

variable {bs cs : List Block} {i : Nat} {stream : List UInt8}

/-- Blocks of the same names and sizes take the same turn. -/
theorem sectionStep_uniform (hsig : bs.map sig = cs.map sig) (file : List UInt8) : ∃ i new,
      (∃ r, sectionStep blockTarget bs file = .stop r (overInto bs i new)
        ∧ sectionStep blockTarget cs file = .stop r (overInto cs i new))
      ∨ ∃ rest, sectionStep blockTarget bs file = .next (overInto bs i new) rest
        ∧ sectionStep blockTarget cs file = .next (overInto cs i new) rest := by
  have hskip : ∀ n file, ∃ i new,
      (∃ r, skipBytes bs n file = .stop r (overInto bs i new)
        ∧ skipBytes cs n file = .stop r (overInto cs i new))
      ∨ ∃ rest, skipBytes bs n file = .next (overInto bs i new) rest
        ∧ skipBytes cs n file = .next (overInto cs i new) rest := by
    intro n file
    refine ⟨0, [], ?_⟩
    rw [overInto_nil, overInto_nil, skipBytes_eq, skipBytes_eq]
    split_ifs
    · exact Or.inl ⟨.errIo, rfl, rfl⟩
    · exact Or.inr ⟨_, rfl, rfl⟩
  cases front file with
  | done hnil =>
    refine ⟨0, [], Or.inl ⟨.ok, ?_⟩⟩
    rw [hnil, overInto_nil, overInto_nil]
    exact ⟨rfl, rfl⟩
  | broken hne hstop =>
    refine ⟨0, [], Or.inl ⟨.errIo, ?_⟩⟩
    rw [overInto_nil, overInto_nil]
    exact ⟨hstop _ _, hstop _ _⟩
  | other tag n rest htag hcart hn hfile =>
    rw [hfile, sectionStep_head htag hn, sectionStep_head htag hn, if_neg hcart, if_neg hcart]
    exact hskip n rest
  | cart payload name data hp hn hfile =>
    rw [hfile, sectionStep_cart hp hn, sectionStep_cart hp hn, findNamed_sig hsig]
    cases hf : findNamed blockTarget cs name with
    | none => exact hskip _ data
    | some i =>
      obtain ⟨c, hc, -⟩ := findNamed_lt hf
      obtain ⟨b, hb, -⟩ := findNamed_lt ((findNamed_sig hsig name).trans hf)
      have hlen : b.bytes.length = c.bytes.length := by
        have := congrArg (fun l => l[i]?) hsig
        simp only [getElem?_map, hb, hc, map_some, some.injEq] at this
        exact congrArg Prod.snd this
      refine ⟨i, data, ?_⟩
      simp only [loadInto_block hb, loadInto_block hc, hlen]
      split_ifs
      · exact Or.inr ⟨_, rfl, rfl⟩
      · exact Or.inl ⟨_, rfl, rfl⟩

/-- The first byte of block `i`. -/
def headAt (bs : List Block) (i : Nat) : Option (Option UInt8) :=
  (bs[i]?).map fun b => b.bytes.head?

/-- A byte that is written is there, if the block has room. -/
theorem headAt_overInto_self (bs : List Block) (i : Nat) (x : UInt8) (new : List UInt8) :
    headAt (overInto bs i (x :: new)) i
      = ((bs.map sig)[i]?).map fun p => if p.2 = 0 then none else some x := by
  rw [headAt, getElem?_overInto_self, getElem?_map, Option.map_map, Option.map_map]
  refine congrArg (bs[i]?).map (funext fun b => ?_)
  cases hb : b.bytes <;> simp [sig, hb, overlay]

theorem headAt_overInto
    (hsig : bs.map sig = cs.map sig) (hhead : headAt bs i = headAt cs i) (j : Nat)
    (new : List UInt8) : headAt (overInto bs j new) i = headAt (overInto cs j new) i := by
  by_cases hij : j = i
  · subst hij
    cases new with
    | nil => rwa [overInto_nil, overInto_nil]
    | cons => rw [headAt_overInto_self, headAt_overInto_self, hsig]
  · rw [headAt, headAt, getElem?_overInto_ne _ hij, getElem?_overInto_ne _ hij]
    exact hhead

theorem sectionLoop_head (hsig : bs.map sig = cs.map sig)
    (hhead : headAt bs i = headAt cs i) (fuel : Nat) (file : List UInt8) :
    headAt (sectionLoop blockTarget fuel bs file).2 i
      = headAt (sectionLoop blockTarget fuel cs file).2 i := by
  induction fuel generalizing bs cs file with
  | zero => exact hhead
  | succ fuel ih =>
    have hnext := headAt_overInto hsig hhead
    obtain ⟨j, new, ⟨r, hbs, hcs⟩ | ⟨rest, hbs, hcs⟩⟩ := sectionStep_uniform hsig file
    · rw [sectionLoop, sectionLoop, hbs, hcs]
      exact hnext j new
    · rw [sectionLoop, sectionLoop, hbs, hcs]
      refine ih ?_ (hnext j new) rest
      rw [sig_overInto, sig_overInto, hsig]

/-- There is at least one byte of data for one of the blocks. -/
def ReachesData (bs : List Block) (stream : List UInt8) : Prop :=
  ∃ secs payload name i x data, (∀ σ ∈ secs, SaveSection.Valid bs σ) ∧ payload < 2 ^ 32
    ∧ name.length < 256 ∧ findNamed blockTarget bs name = some i
    ∧ stream = sectionBytes secs ++ (cartHead payload name ++ x :: data)

/-- Then one block's first byte comes from the file, whatever it was before. -/
theorem exists_head_of_reaches (h : ReachesData bs stream) :
    ∃ i b, bs[i]? = some b ∧ ∀ cs, cs.map sig = bs.map sig →
      headAt (sectionLoop blockTarget (stream.length + 1) cs stream).2 i
        = headAt (sectionLoop blockTarget (stream.length + 1) bs stream).2 i := by
  obtain ⟨secs, payload, name, i, x, data, hsecs, hp, hn, hi, rfl⟩ := h
  obtain ⟨b, hb, -⟩ := findNamed_lt hi
  refine ⟨i, b, hb, fun cs hsig => ?_⟩
  have hcs : ∀ σ ∈ secs, σ.Valid cs := fun σ hσ => (hsecs σ hσ).sig hsig.symm
  obtain ⟨hfuel, hloop⟩ := sectionLoop_sections hsecs (cartHead payload name ++ x :: data)
    (Nat.lt_succ_self _)
  obtain ⟨-, hloop'⟩ := sectionLoop_sections hcs (cartHead payload name ++ x :: data)
    (Nat.lt_succ_self _)
  rw [hloop, hloop']
  generalize (sectionBytes secs ++ (cartHead payload name ++ x :: data)).length + 1 - secs.length
    = fuel at hfuel
  cases fuel with
  | zero => exact absurd hfuel (Nat.not_lt_zero _)
  | succ fuel =>
    -- the turn that reads the data, in a state of the same names and sizes
    have hturn : ∀ ds : List Block, ds.map sig = bs.map sig → ∃ d, ds[i]? = some d
        ∧ d.bytes.length = b.bytes.length
        ∧ sectionStep blockTarget ds (cartHead payload name ++ x :: data)
          = loadInto blockTarget ds i (x :: data) := by
      intro ds hds
      have hf := (findNamed_sig hds name).trans hi
      obtain ⟨d, hd, -⟩ := findNamed_lt hf
      have hlen : d.bytes.length = b.bytes.length := by
        have := congrArg (fun l => l[i]?) hds
        simp only [getElem?_map, hb, hd, map_some, some.injEq] at this
        exact congrArg Prod.snd this
      refine ⟨d, hd, hlen, ?_⟩
      rw [sectionStep_cart hp hn, hf]
    have hsig' : (applyAll cs secs).map sig = (applyAll bs secs).map sig := by
      rw [sig_applyAll, sig_applyAll, hsig]
    have hhead : headAt (overInto (applyAll cs secs) i (x :: data)) i
        = headAt (overInto (applyAll bs secs) i (x :: data)) i := by
      rw [headAt_overInto_self, headAt_overInto_self, hsig']
    obtain ⟨d, hd, hdlen, hdstep⟩ :=
      hturn (applyAll cs secs) ((sig_applyAll cs secs).trans hsig)
    obtain ⟨e, he, helen, hestep⟩ := hturn (applyAll bs secs) (sig_applyAll bs secs)
    rw [sectionLoop, sectionLoop, hdstep, hestep, loadInto_block hd, loadInto_block he,
      hdlen, helen]
    split_ifs
    · refine sectionLoop_head ?_ hhead fuel _
      rw [sig_overInto, sig_overInto, hsig']
    · exact hhead

/-- No data, no change. -/
theorem sectionLoop_untouched {vs : List BlysBuffer}
    (h : ¬ ReachesData (vs.map block) stream) (fuel : Nat) :
    (sectionLoop blysTarget fuel vs stream).2 = vs := by
  induction fuel generalizing stream with
  | zero => rfl
  | succ fuel ih =>
    have hbufs : (sectionStep blysTarget vs stream).bufs = vs := by
      rcases sectionStep_bufs blysTarget vs stream with
        hsame | ⟨payload, name, i, b, data, hp, hn, hf, hb, hfile, hset⟩
      · exact hsame
      · cases data with
        | nil =>
          rw [hset, show (blysTarget.load b []).1 = b from b.readBody_nil]
          obtain ⟨hlt, rfl⟩ := List.getElem?_eq_some_iff.mp hb
          exact set_getElem_self hlt
        | cons x data =>
          refine absurd ⟨[], payload, name, i, x, data, by simp, hp, hn, ?_, hfile⟩ h
          rw [findNamed_map blysTarget_block, hf]
    rw [sectionLoop]
    cases hstep : sectionStep blysTarget vs stream with
    | stop =>
      rw [hstep] at hbufs
      exact hbufs
    | next vs' rest =>
      rw [hstep] at hbufs
      have hvs : vs' = vs := hbufs
      subst hvs
      refine ih fun hreach => h ?_
      -- a section lies before what is left
      have hturn := sectionStep_turn (vs'.map block) stream
      rw [sectionStep_map blysTarget_block, hstep] at hturn
      obtain ⟨secs, payload, name, i, x, data, hsecs, hp, hn, hi, hrest⟩ := hreach
      generalize hlast : LoopStep.map block (LoopStep.next vs' rest) = step at hturn
      cases hturn with
      | done _ | none _ | cut _ _ _ _ _ _ _ _ => cases hlast
      | taken σ rest' hσ hfile =>
        have hrest' : rest' = rest := by
          simp only [LoopStep.map, LoopStep.next.injEq] at hlast
          exact hlast.2.symm
        refine ⟨σ :: secs, payload, name, i, x, data, ?_, hp, hn, hi, ?_⟩
        · rw [forall_mem_cons]
          exact ⟨hσ, hsecs⟩
        · rw [hfile, hrest', hrest, sectionBytes, sectionBytes, flatMap_cons, append_assoc]

/-- Buffers of the same layout, whatever they hold. -/
structure Buffer.SameLayout (b b' : Buffer) : Prop where
  shape : b.view.SameShape b'.view
  schemaHash : b'.schemaHash = b.schemaHash

/-- The file has the header of a save for these buffers and at least one byte of
data for one of them, but is not made up of whole sections. -/
def StopsLate (s : List Buffer) (file : List UInt8) : Prop :=
  ∃ stream, HeaderFor (saveHash s) file stream ∧ ReachesData (blocksOf s) stream
    ∧ ∀ secs, (∀ σ ∈ secs, SaveSection.Valid (blocksOf s) σ) → stream ≠ sectionBytes secs

section Failed

variable {s s' : List Buffer} {file : List UInt8}

theorem saveHash_layout (h : List.Forall₂ SameLayout s s') : saveHash s' = saveHash s := by
  cases h with
  | nil => rfl
  | cons hb => exact hb.schemaHash

theorem sig_layout (h : List.Forall₂ SameLayout s s') :
    (blocksOf s').map sig = (blocksOf s).map sig := by
  refine sig_of_shapes ?_
  rw [forall₂_map_left_iff, forall₂_map_right_iff]
  exact h.imp fun _ _ hb => hb.shape

theorem ReachesData.sig {bs cs : List Block} {stream : List UInt8}
    (hsig : bs.map sig = cs.map sig) (h : ReachesData bs stream) :
    ReachesData cs stream := by
  obtain ⟨secs, payload, name, i, x, data, hsecs, hp, hn, hi, hstream⟩ := h
  exact ⟨secs, payload, name, i, x, data, fun σ hσ => (hsecs σ hσ).sig hsig, hp, hn,
    (findNamed_sig hsig name).symm.trans hi, hstream⟩

theorem contents_of_views (h : s'.map view = s.map view) :
    List.Forall₂ (fun b b' : Buffer => b.view.SameContents b'.view) s s' := by
  have := forall₂_self SameContents.refl (s.map view)
  nth_rewrite 2 [← h] at this
  rwa [forall₂_map_left_iff, forall₂_map_right_iff] at this

/-- Without data before the fault, a load that fails leaves everything as it was. -/
theorem unchanged_of_not_stopsLate (h : ¬ StopsLate s file) (hfail : (saveRead s file).1 ≠ .ok) :
    (saveRead s file).2.map view = s.map view := by
  by_cases hheader : ∃ stream, HeaderFor (saveHash s) file stream
  · obtain ⟨stream, hstream⟩ := hheader
    have hsecs : ∀ secs, (∀ σ ∈ secs, SaveSection.Valid (blocksOf s) σ) →
        stream ≠ sectionBytes secs := fun secs hvalid heq =>
      hfail (saveRead_ok_iff.mpr ⟨secs, heq ▸ hstream, hvalid⟩)
    have hreach : ¬ ReachesData (blocksOf s) stream := fun hr => h ⟨stream, hstream, hr, hsecs⟩
    obtain ⟨major, minor, ver, -, hminor, hver, rfl⟩ := hstream
    have hlt := (saveHash s).toNat_lt
    rw [saveRead_views, blysRead_eq (readHeader_headerBytes hminor (by omega) hver stream)]
    exact sectionLoop_untouched hreach _
  · exact (saveRead_of_not_header (not_exists.mp hheader)).2

/-- With data, there are contents that a load changes before it fails. -/
theorem exists_changed_of_stopsLate (h : StopsLate s file) :
    ∃ s', List.Forall₂ SameLayout s s' ∧ (saveRead s' file).1 ≠ .ok
      ∧ ¬ List.Forall₂ (fun b b' : Buffer => b.view.SameContents b'.view) s'
        (saveRead s' file).2 := by
  obtain ⟨stream, hheader, hreach, hsecs⟩ := h
  obtain ⟨i, blk, hblk, hdet⟩ := exists_head_of_reaches hreach
  obtain ⟨b, hb⟩ : ∃ b, s[i]? = some b := by
    rw [blocksOf, getElem?_map, getElem?_map] at hblk
    cases hb : s[i]? with
    | none =>
      rw [hb] at hblk
      cases hblk
    | some b => exact ⟨b, rfl⟩
  -- a first byte that is not the one the load leaves there
  obtain ⟨y, hy⟩ : ∃ y, headAt (sectionLoop blockTarget (stream.length + 1) (blocksOf s)
      stream).2 i ≠ some (some y) := by
    by_contra hall
    simp only [not_exists, ne_eq, not_not] at hall
    have := (hall 0).symm.trans (hall 1)
    exact absurd this (by decide)
  have hbody : b.view.body ≠ [] := fun h0 => by
    have := congrArg List.length h0
    rw [length_body, bodySize, length_nil] at this
    omega
  let v := (b.view.readBody [y]).1
  have hshape : b.view.SameShape v := readBody_shape _ _
  have hview := view_withView hshape
  have hlayout : List.Forall₂ SameLayout s (s.set i (b.withView v)) :=
    forall₂_set_right (forall₂_self (fun b => ⟨SameShape.refl _, rfl⟩) s) hb
      ⟨hview.symm ▸ hshape, rfl⟩
  refine ⟨s.set i (b.withView v), hlayout, ?_, ?_⟩
  · intro hok
    obtain ⟨secs, hsave, hvalid⟩ := saveRead_ok_iff.mp hok
    rw [saveHash_layout hlayout] at hsave
    exact hsecs secs (fun σ hσ => (hvalid σ hσ).sig (sig_layout hlayout))
      (hheader.stream_unique hsave)
  · intro hsame
    obtain ⟨-, hblocks⟩ := saveRead_stream ((saveHash_layout hlayout).symm ▸ hheader)
    have hlt := (List.getElem?_eq_some_iff.mp hb).1
    obtain ⟨b', hb', hcontents⟩ := forall₂_getElem? hsame (getElem?_set_self hlt)
    -- the first byte before
    have hbefore : v.body.head? = some y := by
      rw [readBody_body]
      cases hbb : b.view.body with
      | nil => exact absurd hbb hbody
      | cons => rfl
    have hsame' : b'.view.body = v.body := by
      obtain ⟨b'', hb'', hloaded⟩ := forall₂_getElem?
        (saveRead_loaded (s.set i (b.withView v)) file)
        (getElem?_set_self hlt)
      cases hb'.symm.trans hb''
      rw [hcontents.body hloaded.shape, hview]
    have hafter : headAt (blocksOf (saveRead (s.set i (b.withView v)) file).2) i
        = some (some y) := by
      rw [headAt, blocksOf, getElem?_map, getElem?_map, hb']
      simp [block, hsame', hbefore]
    rw [hblocks, hdet _ (sig_layout hlayout)] at hafter
    exact hy hafter

/-- **Failed loads.** Whatever the buffers hold, a load of this file that fails leaves
them as they are - exactly if the file does not stop late. -/
theorem failed_load_iff (s : List Buffer) (file : List UInt8) :
    (∀ s', List.Forall₂ SameLayout s s' → (saveRead s' file).1 ≠ .ok →
      List.Forall₂ (fun b b' : Buffer => b.view.SameContents b'.view) s' (saveRead s' file).2)
    ↔ ¬ StopsLate s file := by
  constructor
  · intro hall hlate
    obtain ⟨s', hlayout, hfail, hchanged⟩ := exists_changed_of_stopsLate hlate
    exact hchanged (hall s' hlayout hfail)
  · intro hlate s' hlayout hfail
    refine contents_of_views (unchanged_of_not_stopsLate ?_ hfail)
    rintro ⟨stream, hheader, hreach, hsecs⟩
    have hsig := sig_layout hlayout
    refine hlate ⟨stream, saveHash_layout hlayout ▸ hheader, hreach.sig hsig, fun secs hvalid => ?_⟩
    exact hsecs secs fun σ hσ => (hvalid σ hσ).sig hsig.symm

end Failed

/-- One buffer of two slots with an `i32` each. The first slot is taken. -/
def demoState (x : UInt8) : List Buffer :=
  [{ count := 2, schemaHash := 7, name := [0x61], tags := [4]
     data := fun _ k => if k < 4 then x else 0
     used := fun s => decide (s = 0), gens := fun _ => 1 }]

/-- A save cut short in the middle of the generations is refused, but its fields are
in the buffer by then. -/
theorem failed_load_changes :
    let file := (stateSave 3 (demoState 9)).take 100
    (saveRead (demoState 5) file).1 = .errIo
      ∧ (demoState 5).map (fun b => b.get 0 1) = [some 0x05050505]
      ∧ (saveRead (demoState 5) file).2.map (fun b => b.get 0 1) = [some 0x09090909] := by
  decide +kernel

/-- **The reader.** It accepts exactly the files that are a header with the buffers' hash and
a sequence of valid sections, and then the buffers hold what these write, in their order. -/
theorem saveRead_accepts_iff (s : List Buffer) (file : List UInt8) :
    ((saveRead s file).1 = .ok ↔ ∃ secs, SaveOf s file secs)
      ∧ ∀ secs, SaveOf s file secs →
        blocksOf (saveRead s file).2 = applyAll (blocksOf s) secs :=
  ⟨saveRead_ok_iff, fun _ => blocksOf_saveRead⟩

end Blyt
