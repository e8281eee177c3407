import Blyt.SaveFile
import Blyt.BlysBody

/-!
# Saving and loading again

`blys_write` writes one section per buffer, and `blys_read` finds each by its name.
For buffers with different names the round trip works exactly if no name is 256
bytes long or longer: the writer writes any name, the reader refuses such a one.
-/

namespace Blyt

open List BlysBuffer

/-! ## What the loop keeps -/

section Keep

variable {β : Type} {R : Target β} {Rel : β → β → Prop}

def LoopStep.bufs : LoopStep β → List β
  | .stop _ bufs => bufs
  | .next bufs _ => bufs

/-- A turn changes nothing, or reads what follows a section's name into the buffer of
that name. -/
theorem sectionStep_bufs (R : Target β) (bufs : List β) (file : List UInt8) :
    (sectionStep R bufs file).bufs = bufs ∨ ∃ payload name i b data, payload < 2 ^ 32
      ∧ name.length < 256 ∧ findNamed R bufs name = some i ∧ bufs[i]? = some b
      ∧ file = cartHead payload name ++ data
      ∧ (sectionStep R bufs file).bufs = bufs.set i (R.load b data).1 := by
  have hskip : ∀ n file, (skipBytes bufs n file).bufs = bufs := fun n file => by
    rw [skipBytes_eq]
    split_ifs <;> rfl
  cases front file with
  | done hnil =>
    rw [hnil]
    exact Or.inl rfl
  | broken hne hstop =>
    rw [hstop]
    exact Or.inl rfl
  | other tag n rest htag hcart hn hfile =>
    rw [hfile, sectionStep_head htag hn, if_neg hcart]
    exact Or.inl (hskip _ _)
  | cart payload name data hp hn hfile =>
    rw [hfile, sectionStep_cart hp hn]
    cases hf : findNamed R bufs name with
    | none => exact Or.inl (hskip _ _)
    | some i =>
      obtain ⟨b, hb, -⟩ := findNamed_lt hf
      refine Or.inr ⟨payload, name, i, b, data, hp, hn, hf, hb, rfl, ?_⟩
      simp only [loadInto, hb]
      cases hl : R.load b data with
      | mk b' rest => cases rest <;> rfl

theorem sectionLoop_rel (hrefl : ∀ b, Rel b b) (htrans : ∀ a b c, Rel a b → Rel b c → Rel a c)
    (hload : ∀ b file, Rel b (R.load b file).1) (fuel : Nat) (bufs : List β) (file : List UInt8) :
    List.Forall₂ Rel bufs (sectionLoop R fuel bufs file).2 := by
  have hsame := forall₂_self hrefl
  induction fuel generalizing bufs file with
  | zero => exact hsame bufs
  | succ fuel ih =>
    have hstep : List.Forall₂ Rel bufs (sectionStep R bufs file).bufs := by
      rcases sectionStep_bufs R bufs file with h | ⟨_, _, i, b, data, -, -, -, hb, -, h⟩
      · rw [h]
        exact hsame bufs
      · rw [h]
        exact forall₂_set_right (hsame bufs) hb (hload b data)
    rw [sectionLoop]
    cases hs : sectionStep R bufs file with
    | stop =>
      rw [hs] at hstep
      exact hstep
    | next bufs' file' =>
      rw [hs] at hstep
      exact forall₂_trans htrans hstep (ih bufs' file')

end Keep

/-! ## The reader on an accepted header -/

variable {vs : List BlysBuffer} {v : BlysBuffer} {pre cs : List Block}

theorem blysRead_eq {h : UInt64} {file stream : List UInt8} {ver : Nat}
    (hheader : readHeader file = some (ver, h.toNat, stream)) :
    blysRead h vs file = ((sectionLoop blysTarget (stream.length + 1) vs stream).1,
      (sectionLoop blysTarget (stream.length + 1) vs stream).2, ver) := by
  rw [blysRead, hheader]
  simp

theorem sectionLoop_block (fuel : Nat) (vs : List BlysBuffer) (stream : List UInt8) :
    (sectionLoop blysTarget fuel vs stream).1
        = (sectionLoop blockTarget fuel (vs.map block) stream).1
      ∧ (sectionLoop blysTarget fuel vs stream).2.map block
        = (sectionLoop blockTarget fuel (vs.map block) stream).2 := by
  rw [sectionLoop_map blysTarget_block]
  exact ⟨rfl, rfl⟩

theorem sectionLoop_loaded (fuel : Nat) (vs : List BlysBuffer) (stream : List UInt8) :
    List.Forall₂ Loaded vs (sectionLoop blysTarget fuel vs stream).2 :=
  sectionLoop_rel Loaded.refl (fun _ _ _ => Loaded.trans) readBody_loaded fuel vs stream

/-! ## What is written -/

def BlysBuffer.toSection (v : BlysBuffer) : SaveSection := .cart v.payloadSize v.name v.body

theorem cartSection_eq (v : BlysBuffer) : v.cartSection = v.toSection.bytes := by
  simp only [cartSection, toSection, SaveSection.bytes, cartHead,
    BlysBuffer.payload, body, append_assoc]

theorem blysSections_eq (vs : List BlysBuffer) :
    blysSections vs = sectionBytes (vs.map toSection) := by
  induction vs with
  | nil => rfl
  | cons v vs ih =>
    rw [blysSections, ih, cartSection_eq]
    rfl

theorem blysWrite_eq (h : UInt64) (ver : Nat) (vs : List BlysBuffer) :
    blysWrite h ver vs = headerBytes 1 1 h.toNat ver ++ blysSections vs := rfl

/-- The length a section records is the number of bytes that follow its header. -/
theorem recorded_length (h : v.Fits) :
    leNat ((v.cartSection.drop 4).take 4) = (v.cartSection.drop 8).length := by
  have hdrop : v.cartSection.drop 4 = leBytes 4 v.payloadSize ++ v.payload := drop_left' rfl
  rw [show 8 = 4 + 4 from rfl, ← drop_drop, hdrop, take_left' (length_leBytes 4 _),
    drop_left' (length_leBytes 4 _), v.length_payload h,
    leNat_leBytes (by have := u32_lt v.serializedSize; norm_num; exact this)]

/-! ## Sections with different names -/

theorem findNamed_append {post : List Block} {b : Block} (h : ∀ c ∈ pre, c.name ≠ b.name) :
    findNamed blockTarget (pre ++ b :: post) b.name = some pre.length := by
  have hnone : pre.findIdx? (fun c => decide (blockTarget.name c = b.name)) = none := by
    rw [findIdx?_eq_none_iff]
    exact fun c hc => decide_eq_false (h c hc)
  rw [findNamed, findIdx?_append, hnone, findIdx?_cons]
  simp [blockTarget]

theorem overInto_append (pre post : List Block) (b : Block) (new : List UInt8) :
    overInto (pre ++ b :: post) pre.length new = pre ++ ⟨b.name, overlay new b.bytes⟩ :: post := by
  induction pre with
  | nil => rfl
  | cons c pre ih => exact congrArg (c :: ·) ih

section

variable (hsig : cs.map Block.sig = (vs.map block).map Block.sig)
include hsig

/-- Blocks with the buffers' names and sizes: a buffer's block, and what is before
and behind it. -/
theorem split_blocks (hnodup : (vs.map BlysBuffer.name).Nodup) (hv : v ∈ vs) :
    ∃ pre c post, cs = pre ++ c :: post ∧ c.name = v.name ∧ c.bytes.length = v.bodySize
      ∧ ∀ b ∈ pre, b.name ≠ c.name := by
  obtain ⟨vpre, vpost, rfl⟩ := append_of_mem hv
  simp only [map_append, map_cons] at hsig hnodup
  obtain ⟨pre, rest, rfl, hpre, hrest⟩ := map_eq_append_iff.mp hsig
  obtain ⟨c, post, rfl, hc, -⟩ := map_eq_cons_iff.mp hrest
  have hc : c.name = v.name ∧ c.bytes.length = v.bodySize := by
    simpa [Block.sig, block] using hc
  refine ⟨pre, c, post, rfl, hc.1, hc.2, fun b hb heq => ?_⟩
  -- the name of an earlier block is that of an earlier buffer
  have hmem := hpre ▸ mem_map_of_mem hb
  obtain ⟨x, hx, hxb⟩ := mem_map.mp hmem
  obtain ⟨u, hu, rfl⟩ := mem_map.mp hx
  have hname : u.name = b.name := congrArg Prod.fst hxb
  exact (nodup_append.mp hnodup).2.2 u.name (mem_map_of_mem hu) v.name (by simp)
    (hname.trans (heq.trans hc.1))

theorem toSection_valid (hnodup : (vs.map BlysBuffer.name).Nodup) (hv : v ∈ vs)
    (hshort : v.name.length < 256) : v.toSection.Valid cs := by
  obtain ⟨pre, c, post, rfl, hname, hlen, hfresh⟩ := split_blocks hsig hnodup hv
  refine ⟨u32_lt _, hshort, ?_⟩
  rw [dataLen, ← hname, findNamed_append hfresh]
  simp [hlen]

/-- Each of the sections fills its block. -/
theorem applyAll_toSection (hnodup : (pre.map Block.name ++ vs.map BlysBuffer.name).Nodup) :
    applyAll (pre ++ cs) (vs.map toSection) = pre ++ vs.map block := by
  induction vs generalizing pre cs with
  | nil =>
    cases cs with
    | nil => rfl
    | cons => cases hsig
  | cons v vs ih =>
    cases cs with
    | nil => cases hsig
    | cons c cs =>
      simp only [map_cons, cons.injEq] at hsig
      obtain ⟨hname, hlen⟩ : c.name = v.name ∧ c.bytes.length = v.bodySize := by
        simpa [Block.sig, block] using hsig.1
      have hfresh : ∀ b ∈ pre, b.name ≠ c.name := fun b hb heq =>
        (nodup_append.mp hnodup).2.2 b.name (mem_map_of_mem hb) v.name (by simp) (heq.trans hname)
      have happly : v.toSection.apply (pre ++ c :: cs) = (pre ++ [v.block]) ++ cs := by
        rw [toSection, SaveSection.apply, ← hname, findNamed_append hfresh]
        simp only
        rw [overInto_append, overlay_of_length (by rw [length_body, hlen]), hname]
        simp [block]
      have hnodup' : ((pre ++ [v.block]).map Block.name ++ vs.map BlysBuffer.name).Nodup := by
        rw [map_append, append_assoc]
        exact hnodup
      rw [map_cons, applyAll, foldl_cons, happly]
      exact (ih hsig.2 hnodup').trans (by simp)

end

/-- The reader stops at a name that is too long. -/
theorem sectionStep_longName {β : Type} (R : Target β) (bs : List β)
    (hlong : 256 ≤ v.name.length) (hfits : v.name.length < 2 ^ 32) (rest : List UInt8) :
    sectionStep R bs (v.cartSection ++ rest) = .stop .errIo bs := by
  have hsize : v.payloadSize < 2 ^ 32 := u32_lt _
  rw [cartSection, append_assoc, append_assoc,
    sectionStep_head rfl hsize, if_pos rfl, BlysBuffer.payload]
  refine cartStep_broken R bs _ fun name data hlt heq => ?_
  rw [append_assoc] at heq
  have hlen := leBytes_inj (by norm_num; omega) (by norm_num; omega)
    (append_inj heq (by rw [length_leBytes, length_leBytes])).1
  omega

/-! ## The round trip -/

/-- Written and read back, every buffer has its contents again, and the version is
the one that was written. -/
def RoundTrips (h : UInt64) (saveVersion : Nat) (vs ws : List BlysBuffer) : Prop :=
  let r := blysRead h ws (blysWrite h saveVersion vs)
  r.1 = .ok ∧ List.Forall₂ SameContents vs r.2.1 ∧ r.2.2 = saveVersion

section RoundTrip

variable {h : UInt64} {saveVersion : Nat} {vs ws : List BlysBuffer}

theorem sig_of_shapes (hshape : List.Forall₂ SameShape vs ws) :
    (ws.map block).map Block.sig = (vs.map block).map Block.sig := by
  induction hshape with
  | nil => rfl
  | cons hvw _ ih =>
    simp only [map_cons, ih, Block.sig, block, length_body, hvw.name, hvw.bodySize]

theorem readHeader_blysWrite (hver : saveVersion < 2 ^ 32) :
    readHeader (blysWrite h saveVersion vs) = some (saveVersion, h.toNat, blysSections vs) := by
  have hlt := h.toNat_lt
  rw [blysWrite_eq, readHeader_headerBytes (by norm_num) (by omega) hver]
  rfl

theorem SameContents_of_body {v w : BlysBuffer} (hfits : v.Fits) (hs : v.SameShape w)
    (hv : v.Typed) (hw : w.Typed) (hbody : w.body = v.body) : v.SameContents w := by
  refine .of_body hs hv hw (fun fi tag ht k hk hlt => absurd hk ?_) hbody
  have hle : v.count * fieldSizeof tag ≤ (v.tags.map fun tag => v.count * fieldSizeof tag).sum :=
    single_le_sum (fun _ _ => Nat.zero_le _) _ (mem_map_of_mem (mem_of_getElem? ht))
  unfold Fits serializedSize at hfits
  rw [fieldLen, u32_of_lt (by omega)]
  omega

theorem roundTrips_of_short (hver : saveVersion < 2 ^ 32) (hnames : (vs.map BlysBuffer.name).Nodup)
    (hfits : ∀ v ∈ vs, v.Fits) (hvs : ∀ v ∈ vs, v.Typed) (hws : ∀ w ∈ ws, w.Typed)
    (hshape : List.Forall₂ SameShape vs ws) (hshort : ∀ v ∈ vs, v.name.length < 256) :
    RoundTrips h saveVersion vs ws := by
  have hsig := sig_of_shapes hshape
  have hvalid : ∀ σ ∈ vs.map toSection, σ.Valid (ws.map block) := by
    intro σ hσ
    obtain ⟨v, hv, rfl⟩ := mem_map.mp hσ
    exact toSection_valid hsig hnames hv (hshort v hv)
  have hloop := sectionLoop_ok hvalid (Nat.lt_succ_self _)
  have hall : applyAll ([] ++ ws.map block) (vs.map toSection)
      = [] ++ vs.map block := applyAll_toSection hsig hnames
  rw [nil_append] at hall
  rw [← blysSections_eq, hall] at hloop
  obtain ⟨hok, hblocks⟩ := sectionLoop_block ((blysSections vs).length + 1) ws (blysSections vs)
  have hloaded := sectionLoop_loaded ((blysSections vs).length + 1) ws (blysSections vs)
  rw [hloop] at hok hblocks
  rw [RoundTrips, blysRead_eq (readHeader_blysWrite hver)]
  refine ⟨hok, ?_, rfl⟩
  generalize (sectionLoop blysTarget ((blysSections vs).length + 1) ws (blysSections vs)).2 = us
    at hblocks hloaded
  rw [forall₂_iff_get] at hshape hloaded ⊢
  refine ⟨hshape.1.trans hloaded.1, fun i hi hi' => ?_⟩
  have hiw := hshape.1 ▸ hi
  have hl := hloaded.2 i hiw hi'
  have hbody : (us.get ⟨i, hi'⟩).body = (vs.get ⟨i, hi⟩).body := by
    have := congrArg (fun l => (l[i]?).map Block.bytes) hblocks
    simpa [hi, hi', block] using this
  exact SameContents_of_body (hfits _ (get_mem ..)) ((hshape.2 i hi hiw).trans hl.shape)
    (hvs _ (get_mem ..)) (hl.typed (hws _ (get_mem ..))) hbody

theorem short_of_roundTrips (hver : saveVersion < 2 ^ 32) (hnames : (vs.map BlysBuffer.name).Nodup)
    (hfits : ∀ v ∈ vs, v.Fits) (hshape : List.Forall₂ SameShape vs ws)
    (hr : RoundTrips h saveVersion vs ws) : ∀ v ∈ vs, v.name.length < 256 := by
  by_contra hlong
  simp only [not_forall, Nat.not_lt, exists_prop] at hlong
  -- the first buffer whose name is too long, and the short ones before it
  obtain ⟨pre, v, post, rfl, hpre, hv⟩ : ∃ pre v post, vs = pre ++ v :: post
      ∧ (∀ u ∈ pre, u.name.length < 256) ∧ 256 ≤ v.name.length := by
    clear hnames hfits hshape hr
    induction vs with
    | nil =>
      obtain ⟨v, hv, -⟩ := hlong
      cases hv
    | cons u us ih =>
      by_cases hu : 256 ≤ u.name.length
      · exact ⟨[], u, us, rfl, by simp, hu⟩
      · obtain ⟨x, hx, hxlong⟩ := hlong
        have hxs : x ∈ us := (mem_cons.mp hx).resolve_left fun h => hu (h ▸ hxlong)
        obtain ⟨pre, v, post, rfl, hpre, hv⟩ := ih ⟨x, hxs, hxlong⟩
        refine ⟨u :: pre, v, post, rfl, ?_, hv⟩
        rw [forall_mem_cons]
        exact ⟨by omega, hpre⟩
  have hvalid : ∀ σ ∈ pre.map toSection, σ.Valid (ws.map block) := by
    intro σ hσ
    obtain ⟨u, hu, rfl⟩ := mem_map.mp hσ
    exact toSection_valid (sig_of_shapes hshape) hnames (by simp [hu]) (hpre u hu)
  have hstream : blysSections (pre ++ v :: post)
      = sectionBytes (pre.map toSection) ++ (v.cartSection ++ blysSections post) := by
    rw [blysSections_eq, blysSections_eq, cartSection_eq]
    simp [sectionBytes]
  have hnamelen : v.name.length < 2 ^ 32 := by
    have := hfits v (by simp)
    unfold Fits serializedSize at this
    omega
  obtain ⟨hfuel, hloop⟩ := sectionLoop_sections hvalid (v.cartSection ++ blysSections post)
    (Nat.lt_succ_self _)
  have hstop : (sectionLoop blockTarget ((blysSections (pre ++ v :: post)).length + 1)
      (ws.map block) (blysSections (pre ++ v :: post))).1 = .errIo := by
    rw [hstream, hloop]
    cases hf : Nat.succ _ - (pre.map toSection).length with
    | zero =>
      rw [hf] at hfuel
      exact absurd hfuel (Nat.not_lt_zero _)
    | succ => rw [sectionLoop, sectionStep_longName _ _ hv hnamelen]
  have hok := hr.1
  rw [blysRead_eq (readHeader_blysWrite hver)] at hok
  rw [← (sectionLoop_block _ ws _).1] at hstop
  exact absurd (hok.symm.trans hstop) (by decide)

end RoundTrip

/-- **Round trip.** Distinctly named buffers whose sections fit in 32 bits record
their lengths; and written and read back into buffers of the same shape they are
restored exactly if every name is shorter than 256 bytes. -/
theorem roundTrip_iff (h : UInt64) (saveVersion : Nat) (vs ws : List BlysBuffer)
    (hver : saveVersion < 2 ^ 32) (hnames : (vs.map BlysBuffer.name).Nodup)
    (hfits : ∀ v ∈ vs, v.Fits) (hvs : ∀ v ∈ vs, v.Typed) (hws : ∀ w ∈ ws, w.Typed)
    (hshape : List.Forall₂ SameShape vs ws) :
    (∀ v ∈ vs, leNat ((v.cartSection.drop 4).take 4) = (v.cartSection.drop 8).length)
      ∧ (RoundTrips h saveVersion vs ws ↔ ∀ v ∈ vs, v.name.length < 256) :=
  ⟨fun v hv => recorded_length (hfits v hv), short_of_roundTrips hver hnames hfits hshape,
    roundTrips_of_short hver hnames hfits hvs hws hshape⟩

/-- A buffer of two slots with an `i32` each, the first of them taken. -/
def demoBuffer (name : List UInt8) : BlysBuffer where
  name := name
  tags := [4]
  count := 2
  data := fun _ k => UInt8.ofNat (k + 1)
  used := fun s => decide (s = 0)
  gens := fun _ => 1

theorem demoBuffer_typed (name : List UInt8) : (demoBuffer name).Typed := fun _ _ => by
  show 1 < 2 ^ 16
  norm_num

/-- Such a buffer with nothing in it. -/
def demoTarget (name : List UInt8) : BlysBuffer :=
  { demoBuffer name with data := fun _ _ => 0, used := fun _ => false, gens := fun _ => 2 }

theorem demoTarget_typed (name : List UInt8) : (demoTarget name).Typed := fun _ _ => by
  show 2 < 2 ^ 16
  norm_num

/-- Two buffers, read back into empty ones. -/
theorem roundTrip_short : RoundTrips 7 3 [demoBuffer [0x61], demoBuffer [0x62]]
    [demoTarget [0x61], demoTarget [0x62]] := by
  refine (roundTrip_iff 7 3 [demoBuffer [0x61], demoBuffer [0x62]]
    [demoTarget [0x61], demoTarget [0x62]] (by norm_num) (by decide) ?_ ?_ ?_ ?_).2.mpr ?_
  · decide
  · simp [demoBuffer_typed]
  · simp [demoTarget_typed]
  · exact .cons ⟨rfl, rfl, rfl⟩ (.cons ⟨rfl, rfl, rfl⟩ .nil)
  · decide

/-- A name of 256 bytes is written, and refused when it is read. -/
theorem roundTrip_long :
    let v := demoBuffer (replicate 256 0x61)
    v.Fits ∧ v.Typed ∧ (blysRead 7 [v] (blysWrite 7 3 [v])).1 = .errIo := by
  exact ⟨by decide +kernel, demoBuffer_typed _, by decide +kernel⟩

end Blyt
