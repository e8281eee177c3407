import Blyt.SaveLoad
import Blyt.StateSound

/-!
# Sound states and loaded saves

Nothing of what `blys_read` takes from a file is looked at. So after a load that
succeeds, the buffers are sound exactly if the last section for each of them holds
the bytes of a sound buffer (`load_sound_iff`): those of a save that the runtime has
written do, those of a made-up one need not.
-/

namespace Blyt

open List Option SaveSection

/-- The section's data, if it goes to block `i`. -/
def SaveSection.bodyFor (bs : List Block) (i : Nat) : SaveSection → Option (List UInt8)
  | .other _ _ => none
  | .cart _ name body => if findNamed blockTarget bs name = some i then some body else none

/-- What the last section for block `i` holds. -/
def lastBody (bs : List Block) (secs : List SaveSection) (i : Nat) : Option (List UInt8) :=
  secs.reverse.findSome? (bodyFor bs i)

/-- `b'` differs from `b` in what it holds, but not where a save leaves something out,
and is saved as these bytes. -/
structure Buffer.SavedAs (b b' : Buffer) (body : List UInt8) : Prop where
  shape : b.view.SameShape b'.view
  beyond : ∀ fi tag, b.tags[fi]? = some tag → ∀ k, b.view.fieldLen tag ≤ k →
    k < b.count * fieldSizeof tag → b'.data fi k = b.data fi k
  body : b'.view.body = body

/-- The last section for each buffer holds the bytes of a sound one. -/
def SectionsSound (s : List Buffer) (secs : List SaveSection) : Prop :=
  ∀ i b body, s[i]? = some b → lastBody (blocksOf s) secs i = some body →
    ∃ b', b.SavedAs b' body ∧ b'.Sound

/-! ## What a buffer holds after all sections -/

section Last

variable {bs : List Block} {secs : List SaveSection}

theorem bodyFor_sig {cs : List Block} (h : bs.map Block.sig = cs.map Block.sig) (i : Nat) :
    bodyFor bs i = bodyFor cs i := by
  funext σ
  cases σ with
  | other => rfl
  | cart => rw [bodyFor, bodyFor, findNamed_sig h]

variable {i : Nat} {b : Block}

theorem getElem?_apply {σ : SaveSection} (h : σ.Valid bs) (hb : bs[i]? = some b) :
    (σ.apply bs)[i]? = some ⟨b.name, (σ.bodyFor bs i).getD b.bytes⟩ := by
  cases σ with
  | other => exact hb
  | cart payload name =>
    obtain ⟨-, -, hlen⟩ := h
    rw [apply, bodyFor]
    rw [dataLen] at hlen
    cases hf : findNamed blockTarget bs name with
    | none =>
      exact hb
    | some j =>
      rw [hf] at hlen
      by_cases hij : j = i
      · subst hij
        simp only [hb, map_some, getD_some] at hlen
        rw [if_pos rfl]
        simp [getElem?_overInto_self, hb, overlay_of_length hlen]
      · rw [if_neg (by simpa using hij)]
        simp [getElem?_overInto_ne bs hij, hb]

/-- All of them: the last one stays. -/
theorem getElem?_applyAll (h : ∀ σ ∈ secs, Valid bs σ) (hb : bs[i]? = some b) :
    (applyAll bs secs)[i]? = some ⟨b.name, (lastBody bs secs i).getD b.bytes⟩ := by
  induction secs generalizing bs b with
  | nil => exact hb
  | cons σ secs ih =>
    obtain ⟨hσ, hrest⟩ := forall_mem_cons.mp h
    have hsig := sig_apply bs σ
    refine (ih (fun τ hτ => (hrest τ hτ).sig hsig.symm) (getElem?_apply hσ hb)).trans ?_
    rw [lastBody, lastBody, reverse_cons, findSome?_append, bodyFor_sig hsig]
    cases secs.reverse.findSome? (bodyFor bs i) with
    | some => rfl
    | none =>
      cases hbody : σ.bodyFor bs i <;> simp [hbody]

end Last

/-! ## Soundness is a matter of the contents -/

section Sound

variable {s : List Buffer} {file : List UInt8} {b b' : Buffer}

theorem Buffer.Sound.typed (h : b.Sound) : b.view.Typed := fun s hs =>
  Nat.lt_succ_of_le (h.gens s hs).2

theorem Buffer.Sound.of_view (h : b.Sound) (hs : b.view.SameShape b'.view)
    (hc : b.view.SameContents b'.view) : b'.Sound :=
  h.congr hs.count hs.tags hc.gens hc.used hc.data

theorem sound_loaded_iff (hb : b.Sound) (hloaded : b.view.Loaded b'.view)
    {last : Option (List UInt8)} (hbody : b'.view.body = last.getD b.view.body) :
    b'.Sound ↔ ∀ body, last = some body → ∃ w, b.SavedAs w body ∧ w.Sound := by
  have htyped := hloaded.typed hb.typed
  cases last with
  | none =>
    -- no section: the contents are the old ones
    have hsame : b.view.SameContents b'.view :=
      .of_body hloaded.shape hb.typed htyped
        (fun fi tag htag k hk _ => hloaded.beyond fi tag htag k hk) hbody
    exact iff_of_true (hb.of_view hloaded.shape hsame) fun _ h => by cases h
  | some body =>
    constructor
    · rintro hsound _ ⟨⟩
      exact ⟨b', ⟨hloaded.shape, fun fi tag htag k hk _ => hloaded.beyond fi tag htag k hk, hbody⟩,
        hsound⟩
    · intro h
      obtain ⟨w, hw, hsound⟩ := h body rfl
      have hshape := hw.shape.symm.trans hloaded.shape
      refine hsound.of_view hshape
        (.of_body hshape hsound.typed htyped ?_ (hbody.trans hw.body.symm))
      intro fi tag htag k hk hlt
      rw [hw.shape.tags] at htag
      rw [hw.shape.fieldLen] at hk
      rw [hw.shape.count] at hlt
      exact (hloaded.beyond fi tag htag k hk).trans (hw.beyond fi tag htag k hk hlt).symm

/-- **Loaded states.** A file that is read into sound buffers without error is a save
with sections for them, and leaves the buffers sound exactly if the last section for
each of them holds the bytes of a sound one. -/
theorem load_sound_iff (hs : StateSound s) (hok : (saveRead s file).1 = .ok) :
    (∃ secs, SaveOf s file secs) ∧ ∀ secs, SaveOf s file secs →
      (StateSound (saveRead s file).2 ↔ SectionsSound s secs) := by
  refine ⟨saveRead_ok_iff.mp hok, fun secs hsave => ?_⟩
  have hloaded := saveRead_loaded s file
  -- buffer by buffer
  have hbuffer : ∀ i b b', s[i]? = some b → (saveRead s file).2[i]? = some b' →
      (b'.Sound ↔ ∀ body, lastBody (blocksOf s) secs i = some body →
        ∃ w, b.SavedAs w body ∧ w.Sound) := by
    intro i b b' hb hb'
    have hblock : ∀ (l : List Buffer) c, l[i]? = some c → (blocksOf l)[i]? = some c.view.block := by
      intro l c hc
      rw [blocksOf, getElem?_map, getElem?_map, hc]
      rfl
    obtain ⟨b'', hb'', hload⟩ := forall₂_getElem? hloaded hb
    cases hb'.symm.trans hb''
    refine sound_loaded_iff (hs b (mem_of_getElem? hb)) hload ?_
    have hafter := hblock _ b' hb'
    rw [blocksOf_saveRead hsave, getElem?_applyAll hsave.2 (hblock s b hb)] at hafter
    exact (congrArg Block.bytes (some.inj hafter)).symm
  constructor
  · intro hsound i b body hb hbody
    obtain ⟨b', hb', -⟩ := forall₂_getElem? hloaded hb
    exact (hbuffer i b b' hb hb').mp (hsound b' (mem_of_getElem? hb')) body hbody
  · intro hsecs b' hmem
    obtain ⟨i, hb'⟩ := getElem?_of_mem hmem
    have hlt : i < s.length := by
      have := (List.getElem?_eq_some_iff.mp hb').1
      rwa [saveRead_length] at this
    exact (hbuffer i s[i] b' (getElem?_eq_getElem hlt) hb').mpr fun body hbody =>
      hsecs i s[i] body (getElem?_eq_getElem hlt) hbody

/-- The saves of a sound state are safe to load: into sound buffers of its layout, whose
names are distinct and short and whose sections fit. -/
theorem load_saved_sound {t : List Buffer} {saveVersion : Nat} (hs : StateSound s)
    (ht : StateSound t) (hlayout : List.Forall₂ Buffer.SameLayout t s)
    (hver : saveVersion < 2 ^ 32) (hnames : (t.map Buffer.name).Nodup)
    (hshort : ∀ b ∈ t, b.name.length < 256) (hfits : ∀ b ∈ t, b.view.Fits) :
    (saveRead s (stateSave saveVersion t)).1 = .ok
      ∧ StateSound (saveRead s (stateSave saveVersion t)).2 := by
  have hviews : ∀ {P : BlysBuffer → Prop} {l : List Buffer}, (∀ b ∈ l, P b.view) →
      ∀ v ∈ l.map Buffer.view, P v := fun h v hv => by
    obtain ⟨b, hb, rfl⟩ := List.mem_map.mp hv
    exact h b hb
  have hshape : List.Forall₂ BlysBuffer.SameShape (t.map Buffer.view) (s.map Buffer.view) := by
    rw [forall₂_map_left_iff, forall₂_map_right_iff]
    exact hlayout.imp fun _ _ h => h.shape
  have hround : RoundTrips (saveHash s) saveVersion (t.map Buffer.view) (s.map Buffer.view) :=
    roundTrips_of_short hver (by rwa [List.map_map]) (hviews hfits)
      (hviews fun b hb => (ht b hb).typed) (hviews fun b hb => (hs b hb).typed) hshape
      (hviews hshort)
  obtain ⟨hok, hcontents, -⟩ := hround
  rw [show blysWrite (saveHash s) saveVersion (t.map Buffer.view) = stateSave saveVersion t by
    rw [stateSave, saveHash_layout hlayout]] at hok hcontents
  generalize stateSave saveVersion t = file at hok hcontents
  rw [← saveRead_views, forall₂_map_left_iff, forall₂_map_right_iff] at hcontents
  refine ⟨hok, fun b' hb' => ?_⟩
  obtain ⟨i, hi⟩ := getElem?_of_mem hb'
  obtain ⟨b, hb, hsame⟩ := forall₂_getElem? hcontents.flip hi
  obtain ⟨c, hc, hlay⟩ := forall₂_getElem? hlayout hb
  obtain ⟨d, hd, hload⟩ := forall₂_getElem? (saveRead_loaded s file) hc
  cases hd.symm.trans hi
  exact (ht b (mem_of_getElem? hb)).of_view (hlay.shape.trans hload.shape) hsame

end Sound

def demoRun (calls : List BufCall) : List Buffer :=
  (traceOf stateStep (stateCtxInit demoLayout) calls).1

/-- A save made later on, when the first slot's field was set. -/
theorem load_sound_demo :
    let s := demoRun [⟨1, .alloc⟩]
    let file := stateSave 3 (demoRun [⟨1, .alloc⟩, ⟨1, .set .i32 0 1 9⟩])
    StateSound s ∧ (saveRead s file).1 = .ok ∧ ∃ secs, SaveOf s file secs
      ∧ SectionsSound s secs := by
  intro s file
  have hs : StateSound s := reachable_sound _ _
  obtain ⟨hok, hsound⟩ : (saveRead s file).1 = .ok ∧ StateSound (saveRead s file).2 := by
    refine load_saved_sound hs (reachable_sound _ _) (.cons ⟨⟨rfl, rfl, rfl⟩, rfl⟩ .nil)
      (by norm_num) (by decide) (by decide) ?_
    intro b hb
    cases mem_singleton.mp hb
    decide
  obtain ⟨⟨secs, hsave⟩, hiff⟩ := load_sound_iff hs hok
  exact ⟨hs, hok, secs, hsave, (hiff secs hsave).mp hsound⟩

/-- One buffer of two slots with an `f32` each, nothing allocated. -/
def floatState : List Buffer :=
  [{ count := 2, schemaHash := 7, name := [0x61], tags := [6]
     data := fun _ _ => 0, used := fun _ => false, gens := fun _ => 1 }]

/-- A file that marks slots 0 and 5, sets every generation to 0 and every field byte to
255 is read without error. All four facts are lost, and the reference to slot 0 is 0. -/
theorem load_unsound :
    let file := blysWrite 7 0 [⟨[0x61], [6], 2, fun _ _ => 255, fun s => s == 0 || s == 5,
      fun _ => 0⟩]
    StateSound floatState ∧ (saveRead floatState file).1 = .ok
      ∧ (saveRead floatState file).2.map (fun b => (b.allocated 0, b.ref 0, b.gens 0))
        = [(true, 0, 0)]
      ∧ (saveRead floatState file).2.map (fun b => (b.allocated 1, b.data 0 4)) = [(false, 255)]
      ∧ (saveRead floatState file).2.map (fun b => (b.count, b.used 5)) = [(2, true)]
      ∧ ¬ ∀ b ∈ (saveRead floatState file).2, Canonical 6 (b.element 0 6 0) := by
  have hsound : StateSound floatState := by
    intro b hb
    cases mem_singleton.mp hb
    refine ⟨fun _ _ => ⟨le_refl _, by norm_num⟩, fun _ _ _ _ _ _ _ _ => rfl, fun _ _ _ => rfl,
      fun fi tag _ t _ => ?_⟩
    rw [Buffer.element, readLE_eq_zero.mpr fun _ _ => rfl]
    exact canonical_zero tag
  exact ⟨hsound, by decide +kernel, by decide +kernel, by decide +kernel, by decide +kernel,
    by decide +kernel⟩

end Blyt
