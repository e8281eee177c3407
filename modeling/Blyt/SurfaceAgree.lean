import Blyt.NativeRegistry
import Blyt.HostLocks

/-!
# When the emulated and the native surfaces agree

Both variants do what a registry is for, the native one always and the emulated one
where it `Follows`. So they agree on a run exactly if every call of it follows and both
let in the same surfaces and copy rows onto themselves alike (`StepOk`).

They do not let in the same surfaces: the emulated session charges a surface together
with the cart's heap, its held resources and all live surfaces, and gets the bytes back
when it is destroyed; the native one charges the surfaces that were created in the frame,
whether or not they still live.
-/

namespace Blyt

open List Option Function NativeLeg

namespace Registry

variable {r : Registry} {g g' : Gates}

/-! ## Two gates on one registry -/

theorem firstFree_live {i : Fin surfaceMax} (h : r.firstFree = some i) :
    (r.slots i).live = none := by
  simpa using find?_some h

theorem create_eq_iff (w h : Int) :
    r.create g w h = r.create g' w h
      ↔ (r.phase = .draw → ¬ BadSize w h → r.firstFree.isSome = true →
        g.fits w h = g'.fits w h) := by
  unfold create
  by_cases hp : r.phase = .draw
  · by_cases hbad : BadSize w h
    · rw [if_pos (.inr (.inl hbad)), if_pos (.inr (.inl hbad))]
      exact iff_of_true rfl fun _ hnot => absurd hbad hnot
    · cases hfree : r.firstFree with
      | none =>
        simp only [ite_self]
        exact iff_of_true trivial fun _ _ hsome => nomatch hsome
      | some i =>
        have hlive := firstFree_live hfree
        have hnew : ∀ q : Registry × SurfaceAnswer, q.1 = r → q
            ≠ (r.set i { r.slots i with live := some ⟨w, h, replicate (w.toNat * h.toNat) 0⟩ },
              .handle (surfaceEncode (r.slots i).gen i)) := by
          intro q hq heq
          have hslot := congrArg (fun q => (q.1.slots i).live) heq
          simp only [hq, hlive, set, update_self] at hslot
          cases hslot
        simp only [hp, hbad, ne_eq, not_true_eq_false, false_or, not_false_eq_true, isSome_some,
          true_implies]
        cases hg : g.fits w h <;> cases hg' : g'.fits w h
        · exact iff_of_true rfl rfl
        · exact iff_of_false (hnew _ rfl) (by decide)
        · exact iff_of_false (fun heq => hnew _ rfl heq.symm) (by decide)
        · exact iff_of_true rfl rfl
  · rw [if_pos (.inl hp), if_pos (.inl hp)]
    exact iff_of_true rfl fun h => absurd h hp

theorem blit_eq_iff (dst src : Nat) (x y : Int) :
    r.blit g dst src x y = r.blit g' dst src x y
      ↔ ∀ p ∈ r.drawable dst, (r.drawable src).map Prod.fst = some p.1 →
        rasterBlitSelf g.copy p.2.px p.2.w p.2.w p.2.h x y
          = rasterBlitSelf g'.copy p.2.px p.2.w p.2.w p.2.h x y := by
  unfold blit
  cases hd : r.drawable dst with
  | none => exact iff_of_true rfl fun p hp => nomatch hp
  | some p =>
    obtain ⟨i, d⟩ := p
    cases hs : r.drawable src with
    | none => exact iff_of_true rfl fun p _ hs => nomatch hs
    | some q =>
      obtain ⟨j, s⟩ := q
      have hpaint : ∀ px px', r.paint i d px = r.paint i d px' ↔ px = px' := by
        intro px px'
        refine ⟨fun heq => ?_, fun h => by rw [h]⟩
        have hslot := congrArg (fun q => ((q.slots i).live).map Surface.px) heq
        simp only [paint, set, update_self, map_some, some.injEq] at hslot
        exact hslot
      simp only [hpaint, blitted, mem_def, some.injEq, forall_eq', map_some]
      split <;> rename_i hij
      · exact ⟨fun h _ => h, fun h => h hij.symm⟩
      · exact iff_of_true rfl fun h => absurd h.symm hij

end Registry

/-! ## One call -/

/-- The cart's heap, as the accounting block has it. -/
def Session.cartHeap (s : Session) : Nat := s.heap.arena.acct.elim 0 memCartHeap

/-- A call that both variants take alike. -/
def StepOk (E : HostEnv) (c : RowCopy) (h : HostLeg) (n : NativeLeg) : SurfaceCall → Prop
  | .create w ht =>
    h.session.phase = .draw → ¬ Registry.BadSize w ht →
      (firstFreeSlot h.session.surfaces).isSome = true →
      (h.session.cartHeap + heldBytes h.session.resources + liveSurfaceBytes h.session.surfaces
          + w.toNat * ht.toNat ≤ memBudgetBytes
        ↔ n.surfaceBump + w.toNat * ht.toNat ≤ memBudgetBytes)
  | .blit dst src x y =>
    ∀ i ∈ h.session.drawable dst, h.session.drawable src = some i →
      let t := h.session.surfaces.slots i
      rasterBlitSelf E.copy (t.pixels.getD []) t.w t.w t.h x y
        = rasterBlitSelf c (t.pixels.getD []) t.w t.w t.h x y
  | .destroy handle => h.Follows E (.destroy handle)
  | .acquire handle => h.Follows E (.acquire handle)
  | .frameDone => h.Follows E .frameDone
  | _ => True

instance (E : HostEnv) (c : RowCopy) (h : HostLeg) (n : NativeLeg) (call : SurfaceCall) :
    Decidable (StepOk E c h n call) := by
  induction call using SurfaceCall.casesOn <;> unfold StepOk <;> infer_instance

/-- The same answer, and the same surfaces for the cart to see. -/
def AgreeOn (E : HostEnv) (c : RowCopy) (h : HostLeg) (n : NativeLeg) (call : SurfaceCall) :
    Prop :=
  (h.step E call).2 = (n.step c call).2 ∧ (h.step E call).1.abs = (n.step c call).1.abs

/-- Two variants in the same state. -/
structure SameSurfaces (h : HostLeg) (n : NativeLeg) : Prop where
  host : SessionOK h.session
  native : n.Inv
  same : h.abs = n.abs

section Step

variable {E : HostEnv} {c : RowCopy} {h : HostLeg} {n : NativeLeg}

/-- The host's gate adds up the whole budget. -/
theorem hostFits_iff (hok : SessionOK h.session) {w ht : Int} (hbad : ¬ Registry.BadSize w ht) :
    h.session.fits w ht = true
      ↔ h.session.cartHeap + heldBytes h.session.resources
          + liveSurfaceBytes h.session.surfaces + w.toNat * ht.toNat ≤ memBudgetBytes := by
  obtain ⟨k, hr, hsolo, hle⟩ := hok.budget
  unfold Registry.BadSize at hbad
  have hheap : h.session.cartHeap = memCartHeap k := by rw [Session.cartHeap, hr.block]; rfl
  rw [Session.fits, hr.heapUsed, hr.footprint (by omega), (hsolo trivial).1, memAllocFits,
    decide_eq_true_iff, slotArea_eq (by omega) (by omega) (by omega) (by omega)]
  omega

theorem nativeFits_iff {w ht : Int} (hbad : ¬ Registry.BadSize w ht) :
    n.fits w ht = true ↔ n.surfaceBump + w.toNat * ht.toNat ≤ memBudgetBytes := by
  unfold Registry.BadSize at hbad
  rw [fits, decide_eq_true_iff, slotArea_eq (by omega) (by omega) (by omega) (by omega)]

theorem gates_iff (hs : SameSurfaces h n) (call : SurfaceCall) (hf : h.Follows E call) :
    h.abs.step (h.gates E) call = h.abs.step ⟨n.fits, c⟩ call ↔ StepOk E c h n call := by
  cases call with
  | create w ht =>
    show h.abs.create (h.gates E) w ht = h.abs.create ⟨n.fits, c⟩ w ht ↔ _
    rw [Registry.create_eq_iff, HostLeg.abs, firstFree_registry]
    refine forall_congr' fun _ => forall_congr' fun hbad => forall_congr' fun _ => ?_
    rw [← hostFits_iff hs.host hbad, ← nativeFits_iff hbad]
    exact Bool.eq_iff_iff
  | blit dst src x y =>
    have hprod : h.abs.step (h.gates E) (.blit dst src x y) =
        h.abs.step ⟨n.fits, c⟩ (.blit dst src x y)
        ↔ h.abs.blit (h.gates E) dst src x y = h.abs.blit ⟨n.fits, c⟩ dst src x y :=
      ⟨congrArg Prod.fst, fun heq => Prod.ext heq rfl⟩
    rw [hprod, Registry.blit_eq_iff, HostLeg.abs, drawable_registry, drawable_registry,
      Option.map_map, show (Prod.fst ∘ fun i => (i, h.session.surf i)) = id from rfl, Option.map_id]
    simp only [StepOk, id]
    cases hd : h.session.drawable dst with
    | none => exact iff_of_true (fun p hp => by cases hp) fun i hi => by cases hi
    | some =>
      obtain ⟨-, hr, hl⟩ := Session.drawable_eq_some.mp hd
      obtain ⟨px, hpx, hview, -⟩ := hs.host.view_eq (resolveSurface_some hr).1 hl
      simp only [map_some, mem_def, some.injEq, forall_eq', hpx, hview, getD_some]
      exact Iff.rfl
  | destroy handle | acquire handle | frameDone => exact iff_of_true rfl hf
  | _ => exact iff_of_true rfl trivial

theorem StepOk.follows {call : SurfaceCall} (hok : StepOk E c h n call) : h.Follows E call := by
  cases call with
  | destroy handle | acquire handle | frameDone => exact hok
  | _ => trivial

/-- **One call agrees exactly if it is one that both take alike.** -/
theorem agreeOn_iff (hs : SameSurfaces h n) (call : SurfaceCall) :
    AgreeOn E c h n call ↔ StepOk E c h n call := by
  obtain ⟨-, hnative⟩ := step_abs hs.native c call
  rw [← hs.same] at hnative
  have hprod : AgreeOn E c h n call
      ↔ ((h.step E call).1.abs, (h.step E call).2) = h.abs.step ⟨n.fits, c⟩ call := by
    rw [← hnative, Prod.mk.injEq]
    exact and_comm
  rw [hprod]
  by_cases hf : h.Follows E call
  · rw [(HostLeg.step_abs hs.host call hf).2]
    exact gates_iff hs call hf
  · exact iff_of_false (HostLeg.step_diverges hs.host call _ hf) fun hok => hf hok.follows

theorem SameSurfaces.step (hs : SameSurfaces h n) (call : SurfaceCall)
    (hok : StepOk E c h n call) : SameSurfaces (h.step E call).1 (n.step c call).1 := by
  have hagree := (agreeOn_iff hs call).mpr hok
  exact ⟨(HostLeg.step_abs hs.host call hok.follows).1, (step_abs hs.native c call).1, hagree.2⟩

end Step

/-! ## Whole runs -/

def blankSlot : SurfaceSlot where
  pixels := none
  w := 0
  h := 0
  gen := 0
  inUse := false
  isScreen := false
  owned := false
  locked := false
  lockPhantom := false
  lockDirect := false
  lockGen := 0
  lockVaddr := 0
  lockLen := 0

def screenSlot : SurfaceSlot :=
  { blankSlot with pixels := some (replicate (frameW.toNat * frameH.toNat) 0)
                   w := frameW, h := frameH, inUse := true, isScreen := true }

def newSurfaces : SurfaceRegistry := ⟨fun i => if i = 0 then screenSlot else blankSlot, 0, 0, 0⟩

/-- A release cart's session before its first surface call, with any heap and any held
resources. -/
structure StartSession (s : Session) : Prop where
  budget : BudgetInv 0 True s
  noDebug : s.cartIsDebug = false
  phase : s.phase = .none
  surfaces : s.surfaces = newSurfaces

theorem newSurfaces_ok : RegistryOK newSurfaces := by
  have hslot : ∀ i, (newSurfaces.slots i).locked = false ∧ (newSurfaces.slots i).lockDirect = false
      ∧ ((newSurfaces.slots i).isScreen = true ↔ i = 0)
      ∧ ((newSurfaces.slots i).inUse = true → i = 0) := by
    intro i
    simp only [newSurfaces]
    split_ifs with hi
    · exact ⟨rfl, rfl, iff_of_true rfl hi, fun _ => hi⟩
    · exact ⟨rfl, rfl, iff_of_false (by decide) hi, fun h => nomatch h⟩
  refine ⟨⟨rfl, rfl, rfl⟩, fun i => (hslot i).2.2.1, fun i => (hslot i).2.1, fun i hi => ?_,
    fun i hl => ?_, fun i j _ hl => ?_, ?_, Nat.zero_le _⟩
  · obtain rfl := (hslot i).2.2.2 hi
    exact ⟨⟨_, rfl, length_replicate⟩, by decide, by decide⟩
  · exact absurd ((hslot i).1.symm.trans hl) (by decide)
  · exact absurd ((hslot i).1.symm.trans hl) (by decide)
  · rfl

theorem StartSession.same {s : Session} (h : StartSession s) :
    SameSurfaces ⟨s, false, 0⟩ start := by
  refine ⟨⟨h.budget, h.noDebug, h.surfaces ▸ newSurfaces_ok⟩, start_inv, ?_⟩
  have hblank : readGuest (fun _ => 0) 0 (frameW.toNat * frameH.toNat)
      = replicate (frameW.toNat * frameH.toNat) 0 := by
    rw [readGuest, map_const', length_range]
  have hslots : ∀ i, SurfaceSlot.abs s.gmem (newSurfaces.slots i)
      = start.nativeSurfacesInit.absSlot (start.nativeSurfacesInit.surfaces i) := by
    intro i
    by_cases hi : i = 0
    · subst hi
      show RegSlot.mk 0 0 false (some ⟨frameW, frameH, replicate _ 0⟩)
        = ⟨0, 0, false, some ⟨frameW, frameH,
          readGuest (fun _ => 0) 0 (frameW.toNat * frameH.toNat)⟩⟩
      rw [hblank]
    · have hnative : start.nativeSurfacesInit.surfaces i
          = ⟨.null, 0, 0, 0, false, false, false, 0⟩ := update_of_ne hi _ _
      have hhost : newSurfaces.slots i = blankSlot := if_neg hi
      rw [hnative, hhost]
      rfl
  show Registry.mk s.phase (fun i => SurfaceSlot.abs s.gmem (s.surfaces.slots i)) = _
  rw [h.phase, h.surfaces]
  simp only [hslots]
  rfl

/-- At every call of the run the answers are equal, and the surfaces after it. -/
def SurfacesAgree (E : HostEnv) (c : RowCopy) (s : Session) (calls : List SurfaceCall) : Prop :=
  PairRun (HostLeg.step E) (step c) (AgreeOn E c) ⟨s, false, 0⟩ start calls

/-- Every call of the run is one that both variants take alike. -/
def CallsOk (E : HostEnv) (c : RowCopy) (s : Session) (calls : List SurfaceCall) : Prop :=
  PairRun (HostLeg.step E) (step c) (StepOk E c) ⟨s, false, 0⟩ start calls

instance (E : HostEnv) (c : RowCopy) (s : Session) (calls : List SurfaceCall) :
    Decidable (CallsOk E c s calls) := PairRun.decidable _ _ _ _ _ _

/-- **The surface registries agree on a run exactly if both variants take each of its calls
alike**; then all answers and the screens of all frames are equal. -/
theorem surfacesAgree_iff (E : HostEnv) (c : RowCopy) {s : Session} (hs : StartSession s)
    (calls : List SurfaceCall) :
    (SurfacesAgree E c s calls ↔ CallsOk E c s calls)
      ∧ (CallsOk E c s calls →
        (traceOf (HostLeg.step E) ⟨s, false, 0⟩ calls).2
          = (traceOf (step c) start calls).2) := by
  have hiff : SurfacesAgree E c s calls ↔ CallsOk E c s calls :=
    pairRun_congr (I := SameSurfaces) (fun _ _ call hst => agreeOn_iff hst call)
      (fun _ _ call hst hok => hst.step call hok) hs.same calls
  exact ⟨hiff, fun hok => PairRun.trace (fun _ _ _ h => h.1) (hiff.mpr hok)⟩

/-! ## Two runs -/

/-- A `memcpy` that copies as if through a buffer. -/
def bufferedCopy : RowCopy where
  copy px off soff n := memcpyAt px off px soff n
  length px off soff n := length_memcpyAt px off px soff n
  apart _ _ _ _ _ := rfl

def demoHostEnv : HostEnv :=
  ⟨fun _ => replicate (frameW.toNat * frameH.toNat) 7, fun _ => length_replicate, bufferedCopy⟩

def demoStart : Session := { demoSession with surfaces := newSurfaces }

theorem demoStart_new : NewSession demoStart := by
  obtain ⟨h1, h2, h3, h4, h5, -, -, h8⟩ := demoSession_new
  refine ⟨h1, h2, h3, h4, h5, fun i => ?_, rfl, h8⟩
  show (newSurfaces.slots i).inUse = true → (newSurfaces.slots i).isScreen = true
  simp only [newSurfaces]
  split_ifs
  · exact fun _ => rfl
  · exact fun h => nomatch h

theorem NewSession.start {env : ResEnv} {oom : Bool} {s₀ s : Session} {ids : List Nat}
    (h : NewSession s₀) (hsurf : s₀.surfaces = newSurfaces) (hdebug : s₀.cartIsDebug = false)
    (hphase : s₀.phase = .none) (hcreate : sessionCreate env oom s₀ ids = some s) :
    StartSession s := by
  have hbudget := h.budget hcreate
  obtain ⟨t, -, rfl⟩ := map_eq_some_iff.mp hcreate
  obtain ⟨h1, h2, h3⟩ := publish_keeps { s₀ with resources := t }
  exact ⟨hbudget, h2.trans hdebug, (congrArg Registry.phase h3).trans hphase, h1.trans hsurf⟩

/-- Drawing, a lock that is written and released, a surface that is blitted and destroyed,
and a frame. -/
def demoSurfaceCalls : List SurfaceCall :=
  [.phase .draw, .draw (surfaceEncode 0 0) (.clear 3), .create 16 8,
   .draw (surfaceEncode 0 1) (.rectFill 1 1 4 4 5), .acquire (surfaceEncode 0 1),
   .write (lockviewEncode 0 1) 3 9, .release (lockviewEncode 0 1),
   .blit (surfaceEncode 0 0) (surfaceEncode 0 1) 10 (-2), .destroy (surfaceEncode 0 1),
   .frameDone, .phase .update, .create 1 1]

theorem surfacesAgree_demo : ∃ s, sessionCreate demoEnv false demoStart [7] = some s
    ∧ SurfacesAgree demoHostEnv bufferedCopy s demoSurfaceCalls := by
  obtain ⟨s, hs, hok⟩ : ∃ s, sessionCreate demoEnv false demoStart [7] = some s
      ∧ CallsOk demoHostEnv bufferedCopy s demoSurfaceCalls := by decide +kernel
  have hstart := demoStart_new.start rfl rfl rfl hs
  exact ⟨s, hs, (surfacesAgree_iff demoHostEnv bufferedCopy hstart demoSurfaceCalls).1.mpr hok⟩

/-- A surface is created, destroyed and created again in one frame. -/
def recreateCalls : List SurfaceCall :=
  [.phase .draw, .create 4096 3000, .destroy (surfaceEncode 0 1), .create 4096 3000]

/-- The emulated session has its bytes back, the native one has used up its arena. -/
theorem surfaces_differ : ∃ s, sessionCreate demoEnv false demoStart [7] = some s
    ∧ StartSession s
    ∧ (traceOf (HostLeg.step demoHostEnv) ⟨s, false, 0⟩ recreateCalls).2
      = [.done, .handle (surfaceEncode 0 1), .done, .handle (surfaceEncode 1 1)]
    ∧ (traceOf (step bufferedCopy) start recreateCalls).2
      = [.done, .handle (surfaceEncode 0 1), .done, .handle handleNone] := by
  obtain ⟨s, hs, hok⟩ : ∃ s, sessionCreate demoEnv false demoStart [7] = some s
      ∧ (traceOf (HostLeg.step demoHostEnv) ⟨s, false, 0⟩ recreateCalls).2
        = [.done, .handle (surfaceEncode 0 1), .done, .handle (surfaceEncode 1 1)] := by
    decide +kernel
  exact ⟨s, hs, demoStart_new.start rfl rfl rfl hs, hok, by decide +kernel⟩

end Blyt
