import Blyt.PinScratch

/-!
# Frames that are entered again

The entry of `run_frame_impl` is where a frame's pins, off-screen surfaces and
locks end. It is entered once a frame by a host that only runs frames. Three
other things enter it, or its reap, in the middle of one:

* a debugger pause in the browser, which returns from `blyt_session_run_frame`
  and calls it again on every tick until the client continues;
* a guest function that the host calls (`blyt_session_begin_fn_call`), be it an
  export a script uses, a bridged call or the quit check after either;
* the Lua frame loop, which reaps before it resumes a coroutine, also one that a
  debugger paused.

Two words tell the entry what it interrupts. `trace_fn_addr` is the function the
host is calling and spares the surfaces; `rc_resuming` says that a parked
callback returns and spares the pins. So a host call keeps the surfaces and
drops the pins, and the return of a parked callback inside it keeps both. A pause
outside a call has neither word, and drops all that the frame holds.
-/

namespace Blyt

open Session

/-! ## The host between two frames -/

/-- A session, and the words that the host's calls keep about it. -/
structure FrameHost where
  session : Session
  traceFnAddr : Nat
  rcResuming : Bool
  /-- `trace_fn_addr` in the saved call frames, the latest first -/
  saved : List Nat

inductive FrameEvent where
  /-- the cart runs; `.frame` is the entry of the next frame -/
  | guest (op : SessionOp)
  /-- the host waits in place, as the debuggers of the desktop legs do -/
  | wait
  | beginFnCall (fnAddr : Nat)
  /-- the called function returns, or raises -/
  | fnReturn
  | saveCallFrame
  | restoreCallFrame
  /-- a parked callback is done; `raises` is an error that no `lua_pcall` catches -/
  | finishReverseCall (raises : Bool)
  /-- `blyt_session_run_frame` in the middle of a frame -/
  | runFrame
  /-- a turn of the Lua frame loop, after a pause or for the next frame -/
  | reapSurfaces (paused : Bool)
  deriving DecidableEq, Repr

/-- The event belongs to an interruption, not to the cart or to a frame's end. -/
def FrameEvent.interrupts : FrameEvent → Bool
  | .guest _ => false
  | .reapSurfaces paused => paused
  | _ => true

namespace FrameHost

/-- `blyt_session_restore_call_frame`, as far as the entry reads what it restores. -/
def restore (h : FrameHost) : Option FrameHost :=
  match h.saved with
  | [] => none
  | fnAddr :: saved => some { h with traceFnAddr := fnAddr, saved := saved }

def step (env : ResEnv) (h : FrameHost) : FrameEvent → Option FrameHost
  | .guest op => (sessionStep env h.session op).map fun s => { h with session := s }
  | .wait => some h
  | .beginFnCall fnAddr => some { h with traceFnAddr := fnAddr }
  | .fnReturn => some { h with traceFnAddr := 0 }
  | .saveCallFrame => some { h with saved := h.traceFnAddr :: h.saved }
  | .restoreCallFrame => h.restore
  | .finishReverseCall raises =>
    h.restore.map fun h => if raises then h else { h with rcResuming := true }
  | .runFrame =>
    some { h with
      session := runFrameEntry h.session h.rcResuming (h.traceFnAddr != 0)
      rcResuming := false }
  | .reapSurfaces _ => some { h with session := surfaceReapAll h.session }

end FrameHost

/-! ## What a frame holds -/

def Session.pins (s : Session) : List Nat := s.resources.entries.map ResEntry.pinCount

/-- Whether a surface is there and whether it is locked, with the generations that their
handles carry. -/
def SurfaceSlot.held (t : SurfaceSlot) : Bool × Nat × Bool × Nat :=
  (t.inUse, t.gen, t.locked, t.lockGen)

/-- Pins, surfaces and locks are the same in both sessions. -/
def StillHeld (s s' : Session) : Prop :=
  s'.pins = s.pins ∧ ∀ i, (s'.surfaces.slots i).held = (s.surfaces.slots i).held

def Session.NoPins (s : Session) : Prop := ∀ n ∈ s.pins, n = 0

/-- Only the screen is there, and nothing is locked. -/
def Session.NoSurfaces (s : Session) : Prop :=
  ∀ i, (i ≠ 0 → (s.surfaces.slots i).inUse = false) ∧ (s.surfaces.slots i).locked = false

instance (s : Session) : Decidable s.NoPins := by unfold NoPins; infer_instance

instance (s : Session) : Decidable s.NoSurfaces := by unfold NoSurfaces; infer_instance

namespace FrameHost

/-- An interruption leaves the frame what it holds. -/
def Keeps (env : ResEnv) (h : FrameHost) (e : FrameEvent) : Prop :=
  e.interrupts = true → ∀ h' ∈ h.step env e, StillHeld h.session h'.session

/-- The event finds nothing to release, or is told not to. -/
def DropsNothing (h : FrameHost) : FrameEvent → Prop
  | .runFrame =>
    (h.rcResuming = false → h.session.NoPins) ∧ (h.traceFnAddr = 0 → h.session.NoSurfaces)
  | .reapSurfaces true => h.session.NoSurfaces
  | _ => True

instance (h : FrameHost) (e : FrameEvent) : Decidable (DropsNothing h e) := by
  unfold DropsNothing
  induction e using FrameEvent.casesOn with
  | reapSurfaces paused => induction paused using Bool.casesOn <;> infer_instance
  | _ => infer_instance

end FrameHost

section Entry

variable {env : ResEnv} {s s' : Session}

/-! ## What the entry releases -/

theorem StillHeld.refl (s : Session) : StillHeld s s := ⟨rfl, fun _ => rfl⟩

/-- The pin counts are part of what the books say of the table. -/
theorem pins_eq_of_books (h : s'.books = s.books) : s'.pins = s.pins := by
  have hrefs : ∀ s : Session, s.pins = s.books.refs.map ResEntry.pinCount := by
    intro s
    simp only [pins, books, ResTable.refs, List.map_map]
    rfl
  rw [hrefs, hrefs, h]

theorem pins_forceReleasePins (s : Session) (off : Nat) :
    pins { s with
      resourceScratchOff := off, resources := resourceTableForceReleasePins s.resources }
      = s.pins.map fun _ => 0 := by
  simp only [pins, resourceTableForceReleasePins, List.map_map]
  rfl

theorem noPins_iff : (s.pins.map fun _ => 0) = s.pins ↔ s.NoPins := by
  rw [List.map_const', eq_comm, List.eq_replicate_iff]
  exact and_iff_right rfl

/-- A slot comes out of the reap as it went in when nothing of it is held. -/
theorem held_reap_iff {bump : Nat} {i : Fin surfaceMax} {t : SurfaceSlot} (h : SlotInv bump i t)
    (m : ByteMem) :
    (if i = 0 then t.unlock m else (t.unlock m).release).held = t.held
      ↔ (i ≠ 0 → t.inUse = false) ∧ t.locked = false := by
  split <;> rename_i hi
  · constructor
    · intro heq
      have hl : (t.unlock m).locked = t.locked := congrArg (·.2.2.1) heq
      exact ⟨absurd hi, hl.symm.trans (unlock_locked m t)⟩
    · rintro ⟨-, hl⟩
      rw [unlock_of_unlocked m t hl]
  · have hscreen := Bool.eq_false_iff.mpr (mt h.isScreen.mp hi)
    constructor
    · intro heq
      have hl : (t.unlock m).release.locked = t.locked := congrArg (·.2.2.1) heq
      have hu : (t.unlock m).release.inUse = t.inUse := congrArg (·.1) heq
      rw [release_locked, unlock_locked] at hl
      refine ⟨fun _ => ?_, hl.symm⟩
      by_contra hused
      rw [Bool.not_eq_false] at hused
      have hlive := release_live (t.unlock m) ((unlock_inUse m t).trans hused)
        ((unlock_isScreen m t).trans hscreen)
      rw [hlive, hused] at hu
      cases hu
    · rintro ⟨hu, hl⟩
      rw [unlock_of_unlocked m t hl, release_unused _ (hu hi)]

theorem held_reapSlots_iff (h : RegInv s.surfaces) :
    (∀ i, ((surfaceReapSlots s.gmem s.surfaces).slots i).held = (s.surfaces.slots i).held)
      ↔ s.NoSurfaces := by
  refine forall_congr' fun i => ?_
  rw [reapSlots_slots]
  exact held_reap_iff (h.slot i) s.gmem

/-- **The reap.** -/
theorem stillHeld_reapAll_iff (h : RegInv s.surfaces) :
    StillHeld s (surfaceReapAll s) ↔ s.NoSurfaces := by
  have hpins := pins_eq_of_books (surfaceReapAll_books s)
  have hslots : (surfaceReapAll s).surfaces = surfaceReapSlots s.gmem s.surfaces :=
    publish_surfaces _
  rw [StillHeld, hslots, held_reapSlots_iff h]
  exact and_iff_right hpins

theorem runFrameEntry_pins (s : Session) (rcResuming fnCall : Bool) :
    (runFrameEntry s rcResuming fnCall).pins
      = if rcResuming then s.pins else s.pins.map fun _ => 0 := by
  have hreap : ∀ s : Session, (surfaceReapAll s).pins = s.pins :=
    fun s => pins_eq_of_books (surfaceReapAll_books s)
  unfold runFrameEntry
  rw [pins_eq_of_books (publish_books _)]
  cases rcResuming <;> cases fnCall <;>
    simp [hreap, pins_forceReleasePins]

theorem runFrameEntry_surfaces (s : Session) (rcResuming fnCall : Bool) :
    (runFrameEntry s rcResuming fnCall).surfaces
      = if fnCall then s.surfaces else surfaceReapSlots s.gmem s.surfaces := by
  unfold runFrameEntry surfaceReapAll
  cases rcResuming <;> cases fnCall <;> simp [publish_surfaces]

/-- **The entry.** Each of the two words spares what it stands for, and nothing else does. -/
theorem stillHeld_runFrameEntry_iff (h : RegInv s.surfaces) (rcResuming fnCall : Bool) :
    StillHeld s (runFrameEntry s rcResuming fnCall)
      ↔ (rcResuming = false → s.NoPins) ∧ (fnCall = false → s.NoSurfaces) := by
  rw [StillHeld, runFrameEntry_pins, runFrameEntry_surfaces]
  refine and_congr ?_ ?_
  · cases rcResuming with
    | true => simp
    | false =>
      simp only [Bool.false_eq_true, if_false, true_imp_iff]
      exact noPins_iff
  · cases fnCall with
    | true => simp
    | false =>
      simp only [Bool.false_eq_true, if_false, true_imp_iff]
      exact held_reapSlots_iff h

end Entry

/-! ## Whole frames -/

namespace FrameHost

variable {env : ResEnv} {h h' : FrameHost} {e : FrameEvent}

theorem restore_session (hr : h.restore = some h') : h'.session = h.session := by
  unfold restore at hr
  split at hr
  · cases hr
  · cases hr
    rfl

theorem finish_session {raises : Bool} (hs : h.step env (.finishReverseCall raises) = some h') :
    h'.session = h.session := by
  obtain ⟨h1, hr, rfl⟩ := Option.map_eq_some_iff.mp hs
  rw [← restore_session hr]
  cases raises <;> rfl

theorem step_session (hs : h.step env e = some h') :
    h'.session = h.session
      ∨ (∃ op, e = .guest op ∧ sessionStep env h.session op = some h'.session)
      ∨ (e = .runFrame
        ∧ h'.session = runFrameEntry h.session h.rcResuming (h.traceFnAddr != 0))
      ∨ ∃ paused, e = .reapSurfaces paused ∧ h'.session = surfaceReapAll h.session := by
  cases e with
  | guest op =>
    obtain ⟨s, hop, rfl⟩ := Option.map_eq_some_iff.mp hs
    exact .inr (.inl ⟨op, rfl, hop⟩)
  | restoreCallFrame => exact .inl (restore_session hs)
  | finishReverseCall => exact .inl (finish_session hs)
  | runFrame =>
    cases hs
    exact .inr (.inr (.inl ⟨rfl, rfl⟩))
  | reapSurfaces paused =>
    cases hs
    exact .inr (.inr (.inr ⟨paused, rfl, rfl⟩))
  | _ =>
    cases hs
    exact .inl rfl

theorem step_accounted (ha : Accounted env h.session) (hs : h.step env e = some h') :
    Accounted env h'.session := by
  rcases step_session hs with heq | ⟨op, -, hop⟩ | ⟨-, heq⟩ | ⟨paused, -, heq⟩
  · rw [heq]
    exact ha
  · exact ha.step hop
  · rw [heq]
    exact ha.frame _ _
  · rw [heq]
    exact ⟨(surfaceReapAll_books _).symm ▸ ha.books, by
      rw [surfaceReapAll, publish_surfaces]
      exact ha.regs.move (.reap rfl)⟩

theorem keeps_iff (ha : Accounted env h.session) : Keeps env h e ↔ DropsNothing h e := by
  cases e with
  | guest => exact iff_of_true (fun hi => by cases hi) trivial
  | runFrame =>
    have hcall : ((h.traceFnAddr != 0) = false) ↔ h.traceFnAddr = 0 := by simp
    simp [Keeps, FrameEvent.interrupts, step, stillHeld_runFrameEntry_iff ha.regs, DropsNothing,
      hcall]
  | reapSurfaces paused =>
    cases paused with
    | false => exact iff_of_true (fun hi => by cases hi) trivial
    | true =>
      simp [Keeps, FrameEvent.interrupts, step, stillHeld_reapAll_iff ha.regs, DropsNothing]
  | restoreCallFrame =>
    refine iff_of_true (fun _ h' hs => ?_) trivial
    rw [restore_session hs]
    exact .refl _
  | finishReverseCall =>
    refine iff_of_true (fun _ h' hs => ?_) trivial
    rw [finish_session hs]
    exact .refl _
  | _ =>
    refine iff_of_true (fun _ h' hs => ?_) trivial
    cases hs
    exact .refl _

/-- **Frame scope.** Over any run of frames, interruptions and host calls, an interruption
leaves the frame what it holds exactly when it enters nothing that releases it: pins survive an
entry with `rc_resuming`, surfaces and locks one that drives a call. -/
theorem frame_scope_iff (hs : h.session.Reached env) (es : List FrameEvent) :
    AdmRun (step env) (Keeps env) h es ↔ AdmRun (step env) DropsNothing h es :=
  admRun_congr (I := fun h => Accounted env h.session) (fun _ _ _ ha => keeps_iff ha)
    (fun _ _ _ _ ha _ hstep => step_accounted ha hstep) hs.accounted

/-- The cart draws, pins a resource, creates a surface and locks it. -/
def takes : List FrameEvent :=
  [.guest (.enterPhase .draw), .guest (.pin (2 ^ 29 + 5) false),
   .guest (.surfaceCreate 2 1 false), .guest (.surfaceAcquire (surfaceEncode 0 1))]

/-- A call of the host takes them, parks for a callback, waits for a debugger and returns. -/
def callbackRun : List FrameEvent :=
  [.beginFnCall 0x1000, .runFrame] ++ takes
    ++ [.saveCallFrame, .wait, .finishReverseCall false, .runFrame]

theorem frame_scope_demo :
    ∃ s h, Reached demoEnv s
      ∧ runSteps (step demoEnv) ⟨s, 0, false, []⟩ callbackRun = some h
      ∧ h.session.pins = [1, 0] ∧ (h.session.surfaces.slots 1).held = (true, 0, true, 0)
      ∧ AdmRun (step demoEnv) (Keeps demoEnv) ⟨s, 0, false, []⟩ callbackRun := by
  obtain ⟨s, hs, hadm, h, hh, hpins, hheld⟩ : ∃ s,
      sessionCreate demoEnv false PinView.twoSession [] = some s
      ∧ AdmRun (step demoEnv) DropsNothing ⟨s, 0, false, []⟩ callbackRun
      ∧ ∃ h, runSteps (step demoEnv) ⟨s, 0, false, []⟩ callbackRun = some h
        ∧ h.session.pins = [1, 0]
        ∧ (h.session.surfaces.slots 1).held = (true, 0, true, 0) := by decide +kernel
  have hreached : Reached demoEnv s :=
    ⟨PinView.twoSession, s, [], false, [], PinView.twoSession_new, hs, rfl⟩
  exact ⟨s, h, hreached, hh, hpins, hheld, (frame_scope_iff hreached _).mpr hadm⟩

/-- A frame that holds a pin, a surface and a lock loses all three when a paused debugger makes
the host enter it again, and the pin when the host calls a function of the guest. -/
theorem frame_scope_lost :
    ∃ s h, Reached demoEnv s
      ∧ runSteps (step demoEnv) ⟨s, 0, false, []⟩ takes = some h
      ∧ h.session.pins = [1, 0] ∧ (h.session.surfaces.slots 1).held = (true, 0, true, 0)
      ∧ (∃ h', runSteps (step demoEnv) h [.runFrame] = some h'
        ∧ h'.session.pins = [0, 0] ∧ (h'.session.surfaces.slots 1).held = (false, 1, false, 1))
      ∧ ∃ h', runSteps (step demoEnv) h [.beginFnCall 0x1000, .runFrame, .fnReturn] = some h'
        ∧ h'.session.pins = [0, 0]
        ∧ (h'.session.surfaces.slots 1).held = (true, 0, true, 0) := by
  obtain ⟨s, hs, h, hh, htaken⟩ : ∃ s,
      sessionCreate demoEnv false PinView.twoSession [] = some s
      ∧ ∃ h, runSteps (step demoEnv) ⟨s, 0, false, []⟩ takes = some h
      ∧ h.session.pins = [1, 0] ∧ (h.session.surfaces.slots 1).held = (true, 0, true, 0)
      ∧ (∃ h', runSteps (step demoEnv) h [.runFrame] = some h'
        ∧ h'.session.pins = [0, 0] ∧ (h'.session.surfaces.slots 1).held = (false, 1, false, 1))
      ∧ ∃ h', runSteps (step demoEnv) h [.beginFnCall 0x1000, .runFrame, .fnReturn] = some h'
        ∧ h'.session.pins = [0, 0]
        ∧ (h'.session.surfaces.slots 1).held = (true, 0, true, 0) := by
    decide +kernel
  exact ⟨s, h, ⟨PinView.twoSession, s, [], false, [], PinView.twoSession_new, hs, rfl⟩, hh, htaken⟩

end FrameHost

end Blyt
