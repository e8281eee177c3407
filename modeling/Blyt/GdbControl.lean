import Mathlib.Tactic
import Blyt.ByteMem

/-!
# Halting and resuming

The part of `gdb_state_t` in `runtime/host/src/gdb/gdb_stub.c` that says whether the cart
is halted, what the client wants next and whether the halt is the one from the start. The
transport's thread, the run loop and the frontend all write it, each under the stub's
lock, so the unit of the model is one such section; `D` makes two of them.

Every halt looks alike in `halted` and `pending_action`. `Tracked` keeps beside the state
what has halted the cart, defined by the events alone: the last one to halt it, until it
is resumed. The invariant says that `initial_halt` is a faithful record of that.
-/

namespace Blyt

/-! ## The stub -/

/-- `pending_action`, of which -1 is none. -/
inductive ResumeAction
  | cont
  | step
  | exit
  deriving DecidableEq, Repr

structure StubControl where
  hasClient : Bool
  halted : Bool
  pendingAction : Option ResumeAction
  initialHalt : Bool
  entryStopPending : Bool
  libFetchGen : Nat
  continueGen : Nat
  deriving DecidableEq, Repr

def stubStart : StubControl := ⟨false, false, none, true, false, 0, 0⟩

namespace StubControl

def setTransport (s : StubControl) : StubControl :=
  { s with hasClient := false, entryStopPending := false, halted := true, pendingAction := none,
           initialHalt := true }

/-- `fc_gdb_stub_set_has_client`; the breakpoints a leaving client had are not part of this
state. -/
def setHasClient (s : StubControl) (val : Bool) : StubControl :=
  if val then
    { s with hasClient := true, halted := true, pendingAction := none, initialHalt := true }
  else { s with hasClient := false, halted := false, pendingAction := some .cont }

/-- `fc_gdb_stub_notify_stopped`, `fc_gdb_stub_notify_library_change` and the handler of
the interrupt differ in what they send. -/
def haltNow (s : StubControl) : StubControl :=
  { s with halted := true, pendingAction := none, initialHalt := false }

/-- The arguments of `vCont` ask for a step: there is an `s` or an `S` anywhere. -/
def asksStep (args : List UInt8) : Bool := args.contains 115 || args.contains 83

def handleVCont (s : StubControl) (args : List UInt8) : StubControl :=
  if !asksStep args && s.entryStopPending then { s.haltNow with entryStopPending := false }
  else
    { s with
      pendingAction := some (if asksStep args then .step else .cont)
      halted := false
      initialHalt := false
      continueGen := if asksStep args then s.continueGen else u32 (s.continueGen + 1) }

def continueInitialHalt (s : StubControl) : StubControl :=
  if s.halted && s.pendingAction.isNone && s.initialHalt then
    { s with pendingAction := some .cont, halted := false, initialHalt := false }
  else s

end StubControl

/-! ## Events -/

inductive StubEvent
  | setTransport
  | connect
  | disconnect
  /-- the run loop reports a breakpoint, or the end of a step -/
  | stopped (stepped : Bool)
  | libraryChange
  /-- `vCont` with its arguments; `c` and `s` come as `;c` and `;s` -/
  | vCont (args : List UInt8)
  | interrupt
  /-- the first half of `D`; the second is `disconnect` -/
  | detach
  | kill
  /-- a read of the library list from its start -/
  | fetchLibraries
  | continueInitialHalt
  deriving DecidableEq, Repr

def stubStep (s : StubControl) : StubEvent → StubControl
  | .setTransport => s.setTransport
  | .connect => s.setHasClient true
  | .disconnect => s.setHasClient false
  | .stopped _ | .libraryChange | .interrupt => s.haltNow
  | .vCont args => s.handleVCont args
  | .detach => { s with pendingAction := some .cont, halted := false }
  | .kill => { s with pendingAction := some .exit }
  | .fetchLibraries => { s with libFetchGen := u32 (s.libFetchGen + 1) }
  | .continueInitialHalt => s.continueInitialHalt

/-! ## What has halted the cart -/

inductive HaltCause
  | setup
  | connection
  | breakpoint
  | step
  | interrupt
  | library
  deriving DecidableEq, Repr

/-- The halt of the start, which is there to be released. -/
def HaltCause.isInitial (c : HaltCause) : Prop := c = .setup ∨ c = .connection

instance (c : HaltCause) : Decidable c.isInitial := inferInstanceAs (Decidable (_ ∨ _))

/-- The event halts the cart, for this reason. -/
def StubEvent.halts : StubEvent → Option HaltCause
  | .setTransport => some .setup
  | .connect => some .connection
  | .stopped stepped => some (if stepped then .step else .breakpoint)
  | .libraryChange => some .library
  | .interrupt => some .interrupt
  | _ => none

structure Tracked where
  stub : StubControl
  cause : Option HaltCause

/-- The last event that halted the cart is the cause, until the cart is resumed. -/
def track (t : Tracked) (e : StubEvent) : Tracked where
  stub := stubStep t.stub e
  cause := if (stubStep t.stub e).halted then e.halts.or t.cause else none

def tracked (es : List StubEvent) : Tracked := es.foldl track ⟨stubStart, none⟩

/-- The flags tell the cause. -/
structure Tracked.OK (t : Tracked) : Prop where
  halted : t.stub.halted = true → ∃ c, t.cause = some c ∧ (t.stub.initialHalt = true ↔ c.isInitial)
  running : t.stub.halted = false → t.cause = none
  entry : t.stub.entryStopPending = false

variable {e : StubEvent}

section Track

variable {t : Tracked}

/-- The stop at the entry is never pending. -/
theorem StubControl.handleVCont_eq {s : StubControl} (h : s.entryStopPending = false)
    (args : List UInt8) : s.handleVCont args = { s with
      pendingAction := some (if asksStep args then .step else .cont)
      halted := false
      initialHalt := false
      continueGen := if asksStep args then s.continueGen else u32 (s.continueGen + 1) } := by
  rw [handleVCont, if_neg]
  rw [h, Bool.and_false]
  exact Bool.false_ne_true

/-- An event that halts, and records whether it is the start's halt. -/
theorem Tracked.OK.of_halts {c : HaltCause} (hcause : e.halts = some c)
    (hhalted : (stubStep t.stub e).halted = true)
    (hinit : (stubStep t.stub e).initialHalt = true ↔ c.isInitial)
    (hentry : (stubStep t.stub e).entryStopPending = false) : (track t e).OK where
  halted _ := ⟨c, by rw [track, if_pos hhalted, hcause, Option.or], hinit⟩
  running h := absurd (h.symm.trans hhalted) Bool.false_ne_true
  entry := hentry

theorem Tracked.OK.of_runs (hrun : (stubStep t.stub e).halted = false)
    (hentry : (stubStep t.stub e).entryStopPending = false) : (track t e).OK where
  halted h := absurd (hrun.symm.trans h) Bool.false_ne_true
  running _ := by rw [track, if_neg (by rw [hrun]; exact Bool.false_ne_true)]
  entry := hentry

theorem Tracked.OK.of_keeps (h : t.OK) (hcause : e.halts = none)
    (hhalted : (stubStep t.stub e).halted = t.stub.halted)
    (hinit : (stubStep t.stub e).initialHalt = t.stub.initialHalt)
    (hentry : (stubStep t.stub e).entryStopPending = false) : (track t e).OK := by
  have hsame : (track t e).cause = if t.stub.halted then t.cause else none := by
    rw [track, hhalted, hcause, Option.none_or]
  refine ⟨fun hh => ?_, fun hr => ?_, hentry⟩
  · have hh := hhalted ▸ hh
    obtain ⟨c, hc, hiff⟩ := h.halted hh
    refine ⟨c, by rw [hsame, if_pos hh, hc], ?_⟩
    show (stubStep t.stub e).initialHalt = true ↔ _
    rw [hinit, hiff]
  · have hr := hhalted ▸ hr
    rw [hsame, if_neg (by rw [hr]; exact Bool.false_ne_true)]

theorem Tracked.OK.track (h : t.OK) (e : StubEvent) : (track t e).OK := by
  have hno : ∀ {c : HaltCause}, ¬c.isInitial → (false = true ↔ c.isInitial) := fun hc =>
    ⟨nofun, fun hi => absurd hi hc⟩
  cases e with
  | setTransport => exact .of_halts rfl rfl ⟨fun _ => .inl rfl, fun _ => rfl⟩ rfl
  | connect => exact .of_halts rfl rfl ⟨fun _ => .inr rfl, fun _ => rfl⟩ h.entry
  | disconnect => exact .of_runs rfl h.entry
  | stopped stepped =>
    refine .of_halts rfl rfl (hno ?_) h.entry
    cases stepped <;> decide
  | libraryChange | interrupt => exact .of_halts rfl rfl (hno (by decide)) h.entry
  | vCont args =>
    have hstep : stubStep t.stub (.vCont args) = t.stub.handleVCont args := rfl
    rw [StubControl.handleVCont_eq h.entry] at hstep
    exact .of_runs (by rw [hstep]) (by rw [hstep]; exact h.entry)
  | detach => exact .of_runs rfl h.entry
  | kill | fetchLibraries => exact h.of_keeps rfl rfl rfl h.entry
  | continueInitialHalt =>
    have hstep : stubStep t.stub .continueInitialHalt = t.stub.continueInitialHalt := rfl
    rw [StubControl.continueInitialHalt] at hstep
    split at hstep
    · exact .of_runs (by rw [hstep]) (by rw [hstep]; exact h.entry)
    · exact h.of_keeps rfl (by rw [hstep]) (by rw [hstep]) (by rw [hstep]; exact h.entry)

end Track

theorem tracked_ok (es : List StubEvent) : (tracked es).OK := by
  have hrun : ∀ {t : Tracked}, t.OK → (es.foldl track t).OK := by
    induction es with
    | nil => exact id
    | cons e es ih => exact fun h => ih (h.track e)
  exact hrun ⟨nofun, fun _ => rfl, rfl⟩

/-- **Only the start's halt is released.** After any events, `fc_gdb_stub_continue_initial_halt`
resumes a halted cart exactly if the transport's setup or a client's connection was the last to
halt it, and no action of the client is pending; a cart that a breakpoint, a step, an interrupt
or a library change has halted stays as it is. -/
theorem initial_halt_selective (es : List StubEvent) :
    ((tracked es).stub.halted = true ∧ (tracked es).stub.continueInitialHalt.halted = false
        ↔ (∃ c, (tracked es).cause = some c ∧ c.isInitial)
          ∧ (tracked es).stub.pendingAction = none)
      ∧ ∀ c, (tracked es).cause = some c → ¬c.isInitial →
        (tracked es).stub.halted = true
          ∧ (tracked es).stub.continueInitialHalt = (tracked es).stub := by
  have hok := tracked_ok es
  generalize tracked es = t at hok ⊢
  have hhalted : ∀ {c}, t.cause = some c → t.stub.halted = true := by
    intro c hc
    by_contra hrun
    rw [hok.running (Bool.not_eq_true _ |>.mp hrun)] at hc
    cases hc
  have hflag : ∀ {c}, t.cause = some c → (t.stub.initialHalt = true ↔ c.isInitial) := by
    intro c hc
    obtain ⟨c', hc', hiff⟩ := hok.halted (hhalted hc)
    rw [hc] at hc'
    cases hc'
    exact hiff
  refine ⟨⟨?_, ?_⟩, fun c hc hlater => ⟨hhalted hc, ?_⟩⟩
  · rintro ⟨hh, hreleased⟩
    obtain ⟨c, hc, hiff⟩ := hok.halted hh
    rw [StubControl.continueInitialHalt] at hreleased
    split at hreleased
    next hcond =>
      simp only [Bool.and_eq_true, Option.isNone_iff_eq_none] at hcond
      exact ⟨⟨c, hc, hiff.mp hcond.2⟩, hcond.1.2⟩
    next => exact absurd (hreleased.symm.trans hh) Bool.false_ne_true
  · rintro ⟨⟨c, hc, hinit⟩, hpending⟩
    refine ⟨hhalted hc, ?_⟩
    rw [StubControl.continueInitialHalt]
    rw [hhalted hc, hpending, (hflag hc).mpr hinit]
    rfl
  · rw [StubControl.continueInitialHalt, if_neg]
    intro hcond
    rw [Bool.and_eq_true] at hcond
    exact hlater ((hflag hc).mp hcond.2)

/-- A breakpoint is hit, the client detaches, another one connects and interrupts before it has
resumed the cart. -/
def demoStubEvents : List StubEvent :=
  [.setTransport, .connect, .vCont [59, 99], .stopped false, .detach, .disconnect, .connect,
    .interrupt]

theorem initial_halt_selective_demo :
    (tracked (demoStubEvents.take 7)).stub.continueInitialHalt.halted = false
      ∧ (tracked demoStubEvents).stub.halted = true
      ∧ (tracked demoStubEvents).stub.continueInitialHalt = (tracked demoStubEvents).stub := by
  refine ⟨((initial_halt_selective (demoStubEvents.take 7)).1.mpr ⟨⟨.connection, rfl, .inr rfl⟩,
    rfl⟩).2, (initial_halt_selective demoStubEvents).2 .interrupt rfl (by decide)⟩

end Blyt
