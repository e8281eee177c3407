import Blyt.WatchLoop

/-!
# The signals of the watch loop

After a rebuild `start_watcher` (`run.rs`) compares the ELF and the index with those of the
build before, and tells the runtimes to reload or to swap assets. A reload in debug mode
names a copy of the ELF, `.dbg.<hash>.elf`, and the copy of the reload before it is removed.
The ELF of a build that got through can be read and copied.

The copy that a reload names is there exactly if the reload before it was for another ELF
(`signalRun_live_iff`).
-/

namespace Blyt

open List Function

variable {η : Type} [DecidableEq η]

structure DevBuild where
  elf : List UInt8
  index : ResourceIndex

structure SignalLoop (η : Type) where
  lastHash : Option η
  lastIndex : ResourceIndex
  prevDbgStaged : Option η
  /-- The copies, by their hash. -/
  staged : η → Option (List UInt8)
  /-- The copy that the last reload named, and the ELF it was for. -/
  sent : Option (η × List UInt8)

/-- The loop starts after the build `b`. -/
def signalStart (hash : List UInt8 → η) (b : DevBuild) : SignalLoop η :=
  ⟨some (hash b.elf), b.index, none, fun _ => none, none⟩

namespace SignalLoop

def codeChanged (w : SignalLoop η) (newHash : η) : Bool := decide (some newHash ≠ w.lastHash)

/-- Copy the ELF, remove the copy before it, and send the message. -/
def stage (w : SignalLoop η) (newHash : η) (elf : List UInt8) : SignalLoop η :=
  let copied := update w.staged newHash (some elf)
  { w with staged := w.prevDbgStaged.elim copied fun old => update copied old none
           prevDbgStaged := some newHash
           sent := some (newHash, elf) }

/-- The copy that the last reload named is there and has the bytes of its ELF. -/
def Live (w : SignalLoop η) : Prop := ∀ p ∈ w.sent, w.staged p.1 = some p.2

end SignalLoop

/-- One round: its signals, and the loop after it. A build that fails changes nothing. -/
def signalRound (hash : List UInt8 → η) (w : SignalLoop η) :
    Option DevBuild → (Bool × List Nat) × SignalLoop η
  | none => ((false, []), w)
  | some b =>
    let newHash := hash b.elf
    let signals := dispatchSignals w.lastIndex b.index (w.codeChanged newHash)
    -- an unchanged hash is the old one
    let w := { w with lastHash := some newHash, lastIndex := b.index }
    (signals, if signals.1 then w.stage newHash b.elf else w)

def signalRun (hash : List UInt8 → η) (w : SignalLoop η) (bs : List (Option DevBuild)) :
    SignalLoop η :=
  bs.foldl (fun w b => (signalRound hash w b).2) w

variable {hash : List UInt8 → η} {w : SignalLoop η}

/-! ## The copy -/

theorem SignalLoop.stage_live (w : SignalLoop η) (h : η) (elf : List UInt8) :
    (w.stage h elf).Live ↔ w.prevDbgStaged ≠ some h := by
  simp only [Live, stage, Option.mem_def, Option.some.injEq, forall_eq']
  cases w.prevDbgStaged with
  | none => simp
  | some old =>
    by_cases hold : old = h
    · simp [hold]
    · simp [hold, update_of_ne (Ne.symm hold)]

/-- A reload is not for the ELF of the reload before it. -/
def NoRestage (hash : List UInt8 → η) (w : SignalLoop η) (b : Option DevBuild) : Prop :=
  ∀ d ∈ b, (dispatchSignals w.lastIndex d.index (w.codeChanged (hash d.elf))).1 = true →
    w.prevDbgStaged ≠ some (hash d.elf)

theorem signalRound_live_iff (hw : w.Live) (b : Option DevBuild) :
    (signalRound hash w b).2.Live ↔ NoRestage hash w b := by
  unfold NoRestage
  cases b with
  | none => exact iff_of_true hw fun _ hd => by cases hd
  | some b =>
    simp only [signalRound, Option.mem_def, Option.some.injEq, forall_eq']
    cases (dispatchSignals w.lastIndex b.index (w.codeChanged (hash b.elf))).1 with
    | false => exact iff_of_true hw fun hr => by cases hr
    | true => exact (SignalLoop.stage_live _ _ _).trans ⟨fun h _ => h, fun h => h rfl⟩

/-- **Debug reloads.** The named copy is there after every round exactly if no reload is for
the ELF of the reload before it. -/
theorem signalRun_live_iff (hash : List UInt8 → η) (first : DevBuild)
    (bs : List (Option DevBuild)) :
    AdmRun (fun w b => some (signalRound hash w b).2) (fun w b => (signalRound hash w b).2.Live)
        (signalStart hash first) bs
      ↔ AdmRun (fun w b => some (signalRound hash w b).2) (NoRestage hash)
        (signalStart hash first) bs := by
  refine admRun_congr (I := SignalLoop.Live) (fun w b _ hw => signalRound_live_iff hw b) ?_
    fun p hp => by cases hp
  rintro w b - w' hw hno ⟨⟩
  exact (signalRound_live_iff hw b).mpr hno

/-- An asset is added and removed again, the ELF stays: the second reload names a file that
is gone. -/
theorem second_reload_dangles :
    let w := signalRun id (signalStart id ⟨[7], []⟩)
      [some ⟨[7], [(1, ⟨"hero", "a"⟩)]⟩, some ⟨[7], []⟩]
    w.sent = some ([7], [7]) ∧ w.staged [7] = none := by
  decide

end Blyt
