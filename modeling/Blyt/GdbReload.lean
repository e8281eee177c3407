import Blyt.Dynlink
import Blyt.GdbControl
import Blyt.GdbXfer

/-!
# The library list across reloads

A debug reload shows the client the rebuilt cart as a second library first and takes the
old one off the list only when the client has continued. In the browser nothing may block,
so `runtime/host/src/libblyt/cart_run.c` does it in two phases: `reload_notify_begin` adds
the entry, and `reload_notify_pump`, called once a tick, moves on when the client's
`continue_gen` has.

Nothing refuses a second `reload_notify_begin` before the first one's old entry is gone,
and phase 2 drops one entry only. Every such overlap leaves a stale cart on the list, and
none of them is ever dropped: `Reloading` counts them.
-/

namespace Blyt

open List Option

/-! ## Entries -/

def maxGdbLibs : Nat := 8

/-- Room for a path in an entry, without the terminator. -/
def maxLibPath : Nat := 255

/-- The arguments of a notification: the cart, with the path it was opened at, where it has
been loaded and the path to report instead. -/
structure CartNotice where
  image : Image
  path : Option (List UInt8)
  base : Nat
  reportedPath : Option (List UInt8)

namespace CartNotice

def libPath (n : CartNotice) : Option (List UInt8) :=
  match n.reportedPath with
  | some (b :: bs) => some (b :: bs)
  | _ => n.path

/-- What `fill_cart_gdb_lib_slot` writes. -/
def slot (n : CartNotice) (path : List UInt8) : GdbLibrary where
  path := path.take maxLibPath
  lAddr := n.base
  lLd := match dynamicPhdr n.image (range n.image.ehdr.phnum) with
    | some ph => u32 (n.base + ph.vaddr)
    | none => 0

def entry (n : CartNotice) : Option GdbLibrary := n.libPath.map n.slot

end CartNotice

/-! ## The session -/

/-- `reload_notify_phase`. -/
inductive ReloadPhase
  | idle
  /-- the new entry has been published beside the old one -/
  | added
  /-- the old entry is off the list -/
  | dropped
  deriving DecidableEq, Repr

structure ReloadState where
  gdbEnabled : Bool
  gdbExecPath : Option (List UInt8)
  /-- `gdb_libs` up to `gdb_nlibs`, and their mirror -/
  gdbLibs : List GdbLibrary
  gdbCartLibIdx : Option Nat
  /-- `n_libraries` of the layout the stub has; its entries are the mirror itself -/
  nLibraries : Nat
  phase : ReloadPhase
  cont : Nat
  oldIdx : Nat
  ticks : Nat
  stub : StubControl

def reloadNotifyMaxTicks : Nat := 100000

namespace ReloadState

/-- The layout as `qXfer` reads it. -/
def layout (s : ReloadState) : GdbLayout := ⟨s.gdbExecPath, s.gdbLibs.take s.nLibraries⟩

/-- `register_cart_gdb_library`. -/
def registerCart (s : ReloadState) (n : CartNotice) : ReloadState :=
  match n.entry with
  | none => s
  | some lib =>
    match s.gdbCartLibIdx with
    | some idx => { s with gdbLibs := s.gdbLibs.set idx lib }
    | none =>
      if maxGdbLibs ≤ s.gdbLibs.length then s
      else { s with gdbCartLibIdx := some s.gdbLibs.length, gdbLibs := s.gdbLibs ++ [lib] }

/-- What `blyt_session_gdb_listen` does to the list. -/
def listen (s : ReloadState) : ReloadState :=
  { s with gdbEnabled := true, nLibraries := s.gdbLibs.length }

/-- `publish_libs_nowait`. -/
def publish (s : ReloadState) : ReloadState :=
  { s with nLibraries := s.gdbLibs.length, stub := stubStep s.stub .libraryChange }

/-- `reload_notify_drop_old`: the last entry goes where the old one was. -/
def dropOld (s : ReloadState) : ReloadState :=
  match s.gdbLibs.getLast? with
  | none => s
  | some new =>
    { s with gdbLibs := (s.gdbLibs.set s.oldIdx new).dropLast, gdbCartLibIdx := some s.oldIdx }

/-- `blyt_session_gdb_reload_notify_begin`. -/
def reloadNotifyBegin (s : ReloadState) (n : CartNotice) : ReloadState × Bool :=
  match s.gdbEnabled, s.gdbCartLibIdx, n.entry with
  | true, some idx, some lib =>
    let s := { s with oldIdx := idx, ticks := 0, cont := s.stub.continueGen }
    if maxGdbLibs ≤ s.gdbLibs.length then
      -- no room beside the old entry
      ({ ({ s with gdbLibs := s.gdbLibs.set idx lib }).publish with phase := .dropped }, true)
    else ({ ({ s with gdbLibs := s.gdbLibs ++ [lib] }).publish with phase := .added }, true)
  | _, _, _ => (s, false)

/-- `fc_gdb_stub_poll`: at most one packet of the client. -/
def poll (s : ReloadState) (packet : Option StubEvent) : ReloadState :=
  match packet with
  | none => s
  | some e => { s with stub := stubStep s.stub e }

/-- `blyt_session_gdb_reload_notify_pump`, with the packet it finds. -/
def reloadNotifyPump (s : ReloadState) (packet : Option StubEvent) : ReloadState × Bool :=
  if s.phase = .idle then (s, true)
  else
    let s := s.poll packet
    if s.stub.continueGen = s.cont then
      let s := { s with ticks := s.ticks + 1 }
      if s.ticks < reloadNotifyMaxTicks then (s, false)
      else if s.phase = .added then ({ s.dropOld.publish with phase := .idle }, true)
      else ({ s with phase := .idle }, true)
    else if s.phase = .added then
      let s := { s.dropOld with cont := s.stub.continueGen }
      ({ s.publish with ticks := 0, phase := .dropped }, false)
    else ({ s with phase := .idle }, true)

end ReloadState

/-- The session after `listen`: the runtime libraries were linked first, then the cart. -/
def attachCart (execPath : Option (List UInt8)) (rts : List GdbLibrary) (first : CartNotice) :
    ReloadState :=
  let s : ReloadState := ⟨false, execPath, rts, none, 0, .idle, 0, 0, 0, stubStart⟩
  (s.registerCart first).listen

/-! ## Runs -/

inductive ReloadEvent
  | reload (n : CartNotice)
  /-- a tick, in which the pump may find a packet -/
  | pump (packet : Option StubEvent)
  /-- anything else that reaches the stub -/
  | stub (e : StubEvent)

def reloadStep (s : ReloadState) : ReloadEvent → ReloadState
  | .reload n => (s.reloadNotifyBegin n).1
  | .pump packet => (s.reloadNotifyPump packet).1
  | .stub e => { s with stub := stubStep s.stub e }

def reloadRun (s : ReloadState) (es : List ReloadEvent) : ReloadState := es.foldl reloadStep s

def ReloadEvent.entry : ReloadEvent → Option GdbLibrary
  | .reload n => n.entry
  | .pump _ | .stub _ => none

/-- The cart that was notified last. -/
def newestCart (first : Option GdbLibrary) (es : List ReloadEvent) : Option GdbLibrary :=
  es.foldl (fun lib e => e.entry.or lib) first

/-- The event is a notification, and the old entry of an earlier one is still listed. -/
def ReloadState.overlaps (s : ReloadState) (e : ReloadEvent) : Bool :=
  decide (s.phase = .added) && e.entry.isSome

def overlapCount : ReloadState → List ReloadEvent → Nat
  | _, [] => 0
  | s, e :: es => (s.overlaps e).toNat + overlapCount (reloadStep s e) es

/-! ## The entries of the cart -/

/-- After the runtime libraries stand the carts, the oldest first. There is one more than one
for every overlap, and one more while an update waits to drop its old entry. -/
structure Reloading (rts carts : List GdbLibrary) (newest : GdbLibrary) (n : Nat)
    (s : ReloadState) : Prop where
  enabled : s.gdbEnabled = true
  idx : s.gdbCartLibIdx = some rts.length
  libs : s.gdbLibs = rts ++ carts
  length : carts.length = 1 + n + (decide (s.phase = .added)).toNat
  old : s.phase = .added → s.oldIdx = rts.length
  last : n = 0 → carts.getLast? = some newest
  shown : s.nLibraries = s.gdbLibs.length

section Reloading

variable {rts carts : List GdbLibrary} {newest : GdbLibrary} {n : Nat} {s : ReloadState}

section

variable (h : Reloading rts carts newest n s)
include h

/-- The stub's flags and the bounds of the wait are not part of it. -/
theorem Reloading.congr (cont ticks : Nat) (stub : StubControl) :
    Reloading rts carts newest n { s with cont := cont, ticks := ticks, stub := stub } :=
  ⟨h.enabled, h.idx, h.libs, h.length, h.old, h.last, h.shown⟩

theorem Reloading.poll (packet : Option StubEvent) :
    Reloading rts carts newest n (s.poll packet) := by
  cases packet with
  | none => exact h
  | some => exact h.congr s.cont s.ticks _

theorem Reloading.carts_ne_nil : carts ≠ [] := by
  rintro rfl
  have hlen := h.length
  rw [length_nil] at hlen
  omega

end

/-- The cart's slot is the first after the runtime libraries. -/
theorem set_rts_length (rts carts : List GdbLibrary) (lib : GdbLibrary) :
    (rts ++ carts).set rts.length lib = rts ++ carts.set 0 lib := by
  rw [set_append_right _ _ (le_refl _), Nat.sub_self]

variable {phase : ReloadPhase} {notice : CartNotice}

section

variable (h : Reloading rts carts newest n s)
include h

/-- An update that is over is in another phase. -/
theorem Reloading.leave (hphase : s.phase ≠ .added) (hleft : phase ≠ .added) :
    Reloading rts carts newest n { s with phase := phase } where
  enabled := h.enabled
  idx := h.idx
  libs := h.libs
  length := by simpa only [hphase, hleft, decide_false] using h.length
  old := fun hp => absurd hp hleft
  last := h.last
  shown := h.shown

/-- Phase 2: one entry less, and of two the newer one stays. -/
theorem Reloading.dropOld (hphase : s.phase = .added) (hleft : phase ≠ .added) :
    ∃ carts', Reloading rts carts' newest n { s.dropOld.publish with phase := phase } := by
  have hne := h.carts_ne_nil
  obtain ⟨front, new, rfl⟩ := (eq_nil_or_concat' carts).resolve_left hne
  have hlast : s.gdbLibs.getLast? = some new := by
    rw [h.libs, ← append_assoc, getLast?_concat]
  have hdrop : s.dropOld = { s with
      gdbLibs := rts ++ ((front ++ [new]).set 0 new).dropLast,
      gdbCartLibIdx := some rts.length } := by
    have hset : (front ++ [new]).set 0 new ≠ [] := by
      rw [Ne, set_eq_nil_iff]
      exact hne
    rw [ReloadState.dropOld, hlast]
    simp only [h.old hphase, h.libs, set_rts_length, dropLast_append_of_ne_nil hset]
  rw [hdrop]
  refine ⟨((front ++ [new]).set 0 new).dropLast, h.enabled, rfl, rfl, ?_,
    fun hp => absurd hp hleft, ?_, rfl⟩
  · have hlen := h.length
    rw [length_dropLast, length_set, hlen]
    simp [hphase, hleft]
  · intro hn
    have hlen := h.length
    simp only [hn, hphase, decide_true, Bool.toNat_true, length_append, length_singleton] at hlen
    obtain ⟨old, rfl⟩ := length_eq_one_iff.mp (show front.length = 1 by omega)
    exact h.last hn

/-- Phase 1: a new entry, beside the old one or in its place. -/
theorem Reloading.reload {lib : GdbLibrary} (hentry : notice.entry = some lib) :
    ∃ carts', Reloading rts carts' lib (n + (decide (s.phase = .added)).toNat)
      (s.reloadNotifyBegin notice).1 := by
  have hlen := h.length
  rw [ReloadState.reloadNotifyBegin, h.enabled, h.idx, hentry]
  dsimp only
  split
  next hfull =>
    refine ⟨carts.set 0 lib, rfl, rfl, ?_, ?_, nofun, ?_, rfl⟩
    · exact (congrArg (List.set · _ _) h.libs).trans (set_rts_length rts carts lib)
    · rw [length_set, hlen]
      exact Nat.add_assoc 1 n _
    · intro hn
      obtain ⟨old, rfl⟩ := length_eq_one_iff.mp (show carts.length = 1 by omega)
      rfl
  next hroom =>
    refine ⟨carts ++ [lib], rfl, rfl, ?_, ?_, fun _ => rfl, ?_, rfl⟩
    · exact (congrArg (· ++ [lib]) h.libs).trans (append_assoc rts carts [lib])
    · rw [length_append]
      simp only [length_singleton, decide_true, Bool.toNat_true]
      omega
    · exact fun _ => getLast?_concat

theorem Reloading.pump (packet : Option StubEvent) :
    ∃ carts', Reloading rts carts' newest n (s.reloadNotifyPump packet).1 := by
  have hpoll := h.poll packet
  rw [ReloadState.reloadNotifyPump]
  generalize s.poll packet = t at hpoll ⊢
  dsimp only
  split
  next => exact ⟨carts, h⟩
  next =>
  have htick := hpoll.congr t.cont (t.ticks + 1) t.stub
  split
  next =>
    -- not consumed yet, which a bound cuts short
    split
    next => exact ⟨carts, htick⟩
    next =>
    split
    next hadded => exact htick.dropOld hadded (by decide)
    next hadded => exact ⟨carts, htick.leave hadded (by decide)⟩
  next =>
    split
    next hadded =>
      obtain ⟨carts', h'⟩ := hpoll.dropOld hadded (show ReloadPhase.dropped ≠ .added by decide)
      exact ⟨carts', h'.congr t.stub.continueGen 0 _⟩
    next hadded => exact ⟨carts, hpoll.leave hadded (by decide)⟩

end

theorem reloadNotifyBegin_none (h : notice.entry = none) (s : ReloadState) :
    (s.reloadNotifyBegin notice).1 = s := by
  rw [ReloadState.reloadNotifyBegin, h]
  split
  next hentry => cases hentry
  next => rfl

theorem Reloading.step (h : Reloading rts carts newest n s) (e : ReloadEvent) :
    ∃ carts', Reloading rts carts' (e.entry.getD newest) (n + (s.overlaps e).toNat)
      (reloadStep s e) := by
  cases e with
  | reload notice =>
    rw [ReloadState.overlaps, ReloadEvent.entry, reloadStep]
    cases hentry : notice.entry with
    | none =>
      rw [reloadNotifyBegin_none hentry, isSome_none, Bool.and_false]
      exact ⟨carts, h⟩
    | some =>
      rw [isSome_some, Bool.and_true]
      exact h.reload hentry
  | pump packet =>
    rw [ReloadState.overlaps, ReloadEvent.entry, isSome_none, Bool.and_false]
    exact h.pump packet
  | stub =>
    rw [ReloadState.overlaps, ReloadEvent.entry, isSome_none, Bool.and_false]
    exact ⟨carts, h.congr s.cont s.ticks _⟩

theorem Reloading.run (h : Reloading rts carts newest n s) (es : List ReloadEvent) :
    ∃ carts' newest', newestCart (some newest) es = some newest'
      ∧ Reloading rts carts' newest' (n + overlapCount s es) (reloadRun s es) := by
  induction es generalizing carts newest n s with
  | nil => exact ⟨carts, newest, rfl, h⟩
  | cons e es ih =>
    obtain ⟨carts1, h1⟩ := h.step e
    obtain ⟨carts', newest', hnewest, h'⟩ := ih h1
    refine ⟨carts', newest', ?_, ?_⟩
    · rw [newestCart, foldl_cons, or_some]
      exact hnewest
    · rw [overlapCount, ← Nat.add_assoc]
      exact h'

end Reloading

/-! ## Sessions -/

section Session

variable (execPath : Option (List UInt8)) {rts : List GdbLibrary} {first : CartNotice}

theorem attachCart_reloading {lib : GdbLibrary} (hentry : first.entry = some lib)
    (hroom : rts.length < maxGdbLibs) :
    Reloading rts [lib] lib 0 (attachCart execPath rts first) := by
  rw [attachCart, ReloadState.registerCart, hentry]
  dsimp only
  rw [if_neg (Nat.not_le.mpr hroom)]
  exact ⟨rfl, rfl, rfl, rfl, nofun, fun _ => rfl, rfl⟩

/-- A session whose cart has no entry takes no notification. -/
structure Unlisted (rts : List GdbLibrary) (s : ReloadState) : Prop where
  idx : s.gdbCartLibIdx = none
  libs : s.gdbLibs = rts
  phase : s.phase = .idle

theorem attachCart_unlisted (h : ¬(first.entry.isSome = true ∧ rts.length < maxGdbLibs)) :
    Unlisted rts (attachCart execPath rts first) := by
  rw [attachCart, ReloadState.registerCart]
  cases hentry : first.entry with
  | none => exact ⟨rfl, rfl, rfl⟩
  | some =>
    have hfull : maxGdbLibs ≤ rts.length := by
      rw [hentry] at h
      exact Nat.not_lt.mp fun hroom => h ⟨rfl, hroom⟩
    dsimp only
    rw [if_pos hfull]
    exact ⟨rfl, rfl, rfl⟩

variable {s : ReloadState}

theorem Unlisted.step (h : Unlisted rts s) (e : ReloadEvent) : Unlisted rts (reloadStep s e) := by
  cases e with
  | reload n =>
    have hrefused : (s.reloadNotifyBegin n).1 = s := by
      rw [ReloadState.reloadNotifyBegin, h.idx]
      split
      next hidx _ => cases hidx
      next => rfl
    rw [reloadStep, hrefused]
    exact h
  | pump =>
    rw [reloadStep, ReloadState.reloadNotifyPump, if_pos h.phase]
    exact h
  | stub => exact ⟨h.idx, h.libs, h.phase⟩

theorem Unlisted.run (h : Unlisted rts s) (es : List ReloadEvent) :
    Unlisted rts (reloadRun s es) := by
  induction es generalizing s with
  | nil => exact h
  | cons e es ih => exact ih (h.step e)

/-- An update that has drained leaves one entry for the cart, and one for every overlap. -/
theorem Reloading.drained {carts : List GdbLibrary} {newest : GdbLibrary} {n : Nat}
    (h : Reloading rts carts newest n s) (hidle : s.phase = .idle) :
    s.layout.libraries = rts ++ carts ∧ carts.length = 1 + n := by
  constructor
  · rw [ReloadState.layout, h.shown, take_length, h.libs]
  · rw [h.length, hidle]
    rfl

end Session

/-- **The library list after reloads.** Whatever the order of notifications, pump calls and the
client's packets: once the updates have drained, the list is the runtime libraries as they were
and the cart of the last notification, exactly if the cart was entered when the session was
attached and no notification has come while the old entry of an earlier one was still listed. -/
theorem reloads_list_newest_iff (execPath : Option (List UInt8)) (rts : List GdbLibrary)
    (first : CartNotice) (es : List ReloadEvent)
    (hdrained : (reloadRun (attachCart execPath rts first) es).phase = .idle) :
    (∃ lib, newestCart first.entry es = some lib
        ∧ (reloadRun (attachCart execPath rts first) es).layout.libraries = rts ++ [lib])
      ↔ (first.entry.isSome = true ∧ rts.length < maxGdbLibs)
        ∧ overlapCount (attachCart execPath rts first) es = 0 := by
  by_cases hlisted : first.entry.isSome = true ∧ rts.length < maxGdbLibs
  · obtain ⟨lib0, hlib0⟩ := isSome_iff_exists.mp hlisted.1
    obtain ⟨carts, newest, hnewest, h⟩ :=
      (attachCart_reloading execPath hlib0 hlisted.2).run es
    obtain ⟨hlibs, hlen⟩ := h.drained hdrained
    rw [Nat.zero_add] at hlen h
    rw [hlib0, hnewest, hlibs]
    constructor
    · rintro ⟨lib, -, heq⟩
      rw [append_cancel_left heq] at hlen
      exact ⟨⟨rfl, hlisted.2⟩, (Nat.add_left_cancel hlen).symm⟩
    · rintro ⟨-, hnone⟩
      rw [hnone] at hlen
      obtain ⟨lib, rfl⟩ := length_eq_one_iff.mp hlen
      exact ⟨newest, rfl, congrArg (fun l => rts ++ l.toList) (h.last hnone)⟩
  · have h := (attachCart_unlisted execPath hlisted).run es
    refine ⟨?_, fun hboth => absurd hboth.1 hlisted⟩
    rintro ⟨lib, -, heq⟩
    have hlen := congrArg List.length heq
    rw [ReloadState.layout, h.libs, length_take, length_append] at hlen
    rw [length_singleton] at hlen
    omega

/-- A build of the cart, named by a letter. -/
def demoBuild (name : UInt8) (base : Nat) : CartNotice :=
  ⟨⟨52, fun _ => 0⟩, some [99], base, some [name]⟩

/-- The client continues. -/
def demoContinue : ReloadEvent := .pump (some (.vCont [59, 99]))

def demoRts : List GdbLibrary := [⟨[108], 0x1000000, 0x1000100⟩]

/-- The second notification comes after the old entry is gone, before the client has said so. -/
def demoReloads : List ReloadEvent :=
  [.reload (demoBuild 98 0x2000000), .pump none, .stub .fetchLibraries, demoContinue,
    .reload (demoBuild 100 0x3000000), demoContinue, .pump (some .fetchLibraries), demoContinue]

theorem reloads_list_newest_demo :
    (reloadRun (attachCart none demoRts (demoBuild 97 0)) demoReloads).phase = .idle
      ∧ ∃ lib, newestCart (demoBuild 97 0).entry demoReloads = some lib
        ∧ (reloadRun (attachCart none demoRts (demoBuild 97 0)) demoReloads).layout.libraries
          = demoRts ++ [lib] :=
  ⟨rfl, (reloads_list_newest_iff none demoRts (demoBuild 97 0) demoReloads rfl).mpr
    ⟨⟨rfl, by decide⟩, rfl⟩⟩

/-- The second notification comes before the client has continued from the first: the first
rebuilt cart is never taken off the list. -/
theorem reload_leaves_stale_cart :
    let s := reloadRun (attachCart none demoRts (demoBuild 97 0))
      [.reload (demoBuild 98 0x2000000), .reload (demoBuild 100 0x3000000), demoContinue,
        demoContinue]
    s.phase = .idle
      ∧ s.layout.libraries = demoRts ++ [⟨[100], 0x3000000, 0⟩, ⟨[98], 0x2000000, 0⟩] :=
  ⟨rfl, rfl⟩

end Blyt
