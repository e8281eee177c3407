import Blyt.Session

/-!
# Software breakpoints of the GDB stub

The stub (`gdb_stub.c`) keeps the addresses the client has set, the session
(`cart_run.c`) patches guest memory and keeps the words it overwrote, each in a table
of its own. A state of the model is a stop of the cart; an event is a packet of the
client at that stop, or a resume that runs the cart to its next stop. The run loop is
the native one: a breakpoint is stepped over by writing the saved word back, executing
one instruction and patching again.

The emulator's guest memory is a parameter (`GuestRam`). The instructions the cart
executes between two stops are taken not to store to memory.
-/

namespace Blyt

/-- `MAX_BREAKS` of the stub. -/
def maxBreaks : Nat := 128

/-- `MAX_GDB_BREAKS` of the session. -/
def maxGdbBreaks : Nat := 128

/-- `BLYT_EMU_MEM_SIZE`. -/
def emuMemSize : Nat := 256 * 1024 * 1024

/-- `GUEST_RAM_CONTAINS`, which `memory_write` and `memory_fill` ask too. It is the emulator's;
memory is taken to be one block of the size that the session asks for, from address 0. -/
class GuestRam where
  contains : Nat → Nat → Bool
  contains_iff {a n : Nat} (hn : 0 < n) : contains a n = true ↔ a + n ≤ emuMemSize

structure GdbBp where
  addr : Nat
  originalWord : Nat
  deriving DecidableEq, Repr

/-- The session's side: guest memory and `gdb_bps`. -/
structure GdbCpu where
  mem : ByteMem
  bps : List GdbBp

/-! ## The session's breakpoints -/

section

variable [GuestRam]

/-- The bytes that were read before the first address outside guest memory. -/
def gdbReadMem (m : ByteMem) (addr n : Nat) : List UInt8 :=
  (((List.range n).map fun i => u32 (addr + i)).takeWhile (GuestRam.contains · 1)).map m

def gdbWriteMem (m : ByteMem) (addr : Nat) (src : List UInt8) : Option ByteMem :=
  if GuestRam.contains addr src.length then some (writeGuest m addr src) else none

/-- `(word & 0x3) != 0x3`. -/
def isCompressed (word : Nat) : Bool := word &&& 3 != 3

/-- `C.EBREAK` and `EBREAK`. -/
def ebreakCode (compressed : Bool) : List UInt8 :=
  if compressed then [0x02, 0x90] else [0x73, 0x00, 0x10, 0x00]

/-- No result stands for -1. -/
def gdbSetBp (c : GdbCpu) (addr : Nat) : Option GdbCpu :=
  if maxGdbBreaks ≤ c.bps.length then none
  else
    let orig := gdbReadMem c.mem addr 4
    if orig.length ≠ 4 then none
    else
      let origWord := leNat orig
      (gdbWriteMem c.mem addr (ebreakCode (isCompressed origWord))).map fun m =>
        ⟨m, c.bps ++ [⟨addr, origWord⟩]⟩

/-- What `gdb_clear_bp` writes back for a saved word. -/
def restoredBytes (w : Nat) : List UInt8 := (leBytes 4 w).take (if isCompressed w then 2 else 4)

def gdbClearBp (c : GdbCpu) (addr : Nat) : Option GdbCpu :=
  (c.bps.find? (·.addr == addr)).map fun e =>
    -- the result of the write is not looked at
    ⟨(gdbWriteMem c.mem addr (restoredBytes e.originalWord)).getD c.mem,
      c.bps.eraseP (·.addr == addr)⟩

end

/-! ## The stub -/

/-- Where the cart is stopped: at a breakpoint that the run loop saw before executing
it (`check_break`), at an `ebreak` that was executed inside a block, or anywhere else,
with the loop's `gdb_bp_resume_addr` (0 for none). -/
inductive GdbStop
  | paused (resumeAddr : Nat)
  | check (pc : Nat)
  | ebreak (pc : Nat)
  deriving DecidableEq, Repr

structure GdbState where
  cpu : GdbCpu
  /-- `breaks[0 .. n_breaks)` of the stub. -/
  breaks : List Nat
  stop : GdbStop

inductive GdbReply
  | ok
  | e01
  deriving DecidableEq, Repr

namespace GdbState

variable [GuestRam]

/-- `ops.set_breakpoint`, whose result the stub ignores. -/
def setBreakpoint (s : GdbState) (addr : Nat) : GdbState :=
  { s with cpu := (gdbSetBp s.cpu addr).getD s.cpu }

def clearBreakpoint (s : GdbState) (addr : Nat) : GdbState :=
  { s with cpu := (gdbClearBp s.cpu addr).getD s.cpu }

def handleZ0 (s : GdbState) (addr : Nat) : GdbReply × GdbState :=
  if maxBreaks ≤ s.breaks.length then (.e01, s)
  else (.ok, { s.setBreakpoint addr with breaks := s.breaks ++ [addr] })

def handlez0 (s : GdbState) (addr : Nat) : GdbReply × GdbState :=
  let kept := s.breaks.filter (· ≠ addr)
  (.ok, { (if s.breaks.length ≠ kept.length then s.clearBreakpoint addr else s)
    with breaks := kept })

def clearAllBreakpoints (s : GdbState) : GdbState :=
  { s.breaks.foldl clearBreakpoint s with breaks := [] }

def checkBreak (s : GdbState) (pc : Nat) : Bool := s.breaks.contains pc

def restoreBpTemp (s : GdbState) (addr : Nat) : GdbState := s.clearBreakpoint addr

def repatchBp (s : GdbState) (addr : Nat) : GdbState :=
  if s.breaks.contains addr then s.setBreakpoint addr else s

/-! ## The run loop -/

/-- The loop goes on to its next stop; a breakpoint stops it only if it is set. -/
def arrive (s : GdbState) (next : GdbStop) : GdbState :=
  { s with stop := match next with
      | .paused _ => .paused 0
      | .check pc => if s.checkBreak pc then .check pc else .paused 0
      | .ebreak pc => if s.checkBreak pc then .ebreak pc else .paused 0 }

/-- The instruction at the breakpoint has been restored: it is executed, and the
breakpoint patched again. An address of 0 means that there is none. -/
def stepOver (s : GdbState) (addr : Nat) : GdbState :=
  if addr ≠ 0 then s.repatchBp addr else s

/-- The client resumes the cart, which runs to `next`. -/
def resume (s : GdbState) (singleStep : Bool) (next : GdbStop) : GdbState :=
  match s.stop with
  | .paused addr => (s.stepOver addr).arrive next
  | .check pc => ((s.restoreBpTemp pc).stepOver pc).arrive next
  | .ebreak pc =>
    let s := s.restoreBpTemp pc
    -- a step pauses right here; nothing has been executed yet
    if singleStep then { s with stop := .paused pc }
    -- `gdb_bp_resume_addr` is 0, so the loop checks for the breakpoint once more
    else if pc = 0 ∧ s.checkBreak 0 then { s with stop := .check 0 }
    else (s.stepOver pc).arrive next

end GdbState

/-- The addresses of packets are numbers of any size, cast to 32 bits. -/
inductive GdbEvent
  | Z0 (n : Nat)
  | z0 (n : Nat)
  | detach
  | resume (singleStep : Bool) (next : GdbStop)
  deriving DecidableEq, Repr

def gdbStep [GuestRam] (s : GdbState) : GdbEvent → GdbState
  | .Z0 n => (s.handleZ0 (u32 n)).2
  | .z0 n => (s.handlez0 (u32 n)).2
  | .detach => s.clearAllBreakpoints
  | .resume singleStep next => s.resume singleStep next

/-- A client connects to a cart with this memory. -/
def gdbStart (m : ByteMem) : GdbState := ⟨⟨m, []⟩, [], .paused 0⟩

/-! ## Transparency -/

/-- The `ebreak` of the width of the original instruction at `b`. -/
def ebreakAt (orig : ByteMem) (b : Nat) : List UInt8 := ebreakCode (isCompressed (orig b).toNat)

/-- The byte at `x` belongs to a breakpoint at `b`. -/
def Covers (orig : ByteMem) (b x : Nat) : Prop := b ≤ x ∧ x < b + (ebreakAt orig b).length

instance (orig : ByteMem) (b x : Nat) : Decidable (Covers orig b x) :=
  inferInstanceAs (Decidable (_ ∧ _))

/-- Guest memory is the original one with an `ebreak` of the right width at exactly the
addresses that are set. -/
def Transparent (orig : ByteMem) (s : GdbState) : Prop :=
  (∀ b ∈ s.breaks, b < emuMemSize →
    readGuest s.cpu.mem b (ebreakAt orig b).length = ebreakAt orig b)
    ∧ ∀ x < emuMemSize, (∀ b ∈ s.breaks, ¬Covers orig b x) → s.cpu.mem x = orig x

/-- The original instructions at `a` and `b` do not overlap. -/
def BpApart (orig : ByteMem) (a b : Nat) : Prop :=
  a + (ebreakAt orig a).length ≤ b ∨ b + (ebreakAt orig b).length ≤ a

instance (orig : ByteMem) (a b : Nat) : Decidable (BpApart orig a b) :=
  inferInstanceAs (Decidable (_ ∨ _))

/-- A `Z0` that the stub takes names no address of guest memory, or one whose four bytes
are there, that no set breakpoint overlaps and that is not about to be stepped over. A
resume from a breakpoint that is still set is no single step if the breakpoint was
executed inside a block, and the breakpoint is not the one at address 0. -/
def GdbEvent.Safe (orig : ByteMem) (s : GdbState) : GdbEvent → Prop
  | .Z0 n => maxBreaks ≤ s.breaks.length ∨ emuMemSize ≤ u32 n
      ∨ (u32 n + 4 ≤ emuMemSize ∧ (s.stop = .paused (u32 n) → u32 n = 0)
        ∧ ∀ b ∈ s.breaks, b < emuMemSize → BpApart orig (u32 n) b)
  | .z0 _ | .detach => True
  | .resume singleStep _ => match s.stop with
    | .paused _ => True
    | .check pc => pc ∈ s.breaks → pc ≠ 0
    | .ebreak pc => pc ∈ s.breaks → pc < emuMemSize → pc ≠ 0 ∧ singleStep = false

instance (orig : ByteMem) (s : GdbState) (e : GdbEvent) : Decidable (e.Safe orig s) := by
  cases e with
  | Z0 n => exact inferInstanceAs (Decidable (_ ∨ _ ∨ _))
  | z0 n | detach => exact inferInstanceAs (Decidable True)
  | resume singleStep next =>
    unfold GdbEvent.Safe
    cases s.stop <;> infer_instance

/-- The original instruction at `b` is not itself an `ebreak`. -/
def NoEbreak (orig : ByteMem) (b : Nat) : Prop :=
  readGuest orig b (ebreakAt orig b).length ≠ ebreakAt orig b

/-- A range check as it is assumed to be. -/
instance : GuestRam := ⟨fun a n => decide (a + n ≤ emuMemSize), fun _ => decide_eq_true_iff⟩

end Blyt
