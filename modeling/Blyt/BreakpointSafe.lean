import Mathlib.Data.List.TakeWhile
import Blyt.Breakpoint

/-!
# When breakpoints are transparent

`Patched` describes the session for a set of breakpoints that lie in guest memory and
apart from each other: every saved word holds the original instruction. Setting and
clearing keep it, and so does every event that is `Safe`. An event that is not lets the
session save an `ebreak` as an original instruction, or leaves a set breakpoint without
one, and some safe events bring it to light (`Holds` says that none do).
-/

namespace Blyt

open List Option GdbState

/-! ## Instructions -/

theorem length_ebreakCode (c : Bool) : (ebreakCode c).length = if c then 2 else 4 := by
  cases c <;> rfl

theorem ebreakAt_pos (m : ByteMem) (a : Nat) : 0 < (ebreakAt m a).length := by
  rw [ebreakAt, length_ebreakCode]
  split <;> omega

theorem ebreakAt_le (m : ByteMem) (a : Nat) : (ebreakAt m a).length ≤ 4 := by
  rw [ebreakAt, length_ebreakCode]
  split <;> omega

theorem isCompressed_leNat (c : UInt8) (cs : List UInt8) :
    isCompressed (leNat (c :: cs)) = isCompressed c.toNat := by
  have hmod : ∀ w, w &&& 3 = w % 4 := fun w => Nat.and_two_pow_sub_one_eq_mod w 2
  rw [isCompressed, isCompressed, hmod, hmod, leNat]
  congr 1
  omega

theorem readGuest_take (m : ByteMem) (a : Nat) {k n : Nat} (h : k ≤ n) :
    (readGuest m a n).take k = readGuest m a k := by
  rw [readGuest, ← map_take, take_range, min_eq_left h, readGuest]

theorem writeGuest_readGuest (m orig : ByteMem) (a n x : Nat) :
    writeGuest m a (readGuest orig a n) x = if a ≤ x ∧ x < a + n then orig x else m x := by
  rw [writeGuest, length_readGuest]
  split
  next h =>
    obtain ⟨k, rfl⟩ := Nat.exists_eq_add_of_le h.1
    have hk : k < n := Nat.add_lt_add_iff_left.mp h.2
    simp [readGuest, hk]
  next => rfl

theorem isCompressed_read (m : ByteMem) (a : Nat) :
    isCompressed (leNat (readGuest m a 4)) = isCompressed (m a).toNat :=
  isCompressed_leNat (m a) _

/-- The word saved at `a` is written back with the width of the instruction read there. -/
theorem restoredBytes_read (m : ByteMem) (a : Nat) :
    restoredBytes (leNat (readGuest m a 4)) = readGuest m a (ebreakAt m a).length := by
  have hbytes : leBytes 4 (leNat (readGuest m a 4)) = readGuest m a 4 :=
    leBytes_leNat (readGuest m a 4)
  rw [restoredBytes, hbytes, isCompressed_read, ebreakAt, length_ebreakCode]
  exact readGuest_take m a (by split <;> omega)

theorem length_restoredBytes_le (w : Nat) : (restoredBytes w).length ≤ 4 := by
  rw [restoredBytes, length_take]
  exact min_le_right _ _

theorem length_restoredBytes_pos (w : Nat) : 0 < (restoredBytes w).length := by
  rw [restoredBytes, length_take, length_leBytes]
  split <;> decide

variable {orig m : ByteMem} {a b : Nat} {c : GdbCpu} {α : Type}

section

variable (h : readGuest m a (ebreakAt orig a).length = ebreakAt orig a)
include h

theorem first_of_patched : m a = (ebreakAt orig a).headD 0 := by
  rw [← h, readGuest, (Nat.sub_add_cancel (ebreakAt_pos orig a)).symm, range_succ_eq_map]
  rfl

/-- An `ebreak` is as wide as the instruction it stands for, also when it is read itself. -/
theorem ebreakAt_of_patched : ebreakAt m a = ebreakAt orig a := by
  rw [ebreakAt, first_of_patched h, ebreakAt]
  cases isCompressed (orig a).toNat <;> rfl

theorem restoredBytes_of_patched :
    restoredBytes (leNat (readGuest m a 4)) = ebreakAt orig a := by
  rw [restoredBytes_read, ebreakAt_of_patched h, h]

end

theorem ebreakAt_congr (h : m a = orig a) : ebreakAt m a = ebreakAt orig a := by
  rw [ebreakAt, h, ebreakAt]

/-- No memory holds two overlapping `ebreak`s. -/
theorem not_overlapping (hlt : a < b) (hin : b < a + (ebreakAt orig a).length)
    (ha : readGuest m a (ebreakAt orig a).length = ebreakAt orig a)
    (hb : readGuest m b (ebreakAt orig b).length = ebreakAt orig b) : False := by
  obtain ⟨k, rfl⟩ := Nat.exists_eq_add_of_lt hlt
  have hk : k + 1 < (ebreakAt orig a).length := by omega
  have hfirst : m (a + (k + 1)) = (ebreakAt orig (a + k + 1)).headD 0 := first_of_patched hb
  have hinner : (ebreakAt orig a)[k + 1]? = some (m (a + (k + 1))) := by
    rw [← ha]
    simp [readGuest, hk]
  rw [hfirst] at hinner
  -- the bytes of an `ebreak` after the first never start one
  unfold ebreakAt at hk hinner
  revert hk hinner
  generalize isCompressed (orig a).toNat = c
  generalize isCompressed (orig (a + k + 1)).toNat = c'
  intro hk hinner
  cases c <;> cases c' <;> simp only [ebreakCode] at hinner hk <;>
    (have : k = 0 ∨ k = 1 ∨ k = 2 := by simp at hk; omega) <;>
    rcases this with rfl | rfl | rfl <;> simp at hinner hk

/-! ## Setting and clearing one breakpoint -/

/-- The entries for one address, the oldest first. -/
def GdbCpu.savedFor (c : GdbCpu) (a : Nat) : List GdbBp := c.bps.filter (·.addr == a)

theorem filter_eraseP_self (p : α → Bool) (l : List α) :
    (l.eraseP p).filter p = (l.filter p).tail := by
  induction l with
  | nil => rfl
  | cons e l ih =>
    by_cases he : p e = true
    · rw [eraseP_cons_of_pos he, filter_cons_of_pos he, tail_cons]
    · rw [eraseP_cons_of_neg he, filter_cons_of_neg he, filter_cons_of_neg he, ih]

theorem filter_eraseP_other {p q : α → Bool} (h : ∀ e, p e = true → ¬q e = true)
    (l : List α) : (l.eraseP p).filter q = l.filter q := by
  induction l with
  | nil => rfl
  | cons e l ih =>
    by_cases he : p e = true
    · rw [eraseP_cons_of_pos he, filter_cons_of_neg (h e he)]
    · rw [eraseP_cons_of_neg he, filter_cons, filter_cons, ih]

theorem map_addr_eraseP (bps : List GdbBp) (a : Nat) :
    (bps.eraseP (·.addr == a)).map GdbBp.addr = (bps.map GdbBp.addr).erase a := by
  rw [erase_eq_eraseP, eraseP_map]
  congr 2
  funext e
  exact BEq.comm

section Setting

variable [GuestRam]

theorem contains_one {x : Nat} : GuestRam.contains x 1 = true ↔ x < emuMemSize :=
  GuestRam.contains_iff one_pos

theorem gdbReadMem_eq (m : ByteMem) (h : a + 4 ≤ emuMemSize) :
    gdbReadMem m a 4 = readGuest m a 4 := by
  have hsize : emuMemSize < 2 ^ 32 := by decide
  have hu : (range 4).map (fun i => u32 (a + i)) = (range 4).map (a + ·) := by
    refine map_congr_left fun i hi => u32_of_lt ?_
    have := mem_range.mp hi
    omega
  have hall : ((range 4).map (a + ·)).takeWhile (GuestRam.contains · 1)
      = (range 4).map (a + ·) := by
    refine takeWhile_eq_self_iff.mpr fun x hx => ?_
    obtain ⟨i, hi, rfl⟩ := List.mem_map.mp hx
    have := mem_range.mp hi
    exact contains_one.mpr (by omega)
  rw [gdbReadMem, hu, hall]
  rfl

theorem gdbReadMem_short (m : ByteMem) (ha : a < 2 ^ 32) (h : emuMemSize < a + 4) :
    (gdbReadMem m a 4).length ≠ 4 := by
  have hsize : emuMemSize + 4 < 2 ^ 32 := by decide
  intro hlen
  rw [gdbReadMem, length_map] at hlen
  have hself := ( List.takeWhile_prefix (GuestRam.contains · 1)).eq_of_length (by rw [hlen]; simp)
  have hin := takeWhile_eq_self_iff.mp hself
  have h0 := contains_one.mp (hin (u32 (a + 0)) (List.mem_map.mpr ⟨0, by decide, rfl⟩))
  have h3 := contains_one.mp (hin (u32 (a + 3)) (List.mem_map.mpr ⟨3, by decide, rfl⟩))
  rw [Nat.add_zero, u32_of_lt ha] at h0
  rw [u32_of_lt (by omega)] at h3
  omega

theorem gdbWriteMem_eq {m : ByteMem} {src : List UInt8} (h : a + 4 ≤ emuMemSize)
    (hpos : 0 < src.length) (hle : src.length ≤ 4) :
    gdbWriteMem m a src = some (writeGuest m a src) :=
  if_pos ((GuestRam.contains_iff hpos).mpr (by omega))

theorem gdbSetBp_eq (ha : a + 4 ≤ emuMemSize) (hroom : c.bps.length < maxGdbBreaks) :
    gdbSetBp c a = some ⟨writeGuest c.mem a (ebreakAt c.mem a),
      c.bps ++ [⟨a, leNat (readGuest c.mem a 4)⟩]⟩ := by
  have hwrite := gdbWriteMem_eq (m := c.mem) ha (ebreakAt_pos c.mem a) (ebreakAt_le c.mem a)
  rw [ebreakAt] at hwrite
  rw [gdbSetBp, if_neg (Nat.not_le.mpr hroom)]
  simp only [gdbReadMem_eq c.mem ha, length_readGuest, isCompressed_read]
  rw [if_neg (by decide), hwrite]
  rfl

theorem gdbSetBp_none (ha : a < 2 ^ 32) (h : emuMemSize < a + 4) : gdbSetBp c a = none := by
  rw [gdbSetBp]
  split
  · rfl
  · exact if_pos (gdbReadMem_short c.mem ha h)

theorem gdbClearBp_none (h : c.savedFor a = []) : gdbClearBp c a = none := by
  have hfind : c.bps.find? (·.addr == a) = none := by
    rw [← head?_filter]
    exact congrArg head? h
  rw [gdbClearBp, hfind]
  rfl

theorem gdbClearBp_eq {e : GdbBp} {es : List GdbBp}
    (ha : a + 4 ≤ emuMemSize) (h : c.savedFor a = e :: es) :
    gdbClearBp c a = some ⟨writeGuest c.mem a (restoredBytes e.originalWord),
      c.bps.eraseP (·.addr == a)⟩ := by
  have hfind : c.bps.find? (·.addr == a) = some e := by
    rw [← head?_filter]
    exact congrArg head? h
  rw [gdbClearBp, hfind, map_some, gdbWriteMem_eq ha (length_restoredBytes_pos _)
    (length_restoredBytes_le _), getD_some]

/-- Clearing takes the oldest entry of the address away, and no other. -/
theorem savedFor_clear (s : GdbState) (a b : Nat) :
    (s.clearBreakpoint b).cpu.savedFor a
      = if b = a then (s.cpu.savedFor a).tail else s.cpu.savedFor a := by
  have hbps : (s.clearBreakpoint b).cpu.bps = s.cpu.bps.eraseP (·.addr == b) := by
    rw [clearBreakpoint, gdbClearBp]
    cases hfind : s.cpu.bps.find? (·.addr == b) with
    | none =>
      refine (eraseP_of_forall_not fun e he => ?_).symm
      exact find?_eq_none.mp hfind e he
    | some => rfl
  rw [GdbCpu.savedFor, hbps]
  split
  next h =>
    subst h
    exact filter_eraseP_self _ _
  next h =>
    refine filter_eraseP_other (fun e he hea => h ?_) _
    exact (beq_iff_eq.mp he).symm.trans (beq_iff_eq.mp hea)

end Setting

/-! ## The session of a set of breakpoints -/

/-- The breakpoints `bs` are patched, and everything that is needed to undo it is saved. -/
structure Patched (orig : ByteMem) (bs : List Nat) (c : GdbCpu) : Prop where
  nodup : bs.Nodup
  inRam : ∀ b ∈ bs, b + 4 ≤ emuMemSize
  apart : ∀ b ∈ bs, ∀ b' ∈ bs, b ≠ b' → BpApart orig b b'
  table : (c.bps.map GdbBp.addr).Perm bs
  saved : ∀ e ∈ c.bps,
    restoredBytes e.originalWord = readGuest orig e.addr (ebreakAt orig e.addr).length
  patched : ∀ b ∈ bs, readGuest c.mem b (ebreakAt orig b).length = ebreakAt orig b
  other : ∀ x, (∀ b ∈ bs, ¬Covers orig b x) → c.mem x = orig x

section Session

variable {orig : ByteMem} {bs : List Nat} {c : GdbCpu} {a : Nat}

theorem patched_nil (orig : ByteMem) : Patched orig [] ⟨orig, []⟩ :=
  ⟨nodup_nil, nofun, nofun, .nil, nofun, nofun, fun _ _ => rfl⟩

theorem Patched.perm {bs' : List Nat} (h : Patched orig bs c) (hp : bs.Perm bs') :
    Patched orig bs' c where
  nodup := hp.nodup_iff.mp h.nodup
  inRam b hb := h.inRam b (hp.mem_iff.mpr hb)
  apart b hb b' hb' := h.apart b (hp.mem_iff.mpr hb) b' (hp.mem_iff.mpr hb')
  table := h.table.trans hp
  saved := h.saved
  patched b hb := h.patched b (hp.mem_iff.mpr hb)
  other x hx := h.other x fun b hb => hx b (hp.mem_iff.mp hb)

theorem Patched.length_bps (h : Patched orig bs c) : c.bps.length = bs.length := by
  rw [← h.table.length_eq, length_map]

variable {b : Nat}

theorem BpApart.symm (h : BpApart orig a b) : BpApart orig b a := Or.symm h

theorem BpApart.ne (h : BpApart orig a b) : a ≠ b := by
  have := ebreakAt_pos orig a
  have := ebreakAt_pos orig b
  rcases h with h | h <;> omega

theorem BpApart.not_covers {k : Nat} (h : BpApart orig a b) (hk : k < (ebreakAt orig a).length) :
    ¬Covers orig b (a + k) := by
  rintro ⟨h1, h2⟩
  rcases h with h | h <;> omega

section

variable (h : Patched orig bs c)
include h

/-- Where no breakpoint overlaps it, an instruction is the original one. -/
theorem Patched.original (hap : ∀ b ∈ bs, BpApart orig a b) :
    readGuest c.mem a (ebreakAt orig a).length = readGuest orig a (ebreakAt orig a).length :=
  readGuest_congr fun k hk => h.other (a + k) fun b hb => (hap b hb).not_covers hk

theorem Patched.set [GuestRam] (ha : a + 4 ≤ emuMemSize)
    (hroom : c.bps.length < maxGdbBreaks) (hap : ∀ b ∈ bs, BpApart orig a b) :
    ∃ c', gdbSetBp c a = some c' ∧ Patched orig (a :: bs) c' := by
  have hwidth : ebreakAt c.mem a = ebreakAt orig a :=
    ebreakAt_congr (h.other a fun b hb => (hap b hb).not_covers (ebreakAt_pos orig a))
  refine ⟨_, gdbSetBp_eq ha hroom, ?_⟩
  rw [hwidth]
  refine ⟨nodup_cons.mpr ⟨fun hmem => (hap a hmem).ne rfl, h.nodup⟩, ?_, ?_, ?_, ?_, ?_, ?_⟩
  · exact forall_mem_cons.mpr ⟨ha, h.inRam⟩
  · rintro b (_ | ⟨_, hb⟩) b' (_ | ⟨_, hb'⟩) hne
    · exact absurd rfl hne
    · exact hap b' hb'
    · exact (hap b hb).symm
    · exact h.apart b hb b' hb' hne
  · rw [map_append]
    exact perm_append_comm.trans (h.table.cons a)
  · refine forall_mem_append.mpr ⟨h.saved, forall_mem_singleton.mpr ?_⟩
    rw [restoredBytes_read, hwidth, h.original hap]
  · rintro b (_ | ⟨_, hb⟩)
    · exact readGuest_writeGuest _ _ _
    · rw [readGuest_writeGuest_apart (hap b hb), h.patched b hb]
  · intro x hx
    rw [forall_mem_cons] at hx
    exact (if_neg hx.1).trans (h.other x hx.2)

theorem Patched.savedFor_ne_nil (ha : a ∈ bs) :
    ∃ e es, c.savedFor a = e :: es ∧ e ∈ c.bps ∧ e.addr = a := by
  obtain ⟨e, he, hea⟩ := List.mem_map.mp (h.table.mem_iff.mpr ha)
  have hmem : e ∈ c.savedFor a := mem_filter.mpr ⟨he, beq_iff_eq.mpr hea⟩
  cases hs : c.savedFor a with
  | nil =>
    rw [hs] at hmem
    cases hmem
  | cons e' es =>
    have he' := hs ▸ mem_cons_self
    obtain ⟨hbps, haddr⟩ := mem_filter.mp he'
    exact ⟨e', es, rfl, hbps, beq_iff_eq.mp haddr⟩

theorem Patched.savedFor_nil (ha : a ∉ bs) : c.savedFor a = [] := by
  refine filter_eq_nil_iff.mpr fun e he hea => ha ?_
  exact h.table.mem_iff.mp (List.mem_map.mpr ⟨e, he, beq_iff_eq.mp hea⟩)

theorem Patched.clear [GuestRam] (ha : a ∈ bs) :
    ∃ c', gdbClearBp c a = some c' ∧ Patched orig (bs.erase a) c' := by
  obtain ⟨e, es, hsaved, he, hea⟩ := h.savedFor_ne_nil ha
  have hbytes := h.saved e he
  rw [hea] at hbytes
  refine ⟨_, gdbClearBp_eq (h.inRam a ha) hsaved, ?_⟩
  rw [hbytes]
  have hmem : ∀ {b}, b ∈ bs.erase a → b ∈ bs := mem_of_mem_erase
  have hne : ∀ {b}, b ∈ bs.erase a → b ≠ a := fun hb => (h.nodup.mem_erase_iff.mp hb).1
  refine ⟨h.nodup.erase a, fun b hb => h.inRam b (hmem hb),
    fun b hb b' hb' => h.apart b (hmem hb) b' (hmem hb'), ?_,
    fun e he => h.saved e (mem_of_mem_eraseP he), ?_, ?_⟩
  · rw [map_addr_eraseP]
    exact h.table.erase a
  · intro b hb
    have hap := h.apart b (hmem hb) a ha (hne hb)
    rw [readGuest_writeGuest_apart (by rw [length_readGuest]; exact hap.symm),
      h.patched b (hmem hb)]
  · intro x hx
    show writeGuest c.mem a _ x = _
    rw [writeGuest_readGuest]
    by_cases hcov : Covers orig a x
    · exact if_pos hcov
    · refine (if_neg hcov).trans (h.other x fun b hb => ?_)
      by_cases hba : b = a
      · rwa [hba]
      · exact hx b (h.nodup.mem_erase_iff.mpr ⟨hba, hb⟩)

end

end Session

/-! ## The stub -/

/-- The set breakpoints that lie in guest memory. -/
def GdbState.live (s : GdbState) : List Nat := s.breaks.filter (· < emuMemSize)

theorem GdbState.mem_live {s : GdbState} : b ∈ s.live ↔ b ∈ s.breaks ∧ b < emuMemSize := by
  rw [live, mem_filter, decide_eq_true_eq]

theorem GdbState.length_live (s : GdbState) : s.live.length ≤ s.breaks.length :=
  length_filter_le _ _

structure GdbInv (orig : ByteMem) (s : GdbState) : Prop where
  patched : Patched orig s.live s.cpu
  room : s.breaks.length ≤ maxBreaks
  addr32 : ∀ b ∈ s.breaks, b < 2 ^ 32
  /-- A breakpoint that waits to be stepped over is no longer set. -/
  resumed : ∀ a, s.stop = .paused a → a ≠ 0 → a ∈ s.breaks → emuMemSize ≤ a

theorem gdbStart_inv (m : ByteMem) : GdbInv m (gdbStart m) :=
  ⟨patched_nil m, Nat.zero_le _, nofun, nofun⟩

section Stub

variable {orig : ByteMem} {s : GdbState} {a : Nat}

theorem GdbInv.transparent (h : GdbInv orig s) : Transparent orig s := by
  refine ⟨fun b hb hlt => h.patched.patched b (mem_live.mpr ⟨hb, hlt⟩), fun x hx hun => ?_⟩
  exact h.patched.other x fun b hb => hun b (mem_live.mp hb).1

theorem GdbInv.bps_le (h : GdbInv orig s) : s.cpu.bps.length ≤ s.breaks.length := by
  rw [h.patched.length_bps]
  exact s.length_live

variable [GuestRam] {bs : List Nat} {e : GdbBp} {es : List GdbBp} {t : GdbState} {n : Nat}

theorem clearBreakpoint_absent (h : Patched orig bs s.cpu) (ha : a ∉ bs) :
    s.clearBreakpoint a = s := by
  rw [clearBreakpoint, gdbClearBp_none (h.savedFor_nil ha), getD_none]

theorem clearBreakpoint_patched (h : Patched orig bs s.cpu) :
    Patched orig (bs.erase a) (s.clearBreakpoint a).cpu := by
  by_cases ha : a ∈ bs
  · obtain ⟨c', hc', hp⟩ := h.clear ha
    rw [clearBreakpoint, hc']
    exact hp
  · rwa [clearBreakpoint_absent h ha, erase_of_not_mem ha]

theorem setBreakpoint_outside (h32 : a < 2 ^ 32) (ha : emuMemSize < a + 4) :
    s.setBreakpoint a = s := by
  rw [setBreakpoint, gdbSetBp_none h32 ha, getD_none]

theorem setBreakpoint_patched (h : Patched orig bs s.cpu)
    (ha : a + 4 ≤ emuMemSize) (hroom : s.cpu.bps.length < maxGdbBreaks)
    (hap : ∀ b ∈ bs, BpApart orig a b) : Patched orig (a :: bs) (s.setBreakpoint a).cpu := by
  obtain ⟨c', hc', hp⟩ := h.set ha hroom hap
  rw [setBreakpoint, hc']
  exact hp

/-! ## Events that keep the invariant -/

/-- Restoring a breakpoint and patching it again changes nothing but the table's order. -/
theorem GdbInv.stepOver (h : GdbInv orig s) (hpc : a ∈ s.breaks → a ≠ 0) :
    Patched orig s.live ((s.restoreBpTemp a).stepOver a).cpu := by
  have hclear := clearBreakpoint_patched (a := a) h.patched
  unfold GdbState.stepOver GdbState.repatchBp restoreBpTemp
  by_cases hset : a ∈ s.breaks
  · have hcont : (s.clearBreakpoint a).breaks.contains a = true := contains_iff_mem.mpr hset
    rw [if_pos (hpc hset), if_pos hcont]
    by_cases hlt : a < emuMemSize
    · have hlive : a ∈ s.live := mem_live.mpr ⟨hset, hlt⟩
      have hroom : (s.clearBreakpoint a).cpu.bps.length < maxGdbBreaks := by
        have hlen := length_erase_of_mem hlive
        have h1 := s.length_live
        have h2 := h.room
        rw [hclear.length_bps]
        unfold maxGdbBreaks
        unfold maxBreaks at h2
        omega
      have hp := setBreakpoint_patched hclear (h.patched.inRam a hlive) hroom fun b hb =>
        h.patched.apart a hlive b (mem_of_mem_erase hb) (h.patched.nodup.mem_erase_iff.mp hb).1.symm
      exact hp.perm (perm_cons_erase hlive).symm
    · have habsent : a ∉ s.live := fun hm => hlt (mem_live.mp hm).2
      rw [setBreakpoint_outside (h.addr32 a hset) (by omega),
        clearBreakpoint_absent h.patched habsent]
      exact h.patched
  · have habsent : a ∉ s.live := fun hm => hset (mem_live.mp hm).1
    rw [clearBreakpoint_absent h.patched habsent]
    have hcont : ¬s.breaks.contains a = true := fun hc => hset (contains_iff_mem.mp hc)
    rw [if_neg hcont, ite_self]
    exact h.patched

theorem GdbState.stepOver_breaks (s : GdbState) (a : Nat) : (s.stepOver a).breaks = s.breaks := by
  unfold stepOver repatchBp
  split
  · split <;> rfl
  · rfl

omit [GuestRam] in
theorem GdbInv.arrive (hp : Patched orig s.live s.cpu) (hroom : s.breaks.length ≤ maxBreaks)
    (h32 : ∀ b ∈ s.breaks, b < 2 ^ 32) (next : GdbStop) : GdbInv orig (s.arrive next) := by
  refine ⟨hp, hroom, h32, fun a hstop hne => absurd ?_ hne⟩
  unfold GdbState.arrive at hstop
  cases next with
  | paused => exact (GdbStop.paused.inj hstop).symm
  | check pc | ebreak pc =>
    simp only at hstop
    split at hstop
    · cases hstop
    · exact (GdbStop.paused.inj hstop).symm

theorem GdbInv.stepOver_arrive (h : GdbInv orig s) (hpc : a ∈ s.breaks → a ≠ 0) (next : GdbStop) :
    GdbInv orig (((s.restoreBpTemp a).stepOver a).arrive next) := by
  have hbreaks : ((s.restoreBpTemp a).stepOver a).breaks = s.breaks :=
    stepOver_breaks _ _
  have hlive : ((s.restoreBpTemp a).stepOver a).live = s.live := by
    rw [GdbState.live, hbreaks, GdbState.live]
  refine GdbInv.arrive ?_ (hbreaks ▸ h.room) (hbreaks ▸ h.addr32) next
  rw [hlive]
  exact h.stepOver hpc

/-- What waits to be stepped over is not set, so it is not patched again. -/
theorem GdbInv.stepOver_paused (h : GdbInv orig s) (hstop : s.stop = .paused a) :
    s.stepOver a = s := by
  unfold GdbState.stepOver GdbState.repatchBp
  split_ifs with hne hset
  · have hmem := contains_iff_mem.mp hset
    have hout := h.resumed a hstop hne hmem
    exact setBreakpoint_outside (h.addr32 a hmem) (by omega)
  · rfl
  · rfl

theorem GdbInv.Z0 (h : GdbInv orig s) (n : Nat) (hsafe : (GdbEvent.Z0 n).Safe orig s) :
    GdbInv orig (gdbStep s (.Z0 n)) := by
  show GdbInv orig (s.handleZ0 (u32 n)).2
  have h32 := u32_lt n
  unfold handleZ0
  split
  · exact h
  next hfull =>
    rw [Nat.not_le] at hfull
    have haddr : ∀ b ∈ s.breaks ++ [u32 n], b < 2 ^ 32 :=
      forall_mem_append.mpr ⟨h.addr32, forall_mem_singleton.mpr h32⟩
    have hlen : (s.breaks ++ [u32 n]).length ≤ maxBreaks := by
      rw [length_append]
      exact hfull
    have hlive : ∀ t : GdbState, { t with breaks := s.breaks ++ [u32 n] }.live
        = s.live ++ [u32 n].filter (· < emuMemSize) := fun _ => filter_append _ _
    rcases hsafe with hs | hout | ⟨hin, hstop, hap⟩
    · exact absurd hs (Nat.not_le.mpr hfull)
    · -- the session refuses the address
      rw [setBreakpoint_outside h32 (by omega)]
      refine ⟨?_, hlen, haddr, fun a hst hne ha => ?_⟩
      · rw [hlive, filter_cons_of_neg (by simpa using hout), filter_nil, append_nil]
        exact h.patched
      · rcases mem_append.mp ha with ha | ha
        · exact h.resumed a hst hne ha
        · rwa [mem_singleton.mp ha]
    · have hlt : u32 n < emuMemSize := by omega
      have hroom := lt_of_le_of_lt h.bps_le hfull
      refine ⟨?_, hlen, haddr, fun a hst hne ha => ?_⟩
      · rw [hlive, filter_cons_of_pos (by simpa using hlt)]
        refine (setBreakpoint_patched h.patched hin hroom fun b hb => ?_).perm
          (perm_append_singleton (u32 n) s.live).symm
        exact hap b (mem_live.mp hb).1 (mem_live.mp hb).2
      · rcases mem_append.mp ha with ha | ha
        · exact h.resumed a hst hne ha
        · rw [mem_singleton.mp ha] at hst hne
          exact absurd (hstop hst) hne

omit [GuestRam] in
theorem GdbState.live_filter (s : GdbState) (hp : s.live.Nodup) :
    { s with breaks := s.breaks.filter (· ≠ a) }.live = s.live.erase a := by
  rw [hp.erase_eq_filter, live, live, List.filter_filter, List.filter_filter]
  refine filter_congr fun b _ => ?_
  rw [Bool.and_comm]
  exact congrArg (· && _) (Bool.eq_iff_iff.mpr (by simp))

theorem GdbInv.z0 (h : GdbInv orig s) (n : Nat) : GdbInv orig (gdbStep s (.z0 n)) := by
  show GdbInv orig (s.handlez0 (u32 n)).2
  have hlive := s.live_filter (a := u32 n) h.patched.nodup
  refine ⟨?_, ?_, fun b hb => h.addr32 b (mem_of_mem_filter hb), fun a hst hne ha => ?_⟩
  · rw [GdbState.live] at hlive
    rw [GdbState.live, handlez0, hlive]
    split
    · exact clearBreakpoint_patched h.patched
    next hsame =>
      -- the address is not set, so there is nothing to clear
      rw [not_not] at hsame
      have hall := length_filter_eq_length_iff.mp hsame.symm
      have habsent : u32 n ∉ s.live := fun hm =>
        of_decide_eq_true (hall _ (mem_live.mp hm).1) rfl
      rw [erase_of_not_mem habsent]
      exact h.patched
  · exact le_trans (length_filter_le _ _) h.room
  · refine h.resumed a ?_ hne (mem_of_mem_filter ha)
    rw [← hst, handlez0]
    split <;> rfl

theorem foldl_clear_patched (bs : List Nat) (s : GdbState)
    (h : Patched orig (bs.filter (· < emuMemSize)) s.cpu) :
    Patched orig [] (bs.foldl clearBreakpoint s).cpu := by
  induction bs generalizing s with
  | nil => exact h
  | cons b bs ih =>
    refine ih _ ?_
    by_cases hb : b < emuMemSize
    · rw [filter_cons_of_pos (by simpa using hb)] at h
      have hp := clearBreakpoint_patched (a := b) h
      rwa [erase_cons_head] at hp
    · rw [filter_cons_of_neg (by simpa using hb)] at h
      rwa [clearBreakpoint_absent h]
      intro hm
      exact hb (of_decide_eq_true (mem_filter.mp hm).2)

theorem GdbInv.detach (h : GdbInv orig s) : GdbInv orig (gdbStep s .detach) :=
  ⟨foldl_clear_patched s.breaks s h.patched, Nat.zero_le _, nofun, nofun⟩

theorem GdbInv.step (h : GdbInv orig s) (e : GdbEvent) (hsafe : e.Safe orig s) :
    GdbInv orig (gdbStep s e) := by
  cases e with
  | Z0 n => exact h.Z0 n hsafe
  | z0 n => exact h.z0 n
  | detach => exact h.detach
  | resume singleStep next =>
    show GdbInv orig (s.resume singleStep next)
    simp only [GdbEvent.Safe] at hsafe
    unfold GdbState.resume
    cases hstop : s.stop with
    | paused a =>
      show GdbInv orig ((s.stepOver a).arrive next)
      rw [h.stepOver_paused hstop]
      exact GdbInv.arrive h.patched h.room h.addr32 next
    | check =>
      rw [hstop] at hsafe
      exact h.stepOver_arrive hsafe next
    | ebreak pc =>
      rw [hstop] at hsafe
      simp only
      split
      next hstep =>
        have hout : pc ∈ s.breaks → emuMemSize ≤ pc := fun hset =>
          Nat.not_lt.mp fun hlt => Bool.noConfusion (hstep.symm.trans (hsafe hset hlt).2)
        have habsent : pc ∉ s.live := fun hm =>
          Nat.not_lt.mpr (hout (mem_live.mp hm).1) (mem_live.mp hm).2
        rw [restoreBpTemp, clearBreakpoint_absent h.patched habsent]
        refine ⟨h.patched, h.room, h.addr32, fun a hst _ ha => ?_⟩
        cases hst
        exact hout ha
      next =>
        split
        next hzero =>
          have hset : pc ∈ s.breaks := hzero.1 ▸ contains_iff_mem.mp hzero.2
          exact absurd hzero.1 (hsafe hset (hzero.1 ▸ by decide)).1
        next hzero =>
          refine h.stepOver_arrive (fun hset hpc => hzero ⟨hpc, ?_⟩) next
          exact contains_iff_mem.mpr (hpc ▸ hset)

/-! ## Events that break it -/

/-- Every event is safe in the state before it. -/
def SafeRun (orig : ByteMem) : GdbState → List GdbEvent → Prop :=
  AdmRun (fun s e => some (gdbStep s e)) fun s e => e.Safe orig s

/-- Memory is transparent now and after all safe events that follow. -/
def Holds (orig : ByteMem) (s : GdbState) : Prop :=
  ∀ es, SafeRun orig s es → Transparent orig (es.foldl gdbStep s)

theorem SafeRun.cons {e : GdbEvent} {es : List GdbEvent} (he : e.Safe orig s)
    (h : SafeRun orig (gdbStep s e) es) : SafeRun orig s (e :: es) :=
  ⟨he, fun _ hs => some.inj hs ▸ h⟩

theorem GdbInv.holds (h : GdbInv orig s) : Holds orig s := by
  intro es hes
  induction es generalizing s with
  | nil => exact h.transparent
  | cons e es ih => exact ih (h.step e hes.1) (hes.2 _ rfl)

theorem Holds.now (h : Holds orig s) : Transparent orig s := h [] trivial

theorem Holds.after (h : Holds orig s) {e : GdbEvent} (hsafe : e.Safe orig s) :
    Holds orig (gdbStep s e) :=
  fun es hes => h (e :: es) (.cons hsafe hes)

theorem savedFor_set (ha : a + 4 ≤ emuMemSize) (hroom : s.cpu.bps.length < maxGdbBreaks) :
    (s.setBreakpoint a).cpu.savedFor a
      = s.cpu.savedFor a ++ [⟨a, leNat (readGuest s.cpu.mem a 4)⟩] := by
  rw [setBreakpoint, gdbSetBp_eq ha hroom, getD_some, GdbCpu.savedFor, filter_append]
  exact congrArg _ (filter_eq_self.mpr (by simp))

theorem mem_clear (ha : a + 4 ≤ emuMemSize) (h : s.cpu.savedFor a = e :: es) :
    (s.clearBreakpoint a).cpu.mem = writeGuest s.cpu.mem a (restoredBytes e.originalWord) := by
  rw [clearBreakpoint, gdbClearBp_eq ha h, getD_some]

theorem savedFor_foldl_clear (bs : List Nat) (s : GdbState) (a : Nat) :
    (bs.foldl clearBreakpoint s).cpu.savedFor a = (s.cpu.savedFor a).drop (bs.count a) := by
  induction bs generalizing s with
  | nil => rfl
  | cons b bs ih =>
    rw [foldl_cons, ih, savedFor_clear]
    split
    next h => rw [h, count_cons_self, drop_tail]
    next h => rw [count_cons_of_ne h]

omit [GuestRam] in
theorem Patched.length_savedFor {c : GdbCpu} (h : Patched orig bs c) (a : Nat) :
    (c.savedFor a).length = bs.count a := by
  rw [GdbCpu.savedFor, ← countP_eq_length_filter, ← h.table.count_eq a, List.count, countP_map]
  rfl

omit [GuestRam] in
/-- An `ebreak` in the place of an instruction without a breakpoint. -/
theorem not_transparent_of_written {m : ByteMem} (hno : NoEbreak orig a)
    (ha : a + 4 ≤ emuMemSize) (hmem : s.cpu.mem = writeGuest m a (ebreakAt orig a))
    (hap : ∀ b ∈ s.breaks, b < emuMemSize → BpApart orig a b) : ¬Transparent orig s := by
  intro ht
  have hle := ebreakAt_le orig a
  have horig : readGuest s.cpu.mem a (ebreakAt orig a).length
      = readGuest orig a (ebreakAt orig a).length := by
    refine readGuest_congr fun k hk => ht.2 (a + k) (by omega) fun b hb hcov => ?_
    exact (hap b hb (lt_of_le_of_lt hcov.1 (by omega))).not_covers hk hcov
  rw [hmem, readGuest_writeGuest] at horig
  exact hno horig.symm

/-- A breakpoint that is set and not patched. -/
theorem not_transparent_of_cleared (h : GdbInv orig s) (hno : NoEbreak orig a) (ha : a ∈ s.live)
    (hbreaks : t.breaks = s.breaks) (hcpu : t.cpu = (s.clearBreakpoint a).cpu) :
    ¬Transparent orig t := by
  intro ht
  have hp := clearBreakpoint_patched (a := a) h.patched
  have horig := hp.original fun b hb => h.patched.apart a ha b (mem_of_mem_erase hb)
    (h.patched.nodup.mem_erase_iff.mp hb).1.symm
  obtain ⟨hset, hlt⟩ := mem_live.mp ha
  have hebreak := ht.1 a (hbreaks ▸ hset) hlt
  rw [hcpu] at hebreak
  exact hno (horig.symm.trans hebreak)

/-- The session saves an `ebreak` for a breakpoint that is set twice, and the client's
detach writes it back last. -/
theorem not_holds_of_twice (h : GdbInv orig s) (hno : NoEbreak orig a) (ha : a ∈ s.live)
    (hfull : s.breaks.length < maxBreaks) (hbreaks : t.breaks = s.breaks ++ [a])
    (hcpu : t.cpu = (s.setBreakpoint a).cpu) : ¬Holds orig t := by
  intro hh
  have hin := h.patched.inRam a ha
  have hroom := lt_of_le_of_lt h.bps_le hfull
  have hlt := (mem_live.mp ha).2
  have hone := count_eq_one_of_mem h.patched.nodup ha
  have hcount : s.breaks.count a = 1 := by
    rwa [GdbState.live, count_filter (by simpa using hlt)] at hone
  obtain ⟨e, he⟩ := length_eq_one_iff.mp ((h.patched.length_savedFor a).trans hone)
  have hsaved : (s.breaks.foldl clearBreakpoint t).cpu.savedFor a
      = [⟨a, leNat (readGuest s.cpu.mem a 4)⟩] := by
    rw [savedFor_foldl_clear, hcount, hcpu, savedFor_set hin hroom, he]
    rfl
  have hbytes := restoredBytes_of_patched (h.patched.patched a ha)
  have hmem : (gdbStep t .detach).cpu.mem
      = writeGuest (s.breaks.foldl clearBreakpoint t).cpu.mem a (ebreakAt orig a) := by
    show (t.breaks.foldl clearBreakpoint t).cpu.mem = _
    rw [hbreaks, foldl_append, foldl_cons, foldl_nil, mem_clear hin hsaved, hbytes]
  have hdetached := (hh.after (e := .detach) trivial).now
  exact not_transparent_of_written hno hin hmem (fun b (hb : b ∈ []) => nomatch hb) hdetached

omit [GuestRam] in
theorem arrive_check (ha : a ∈ s.breaks) : s.arrive (.check a) = { s with stop := .check a } := by
  have hcheck : s.checkBreak a = true := contains_iff_mem.mpr ha
  simp only [GdbState.arrive, hcheck, if_true]

theorem stepOver_set (hne : a ≠ 0) (ha : a ∈ s.breaks) : s.stepOver a = s.setBreakpoint a := by
  rw [GdbState.stepOver, if_pos hne, GdbState.repatchBp, if_pos (contains_iff_mem.mpr ha)]

theorem z0_eq (hn : u32 n = a) (hset : a ∈ s.breaks) : gdbStep s (.z0 n)
    = { s.clearBreakpoint a with breaks := s.breaks.filter (· ≠ a) } := by
  have hkept : s.breaks.length ≠ (s.breaks.filter (· ≠ a)).length := fun hlen =>
    of_decide_eq_true (length_filter_eq_length_iff.mp hlen.symm a hset) rfl
  show (s.handlez0 (u32 n)).2 = _
  rw [hn, handlez0]
  rw [if_pos hkept]

/-- The word to write back is an `ebreak`. -/
theorem not_holds_of_stale (hn : u32 n = a)
    (hno : NoEbreak orig a) (ha : a + 4 ≤ emuMemSize) (hset : a ∈ s.breaks)
    (hsaved : s.cpu.savedFor a = e :: es) (he : restoredBytes e.originalWord = ebreakAt orig a)
    (hap : ∀ b ∈ s.breaks, b ≠ a → b < emuMemSize → BpApart orig a b) : ¬Holds orig s := by
  intro hh
  have ht := (hh.after (e := .z0 n) trivial).now
  rw [z0_eq hn hset] at ht
  have hmem := mem_clear ha hsaved
  rw [he] at hmem
  refine not_transparent_of_written (s := { s.clearBreakpoint a with
    breaks := s.breaks.filter (· ≠ a) }) hno ha hmem (fun b hb => ?_) ht
  obtain ⟨hb, hba⟩ := mem_filter.mp hb
  exact hap b hb (of_decide_eq_true hba)

theorem length_bps_clear (hsaved : s.cpu.savedFor a = e :: es) (ha : a + 4 ≤ emuMemSize) :
    (s.clearBreakpoint a).cpu.bps.length = s.cpu.bps.length - 1 := by
  have hmem := hsaved ▸ mem_cons_self
  obtain ⟨he, hea⟩ := mem_filter.mp hmem
  rw [clearBreakpoint, gdbClearBp_eq ha hsaved]
  exact length_eraseP_of_mem he hea

/-- A breakpoint that is set while it waits to be stepped over is patched twice; the
next step over it leaves the `ebreak` as the word to write back. -/
theorem not_holds_of_waiting (hn : u32 n = a) (hno : NoEbreak orig a)
    (ha : a + 4 ≤ emuMemSize) (hne : a ≠ 0) (hstop : s.stop = .paused a) (hset : a ∈ s.breaks)
    (hroom : s.cpu.bps.length < maxGdbBreaks) (hsaved : s.cpu.savedFor a = [e])
    (hap : ∀ b ∈ s.breaks, b ≠ a → b < emuMemSize → BpApart orig a b) : ¬Holds orig s := by
  intro hh
  have hbytes := restoredBytes_of_patched (hh.now.1 a hset (by omega))
  -- the cart runs into the breakpoint, which has been patched once more
  obtain ⟨t, ht⟩ : ∃ t, t = ({ s.setBreakpoint a with stop := .check a } : GdbState) := ⟨_, rfl⟩
  have htset : a ∈ t.breaks := by rw [ht]; exact hset
  have h1 : gdbStep s (.resume false (.check a)) = t := by
    show s.resume false (.check a) = _
    simp only [GdbState.resume, hstop]
    rw [stepOver_set hne hset, ht]
    exact arrive_check hset
  have hh1 := hh.after (e := .resume false (.check a)) (by simp only [GdbEvent.Safe, hstop])
  rw [h1] at hh1
  have hsaved1 : t.cpu.savedFor a = [e, ⟨a, leNat (readGuest s.cpu.mem a 4)⟩] := by
    rw [ht]
    rw [savedFor_set ha hroom, hsaved]
    rfl
  -- it is stepped over, and the cart runs into it again
  have h2 : gdbStep t (.resume false (.check a))
      = { (t.clearBreakpoint a).setBreakpoint a with stop := .check a } := by
    have hts : t.stop = .check a := by rw [ht]
    show t.resume false (.check a) = _
    simp only [GdbState.resume, hts, restoreBpTemp]
    rw [stepOver_set (s := t.clearBreakpoint a) hne htset]
    exact arrive_check htset
  have hh2 := hh1.after (e := .resume false (.check a)) (by
    simp only [GdbEvent.Safe, ht]
    exact fun _ => hne)
  rw [h2] at hh2
  have hroom2 : (t.clearBreakpoint a).cpu.bps.length < maxGdbBreaks := by
    rw [length_bps_clear hsaved1 ha, ht]
    rw [setBreakpoint, gdbSetBp_eq ha hroom, getD_some, length_append]
    exact hroom
  have hsaved2 : ((t.clearBreakpoint a).setBreakpoint a).cpu.savedFor a
      = ⟨a, leNat (readGuest s.cpu.mem a 4)⟩
        :: [⟨a, leNat (readGuest (t.clearBreakpoint a).cpu.mem a 4)⟩] := by
    rw [savedFor_set ha hroom2, savedFor_clear, if_pos rfl, hsaved1]
    rfl
  have hap2 : ∀ b ∈ t.breaks, b ≠ a → b < emuMemSize → BpApart orig a b := by
    rw [ht]
    exact hap
  exact not_holds_of_stale (s := { (t.clearBreakpoint a).setBreakpoint a with stop := .check a })
    hn hno ha htset hsaved2 hbytes hap2 hh2

/-- The same where the session's table is full: a breakpoint is removed first. -/
theorem not_holds_of_waiting_full {b : Nat} (hn : u32 n = a) (hno : NoEbreak orig a)
    (ha : a + 4 ≤ emuMemSize) (hne : a ≠ 0) (hstop : s.stop = .paused a) (hset : a ∈ s.breaks)
    (hroom : s.cpu.bps.length ≤ maxGdbBreaks) (hsaved : s.cpu.savedFor a = [e])
    (hap : ∀ b ∈ s.breaks, b ≠ a → b < emuMemSize → BpApart orig a b) (hb : b ∈ s.breaks)
    (hba : b ≠ a) (hb4 : b + 4 ≤ emuMemSize) (hsb : s.cpu.savedFor b ≠ []) : ¬Holds orig s := by
  intro hh
  have hsize : emuMemSize < 2 ^ 32 := by decide
  obtain ⟨e', es', hsb⟩ := exists_cons_of_ne_nil hsb
  have hh1 := hh.after (e := .z0 b) trivial
  rw [z0_eq (u32_of_lt (by omega)) hb] at hh1
  have hkeep : a ∈ s.breaks.filter (· ≠ b) := mem_filter.mpr ⟨hset, decide_eq_true hba.symm⟩
  have hroom1 : (s.clearBreakpoint b).cpu.bps.length < maxGdbBreaks := by
    rw [length_bps_clear hsb hb4]
    unfold maxGdbBreaks at hroom ⊢
    omega
  have hsaved1 : (s.clearBreakpoint b).cpu.savedFor a = [e] := by
    rw [savedFor_clear, if_neg hba, hsaved]
  exact not_holds_of_waiting (s := { s.clearBreakpoint b with breaks := s.breaks.filter (· ≠ b) })
    hn hno ha hne hstop hkeep hroom1 hsaved1
    (fun b' hb' => hap b' (mem_of_mem_filter hb')) hh1

/-! ## Exactly the safe events -/

theorem safe_Z0_of_holds (h : GdbInv orig s) (hno : NoEbreak orig (u32 n))
    (hh : Holds orig (gdbStep s (.Z0 n))) : (GdbEvent.Z0 n).Safe orig s := by
  by_cases hfull : maxBreaks ≤ s.breaks.length
  · exact .inl hfull
  by_cases hout : emuMemSize ≤ u32 n
  · exact .inr (.inl hout)
  rw [Nat.not_le] at hfull hout
  have hroom := lt_of_le_of_lt h.bps_le hfull
  have hstep : gdbStep s (.Z0 n)
      = { s.setBreakpoint (u32 n) with breaks := s.breaks ++ [u32 n] } := by
    show (s.handleZ0 (u32 n)).2 = _
    rw [handleZ0, if_neg (Nat.not_le.mpr hfull)]
  rw [hstep] at hh
  have hset : u32 n ∈ s.breaks ++ [u32 n] := mem_append_right _ mem_cons_self
  have hmine := hh.now.1 (u32 n) hset hout
  -- two overlapping breakpoints are never both in memory
  have hap : ∀ b ∈ s.breaks, b ≠ u32 n → b < emuMemSize → BpApart orig (u32 n) b := by
    intro b hb hne hlt
    have hother := hh.now.1 b (mem_append_left _ hb) hlt
    by_contra hover
    rw [BpApart, not_or, Nat.not_le, Nat.not_le] at hover
    rcases Nat.lt_or_gt_of_ne hne with hba | hab
    · exact not_overlapping hba hover.2 hother hmine
    · exact not_overlapping hab hover.1 hmine hother
  have haplive : u32 n ∉ s.live → ∀ b ∈ s.live, BpApart orig (u32 n) b := fun hnew b hb =>
    hap b (mem_live.mp hb).1 (fun heq => hnew (heq ▸ hb)) (mem_live.mp hb).2
  have hin : u32 n + 4 ≤ emuMemSize := by
    by_contra hshort
    have horig := h.patched.original (haplive fun hm => hshort (h.patched.inRam _ hm))
    rw [setBreakpoint_outside (u32_lt n) (by omega)] at hmine
    exact hno (horig.symm.trans hmine)
  have hnew : u32 n ∉ s.live := fun hm => not_holds_of_twice h hno hm hfull
    (t := { s.setBreakpoint (u32 n) with breaks := s.breaks ++ [u32 n] }) rfl rfl hh
  refine .inr (.inr ⟨hin, fun hstop => ?_, fun b hb hlt => hap b hb (fun heq => ?_) hlt⟩)
  · by_contra hne
    have hsaved : (s.setBreakpoint (u32 n)).cpu.savedFor (u32 n)
        = [⟨u32 n, leNat (readGuest s.cpu.mem (u32 n) 4)⟩] := by
      rw [savedFor_set hin hroom, h.patched.savedFor_nil hnew, nil_append]
    have hp := setBreakpoint_patched h.patched hin hroom (haplive hnew)
    have hap' : ∀ b ∈ s.breaks ++ [u32 n], b ≠ u32 n → b < emuMemSize →
        BpApart orig (u32 n) b :=
      forall_mem_append.mpr ⟨hap, forall_mem_singleton.mpr fun hne => absurd rfl hne⟩
    by_cases hlast : (s.setBreakpoint (u32 n)).cpu.bps.length < maxGdbBreaks
    · exact not_holds_of_waiting (s := { s.setBreakpoint (u32 n) with
        breaks := s.breaks ++ [u32 n] }) rfl hno hin hne hstop hset hlast hsaved hap' hh
    · rw [hp.length_bps, length_cons] at hlast
      obtain ⟨b, hb⟩ := exists_mem_of_length_pos (l := s.live) (by
        unfold maxGdbBreaks at hlast
        omega)
      have hle : (s.setBreakpoint (u32 n)).cpu.bps.length ≤ maxGdbBreaks := by
        rw [hp.length_bps, length_cons, ← h.patched.length_bps]
        exact hroom
      obtain ⟨e', es', hsb, -, -⟩ := hp.savedFor_ne_nil (mem_cons_of_mem _ hb)
      exact not_holds_of_waiting_full (s := { s.setBreakpoint (u32 n) with
        breaks := s.breaks ++ [u32 n] }) rfl hno hin hne hstop hset hle hsaved hap'
        (mem_append_left _ (mem_live.mp hb).1) (fun heq => hnew (heq ▸ hb))
        (h.patched.inRam b hb) (by rw [hsb]; exact cons_ne_nil _ _) hh
  · exact hnew (mem_live.mpr ⟨heq ▸ hb, hout⟩)

theorem safe_of_holds (h : GdbInv orig s) (hno : ∀ b ∈ s.breaks, NoEbreak orig b) {e : GdbEvent}
    (hnew : ∀ n, e = .Z0 n → NoEbreak orig (u32 n)) (hh : Holds orig (gdbStep s e)) :
    e.Safe orig s := by
  cases e with
  | Z0 n => exact safe_Z0_of_holds h (hnew n rfl) hh
  | z0 => trivial
  | detach => trivial
  | resume singleStep next =>
    have hcleared : ∀ {pc}, pc ∈ s.breaks → pc < emuMemSize →
        (s.resume singleStep next).breaks = s.breaks →
        (s.resume singleStep next).cpu ≠ (s.clearBreakpoint pc).cpu := fun hset hlt hbreaks hcpu =>
      not_transparent_of_cleared h (hno _ hset) (mem_live.mpr ⟨hset, hlt⟩) hbreaks hcpu hh.now
    simp only [GdbEvent.Safe]
    cases hstop : s.stop with
    | paused => trivial
    | check =>
      rintro hset rfl
      -- address 0 stands for no breakpoint, so it is not patched again
      refine hcleared hset (by decide) ?_ ?_ <;>
        simp only [GdbState.resume, hstop, GdbState.stepOver, ne_eq, not_true, if_false] <;> rfl
    | ebreak pc =>
      intro hset hlt
      by_contra hbad
      cases singleStep with
      | true =>
        refine hcleared hset hlt ?_ ?_ <;> simp only [GdbState.resume, hstop, if_true] <;> rfl
      | false =>
        obtain rfl : pc = 0 := by_contra fun hne => hbad ⟨hne, rfl⟩
        have hcheck : (s.restoreBpTemp 0).checkBreak 0 = true := contains_iff_mem.mpr hset
        refine hcleared hset hlt ?_ ?_ <;>
          simp only [GdbState.resume, hstop, hcheck, and_self, if_true, Bool.false_eq_true,
            if_false] <;> rfl

theorem NoEbreak.step (hno : ∀ b ∈ s.breaks, NoEbreak orig b) {e : GdbEvent}
    (hnew : ∀ n, e = .Z0 n → NoEbreak orig (u32 n)) :
    ∀ b ∈ (gdbStep s e).breaks, NoEbreak orig b := by
  cases e with
  | Z0 n =>
    simp only [gdbStep, handleZ0]
    split
    · exact hno
    · exact forall_mem_append.mpr ⟨hno, forall_mem_singleton.mpr (hnew n rfl)⟩
  | z0 => exact fun b hb => hno b (mem_of_mem_filter hb)
  | detach => exact nofun
  | resume singleStep next =>
    have hbreaks : (s.resume singleStep next).breaks = s.breaks := by
      unfold GdbState.resume
      split
      · exact stepOver_breaks _ _
      · exact stepOver_breaks _ _
      · simp only
        split_ifs
        · rfl
        · rfl
        · exact stepOver_breaks _ _
    exact hbreaks ▸ hno

theorem exists_fault {es : List GdbEvent} (h : GdbInv orig s)
    (hno : ∀ b ∈ s.breaks, NoEbreak orig b) (hnew : ∀ n, .Z0 n ∈ es → NoEbreak orig (u32 n))
    (hbad : ¬SafeRun orig s es) : ∃ pre e tail, pre ++ [e] <+: es ∧ SafeRun orig s pre
      ∧ SafeRun orig ((pre ++ [e]).foldl gdbStep s) tail
      ∧ ¬Transparent orig ((pre ++ [e] ++ tail).foldl gdbStep s) := by
  induction es generalizing s with
  | nil => exact absurd trivial hbad
  | cons e es ih =>
    have hz : ∀ n, e = .Z0 n → NoEbreak orig (u32 n) := fun n he => hnew n (he ▸ mem_cons_self)
    by_cases hsafe : e.Safe orig s
    · obtain ⟨pre, e', tail, hpre, hsafe', htail, hwrong⟩ := ih (h.step e hsafe)
        (NoEbreak.step hno hz) (fun n hn => hnew n (mem_cons_of_mem e hn))
        fun hes => hbad (.cons hsafe hes)
      exact ⟨e :: pre, e', tail, (prefix_cons_inj e).mpr hpre, .cons hsafe hsafe', htail, hwrong⟩
    · have hfault := mt (safe_of_holds h hno hz) hsafe
      unfold Holds at hfault
      push Not at hfault
      obtain ⟨tail, htail, hwrong⟩ := hfault
      exact ⟨[], e, tail, prefix_append [e] es, trivial, htail, hwrong⟩

/-- **Breakpoints are transparent for safe events, and for no others.** After a run of safe
events memory is transparent. Where no breakpoint is set on an original `ebreak`, the first
event of a run that is not safe has a safe continuation after which memory is wrong. -/
theorem gdbRun_iff (orig : ByteMem) (es : List GdbEvent) :
    (SafeRun orig (gdbStart orig) es → Transparent orig (es.foldl gdbStep (gdbStart orig)))
    ∧ ((∀ n, .Z0 n ∈ es → NoEbreak orig (u32 n)) → ¬SafeRun orig (gdbStart orig) es →
      ∃ pre e tail, pre ++ [e] <+: es ∧ SafeRun orig (gdbStart orig) pre
        ∧ SafeRun orig ((pre ++ [e]).foldl gdbStep (gdbStart orig)) tail
        ∧ ¬Transparent orig ((pre ++ [e] ++ tail).foldl gdbStep (gdbStart orig))) :=
  ⟨(gdbStart_inv orig).holds es, exists_fault (gdbStart_inv orig) nofun⟩

end Stub

/-! ## Runs -/

/-- Three instructions: a compressed one at 16 and 18, one of four bytes at 20. -/
def demoCode : ByteMem := fun x => [0x01, 0x00, 0x05, 0x04, 0x13, 0x05, 0xa5, 0x00].getD (x - 16) 0

/-- Neighbouring breakpoints, one hit and stepped over, one removed and set again. -/
def demoGdbEvents : List GdbEvent :=
  [.Z0 18, .Z0 16, .Z0 20, .resume false (.check 16), .resume true (.paused 0), .z0 18,
   .resume false (.ebreak 20), .resume false (.paused 0), .Z0 18, .Z0 (2 ^ 31), .detach, .Z0 16]

theorem gdbRun_demo : Transparent demoCode (demoGdbEvents.foldl gdbStep (gdbStart demoCode)) :=
  (gdbRun_iff demoCode demoGdbEvents).1 (by unfold SafeRun; decide +kernel)

/-- A breakpoint that is set twice: after the detach its `ebreak` is still there. -/
theorem gdb_twice : ([.Z0 16, .Z0 16, .detach].foldl gdbStep (gdbStart demoCode)).breaks = []
    ∧ ([.Z0 16, .Z0 16, .detach].foldl gdbStep (gdbStart demoCode)).cpu.mem 16 = 0x02
    ∧ demoCode 16 = 0x01 := by
  decide +kernel

end Blyt
