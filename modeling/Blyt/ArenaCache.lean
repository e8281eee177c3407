import Blyt.ArenaFrame

/-!
# The allocator and the cache figure

Of the accounting block the arena reads the heap's own words and the footprint, never
`resource_cache_used`, and it writes nothing but `guest_heap_used`. So an arena with
another figure there (`Arena.setCache`) runs in step with the first, whatever is asked of
it: every call commutes with `setCache`, and keeps the words that are not its own.
-/

namespace Blyt

open Option Function

/-- The arena with another cache figure in its accounting block. -/
def Arena.setCache (a : Arena) (v : Nat) : Arena :=
  { a with acct := a.acct.map fun c => { c with resourceCacheUsed := v } }

/-- The edit of `takeFit`, before the block is accounted. -/
def fitEdit (a : Arena) (prev : Option Nat) (need mark : Nat) : Arena :=
  let coff := a.link prev
  let h := hdrAt a.mem coff
  let rem := h.size - need
  let a :=
    if decide (hdrSize + arenaAlign ≤ rem) then
      let tail := u32 (coff + need)
      let m := setPad (setNext (setFree (setSize a.mem tail rem) tail 1) tail h.next) tail 0
      let a := { a with mem := m }.setLink prev tail
      { a with mem := setSize a.mem coff need }
    else a.setLink prev h.next
  { a with mem := setPad (setNext (setFree a.mem coff 0) coff arenaNone) coff mark }

theorem takeFit_def (a : Arena) (prev : Option Nat) (need mark : Nat) (noacct : Bool) :
    takeFit a prev need mark noacct =
      (let h := hdrAt a.mem (a.link prev)
       let split := decide (hdrSize + arenaAlign ≤ h.size - need)
       if !noacct && !capAllows a (if split then need else h.size) then (0, a)
       else
        let a' := fitEdit a prev need mark
        let a' := if noacct then a' else acctAdd a' (hdrAt a'.mem (a.link prev)).size
        (a'.base + a.link prev + hdrSize, a')) := rfl

/-- The block at `h` marked free and put in front of the free list. -/
def linkFree (a : Arena) (h : Nat) : Arena :=
  { a with mem := setNext (setFree a.mem h 1) h a.freeHead, freeHead := u32 h }

/-- `memcpy` between two payloads. -/
def copyInto (a : Arena) (dst src n : Nat) : Arena :=
  { a with mem := copyBytes a.mem (dst - a.base) (src - a.base) n }

/-- The result of a call on the arena with another cache figure. -/
def recache (v : Nat) (r : Nat × Arena) : Nat × Arena := (r.1, r.2.setCache v)

/-! ## The words the arena does not write -/

/-- The accounting block without the arena's own word. -/
def Arena.hostWords (a : Arena) : Option MemAccounting :=
  a.acct.map fun c => { c with guestHeapUsed := 0 }

def Arena.Keeps (a a' : Arena) : Prop := a'.base = a.base ∧ a'.hostWords = a.hostWords

section Words

variable (a : Arena)

theorem Arena.Keeps.rfl {a : Arena} : a.Keeps a := ⟨Eq.refl _, Eq.refl _⟩

theorem Arena.Keeps.trans {a b c : Arena} (h : a.Keeps b) (h' : b.Keeps c) : a.Keeps c :=
  ⟨h'.1.trans h.1, h'.2.trans h.2⟩

theorem acctAdd_keeps (n : Nat) : a.Keeps (acctAdd a n) :=
  ⟨rfl, by simp only [Arena.hostWords, acctAdd, map_map, comp_def]⟩

theorem acctSub_keeps (n : Nat) : a.Keeps (acctSub a n) :=
  ⟨rfl, by simp only [Arena.hostWords, acctSub, map_map, comp_def]⟩

theorem ensureReady_keeps : a.Keeps (ensureReady a) :=
  ⟨ensureReady_base a, by rw [Arena.hostWords, ensureReady_acct]; rfl⟩

theorem setLink_keeps (q : Option Nat) (w : Nat) : a.Keeps (a.setLink q w) := by
  cases q <;> exact .rfl

theorem fitEdit_keeps (prev : Option Nat) (need mark : Nat) :
    a.Keeps (fitEdit a prev need mark) := by
  unfold fitEdit
  by_cases h : hdrSize + arenaAlign ≤ (hdrAt a.mem (a.link prev)).size - need
  · simp only [h, decide_true, if_true]
    cases prev <;> exact .rfl
  · simp only [h, decide_false, Bool.false_eq_true, if_false]
    cases prev <;> exact .rfl

theorem takeFit_keeps (prev : Option Nat) (need mark : Nat) (noacct : Bool) :
    a.Keeps (takeFit a prev need mark noacct).2 := by
  have hedit := fitEdit_keeps a prev need mark
  rw [takeFit_def]
  simp only
  generalize (!noacct && !capAllows a _) = refused
  cases refused with
  | true => exact .rfl
  | false =>
    cases noacct with
    | true => exact hedit
    | false => exact hedit.trans (acctAdd_keeps _ _)

theorem takeBump_keeps (need mark : Nat) (noacct : Bool) :
    a.Keeps (takeBump a need mark noacct).2 := by
  unfold takeBump
  split
  · exact .rfl
  · split
    · exact .rfl
    · cases noacct with
      | true => exact .rfl
      | false => exact acctAdd_keeps (bumpAt a need mark) need

variable {a}

theorem arenaMallocCore_keeps {n : Nat} {noacct : Bool} {r : Nat × Arena}
    (h : arenaMallocCore a n noacct = some r) : a.Keeps r.2 := by
  unfold arenaMallocCore at h
  split at h
  · cases h
    exact .rfl
  · simp only at h
    split at h
    · cases h
    · cases h
      exact (ensureReady_keeps a).trans (takeFit_keeps _ _ _ _ _)
    · cases h
      exact (ensureReady_keeps a).trans (takeBump_keeps _ _ _ _)

theorem coalesceForward_keeps {h : Nat} {a' : Arena} (hr : coalesceForward a h = some a') :
    a.Keeps a' := by
  unfold coalesceForward flRemove at hr
  simp only at hr
  split at hr
  · cases hr
    exact .rfl
  split at hr
  · cases hr
    exact .rfl
  split at hr
  · cases hr
  · cases hr
    exact .rfl
  · cases hr
    exact setLink_keeps a _ _

theorem arenaFree_keeps {p : Nat} {a' : Arena} (h : arenaFree a p = some a') : a.Keeps a' := by
  unfold arenaFree at h
  split at h
  · cases h
    exact .rfl
  simp only at h
  split at h
  · cases h
    exact .rfl
  refine .trans ?_ (coalesceForward_keeps h)
  split
  · exact acctSub_keeps a _
  · exact .rfl

theorem arenaReallocCore_keeps {p n : Nat} {noacct : Bool} {r : Nat × Arena}
    (h : arenaReallocCore a p n noacct = some r) : a.Keeps r.2 := by
  unfold arenaReallocCore at h
  split at h
  · exact arenaMallocCore_keeps h
  split at h
  · obtain ⟨a', hf, rfl⟩ := map_eq_some_iff.mp h
    exact arenaFree_keeps hf
  simp only at h
  split at h
  · cases h
    exact .rfl
  split at h
  · cases h
  rename_i q b hm
  have hb := arenaMallocCore_keeps hm
  split at h
  · cases h
    exact hb
  · obtain ⟨a', hf, rfl⟩ := map_eq_some_iff.mp h
    exact hb.trans (arenaFree_keeps (a := copyInto b _ _ _) hf)

theorem arenaCalloc_keeps {sizeMax nmemb sz : Nat} {r : Nat × Arena}
    (h : arenaCalloc sizeMax a nmemb sz = some r) : a.Keeps r.2 := by
  unfold arenaCalloc at h
  split at h
  · cases h
    exact .rfl
  obtain ⟨⟨p, b⟩, hm, rfl⟩ := map_eq_some_iff.mp h
  have hb := arenaMallocCore_keeps hm
  simp only
  split <;> exact hb

end Words

/-- **A call writes nothing of the accounting block but the heap's own word.** -/
theorem heapStep_words {sizeMax : Nat} {s s' : HeapState} {op : ArenaOp}
    (h : heapStep sizeMax s op = some s') : s'.arena.hostWords = s.arena.hostWords := by
  cases op with
  | malloc n | mallocNoacct n =>
    obtain ⟨r, hr, rfl⟩ := map_eq_some_iff.mp h
    exact (arenaMallocCore_keeps hr).2
  | calloc =>
    obtain ⟨r, hr, rfl⟩ := map_eq_some_iff.mp h
    exact (arenaCalloc_keeps hr).2
  | realloc p n | reallocNoacct p n =>
    obtain ⟨r, hr, rfl⟩ := map_eq_some_iff.mp h
    exact (arenaReallocCore_keeps hr).2
  | free =>
    obtain ⟨r, hr, rfl⟩ := map_eq_some_iff.mp h
    exact (arenaFree_keeps hr).2
  | reset =>
    cases h
    simp only [Arena.hostWords, arenaReset, map_map, comp_def]
  | store =>
    cases h
    rfl

/-! ## What the allocator does not look at -/

/-- A region moved from `A` to `B`, with other words in its accounting block that no gate
reads. -/
structure ArenaMove where
  A : Nat
  B : Nat
  ptr : Nat → Nat
  words : MemAccounting → MemAccounting
  null : B = 0 ↔ A = 0
  ptr_null : ∀ p, ptr p = 0 ↔ p = 0
  ptr_off : ∀ p, ptr p - B = p - A
  ptr_payload : ∀ o, ptr (A + o + hdrSize) = B + o + hdrSize
  gate : ∀ c n, memAllocFits (memCartHeap (words c)) (words c).nonEvictableFootprint n
    = memAllocFits (memCartHeap c) c.nonEvictableFootprint n
  used : ∀ c (f : Nat → Nat), { words c with guestHeapUsed := f (words c).guestHeapUsed }
    = words { c with guestHeapUsed := f c.guestHeapUsed }

namespace ArenaMove

variable (M : ArenaMove)

def arena (a : Arena) : Arena := { a with base := M.B, acct := a.acct.map M.words }

def result (r : Nat × Arena) : Nat × Arena := (M.ptr r.1, M.arena r.2)

section Edits

variable (a : Arena)

theorem link_eq : (M.arena a).link = a.link := by
  funext q
  cases q <;> rfl

theorem capAllows_eq (n : Nat) : capAllows (M.arena a) n = capAllows a n := by
  unfold capAllows arena
  cases a.acct with
  | none => rfl
  | some c => exact M.gate c n

theorem acctAdd_eq (n : Nat) : acctAdd (M.arena a) n = M.arena (acctAdd a n) := by
  simp only [acctAdd, arena, map_map, comp_def, M.used _ fun u => u32 (u + n)]

theorem acctSub_eq (n : Nat) : acctSub (M.arena a) n = M.arena (acctSub a n) := by
  simp only [acctSub, arena, map_map, comp_def, M.used _ fun u => u32 (u + 2 ^ 32 - n)]

theorem ensureReady_eq : ensureReady (M.arena a) = M.arena (ensureReady a) := by
  unfold ensureReady
  cases h : a.ready <;> simp [arena, h]

theorem fitEdit_eq (prev : Option Nat) (need mark : Nat) :
    fitEdit (M.arena a) prev need mark = M.arena (fitEdit a prev need mark) := by
  have hmem : (M.arena a).mem = a.mem := rfl
  unfold fitEdit
  rw [link_eq, hmem]
  by_cases h : hdrSize + arenaAlign ≤ (hdrAt a.mem (a.link prev)).size - need
  · simp only [h, decide_true, if_true]
    cases prev <;> rfl
  · simp only [h, decide_false, Bool.false_eq_true, if_false]
    cases prev <;> rfl

theorem flRemove_eq (target : Nat) :
    flRemove (M.arena a) target = (flRemove a target).map M.arena := by
  unfold flRemove
  rw [link_eq]
  split
  · rfl
  · rfl
  · rename_i prev _
    cases prev <;> rfl

theorem coalesceForward_eq (h : Nat) :
    coalesceForward (M.arena a) h = (coalesceForward a h).map M.arena := by
  have hfields : (M.arena a).mem = a.mem ∧ (M.arena a).bump = a.bump := ⟨rfl, rfl⟩
  unfold coalesceForward
  simp only [hfields, flRemove_eq]
  split
  · rfl
  · split
    · rfl
    · cases flRemove a _ <;> rfl

end Edits

variable {a : Arena}

theorem result_null : M.result (0, a) = (0, M.arena a) :=
  Prod.ext ((M.ptr_null 0).mpr rfl) rfl

/-- A block that is handed out, with what is charged for it. -/
theorem served (hA : a.base = M.A) (o n : Nat) (noacct : Bool) :
    ((M.arena a).base + o + hdrSize, if noacct then M.arena a else acctAdd (M.arena a) n)
      = M.result (a.base + o + hdrSize, if noacct then a else acctAdd a n) := by
  rw [result, hA, M.ptr_payload, acctAdd_eq]
  cases noacct <;> rfl

section Calls

variable (hA : a.base = M.A)
include hA

theorem hdrOff_eq (p : Nat) : hdrOff (M.arena a) (M.ptr p) = hdrOff a p := by
  have hoff := M.ptr_off p
  show M.ptr p - hdrSize - M.B = p - hdrSize - a.base
  omega

theorem takeFit_eq (prev : Option Nat) (need mark : Nat) (noacct : Bool) :
    takeFit (M.arena a) prev need mark noacct = M.result (takeFit a prev need mark noacct) := by
  have hmem : (M.arena a).mem = a.mem := rfl
  have hbase := (fitEdit_keeps a prev need mark).1.trans hA
  rw [takeFit_def, takeFit_def, link_eq, hmem]
  simp only [capAllows_eq, fitEdit_eq]
  generalize (!noacct && !capAllows a _) = refused
  cases refused with
  | true => exact M.result_null.symm
  | false =>
    cases noacct with
    | true => exact M.served hbase _ 0 true
    | false => exact M.served hbase _ _ false

theorem takeBump_eq (need mark : Nat) (noacct : Bool) :
    takeBump (M.arena a) need mark noacct = M.result (takeBump a need mark noacct) := by
  have hfields : (M.arena a).size = a.size ∧ (M.arena a).bump = a.bump := ⟨rfl, rfl⟩
  unfold takeBump
  simp only [capAllows_eq, hfields]
  split
  · exact M.result_null.symm
  · split
    · exact M.result_null.symm
    · cases noacct with
      | true => exact M.served (a := bumpAt a need mark) hA _ 0 true
      | false => exact M.served (a := bumpAt a need mark) hA _ _ false

theorem arenaMallocCore_eq (n : Nat) (noacct : Bool) :
    arenaMallocCore (M.arena a) n noacct = (arenaMallocCore a n noacct).map M.result := by
  have hfields : (M.arena a).size = a.size ∧ (M.arena a).base = M.B := ⟨rfl, rfl⟩
  have hmem : (M.arena (ensureReady a)).mem = (ensureReady a).mem := rfl
  have hready := (ensureReady_base a).trans hA
  unfold arenaMallocCore
  simp only [ensureReady_eq, hfields, M.null, hA, link_eq, hmem]
  split
  · rw [map_some, result_null]
  · split
    · rfl
    · rw [M.takeFit_eq hready]
      rfl
    · rw [M.takeBump_eq hready]
      rfl

theorem arenaFree_eq (p : Nat) : arenaFree (M.arena a) (M.ptr p) = (arenaFree a p).map M.arena := by
  have hmem : (M.arena a).mem = a.mem := rfl
  unfold arenaFree
  simp only [hmem, M.hdrOff_eq hA, M.ptr_null]
  split
  · rfl
  · split
    · rfl
    · split
      · simp only [acctSub_eq]
        exact M.coalesceForward_eq (linkFree (acctSub a _) (hdrOff a p)) _
      · exact M.coalesceForward_eq (linkFree a (hdrOff a p)) _

theorem copyInto_eq (dst src n : Nat) :
    copyInto (M.arena a) (M.ptr dst) (M.ptr src) n = M.arena (copyInto a dst src n) := by
  have hbase : (M.arena a).base = M.B := rfl
  simp only [copyInto, hbase, M.ptr_off, ← hA]
  rfl

theorem arenaReallocCore_eq (p n : Nat) (noacct : Bool) :
    arenaReallocCore (M.arena a) (M.ptr p) n noacct
      = (arenaReallocCore a p n noacct).map M.result := by
  have hmem : (M.arena a).mem = a.mem := rfl
  unfold arenaReallocCore
  rw [M.arenaMallocCore_eq hA, M.arenaFree_eq hA, hmem, M.hdrOff_eq hA]
  simp only [M.ptr_null]
  split
  · rfl
  split
  · cases arenaFree a p with
    | none => rfl
    | some => exact congrArg some M.result_null.symm
  split
  · rfl
  rcases hm : arenaMallocCore a n noacct with _ | ⟨q, b⟩
  · rfl
  simp only [map_some, result, M.ptr_null]
  split
  · exact congrArg some M.result_null.symm
  · have hb := (arenaMallocCore_keeps hm).1.trans hA
    generalize hcap : u32 ((hdrAt a.mem (hdrOff a p)).size + 2 ^ 32 - hdrSize) = cap
    have hfree := M.arenaFree_eq (a := copyInto b q p cap) hb p
    rw [← M.copyInto_eq hb] at hfree
    refine (congrArg (Option.map fun a => (M.ptr q, a)) hfree).trans ?_
    rw [map_map, map_map]
    rfl

end Calls

end ArenaMove

/-! ## The cache figure -/

/-- Another cache figure, with the region where it is. -/
def cacheMove (A v : Nat) : ArenaMove where
  A := A
  B := A
  ptr := id
  words c := { c with resourceCacheUsed := v }
  null := .rfl
  ptr_null _ := .rfl
  ptr_off _ := rfl
  ptr_payload _ := rfl
  gate _ _ := rfl
  used _ _ := rfl

section Cache

variable (a : Arena) (v : Nat)

theorem cacheMove_result {r : Nat × Arena} (h : a.Keeps r.2) :
    (cacheMove a.base v).result r = recache v r := by
  simp only [ArenaMove.result, ArenaMove.arena, cacheMove, ← h.1]
  rfl

theorem arenaMallocCore_setCache (n : Nat) (noacct : Bool) :
    arenaMallocCore (a.setCache v) n noacct = (arenaMallocCore a n noacct).map (recache v) :=
  ((cacheMove a.base v).arenaMallocCore_eq rfl n noacct).trans
    (Option.map_congr fun _ h => cacheMove_result a v (arenaMallocCore_keeps h))

theorem arenaFree_setCache (p : Nat) :
    arenaFree (a.setCache v) p = (arenaFree a p).map (·.setCache v) :=
  ((cacheMove a.base v).arenaFree_eq rfl p).trans (Option.map_congr fun b h =>
    congrArg Prod.snd (cacheMove_result a v (r := (0, b)) (arenaFree_keeps h)))

theorem arenaReallocCore_setCache (p n : Nat) (noacct : Bool) :
    arenaReallocCore (a.setCache v) p n noacct = (arenaReallocCore a p n noacct).map (recache v) :=
  ((cacheMove a.base v).arenaReallocCore_eq rfl p n noacct).trans
    (Option.map_congr fun _ h => cacheMove_result a v (arenaReallocCore_keeps h))

theorem arenaCalloc_setCache (sizeMax nmemb sz : Nat) :
    arenaCalloc sizeMax (a.setCache v) nmemb sz
      = (arenaCalloc sizeMax a nmemb sz).map (recache v) := by
  unfold arenaCalloc arenaMalloc
  simp only [arenaMallocCore_setCache]
  split
  · rfl
  rcases arenaMallocCore a _ false with _ | ⟨p, b⟩
  · rfl
  simp only [map_some, recache]
  split <;> rfl

end Cache

def HeapState.setCache (s : HeapState) (v : Nat) : HeapState :=
  { s with arena := s.arena.setCache v }

/-- **Every call commutes with a change of the cache figure.** -/
theorem heapStep_setCache (sizeMax : Nat) (s : HeapState) (v : Nat) (op : ArenaOp) :
    heapStep sizeMax (s.setCache v) op = (heapStep sizeMax s op).map (·.setCache v)
      ∧ op.answer sizeMax (s.setCache v) = op.answer sizeMax s := by
  have harena : (s.setCache v).arena = s.arena.setCache v := rfl
  have hlive : (s.setCache v).live = s.live := rfl
  cases op with
  | malloc n =>
    simp only [heapStep, ArenaOp.answer, arenaMalloc, harena, hlive, arenaMallocCore_setCache]
    rcases arenaMallocCore s.arena n false with _ | r <;> exact ⟨rfl, rfl⟩
  | mallocNoacct n =>
    simp only [heapStep, ArenaOp.answer, arenaMallocNoacct, harena, hlive, arenaMallocCore_setCache]
    rcases arenaMallocCore s.arena n true with _ | r <;> exact ⟨rfl, rfl⟩
  | calloc nmemb sz =>
    simp only [heapStep, ArenaOp.answer, harena, hlive, arenaCalloc_setCache]
    rcases arenaCalloc sizeMax s.arena nmemb sz with _ | r <;> exact ⟨rfl, rfl⟩
  | realloc p n =>
    simp only [heapStep, ArenaOp.answer, arenaRealloc, harena, hlive, arenaReallocCore_setCache]
    rcases arenaReallocCore s.arena p n false with _ | r <;> exact ⟨rfl, rfl⟩
  | reallocNoacct p n =>
    simp only [heapStep, ArenaOp.answer, arenaReallocNoacct, harena, hlive,
      arenaReallocCore_setCache]
    rcases arenaReallocCore s.arena p n true with _ | r <;> exact ⟨rfl, rfl⟩
  | free p =>
    simp only [heapStep, ArenaOp.answer, harena, hlive, arenaFree_setCache]
    rcases arenaFree s.arena p with _ | r <;> exact ⟨rfl, trivial⟩
  | reset =>
    refine ⟨?_, rfl⟩
    simp only [heapStep, arenaReset, Arena.setCache, HeapState.setCache, map_some,
      map_map, comp_def]
  | store => exact ⟨rfl, rfl⟩

end Blyt
