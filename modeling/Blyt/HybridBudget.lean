import Blyt.Hybrid

/-!
# The unified budget of a hybrid cart

The two halves share one budget, but each gate knows the other half only by
the copy it was given last, and a Lua pin's gate knows neither the native heap
nor the surfaces. `HybridOp.Sees` says that a gate's figures are not below the
real ones, or that there is room for what the call takes anyway; every run in
which that holds of each allocation and pin stays within the budget
(`hybridRun_budget`). Without it the bound fails: `hybrid_budget_pin` is a
native call that allocates, followed by a Lua pin.
-/

namespace Blyt

open List Option

/-- Lua cart heap, native cart heap, resource footprint and surface bytes. -/
def Hybrid.total (h : Hybrid) : Nat :=
  h.luaHeap + sessionCartHeap h.session + heldBytes h.session.resources
    + liveSurfaceBytes h.session.surfaces

/-- What a pin of this resource takes, if it is granted. -/
def pinNeeds (t : ResTable) (handle : Nat) : Nat :=
  ((resolveResource t handle).bind fun i => t.entries[i]?).elim 0 fun e =>
    if rlIsEvictable e then e.len else 0

/-- The figures a gate decides by are not below the real ones, or there is room. -/
def HybridOp.Sees (h : Hybrid) : HybridOp → Prop
  | .luaAlloc ptr nsize rv noacct =>
    sessionCartHeap h.session + heldBytes h.session.resources
        + liveSurfaceBytes h.session.surfaces ≤ publishedWord h.lua.arena
      ∨ h.total + (hlLuaAlloc ptr nsize rv noacct).growth h.lua ≤ memBudgetBytes
  | .luaPin handle _ =>
    sessionCartHeap h.session + liveSurfaceBytes h.session.surfaces = 0
      ∨ h.total + pinNeeds h.session.resources handle ≤ memBudgetBytes
  | .luaSurfaceCreate _ _ _ => h.luaHeap ≤ h.session.peerHeap
  | .native op => op.GateSees h.luaHeap h.session
  | _ => True

instance (h : Hybrid) (op : HybridOp) : Decidable (op.Sees h) := by
  induction op using HybridOp.casesOn <;> unfold HybridOp.Sees <;> infer_instance

/-! ## The invariant -/

/-- The session has room for itself and for the Lua heap. -/
structure HybridInv (h : Hybrid) : Prop where
  lua : HeapInv h.lua
  block : h.lua.arena.acct.isSome = true
  budget : BudgetInv h.luaHeap False h.session

section Steps

variable {h : Hybrid} {s : Session} {other : Nat} {c : MemAccounting} {solo : Prop}

theorem HybridInv.setSession (hi : HybridInv h)
    (hb : BudgetInv h.luaHeap False s) : HybridInv { h with session := s } :=
  ⟨hi.lua, hi.block, hb⟩

theorem BudgetInv.setResources {t : ResTable} (hr : Ready s c) (hp : t.Packed)
    (hle : memCartHeap c + heldBytes t + liveSurfaceBytes s.surfaces + other ≤ memBudgetBytes) :
    BudgetInv other False { s with resources := t } :=
  ⟨c, ⟨hr.heap, hr.found, hr.block, hr.baseline, hp, hr.surf, hr.peer⟩, False.elim, hle⟩

/-- Handing the native heap over changes no heap. -/
theorem HybridInv.publish (hi : HybridInv h) : HybridInv (hlPublishFootprint h) := by
  obtain ⟨c, hc⟩ := isSome_iff_exists.mp hi.block
  obtain ⟨d, hr, -, hle⟩ := hi.budget
  obtain ⟨fp, hfp⟩ : ∃ fp, fp
      = u32 (resourceTableFootprint h.session.resources + sessionCartHeap h.session) := ⟨_, rfl⟩
  obtain ⟨t, ht⟩ : ∃ t, t = resourceTableEvictToFit h.session.resources
      (memCacheRoom (memCartHeap { c with nonEvictableFootprint := fp }) fp) := ⟨_, rfl⟩
  have hrefs := ht ▸ resourceTableEvictToFit_refs _ _
  have heq : hlPublishFootprint h = { h with
      lua := { h.lua with arena :=
        { h.lua.arena with acct := some { c with nonEvictableFootprint := fp } } }
      session := { h.session with resources := t } } := by
    rw [hlPublishFootprint, hc, ht, hfp]
  have hheap : (hlPublishFootprint h).luaHeap = h.luaHeap := by
    rw [heq, Hybrid.luaHeap, Hybrid.luaHeap, hc]
    rfl
  refine ⟨?_, ?_, ?_⟩
  · rw [heq]
    exact hi.lua.setAcct hc rfl
  · rw [heq]
    rfl
  · rw [hheap, heq]
    refine BudgetInv.setResources hr (hr.packed.congr hrefs) ?_
    rw [heldBytes_congr hrefs]
    exact hle

theorem HybridInv.enter (hi : HybridInv h) : HybridInv (hlBudgetEnterNative h) := by
  obtain ⟨d, hr, -, hle⟩ := hi.budget
  exact hi.setSession (publish_budget
    ⟨hr.heap, hr.found, hr.block, hr.baseline, hr.packed, hr.surf, by
      show h.luaHeap ≤ memBudgetBytes
      omega⟩ hle False.elim)

theorem Ready.cartHeap (hr : Ready s c) : sessionCartHeap s = memCartHeap c := by
  rw [sessionCartHeap, hr.found, hr.block]
  rfl

/-- The shadow arena's gate reads the word; if that covers the rest, so does
the bound. -/
theorem HybridInv.luaAlloc (hi : HybridInv h) {op : ArenaOp} (hne : op ≠ .reset)
    (hop : op.Admissible (2 ^ 32 - 31) h.lua)
    (hsees : sessionCartHeap h.session + heldBytes h.session.resources
        + liveSurfaceBytes h.session.surfaces ≤ publishedWord h.lua.arena
      ∨ h.total + op.growth h.lua ≤ memBudgetBytes) :
    ∃ lua, heapStep guestSizeMax h.lua op = some lua ∧ HybridInv { h with lua := lua } := by
  obtain ⟨c, hc⟩ := isSome_iff_exists.mp hi.block
  obtain ⟨d, hr, -, hle⟩ := hi.budget
  obtain ⟨lua, hstep, hlua, hacct⟩ :=
    heapStep_spec le_guestSizeMax (by norm_num) h.lua op hi.lua hop
  obtain ⟨c', hc', -, -, -, hbound⟩ := hacct hne c hc
  refine ⟨lua, hstep, hlua, by rw [hc']; rfl, d, hr, False.elim, ?_⟩
  rw [Hybrid.total, publishedWord, Hybrid.luaHeap, hc, elim_some, elim_some, hr.cartHeap] at hsees
  rw [Hybrid.luaHeap, hc, elim_some] at hle
  rw [Hybrid.luaHeap, hc']
  show memCartHeap d + heldBytes h.session.resources + liveSurfaceBytes h.session.surfaces
    + memCartHeap c' ≤ memBudgetBytes
  omega

theorem HybridInv.luaPin (hi : HybridInv h) (env : ResEnv) (oom : Bool) {handle : Nat}
    (hsees : sessionCartHeap h.session + liveSurfaceBytes h.session.surfaces = 0
      ∨ h.total + pinNeeds h.session.resources handle ≤ memBudgetBytes) :
    HybridInv (hlPinEntry env oom h handle).2 := by
  unfold hlPinEntry
  cases hres : resolveResource h.session.resources handle with
  | none => exact hi
  | some i =>
    simp only
    cases he : h.session.resources.entries[i]? with
    | none => exact hi
    | some e =>
      simp only
      split
      · exact hi
      rename_i hfits
      obtain ⟨d, hr, -, hle⟩ := id hi.budget
      have hkey := resourceEntryData_refKey env oom (hr.packed.noFile e (mem_of_getElem? he))
      generalize resourceEntryData env oom e = r at hkey ⊢
      obtain ⟨bytes, e1⟩ := r
      have hlt := hr.packed.len_lt (mem_of_getElem? he)
      have hrefs := setEntry_refs he hkey
      split
      · refine hi.setSession (BudgetInv.setResources hr (hr.packed.congr hrefs) ?_)
        rw [heldBytes_congr hrefs]
        exact hle
      obtain ⟨hpk, hheld⟩ := hr.packed.pin he hkey
      generalize resourceTableTouch (setEntry (setEntry h.session.resources i e1) i (rlPin e1)) i
        = t at hpk hheld ⊢
      refine HybridInv.publish (hi.setSession (BudgetInv.setResources hr hpk ?_))
      rcases hsees with hzero | hroom
      · -- with nothing in the native half the gate has summed all there is
        have hfit : h.luaHeap + heldBytes h.session.resources
            + (if rlIsEvictable e then u32 e.len else 0) ≤ memBudgetBytes := by
          rw [← resourceTableFootprint_eq hr.packed]
          simpa [hlReferenceFits, memAllocFits] using hfits
        rw [hr.cartHeap] at hzero
        cases hev : rlIsEvictable e with
        | true =>
          rw [hev, if_pos rfl, u32_of_lt hlt] at hfit
          omega
        | false =>
          have := heldLen_of_pinned hev
          omega
      · rw [Hybrid.total, hr.cartHeap, pinNeeds, hres, bind_some, he, elim_some] at hroom
        cases hev : rlIsEvictable e with
        | true =>
          rw [hev, if_pos rfl] at hroom
          omega
        | false =>
          have := heldLen_of_pinned hev
          omega

theorem HybridInv.luaUnpin (hi : HybridInv h) (handle : Nat) :
    HybridInv (hlUnpinEntry h handle) := by
  unfold hlUnpinEntry
  split
  · exact hi
  split
  · exact hi
  rename_i i _ _ e he
  obtain ⟨d, hr, -, hle⟩ := id hi.budget
  refine HybridInv.publish ?_
  cases hun : rlUnpin e with
  | none =>
    have hrefs := setEntry_refs he (rfl : refKey e = refKey e)
    refine hi.setSession (BudgetInv.setResources hr (hr.packed.congr hrefs) ?_)
    rw [getD_none, heldBytes_congr hrefs]
    exact hle
  | some =>
    obtain ⟨hpk, hheld⟩ := hr.packed.unpin he hun
    refine hi.setSession (BudgetInv.setResources hr hpk ?_)
    rw [getD_some]
    omega

theorem BudgetInv.sessionDestroy (hb : BudgetInv other solo s) (handle : Nat) :
    BudgetInv other solo (sessionSurfaceDestroy s handle) := by
  have hr := hb.choose_spec.1
  unfold sessionSurfaceDestroy
  split
  · exact hb
  split
  · exact hb
  split
  · exact hb
  · exact hb.release rfl rfl rfl ⟨hr.packed, le_rfl⟩ (hr.surf.freeSlot _)

theorem BudgetInv.sessionAcquire (hb : BudgetInv other solo s) (handle : Nat) :
    BudgetInv other solo (sessionSurfaceAcquire s handle) := by
  have hsf := hb.choose_spec.1.surf
  unfold sessionSurfaceAcquire
  split
  · exact hb
  rename_i i _
  simp only
  split
  · exact hb
  exact hb.congr rfl rfl rfl (hsf.setSame (s := { s.surfaces.slots i with
    locked := true, lockPhantom := false, lockDirect := true, lockVaddr := 0, lockLen := 0 })
    (hsf.slots i) rfl rfl rfl) rfl

/-- **Every step of either half keeps the invariant**, if its gate sees the rest. -/
theorem hybridStep_inv (env : ResEnv) (hi : HybridInv h) {op : HybridOp} (hop : op.Admissible h)
    (hsees : op.Sees h) : ∃ h', hybridStep env h op = some h' ∧ HybridInv h' := by
  cases op with
  | luaAlloc ptr nsize rv noacct =>
    obtain ⟨lua, hstep, hi'⟩ := hi.luaAlloc (hlLuaAlloc_ne_reset ptr nsize rv noacct) hop hsees
    exact ⟨_, by simp [hybridStep, hstep], hi'⟩
  | luaPin handle oom => exact ⟨_, rfl, hi.luaPin env oom hsees⟩
  | luaUnpin handle => exact ⟨_, rfl, hi.luaUnpin handle⟩
  | luaSurfaceCreate w ht oom =>
    exact ⟨_, rfl, hi.setSession (hi.budget.createSlot hsees oom w ht)⟩
  | luaSurfaceDestroy handle => exact ⟨_, rfl, hi.setSession (hi.budget.sessionDestroy handle)⟩
  | luaSurfaceAcquire handle => exact ⟨_, rfl, hi.setSession (hi.budget.sessionAcquire handle)⟩
  | luaSurfaceRelease token => exact ⟨_, rfl, hi.setSession (hi.budget.releaseLock token)⟩
  | callNative =>
    have henter := hi.enter
    exact ⟨_, rfl, henter.lua, henter.block, henter.budget.frame false true⟩
  | callRefused => exact ⟨_, rfl, hi.enter⟩
  | resumeNative rcResuming => exact ⟨_, rfl, hi.setSession (hi.budget.frame rcResuming true)⟩
  | native =>
    obtain ⟨s, hstep, hb⟩ := sessionStep_budget env hi.budget hop hsees
    exact ⟨_, by simp [hybridStep, hstep], hi.setSession hb⟩
  | callback | callbackReturn | failNative => exact ⟨_, rfl, hi.lua, hi.block, hi.budget⟩
  | returnNative => exact ⟨_, rfl, HybridInv.publish ⟨hi.lua, hi.block, hi.budget⟩⟩
  | evictAll => exact ⟨_, rfl, hi.setSession hi.budget.evictAll⟩
  | luaFrame =>
    have hr := hi.budget.choose_spec.1
    exact ⟨_, rfl, hi.setSession (hi.budget.release rfl rfl rfl ⟨hr.packed, le_rfl⟩
      (hr.surf.reap h.session.gmem))⟩

end Steps

/-! ## Whole runs -/

/-- The VM's own allocations are the baseline: the Lua heap starts at zero. -/
theorem hlBuilt_inv {lua : HeapState} {s : Session} (hlua : HeapInv lua)
    (hblock : lua.arena.acct.isSome = true) (hs : BudgetInv 0 True s) :
    HybridInv (hlBuilt lua s) := by
  obtain ⟨c, hc⟩ := isSome_iff_exists.mp hblock
  obtain ⟨d, hr, -, hle⟩ := hs
  refine HybridInv.publish (HybridInv.enter ?_)
  rw [hc, map_some]
  refine ⟨hlua.setAcct hc rfl, rfl, d, hr, False.elim, ?_⟩
  have hzero : memCartHeap { c with guestHeapBaseline := c.guestHeapUsed } = 0 := by
    simp [memCartHeap]
  rw [Hybrid.luaHeap, elim_some, hzero]
  exact hle

/-- **The unified budget of a hybrid.** A session is created, the VM is built on a
fresh shadow arena; from then on, in any order of Lua and native work, calls,
callbacks and failures, the two heaps, the resources and the surfaces stay
within the budget - in every run in which each allocation and pin finds
figures for the other half that are not out of date. -/
theorem hybridRun_budget {env : ResEnv} {oom : Bool} {s₀ s : Session} {ids : List Nat}
    (hnew : NewSession s₀) (hcreate : sessionCreate env oom s₀ ids = some s) {a : Arena}
    (hfresh : a.Fresh) (hblock : a.acct.isSome = true) {lua : HeapState} {vmOps : List ArenaOp}
    (hvm : AdmRun (heapStep guestSizeMax) (fun l op => op ≠ .reset ∧ op.Admissible (2 ^ 32 - 31) l)
      ⟨a, []⟩ vmOps) (hbuild : runSteps (heapStep guestSizeMax) ⟨a, []⟩ vmOps = some lua)
    {ops : List HybridOp}
    (hadm : AdmRun (hybridStep env) (fun h op => op.Admissible h ∧ op.Sees h) (hlBuilt lua s) ops) :
    ∃ h, runSteps (hybridStep env) (hlBuilt lua s) ops = some h ∧ h.total ≤ memBudgetBytes := by
  obtain ⟨hlinv, hlb⟩ := heapRun_block le_guestSizeMax (by norm_num) hfresh hblock hvm hbuild
  obtain ⟨h, hrun, hi⟩ :=
    runSteps_inv (fun h op hi hop => hybridStep_inv env hi hop.1 hop.2)
      (hlBuilt_inv hlinv hlb (hnew.budget hcreate)) hadm
  refine ⟨h, hrun, ?_⟩
  obtain ⟨d, hr, -, hle⟩ := hi.budget
  rw [Hybrid.total, hr.cartHeap]
  omega

/-- Regions of 16 MiB, as both halves have them, and a resource of 8 MiB. -/
def hybridArena : Arena := { demoArena with size := 2 ^ 24, size_lt := by norm_num }

def hybridSession : Session :=
  { demoSession with
    heap := ⟨hybridArena, []⟩
    resources := ⟨[demoEntry 5 0x800000], 0⟩ }

theorem hybridSession_new : NewSession hybridSession := by
  refine ⟨⟨rfl, by rintro c ⟨⟩; rfl⟩, rfl, rfl, rfl, ⟨by decide, by decide⟩, ?_, rfl, rfl⟩
  exact demoSession_new.screen

def vmOps : List ArenaOp := [.malloc 100, .mallocNoacct 200]

def hybridOps : List HybridOp :=
  [.luaAlloc 0 100 none false, .luaPin (2 ^ 29 + 5) false, .luaUnpin (2 ^ 29 + 5), .callNative,
   .native (.heap (.malloc 1000)), .native (.pin (2 ^ 29 + 5) false), .callback, .callbackReturn,
   .returnNative, .luaAlloc 0 50 (some 40) true, .luaFrame]

theorem hybridRun_budget_demo : ∃ s lua h, sessionCreate demoEnv false hybridSession [] = some s
    ∧ runSteps (heapStep guestSizeMax) ⟨hybridArena, []⟩ vmOps = some lua
    ∧ runSteps (hybridStep demoEnv) (hlBuilt lua s) hybridOps = some h
    ∧ h.total ≤ memBudgetBytes := by
  have hvm : AdmRun (heapStep guestSizeMax)
      (fun l op => op ≠ .reset ∧ op.Admissible (2 ^ 32 - 31) l) ⟨hybridArena, []⟩ vmOps := by
    decide +kernel
  obtain ⟨s, hs, lua, hbuild, hadm⟩ : ∃ s, sessionCreate demoEnv false hybridSession [] = some s
      ∧ ∃ lua, runSteps (heapStep guestSizeMax) ⟨hybridArena, []⟩ vmOps = some lua
        ∧ AdmRun (hybridStep demoEnv) (fun h op => op.Admissible h ∧ op.Sees h)
          (hlBuilt lua s) hybridOps := by decide +kernel
  obtain ⟨h, hrun, hle⟩ := hybridRun_budget hybridSession_new hs
    ⟨rfl, by rintro c ⟨⟩; rfl⟩ rfl hvm hbuild hadm
  exact ⟨s, lua, h, hs, hbuild, hrun, hle⟩

/-- A native call takes 12 MiB and returns. -/
def grabOps : List HybridOp := [.callNative, .native (.heap (.malloc 0xC00000)), .returnNative]

/-- The pin that follows succeeds: its gate adds up the Lua heap and the
resources only. -/
theorem hybrid_budget_pin : NewSession hybridSession
    ∧ ∃ s lua h, sessionCreate demoEnv false hybridSession [] = some s
      ∧ runSteps (heapStep guestSizeMax) ⟨hybridArena, []⟩ vmOps = some lua
      ∧ AdmRun (hybridStep demoEnv) (fun h op => op.Enabled h ∧ op.Admissible h)
        (hlBuilt lua s) grabOps
      ∧ runSteps (hybridStep demoEnv) (hlBuilt lua s) grabOps = some h
      ∧ (HybridOp.luaPin (2 ^ 29 + 5) false).Enabled h
      ∧ (hlPinEntry demoEnv false h (2 ^ 29 + 5)).1 = true
      ∧ memBudgetBytes < (hlPinEntry demoEnv false h (2 ^ 29 + 5)).2.total := by
  obtain ⟨s, hs, lua, hbuild, hadm, h, hrun⟩ : ∃ s,
      sessionCreate demoEnv false hybridSession [] = some s
      ∧ ∃ lua, runSteps (heapStep guestSizeMax) ⟨hybridArena, []⟩ vmOps = some lua
      ∧ AdmRun (hybridStep demoEnv) (fun h op => op.Enabled h ∧ op.Admissible h)
        (hlBuilt lua s) grabOps
      ∧ ∃ h, runSteps (hybridStep demoEnv) (hlBuilt lua s) grabOps = some h
      ∧ (HybridOp.luaPin (2 ^ 29 + 5) false).Enabled h
      ∧ (hlPinEntry demoEnv false h (2 ^ 29 + 5)).1 = true
      ∧ memBudgetBytes < (hlPinEntry demoEnv false h (2 ^ 29 + 5)).2.total := by
    decide +kernel
  exact ⟨hybridSession_new, s, lua, h, hs, hbuild, hadm, hrun⟩

end Blyt
