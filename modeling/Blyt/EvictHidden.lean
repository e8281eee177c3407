import Blyt.Residency

/-!
# Eviction is invisible to the cart

A run of a session with forced evictions put in anywhere, against the same run without
them. `observe` is what comes out of a run: the reply to each call, and the heap and the
footprint after it. Only the cache figure is left out, and that is all an eviction changes
(`eviction_hidden`).
-/

namespace Blyt

open List Option

/-! ## What the cart sees -/

inductive Reply where
  | pointer (p : Option Nat)
  /-- the result of a pin, and the bytes at the pointer it returned -/
  | pinned (r : PinResult) (bytes : List UInt8)
  | code (n : Nat)
  | handle (n : Nat)
  | lock (r : Option (Nat × Int × Int × Int × Nat))
  | none
  deriving DecidableEq, Repr

def replyTo (env : ResEnv) (s : Session) : SessionOp → Reply
  | .heap op => .pointer (op.answer guestSizeMax s.heap)
  | .pin handle oom =>
    let (r, s') := resourcePin env oom s handle
    .pinned r (readGuest s'.gmem r.ptr (r.size.getD 0))
  | .unpin handle => .code (resourceUnpin s handle).1
  | .surfaceCreate w h oom => .handle (surfaceCreate oom s w h).1
  | .surfaceAcquire handle => .lock (surfaceAcquire s handle).1
  | _ => .none

/-- The words of the accounting block, without the cache figure. -/
structure Counters where
  heapUsed : Nat
  footprint : Nat
  baseline : Nat
  deriving DecidableEq, Repr

def Session.counters (s : Session) : Option Counters :=
  s.heap.arena.acct.map fun c => ⟨c.guestHeapUsed, c.nonEvictableFootprint, c.guestHeapBaseline⟩

/-! ## Runs with evictions -/

/-- Evict the entries at these places of the table, as far as they may be evicted. -/
def evictAt (t : ResTable) (places : List Nat) : ResTable :=
  { t with entries := t.entries.mapIdx fun i e =>
      if i ∈ places then (resourceEntryEvict e).2 else e }

/-- A forced eviction of some entries; the accounting block is published anew. -/
def sessionEvict (s : Session) (places : List Nat) : Session :=
  memAcctPublishFootprint { s with resources := evictAt s.resources places }

/-- `blyt_session_resource_evict_all` is the eviction of all of them. -/
theorem sessionResourceEvictAll_eq (s : Session) :
    (sessionResourceEvictAll s).2 = sessionEvict s (range s.resources.entries.length) := by
  have htab : (resourceTableEvictAllEvictable s.resources).2
      = evictAt s.resources (range s.resources.entries.length) := by
    refine congrArg (fun es => (⟨es, s.resources.lruClock⟩ : ResTable)) (ext_getElem? fun i => ?_)
    rw [getElem?_map, getElem?_mapIdx]
    cases hi : s.resources.entries[i]? with
    | none => rfl
    | some =>
      have hlt := (List.getElem?_eq_some_iff.mp hi).1
      rw [map_some, map_some, if_pos (mem_range.mpr hlt)]
  unfold sessionResourceEvictAll sessionEvict
  rw [← htab]

inductive HostEvent where
  | call (op : SessionOp)
  | evict (places : List Nat)
  deriving DecidableEq, Repr

def HostEvent.isCall : HostEvent → Bool
  | .call _ => true
  | .evict _ => false

/-- The host's `malloc` does not fail in a pin. -/
def HostEvent.MallocOK : HostEvent → Prop
  | .call (.pin _ oom) => oom = false
  | _ => True

instance (ev : HostEvent) : Decidable ev.MallocOK := by
  unfold HostEvent.MallocOK; split <;> infer_instance

/-- The replies and counters of a run; `none` stands for a call that never returns. -/
def observe (env : ResEnv) : Session → List HostEvent → List (Option (Reply × Option Counters))
  | _, [] => []
  | s, .evict places :: evs => observe env (sessionEvict s places) evs
  | s, .call op :: evs =>
    match sessionStep env s op with
    | none => [none]
    | some s' => some (replyTo env s op, s'.counters) :: observe env s' evs

section Runs

variable {env : ResEnv} {s s' : Session}

theorem SameButCache.hydrated (h : SameButCache env s s') :
    ∀ e ∈ s.resources.entries, Hydrated env e := by
  obtain ⟨t, v, -, ht⟩ := h
  intro e he
  obtain ⟨i, hi⟩ := mem_iff_getElem?.mp he
  rcases ht.getElem? i with ⟨hn, -⟩ | ⟨e1, e', he1, -, hee⟩
  · rw [hn] at hi
    cases hi
  · obtain rfl := some.inj (hi.symm.trans he1)
    exact hee.left

theorem SameButCache.counters (h : SameButCache env s s') : s.counters = s'.counters := by
  obtain ⟨t, v, rfl, -⟩ := h
  unfold Session.counters
  have hacct : (s.recache t v).heap.arena.acct
      = s.heap.arena.acct.map fun c => { c with resourceCacheUsed := v } := rfl
  rw [hacct, Option.map_map]
  rfl

def Session.Current (s : Session) : Prop :=
  ∀ c, s.block = some c → c.nonEvictableFootprint = ctxNonEvictableFootprint s

theorem publish_current (s : Session) : (memAcctPublishFootprint s).Current := by
  intro c' hc'
  cases hc : s.block with
  | none =>
    rw [publish_of_none hc, hc] at hc'
    cases hc'
  | some c =>
    obtain ⟨hm, -⟩ := Session.found_of_block hc
    have hfoot : resourceTableFootprint (s.trimmed c) = resourceTableFootprint s.resources := by
      rw [resourceTableFootprint_mod, resourceTableFootprint_mod, Session.trimmed,
        heldBytes_congr (resourceTableEvictToFit_refs _ _)]
    rw [publish_of_some hc] at hc' ⊢
    obtain rfl := some.inj ((if_pos hm).symm.trans hc')
    show ctxNonEvictableFootprint s = u32 (resourceTableFootprint (s.trimmed c) + _ + _)
    rw [hfoot]
    rfl

/-- A forced eviction on one side: the word it publishes is the one that is there. -/
theorem SameButCache.evict (h : SameButCache env s s') (hcur : s.Current) (places : List Nat) :
    SameButCache env s (sessionEvict s' places) := by
  obtain ⟨t, v, rfl, ht⟩ := h
  have ht' : AlikeTables env s.resources (evictAt t places) :=
    forall₂_mapIdx_right ht fun i e e' hee => by
      split
      · exact hee.evict_right
      · exact hee
  have hself : sessionEvict (s.recache t v) places
      = memAcctPublishFootprint (s.recache (evictAt t places) v) := rfl
  have hblock := block_recache s (evictAt t places) v
  rw [hself]
  cases hc : s.block with
  | none =>
    rw [hc] at hblock
    rw [publish_of_none hblock]
    exact ⟨_, v, rfl, ht'⟩
  | some c =>
    rw [hc] at hblock
    obtain ⟨-, hacct⟩ := Session.found_of_block hc
    have htrim : AlikeTables env s.resources
        ((s.recache (evictAt t places) v).trimmed { c with resourceCacheUsed := v }) :=
      ht'.evictLoop_right _ _
    rw [publish_of_some hblock, ht'.ctxFootprint, ← hcur c hc]
    generalize (s.recache (evictAt t places) v).trimmed _ = u at htrim ⊢
    refine ⟨u, resourceTableResidentDecompressed u, ?_, htrim⟩
    simp [Session.recache, Session.setAcct, HeapState.setCache, Arena.setCache, hacct]

variable {s₁ : Session} {op : SessionOp}

/-- Calls that leave the words of the block, the surfaces' bytes and the held resources. -/
theorem Session.Current.keep {s : Session} (h : s.Current) (hm : s₁.memAcct = s.memAcct)
    (hw : s₁.heap.arena.hostWords = s.heap.arena.hostWords)
    (hf : ctxNonEvictableFootprint s₁ = ctxNonEvictableFootprint s) : s₁.Current := by
  intro c1 hc1
  unfold Session.block at hc1
  rw [hm] at hc1
  split at hc1
  · rename_i hmem
    rw [Arena.hostWords, hc1] at hw
    obtain ⟨c, hc, hcc⟩ := map_eq_some_iff.mp hw.symm
    have hfoot := (MemAccounting.mk.inj hcc).2.1
    rw [hf, ← hfoot]
    exact h c ((if_pos hmem).trans hc)
  · cases hc1

/-- A pin that fails may leave the bytes behind; one that succeeds publishes. -/
theorem Session.Current.pin (h : s.Current) (hyd : ∀ e ∈ s.resources.entries, Hydrated env e)
    (handle : Nat) : (resourcePin env false s handle).2.Current := by
  unfold resourcePin
  split
  · exact h
  rename_i i _
  split
  · exact h
  rename_i e he
  obtain ⟨-, -, hk⟩ := resourceEntryData_hydrated (hyd e (mem_of_getElem? he))
  have hheld : heldLen (resourceEntryData env false e).2 = heldLen e :=
    show heldLen (stableKey _) = heldLen (stableKey e) from congrArg heldLen hk
  generalize resourceEntryData env false e = r at hheld ⊢
  obtain ⟨bytes, e1⟩ := r
  have hset : Session.Current { s with resources := setEntry s.resources i e1 } :=
    h.keep rfl rfl (by
      unfold ctxNonEvictableFootprint
      rw [footprint_setEntry he hheld])
  split
  · exact h
  simp only
  split
  · exact hset
  split
  · exact hset
  · exact publish_current _

theorem surfaceFlushLock_bytes (m : ByteMem) (r : SurfaceRegistry) (i : Fin surfaceMax) :
    (surfaceFlushLock m r i).surfaceBytes = r.surfaceBytes := by
  unfold surfaceFlushLock
  simp only
  split <;> rfl

theorem Session.Current.acquireLock (h : s.Current) (handle : Nat) (clearOnly : Bool) :
    (surfaceAcquireLock s handle clearOnly).2.Current := by
  unfold surfaceAcquireLock
  split
  · exact h
  · simp only
    split
    · exact h
    · split
      · exact h
      · exact h.keep rfl rfl rfl

theorem Session.Current.phaseGate (h : s.Current) : (surfacePhaseGate s).2.Current := by
  unfold surfacePhaseGate
  split
  · exact h
  · cases s.cartIsDebug
    · exact h
    · exact h.keep rfl rfl rfl

/-- **The footprint word is current after every call.** -/
theorem Session.Current.step (h : s.Current) (hyd : ∀ e ∈ s.resources.entries, Hydrated env e)
    (hop : (HostEvent.call op).MallocOK) (hs : sessionStep env s op = some s₁) : s₁.Current := by
  cases op with
  | heap =>
    obtain ⟨hp, hstep, rfl⟩ := map_eq_some_iff.mp hs
    exact h.keep rfl (heapStep_words hstep) rfl
  | pin handle oom =>
    obtain rfl : oom = false := hop
    cases hs
    exact h.pin hyd handle
  | unpin =>
    cases hs
    unfold resourceUnpin
    split
    · exact h
    split
    · exact h
    split
    · exact h
    · exact publish_current _
  | surfaceCreate =>
    cases hs
    have hgate := h.phaseGate
    unfold surfaceCreate
    generalize surfacePhaseGate s = r at hgate ⊢
    obtain ⟨_ | _, s₁⟩ := r
    · exact hgate
    · simp only [surfaceCreateSlot]
      split
      · exact hgate
      split
      · exact hgate
      split
      · exact hgate
      split
      · exact hgate
      · exact publish_current _
  | surfaceDestroy handle =>
    cases hs
    have hgate : (surfaceLockGate s (resolveSurface s.surfaces handle)).2.Current := by
      unfold surfaceLockGate
      split
      · cases s.cartIsDebug
        · exact h
        · exact h.keep rfl rfl rfl
      · exact h
    unfold surfaceDestroy
    simp only
    generalize surfaceLockGate s (resolveSurface s.surfaces handle) = r at hgate ⊢
    obtain ⟨_ | _, s₁⟩ := r
    · exact hgate
    · simp only
      split
      · exact hgate
      split
      · exact hgate
      · exact publish_current _
  | surfaceAcquire handle =>
    cases hs
    have hgate := h.phaseGate
    unfold surfaceAcquire
    generalize surfacePhaseGate s = r at hgate ⊢
    obtain ⟨_ | _, s₁⟩ := r
    · simp only
      split
      · exact hgate
      · exact hgate.acquireLock handle true
    · exact hgate.acquireLock handle false
  | surfaceRelease =>
    cases hs
    unfold surfaceRelease
    split
    · exact h
    · refine h.keep rfl rfl ?_
      simp only [ctxNonEvictableFootprint, surfaceFlushLock_bytes]
  | enterPhase phase | poke addr b =>
    cases hs
    exact h.keep rfl rfl rfl
  | evictAll | frame =>
    cases hs
    exact publish_current _

theorem SameButCache.call (h : SameButCache env s s') (hop : (HostEvent.call op).MallocOK) :
    replyTo env s op = replyTo env s' op
      ∧ ((sessionStep env s op = none ∧ sessionStep env s' op = none)
        ∨ ∃ s₁ s₁', sessionStep env s op = some s₁ ∧ sessionStep env s' op = some s₁'
          ∧ SameButCache env s₁ s₁') := by
  cases op with
  | heap op =>
    obtain ⟨t, v, rfl, ht⟩ := h
    obtain ⟨hstep, hans⟩ := heapStep_setCache guestSizeMax s.heap v op
    have hheap : (s.recache t v).heap = s.heap.setCache v := rfl
    refine ⟨?_, ?_⟩
    · show Reply.pointer _ = Reply.pointer _
      rw [hheap, hans]
    · simp only [sessionStep, hheap, hstep]
      cases heapStep guestSizeMax s.heap op with
      | none => exact .inl ⟨rfl, rfl⟩
      | some => exact .inr ⟨_, _, rfl, rfl, t, v, rfl, ht⟩
  | pin handle oom =>
    obtain rfl : oom = false := hop
    obtain ⟨hr, hs⟩ := h.pin handle
    obtain ⟨t, v, hs', -⟩ := id hs
    refine ⟨?_, .inr ⟨_, _, rfl, rfl, hs⟩⟩
    have hmem : (resourcePin env false s' handle).2.gmem
        = (resourcePin env false s handle).2.gmem := by rw [hs']; rfl
    have hform : ∀ x, replyTo env x (.pin handle false)
        = .pinned (resourcePin env false x handle).1
          (readGuest (resourcePin env false x handle).2.gmem (resourcePin env false x handle).1.ptr
            ((resourcePin env false x handle).1.size.getD 0)) := fun _ => rfl
    rw [hform, hform, hmem, hr]
  | unpin handle =>
    obtain ⟨hr, hs⟩ := h.unpin handle
    exact ⟨congrArg Reply.code hr, .inr ⟨_, _, rfl, rfl, hs⟩⟩
  | surfaceCreate w ht oom =>
    obtain ⟨hr, hs⟩ := h.surfaceCreate oom w ht
    exact ⟨congrArg Reply.handle hr, .inr ⟨_, _, rfl, rfl, hs⟩⟩
  | surfaceDestroy handle => exact ⟨rfl, .inr ⟨_, _, rfl, rfl, h.surfaceDestroy handle⟩⟩
  | surfaceAcquire handle =>
    obtain ⟨hr, hs⟩ := h.surfaceAcquire handle
    exact ⟨congrArg Reply.lock hr, .inr ⟨_, _, rfl, rfl, hs⟩⟩
  | surfaceRelease token => exact ⟨rfl, .inr ⟨_, _, rfl, rfl, h.surfaceRelease token⟩⟩
  | enterPhase phase | poke addr b =>
    obtain ⟨t, v, rfl, ht⟩ := h
    exact ⟨rfl, .inr ⟨_, _, rfl, rfl, t, v, rfl, ht⟩⟩
  | evictAll => exact ⟨rfl, .inr ⟨_, _, rfl, rfl, h.evictAll⟩⟩
  | frame => exact ⟨rfl, .inr ⟨_, _, rfl, rfl, h.frame⟩⟩

/-- The run without the evictions, on one side, and the run with them, on the other. -/
theorem observe_same (h : SameButCache env s s') (hcur : s.Current) {evs : List HostEvent}
    (hok : ∀ ev ∈ evs, ev.MallocOK) :
    observe env s (evs.filter HostEvent.isCall) = observe env s' evs := by
  induction evs generalizing s s' with
  | nil => rfl
  | cons ev evs ih =>
    obtain ⟨hev, hrest⟩ := forall_mem_cons.mp hok
    cases ev with
    | evict places => exact ih (h.evict hcur places) hcur hrest
    | call =>
      obtain ⟨hr, hs⟩ := h.call hev
      rw [filter_cons_of_pos rfl]
      unfold observe
      rw [hr]
      rcases hs with ⟨h1, h2⟩ | ⟨s₁, s1', h1, h2, h₁⟩
      · rw [h1, h2]
      · rw [h1, h2]
        have hcur1 := hcur.step h.hydrated hev h1
        simp only [h₁.counters, ih h₁ hcur1 hrest]

end Runs

/-- **Eviction is invisible to the cart.** In a session of a packed cart forced evictions,
wherever they come and whatever they evict, change no reply, no byte a pin delivers, and
neither the heap nor the footprint word. -/
theorem eviction_hidden (env : ResEnv) (f : Image) {s₀ s : Session} {ids : List Nat}
    (hload : s₀.resources = resourceTableLoadFromCart f)
    (hcreate : sessionCreate env false s₀ ids = some s) {evs : List HostEvent}
    (hok : ∀ ev ∈ evs, ev.MallocOK) :
    observe env s evs = observe env s (evs.filter HostEvent.isCall) := by
  have hcur : s.Current := by
    obtain ⟨t, -, rfl⟩ := map_eq_some_iff.mp hcreate
    exact publish_current _
  exact (observe_same (sessionCreate_same hload hcreate) hcur hok).symm

/-- Resource 7 is decoded a second time, after an eviction. -/
def evictedRun : List HostEvent :=
  [.call (.heap (.malloc 100)), .call (.pin (2 ^ 29 + 7) false), .evict [0],
   .call (.unpin (2 ^ 29 + 7)), .evict [0], .call (.pin (2 ^ 29 + 7) false), .call .frame]

theorem eviction_hidden_decoded_again :
    ∃ s, sessionCreate demoEnv false squeezedSession [] = some s
      ∧ (observe demoEnv s evictedRun).length = 5
      ∧ observe demoEnv s evictedRun = observe demoEnv s (evictedRun.filter HostEvent.isCall) := by
  obtain ⟨s, hs, hlen⟩ : ∃ s, sessionCreate demoEnv false squeezedSession [] = some s
      ∧ (observe demoEnv s evictedRun).length = 5 := by decide +kernel
  exact ⟨s, hs, hlen, eviction_hidden demoEnv squeezedCart rfl hs (by decide +kernel)⟩

end Blyt
