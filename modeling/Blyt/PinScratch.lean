import Blyt.LockExclusive
import Blyt.PinAdmission

/-!
# What a pinned pointer points to

A pin copies the resource into the scratch region behind the last copy, or to the region's
start if the rest of it is too small, and returns the address. Nothing remembers which of the
earlier copies are still in use: a `Grant` here is what the cart was given and has not released
yet, and `PinView.taken` adds up what was pinned since the frame began. As long as the cart
itself leaves the granted bytes alone and that sum stays within the region, they stay what they
were (`pinned_bytes_stay`).
-/

namespace Blyt

open List Option

/-! ## Grants -/

/-- A pointer that a pin returned: the entry it is for, the address, and the entry's bytes. -/
structure Grant where
  index : Nat
  ptr : Nat
  bytes : List UInt8
  deriving DecidableEq, Repr

/-- What a pin hands out, if it succeeds: as many bytes of the resource as `out_size` says. -/
def pinGrant (env : ResEnv) (oom : Bool) (s : Session) (handle : Nat) : Option Grant :=
  let r := (resourcePin env oom s handle).1
  if r.code ≠ 0 then none
  else do
    let i ← resolveResource s.resources handle
    let e ← s.resources.entries[i]?
    some ⟨i, r.ptr, ((resourceEntryData env oom e).1.getD []).take (r.size.getD 0)⟩

/-- The length of a resource, once its bytes are there. -/
def resourceSize (env : ResEnv) (oom : Bool) (s : Session) (handle : Nat) : Nat :=
  ((resolveResource s.resources handle).bind (s.resources.entries[·]?)).elim 0 fun e =>
    u32 (resourceEntryData env oom e).2.len

/-- A session, what the cart holds of it, and the sizes pinned since the frame began. -/
structure PinView where
  session : Session
  grants : List Grant
  taken : Nat

def Session.pinsOf (s : Session) (i : Nat) : Nat :=
  (s.resources.entries[i]?).elim 0 ResEntry.pinCount

namespace PinView

/-- A grant ends with the last pin of its entry, or with the frame. -/
def grantsAfter (env : ResEnv) (x : PinView) (s' : Session) : SessionOp → List Grant
  | .pin handle oom => (pinGrant env oom x.session handle).toList ++ x.grants
  | .unpin handle => x.grants.filter fun g =>
    resolveResource x.session.resources handle ≠ some g.index ∨ s'.pinsOf g.index ≠ 0
  | .frame => []
  | _ => x.grants

/-- Only a pin that succeeds counts. -/
def takenAfter (env : ResEnv) (x : PinView) : SessionOp → Nat
  | .pin handle oom =>
    if (resourcePin env oom x.session handle).1.code = 0 then
      x.taken + resourceSize env oom x.session handle
    else x.taken
  | .frame => 0
  | _ => x.taken

def step (env : ResEnv) (x : PinView) (op : SessionOp) : Option PinView :=
  (sessionStep env x.session op).map fun s' => ⟨s', x.grantsAfter env s' op, x.takenAfter env op⟩

def frameStart (s : Session) (fnCall : Bool) : PinView := ⟨runFrameEntry s false fnCall, [], 0⟩

/-- The bytes that the cart was given are where it was told. -/
def Intact (x : PinView) : Prop :=
  ∀ g ∈ x.grants, readGuest x.session.gmem g.ptr g.bytes.length = g.bytes

/-- The cart does not store into what it was given. -/
def LeavesGrants (x : PinView) : SessionOp → Prop
  | .poke addr _ => ∀ g ∈ x.grants, ¬ (g.ptr ≤ addr ∧ addr < g.ptr + g.bytes.length)
  | _ => True

instance (x : PinView) (op : SessionOp) : Decidable (x.LeavesGrants op) := by
  induction op using SessionOp.casesOn <;> unfold LeavesGrants <;> infer_instance

/-- A pin that succeeds is of a resource that fits in the region with those pinned before. -/
def FitsScratch (env : ResEnv) (x : PinView) : SessionOp → Prop
  | .pin handle oom => (resourcePin env oom x.session handle).1.code = 0 →
    x.taken + resourceSize env oom x.session handle ≤ resourceScratchSize
  | _ => True

instance (env : ResEnv) (x : PinView) (op : SessionOp) : Decidable (x.FitsScratch env op) := by
  induction op using SessionOp.casesOn <;> unfold FitsScratch <;> infer_instance

end PinView

/-! ## One call -/

/-- Where a copy of `need` bytes goes. -/
def scratchAt (s : Session) (need : Nat) : Nat :=
  if resourceScratchSize < s.resourceScratchOff + need then 0 else s.resourceScratchOff

/-- Guest memory and the scratch offset, as a pin that hands out `g` leaves them. -/
structure ScratchCopy (s s' : Session) (g : Grant) (need : Nat) : Prop where
  len : g.bytes.length ≤ need
  ptr : g.ptr = resourceScratchBase + scratchAt s need
  off : s'.resourceScratchOff = scratchAt s need + need
  gmem : s'.gmem = writeGuest s.gmem g.ptr g.bytes

section Pin

variable {env : ResEnv} {s : Session}

theorem publish_scratchOff (s : Session) :
    (memAcctPublishFootprint s).resourceScratchOff = s.resourceScratchOff := by
  cases hc : s.block with
  | none => rw [publish_of_none hc]
  | some =>
    rw [publish_of_some hc]
    rfl

/-- **What a pin does to guest memory**: nothing, or the copy it hands out. -/
theorem resourcePin_copies (env : ResEnv) (oom : Bool) (handle : Nat)
    (hoff : s.resourceScratchOff ≤ resourceScratchSize) :
    let r := resourcePin env oom s handle
    (r.1.code ≠ 0 ∧ pinGrant env oom s handle = none ∧ r.2.gmem = s.gmem
        ∧ r.2.resourceScratchOff = s.resourceScratchOff)
      ∨ ∃ g, r.1.code = 0 ∧ pinGrant env oom s handle = some g
        ∧ ScratchCopy s r.2 g (resourceSize env oom s handle) := by
  have hsize : resourceScratchSize = 16777216 := rfl
  unfold pinGrant resourceSize resourcePin
  cases hres : resolveResource s.resources handle with
  | none => exact .inl ⟨show (4 : Nat) ≠ 0 by decide, rfl, rfl, rfl⟩
  | some i =>
    simp only [bind_some]
    cases hi : s.resources.entries[i]? with
    | none => exact .inl ⟨show (4 : Nat) ≠ 0 by decide, rfl, rfl, rfl⟩
    | some e =>
      simp only [elim_some]
      by_cases hgate : (!memAcctReferenceFits s e (rlIsEvictable e)) = true
      · rw [if_pos hgate]
        exact .inl ⟨show (2 : Nat) ≠ 0 by decide, rfl, rfl, rfl⟩
      rw [if_neg hgate]
      generalize hd : resourceEntryData env oom e = d
      obtain ⟨bytes, e1⟩ := d
      by_cases hdata : bytes.isNone = true ∧ e1.len ≠ 0
      · rw [if_pos hdata]
        exact .inl ⟨show (3 : Nat) ≠ 0 by decide, rfl, rfl, rfl⟩
      rw [if_neg hdata]
      by_cases hroom : resourceScratchSize < u32 e1.len
      · rw [if_pos hroom]
        exact .inl ⟨show (3 : Nat) ≠ 0 by decide, rfl, rfl, rfl⟩
      rw [if_neg hroom]
      -- neither sum leaves 32 bits, as the offset is in the region
      have hsum : u32 (s.resourceScratchOff + u32 e1.len) = s.resourceScratchOff + u32 e1.len :=
        u32_of_lt (by omega)
      have hat : u32 (scratchAt s (u32 e1.len) + u32 e1.len)
          = scratchAt s (u32 e1.len) + u32 e1.len := by
        refine u32_of_lt ?_
        unfold scratchAt
        split_ifs <;> omega
      simp only [scratchPlace, hsum, publish_gmem, publish_scratchOff]
      refine .inr ⟨⟨i, _, _⟩, trivial, ?_, length_take_le _ _, rfl,
        (publish_scratchOff _).trans hat, (publish_gmem _).trans rfl⟩
      rw [if_neg (by decide)]
      simp [hi, hd, scratchAt]

theorem runFrameEntry_scratchOff (s : Session) (fnCall : Bool) :
    (runFrameEntry s false fnCall).resourceScratchOff = 0 := by
  refine (publish_scratchOff _).trans ?_
  cases fnCall with
  | false => exact congrArg Books.scratchOff (surfaceReapAll_books _)
  | true => rfl

theorem surfaceDestroy_gmem (s : Session) (handle : Nat) :
    (surfaceDestroy s handle).gmem = s.gmem := by
  rw [surfaceDestroy_any]
  split
  · rfl
  · split_ifs
    · exact refused_gmem s
    · exact destroySlot_gmem s _

/-- A lock is filled in the lock arena, and the scratch region is above it. -/
theorem surfaceAcquire_above (hinv : RegInv s.surfaces) (handle : Nat) {a : Nat}
    (ha : lockArenaBase + lockArenaSize ≤ a) (n : Nat) :
    readGuest (surfaceAcquire s handle).2.gmem a n = readGuest s.gmem a n := by
  rw [surfaceAcquire_any]
  split_ifs
  · rw [surfaceAcquireLock_eq]
    cases hu : s.unlocked handle with
    | none => rfl
    | some i =>
      simp only
      split_ifs with hroom
      · have hsized := (hinv.slot i).sized
          (resolveSurface_some (Session.unlocked_eq_some.mp hu).1).1
        have hle := hsized.le_lockBytes
        have harea := hsized.slotArea
        refine readGuest_writeGuest_apart (.inl ?_)
        have hlen : ∀ phantom : Bool, (if phantom then
            replicate (slotArea (s.surfaces.slots i).w (s.surfaces.slots i).h) (0 : UInt8)
            else ((s.surfaces.slots i).pixels.getD []).take
              (slotArea (s.surfaces.slots i).w (s.surfaces.slots i).h)).length
              ≤ (s.surfaces.slots i).area := by
          rintro (_ | _)
          · exact (length_take_le _ _).trans harea.le
          · exact (length_replicate ..).le.trans harea.le
        have := hlen (decide (s.phase ≠ .draw))
        unfold LockRoom at hroom
        omega
      · rfl
  · rw [refused_gmem]

end Pin

theorem SessionOp.pin_or_not (op : SessionOp) :
    (∃ handle oom, op = .pin handle oom) ∨ ∀ handle oom, op ≠ .pin handle oom :=
  (em _).imp_right fun hpin handle oom heq => hpin ⟨handle, oom, heq⟩

variable {op : SessionOp} {env : ResEnv}

namespace PinView

/-- The books are right; everything granted is there, in front of where the next copy goes,
which is behind everything pinned in this frame. -/
structure Inv (env : ResEnv) (x : PinView) : Prop where
  acc : Accounted env x.session
  off : x.session.resourceScratchOff = x.taken
  inside : ∀ g ∈ x.grants, resourceScratchBase ≤ g.ptr
    ∧ g.ptr + g.bytes.length ≤ resourceScratchBase + x.taken
  intact : x.Intact

section Step

variable {env : ResEnv} {s s' : Session} {x x' : PinView}

/-- **Every call but a pin** leaves the bytes of the grants that last. -/
theorem step_quiet (h : x.Inv env) (hpin : ∀ handle oom, op ≠ .pin handle oom)
    (hleaves : x.LeavesGrants op) (hstep : x.step env op = some x') :
    ∀ g ∈ x'.grants, g ∈ x.grants
      ∧ readGuest x'.session.gmem g.ptr g.bytes.length
        = readGuest x.session.gmem g.ptr g.bytes.length := by
  obtain ⟨s', hs', rfl⟩ := map_eq_some_iff.mp hstep
  have hsame : s'.gmem = x.session.gmem → ∀ g ∈ x.grants, g ∈ x.grants
      ∧ readGuest s'.gmem g.ptr g.bytes.length = readGuest x.session.gmem g.ptr g.bytes.length :=
    fun heq g hg => ⟨hg, by rw [heq]⟩
  cases op with
  | heap =>
    obtain ⟨h', -, rfl⟩ := map_eq_some_iff.mp hs'
    exact hsame rfl
  | pin handle oom => exact absurd rfl (hpin handle oom)
  | unpin =>
    cases hs'
    intro g hg
    refine hsame ?_ g (mem_of_mem_filter hg)
    unfold resourceUnpin
    split
    · rfl
    split
    · rfl
    split
    · rfl
    · exact publish_gmem _
  | surfaceCreate w ht oom =>
    cases hs'
    exact hsame (surfaceCreate_gmem oom x.session w ht)
  | surfaceDestroy handle =>
    cases hs'
    exact hsame (surfaceDestroy_gmem x.session handle)
  | surfaceAcquire handle =>
    cases hs'
    refine fun g hg => ⟨hg, surfaceAcquire_above h.acc.regs handle ?_ _⟩
    exact le_trans (by decide) (h.inside g hg).1
  | surfaceRelease =>
    cases hs'
    refine hsame ?_
    unfold surfaceRelease
    split <;> rfl
  | enterPhase =>
    cases hs'
    exact hsame rfl
  | poke =>
    cases hs'
    refine fun g hg => ⟨hg, readGuest_congr fun k hk => ?_⟩
    have hout := hleaves g hg
    exact if_neg (by omega)
  | evictAll =>
    cases hs'
    exact hsame (publish_gmem _)
  | frame => exact fun g hg => by cases hg

theorem sessionStep_scratchOff (hpin : ∀ handle oom, op ≠ .pin handle oom)
    (hframe : op ≠ .frame) (hstep : sessionStep env s op = some s') :
    s'.resourceScratchOff = s.resourceScratchOff := by
  cases op with
  | heap =>
    obtain ⟨h', -, rfl⟩ := map_eq_some_iff.mp hstep
    rfl
  | pin handle oom => exact absurd rfl (hpin handle oom)
  | unpin =>
    cases hstep
    unfold resourceUnpin
    split
    · rfl
    split
    · rfl
    split
    · rfl
    · exact publish_scratchOff _
  | surfaceCreate w ht oom =>
    cases hstep
    exact congrArg Books.scratchOff (surfaceCreate_books oom s w ht)
  | surfaceDestroy handle =>
    cases hstep
    exact congrArg Books.scratchOff (surfaceDestroy_books s handle)
  | surfaceAcquire handle =>
    cases hstep
    exact congrArg Books.scratchOff (surfaceAcquire_books s handle)
  | surfaceRelease token =>
    cases hstep
    exact congrArg Books.scratchOff (surfaceRelease_books s token)
  | enterPhase phase | poke addr v =>
    cases hstep
    rfl
  | evictAll =>
    cases hstep
    exact publish_scratchOff _
  | frame => exact absurd rfl hframe

/-- **A pin** that fits puts its copy behind the grants. -/
theorem step_pin (h : x.Inv env) {handle : Nat} {oom : Bool}
    (hfits : x.FitsScratch env (.pin handle oom)) (hstep : x.step env (.pin handle oom) = some x') :
    x'.Inv env := by
  obtain ⟨s', hs', rfl⟩ := map_eq_some_iff.mp hstep
  have hacc := h.acc.step hs'
  cases hs'
  rcases resourcePin_copies env oom handle h.acc.books.scratch with
    ⟨hcode, hnone, hgmem, hoff⟩ | ⟨c, hcode, hsome, hcopy⟩
  · refine ⟨hacc, ?_, ?_, ?_⟩ <;>
      simp only [takenAfter, grantsAfter, Intact, if_neg hcode, hnone, hoff, hgmem]
    · exact h.off
    · exact h.inside
    · exact h.intact
  · have hroom := hfits hcode
    have hat : scratchAt x.session (resourceSize env oom x.session handle) = x.taken := by
      rw [scratchAt, h.off, if_neg (by omega)]
    obtain ⟨hlen, hptr, hoff, hgmem⟩ := hcopy
    rw [hat] at hptr hoff
    refine ⟨hacc, ?_, ?_, ?_⟩ <;>
      simp only [takenAfter, grantsAfter, Intact, if_pos hcode, hsome, hoff, hgmem,
        toList_some, singleton_append, forall_mem_cons]
    · refine ⟨by omega, fun g hg => ?_⟩
      have := h.inside g hg
      omega
    · refine ⟨readGuest_writeGuest _ _ _, fun g hg => ?_⟩
      rw [readGuest_writeGuest_apart (.inr (hptr ▸ (h.inside g hg).2))]
      exact h.intact g hg

theorem step_inv (h : x.Inv env) (hleaves : x.LeavesGrants op) (hfits : x.FitsScratch env op)
    (hstep : x.step env op = some x') : x'.Inv env := by
  rcases op.pin_or_not with ⟨handle, oom, rfl⟩ | hnot
  · exact step_pin h hfits hstep
  have hquiet := step_quiet h hnot hleaves hstep
  obtain ⟨s', hs', rfl⟩ := map_eq_some_iff.mp hstep
  have hintact : PinView.Intact ⟨s', x.grantsAfter env s' op, x.takenAfter env op⟩ :=
    fun g hg => (hquiet g hg).2.trans (h.intact g (hquiet g hg).1)
  by_cases hframe : op = .frame
  · subst hframe
    have hacc := h.acc.step hs'
    cases hs'
    exact ⟨hacc, runFrameEntry_scratchOff _ _, fun g hg => (by cases hg), hintact⟩
  · have htaken : x.takenAfter env op = x.taken := by
      cases op with
      | pin handle oom => exact absurd rfl (hnot handle oom)
      | frame => exact absurd rfl hframe
      | _ => rfl
    refine ⟨h.acc.step hs', ?_, fun g hg => ?_, hintact⟩
    · rw [htaken, sessionStep_scratchOff hnot hframe hs']
      exact h.off
    · rw [htaken]
      exact h.inside g (hquiet g hg).1

end Step

theorem frameStart_inv {s : Session} (h : Accounted env s) (fnCall : Bool) :
    (frameStart s fnCall).Inv env :=
  ⟨h.frame false fnCall, runFrameEntry_scratchOff s fnCall, fun g hg => (by cases hg),
    fun g hg => (by cases hg)⟩

/-! ## Whole runs -/

/-- **Pinned bytes stay**, from the start of any frame, whatever the cart calls, as long as it
does not store into what it was given and no frame pins more than the region holds. -/
theorem pinned_bytes_stay {s : Session} (hs : s.Reached env) (fnCall : Bool)
    {ops : List SessionOp} (hleaves : AdmRun (step env) LeavesGrants (frameStart s fnCall) ops)
    (hfits : AdmRun (step env) (FitsScratch env) (frameStart s fnCall) ops) :
    ∀ pre, pre <+: ops → ∀ x, runSteps (step env) (frameStart s fnCall) pre = some x →
      x.Intact := by
  have hinv := frameStart_inv hs.accounted fnCall
  refine forall_prefix_iff.mpr ⟨hinv.intact, ?_⟩
  refine (hleaves.and hfits).imp (fun x op _ hx hop x' hstep => ?_) ?_ hinv
  · exact (step_inv hx hop.1 hop.2 hstep).intact
  · intro x op _ x' hx hop hstep
    exact step_inv hx hop.1 hop.2 hstep

/-- A resource of one byte, and one of 8 MiB. -/
def twoSession : Session :=
  { demoSession with
    resources := ⟨[{ demoEntry 5 1 with data := some [1], algo := resAlgoNone, cdata := [] },
      demoEntry 7 8388608], 0⟩
    surfaces := newSurfaces }

theorem twoSession_new : NewCart demoEnv twoSession := by
  refine ⟨⟨countable_refs fun e he => ?_, rfl, Nat.zero_le _, rfl⟩, rfl⟩
  rcases mem_pair.mp he with rfl | rfl <;>
    exact ⟨by simp [demoEntry], by simp [demoEntry], fun path buf hp => by cases hp⟩

/-- The one byte is pinned twice, the cart stores next to it and releases one pin; it is pinned
twice again in the next frame. -/
def shortPins : List SessionOp :=
  [.pin (2 ^ 29 + 5) false, .heap (.malloc 8), .pin (2 ^ 29 + 5) false,
   .poke (resourceScratchBase + 2) 7, .unpin (2 ^ 29 + 5), .frame, .pin (2 ^ 29 + 5) false,
   .pin (2 ^ 29 + 5) false]

theorem pinned_bytes_demo :
    ∃ s x, Session.Reached demoEnv s
      ∧ runSteps (step demoEnv) (frameStart s false) shortPins = some x
      ∧ x.grants = [⟨0, resourceScratchBase + 1, [1]⟩, ⟨0, resourceScratchBase, [1]⟩]
      ∧ ∀ pre, pre <+: shortPins → ∀ x,
        runSteps (step demoEnv) (frameStart s false) pre = some x → x.Intact := by
  obtain ⟨s, hs, hleaves, hfits, x, hx, hgrants⟩ : ∃ s,
      sessionCreate demoEnv false twoSession [] = some s
      ∧ AdmRun (step demoEnv) LeavesGrants (frameStart s false) shortPins
      ∧ AdmRun (step demoEnv) (FitsScratch demoEnv) (frameStart s false) shortPins
      ∧ ∃ x, runSteps (step demoEnv) (frameStart s false) shortPins = some x
        ∧ x.grants = [⟨0, resourceScratchBase + 1, [1]⟩, ⟨0, resourceScratchBase, [1]⟩] := by
    decide +kernel
  have hreached : Session.Reached demoEnv s :=
    ⟨twoSession, s, [], false, [], twoSession_new, hs, rfl⟩
  exact ⟨s, x, hreached, hx, hgrants, pinned_bytes_stay hreached false hleaves hfits⟩

/-! ## A copy that starts over -/

/-- The small one is held, the large one is pinned, released and pinned again. -/
def wrapPins : List SessionOp :=
  [.pin (2 ^ 29 + 5) false, .pin (2 ^ 29 + 7) false, .unpin (2 ^ 29 + 7)]

/-- A copy over a grant of one byte replaces it. -/
theorem not_intact_of_copy {x : PinView} {oom : Bool} {handle n : Nat}
    (hoff : x.session.resourceScratchOff ≤ resourceScratchSize) {i a : Nat} {b b' : UInt8}
    (hgrant : ⟨i, a, [b]⟩ ∈ x.grants)
    (hcopy : (pinGrant env oom x.session handle).any (fun c => c.ptr = a ∧ c.bytes.head? = some b'))
    (hne : b' ≠ b) :
    ¬ PinView.Intact ⟨(resourcePin env oom x.session handle).2,
      (pinGrant env oom x.session handle).toList ++ x.grants, n⟩ := by
  intro hintact
  have hread := hintact ⟨i, a, [b]⟩ (mem_append_right _ hgrant)
  rcases resourcePin_copies env oom handle hoff with
    ⟨-, hnone, -⟩ | ⟨c, -, hsome, hc⟩
  · rw [hnone] at hcopy
    cases hcopy
  · rw [hsome, any_some, decide_eq_true_eq] at hcopy
    obtain ⟨hptr, hhead⟩ := hcopy
    obtain ⟨rest, hbytes⟩ := head?_eq_some_iff.mp hhead
    have hbyte := readGuest_eq_iff.mp hread 0 (by simp)
    simp [hc.gmem, hptr, hbytes, writeGuest] at hbyte
    exact hne hbyte

/-- The last copy starts over at the beginning of the region, where the held byte is. -/
theorem pinned_bytes_overwritten :
    ∃ s x, Session.Reached demoEnv s
      ∧ AdmRun (step demoEnv) LeavesGrants (frameStart s false)
        (wrapPins ++ [.pin (2 ^ 29 + 7) false])
      ∧ runSteps (step demoEnv) (frameStart s false)
        (wrapPins ++ [.pin (2 ^ 29 + 7) false]) = some x
      ∧ ⟨0, resourceScratchBase, [1]⟩ ∈ x.grants ∧ x.session.pinsOf 0 = 1 ∧ ¬ x.Intact := by
  obtain ⟨s, hs, x, hx, hoff, hgrant, hpins, hcopy⟩ : ∃ s,
      sessionCreate demoEnv false twoSession [] = some s
      ∧ ∃ x, runSteps (step demoEnv) (frameStart s false) wrapPins = some x
        ∧ x.session.resourceScratchOff ≤ resourceScratchSize
        ∧ ⟨0, resourceScratchBase, [1]⟩ ∈ x.grants
        ∧ (resourcePin demoEnv false x.session (2 ^ 29 + 7)).2.pinsOf 0 = 1
        ∧ (pinGrant demoEnv false x.session (2 ^ 29 + 7)).any fun c =>
          c.ptr = resourceScratchBase ∧ c.bytes.head? = some 0 := by
    decide +kernel
  refine ⟨s, ⟨(resourcePin demoEnv false x.session (2 ^ 29 + 7)).2,
      (pinGrant demoEnv false x.session (2 ^ 29 + 7)).toList ++ x.grants,
      x.takenAfter demoEnv (.pin (2 ^ 29 + 7) false)⟩,
    ⟨twoSession, s, [], false, [], twoSession_new, hs, rfl⟩, ?_, ?_,
    mem_append_right _ hgrant, hpins, not_intact_of_copy hoff hgrant hcopy (by decide)⟩
  · simp [wrapPins, AdmRun, LeavesGrants]
  · rw [runSteps_append, hx]
    rfl

end PinView

end Blyt
