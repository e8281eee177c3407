import Mathlib.Tactic

/-!
# Runs of a partial step function

A system that takes one event at a time; a step without a result is a call
that never returns. `AdmRun` says that every event of a run is admissible in
the state it is taken in, and `runSteps_inv` is the one induction over runs:
what every admissible step keeps, an admissible run keeps - and it gets
through. A second form, for systems that answer every call, has its own
invariant rule and a simulation rule for two of them.
-/

namespace Blyt

open List Option

variable {σ ε : Type}

/-- Take the events in order. -/
def runSteps (step : σ → ε → Option σ) : σ → List ε → Option σ
  | s, [] => some s
  | s, e :: es => (step s e).bind fun s' => runSteps step s' es

/-- Every event is admissible in the state the run has reached. -/
def AdmRun (step : σ → ε → Option σ) (adm : σ → ε → Prop) : σ → List ε → Prop
  | _, [] => True
  | s, e :: es => adm s e ∧ ∀ s', step s e = some s' → AdmRun step adm s' es

instance AdmRun.decidable (step : σ → ε → Option σ) (adm : σ → ε → Prop)
    [∀ s e, Decidable (adm s e)] : ∀ s es, Decidable (AdmRun step adm s es)
  | _, [] => .isTrue trivial
  | s, e :: es =>
    match h : step s e with
    | none => decidable_of_iff (adm s e) ⟨fun ha => ⟨ha, by simp [h]⟩, And.left⟩
    | some s' =>
      have := AdmRun.decidable step adm s' es
      decidable_of_iff (adm s e ∧ AdmRun step adm s' es) (and_congr_right fun _ => by simp [h])

variable {step : σ → ε → Option σ} {ok ok' : σ → ε → Prop} {I : σ → Prop} {es : List ε}
  {adm : σ → ε → Prop} {Inv : σ → Prop} {δ : Type} {s : σ}

/-- A condition on the events of a run that gives another one where an invariant holds, and
keeps it, gives the other one of the run. -/
theorem AdmRun.imp (himp : ∀ s, ∀ e ∈ es, I s → ok s e → ok' s e)
    (hstep : ∀ s, ∀ e ∈ es, ∀ s', I s → ok s e → step s e = some s' → I s') (hs : I s)
    (h : AdmRun step ok s es) : AdmRun step ok' s es := by
  induction es generalizing s with
  | nil => trivial
  | cons e es ih =>
    have hmem : ∀ {e'}, e' ∈ es → e' ∈ e :: es := mem_cons_of_mem e
    refine ⟨himp s e mem_cons_self hs h.1, fun s' hs' => ?_⟩
    exact ih (fun s e he => himp s e (hmem he)) (fun s e he => hstep s e (hmem he))
      (hstep s e mem_cons_self s' hs h.1 hs') (h.2 s' hs')

/-- Two conditions that say the same of each event where an invariant holds, and keep it,
say the same of a run. -/
theorem admRun_congr (hiff : ∀ s, ∀ e ∈ es, I s → (ok s e ↔ ok' s e))
    (hstep : ∀ s, ∀ e ∈ es, ∀ s', I s → ok' s e → step s e = some s' → I s') (hs : I s) :
    AdmRun step ok s es ↔ AdmRun step ok' s es :=
  ⟨AdmRun.imp (fun s e he hi => (hiff s e he hi).mp)
      (fun s e he s' hi hok => hstep s e he s' hi ((hiff s e he hi).mp hok)) hs,
    AdmRun.imp (fun s e he hi => (hiff s e he hi).mpr) hstep hs⟩

theorem AdmRun.of_forall {P : ε → Prop}
    (h : ∀ e ∈ es, P e) (s : σ) : AdmRun step (fun _ => P) s es := by
  induction es generalizing s with
  | nil => trivial
  | cons e es ih =>
    exact ⟨h e mem_cons_self, fun s' _ =>
      ih (fun e he => h e (mem_cons_of_mem _ he)) s'⟩

theorem AdmRun.and {p q : σ → ε → Prop} (hp : AdmRun step p s es)
    (hq : AdmRun step q s es) : AdmRun step (fun s e => p s e ∧ q s e) s es := by
  induction es generalizing s with
  | nil => trivial
  | cons e es ih => exact ⟨⟨hp.1, hq.1⟩, fun s' hs' => ih (hp.2 s' hs') (hq.2 s' hs')⟩

/-- Two conditions that say the same of each admissible event where an invariant holds, and
keep it, say the same of an admissible run. -/
theorem AdmRun.congr (hadm : AdmRun step adm s es)
    (hiff : ∀ s e, I s → adm s e → (ok s e ↔ ok' s e))
    (hstep : ∀ s e s', I s → adm s e → ok' s e → step s e = some s' → I s') (hs : I s) :
    AdmRun step ok s es ↔ AdmRun step ok' s es := by
  constructor
  · intro h
    refine AdmRun.imp (fun s e _ hi h => (hiff s e hi h.1).mp h.2) ?_ hs (hadm.and h)
    exact fun s e _ s' hi h => hstep s e s' hi h.1 ((hiff s e hi h.1).mp h.2)
  · intro h
    refine AdmRun.imp (fun s e _ hi h => (hiff s e hi h.1).mpr h.2) ?_ hs (hadm.and h)
    exact fun s e _ s' hi h => hstep s e s' hi h.1 h.2

/-- Two step functions that agree on the events of a run take it alike. -/
theorem runSteps_congr {step' : σ → ε → Option σ} (h : ∀ s, ∀ e ∈ es, step' s e = step s e)
    (s : σ) : runSteps step' s es = runSteps step s es := by
  induction es generalizing s with
  | nil => rfl
  | cons e es ih =>
    rw [runSteps, h s e mem_cons_self]
    exact congrArg _ (funext fun s' => ih (fun s e he => h s e (mem_cons_of_mem _ he)) s')

theorem AdmRun.step_congr {step' : σ → ε → Option σ} (h : ∀ s, ∀ e ∈ es, step' s e = step s e)
    (hs : AdmRun step ok s es) : AdmRun step' ok s es := by
  induction es generalizing s with
  | nil => trivial
  | cons e es ih =>
    refine ⟨hs.1, fun s' hs' => ih (fun s e he => h s e (mem_cons_of_mem _ he)) ?_⟩
    exact hs.2 s' ((h s e mem_cons_self).symm.trans hs')

/-- What holds where a run ends is decided by running it. -/
instance decidableSome (o : Option σ) (P : σ → Prop) [DecidablePred P] :
    Decidable (∃ s, o = some s ∧ P s) :=
  inferInstanceAs (Decidable (∃ s ∈ o, P s))

/-- **The invariant rule.** If every admissible event, taken in a state with the
invariant, gives a state with the invariant, then an admissible run from a
state with the invariant gets through and ends in one. -/
theorem runSteps_inv (hstep : ∀ s e, Inv s → adm s e → ∃ s', step s e = some s' ∧ Inv s')
    (hs : Inv s) (hadm : AdmRun step adm s es) : ∃ s', runSteps step s es = some s' ∧ Inv s' := by
  induction es generalizing s with
  | nil => exact ⟨s, rfl, hs⟩
  | cons e es ih =>
    obtain ⟨s1, h1, hs1⟩ := hstep s e hs hadm.1
    obtain ⟨s', h', hs'⟩ := ih hs1 (hadm.2 s1 h1)
    exact ⟨s', by simp [runSteps, h1, h'], hs'⟩

theorem runSteps_append (step : σ → ε → Option σ) (s : σ) (es es' : List ε) :
    runSteps step s (es ++ es') = (runSteps step s es).bind fun s' => runSteps step s' es' := by
  induction es generalizing s with
  | nil => rfl
  | cons e es ih =>
    rw [cons_append, runSteps, runSteps, bind_assoc]
    exact congrArg _ (funext ih)

/-- What every step keeps holds where a run ends, if it gets through. -/
theorem runSteps_keeps (hstep : ∀ s e s', Inv s → step s e = some s' → Inv s') {s' : σ}
    (hs : Inv s) (hrun : runSteps step s es = some s') : Inv s' := by
  induction es generalizing s with
  | nil =>
    cases hrun
    exact hs
  | cons e es ih =>
    obtain ⟨s1, h1, hrest⟩ := bind_eq_some_iff.mp hrun
    exact ih (hstep s e s1 hs h1) hrest

/-- What holds wherever a run has got to holds where it starts and after every step. -/
theorem forall_prefix_iff {P : σ → Prop} :
    (∀ pre, pre <+: es → ∀ s', runSteps step s pre = some s' → P s')
      ↔ P s ∧ AdmRun step (fun s e => ∀ s', step s e = some s' → P s') s es := by
  induction es generalizing s with
  | nil =>
    refine ⟨fun h => ⟨h [] nil_prefix s rfl, trivial⟩, fun h pre hpre s' hs' => ?_⟩
    rw [prefix_nil.mp hpre] at hs'
    cases hs'
    exact h.1
  | cons e es ih =>
    constructor
    · intro h
      have hrest : ∀ s1, step s e = some s1 →
          ∀ pre, pre <+: es → ∀ s', runSteps step s1 pre = some s' → P s' := by
        intro s1 h1 pre hpre s' hs'
        refine h (e :: pre) ((prefix_cons_inj e).mpr hpre) s' ?_
        rw [runSteps, h1]
        exact hs'
      refine ⟨h [] nil_prefix s rfl, fun s1 h1 => ?_, fun s1 h1 => ?_⟩
      · exact (ih.mp (hrest s1 h1)).1
      · exact (ih.mp (hrest s1 h1)).2
    · rintro ⟨hs, hone, hrun⟩ pre hpre s' hs'
      rcases prefix_cons_iff.mp hpre with rfl | ⟨pre', rfl, hpre'⟩
      · cases hs'
        exact hs
      · obtain ⟨s1, h1, hrest⟩ := bind_eq_some_iff.mp hs'
        exact ih.mpr ⟨hone s1 h1, hrun s1 h1⟩ pre' hpre' s' hrest

/-! ## Steps that answer -/

variable {τ ρ : Type}

/-- The state a list of calls leads to, and their answers. -/
def traceOf (step : σ → ε → σ × ρ) : σ → List ε → σ × List ρ
  | s, [] => (s, [])
  | s, e :: es =>
    ((traceOf step (step s e).1 es).1, (step s e).2 :: (traceOf step (step s e).1 es).2)

variable {step : σ → ε → σ × ρ}

theorem traceOf_inv (hstep : ∀ s e, Inv s → Inv (step s e).1)
    (hs : Inv s) : Inv (traceOf step s es).1 := by
  induction es generalizing s with
  | nil => exact hs
  | cons e es ih => exact ih (hstep s e hs)

theorem traceOf_map (step : σ → ε → σ × ρ) (f : δ → ε) (s : σ) (es : List δ) :
    traceOf step s (es.map f) = traceOf (fun s e => step s (f e)) s es := by
  induction es generalizing s with
  | nil => rfl
  | cons e es ih => rw [map_cons, traceOf, traceOf, ih]

variable {step' : τ → ε → τ × ρ}

/-- **The simulation rule.** Two machines whose calls keep a relation and give the
same answers have the same traces and end in related states. -/
theorem traceOf_simulation {Sim : σ → τ → Prop}
    {ok : ε → Prop} (hstep : ∀ s t e, Sim s t → ok e →
      (step s e).2 = (step' t e).2 ∧ Sim (step s e).1 (step' t e).1) {t : τ} (hst : Sim s t)
    (hok : ∀ e ∈ es, ok e) :
    (traceOf step s es).2 = (traceOf step' t es).2
      ∧ Sim (traceOf step s es).1 (traceOf step' t es).1 := by
  induction es generalizing s t with
  | nil => exact ⟨rfl, hst⟩
  | cons e es ih =>
    rw [forall_mem_cons] at hok
    obtain ⟨hr, hst'⟩ := hstep s t e hst hok.1
    obtain ⟨hrs, hend⟩ := ih hst' hok.2
    refine ⟨?_, hend⟩
    show _ :: _ = _ :: _
    rw [hr, hrs]

/-- **The counting rule.** A call that succeeds while fewer than `cap` have, and then
never again, succeeds `cap` times. -/
theorem traceOf_successes {step : σ → ε → σ × Option ρ} {e : ε} {P : Nat → σ → Prop} {cap : Nat}
    (hyes : ∀ j s, P j s → j < cap → (step s e).2.isSome = true ∧ P (j + 1) (step s e).1)
    (hno : ∀ s, P cap s → (step s e).2 = none ∧ P cap (step s e).1)
    {j : Nat} (hs : P j s) (hj : j ≤ cap) (n : Nat) :
    (traceOf step s (replicate n e)).2.countP isSome = min n (cap - j) := by
  induction n generalizing j s with
  | zero => exact (Nat.zero_min _).symm
  | succ n ih =>
    rw [replicate_succ, traceOf, countP_cons]
    rcases Nat.lt_or_eq_of_le hj with hlt | rfl
    · obtain ⟨hsome, hnext⟩ := hyes j s hs hlt
      rw [ih hnext hlt, if_pos hsome]
      omega
    · obtain ⟨hnone, hnext⟩ := hno s hs
      rw [ih hnext le_rfl, if_neg (by simp [hnone])]
      omega

/-- `ok` holds of the state and the call, at every call. -/
def EachStep (step : σ → ε → σ × ρ) (ok : σ → ε → Prop) : σ → List ε → Prop
  | _, [] => True
  | s, e :: es => ok s e ∧ EachStep step ok (step s e).1 es

instance EachStep.decidable (step : σ → ε → σ × ρ) (ok : σ → ε → Prop)
    [∀ s e, Decidable (ok s e)] : ∀ s es, Decidable (EachStep step ok s es)
  | _, [] => .isTrue trivial
  | s, e :: es =>
    have := EachStep.decidable step ok (step s e).1 es
    inferInstanceAs (Decidable (_ ∧ _))

/-- Two conditions that say the same of each call where an invariant holds, and keep it,
say the same of a run. -/
theorem eachStep_congr {step : σ → ε → σ × ρ} (hiff : ∀ s, ∀ e ∈ es, I s → (ok s e ↔ ok' s e))
    (hstep : ∀ s, ∀ e ∈ es, I s → ok' s e → I (step s e).1) {s : σ} (hs : I s) :
    EachStep step ok s es ↔ EachStep step ok' s es := by
  induction es generalizing s with
  | nil => exact Iff.rfl
  | cons e es ih =>
    have hrest := fun {s'} => @ih (fun s e he => hiff s e (mem_cons_of_mem _ he))
      (fun s e he => hstep s e (mem_cons_of_mem _ he)) s'
    constructor
    · rintro ⟨hok, hrun⟩
      have hok' := (hiff s e mem_cons_self hs).mp hok
      exact ⟨hok', (hrest (hstep s e mem_cons_self hs hok')).mp hrun⟩
    · rintro ⟨hok', hrun⟩
      exact ⟨(hiff s e mem_cons_self hs).mpr hok',
        (hrest (hstep s e mem_cons_self hs hok')).mpr hrun⟩

/-- Every call leaves the state alike exactly if the state is always like the first one. -/
theorem eachStep_rel_iff {R : σ → σ → Prop} (hR : Equivalence R) :
    EachStep step (fun s e => R s (step s e).1) s es
      ↔ ∀ pre, pre <+: es → R s (traceOf step s pre).1 := by
  induction es generalizing s with
  | nil =>
    refine ⟨fun _ pre hpre => ?_, fun _ => trivial⟩
    rw [prefix_nil.mp hpre]
    exact hR.refl s
  | cons e es ih =>
    constructor
    · rintro ⟨hone, hrun⟩ pre hpre
      rcases prefix_cons_iff.mp hpre with rfl | ⟨pre', rfl, hpre'⟩
      · exact hR.refl s
      · exact hR.trans hone (ih.mp hrun pre' hpre')
    · intro hall
      have hone := hall [e] (prefix_cons_inj e |>.mpr nil_prefix)
      refine ⟨hone, ih.mpr fun pre hpre => ?_⟩
      exact hR.trans (hR.symm hone) (hall (e :: pre) ((prefix_cons_inj e).mpr hpre))

/-- How many steps of a run are of a kind that shows in the states before and after. -/
def countSteps (step : σ → ε → σ × ρ) (kind : σ → σ → Bool) : σ → List ε → Nat
  | _, [] => 0
  | s, e :: es => (kind s (step s e).1).toNat + countSteps step kind (step s e).1 es

section Count

variable {step : σ → ε → σ × ρ} {kind : σ → σ → Bool} {I : σ → Prop}

/-- A number that steps of one kind count up and wrap, and other steps leave, counts them. -/
theorem countSteps_mod {g : σ → Nat} {N : Nat} (hI : ∀ s e, I s → I (step s e).1)
    (hlt : ∀ s, I s → g s < N)
    (hstep : ∀ s e, I s → g (step s e).1 = (g s + (kind s (step s e).1).toNat) % N)
    (hs : I s) (es : List ε) : g (traceOf step s es).1 = (g s + countSteps step kind s es) % N := by
  induction es generalizing s with
  | nil => exact (Nat.mod_eq_of_lt (hlt s hs)).symm
  | cons e es ih =>
    rw [traceOf, ih (hI s e hs), hstep s e hs, countSteps, Nat.mod_add_mod, Nat.add_assoc]

/-- What only steps of one kind can end lasts as long as there are none. -/
theorem countSteps_zero {L : σ → Prop} (hI : ∀ s e, I s → I (step s e).1) {es : List ε}
    (hstep : ∀ s, ∀ e ∈ es, I s → L s → kind s (step s e).1 = false → L (step s e).1)
    (hs : I s) (hl : L s) (hzero : countSteps step kind s es = 0) : L (traceOf step s es).1 := by
  induction es generalizing s with
  | nil => exact hl
  | cons e es ih =>
    rw [countSteps, Nat.add_eq_zero_iff] at hzero
    have hkind : kind s (step s e).1 = false := by
      cases hk : kind s (step s e).1 with
      | false => rfl
      | true =>
        rw [hk] at hzero
        cases hzero.1
    exact ih (fun s e he => hstep s e (mem_cons_of_mem _ he)) (hI s e hs)
      (hstep s e mem_cons_self hs hl hkind) hzero.2

end Count

/-- Two machines side by side: `ok` holds of both states and the call, at every call. -/
def PairRun (step : σ → ε → σ × ρ) (step' : τ → ε → τ × ρ) (ok : σ → τ → ε → Prop) :
    σ → τ → List ε → Prop
  | _, _, [] => True
  | s, t, e :: es => ok s t e ∧ PairRun step step' ok (step s e).1 (step' t e).1 es

instance PairRun.decidable (step : σ → ε → σ × ρ) (step' : τ → ε → τ × ρ)
    (ok : σ → τ → ε → Prop) [∀ s t e, Decidable (ok s t e)] :
    ∀ s t es, Decidable (PairRun step step' ok s t es)
  | _, _, [] => .isTrue trivial
  | s, t, e :: es =>
    have := PairRun.decidable step step' ok (step s e).1 (step' t e).1 es
    inferInstanceAs (Decidable (_ ∧ _))

/-- Two conditions that say the same of each call where an invariant holds, and keep it,
say the same of a run. -/
theorem pairRun_congr {ok ok' : σ → τ → ε → Prop}
    {I : σ → τ → Prop} (hiff : ∀ s t e, I s t → (ok s t e ↔ ok' s t e))
    (hstep : ∀ s t e, I s t → ok' s t e → I (step s e).1 (step' t e).1) {t : τ}
    (hst : I s t) (es : List ε) : PairRun step step' ok s t es ↔ PairRun step step' ok' s t es := by
  induction es generalizing s t with
  | nil => exact Iff.rfl
  | cons e es ih =>
    constructor
    · rintro ⟨hok, hrun⟩
      have hok' := (hiff s t e hst).mp hok
      exact ⟨hok', (ih (hstep s t e hst hok')).mp hrun⟩
    · rintro ⟨hok', hrun⟩
      exact ⟨(hiff s t e hst).mpr hok', (ih (hstep s t e hst hok')).mpr hrun⟩

/-- Equal answers at every call are equal traces. -/
theorem PairRun.trace {ok : σ → τ → ε → Prop}
    (hok : ∀ s t e, ok s t e → (step s e).2 = (step' t e).2) {t : τ}
    (h : PairRun step step' ok s t es) : (traceOf step s es).2 = (traceOf step' t es).2 := by
  induction es generalizing s t with
  | nil => rfl
  | cons e es ih =>
    obtain ⟨he, hes⟩ := h
    show _ :: _ = _ :: _
    rw [hok s t e he, ih hes]

/-! ## Steps that answer or never return -/

/-- The answers to a list of calls; after one that never returns there are no more. -/
def showsOf (step : σ → ε → Option (σ × ρ)) : σ → List ε → List (Option ρ)
  | _, [] => []
  | s, e :: es =>
    match step s e with
    | none => [none]
    | some (s', r) => some r :: showsOf step s' es

theorem showsOf_congr {step step' : σ → ε → Option (σ × ρ)}
    (h : ∀ s, ∀ e ∈ es, step' s e = step s e) (s : σ) : showsOf step' s es = showsOf step s es := by
  induction es generalizing s with
  | nil => rfl
  | cons e es ih =>
    have hrest := ih fun s e he => h s e (mem_cons_of_mem _ he)
    simp only [showsOf, h s e mem_cons_self, hrest]

theorem showsOf_map (step : σ → ε → Option (σ × ρ)) (f : δ → ε) (s : σ) (es : List δ) :
    showsOf step s (es.map f) = showsOf (fun s e => step s (f e)) s es := by
  induction es generalizing s with
  | nil => rfl
  | cons e es ih => simp only [map_cons, showsOf, ih]

/-- What two machines do with a call: neither returns, or both give the same answer and
are related again. -/
def SameAnswer (Sim : σ → τ → Prop) (x : Option (σ × ρ)) (y : Option (τ × ρ)) : Prop :=
  (x = none ∧ y = none) ∨ ∃ s t r, x = some (s, r) ∧ y = some (t, r) ∧ Sim s t

/-- **The simulation rule** for calls that may never return. -/
theorem showsOf_simulation {step : σ → ε → Option (σ × ρ)} {step' : τ → ε → Option (τ × ρ)}
    {Sim : σ → τ → Prop} (hstep : ∀ s t e, Sim s t → ok s e → SameAnswer Sim (step s e) (step' t e))
    {t : τ} (hst : Sim s t) (hok : AdmRun (fun s e => (step s e).map Prod.fst) ok s es) :
    showsOf step s es = showsOf step' t es := by
  induction es generalizing s t with
  | nil => rfl
  | cons e es ih =>
    rw [showsOf, showsOf]
    rcases hstep s t e hst hok.1 with ⟨hs, ht⟩ | ⟨s', t', r, hs, ht, hst'⟩
    · rw [hs, ht]
    · rw [hs, ht]
      exact congrArg _ (ih hst' (hok.2 s' (congrArg (Option.map Prod.fst) hs)))

/-! ## Related lists -/

section Related

variable {α β : Type} {R : α → β → Prop} {l : List α} {l' : List β} {i : Nat} {a : α} {b : β}

theorem forall₂_getElem? (h : List.Forall₂ R l l') (ha : l[i]? = some a) :
    ∃ b, l'[i]? = some b ∧ R a b := by
  induction h generalizing i with
  | nil => cases ha
  | cons hab _ ih =>
    cases i with
    | zero =>
      cases ha
      exact ⟨_, rfl, hab⟩
    | succ => exact ih ha

theorem forall₂_eraseP {P : α → Bool} {Q : β → Bool} (hPQ : ∀ x y, R x y → Q y = P x)
    (h : List.Forall₂ R l l') : List.Forall₂ R (l.eraseP P) (l'.eraseP Q) := by
  induction h with
  | nil => exact .nil
  | cons hxy hl ih =>
    rw [eraseP_cons, eraseP_cons, hPQ _ _ hxy]
    cases P _ with
    | true => exact hl
    | false => exact .cons hxy ih

theorem forall₂_set (h : List.Forall₂ R l l') (hab : R a b) :
    List.Forall₂ R (l.set i a) (l'.set i b) := by
  induction h generalizing i with
  | nil => exact List.Forall₂.nil
  | cons hcd htail ih =>
    cases i with
    | zero => exact List.Forall₂.cons hab htail
    | succ => exact List.Forall₂.cons hcd ih

theorem forall₂_set_right (h : List.Forall₂ R l l')
    (ha : l[i]? = some a) (hab : R a b) : List.Forall₂ R l (l'.set i b) := by
  obtain ⟨hlt, rfl⟩ := List.getElem?_eq_some_iff.mp ha
  have := forall₂_set h (i := i) hab
  rwa [set_getElem_self] at this

theorem forall₂_mapIdx_right {f : Nat → β → β} (h : List.Forall₂ R l l')
    (hf : ∀ i a b, R a b → R a (f i b)) : List.Forall₂ R l (l'.mapIdx f) := by
  induction h generalizing f with
  | nil => exact .nil
  | cons hab _ ih =>
    rw [mapIdx_cons]
    exact .cons (hf 0 _ _ hab) (ih fun i => hf (i + 1))

theorem forall₂_self {R : α → α → Prop} (h : ∀ a, R a a) (l : List α) : List.Forall₂ R l l := by
  induction l with
  | nil => exact List.Forall₂.nil
  | cons a l ih => exact List.Forall₂.cons (h a) ih

theorem forall₂_trans {R : α → α → Prop} (h : ∀ a b c, R a b → R b c → R a c) {l₁ l₂ l₃ : List α}
    (h₁ : List.Forall₂ R l₁ l₂) (h₂ : List.Forall₂ R l₂ l₃) : List.Forall₂ R l₁ l₃ := by
  induction h₁ generalizing l₃ with
  | nil => exact h₂
  | cons hab _ ih =>
    cases h₂ with
    | cons hbc htail => exact List.Forall₂.cons (h _ _ _ hab hbc) (ih htail)

end Related

end Blyt
