import Blyt.ByteMem

/-!
# Reading an untrusted file

A program that checks a mapped file reads it at offsets the file itself
supplies. `Reader` keeps both sides of that: the result, which may be an
error, and the log of the byte ranges that were read on the way. `Gives` and
`Inside` are the two questions about it, and for each way of putting readers
together there is one rule for either question.

The bytes behind the end of the file are whatever the mapping has there: the
readers go through a total function, and nothing is assumed about it.
-/

namespace Blyt

open List

/-- A mapped file of `size` bytes. -/
structure Image where
  size : Nat
  byte : ByteMem

namespace Image

def le16 (f : Image) (off : Nat) : Nat :=
  (f.byte off).toNat + 256 * (f.byte (off + 1)).toNat

def le32 (f : Image) (off : Nat) : Nat := read32 f.byte off

def slice (f : Image) (off n : Nat) : List UInt8 := (range n).map fun k => f.byte (off + k)

/-- What is left of the file from `p` on. -/
def tail (f : Image) (p : Nat) : List UInt8 := f.slice p (f.size - p)

/-- The NUL-terminated string at `p` is `lit`. -/
def strIs (f : Image) : Nat → List UInt8 → Bool
  | p, [] => f.byte p == 0
  | p, c :: cs => f.byte p == c && f.strIs (p + 1) cs

/-- A comparison of the string at `p` with `lit` leaves the file: all that is
left of the file agrees with `lit`. -/
def runsOff (f : Image) (p : Nat) (lit : List UInt8) : Prop := f.tail p <+: lit

/-- The same for a comparison of `lit.length` bytes. -/
def runsOffN (f : Image) (p : Nat) (lit : List UInt8) : Prop := f.tail p <+: lit ∧ f.tail p ≠ lit

/-- The bytes at `p` start with `lit`. -/
def strStarts (f : Image) : Nat → List UInt8 → Bool
  | _, [] => true
  | p, c :: cs => f.byte p == c && f.strStarts (p + 1) cs

variable {f : Image} {p : Nat} {lit : List UInt8}

theorem tail_of_lt (h : p < f.size) : f.tail p = f.byte p :: f.tail (p + 1) := by
  have hlen : f.size - p = (f.size - (p + 1)) + 1 := by omega
  rw [tail, slice, hlen, range_succ_eq_map, map_cons, map_map]
  refine congrArg (f.byte p :: ·) (map_congr_left fun k _ => ?_)
  show f.byte (p + (k + 1)) = f.byte (p + 1 + k)
  rw [Nat.add_assoc, Nat.add_comm 1 k]

theorem tail_of_le (h : f.size ≤ p) : f.tail p = [] := by
  rw [tail, Nat.sub_eq_zero_of_le h]
  rfl

/-- A prefix that matches inside the file is there. -/
theorem prefix_tail (h : f.strStarts p lit = true)
    (hin : ¬ f.runsOffN p lit) : lit <+: f.tail p := by
  induction lit generalizing p with
  | nil => exact nil_prefix
  | cons c cs ih =>
    rw [strStarts, Bool.and_eq_true, beq_iff_eq] at h
    rcases Nat.lt_or_ge p f.size with hp | hp
    · rw [runsOffN, tail_of_lt hp, h.1, prefix_cons_inj, Ne, cons.injEq, and_iff_right rfl] at hin
      rw [tail_of_lt hp, h.1, prefix_cons_inj]
      exact ih h.2 hin
    · rw [runsOffN, tail_of_le hp] at hin
      exact absurd ⟨ List.nil_prefix, (cons_ne_nil _ _).symm⟩ hin

/-- A string that matches inside the file has its terminator there. -/
theorem zero_mem_tail (h : f.strIs p lit = true) (hin : ¬ f.runsOff p lit) : 0 ∈ f.tail p := by
  induction lit generalizing p with
  | nil =>
    rcases Nat.lt_or_ge p f.size with hp | hp
    · rw [tail_of_lt hp, show f.byte p = 0 by simpa [strIs] using h]
      exact mem_cons_self
    · rw [runsOff, tail_of_le hp] at hin
      exact absurd nil_prefix hin
  | cons c cs ih =>
    rw [strIs, Bool.and_eq_true, beq_iff_eq] at h
    rcases Nat.lt_or_ge p f.size with hp | hp
    · rw [runsOff, tail_of_lt hp, h.1, prefix_cons_inj] at hin
      rw [tail_of_lt hp]
      exact mem_cons_of_mem _ (ih h.2 hin)
    · rw [runsOff, tail_of_le hp] at hin
      exact absurd nil_prefix hin

end Image

def Reader (ε α : Type) : Type := Image → Except ε α × List (Nat × Nat)

variable {c : Prop}

namespace Reader

variable {ε α β σ : Type}

instance : Monad (Reader ε) where
  pure a := fun _ => (.ok a, [])
  bind x g := fun f =>
    match x f with
    | (.error e, log) => (.error e, log)
    | (.ok a, log) => ((g a f).1, log ++ (g a f).2)

def fail (e : ε) : Reader ε α := fun _ => (.error e, [])

/-- Go on only if `c` holds. -/
def need (c : Prop) [Decidable c] (e : ε) : Reader ε Unit := if c then pure () else fail e

def onlyIf (c : Prop) [Decidable c] (x : Reader ε Unit) : Reader ε Unit :=
  if c then x else pure ()

/-- Read `len` bytes at `off` and interpret them. -/
def fetch (off len : Nat) (g : Image → α) : Reader ε α := fun f => (.ok (g f), [(off, len)])

def fileSize : Reader ε Nat := fun f => (.ok f.size, [])

/-- `strcmp(p, lit) == 0`, byte by byte. -/
def strEq : Nat → List UInt8 → Reader ε Bool
  | p, [] => do
    let b ← fetch p 1 (·.byte p)
    pure (b == 0)
  | p, c :: cs => do
    let b ← fetch p 1 (·.byte p)
    if b = c then strEq (p + 1) cs else pure false

/-- `strncmp(p, lit, strlen(lit)) == 0`. -/
def strNEq : Nat → List UInt8 → Reader ε Bool
  | _, [] => pure true
  | p, c :: cs => do
    let b ← fetch p 1 (·.byte p)
    if b = c then strNEq (p + 1) cs else pure false

def forEach (body : β → Reader ε Unit) : List β → Reader ε Unit
  | [] => pure ()
  | x :: xs => do
    body x
    forEach body xs

/-- A search that stops at the first hit. -/
def anyOf (test : β → Reader ε Bool) : List β → Reader ε Bool
  | [] => pure false
  | x :: xs => do
    let hit ← test x
    if hit then pure true else anyOf test xs

def foldOver (step : σ → β → Reader ε σ) : σ → List β → Reader ε σ
  | s, [] => pure s
  | s, x :: xs => do
    let s ← step s x
    foldOver step s xs

/-! ## Results -/

def Gives (x : Reader ε α) (f : Image) (a : α) : Prop := (x f).1 = .ok a

/-- Every range that was read lies in the file. -/
def Inside (x : Reader ε α) (f : Image) : Prop := ∀ r ∈ (x f).2, r.1 + r.2 ≤ f.size

instance (x : Reader ε α) (f : Image) : Decidable (x.Inside f) :=
  inferInstanceAs (Decidable (∀ r ∈ (x f).2, r.1 + r.2 ≤ f.size))

variable {f : Image}
  {x : Reader ε α} {a b : α} {e : ε} {g : α → Reader ε β} {u : Unit} {off len n p : Nat}
  {lit : List UInt8} {body : β → Reader ε Unit} {l : List β} {test : β → Reader ε Bool}
  {step : σ → β → Reader ε σ} {s s' : σ} {Ok : β → Prop}

theorem Gives.unique {a' : α} (h : x.Gives f a) (h' : x.Gives f a') :
    a = a' := Except.ok.inj (h.symm.trans h')

theorem gives_pure : (pure a : Reader ε α).Gives f b ↔ a = b := by
  constructor
  · exact Except.ok.inj
  · rintro rfl
    rfl

theorem not_gives_fail : ¬ (fail e : Reader ε α).Gives f b := by
  intro h
  cases h

theorem bind_run : (x >>= g) f = match x f with
    | (.error e, log) => (.error e, log)
    | (.ok a, log) => ((g a f).1, log ++ (g a f).2) := rfl

theorem gives_bind {b : β} : (x >>= g).Gives f b ↔ ∃ a, x.Gives f a ∧ (g a).Gives f b := by
  unfold Gives
  rw [bind_run]
  rcases x f with ⟨r, log⟩
  cases r with
  | error =>
    constructor
    · intro h
      cases h
    · rintro ⟨a, h, -⟩
      cases h
  | ok a =>
    constructor
    · exact fun h => ⟨a, rfl, h⟩
    · rintro ⟨a', h, h'⟩
      cases h
      exact h'

theorem gives_need [Decidable c] : (need c e).Gives f u ↔ c := by
  unfold need
  split
  · rename_i hc
    exact ⟨fun _ => hc, fun _ => rfl⟩
  · rename_i hc
    exact ⟨fun h => absurd h not_gives_fail, fun h => absurd h hc⟩

theorem gives_onlyIf [Decidable c] {x : Reader ε Unit} :
    (onlyIf c x).Gives f u ↔ (c → x.Gives f u) := by
  unfold onlyIf
  split
  · rename_i hc
    exact ⟨fun h _ => h, fun h => h hc⟩
  · rename_i hc
    exact ⟨fun _ h => absurd h hc, fun _ => rfl⟩

theorem gives_fetch {g : Image → α} : (fetch off len g : Reader ε α).Gives f a ↔ g f = a := by
  constructor
  · exact Except.ok.inj
  · rintro rfl
    rfl

theorem gives_fileSize : (fileSize : Reader ε Nat).Gives f n ↔ f.size = n := by
  constructor
  · exact Except.ok.inj
  · rintro rfl
    rfl

theorem gives_strEq : (strEq p lit : Reader ε Bool).Gives f (f.strIs p lit) := by
  induction lit generalizing p with
  | nil => exact gives_bind.mpr ⟨_, gives_fetch.mpr rfl, gives_pure.mpr rfl⟩
  | cons c cs ih =>
    refine gives_bind.mpr ⟨_, gives_fetch.mpr rfl, ?_⟩
    rw [Image.strIs]
    split <;> rename_i hc
    · rw [hc, beq_self_eq_true]
      exact ih
    · rw [beq_eq_false_iff_ne.mpr hc]
      exact gives_pure.mpr rfl

theorem gives_strNEq : (strNEq p lit : Reader ε Bool).Gives f (f.strStarts p lit) := by
  induction lit generalizing p with
  | nil => exact gives_pure.mpr rfl
  | cons c cs ih =>
    refine gives_bind.mpr ⟨_, gives_fetch.mpr rfl, ?_⟩
    rw [Image.strStarts]
    split <;> rename_i hc
    · rw [hc, beq_self_eq_true]
      exact ih
    · rw [beq_eq_false_iff_ne.mpr hc]
      exact gives_pure.mpr rfl

theorem gives_forEach : (forEach body l).Gives f u ↔ ∀ x ∈ l, (body x).Gives f () := by
  induction l with
  | nil => exact ⟨fun _ x hx => absurd hx not_mem_nil, fun _ => gives_pure.mpr rfl⟩
  | cons x xs ih =>
    rw [forEach, gives_bind, forall_mem_cons, ← ih]
    constructor
    · rintro ⟨u, h, h'⟩
      exact ⟨h, h'⟩
    · rintro ⟨h, h'⟩
      exact ⟨(), h, h'⟩

theorem gives_anyOf {p : β → Bool}
    (htest : ∀ x, (test x).Gives f (p x)) (l : List β) : (anyOf test l).Gives f (l.any p) := by
  induction l with
  | nil => exact gives_pure.mpr rfl
  | cons x xs ih =>
    refine gives_bind.mpr ⟨_, htest x, ?_⟩
    rw [any_cons]
    cases p x with
    | true => exact gives_pure.mpr rfl
    | false => exact ih

theorem gives_foldOver_cons {x : β} {xs : List β} :
    (foldOver step s (x :: xs)).Gives f s'
      ↔ ∃ s₁, (step s x).Gives f s₁ ∧ (foldOver step s₁ xs).Gives f s' := gives_bind

theorem gives_foldOver {g : σ → β → σ} (hstep : ∀ s x, (step s x).Gives f (g s x)) (s : σ)
    (l : List β) : (foldOver step s l).Gives f (l.foldl g s) := by
  induction l generalizing s with
  | nil => exact gives_pure.mpr rfl
  | cons x xs ih => exact gives_foldOver_cons.mpr ⟨_, hstep s x, ih _⟩

/-- **Loop rule.** What every successful round keeps, the loop keeps; `P` sees
the rounds made so far. -/
theorem foldOver_inv {P : List β → σ → Prop}
    (hstep : ∀ done x s s', P done s → (step s x).Gives f s' → P (done ++ [x]) s') (hs : P [] s)
    (h : (foldOver step s l).Gives f s') : P l s' := by
  have hfrom : ∀ (l done : List β) (s : σ), P done s → (foldOver step s l).Gives f s' →
      P (done ++ l) s' := by
    intro l
    induction l with
    | nil =>
      intro done s hs h
      obtain rfl := gives_pure.mp h
      rwa [append_nil]
    | cons x xs ih =>
      intro done s hs h
      obtain ⟨s1, h1, h2⟩ := gives_foldOver_cons.mp h
      have hrest := ih _ _ (hstep done x s s1 hs h1) h2
      rwa [append_assoc] at hrest
  exact hfrom l [] s hs h

/-! ## Reads -/

def Passes (x : Reader ε α) (f : Image) : Prop := ∃ a, x.Gives f a

theorem passes_pure : (pure a : Reader ε α).Passes f := ⟨a, rfl⟩

theorem passes_need_bind [Decidable c] {g : Unit → Reader ε β} :
    (need c e >>= g).Passes f ↔ c ∧ (g ()).Passes f := by
  constructor
  · rintro ⟨b, hb⟩
    obtain ⟨u, hc, hb⟩ := gives_bind.mp hb
    exact ⟨gives_need.mp hc, b, hb⟩
  · rintro ⟨hc, b, hb⟩
    exact ⟨b, gives_bind.mpr ⟨(), gives_need.mpr hc, hb⟩⟩

theorem passes_bind_of_gives (hx : x.Gives f a) : (x >>= g).Passes f ↔ (g a).Passes f := by
  constructor
  · rintro ⟨b, hb⟩
    obtain ⟨a', ha', hb⟩ := gives_bind.mp hb
    rw [hx.unique ha']
    exact ⟨b, hb⟩
  · rintro ⟨b, hb⟩
    exact ⟨b, gives_bind.mpr ⟨a, hx, hb⟩⟩

theorem passes_need [Decidable c] : (need c e).Passes f ↔ c :=
  ⟨fun ⟨_, h⟩ => gives_need.mp h, fun h => ⟨(), gives_need.mpr h⟩⟩

theorem not_passes_fail : ¬ (fail e : Reader ε α).Passes f :=
  fun ⟨_, h⟩ => not_gives_fail h

/-- A loop gets through if every round does, whatever the state. -/
theorem passes_foldOver (hok : ∀ s x, (step s x).Passes f ↔ Ok x) (s : σ) (l : List β) :
    (foldOver step s l).Passes f ↔ ∀ x ∈ l, Ok x := by
  induction l generalizing s with
  | nil => exact ⟨fun _ x hx => absurd hx not_mem_nil, fun _ => passes_pure⟩
  | cons x xs ih =>
    rw [forall_mem_cons, ← hok s x]
    constructor
    · rintro ⟨s', h⟩
      obtain ⟨s1, h1, h2⟩ := gives_foldOver_cons.mp h
      exact ⟨⟨s1, h1⟩, (ih s1).mp ⟨s', h2⟩⟩
    · rintro ⟨⟨s1, h1⟩, hxs⟩
      obtain ⟨s', h2⟩ := (ih s1).mpr hxs
      exact ⟨s', gives_foldOver_cons.mpr ⟨s1, h1, h2⟩⟩

theorem inside_pure : (pure a : Reader ε α).Inside f := by
  intro r hr
  cases hr

theorem inside_fail : (fail e : Reader ε α).Inside f := by
  intro r hr
  cases hr

theorem inside_fileSize : (fileSize : Reader ε Nat).Inside f := by
  intro r hr
  cases hr

theorem inside_fetch {g : Image → α} :
    (fetch off len g : Reader ε α).Inside f ↔ off + len ≤ f.size := by
  constructor
  · exact fun h => h (off, len) (mem_singleton.mpr rfl)
  · intro h r hr
    rw [mem_singleton.mp hr]
    exact h

/-- What comes second is read only if the first part gets through. -/
theorem inside_bind : (x >>= g).Inside f ↔ x.Inside f ∧ ∀ a, x.Gives f a → (g a).Inside f := by
  unfold Inside Gives
  rw [bind_run]
  rcases x f with ⟨r, log⟩
  cases r with
  | error => exact ⟨fun h => ⟨h, fun a ha => nomatch ha⟩, fun h => h.1⟩
  | ok a =>
    constructor
    · intro h
      refine ⟨fun r hr => h r (mem_append_left _ hr), ?_⟩
      rintro a' ha r hr
      cases ha
      exact h r (mem_append_right _ hr)
    · rintro ⟨h, h'⟩ r hr
      rcases mem_append.mp hr with hr | hr
      · exact h r hr
      · exact h' a rfl r hr

theorem inside_need [Decidable c] : (need c e).Inside f := by
  unfold need
  split
  · exact inside_pure
  · exact inside_fail

/-- After a test, its condition may be used. -/
theorem inside_need_bind [Decidable c] {g : Unit → Reader ε β} :
    (need c e >>= g).Inside f ↔ (c → (g ()).Inside f) := by
  rw [inside_bind]
  exact ⟨fun h hc => h.2 () (gives_need.mpr hc),
    fun h => ⟨inside_need, fun _ hu => h (gives_need.mp hu)⟩⟩

theorem inside_fetch_bind {h : Image → α} :
    ((fetch off len h : Reader ε α) >>= g).Inside f ↔ off + len ≤ f.size ∧ (g (h f)).Inside f := by
  rw [inside_bind, inside_fetch]
  refine and_congr_right fun _ => ⟨fun hg => hg _ (gives_fetch.mpr rfl), ?_⟩
  intro hg a ha
  rw [← gives_fetch.mp ha]
  exact hg

theorem inside_fileSize_bind {g : Nat → Reader ε β} :
    ((fileSize : Reader ε Nat) >>= g).Inside f ↔ (g f.size).Inside f := by
  rw [inside_bind]
  refine ⟨fun h => h.2 _ (gives_fileSize.mpr rfl), fun h => ⟨inside_fileSize, ?_⟩⟩
  intro a ha
  rw [← gives_fileSize.mp ha]
  exact h

theorem inside_bind_of_gives (hx : x.Gives f a) :
    (x >>= g).Inside f ↔ x.Inside f ∧ (g a).Inside f := by
  rw [inside_bind]
  refine and_congr_right fun _ => ⟨fun h => h a hx, fun h a' ha' => ?_⟩
  rw [← hx.unique ha']
  exact h

theorem inside_onlyIf [Decidable c] {x : Reader ε Unit} :
    (onlyIf c x).Inside f ↔ (c → x.Inside f) := by
  unfold onlyIf
  split
  · rename_i hc
    exact ⟨fun h _ => h, fun h => h hc⟩
  · rename_i hc
    exact ⟨fun _ h => absurd h hc, fun _ => inside_pure⟩

/-- A loop reaches a round if it gets through the ones before. `Ok` says when a
round gets through and `In` when it stays inside, whatever the state. -/
theorem inside_foldOver {In : β → Prop} (hok : ∀ s x, (step s x).Passes f ↔ Ok x)
    (hin : ∀ s x, (step s x).Inside f ↔ In x) (s : σ) (l : List β) : (foldOver step s l).Inside f
      ↔ ∀ done x rest, l = done ++ x :: rest → (∀ y ∈ done, Ok y) → In x := by
  induction l generalizing s with
  | nil =>
    refine ⟨fun _ done x rest h => ?_, fun _ => inside_pure⟩
    cases done <;> cases h
  | cons y ys ih =>
    rw [foldOver, inside_bind, hin]
    constructor
    · rintro ⟨hy, hys⟩ done x rest hl hdone
      cases done with
      | nil =>
        cases hl
        exact hy
      | cons z zs =>
        cases hl
        obtain ⟨s', hs'⟩ := (hok s y).mpr (hdone y mem_cons_self)
        exact (ih s').mp (hys s' hs') zs x rest rfl fun w hw => hdone w (mem_cons_of_mem _ hw)
    · intro h
      refine ⟨h [] y ys rfl (by simp), fun s' hs' => (ih s').mpr ?_⟩
      rintro done x rest rfl hdone
      refine h (y :: done) x rest rfl ?_
      rw [forall_mem_cons]
      exact ⟨(hok s y).mp ⟨s', hs'⟩, hdone⟩

/-- The rounds before round `i` of a counting loop are those below `i`. -/
theorem forall_range_split {P : List Nat → Nat → Prop} :
    (∀ done i rest, range n = done ++ i :: rest → P done i) ↔ ∀ i < n, P (range i) i := by
  constructor
  · intro h i hi
    have hn : range' 0 i ++ range' (0 + i) (n - i) = range' 0 n := by
      rw [range'_append_1, Nat.add_sub_cancel' hi.le]
    have hhead : range' i (n - i) = i :: range' (i + 1) (n - (i + 1)) := by
      rw [show n - i = (n - (i + 1)) + 1 by omega, range'_succ]
    refine h (range i) i (range' (i + 1) (n - (i + 1))) ?_
    rw [range_eq_range', range_eq_range', ← hn, Nat.zero_add, hhead]
  · intro h done i rest hsplit
    have hlen : done.length < n := by
      have := congrArg List.length hsplit
      rw [length_range, length_append, length_cons] at this
      omega
    have hi : i = done.length := by
      have hget := congrArg (fun l => l[done.length]?) hsplit
      simpa [getElem?_range hlen] using hget.symm
    have hdone : done = range i := by
      have htake := congrArg (List.take done.length) hsplit
      rw [take_range, Nat.min_eq_left hlen.le, take_left] at htake
      rw [hi]
      exact htake.symm
    rw [hdone]
    exact h i (hi ▸ hlen)

theorem inside_foldOver_range {step : σ → Nat → Reader ε σ} {Ok In : Nat → Prop}
    (hok : ∀ s i, (step s i).Passes f ↔ Ok i) (hin : ∀ s i, (step s i).Inside f ↔ In i)
    (s : σ) (n : Nat) : (foldOver step s (range n)).Inside f ↔ ∀ i < n, (∀ k < i, Ok k) → In i := by
  rw [inside_foldOver hok hin, forall_range_split]
  simp

/-- Rounds that stay inside make a loop that stays inside. -/
theorem inside_foldOver_of
    (h : ∀ s, ∀ x ∈ l, (step s x).Inside f) (s : σ) : (foldOver step s l).Inside f := by
  induction l generalizing s with
  | nil => exact inside_pure
  | cons x xs ih =>
    exact inside_bind.mpr ⟨h s x mem_cons_self,
      fun s' _ => ih (fun s y hy => h s y (mem_cons_of_mem _ hy)) s'⟩

theorem inside_forEach :
    (forEach body l).Inside f
      ↔ ∀ done x rest, l = done ++ x :: rest → (∀ y ∈ done, (body y).Gives f ()) →
        (body x).Inside f := by
  have hfold : forEach body l = foldOver (fun _ x => body x) () l := by
    induction l with
    | nil => rfl
    | cons x xs ih =>
      rw [forEach, ih]
      rfl
  have hok : ∀ (_ : Unit) x, (body x).Passes f ↔ (body x).Gives f () := by
    intro _ x
    exact ⟨fun ⟨_, h⟩ => h, fun h => ⟨(), h⟩⟩
  rw [hfold]
  exact inside_foldOver hok (fun _ _ => Iff.rfl) () l

theorem inside_forEach_range {body : Nat → Reader ε Unit} :
    (forEach body (range n)).Inside f
      ↔ ∀ i < n, (∀ k < i, (body k).Gives f ()) → (body i).Inside f := by
  rw [inside_forEach, forall_range_split]
  simp

/-- A search reaches a test if the tests before it have missed. -/
theorem inside_anyOf {p : β → Bool} (htest : ∀ x, (test x).Gives f (p x)) :
    (anyOf test l).Inside f
      ↔ ∀ done x rest, l = done ++ x :: rest → (∀ y ∈ done, p y = false) →
        (test x).Inside f := by
  induction l with
  | nil =>
    refine ⟨fun _ done x rest h => ?_, fun _ => inside_pure⟩
    cases done <;> cases h
  | cons y ys ih =>
    rw [anyOf, inside_bind_of_gives (htest y)]
    constructor
    · rintro ⟨hy, hys⟩ done x rest hl hdone
      cases done with
      | nil =>
        cases hl
        exact hy
      | cons z zs =>
        cases hl
        rw [hdone y mem_cons_self] at hys
        exact ih.mp hys zs x rest rfl fun w hw => hdone w (mem_cons_of_mem _ hw)
    · intro h
      refine ⟨h [] y ys rfl (by simp), ?_⟩
      cases hp : p y with
      | true => exact inside_pure
      | false =>
        refine ih.mpr ?_
        rintro done x rest rfl hdone
        refine h (y :: done) x rest rfl ?_
        rw [forall_mem_cons]
        exact ⟨hp, hdone⟩

theorem inside_anyOf_range {test : Nat → Reader ε Bool} {p : Nat → Bool}
    (htest : ∀ i, (test i).Gives f (p i)) :
    (anyOf test (range n)).Inside f ↔ ∀ i < n, (∀ k < i, p k = false) → (test i).Inside f := by
  rw [inside_anyOf htest, forall_range_split]
  simp

theorem inside_strEq : (strEq p lit : Reader ε Bool).Inside f ↔ ¬ f.runsOff p lit := by
  induction lit generalizing p with
  | nil =>
    rw [strEq, inside_fetch_bind, Image.runsOff, prefix_nil]
    rcases Nat.lt_or_ge p f.size with hp | hp
    · rw [Image.tail_of_lt hp]
      refine ⟨fun _ h => ?_, fun _ => ⟨hp, inside_pure⟩⟩
      cases h
    · rw [Image.tail_of_le hp]
      exact ⟨fun h => absurd h.1 (by omega), absurd rfl⟩
  | cons c cs ih =>
    rw [strEq, inside_fetch_bind, Image.runsOff]
    rcases Nat.lt_or_ge p f.size with hp | hp
    · rw [Image.tail_of_lt hp, cons_prefix_cons, and_iff_right (Nat.succ_le_of_lt hp)]
      split <;> rename_i hc
      · rw [ih, and_iff_right hc, Image.runsOff]
      · exact ⟨fun _ h => hc h.1, fun _ => inside_pure⟩
    · rw [Image.tail_of_le hp]
      exact ⟨fun h => absurd h.1 (by omega), absurd nil_prefix⟩

theorem inside_strNEq : (strNEq p lit : Reader ε Bool).Inside f ↔ ¬ f.runsOffN p lit := by
  induction lit generalizing p with
  | nil =>
    refine ⟨fun _ h => h.2 (prefix_nil.mp h.1), fun _ => inside_pure⟩
  | cons c cs ih =>
    rw [strNEq, inside_fetch_bind, Image.runsOffN]
    rcases Nat.lt_or_ge p f.size with hp | hp
    · rw [Image.tail_of_lt hp, cons_prefix_cons, and_iff_right (Nat.succ_le_of_lt hp)]
      split <;> rename_i hc
      · rw [ih, and_iff_right hc, Image.runsOffN, hc, Ne, Ne, cons.injEq, and_iff_right rfl]
      · exact ⟨fun _ h => hc h.1.1, fun _ => inside_pure⟩
    · rw [Image.tail_of_le hp]
      exact ⟨fun h => absurd h.1 (by omega),
        absurd ⟨ List.nil_prefix, (cons_ne_nil _ _).symm⟩⟩

/-- Two prefixes of which neither extends the other, tested one after the other. -/
theorem inside_either {a b : List UInt8} (hab : ¬ a <+: b) :
    (strNEq p a >>= fun hit => if hit then pure true else (strNEq p b : Reader ε Bool)).Inside f
      ↔ ¬ f.runsOffN p a ∧ ¬ f.runsOffN p b := by
  rw [inside_bind_of_gives gives_strNEq, inside_strNEq]
  refine and_congr_right fun ha => ?_
  cases hit : f.strStarts p a with
  | false => exact inside_strNEq
  | true =>
    refine ⟨fun _ hb => ?_, fun _ => inside_pure⟩
    exact hab ((Image.prefix_tail hit ha).trans hb.1)

/-- A search through names: it does not matter where it stops, since a name
that matches ends inside the file. -/
theorem inside_anyOf_strEq {g : β → List UInt8} (hnul : ∀ x ∈ l, 0 ∉ g x) :
    (anyOf (fun x => (strEq p (g x) : Reader ε Bool)) l).Inside f
      ↔ ∀ x ∈ l, ¬ f.runsOff p (g x) := by
  induction l with
  | nil => exact ⟨fun _ x hx => absurd hx not_mem_nil, fun _ => inside_pure⟩
  | cons x xs ih =>
    rw [forall_mem_cons] at hnul ⊢
    rw [anyOf, inside_bind_of_gives gives_strEq, inside_strEq]
    refine and_congr_right fun hx => ?_
    cases hit : f.strIs p (g x) with
    | false => exact ih hnul.2
    | true =>
      refine ⟨fun _ y hy hoff => ?_, fun _ => inside_pure⟩
      exact hnul.2 y hy (List.IsPrefix.mem (Image.zero_mem_tail hit hx) hoff)

end Reader

end Blyt
