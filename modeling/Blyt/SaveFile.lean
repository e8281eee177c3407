import Blyt.BlysRead

/-!
# What a save file says

The abstract side of reading a save. A buffer is a named block of bytes, its body;
a file is a header and a list of sections, each of which says what one block is to
hold, or is to be skipped. The loop of `blys_read` over buffers is the loop over
their blocks (`sectionLoop_map`); the loop over blocks takes a file for its
sections (`sectionStep_valid`), and where it stops there is no section
(`sectionStep_cases`).
-/

namespace Blyt

open List Option

/-! ## The loop over images -/

section Map

variable {β γ : Type} {R : Target β} {S : Target γ} {f : β → γ}

/-- `f` turns one kind of target into the other. -/
structure TargetMap (R : Target β) (S : Target γ) (f : β → γ) : Prop where
  name : ∀ b, S.name (f b) = R.name b
  load : ∀ b file, S.load (f b) file = (f (R.load b file).1, (R.load b file).2)

def LoopStep.map (f : β → γ) : LoopStep β → LoopStep γ
  | .stop r bufs => .stop r (bufs.map f)
  | .next bufs file => .next (bufs.map f) file

theorem findNamed_map (h : TargetMap R S f) (bufs : List β) (name : List UInt8) :
    findNamed S (bufs.map f) name = findNamed R bufs name := by
  unfold findNamed
  rw [findIdx?_map]
  congr 1
  funext b
  rw [Function.comp, h.name]

theorem skipBytes_map (bufs : List β) (n : Nat) (file : List UInt8) :
    skipBytes (bufs.map f) n file = (skipBytes bufs n file).map f := by
  rw [skipBytes_eq, skipBytes_eq]
  split_ifs <;> rfl

section

variable (h : TargetMap R S f)
include h

theorem loadInto_map (bufs : List β) (i : Nat) (file : List UInt8) :
    loadInto S (bufs.map f) i file = (loadInto R bufs i file).map f := by
  unfold loadInto
  rw [getElem?_map]
  cases bufs[i]? with
  | none => rfl
  | some b =>
    simp only [map_some, h.load]
    cases hl : R.load b file with
    | mk b' rest => cases rest <;> simp [LoopStep.map, map_set]

theorem cartStep_map (bufs : List β) (payload : Nat) (file : List UInt8) :
    cartStep S (bufs.map f) payload file = (cartStep R bufs payload file).map f := by
  unfold cartStep
  simp only [findNamed_map h]
  split_ifs
  · rfl
  · rfl
  · rfl
  · cases findNamed R bufs _ with
    | none => exact skipBytes_map ..
    | some => exact loadInto_map h ..

theorem sectionStep_map (bufs : List β) (file : List UInt8) :
    sectionStep S (bufs.map f) file = (sectionStep R bufs file).map f := by
  unfold sectionStep
  split_ifs
  · rfl
  · rfl
  · exact cartStep_map h ..
  · exact skipBytes_map ..

theorem sectionLoop_map (fuel : Nat) (bufs : List β) (file : List UInt8) :
    sectionLoop S fuel (bufs.map f) file
      = ((sectionLoop R fuel bufs file).1, (sectionLoop R fuel bufs file).2.map f) := by
  induction fuel generalizing bufs file with
  | zero => rfl
  | succ fuel ih =>
    rw [sectionLoop, sectionLoop, sectionStep_map h]
    cases sectionStep R bufs file with
    | stop => rfl
    | next bufs file => exact ih bufs file

end

end Map

/-! ## Blocks -/

structure Block where
  name : List UInt8
  bytes : List UInt8
  deriving DecidableEq, Repr

def Block.load (b : Block) (file : List UInt8) : Block × Option (List UInt8) :=
  (⟨b.name, overlay file b.bytes⟩,
    if b.bytes.length ≤ file.length then some (file.drop b.bytes.length) else none)

def blockTarget : Target Block := ⟨Block.name, Block.load⟩

def BlysBuffer.block (v : BlysBuffer) : Block := ⟨v.name, v.body⟩

/-- **Refinement.** Reading into a buffer is reading into its block. -/
theorem blysTarget_block : TargetMap blysTarget blockTarget BlysBuffer.block := by
  refine ⟨fun _ => rfl, fun v file => ?_⟩
  show Block.load v.block file = ((v.readBody file).1.block, (v.readBody file).2)
  rw [Block.load, BlysBuffer.block, BlysBuffer.block, v.readBody_body, v.readBody_rest,
    (v.readBody_shape file).name, BlysBuffer.length_body]

/-! ## Sections -/

/-- The front of a section that is read into a buffer. -/
def cartHead (payload : Nat) (name : List UInt8) : List UInt8 :=
  bytesOf "CART" ++ (leBytes 4 payload ++ (leBytes 4 name.length ++ name))

inductive SaveSection where
  /-- Any tag but `CART`. -/
  | other (tag body : List UInt8)
  | cart (payload : Nat) (name body : List UInt8)

def SaveSection.bytes : SaveSection → List UInt8
  | .other tag body => tag ++ (leBytes 4 body.length ++ body)
  | .cart payload name body => cartHead payload name ++ body

/-- How much data belongs to a section: what the block of that name takes, whatever
the section says; and what is left of the payload if there is none. -/
def dataLen (bs : List Block) (payload : Nat) (name : List UInt8) : Nat :=
  match findNamed blockTarget bs name with
  | none => u32 (payload + 2 ^ 32 - 4 - name.length)
  | some i => ((bs[i]?).map fun b => b.bytes.length).getD 0

def SaveSection.Valid (bs : List Block) : SaveSection → Prop
  | .other tag body => tag.length = 4 ∧ tag ≠ bytesOf "CART" ∧ body.length < 2 ^ 32
  | .cart payload name body =>
    payload < 2 ^ 32 ∧ name.length < 256 ∧ body.length = dataLen bs payload name

/-- Write over the front of block `i`. -/
def overInto (bs : List Block) (i : Nat) (new : List UInt8) : List Block :=
  bs.modify i fun b => ⟨b.name, overlay new b.bytes⟩

def SaveSection.apply (bs : List Block) : SaveSection → List Block
  | .other _ _ => bs
  | .cart _ name body =>
    match findNamed blockTarget bs name with
    | none => bs
    | some i => overInto bs i body

/-! ### One turn of the loop -/

section Step

variable {β : Type} {R : Target β} {bs : List β} {rest : List UInt8}

theorem sectionStep_head {tag : List UInt8} {n : Nat} (htag : tag.length = 4) (hn : n < 2 ^ 32) :
    sectionStep R bs (tag ++ (leBytes 4 n ++ rest))
      = if tag = bytesOf "CART" then cartStep R bs n rest else skipBytes bs n rest := by
  have hlen : (tag ++ (leBytes 4 n ++ rest)).length = rest.length + 8 := by
    simp [htag]
    omega
  have hdrop : (tag ++ (leBytes 4 n ++ rest)).drop 4 = leBytes 4 n ++ rest :=
    drop_left' htag
  have hdrop8 : (tag ++ (leBytes 4 n ++ rest)).drop 8 = rest := by
    rw [show 8 = 4 + 4 from rfl, ← drop_drop, hdrop]
    exact drop_left' (length_leBytes 4 n)
  rw [sectionStep, if_neg (by omega), if_neg (by omega)]
  simp only [hdrop, hdrop8, take_left' htag, take_left' (length_leBytes 4 n)]
  rw [leNat_leBytes (by norm_num; omega)]

variable {payload : Nat} {name : List UInt8}

theorem cartStep_name (hn : name.length < 256) :
    cartStep R bs payload (leBytes 4 name.length ++ (name ++ rest))
      = match findNamed R bs name with
        | none => skipBytes bs (u32 (payload + 2 ^ 32 - 4 - name.length)) rest
        | some i => loadInto R bs i rest := by
  have hdrop : (leBytes 4 name.length ++ (name ++ rest)).drop 4 = name ++ rest :=
    drop_left' (length_leBytes 4 _)
  have hname : leNat ((leBytes 4 name.length ++ (name ++ rest)).take 4) = name.length := by
    rw [take_left' (length_leBytes 4 _), leNat_leBytes (by norm_num; omega)]
  rw [cartStep, if_neg (by simp)]
  simp only [hdrop, hname]
  rw [if_neg (by omega), if_neg (by simp)]
  rewrite [take_left' rfl, drop_left' rfl]
  rfl

theorem sectionStep_cart (hp : payload < 2 ^ 32) (hn : name.length < 256) :
    sectionStep R bs (cartHead payload name ++ rest)
      = match findNamed R bs name with
        | none => skipBytes bs (u32 (payload + 2 ^ 32 - 4 - name.length)) rest
        | some i => loadInto R bs i rest := by
  rw [cartHead, append_assoc, append_assoc, append_assoc, sectionStep_head rfl hp,
    if_pos rfl, cartStep_name hn]

end Step

variable {file : List UInt8} {β : Type} {rest name : List UInt8} {i : Nat} {b : Block}
  {σ : SaveSection} {secs : List SaveSection} {fuel major minor hash saveVersion : Nat}

theorem take_number {w : Nat} (h : w ≤ file.length) :
    ∃ n rest, n < 256 ^ w ∧ file = leBytes w n ++ rest := by
  have hlen : (file.take w).length = w := by simp; omega
  have hbytes := leBytes_leNat (file.take w)
  have hlt := leNat_lt (file.take w)
  rw [hlen] at hbytes hlt
  exact ⟨leNat (file.take w), file.drop w, hlt, by rw [hbytes, take_append_drop]⟩

theorem take_word (h : 4 ≤ file.length) : ∃ n rest, n < 2 ^ 32 ∧ file = leBytes 4 n ++ rest := by
  obtain ⟨n, rest, hn, hfile⟩ := take_number h
  exact ⟨n, rest, by omega, hfile⟩

/-- How a file can begin. -/
inductive Front (file : List UInt8) : Prop where
  | done : file = [] → Front file
  | broken : file ≠ [] →
      (∀ {β : Type} (R : Target β) bs, sectionStep R bs file = .stop .errIo bs) → Front file
  | other (tag : List UInt8) (n : Nat) (rest : List UInt8) : tag.length = 4 →
      tag ≠ bytesOf "CART" → n < 2 ^ 32 → file = tag ++ (leBytes 4 n ++ rest) → Front file
  | cart (payload : Nat) (name data : List UInt8) : payload < 2 ^ 32 → name.length < 256 →
      file = cartHead payload name ++ data → Front file

/-- A name that is too long, or cut off, is refused. -/
theorem cartStep_broken (R : Target β) (bs : List β) (payload : Nat)

    (h : ∀ name data, name.length < 256 → rest ≠ leBytes 4 name.length ++ (name ++ data)) :
    cartStep R bs payload rest = .stop .errIo bs := by
  rw [cartStep]
  by_cases h4 : rest.length < 4
  · rw [if_pos h4]
  obtain ⟨len, rest', hlen, rfl⟩ := take_word (by omega : 4 ≤ rest.length)
  have hdrop : (leBytes 4 len ++ rest').drop 4 = rest' := drop_left' (length_leBytes 4 _)
  have hnum : leNat ((leBytes 4 len ++ rest').take 4) = len := by
    rw [take_left' (length_leBytes 4 _), leNat_leBytes (by norm_num; omega)]
  simp only [hdrop, hnum]
  split_ifs with h256 hshort
  · rfl
  · rfl
  · have htake : (rest'.take len).length = len := by simp; omega
    have hname := h (rest'.take len) (rest'.drop len) (by omega)
    rw [htake, take_append_drop] at hname
    exact absurd rfl hname

theorem front (file : List UInt8) : Front file := by
  by_cases h0 : file.length = 0
  · exact .done (length_eq_zero_iff.mp h0)
  have hne : file ≠ [] := fun h => h0 (h ▸ rfl)
  by_cases h8 : file.length < 8
  · refine .broken hne fun R bs => ?_
    rw [sectionStep, if_neg h0, if_pos h8]
  obtain ⟨n, rest, hn, hrest⟩ := take_word (show 4 ≤ (file.drop 4).length by simp; omega)
  have hfile : file = file.take 4 ++ (leBytes 4 n ++ rest) := by
    rw [← hrest, take_append_drop]
  have htag : (file.take 4).length = 4 := by simp; omega
  by_cases hcart : file.take 4 = bytesOf "CART"
  · rw [hcart] at hfile
    by_cases hname : ∃ name data, name.length < 256
        ∧ rest = leBytes 4 name.length ++ (name ++ data)
    · obtain ⟨name, data, hlen, rfl⟩ := hname
      refine .cart n name data hn hlen ?_
      rw [hfile]
      simp [cartHead]
    · refine .broken hne fun R bs => ?_
      rw [hfile, sectionStep_head rfl hn]
      exact cartStep_broken R bs n fun name data hlen heq => hname ⟨name, data, hlen, heq⟩
  · exact .other _ n rest htag hcart hn hfile

theorem findNamed_lt {R : Target β} {bs : List β}
    (h : findNamed R bs name = some i) : ∃ b, bs[i]? = some b ∧ R.name b = name := by
  obtain ⟨hlt, hname, -⟩ := findIdx?_eq_some_iff_getElem.mp h
  exact ⟨bs[i], getElem?_eq_getElem hlt, of_decide_eq_true hname⟩

variable {bs : List Block}

theorem loadInto_block (hb : bs[i]? = some b) (file : List UInt8) :
    loadInto blockTarget bs i file = if b.bytes.length ≤ file.length
      then .next (overInto bs i file) (file.drop b.bytes.length)
      else .stop .errIo (overInto bs i file) := by
  have hset : bs.set i ⟨b.name, overlay file b.bytes⟩ = overInto bs i file := by
    rw [overInto, modify_eq_set_getElem? , hb]
    rfl
  rw [loadInto, hb]
  simp only [blockTarget, Block.load]
  split_ifs <;> simp only [hset]

theorem overInto_take (hb : bs[i]? = some b) (new : List UInt8) :
    overInto bs i (new.take b.bytes.length) = overInto bs i new := by
  rw [overInto, overInto, modify_eq_set_getElem?, modify_eq_set_getElem?, hb]
  show bs.set i ⟨_, overlay _ _⟩ = bs.set i ⟨_, overlay _ _⟩
  rw [overlay_take]

/-- **Step lemma.** A section that is there is taken in. -/
theorem sectionStep_valid (h : σ.Valid bs) (rest : List UInt8) :
    sectionStep blockTarget bs (σ.bytes ++ rest) = .next (σ.apply bs) rest := by
  cases σ with
  | other =>
    obtain ⟨htag, hne, hlen⟩ := h
    rw [SaveSection.bytes, append_assoc, append_assoc, sectionStep_head htag hlen,
      if_neg hne, skipBytes_eq, if_neg (by simp), drop_left' rfl]
    rfl
  | cart payload name =>
    obtain ⟨hp, hn, hlen⟩ := h
    rw [SaveSection.bytes, append_assoc, sectionStep_cart hp hn, SaveSection.apply]
    rw [dataLen] at hlen
    cases hf : findNamed blockTarget bs name with
    | none =>
      rw [hf] at hlen
      rw [skipBytes_eq, if_neg (by simp [hlen]), drop_left' hlen]
    | some =>
      obtain ⟨b, hb, -⟩ := findNamed_lt hf
      rw [hf] at hlen
      simp only [hb, map_some, getD_some] at hlen ⊢
      rw [loadInto_block hb, if_pos (by simp [hlen]), drop_left' hlen, ← overInto_take hb,
        take_left' hlen]

/-- The loop's turn on any file: the end, a section, no section, or a section that
is cut off within its data. -/
inductive Turn (bs : List Block) (file : List UInt8) : LoopStep Block → Prop where
  | done : file = [] → Turn bs file (.stop .ok bs)
  | taken (σ : SaveSection) (rest : List UInt8) : σ.Valid bs → file = σ.bytes ++ rest →
      Turn bs file (.next (σ.apply bs) rest)
  | none : file ≠ [] → Turn bs file (.stop .errIo bs)
  | cut (payload i : Nat) (name body : List UInt8) : payload < 2 ^ 32 → name.length < 256 →
      findNamed blockTarget bs name = some i → file = cartHead payload name ++ body →
      Turn bs file (.stop .errIo (overInto bs i body))

theorem cart_turn {payload : Nat} (hp : payload < 2 ^ 32)
    (hn : name.length < 256) (data : List UInt8) :
    Turn bs (cartHead payload name ++ data)
      (sectionStep blockTarget bs (cartHead payload name ++ data)) := by
  have hturn : ∀ size, dataLen bs payload name = size → size ≤ data.length →
      Turn bs (cartHead payload name ++ data)
        (.next ((SaveSection.cart payload name (data.take size)).apply bs) (data.drop size)) := by
    intro size hsize hle
    refine .taken _ _ ⟨hp, hn, ?_⟩ ?_
    · rw [hsize, length_take, Nat.min_eq_left hle]
    · rw [SaveSection.bytes, append_assoc, take_append_drop]
  rw [sectionStep_cart hp hn]
  cases hf : findNamed blockTarget bs name with
  | none =>
    simp only [skipBytes_eq]
    split_ifs with hlen
    · exact .none (by simp [cartHead, bytesOf])
    · have := hturn (u32 (payload + 2 ^ 32 - 4 - name.length)) (by rw [dataLen, hf]) (by omega)
      rwa [SaveSection.apply, hf] at this
  | some i =>
    obtain ⟨b, hb, -⟩ := findNamed_lt hf
    simp only [loadInto_block hb]
    split_ifs with hlen
    · have := hturn b.bytes.length (by rw [dataLen, hf]; simp [hb]) hlen
      rw [SaveSection.apply, hf] at this
      simpa only [overInto_take hb] using this
    · exact .cut payload i name data hp hn hf rfl

theorem sectionStep_turn (bs : List Block) (file : List UInt8) :
    Turn bs file (sectionStep blockTarget bs file) := by
  cases front file with
  | done hnil =>
    rw [hnil]
    exact .done rfl
  | broken hne hstop =>
    rw [hstop]
    exact .none hne
  | other tag n rest htag hcart hn hfile =>
    subst hfile
    rw [sectionStep_head htag hn, if_neg hcart, skipBytes_eq]
    split_ifs with hlen
    · refine .none fun h => ?_
      rw [append_eq_nil_iff] at h
      rw [h.1] at htag
      cases htag
    · have hbody : (rest.take n).length = n := by simp; omega
      refine .taken (.other tag (rest.take n)) _ ⟨htag, hcart, by omega⟩ ?_
      rw [SaveSection.bytes, hbody, append_assoc, append_assoc, take_append_drop]
  | cart payload name data hp hn hfile =>
    subst hfile
    exact cart_turn hp hn data

/-! ### Whole files -/

/-- Names and sizes, which reading leaves as they are. -/
def Block.sig (b : Block) : List UInt8 × Nat := (b.name, b.bytes.length)

variable {cs : List Block}

theorem getElem?_overInto_self (bs : List Block) (i : Nat) (new : List UInt8) :
    (overInto bs i new)[i]? = (bs[i]?).map fun b => ⟨b.name, overlay new b.bytes⟩ := by
  rw [overInto]
  simp

theorem getElem?_overInto_ne (bs : List Block) {j : Nat} (h : i ≠ j) (new : List UInt8) :
    (overInto bs i new)[j]? = bs[j]? := by
  rw [overInto]
  simp [h]

theorem sig_overInto (bs : List Block) (i : Nat) (new : List UInt8) :
    (overInto bs i new).map Block.sig = bs.map Block.sig := by
  refine ext_getElem? fun j => ?_
  rw [getElem?_map, getElem?_map]
  by_cases hij : i = j
  · subst hij
    rw [getElem?_overInto_self, Option.map_map]
    exact congrArg (bs[i]?).map (funext fun b => by simp [Block.sig])
  · rw [getElem?_overInto_ne bs hij]

section

variable (h : bs.map Block.sig = cs.map Block.sig)
include h

theorem findNamed_sig (name : List UInt8) :
    findNamed blockTarget bs name = findNamed blockTarget cs name := by
  have hof : ∀ ds : List Block, findNamed blockTarget ds name
      = (ds.map Block.sig).findIdx? fun p => decide (p.1 = name) := fun ds => by
    rw [findIdx?_map]
    rfl
  rw [hof, hof, h]

theorem dataLen_sig (payload : Nat)
    (name : List UInt8) : dataLen bs payload name = dataLen cs payload name := by
  have hof : ∀ (ds : List Block) (i : Nat), (ds[i]?).map (fun b => b.bytes.length)
      = ((ds.map Block.sig)[i]?).map Prod.snd := fun ds i => by
    rw [getElem?_map, Option.map_map]
    rfl
  rw [dataLen, dataLen, findNamed_sig h]
  cases findNamed blockTarget cs name with
  | none => rfl
  | some => simp only [hof, h]

theorem SaveSection.Valid.sig (hσ : σ.Valid bs) : σ.Valid cs := by
  cases σ with
  | other => exact hσ
  | cart payload name =>
    obtain ⟨hp, hn, hlen⟩ := hσ
    exact ⟨hp, hn, hlen.trans (dataLen_sig h payload name)⟩

end

theorem sig_apply (bs : List Block) (σ : SaveSection) :
    (σ.apply bs).map Block.sig = bs.map Block.sig := by
  cases σ with
  | other => rfl
  | cart payload name body =>
    rw [SaveSection.apply]
    cases findNamed blockTarget bs name with
    | none => rfl
    | some i => exact sig_overInto bs i body

def sectionBytes (secs : List SaveSection) : List UInt8 := secs.flatMap SaveSection.bytes

def applyAll (bs : List Block) (secs : List SaveSection) : List Block :=
  secs.foldl SaveSection.apply bs

theorem sig_applyAll (bs : List Block) (secs : List SaveSection) :
    (applyAll bs secs).map Block.sig = bs.map Block.sig := by
  induction secs generalizing bs with
  | nil => rfl
  | cons σ secs ih =>
    exact (ih (σ.apply bs)).trans (sig_apply bs σ)

theorem SaveSection.Valid.length_pos (h : σ.Valid bs) : 0 < σ.bytes.length := by
  cases σ with
  | other =>
    have := h.1
    rw [SaveSection.bytes, length_append]
    omega
  | cart => simp [SaveSection.bytes, cartHead, bytesOf]

/-- **Run lemma.** The loop takes in all the sections there are and goes on behind
them. -/
theorem sectionLoop_sections (h : ∀ σ ∈ secs, σ.Valid bs)
    (rest : List UInt8) (hfuel : (sectionBytes secs ++ rest).length < fuel) :
    rest.length < fuel - secs.length
      ∧ sectionLoop blockTarget fuel bs (sectionBytes secs ++ rest)
        = sectionLoop blockTarget (fuel - secs.length) (applyAll bs secs) rest := by
  induction secs generalizing bs fuel with
  | nil => exact ⟨hfuel, rfl⟩
  | cons σ secs ih =>
    rw [forall_mem_cons] at h
    cases fuel with
    | zero => exact absurd hfuel (Nat.not_lt_zero _)
    | succ fuel =>
      have hpos := h.1.length_pos
      rw [sectionBytes, flatMap_cons, append_assoc, length_append] at hfuel
      obtain ⟨hlt, hloop⟩ := ih (fun τ hτ => (h.2 τ hτ).sig (sig_apply bs σ).symm)
        (show (sectionBytes secs ++ rest).length < fuel by rw [sectionBytes]; omega)
      rw [length_cons, Nat.add_sub_add_right]
      refine ⟨hlt, ?_⟩
      rw [sectionBytes, flatMap_cons, append_assoc, sectionLoop, sectionStep_valid h.1]
      exact hloop

theorem sectionLoop_ok (h : ∀ σ ∈ secs, σ.Valid bs) (hfuel : (sectionBytes secs).length < fuel) :
    sectionLoop blockTarget fuel bs (sectionBytes secs) = (.ok, applyAll bs secs) := by
  obtain ⟨hlt, hloop⟩ := sectionLoop_sections h [] (by rwa [append_nil])
  rw [append_nil] at hloop
  rw [hloop]
  cases hf : fuel - secs.length with
  | zero =>
    rw [hf] at hlt
    exact absurd hlt (Nat.not_lt_zero _)
  | succ => rfl

/-- A file the loop accepts is a list of sections. -/
theorem exists_sections_of_ok {bs' : List Block}
    (h : sectionLoop blockTarget fuel bs file = (.ok, bs')) :
    ∃ secs, (∀ σ ∈ secs, σ.Valid bs) ∧ file = sectionBytes secs ∧ bs' = applyAll bs secs := by
  induction fuel generalizing bs file with
  | zero => cases h
  | succ fuel ih =>
    rw [sectionLoop] at h
    have hturn := sectionStep_turn bs file
    cases hstep : sectionStep blockTarget bs file with
    | stop =>
      rw [hstep] at h hturn
      obtain ⟨rfl, rfl⟩ := Prod.mk.inj h
      cases hturn with
      | done hnil => exact ⟨[], by simp, hnil, rfl⟩
    | next =>
      rw [hstep] at h hturn
      cases hturn with
      | taken σ _ hσ hfile =>
        obtain ⟨secs, hsecs, hrest, hbs'⟩ := ih h
        refine ⟨σ :: secs, ?_, ?_, hbs'⟩
        · rw [forall_mem_cons]
          exact ⟨hσ, fun τ hτ => (hsecs τ hτ).sig (sig_apply bs σ)⟩
        · rw [hfile, hrest]
          rfl

/-! ## The header -/

/-- A header of any version. Minor version 0 has no save version. -/
def headerBytes (major minor hash saveVersion : Nat) : List UInt8 :=
  bytesOf "BLYS" ++ (leBytes 2 major ++ (leBytes 2 minor ++ (leBytes 8 hash
    ++ if minor = 0 then [] else leBytes 4 saveVersion)))

/-- The file is a header with this hash, followed by `stream`. -/
def HeaderFor (schemaHash : UInt64) (file stream : List UInt8) : Prop :=
  ∃ major minor saveVersion, major < 2 ^ 16 ∧ minor < 2 ^ 16 ∧ saveVersion < 2 ^ 32
    ∧ file = headerBytes major minor schemaHash.toNat saveVersion ++ stream

theorem readHeader_fields (hminor : minor < 2 ^ 16) (hhash : hash < 2 ^ 64) (tail : List UInt8) :
    readHeader (bytesOf "BLYS" ++ (leBytes 2 major ++ (leBytes 2 minor ++ (leBytes 8 hash
      ++ tail)))) = if minor < 1 then some (0, hash, tail)
        else if tail.length < 4 then none else some (leNat (tail.take 4), hash, tail.drop 4) := by
  generalize hfile : bytesOf "BLYS" ++ (leBytes 2 major ++ (leBytes 2 minor ++ (leBytes 8 hash
    ++ tail))) = file
  have hmagic : file.take 4 = bytesOf "BLYS" := hfile ▸ take_left' rfl
  have h4 : file.drop 4 = leBytes 2 major ++ (leBytes 2 minor ++ (leBytes 8 hash ++ tail)) :=
    hfile ▸ drop_left' rfl
  have h6 : file.drop 6 = leBytes 2 minor ++ (leBytes 8 hash ++ tail) := by
    rw [show 6 = 4 + 2 from rfl, ← drop_drop, h4, drop_left' (length_leBytes 2 _)]
  have h8 : file.drop 8 = leBytes 8 hash ++ tail := by
    rw [show 8 = 6 + 2 from rfl, ← drop_drop, h6, drop_left' (length_leBytes 2 _)]
  have h16 : file.drop 16 = tail := by
    rw [show 16 = 8 + 8 from rfl, ← drop_drop, h8, drop_left' (length_leBytes 8 _)]
  have hlen : ¬ file.length < 16 := by
    rw [← hfile]
    simp [bytesOf]
    omega
  rw [readHeader, if_neg hlen, if_neg (by rw [hmagic]; simp)]
  simp only [h6, h8, h16, take_left' (length_leBytes 2 _), take_left' (length_leBytes 8 _)]
  rw [leNat_leBytes (by norm_num; omega), leNat_leBytes (by norm_num; omega)]

theorem headerBytes_append (major minor hash saveVersion : Nat) (rest : List UInt8) :
    headerBytes major minor hash saveVersion ++ rest = bytesOf "BLYS" ++ (leBytes 2 major
      ++ (leBytes 2 minor ++ (leBytes 8 hash
        ++ ((if minor = 0 then [] else leBytes 4 saveVersion) ++ rest)))) := by
  simp [headerBytes]

theorem readHeader_headerBytes (hminor : minor < 2 ^ 16)
    (hhash : hash < 2 ^ 64) (hver : saveVersion < 2 ^ 32) (rest : List UInt8) :
    readHeader (headerBytes major minor hash saveVersion ++ rest)
      = some (if minor = 0 then 0 else saveVersion, hash, rest) := by
  rw [headerBytes_append, readHeader_fields hminor hhash]
  by_cases h0 : minor = 0
  · rw [if_pos (by omega), if_pos h0, if_pos h0]
    rfl
  · rw [if_neg (by omega), if_neg h0, if_neg h0, if_neg (by simp),
      take_left' (length_leBytes 4 _), drop_left' (length_leBytes 4 _),
      leNat_leBytes (by norm_num; omega)]

/-- There is one way to read a header. -/
theorem HeaderFor.stream_unique {schemaHash : UInt64} {stream stream' : List UInt8}
    (h : HeaderFor schemaHash file stream) (h' : HeaderFor schemaHash file stream') :
    stream = stream' := by
  obtain ⟨major, minor, ver, -, hminor, hver, rfl⟩ := h
  obtain ⟨major', minor', ver', -, hminor', hver', hfile⟩ := h'
  have hlt := schemaHash.toNat_lt
  have hread := congrArg readHeader hfile
  rw [readHeader_headerBytes hminor (by omega) hver,
    readHeader_headerBytes hminor' (by omega) hver'] at hread
  simp only [some.injEq, Prod.mk.injEq] at hread
  exact hread.2.2

/-- A header that is accepted is a header. -/
theorem headerBytes_of_readHeader (h : readHeader file = some (saveVersion, hash, rest)) :
    ∃ major minor ver, major < 2 ^ 16 ∧ minor < 2 ^ 16 ∧ ver < 2 ^ 32
      ∧ file = headerBytes major minor hash ver ++ rest := by
  have hlong : 16 ≤ file.length ∧ file.take 4 = bytesOf "BLYS" := by
    rw [readHeader] at h
    split_ifs at h with hlen hmagic
    exact ⟨by omega, not_not.mp hmagic⟩
  obtain ⟨hlen, hmagic⟩ := hlong
  obtain ⟨major, r1, hmajor, h1⟩ := take_number (show 2 ≤ (file.drop 4).length by simp; omega)
  have hl1 := congrArg List.length h1
  simp only [length_drop, length_append, length_leBytes] at hl1
  obtain ⟨minor, r2, hminor, h2⟩ := take_number (show 2 ≤ r1.length by omega)
  have hl2 := congrArg List.length h2
  simp only [length_append, length_leBytes] at hl2
  obtain ⟨hash', r3, hhash, h3⟩ := take_number (show 8 ≤ r2.length by omega)
  have hfile : file = bytesOf "BLYS" ++ (leBytes 2 major ++ (leBytes 2 minor
      ++ (leBytes 8 hash' ++ r3))) := by
    rw [← h3, ← h2, ← h1, ← hmagic, take_append_drop]
  rw [hfile, readHeader_fields (by omega) (by omega)] at h
  by_cases h0 : minor = 0
  · rw [if_pos (by omega)] at h
    cases h
    refine ⟨major, minor, 0, by omega, by omega, by norm_num, ?_⟩
    rw [hfile, headerBytes_append, if_pos h0]
    rfl
  · rw [if_neg (by omega)] at h
    split_ifs at h with h4
    obtain ⟨ver, r4, hver, rfl⟩ := take_number (show 4 ≤ r3.length by omega)
    rw [drop_left' (length_leBytes 4 _)] at h
    cases h
    refine ⟨major, minor, ver, by omega, by omega, by omega, ?_⟩
    rw [hfile, headerBytes_append, if_neg h0]

end Blyt
