import Blyt.CartConfig
import Blyt.NativeBuffer

/-!
# Packed state and its constants

What the packer makes of a configuration's state buffers (`compute_cart_state` and
`cart_layouts_bytes`, `devtool/src/build/mod.rs`): the constants a cart is compiled
with and the layout both runtimes read. FlatBuffers is taken to give back what was
written, where a default is not written. The native reader also notices on which side
of a table its vtable lies; that is up to the builder and a parameter here.

The C header, the Rust module and the Lua table define the same names, `S_` or `S.`
in front. Where a name is defined twice the last definition counts, and the Lua
table gets the buffers' proxies after everything else, under the names in the
configuration. `to_uppercase` is a parameter.
-/

namespace Blyt

open List Option Function

/-! ## The layout -/

/-- `RecordDecl` with the names and tags of its fields. -/
structure PackedRecord where
  name : List UInt8
  fields : List (List UInt8 × Nat)
  deriving DecidableEq, Repr

structure PackedLayouts where
  soff : Int
  records : List PackedRecord
  buffers : List BufferDecl
  schemaHash : UInt64
  deriving DecidableEq, Repr

/-- The layout as the readers see it. -/
def PackedLayouts.layouts (p : PackedLayouts) : CartLayouts :=
  ⟨p.soff, p.records.map fun r => ⟨r.name, r.fields.map Prod.snd⟩, some p.buffers, p.schemaHash⟩

/-- Where the builder puts vtables: how far in front of the root table and of each
declaration, a negative number if behind it. -/
structure VtablePlaces where
  root : Int
  decl : Nat → Int

def packFields (flat : List FlatField) : List (List UInt8 × Nat) :=
  flat.map fun f => (f.flatName, f.type.tag)

/-- A record that cannot be flattened is left out. -/
def packRecords (cfg : CartConfig) : List PackedRecord :=
  cfg.records.entries.filterMap fun r =>
    match cfg.flatten r.1 with
    | .error _ => none
    | .ok flat => some ⟨r.1, packFields flat⟩

def packBuffers (places : VtablePlaces) (bs : List (List UInt8 × ConfigBuffer)) :
    List BufferDecl :=
  bs.mapIdx fun i b =>
    ⟨places.decl i, some b.1, b.2.record, if b.2.count = 0 then none else some b.2.count.toNat⟩

/-- `cart_layouts_bytes`. There is no section without state buffers. -/
def cartLayouts (places : VtablePlaces) (cfg : CartConfig) : Option PackedLayouts :=
  if cfg.stateBuffers.entries = [] then none
  else some
    { soff := places.root
      records := packRecords cfg
      buffers := packBuffers places cfg.stateBuffers.entries
      schemaHash := computeSchemaHash cfg }

/-! ## The constants -/

/-- The names without the `S_` or `S.` in front. -/
def bufferKey (upper : List UInt8 → List UInt8) (buffer : List UInt8) : List UInt8 := upper buffer

def fieldKey (upper : List UInt8 → List UInt8) (buffer field : List UInt8) : List UInt8 :=
  upper buffer ++ bytesOf "_" ++ upper field

def fieldHandle (bufIndex index : Nat) : Nat := u32 (bufIndex <<< 16) ||| (index &&& 0xFFFF)

def bufferConsts (upper : List UInt8 → List UInt8) (bufIndex : Nat) (buffer : List UInt8)
    (flat : List FlatField) : List (List UInt8 × Nat) :=
  (bufferKey upper buffer, bufIndex)
    :: flat.map fun f => (fieldKey upper buffer f.flatName, fieldHandle bufIndex f.index)

def stateConsts (upper : List UInt8 → List UInt8) (cfg : CartConfig) :
    Nat → List (List UInt8 × ConfigBuffer) → Except ConfigError (List (List UInt8 × Nat))
  | _, [] => .ok []
  | bufIndex, b :: bs =>
    match cfg.flatten b.2.record with
    | .error e => .error e
    | .ok flat =>
      match stateConsts upper cfg (bufIndex + 1) bs with
      | .error e => .error e
      | .ok rest => .ok (bufferConsts upper bufIndex b.1 flat ++ rest)

/-- The definitions of `compute_cart_state`, in their order. -/
def computeCartState (upper : List UInt8 → List UInt8) (cfg : CartConfig) :
    Except ConfigError (List (List UInt8 × Nat)) :=
  stateConsts upper cfg 1 cfg.stateBuffers.entries

/-- What the name is in C and in Rust. -/
def cConst (consts : List (List UInt8 × Nat)) (key : List UInt8) : Option Nat :=
  (consts.reverse.find? fun c => decide (c.1 = key)).map Prod.snd

/-- What the name is in Lua, unless a proxy took it. -/
def luaConst (cfg : CartConfig) (consts : List (List UInt8 × Nat)) (key : List UInt8) :
    Option Nat :=
  if key ∈ cfg.stateBuffers.keys then none else cConst consts key

/-! ## At run time -/

/-- `find_buffer`: the position of the buffer with this handle. -/
def bufferAt (s : List Buffer) (h : Nat) : Option Nat :=
  if h = 0 ∨ s.length < h then none else some (h - 1)

/-- The buffer and the field of a field handle. -/
def fieldAt (s : List Buffer) (h : Nat) : Option (Nat × Nat) :=
  (bufferAt s (h >>> 16)).bind fun i => (s[i]?).bind fun b =>
    if h % 2 ^ 16 = 0 ∨ b.tags.length < h % 2 ^ 16 then none else some (i, h % 2 ^ 16 - 1)

/-- `field_names`, from the record whose tags the buffer has. -/
def fieldNames (p : PackedLayouts) (d : BufferDecl) : List (List UInt8) :=
  match p.records.find? fun r => decide (cstr r.name = cstr d.recordName) with
  | none => []
  | some r => r.fields.map fun f => cstr f.1

/-- The names and tags of a buffer's fields. -/
def contextFields (p : PackedLayouts) (i : Nat) : List (List UInt8 × Nat) :=
  match (stateCtxInit p.layouts)[i]?, p.buffers[i]? with
  | some b, some d => (fieldNames p d).zip b.tags
  | _, _ => []

/-- The buffer in this place is the declared one, and the constants find it and its
fields. -/
structure Resolves (p : PackedLayouts) (upper : List UInt8 → List UInt8)
    (const : List UInt8 → Option Nat) (i : Nat) (buffer : List UInt8) (flat : List FlatField) :
    Prop where
  handle : ∃ h, const (bufferKey upper buffer) = some h
    ∧ bufferAt (stateCtxInit p.layouts) h = some i
  name : (stateCtxInit p.layouts)[i]?.map Buffer.name = some (cstr buffer)
  fields : contextFields p i = (packFields flat).map fun f => (cstr f.1, f.2)
  fieldHandles : ∀ (k : Nat) (f : FlatField), flat[k]? = some f →
    ∃ h, const (fieldKey upper buffer f.flatName) = some h
      ∧ fieldAt (stateCtxInit p.layouts) h = some (i, k)

/-- Every constant, in C and Rust and in Lua, stands for the buffer or for the
declared field it was generated for. -/
def HandlesResolve (upper : List UInt8 → List UInt8) (places : VtablePlaces) (cfg : CartConfig) :
    Prop :=
  ∃ consts, computeCartState upper cfg = .ok consts
    ∧ ∀ const, const = cConst consts ∨ const = luaConst cfg consts →
      ∀ (i : Nat) (b : List UInt8 × ConfigBuffer), cfg.stateBuffers.entries[i]? = some b →
        ∃ p flat, cartLayouts places cfg = some p ∧ cfg.flatten b.2.record = .ok flat
          ∧ (∀ f ∈ flat, DeclaredField cfg.records b.2.record f.flatName f.type f.refTarget)
          ∧ Resolves p upper const i b.1 flat

/-- The configuration is within what the emulated runtime holds. -/
structure InHostLimits (cfg : CartConfig) : Prop where
  buffers : cfg.stateBuffers.entries.length ≤ maxBuffers
  fields : ∀ b ∈ cfg.stateBuffers.entries, ∀ flat, cfg.flatten b.2.record = .ok flat →
    flat ≠ [] ∧ flat.length ≤ maxFields

/-! ## The layout read back -/

/-- The names and tags a record is packed with. -/
def CartConfig.signature (cfg : CartConfig) (record : List UInt8) : List (List UInt8 × Nat) :=
  match cfg.flatten record with
  | .error _ => []
  | .ok flat => packFields flat

/-- The record the emulated runtime finds for a name. -/
def CartConfig.cRecord (cfg : CartConfig) (record : List UInt8) : Option (List UInt8) :=
  cfg.records.keys.find? fun r => decide (cstr r = cstr record)

def cName (f : List UInt8 × Nat) : List UInt8 × Nat := (cstr f.1, f.2)

section

variable {cfg : CartConfig} {places : VtablePlaces} {p : PackedLayouts}
  {upper : List UInt8 → List UInt8}
  {record : List UInt8} {flat : List FlatField} {bs : List (List UInt8 × ConfigBuffer)}
  {i : Nat} {b : List UInt8 × ConfigBuffer} {buf : Buffer} {L : CartLayouts} {ds : List BufferDecl}
  {consts : List (List UInt8 × Nat)} {n : Nat} {s : List Buffer} {h : Nat}

theorem signature_eq
    (h : cfg.flatten record = .ok flat) : cfg.signature record = packFields flat := by
  rw [CartConfig.signature, h]

theorem packRecords_eq (hacc : cfg.Accepted) :
    packRecords cfg = cfg.records.keys.map fun r => ⟨r, cfg.signature r⟩ := by
  rw [KeyMap.keys, List.map_map, ← filterMap_eq_map]
  refine filterMap_congr fun r hr => ?_
  obtain ⟨flat, hflat⟩ := hacc.flatten (List.mem_map_of_mem hr)
  rw [comp_apply, comp_apply, signature_eq hflat, hflat]

theorem find_packRecords (hacc : cfg.Accepted) (record : List UInt8) :
    (packRecords cfg).find? (fun r => decide (cstr r.name = cstr record))
      = (cfg.cRecord record).map fun r => ⟨r, cfg.signature r⟩ := by
  rw [packRecords_eq hacc, find?_map]
  rfl

theorem packBuffers_getElem (h : bs[i]? = some b) :
    (packBuffers places bs)[i]?
      = some ⟨places.decl i, some b.1, b.2.record,
        if b.2.count = 0 then none else some b.2.count.toNat⟩ := by
  rw [packBuffers, getElem?_mapIdx, h]
  rfl

theorem cartLayouts_some (places : VtablePlaces)
    (hb : cfg.stateBuffers.entries[i]? = some b) : ∃ p, cartLayouts places cfg = some p := by
  rw [cartLayouts, if_neg]
  · exact ⟨_, rfl⟩
  · intro h
    rw [h] at hb
    cases hb

theorem cartLayouts_eq (hp : cartLayouts places cfg = some p) :
    p.records = packRecords cfg
      ∧ p.buffers = packBuffers places cfg.stateBuffers.entries := by
  rw [cartLayouts] at hp
  split at hp
  · cases hp
  · cases hp
    exact ⟨rfl, rfl⟩

theorem cartLayouts_soff (hp : cartLayouts places cfg = some p) :
    p.layouts.soff = places.root := by
  rw [cartLayouts] at hp
  split at hp <;> cases hp
  rfl

theorem initBuffer_packed (hacc : cfg.Accepted) (hp : cartLayouts places cfg = some p)
    (hb : cfg.stateBuffers.entries[i]? = some b) :
    (p.buffers[i]?).bind (initBuffer p.layouts) = some buf
      ↔ ∃ r, cfg.cRecord b.2.record = some r ∧ cfg.signature r ≠ []
        ∧ (cfg.signature r).length ≤ maxFields
        ∧ buf = ⟨b.2.count.toNat, p.schemaHash, cstr b.1, (cfg.signature r).map Prod.snd,
          fun _ _ => 0, fun _ => false, fun _ => 1⟩ := by
  obtain ⟨hrecords, hbuffers⟩ := cartLayouts_eq hp
  have hcount : (if b.2.count = 0 then none else some b.2.count.toNat : Option Nat).getD 0
      = b.2.count.toNat := by
    split
    · rename_i h0
      rw [h0]
      rfl
    · rfl
  have hfind : p.layouts.records.find? (fun r => decide (cstr r.name = cstr b.2.record))
      = (cfg.cRecord b.2.record).map fun r => ⟨r, (cfg.signature r).map Prod.snd⟩ := by
    rw [PackedLayouts.layouts, find?_map, hrecords]
    show Option.map _ ((packRecords cfg).find? fun r => decide (cstr r.name = cstr b.2.record)) = _
    rw [find_packRecords hacc, Option.map_map]
    rfl
  rw [hbuffers, packBuffers_getElem hb, bind_some, initBuffer, hfind]
  cases hr : cfg.cRecord b.2.record with
  | none => exact ⟨nofun, fun ⟨_, h, _⟩ => (nomatch h)⟩
  | some r =>
    rw [map_some]
    simp only [length_map, length_eq_zero_iff, hcount]
    split <;> rename_i hlen
    · refine ⟨nofun, ?_⟩
      rintro ⟨_, ⟨⟩, hne, hle, -⟩
      rcases hlen with h | h
      · exact absurd h hne
      · omega
    · rw [not_or] at hlen
      constructor
      · intro h
        cases h
        exact ⟨r, rfl, hlen.1, by omega, rfl⟩
      · rintro ⟨_, ⟨⟩, -, -, rfl⟩
        rfl

theorem initBuffers_getElem {bs : List Buffer}
    (h : initBuffers L ds = some bs) (i : Nat) : bs[i]? = (ds[i]?).bind (initBuffer L) := by
  have hall := initBuffers_eq_some.mp h
  clear h
  induction hall generalizing i with
  | nil => rfl
  | cons hd _ ih =>
    cases i with
    | zero => exact hd.symm
    | succ i => exact ih i

theorem initBuffers_isSome
    (h : ∀ d ∈ ds, ∃ b, initBuffer L d = some b) : ∃ bs, initBuffers L ds = some bs := by
  induction ds with
  | nil => exact ⟨[], rfl⟩
  | cons d ds ih =>
    obtain ⟨⟨b, hb⟩, htail⟩ := forall_mem_cons.mp h
    obtain ⟨bs, hbs⟩ := ih htail
    exact ⟨b :: bs, by rw [initBuffers, hb, hbs]; rfl⟩

/-! ## The constants looked up -/

/-- The last definition of a name that is defined once is the definition. -/
theorem cConst_of_nodup (hnodup : (consts.map Prod.fst).Nodup)
    {c : List UInt8 × Nat} (hc : c ∈ consts) : cConst consts c.1 = some c.2 := by
  rw [cConst]
  cases hf : consts.reverse.find? fun d => decide (d.1 = c.1) with
  | none => exact absurd (find?_eq_none.mp hf c (mem_reverse.mpr hc)) (by simp)
  | some d =>
    have hkey : d.1 = c.1 := by simpa using find?_some hf
    have hd := mem_reverse.mp (mem_of_find?_eq_some hf)
    rw [map_some, inj_on_of_nodup_map hnodup hd hc hkey]

/-- If different definitions have different values and each is found, no name is
defined twice. -/
theorem nodup_of_cConst (hvals : (consts.map Prod.snd).Nodup)
    (hfound : ∀ c ∈ consts, cConst consts c.1 = some c.2) : (consts.map Prod.fst).Nodup := by
  refine List.Nodup.of_map (cConst consts) ?_
  rw [List.map_map, show consts.map (cConst consts ∘ Prod.fst) =
    (consts.map Prod.snd).map some from ?_]
  · exact hvals.map (some_injective _)
  · rw [List.map_map]
    exact map_congr_left hfound

theorem stateConsts_ok (upper : List UInt8 → List UInt8) (n : Nat)
    (h : ∀ b ∈ bs, ∃ flat, cfg.flatten b.2.record = .ok flat) :
    ∃ consts, stateConsts upper cfg n bs = .ok consts
      ∧ ∀ c, c ∈ consts ↔ ∃ (i : Nat) (b : List UInt8 × ConfigBuffer) (flat : List FlatField),
        bs[i]? = some b ∧ cfg.flatten b.2.record = .ok flat
          ∧ c ∈ bufferConsts upper (n + i) b.1 flat := by
  induction bs generalizing n with
  | nil => exact ⟨[], rfl, fun c => by simp⟩
  | cons b bs ih =>
    obtain ⟨⟨flat, hflat⟩, htail⟩ := forall_mem_cons.mp h
    obtain ⟨rest, hrest, hmem⟩ := ih (n + 1) htail
    refine ⟨bufferConsts upper n b.1 flat ++ rest, by rw [stateConsts, hflat, hrest], fun c => ?_⟩
    rw [mem_append, hmem]
    constructor
    · rintro (hc | ⟨i, b', flat', hb, hflat', hc⟩)
      · exact ⟨0, b, flat, rfl, hflat, hc⟩
      · exact ⟨i + 1, b', flat', hb, hflat', by rwa [Nat.add_assoc, Nat.add_comm 1] at hc⟩
    · rintro ⟨i, b', flat', hb, hflat', hc⟩
      cases i with
      | zero =>
        obtain rfl : b = b' := by simpa using hb
        obtain rfl : flat = flat' := Except.ok.inj (hflat.symm.trans hflat')
        exact .inl hc
      | succ i =>
        refine .inr ⟨i, b', flat', by simpa using hb, hflat', ?_⟩
        rwa [Nat.add_assoc, Nat.add_comm 1]

theorem fieldHandle_eq {bufIndex index : Nat} (hbuf : bufIndex < 2 ^ 16) (hindex : index < 2 ^ 16) :
    fieldHandle bufIndex index = bufIndex * 2 ^ 16 + index := by
  have hmask : index &&& 0xFFFF = index :=
    (Nat.and_two_pow_sub_one_eq_mod index 16).trans (Nat.mod_eq_of_lt hindex)
  rw [fieldHandle, hmask, u32_of_lt (by omega), ← Nat.shiftLeft_eq,
    ← Nat.shiftLeft_add_eq_or_of_lt hindex]

/-- The buffer a handle of either kind belongs to. -/
def handleBuffer (h : Nat) : Nat := if h < 2 ^ 16 then h else h / 2 ^ 16

/-- The values of one buffer's constants: different ones, all of this buffer. -/
theorem bufferConsts_values (upper : List UInt8 → List UInt8) (buffer : List UInt8)
    (hflat : cfg.flatten record = .ok flat) (hn : 0 < n) (hlt : n < 2 ^ 16)
    (hlen : flat.length < 2 ^ 16) :
    ((bufferConsts upper n buffer flat).map Prod.snd).Nodup
      ∧ ∀ c ∈ bufferConsts upper n buffer flat, handleBuffer c.2 = n := by
  have hvals : (bufferConsts upper n buffer flat).map Prod.snd
      = n :: (range flat.length).map fun k => n * 2 ^ 16 + (k + 1) := by
    rw [bufferConsts, map_cons, List.map_map]
    refine congrArg _ (ext_getElem? fun k => ?_)
    rw [getElem?_map, getElem?_map]
    cases hk : flat[k]? with
    | none => simp [List.getElem?_eq_none_iff.mp hk]
    | some =>
      obtain ⟨hlt', -⟩ := List.getElem?_eq_some_iff.mp hk
      simp only [map_some, comp_apply, getElem?_range hlt', CartConfig.flatten_index hflat hk]
      rw [u32_of_lt (by omega), fieldHandle_eq hlt (by omega)]
  have hmem : ∀ v ∈ (bufferConsts upper n buffer flat).map Prod.snd, handleBuffer v = n := by
    intro v hv
    rw [hvals, mem_cons, List.mem_map] at hv
    rcases hv with rfl | ⟨k, hk, rfl⟩
    · exact if_pos hlt
    · have hk := mem_range.mp hk
      rw [handleBuffer, if_neg (by omega)]
      omega
  refine ⟨?_, fun c hc => hmem _ (List.mem_map_of_mem hc)⟩
  rw [hvals, nodup_cons]
  constructor
  · intro h
    obtain ⟨k, -, hk⟩ := List.mem_map.mp h
    omega
  · exact nodup_range.map fun a b h => by
      omega

/-- Different constants have different values. -/
theorem stateConsts_values (h : stateConsts upper cfg n bs = .ok consts) (hn : 0 < n)
    (hbound : n + bs.length ≤ 2 ^ 16)
    (hlen : ∀ b ∈ bs, ∀ flat, cfg.flatten b.2.record = .ok flat → flat.length < 2 ^ 16) :
    (consts.map Prod.snd).Nodup ∧ ∀ c ∈ consts, n ≤ handleBuffer c.2 := by
  induction bs generalizing n consts with
  | nil =>
    cases h
    exact ⟨nodup_nil, nofun⟩
  | cons b bs ih =>
    rw [length_cons] at hbound
    rw [stateConsts] at h
    split at h
    · cases h
    rename_i flat hflat
    split at h
    · cases h
    rename_i rest hrest
    cases h
    obtain ⟨hhere, htail⟩ := forall_mem_cons.mp hlen
    obtain ⟨hnodup, hbuf⟩ := bufferConsts_values upper b.1 hflat hn (by omega) (hhere flat hflat)
    obtain ⟨hrestNodup, hrestBuf⟩ := ih hrest (by omega) (by omega) htail
    refine ⟨?_, fun c hc => ?_⟩
    · rw [map_append, nodup_append]
      refine ⟨hnodup, hrestNodup, ?_⟩
      rintro v hv w hw rfl
      obtain ⟨c, hc, rfl⟩ := List.mem_map.mp hv
      obtain ⟨d, hd, heq⟩ := List.mem_map.mp hw
      have h1 := hbuf c hc
      have h2 := hrestBuf d hd
      rw [heq] at h2
      omega
    · rcases mem_append.mp hc with hc | hc
      · exact (hbuf c hc).ge
      · have := hrestBuf c hc
        omega

/-! ## Handles at run time -/

theorem bufferAt_eq_some_iff : bufferAt s h = some i ↔ h = i + 1 ∧ i < s.length := by
  rw [bufferAt]
  split
  · exact ⟨nofun, fun hi => by omega⟩
  · rw [some.injEq]
    omega

theorem fieldAt_eq_some_iff {k : Nat} :
    fieldAt s h = some (i, k)
      ↔ h = (i + 1) * 2 ^ 16 + (k + 1) ∧ k + 1 < 2 ^ 16 ∧
        ∃ b, s[i]? = some b ∧ k < b.tags.length := by
  rw [fieldAt]
  constructor
  · intro hf
    obtain ⟨j, hj, hf⟩ := bind_eq_some_iff.mp hf
    obtain ⟨b, hb, hf⟩ := bind_eq_some_iff.mp hf
    obtain ⟨hh, -⟩ := bufferAt_eq_some_iff.mp hj
    split at hf
    · cases hf
    · cases hf
      exact ⟨by omega, by omega, b, hb, by omega⟩
  · rintro ⟨rfl, hk, b, hb, hlt⟩
    have hi := (List.getElem?_eq_some_iff.mp hb).1
    rw [bind_eq_some_iff]
    refine ⟨i, bufferAt_eq_some_iff.mpr ⟨?_, hi⟩, ?_⟩
    · omega
    · rw [hb, bind_some, if_neg (by omega)]
      congr 2
      omega

/-- The record found for the name has fields, and not too many. -/
def CartConfig.FieldsFit (cfg : CartConfig) (record : List UInt8) : Prop :=
  ∃ r, cfg.cRecord record = some r ∧ cfg.signature r ≠ [] ∧ (cfg.signature r).length ≤ maxFields

/-- It has the fields of the record that was meant. -/
def CartConfig.RecordKept (cfg : CartConfig) (record : List UInt8) : Prop :=
  ∃ r, cfg.cRecord record = some r
    ∧ (cfg.signature r).map cName = (cfg.signature record).map cName

theorem stateCtxInit_packed (hlen : cfg.stateBuffers.entries.length ≤ maxBuffers)
    (hp : cartLayouts places cfg = some p) :
    stateCtxInit p.layouts = (initBuffers p.layouts p.buffers).getD [] := by
  have hshort : p.buffers.length ≤ maxBuffers := by
    rwa [(cartLayouts_eq hp).2, packBuffers, length_mapIdx]
  show (initBuffers p.layouts (p.buffers.take maxBuffers)).getD [] = _
  rw [take_of_length_le hshort]

section

variable (hacc : cfg.Accepted)
include hacc

/-- What a buffer of the runtime is, if there is one. -/
theorem hostBuffer_eq (hlen : cfg.stateBuffers.entries.length ≤ maxBuffers)
    (hp : cartLayouts places cfg = some p) (hb : cfg.stateBuffers.entries[i]? = some b)
    (hbuf : (stateCtxInit p.layouts)[i]? = some buf) :
    ∃ r, cfg.cRecord b.2.record = some r ∧ buf.name = cstr b.1
      ∧ buf.tags = (cfg.signature r).map Prod.snd
      ∧ contextFields p i = (cfg.signature r).map cName := by
  obtain ⟨hrecords, hbuffers⟩ := cartLayouts_eq hp
  have hctx := hbuf
  rw [stateCtxInit_packed hlen hp] at hbuf
  cases hinit : initBuffers p.layouts p.buffers with
  | none =>
    rw [hinit] at hbuf
    cases hbuf
  | some =>
    rw [hinit, getD_some, initBuffers_getElem hinit i] at hbuf
    obtain ⟨r, hr, -, -, rfl⟩ := (initBuffer_packed hacc hp hb).mp hbuf
    refine ⟨r, hr, rfl, rfl, ?_⟩
    rw [contextFields, hctx, hbuffers, packBuffers_getElem hb]
    simp only [fieldNames]
    rw [hrecords, find_packRecords hacc, hr]
    exact zip_map'

/-- All buffers are there if their records fit. -/
theorem initBuffers_packed (hp : cartLayouts places cfg = some p)
    (hfit : ∀ b ∈ cfg.stateBuffers.entries, cfg.FieldsFit b.2.record) :
    ∃ s, initBuffers p.layouts p.buffers = some s ∧ s.length = cfg.stateBuffers.entries.length := by
  have hlen : p.buffers.length = cfg.stateBuffers.entries.length := by
    rw [(cartLayouts_eq hp).2, packBuffers, length_mapIdx]
  obtain ⟨s, hs⟩ : ∃ s, initBuffers p.layouts p.buffers = some s := by
    refine initBuffers_isSome fun d hd => ?_
    obtain ⟨j, hj⟩ := getElem?_of_mem hd
    have hjlt := (List.getElem?_eq_some_iff.mp hj).1
    obtain ⟨b, hb⟩ : ∃ b, cfg.stateBuffers.entries[j]? = some b :=
      ⟨_, getElem?_eq_getElem (by omega)⟩
    obtain ⟨r, hr, hne, hle⟩ := hfit b (mem_of_getElem? hb)
    have hbuf := (initBuffer_packed hacc hp hb).mpr ⟨r, hr, hne, hle, rfl⟩
    rw [hj] at hbuf
    exact ⟨_, hbuf⟩
  exact ⟨s, hs, by rw [← (initBuffers_eq_some.mp hs).length_eq, hlen]⟩

/-- A record that is found as it was meant fits, within the limits. -/
theorem CartConfig.RecordKept.fieldsFit (hlim : InHostLimits cfg)
    (hb : b ∈ cfg.stateBuffers.entries) (hkept : cfg.RecordKept b.2.record) :
    cfg.FieldsFit b.2.record := by
  obtain ⟨r, hr, hsig⟩ := hkept
  obtain ⟨flat, hflat⟩ := hacc.flatten ((CartConfig.accepted_iff.mp hacc).2.1 b hb)
  obtain ⟨hne, hle⟩ := hlim.fields b hb flat hflat
  have hsize : (cfg.signature r).length = flat.length := by
    have := congrArg List.length hsig
    rwa [length_map, length_map, signature_eq hflat, packFields, length_map] at this
  have hpos := length_pos_iff.mpr hne
  exact ⟨r, hr, ne_nil_of_length_pos (by omega), by omega⟩

/-- If all records are found as they were meant, each buffer is the declared one. -/
theorem hostBuffer_declared (hlim : InHostLimits cfg) (hp : cartLayouts places cfg = some p)
    (hkept : ∀ b ∈ cfg.stateBuffers.entries, cfg.RecordKept b.2.record)
    (hb : cfg.stateBuffers.entries[i]? = some b) (hflat : cfg.flatten b.2.record = .ok flat) :
    ∃ buf, (stateCtxInit p.layouts)[i]? = some buf ∧ buf.name = cstr b.1
      ∧ contextFields p i = (packFields flat).map cName ∧ buf.tags.length = flat.length := by
  obtain ⟨s, hs, hlen⟩ := initBuffers_packed hacc hp fun b hb => (hkept b hb).fieldsFit hacc hlim hb
  have hi := (List.getElem?_eq_some_iff.mp hb).1
  obtain ⟨buf, hbuf⟩ : ∃ buf, (stateCtxInit p.layouts)[i]? = some buf := by
    rw [stateCtxInit_packed hlim.buffers hp, hs, getD_some]
    exact ⟨_, getElem?_eq_getElem (by omega)⟩
  obtain ⟨r, hr, hname, htags, hctx⟩ := hostBuffer_eq hacc hlim.buffers hp hb hbuf
  obtain ⟨r', hr', hsig⟩ := hkept b (mem_of_getElem? hb)
  obtain rfl : r = r' := some.inj (hr.symm.trans hr')
  rw [signature_eq hflat] at hsig
  refine ⟨buf, hbuf, hname, hctx.trans hsig, ?_⟩
  have hlen := congrArg List.length hsig
  rw [length_map, length_map, packFields, length_map] at hlen
  rw [htags, length_map, hlen]

end

/-- Where the buffer is the declared one, the constants find it and its fields
exactly if they have the values they were given. -/
theorem resolves_iff {const : List UInt8 → Option Nat} {buffer : List UInt8}
    (hbuf : (stateCtxInit p.layouts)[i]? = some buf) (hname : buf.name = cstr buffer)
    (hctx : contextFields p i = (packFields flat).map cName) (hlen : buf.tags.length = flat.length)
    (hflat : cfg.flatten record = .ok flat) (hi : i + 1 < 2 ^ 16) (hsize : flat.length < 2 ^ 16) :
    Resolves p upper const i buffer flat
      ↔ ∀ c ∈ bufferConsts upper (i + 1) buffer flat, const c.1 = some c.2 := by
  have hlt := (List.getElem?_eq_some_iff.mp hbuf).1
  have hhandle : ∀ (k : Nat) (f : FlatField), flat[k]? = some f →
      fieldHandle (i + 1) f.index = (i + 1) * 2 ^ 16 + (k + 1) ∧ k < buf.tags.length := by
    intro k f hk
    have hklt := (List.getElem?_eq_some_iff.mp hk).1
    rw [CartConfig.flatten_index hflat hk, u32_of_lt (by omega), fieldHandle_eq hi (by omega)]
    exact ⟨rfl, by omega⟩
  constructor
  · intro h c hc
    rcases mem_cons.mp hc with rfl | hc
    · obtain ⟨v, hv, hat⟩ := h.handle
      exact hv.trans (congrArg some (bufferAt_eq_some_iff.mp hat).1)
    · obtain ⟨f, hf, rfl⟩ := List.mem_map.mp hc
      obtain ⟨k, hk⟩ := getElem?_of_mem hf
      obtain ⟨v, hv, hat⟩ := h.fieldHandles k f hk
      refine hv.trans (congrArg some ?_)
      rw [(fieldAt_eq_some_iff.mp hat).1, (hhandle k f hk).1]
  · intro h
    refine ⟨⟨i + 1, h _ mem_cons_self, bufferAt_eq_some_iff.mpr ⟨rfl, hlt⟩⟩, ?_, hctx, ?_⟩
    · rw [hbuf, map_some, hname]
    · intro k f hk
      have hklt := (List.getElem?_eq_some_iff.mp hk).1
      refine ⟨_, h _ (mem_cons_of_mem _ (List.mem_map_of_mem (mem_of_getElem? hk))), ?_⟩
      exact fieldAt_eq_some_iff.mpr ⟨(hhandle k f hk).1, by omega, buf, hbuf, (hhandle k f hk).2⟩

/-- The names the packer defines. -/
def constNames (upper : List UInt8 → List UInt8) (cfg : CartConfig) : List (List UInt8) :=
  cfg.stateBuffers.entries.flatMap fun b =>
    bufferKey upper b.1 :: (cfg.signature b.2.record).map fun f => fieldKey upper b.1 f.1

theorem stateConsts_names (h : stateConsts upper cfg n bs = .ok consts) :
    consts.map Prod.fst = bs.flatMap fun b =>
      bufferKey upper b.1 :: (cfg.signature b.2.record).map fun f => fieldKey upper b.1 f.1 := by
  induction bs generalizing n consts with
  | nil =>
    cases h
    rfl
  | cons b bs ih =>
    rw [stateConsts] at h
    split at h
    · cases h
    rename_i flat hflat
    split at h
    · cases h
    rename_i rest hrest
    cases h
    rw [map_append, ih hrest, flatMap_cons, signature_eq hflat]
    simp [bufferConsts, packFields, comp_def]

/-- The constants are found in C and in Lua exactly if no name is defined twice and
no proxy takes one. -/
theorem consts_found_iff
    (h : computeCartState upper cfg = .ok consts) (hvals : (consts.map Prod.snd).Nodup) :
    (∀ const, const = cConst consts ∨ const = luaConst cfg consts →
        ∀ c ∈ consts, const c.1 = some c.2)
      ↔ (constNames upper cfg).Nodup ∧
        ∀ key ∈ constNames upper cfg, key ∉ cfg.stateBuffers.keys := by
  have hnames : consts.map Prod.fst = constNames upper cfg := stateConsts_names h
  rw [← hnames]
  constructor
  · intro hfound
    refine ⟨nodup_of_cConst hvals (hfound _ (.inl rfl)), fun key hkey hproxy => ?_⟩
    obtain ⟨c, hc, rfl⟩ := List.mem_map.mp hkey
    have hlua := hfound _ (.inr rfl) c hc
    rw [luaConst, if_pos hproxy] at hlua
    cases hlua
  · rintro ⟨hnodup, hproxy⟩ const (rfl | rfl) c hc
    · exact cConst_of_nodup hnodup hc
    · rw [luaConst, if_neg (hproxy _ (List.mem_map_of_mem hc))]
      exact cConst_of_nodup hnodup hc

end

/-- `to_uppercase` on ASCII. -/
def asciiUpper (name : List UInt8) : List UInt8 :=
  name.map fun c => if 97 ≤ c ∧ c ≤ 122 then c - 32 else c

/-- Buffers of four slots over one record, which has an i32 field. -/
def posConfig (buffers : KeyMap ConfigBuffer) : CartConfig where
  records := ⟨[(bytesOf "Body", [⟨bytesOf "pos", some (bytesOf "i32"), none⟩])], by decide⟩
  stateBuffers := buffers
  colors := ⟨[], .nil⟩

theorem posConfig_flatten (buffers : KeyMap ConfigBuffer) :
    (posConfig buffers).flatten (bytesOf "Body") = .ok [⟨bytesOf "pos", .i32, 1, none⟩] := by
  have hempty : (posConfig ⟨[], .nil⟩).flatten (bytesOf "Body")
      = .ok [⟨bytesOf "pos", .i32, 1, none⟩] := by decide +kernel
  exact hempty

theorem posConfig_inHostLimits {buffers : KeyMap ConfigBuffer}
    (hlen : buffers.entries.length ≤ maxBuffers)
    (hrec : ∀ b ∈ buffers.entries, b.2.record = bytesOf "Body") :
    InHostLimits (posConfig buffers) := by
  refine ⟨hlen, fun b hb flat hflat => ?_⟩
  rw [hrec b hb, posConfig_flatten] at hflat
  cases hflat
  exact ⟨nofun, by decide⟩

def poolBuffers : KeyMap ConfigBuffer :=
  ⟨[(bytesOf "enemy", ⟨bytesOf "Body", 4⟩), (bytesOf "player", ⟨bytesOf "Body", 128⟩)], by decide⟩

/-- The second declaration has its vtable behind it. -/
def poolPlaces : VtablePlaces := ⟨16, fun i => if i = 0 then 12 else -20⟩

/-- Two buffers, one named like a field of the other. -/
def clashBuffers : KeyMap ConfigBuffer :=
  ⟨[(bytesOf "player", ⟨bytesOf "Body", 4⟩), (bytesOf "player_pos", ⟨bytesOf "Body", 4⟩)],
    by decide⟩

end Blyt
