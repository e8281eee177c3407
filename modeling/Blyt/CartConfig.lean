import Mathlib.Data.List.Lex
import Blyt.CartNames
import Blyt.StateBuffer

/-!
# Cart configurations

What `devtool/src/config.rs` makes of the records and state buffers of a
`blyt.config.yaml`: `flatten_record`, the schema hash and the checks of
`read_cart_config`. A configuration comes parsed. The maps are `BTreeMap`s, so
their keys increase. An error keeps the names its text shows.

`flatten_record` refuses a record it is already inside of, so it is never deeper
than there are records; `flattenRecord_fuel` says that the bound on the recursion
used here is not noticed. `flatten_record_spec` says which records it refuses, and what
it makes of the others: the primitive fields a record declares, its own and those of the
records it embeds, in order.
-/

namespace Blyt

open List Option Relation

/-! ## The configuration -/

/-- Keys are compared as byte strings. -/
instance lawfulBEq_key : LawfulBEq (List UInt8) := inferInstance

/-- A `BTreeMap` with string keys. -/
structure KeyMap (α : Type) where
  entries : List (List UInt8 × α)
  sorted : (entries.map Prod.fst).Pairwise (· < ·)

namespace KeyMap

variable {α : Type}

def get (m : KeyMap α) (key : List UInt8) : Option α :=
  (m.entries.find? fun e => decide (e.1 = key)).map Prod.snd

def keys (m : KeyMap α) : List (List UInt8) := m.entries.map Prod.fst

theorem nodup (m : KeyMap α) : m.keys.Nodup := by
  refine m.sorted.imp ?_
  rintro a _ h rfl
  exact List.lt_irrefl a h

variable {m : KeyMap α} {key : List UInt8}

theorem get_eq_some_iff {v : α} : m.get key = some v ↔ (key, v) ∈ m.entries := by
  constructor
  · intro h
    obtain ⟨e, he, rfl⟩ := map_eq_some_iff.mp h
    have hkey : e.1 = key := by simpa using find?_some he
    exact hkey ▸ mem_of_find?_eq_some he
  · intro h
    cases hf : m.entries.find? fun e => decide (e.1 = key) with
    | none => exact absurd (find?_eq_none.mp hf _ h) (by simp)
    | some e =>
      have hkey : e.1 = key := by simpa using find?_some hf
      have he := inj_on_of_nodup_map m.nodup (mem_of_find?_eq_some hf) h hkey
      rw [get, hf, he, map_some]

theorem get_isSome_iff : (m.get key).isSome = true ↔ key ∈ m.keys := by
  rw [isSome_iff_exists]
  constructor
  · rintro ⟨v, hv⟩
    exact List.mem_map.mpr ⟨_, get_eq_some_iff.mp hv, rfl⟩
  · intro h
    obtain ⟨⟨k, v⟩, hkv, rfl⟩ := List.mem_map.mp h
    exact ⟨v, get_eq_some_iff.mpr hkv⟩

end KeyMap

/-- A field declares a type - one of the primitive ones, or the record it embeds -
or the buffer it refers to. -/
structure ConfigField where
  name : List UInt8
  typeName : Option (List UInt8)
  refTarget : Option (List UInt8)
  deriving DecidableEq, Repr

structure ConfigBuffer where
  record : List UInt8
  count : UInt32
  deriving DecidableEq, Repr

/-- The parts of a configuration that are checked or packed here. -/
structure CartConfig where
  records : KeyMap (List ConfigField)
  stateBuffers : KeyMap ConfigBuffer
  colors : KeyMap UInt8

inductive ConfigError where
  | cyclicRecord (record : List UInt8) (visiting : List (List UInt8))
  | recordNotDeclared (record : List UInt8)
  | typeOrRef (record field : List UInt8)
  | colorName (name : List UInt8)
  | unknownRecord (buffer record : List UInt8)
  | refNotDeclared (record field target : List UInt8)
  deriving DecidableEq, Repr

def parseTypeTag (name : List UInt8) : Option FieldType :=
  if name = bytesOf "i8" then some .i8
  else if name = bytesOf "u8" then some .u8
  else if name = bytesOf "i16" then some .i16
  else if name = bytesOf "u16" then some .u16
  else if name = bytesOf "i32" then some .i32
  else if name = bytesOf "u32" then some .u32
  else if name = bytesOf "f32" then some .f32
  else if name = bytesOf "f64" then some .f64
  else if name = bytesOf "bool" then some .bool
  else none

/-! ## Flattening -/

structure FlatField where
  flatName : List UInt8
  type : FieldType
  index : Nat
  refTarget : Option (List UInt8)
  deriving DecidableEq, Repr

/-- An embedded record's field, under the name of the embedding one. -/
def FlatField.inside (outer : List UInt8) (f : FlatField) : FlatField :=
  { f with flatName := outer ++ bytesOf "_" ++ f.flatName, index := 0 }

/-- Indices start at 1. -/
def numberFields (flat : List FlatField) : List FlatField :=
  flat.zipIdx.map fun p => { p.1 with index := u32 (p.2 + 1) }

def flattenField (sub : List UInt8 → Except ConfigError (List FlatField)) (record : List UInt8)
    (f : ConfigField) : Except ConfigError (List FlatField) :=
  match f.typeName, f.refTarget with
  | some _, some _ | none, none => .error (.typeOrRef record f.name)
  | none, some target => .ok [⟨f.name, .u32, 0, some target⟩]
  | some typeName, none =>
    match parseTypeTag typeName with
    | some t => .ok [⟨f.name, t, 0, none⟩]
    | none => (sub typeName).map fun flat => flat.map (FlatField.inside f.name)

def flattenFields (sub : List UInt8 → Except ConfigError (List FlatField)) (record : List UInt8) :
    List ConfigField → Except ConfigError (List FlatField)
  | [] => .ok []
  | f :: fs =>
    match flattenField sub record f with
    | .error e => .error e
    | .ok here =>
      match flattenFields sub record fs with
      | .error e => .error e
      | .ok rest => .ok (here ++ rest)

/-- `flatten_record`, at most `fuel` records deep. -/
def flattenRecord (records : KeyMap (List ConfigField)) :
    Nat → List UInt8 → List (List UInt8) → Except ConfigError (List FlatField)
  | 0, record, visiting => .error (.cyclicRecord record visiting)
  | fuel + 1, record, visiting =>
    if record ∈ visiting then .error (.cyclicRecord record visiting)
    else
      match records.get record with
      | none => .error (.recordNotDeclared record)
      | some fields =>
        (flattenFields (fun t => flattenRecord records fuel t (visiting ++ [record])) record
          fields).map numberFields

/-- `flatten_record` from outside. -/
def CartConfig.flatten (cfg : CartConfig) (record : List UInt8) :
    Except ConfigError (List FlatField) :=
  flattenRecord cfg.records (cfg.records.entries.length + 1) record []

/-! ## Checks -/

def isAlpha (c : UInt8) : Bool := (65 ≤ c && c ≤ 90) || (97 ≤ c && c ≤ 122)

def isDigit (c : UInt8) : Bool := 48 ≤ c && c ≤ 57

def isIdent : List UInt8 → Bool
  | [] => false
  | c :: cs => (isAlpha c || c == 95) && cs.all fun c => isAlpha c || isDigit c || c == 95

def firstError {α : Type} (check : α → Except ConfigError Unit) : List α → Except ConfigError Unit
  | [] => .ok ()
  | a :: as =>
    match check a with
    | .error e => .error e
    | .ok _ => firstError check as

/-- Every reference of a flattened record goes to a declared buffer. -/
def checkRefs (cfg : CartConfig) (record : List UInt8) (f : FlatField) : Except ConfigError Unit :=
  match f.refTarget with
  | none => .ok ()
  | some target =>
    if (cfg.stateBuffers.get target).isSome then .ok ()
    else .error (.refNotDeclared record f.flatName target)

def checkRecord (cfg : CartConfig) (record : List UInt8) : Except ConfigError Unit :=
  match cfg.flatten record with
  | .error e => .error e
  | .ok flat => firstError (checkRefs cfg record) flat

/-- The checks of `read_cart_config` on what was parsed. -/
def readCartConfig (cfg : CartConfig) : Except ConfigError Unit := do
  firstError (fun name => if isIdent name then .ok () else .error (.colorName name)) cfg.colors.keys
  firstError (fun b => if (cfg.records.get b.2.record).isSome then .ok ()
    else .error (.unknownRecord b.1 b.2.record)) cfg.stateBuffers.entries
  firstError (checkRecord cfg) cfg.records.keys

def CartConfig.Accepted (cfg : CartConfig) : Prop := readCartConfig cfg = .ok ()

instance (cfg : CartConfig) : Decidable cfg.Accepted :=
  inferInstanceAs (Decidable (readCartConfig cfg = .ok ()))

/-! ## The schema hash -/

def fnv64 (data : List UInt8) : UInt64 :=
  data.foldl (fun hash b => (hash ^^^ b.toUInt64) * 1099511628211) 14695981039346656037

def schemaField (f : ConfigField) : List UInt8 :=
  match f.typeName, f.refTarget with
  | some t, _ => bytesOf "," ++ f.name ++ bytesOf ":" ++ t
  | none, some target => bytesOf "," ++ f.name ++ bytesOf ":ref<" ++ target ++ bytesOf ">"
  | none, none => []

def computeSchemaHash (cfg : CartConfig) : UInt64 :=
  fnv64 ((cfg.records.entries.flatMap fun r =>
      bytesOf "record:" ++ r.1 ++ r.2.flatMap schemaField ++ bytesOf ";")
    ++ cfg.stateBuffers.entries.flatMap fun b =>
      bytesOf "buffer:" ++ b.1 ++ bytesOf ":" ++ b.2.record ++ bytesOf ":"
        ++ bytesOf (toString b.2.count.toNat) ++ bytesOf ";")

/-! ## What flattening computes -/

/-- A primitive field of a record, its own or one of a record it embeds, with the
name, the type and the target it gets. -/
inductive DeclaredField (records : KeyMap (List ConfigField)) :
    List UInt8 → List UInt8 → FieldType → Option (List UInt8) → Prop
  | prim {record fields f typeName t} (hrec : records.get record = some fields) (hf : f ∈ fields)
      (htype : f.typeName = some typeName) (href : f.refTarget = none)
      (hprim : parseTypeTag typeName = some t) : DeclaredField records record f.name t none
  | ref {record fields f target} (hrec : records.get record = some fields) (hf : f ∈ fields)
      (htype : f.typeName = none) (href : f.refTarget = some target) :
      DeclaredField records record f.name .u32 (some target)
  | inside {record fields f typeName name t target} (hrec : records.get record = some fields)
      (hf : f ∈ fields) (htype : f.typeName = some typeName) (href : f.refTarget = none)
      (hprim : parseTypeTag typeName = none)
      (hinner : DeclaredField records typeName name t target) :
      DeclaredField records record (f.name ++ bytesOf "_" ++ name) t target

section

variable {records : KeyMap (List ConfigField)} {record : List UInt8} {fields : List ConfigField}
  {sub : List UInt8 → Except ConfigError (List FlatField)} {flat : List FlatField}

/-- The loop over the fields ends well if each of them does. -/
theorem flattenFields_ok_iff :
    (∃ flat, flattenFields sub record fields = .ok flat)
      ↔ ∀ f ∈ fields, ∃ here, flattenField sub record f = .ok here := by
  induction fields with
  | nil => exact ⟨fun _ => nofun, fun _ => ⟨[], rfl⟩⟩
  | cons f fs ih =>
    rw [flattenFields, forall_mem_cons, ← ih]
    cases flattenField sub record f with
    | error => simp
    | ok => cases flattenFields sub record fs <;> simp

theorem numberFields_key {β : Type} (key : FlatField → β)
    (hkey : ∀ (f : FlatField) (i : Nat), key { f with index := i } = key f)
    (flat : List FlatField) : (numberFields flat).map key = flat.map key := by
  rw [numberFields, List.map_map, ← zipIdx_map_fst 0 flat, List.map_map, zipIdx_map_fst]
  exact map_congr_left fun p _ => hkey p.1 _

theorem numberFields_index {k : Nat} {f : FlatField} (h : (numberFields flat)[k]? = some f) :
    f.index = u32 (k + 1) := by
  rw [numberFields, getElem?_map, getElem?_zipIdx] at h
  obtain ⟨p, hp, rfl⟩ := map_eq_some_iff.mp h
  obtain ⟨x, -, rfl⟩ := map_eq_some_iff.mp hp
  simp

theorem flattenField_ok {f : ConfigField} {here : List FlatField}
    (h : flattenField sub record f = .ok here) :
    (∃ typeName t, f.typeName = some typeName ∧ f.refTarget = none
        ∧ parseTypeTag typeName = some t ∧ here = [⟨f.name, t, 0, none⟩])
      ∨ (∃ target, f.typeName = none ∧ f.refTarget = some target
        ∧ here = [⟨f.name, .u32, 0, some target⟩])
      ∨ ∃ typeName inner, f.typeName = some typeName ∧ f.refTarget = none
        ∧ parseTypeTag typeName = none ∧ sub typeName = .ok inner
        ∧ here = inner.map (FlatField.inside f.name) := by
  obtain ⟨name, typeName, refTarget⟩ := f
  cases typeName with
  | none =>
    cases refTarget with
    | none => cases h
    | some target =>
      cases h
      exact .inr (.inl ⟨target, rfl, rfl, rfl⟩)
  | some typeName =>
    cases refTarget with
    | some => cases h
    | none =>
      simp only [flattenField] at h
      cases ht : parseTypeTag typeName with
      | some t =>
        rw [ht] at h
        cases h
        exact .inl ⟨typeName, t, rfl, rfl, ht, rfl⟩
      | none =>
        rw [ht] at h
        cases hsub : sub typeName with
        | error =>
          rw [hsub] at h
          cases h
        | ok inner =>
          rw [hsub] at h
          cases h
          exact .inr (.inr ⟨typeName, inner, rfl, rfl, ht, hsub, rfl⟩)

/-- The field is of the record type `t`. -/
def ConfigField.Embeds (f : ConfigField) (t : List UInt8) : Prop :=
  f.typeName = some t ∧ f.refTarget = none ∧ parseTypeTag t = none

theorem flattenField_ok_iff {f : ConfigField} :
    (∃ here, flattenField sub record f = .ok here)
      ↔ f.typeName.isSome ≠ f.refTarget.isSome ∧ ∀ t, f.Embeds t → ∃ inner, sub t = .ok inner := by
  constructor
  · rintro ⟨here, h⟩
    rcases flattenField_ok h with ⟨typeName, t, htype, href, hprim, -⟩
      | ⟨target, htype, href, -⟩ | ⟨typeName, inner, htype, href, -, hsub, -⟩
    · refine ⟨by simp [htype, href], fun t' ht => ?_⟩
      obtain rfl : typeName = t' := some.inj (htype.symm.trans ht.1)
      cases hprim.symm.trans ht.2.2
    · exact ⟨by simp [htype, href], fun t' ht => by cases htype.symm.trans ht.1⟩
    · refine ⟨by simp [htype, href], fun t' ht => ?_⟩
      obtain rfl : typeName = t' := some.inj (htype.symm.trans ht.1)
      exact ⟨inner, hsub⟩
  · rintro ⟨hone, hinner⟩
    obtain ⟨name, _ | typeName, _ | target⟩ := f
    · exact absurd rfl hone
    · exact ⟨_, rfl⟩
    · cases hprim : parseTypeTag typeName with
      | some => exact ⟨_, by simp only [flattenField, hprim]; rfl⟩
      | none =>
        obtain ⟨inner, hsub⟩ := hinner typeName ⟨rfl, rfl, hprim⟩
        exact ⟨_, by simp only [flattenField, hprim, hsub]; rfl⟩
    · exact absurd rfl hone

def FlatField.decl (f : FlatField) : List UInt8 × FieldType × Option (List UInt8) :=
  (f.flatName, f.type, f.refTarget)

/-- The primitive fields of some fields in order: those of an embedded record stand
in the place of the field, under its name. -/
inductive Expansion (records : KeyMap (List ConfigField)) :
    List ConfigField → List (List UInt8 × FieldType × Option (List UInt8)) → Prop
  | nil : Expansion records [] []
  | prim {f fs typeName t rest} (htype : f.typeName = some typeName) (href : f.refTarget = none)
      (hprim : parseTypeTag typeName = some t) (hrest : Expansion records fs rest) :
      Expansion records (f :: fs) ((f.name, t, none) :: rest)
  | ref {f fs target rest} (htype : f.typeName = none) (href : f.refTarget = some target)
      (hrest : Expansion records fs rest) :
      Expansion records (f :: fs) ((f.name, .u32, some target) :: rest)
  | inside {f fs typeName fields inner rest} (hf : f.Embeds typeName)
      (hrec : records.get typeName = some fields) (hinner : Expansion records fields inner)
      (hrest : Expansion records fs rest) :
      Expansion records (f :: fs) (inner.map (fun d => (f.name ++ bytesOf "_" ++ d.1, d.2)) ++ rest)

theorem Expansion.declared {ds : List (List UInt8 × FieldType × Option (List UInt8))}
    (h : Expansion records fields ds) {all : List ConfigField}
    (hrec : records.get record = some all) (hall : ∀ f ∈ fields, f ∈ all) :
    ∀ d ∈ ds, DeclaredField records record d.1 d.2.1 d.2.2 := by
  induction h generalizing record all with
  | nil => exact nofun
  | prim htype href hprim _ ih =>
    obtain ⟨hf, hall⟩ := forall_mem_cons.mp hall
    exact forall_mem_cons.mpr ⟨.prim hrec hf htype href hprim, ih hrec hall⟩
  | ref htype href _ ih =>
    obtain ⟨hf, hall⟩ := forall_mem_cons.mp hall
    exact forall_mem_cons.mpr ⟨.ref hrec hf htype href, ih hrec hall⟩
  | inside hembeds hrec' _ _ ihinner ih =>
    obtain ⟨hf, hall⟩ := forall_mem_cons.mp hall
    refine forall_mem_append.mpr ⟨forall_mem_map.mpr fun d hd => ?_, ih hrec hall⟩
    obtain ⟨htype, href, hprim⟩ := hembeds
    exact .inside hrec hf htype href hprim (ihinner hrec' (fun _ hf => hf) d hd)

theorem flattenFields_expansion (h : flattenFields sub record fields = .ok flat)
    (hsub : ∀ t inner, sub t = .ok inner → ∃ fields, records.get t = some fields
      ∧ Expansion records fields (inner.map FlatField.decl)) :
    Expansion records fields (flat.map FlatField.decl) := by
  induction fields generalizing flat with
  | nil =>
    cases h
    exact .nil
  | cons f fs ih =>
    rw [flattenFields] at h
    split at h
    · cases h
    rename_i here hhere
    split at h
    · cases h
    rename_i rest hrest
    cases h
    rw [map_append]
    rcases flattenField_ok hhere with ⟨typeName, t, htype, href, hprim, rfl⟩
      | ⟨target, htype, href, rfl⟩ | ⟨typeName, inner, htype, href, hprim, hinner, rfl⟩
    · exact .prim htype href hprim (ih hrest)
    · exact .ref htype href (ih hrest)
    · obtain ⟨fields, hrec, hexp⟩ := hsub _ _ hinner
      have := Expansion.inside ⟨htype, href, hprim⟩ hrec hexp (ih hrest)
      rwa [List.map_map] at this ⊢

variable {fuel : Nat} {visiting : List (List UInt8)}

theorem flattenRecord_ok (h : flattenRecord records (fuel + 1) record visiting = .ok flat) :
    ∃ fields flat₀, records.get record = some fields
      ∧ flattenFields (fun t => flattenRecord records fuel t (visiting ++ [record])) record fields
        = .ok flat₀ ∧ flat = numberFields flat₀ := by
  rw [flattenRecord] at h
  split at h
  · cases h
  split at h
  · cases h
  rename_i fields hrec
  refine ⟨fields, ?_⟩
  cases hflat : flattenFields (fun t => flattenRecord records fuel t (visiting ++ [record])) record
      fields with
  | error =>
    rw [hflat] at h
    cases h
  | ok flat₀ =>
    rw [hflat] at h
    cases h
    exact ⟨flat₀, hrec, rfl, rfl⟩

theorem flattenRecord_expansion (h : flattenRecord records fuel record visiting = .ok flat) :
    ∃ fields, records.get record = some fields
      ∧ Expansion records fields (flat.map FlatField.decl) := by
  induction fuel generalizing record visiting flat with
  | zero => cases h
  | succ fuel ih =>
    obtain ⟨fields, flat0, hrec, hfields, rfl⟩ := flattenRecord_ok h
    refine ⟨fields, hrec, ?_⟩
    rw [numberFields_key FlatField.decl fun _ _ => rfl]
    exact flattenFields_expansion hfields fun t inner => ih

/-! ## When it fails -/

/-- The records a call is inside of: different ones, all declared. -/
structure Visits (records : KeyMap (List ConfigField)) (visiting : List (List UInt8)) : Prop where
  nodup : visiting.Nodup
  declared : ∀ r ∈ visiting, r ∈ records.keys

theorem Visits.length_le (h : Visits records visiting) :
    visiting.length ≤ records.entries.length := by
  have hle := (h.nodup.subperm h.declared).length_le
  rwa [KeyMap.keys, length_map] at hle

theorem Visits.push (h : Visits records visiting) (hmem : record ∉ visiting)
    (hrec : records.get record = some fields) : Visits records (visiting ++ [record]) := by
  refine ⟨nodup_append.mpr ⟨h.nodup, nodup_singleton _, ?_⟩, forall_mem_append.mpr ⟨h.declared, ?_⟩⟩
  · rintro a ha b hb rfl
    exact hmem (mem_singleton.mp hb ▸ ha)
  · rintro r hr
    rw [mem_singleton.mp hr, ← KeyMap.get_isSome_iff, hrec]
    rfl

/-- Inside as many records as there are there is no other one, so the bound on the
depth makes no difference. -/
theorem flattenRecord_fuel (hvisits : Visits records visiting)
    (hfuel : records.entries.length < fuel + visiting.length) :
    flattenRecord records (fuel + 1) record visiting
      = flattenRecord records fuel record visiting := by
  induction fuel generalizing record visiting with
  | zero =>
    have := hvisits.length_le
    omega
  | succ fuel ih =>
    rw [flattenRecord, flattenRecord]
    split <;> rename_i hmem
    · rfl
    cases hrec : records.get record with
    | none => rfl
    | some =>
      have hstep : ∀ t, flattenRecord records (fuel + 1) t (visiting ++ [record])
          = flattenRecord records fuel t (visiting ++ [record]) := fun t =>
        ih (hvisits.push hmem hrec) (by rw [length_append, length_singleton]; omega)
      simp only [hstep]

/-- Record `r` embeds record `t`. -/
def Embeds (records : KeyMap (List ConfigField)) (r t : List UInt8) : Prop :=
  ∃ fields, records.get r = some fields ∧ ∃ f ∈ fields, f.Embeds t

/-- What is wrong with a record itself: it is not declared, one of its fields declares
both a type and a target or neither, or it is inside itself. -/
def Broken (records : KeyMap (List ConfigField)) (r : List UInt8) : Prop :=
  records.get r = none
    ∨ (∃ fields, records.get r = some fields
      ∧ ∃ f ∈ fields, f.typeName.isSome = f.refTarget.isSome)
    ∨ TransGen (Embeds records) r r

theorem map_ok_iff {β : Type} {x : Except ConfigError (List FlatField)}
    {g : List FlatField → β} : (∃ b, x.map g = .ok b) ↔ ∃ a, x = .ok a := by
  cases x <;> simp [Except.map]

/-- The records visited lie on the way to this one, so meeting one of them again is
a cycle. -/
theorem flattenRecord_ok_iff (hvisits : Visits records visiting)
    (hway : ∀ r ∈ visiting, TransGen (Embeds records) r record)
    (hfuel : records.entries.length < fuel + visiting.length) :
    (∃ flat, flattenRecord records fuel record visiting = .ok flat)
      ↔ ∀ r, ReflTransGen (Embeds records) record r → ¬Broken records r := by
  induction fuel generalizing record visiting with
  | zero =>
    have := hvisits.length_le
    omega
  | succ fuel ih =>
    rw [flattenRecord]
    by_cases hmem : record ∈ visiting
    · have hbroken : Broken records record := .inr (.inr (hway _ hmem))
      rw [if_pos hmem]
      exact ⟨nofun, fun h => absurd hbroken (h record .refl)⟩
    rw [if_neg hmem]
    cases hrec : records.get record with
    | none => exact ⟨nofun, fun h => absurd (.inl hrec) (h record .refl)⟩
    | some fields =>
      have hstep : ∀ t, Embeds records record t →
          ((∃ flat, flattenRecord records fuel t (visiting ++ [record]) = .ok flat)
            ↔ ∀ r, ReflTransGen (Embeds records) t r → ¬Broken records r) := by
        intro t ht
        refine ih (hvisits.push hmem hrec) (forall_mem_append.mpr ⟨?_, ?_⟩)
          (by rw [length_append, length_singleton]; omega)
        · exact fun r hr => (hway r hr).tail ht
        · exact fun r hr => mem_singleton.mp hr ▸ .single ht
      simp only [map_ok_iff, flattenFields_ok_iff, flattenField_ok_iff]
      constructor
      · intro h r hr
        have hinner : ∀ t, Embeds records record t →
            ∀ r, ReflTransGen (Embeds records) t r → ¬Broken records r := by
          intro t ht
          obtain ⟨fields', hrec', f, hf, hembeds⟩ := id ht
          obtain rfl : fields = fields' := some.inj (hrec.symm.trans hrec')
          exact (hstep t ht).mp ((h f hf).2 t hembeds)
        rcases hr.cases_head with rfl | ⟨t, ht, hr⟩
        · rintro (hnone | ⟨fields', hrec', f, hf, hill⟩ | hcycle)
          · cases hrec.symm.trans hnone
          · obtain rfl : fields = fields' := some.inj (hrec.symm.trans hrec')
            exact (h f hf).1 hill
          · obtain ⟨t, ht, hback⟩ := TransGen.head'_iff.mp hcycle
            exact hinner t ht record hback (.inr (.inr hcycle))
        · exact hinner t ht r hr
      · intro h f hf
        refine ⟨fun hill => h record .refl (.inr (.inl ⟨fields, hrec, f, hf, hill⟩)),
          fun t hembeds => ?_⟩
        have ht : Embeds records record t := ⟨fields, hrec, f, hf, hembeds⟩
        exact (hstep t ht).mpr fun r hr => h r (.head ht hr)

end

/-- **Record flattening.** However deep it may go, `flatten_record` ends the same way:
with an error exactly if a broken record is reached from the given one, and otherwise
with the expansion of its fields, numbered from 1. -/
theorem flatten_record_spec (records : KeyMap (List ConfigField)) (record : List UInt8) :
    ∃ result : Except ConfigError (List FlatField),
      (∀ fuel, records.entries.length < fuel → flattenRecord records fuel record [] = result)
      ∧ ((∃ e, result = .error e)
        ↔ ∃ r, ReflTransGen (Embeds records) record r ∧ Broken records r)
      ∧ ∀ flat, result = .ok flat →
        (∃ fields, records.get record = some fields
          ∧ Expansion records fields (flat.map FlatField.decl))
        ∧ ∀ k f, flat[k]? = some f → f.index = u32 (k + 1) := by
  have hvisits : Visits records [] := ⟨nodup_nil, nofun⟩
  refine ⟨flattenRecord records (records.entries.length + 1) record [], fun fuel hfuel => ?_, ?_,
    fun flat hflat => ⟨flattenRecord_expansion hflat, fun k f hf => ?_⟩⟩
  · induction fuel, hfuel using Nat.le_induction with
    | base => rfl
    | succ fuel hle ih =>
      rw [← ih]
      exact flattenRecord_fuel hvisits (by simpa using hle)
  · have hok : _ ↔ ∀ r, ReflTransGen (Embeds records) record r → ¬Broken records r :=
      flattenRecord_ok_iff hvisits nofun (Nat.lt_succ_self _)
    constructor
    · rintro ⟨e, he⟩
      by_contra hnone
      obtain ⟨flat, hflat⟩ := hok.mpr fun r hr hbroken => hnone ⟨r, hr, hbroken⟩
      cases he.symm.trans hflat
    · rintro ⟨r, hr, hbroken⟩
      cases hres : flattenRecord records (records.entries.length + 1) record [] with
      | error e => exact ⟨e, rfl⟩
      | ok flat => exact absurd hbroken (hok.mp ⟨flat, hres⟩ r hr)
  · obtain ⟨-, flat0, -, -, rfl⟩ := flattenRecord_ok hflat
    exact numberFields_index hf

section

variable {cfg : CartConfig} {record : List UInt8} {flat : List FlatField} {f : FlatField}

theorem CartConfig.flatten_declared (h : cfg.flatten record = .ok flat) (hf : f ∈ flat) :
    DeclaredField cfg.records record f.flatName f.type f.refTarget := by
  obtain ⟨fields, hrec, hexp⟩ := flattenRecord_expansion h
  exact hexp.declared hrec (fun _ hf => hf) _ (List.mem_map_of_mem hf)

theorem CartConfig.flatten_index (h : cfg.flatten record = .ok flat) {k : Nat}
    (hf : flat[k]? = some f) : f.index = u32 (k + 1) := by
  obtain ⟨-, flat0, -, -, rfl⟩ := flattenRecord_ok h
  exact numberFields_index hf

/-! ## What is accepted -/

theorem firstError_ok_iff {α : Type} {check : α → Except ConfigError Unit} {as : List α} :
    firstError check as = .ok () ↔ ∀ a ∈ as, check a = .ok () := by
  induction as with
  | nil => exact ⟨fun _ => nofun, fun _ => rfl⟩
  | cons a as ih =>
    rw [firstError, forall_mem_cons, ← ih]
    cases hc : check a with
    | error => exact ⟨nofun, fun h => (nomatch h.1)⟩
    | ok => exact ⟨fun h => ⟨rfl, h⟩, fun h => h.2⟩

theorem bind_ok_iff {x y : Except ConfigError Unit} :
    (x >>= fun _ => y) = .ok () ↔ x = .ok () ∧ y = .ok () := by
  cases x with
  | error => exact ⟨nofun, fun h => (nomatch h.1)⟩
  | ok => exact ⟨fun h => ⟨rfl, h⟩, fun h => h.2⟩

theorem ite_ok_iff {p : Prop} [Decidable p] {e : ConfigError} :
    (if p then .ok () else .error e : Except ConfigError Unit) = .ok () ↔ p := by
  split <;> rename_i h
  · exact ⟨fun _ => h, fun _ => rfl⟩
  · exact ⟨nofun, fun hp => absurd hp h⟩

theorem CartConfig.accepted_iff :
    cfg.Accepted ↔ (∀ name ∈ cfg.colors.keys, isIdent name = true)
      ∧ (∀ b ∈ cfg.stateBuffers.entries, b.2.record ∈ cfg.records.keys)
      ∧ ∀ r ∈ cfg.records.keys, checkRecord cfg r = .ok () := by
  rw [CartConfig.Accepted, readCartConfig, bind_ok_iff, bind_ok_iff]
  simp only [firstError_ok_iff, ite_ok_iff, KeyMap.get_isSome_iff]

theorem CartConfig.Accepted.flatten (h : cfg.Accepted)
    (hr : record ∈ cfg.records.keys) : ∃ flat, cfg.flatten record = .ok flat := by
  have hcheck := (CartConfig.accepted_iff.mp h).2.2 record hr
  rw [checkRecord] at hcheck
  split at hcheck
  · cases hcheck
  · rename_i flat hflat
    exact ⟨flat, hflat⟩

end

end Blyt
