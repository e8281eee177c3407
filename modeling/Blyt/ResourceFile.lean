import Blyt.CartSection
import Blyt.Resource

/-!
# Resource entries from a cart file

How both runtimes build their tables from the `.cart.resource.<id>` sections of a cart:
the walk over the section names of `runtime/shared/blyt_elf_section.c`, the 8-byte header
of `blyt_resource_codec.c`, `load_resource_section` of the host and `res_fill_cb` of the
native runtime. An uncompressed resource is not copied: its entry points into the file.
The length it is served with is the one its header states, and nothing compares that with
the section.
-/

namespace Blyt

/-! ## The walk -/

/-- `RESOURCE_SECTION_PREFIX`, `NATIVE_RES_PREFIX`. -/
def resourcePrefix : List UInt8 := bytesOf ".cart.resource."

/-- Match `lit` against the name at `cand`, of which `avail` bytes are in the table: what is
left of the table behind it. -/
def matchPrefix (m : ByteMem) : Nat → Nat → List UInt8 → Option (Nat × Nat)
  | avail, cand, [] => some (avail, cand)
  | 0, _, _ :: _ => none
  | avail + 1, cand, c :: cs => if m cand = c then matchPrefix m avail (cand + 1) cs else none

/-- The rest of the name, if it ends within the table. -/
def restOfName (m : ByteMem) : Nat → Nat → Option (List UInt8)
  | 0, _ => none
  | avail + 1, cand =>
    if m cand = 0 then some []
    else (restOfName m avail (cand + 1)).map (m cand :: ·)

/-- `blyt_elf32_parse_u32`: decimal digits, no overflow, not 0. -/
def parseU32 (s : List UInt8) : Option Nat :=
  let digit (v : Option Nat) (c : UInt8) : Option Nat :=
    v.bind fun v =>
      if c < 48 ∨ 57 < c then none
      else
        let d := c.toNat - 48
        if (0xffffffff - d) / 10 < v then none else some (v * 10 + d)
  if s = [] then none
  else (s.foldl digit (some 0)).filter fun v => v != 0

/-- A section the walk reports under a numeric name. -/
structure ResSection where
  id : Nat
  off : Nat
  size : Nat
  deriving DecidableEq, Repr

def resourceSection (f : Image) (sh : Shdr) : Option ResSection :=
  if f.strtab.size ≤ sh.name then none
  else do
    let (avail, cand) ←
      matchPrefix f.byte (f.strtab.size - sh.name) (f.strtab.offset + sh.name) resourcePrefix
    let suffix ← restOfName f.byte avail cand
    -- a section that leaves the file is skipped
    if f.size < sh.offset + sh.size then none
    else (parseU32 suffix).map fun id => ⟨id, sh.offset, sh.size⟩

/-- The sections `blyt_elf32_for_each_section_prefix` hands to the loaders, those with
other than numeric names left out. -/
def resourceSections (f : Image) : List ResSection :=
  if resolveSht f then f.sects.filterMap (resourceSection f) else []

/-! ## Entries -/

/-- `BLYT_RES_HEADER_LEN`. -/
def resHeaderLen : Nat := 8

/-- `BLYT_RES_ALGO_NONE`. -/
def resAlgoNone : Nat := 0

/-- What `blyt_res_header_parse` writes. -/
structure ResHeader where
  algo : Nat
  dsize : Nat
  body : Nat
  bodyLen : Nat
  deriving DecidableEq, Repr

def resHeaderParse (f : Image) (s : ResSection) : Option ResHeader :=
  let algo := (f.byte s.off).toNat
  if s.size < resHeaderLen then none
  else if algo ≠ resAlgoNone ∧ algo ≠ resAlgoZstd then none
  else some ⟨algo, f.le32 (s.off + 4), s.off + resHeaderLen, s.size - resHeaderLen⟩

/-- An entry as it is loaded. `data` and `cdata` are pointers into the file, by offset. -/
structure FileEntry where
  id : Nat
  data : Option Nat
  len : Nat
  algo : Nat
  cdata : Option Nat
  clen : Nat
  deriving DecidableEq, Repr

/-- The loaders' common part; `narrow` is the conversion of `body_len` to the type of
`clen`. -/
def sectionEntry (narrow : Nat → Nat) (f : Image) (s : ResSection) : FileEntry :=
  match resHeaderParse f s with
  -- malformed: served verbatim
  | none => ⟨s.id, some s.off, s.size, resAlgoNone, none, 0⟩
  | some h =>
    if h.algo = resAlgoZstd then ⟨s.id, none, h.dsize, h.algo, some h.body, narrow h.bodyLen⟩
    else ⟨s.id, some h.body, h.dsize, h.algo, none, 0⟩

theorem sectionEntry_data_of_zstd (narrow : Nat → Nat) (f : Image) (s : ResSection)
    (h : (sectionEntry narrow f s).algo = resAlgoZstd) : (sectionEntry narrow f s).data = none := by
  unfold sectionEntry at h ⊢
  split at h
  · exact absurd h (show resAlgoNone ≠ resAlgoZstd by decide)
  · split at h
    · rename_i hz
      simp [hz]
    · rename_i hz
      exact absurd h hz

/-- `load_resource_section` of the host; `clen` is a `size_t`. -/
def loadResourceSection (f : Image) (s : ResSection) : FileEntry := sectionEntry id f s

/-- `res_fill_cb` of the native runtime; `clen` is a `uint32_t`. -/
def resFillCb (f : Image) (s : ResSection) : FileEntry := sectionEntry u32 f s

/-- The file as the native runtime maps it: of the size it takes the low 32 bits. -/
def nativeMap (f : Image) : Image := { f with size := u32 f.size }

/-- The sections `resources_init` fills its table from: the count and the fill pass see the
same ones. -/
def nativeSections (f : Image) : List ResSection :=
  if u32 f.size < ehdrSize then [] else resourceSections (nativeMap f)

/-- The entry in a runtime's table: nothing is resident yet but what the file serves. -/
def FileEntry.entry (f : Image) (e : FileEntry) : ResEntry where
  id := e.id
  data := e.data.map fun d => f.slice d e.len
  len := e.len
  owned := false
  algo := e.algo
  cdata := e.cdata.elim [] fun d => f.slice d e.clen
  srcPath := none
  pinCount := 0
  persistent := false
  lastAccess := 0

/-- `blyt_resource_table_load_from_cart`. -/
def resourceTableLoadFromCart (f : Image) : ResTable :=
  ⟨(resourceSections f).map fun s => (loadResourceSection f s).entry f, 0⟩

/-- The table `resources_init` fills. -/
def resourcesInit (f : Image) : ResTable :=
  ⟨(nativeSections f).map fun s => (resFillCb (nativeMap f) s).entry f, 0⟩

/-! ## Aliases -/

/-- The bytes that `e` serves from the file lie in the section it was built from. -/
def FileEntry.Inside (s : ResSection) (e : FileEntry) : Prop :=
  ∀ d, e.data = some d → s.off ≤ d ∧ d + e.len ≤ s.off + s.size

instance (s : ResSection) (e : FileEntry) : Decidable (e.Inside s) :=
  match h : e.data with
  | none => .isTrue fun d hd => by rw [h] at hd; cases hd
  | some d => decidable_of_iff (s.off ≤ d ∧ d + e.len ≤ s.off + s.size)
      ⟨fun hin d' hd => by rw [h] at hd; cases hd; exact hin, fun hin => hin d h⟩

/-- Every alias of either runtime's table stays inside its section. -/
def AliasesInside (f : Image) : Prop :=
  (∀ s ∈ resourceSections f, (loadResourceSection f s).Inside s)
    ∧ ∀ s ∈ nativeSections f, (resFillCb (nativeMap f) s).Inside s

/-- An uncompressed body is as long as its header states, or longer. -/
def HonestHeader (f : Image) (s : ResSection) : Prop :=
  resHeaderLen ≤ s.size → f.byte s.off = 0 → f.le32 (s.off + 4) ≤ s.size - resHeaderLen

theorem sectionEntry_inside_iff (narrow : Nat → Nat) (f : Image) (s : ResSection) :
    (sectionEntry narrow f s).Inside s ↔ HonestHeader f s := by
  unfold sectionEntry resHeaderParse HonestHeader
  have hzero : f.byte s.off = 0 ↔ (f.byte s.off).toNat = resAlgoNone := by
    rw [← UInt8.toNat_inj]
    rfl
  rw [hzero]
  by_cases hlen : s.size < resHeaderLen
  · simp only [hlen, if_true, FileEntry.Inside]
    exact ⟨fun _ h => by omega, fun _ d hd => by cases hd; omega⟩
  rw [if_neg hlen]
  split_ifs with hbad
  · exact ⟨fun _ _ h => absurd h hbad.1, fun _ d hd => by cases hd; exact ⟨le_rfl, le_rfl⟩⟩
  by_cases hz : (f.byte s.off).toNat = resAlgoZstd
  · -- a compressed body is decoded into a buffer, nothing points at it
    simp only [hz, if_true]
    exact ⟨fun _ _ h => absurd h (by decide), fun _ d hd => by cases hd⟩
  · have hn : (f.byte s.off).toNat = resAlgoNone := by tauto
    simp only [hn, show ¬ resAlgoNone = resAlgoZstd by decide, if_false, FileEntry.Inside]
    constructor
    · intro h _ _
      have := (h _ rfl).2
      omega
    · intro h d hd
      cases hd
      have := h (by omega) trivial
      omega

theorem resourceSection_native {f : Image} {sh : Shdr} {s : ResSection}
    (h : resourceSection (nativeMap f) sh = some s) : resourceSection f sh = some s := by
  have hle : u32 f.size ≤ f.size := u32_le _
  unfold resourceSection at h ⊢
  split at h
  · cases h
  rename_i hname
  have hname' : ¬ f.strtab.size ≤ sh.name := hname
  rw [if_neg hname']
  obtain ⟨⟨avail, cand⟩, hmatch, h⟩ := Option.bind_eq_some_iff.mp h
  obtain ⟨suffix, hrest, h⟩ := Option.bind_eq_some_iff.mp h
  split at h
  · cases h
  rename_i hin
  have hin' : ¬ u32 f.size < sh.offset + sh.size := hin
  refine Option.bind_eq_some_iff.mpr ⟨(avail, cand), hmatch,
    Option.bind_eq_some_iff.mpr ⟨suffix, hrest, ?_⟩⟩
  rw [if_neg (by omega)]
  exact h

/-- What the native runtime takes for a resource section, the host does too. -/
theorem nativeSections_subset {f : Image} {s : ResSection} (h : s ∈ nativeSections f) :
    s ∈ resourceSections f := by
  have hle : u32 f.size ≤ f.size := u32_le _
  unfold nativeSections resourceSections at h
  split at h
  · cases h
  split at h
  · rename_i hsht
    obtain ⟨h1, h2, h3, h4, h5, h6, h7, h8⟩ := hsht
    have hsht' : resolveSht f := ⟨h1.trans hle, h2, h3, h4, h5.trans hle, h6, h7, h8.trans hle⟩
    rw [resourceSections, if_pos hsht']
    obtain ⟨sh, hsh, hs⟩ := List.mem_filterMap.mp h
    exact List.mem_filterMap.mpr ⟨sh, hsh, resourceSection_native hs⟩
  · cases h

/-- **When resource bytes stay inside their section**: in every file, exactly if no
uncompressed resource states a length above that of its body. -/
theorem aliases_inside_iff (f : Image) :
    AliasesInside f ↔ ∀ s ∈ resourceSections f, HonestHeader f s := by
  constructor
  · intro h s hs
    exact (sectionEntry_inside_iff id f s).mp (h.1 s hs)
  · intro h
    refine ⟨fun s hs => (sectionEntry_inside_iff id f s).mpr (h s hs), fun s hs => ?_⟩
    exact (sectionEntry_inside_iff u32 (nativeMap f) s).mpr (h s (nativeSections_subset hs))

/-- A cart with one resource, whose header states `dsize`. -/
def resourceCart (name : String) (algo dsize : Nat) (body : List UInt8) : Image :=
  demoCart [⟨ptLoad, 0x7000, 0x1000, 8, 8, 4⟩] name [⟨22, 1, 0, 0x4000, 8 + body.length, 0, 0⟩]
    [.table 0x4000 2 [[algo, dsize]], .bytes 0x4008 body]

/-- Its resource is of two bytes, uncompressed. -/
def shortCart : Image := resourceCart ".cart.resource.7\x00" resAlgoNone 4096 [97, 98]

/-- An accepted cart whose resource of two bytes is served with 4096. -/
theorem alias_leaves_section :
    Accepts demoFlat shortCart
      ∧ resourceSections shortCart = [⟨7, 0x4000, 10⟩]
      ∧ loadResourceSection shortCart ⟨7, 0x4000, 10⟩
        = ⟨7, some 0x4008, 4096, resAlgoNone, none, 0⟩
      ∧ ¬ AliasesInside shortCart := by
  have hacc : Accepts demoFlat shortCart := by decide +kernel
  have hsect : resourceSections shortCart = [⟨7, 0x4000, 10⟩] := by decide +kernel
  refine ⟨hacc, hsect, by decide +kernel, fun h => ?_⟩
  have hin := h.1 ⟨7, 0x4000, 10⟩ (by rw [hsect]; exact List.mem_singleton_self _)
  exact absurd hin (by decide +kernel)

/-- A cart with one compressed resource, of five bytes once it is decompressed. -/
def squeezedCart : Image := resourceCart ".cart.resource.7\x00" resAlgoZstd 5 (runFrame 5 97)

end Blyt
