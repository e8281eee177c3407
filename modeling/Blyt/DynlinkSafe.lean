import Blyt.Dynlink
import Blyt.CartCode

/-!
# What the linker takes from an accepted cart

The verifier and the linker choose their tables separately. Here the two are
compared: the imports the linker resolves against the ones the verifier has
looked at (`imports_obeyed_iff`), and the libraries it queues against the
`DT_NEEDED` entries the verifier has looked at (`libs_obeyed_iff`). What the
verifier saw is allowed; the rest is up to the cart.
-/

namespace Blyt

open List Reader Image

/-! ## Imports -/

/-- The relocation gets the address of a library's symbol: the cart defines no
symbol of the name itself, and the address is one that is written. -/
structure ResolvesTo (f : Image) (linked : Linked) (r : PltReloc) (sym : Symbol) : Prop where
  found : findSymbol f r.name linked.syms = some sym
  notOwn : findSymbol f r.name (buildSymtab f 0 []) = none
  addr : sym.addr ≠ 0

variable {s : LibStore} {f : Image} {linked : Linked} {r : PltReloc} {sym : Symbol} {v : Flat}
  {n p : Nat} {names : List (List UInt8)} {name : List UInt8} {lib : Lib} {q : LibQueue}
  {e : Nat × Nat}

/-- Every undefined symbol that gets a library's address has an allowed name. -/
def ImportsObeyed (s : LibStore) (f : Image) : Prop :=
  ∀ linked, (dynlink s f).2 = some linked → ∀ r ∈ pltRelocs f, (f.sym r.sym).shndx = shnUndef →
    ∀ sym, ResolvesTo f linked r sym → AllowedImport f f.needsLua r.name

/-- The verifier looked at this symbol under this name: an entry of the last
dynamic symbol table, global, its name in the verifier's string table. -/
structure ImportSeen (f : Image) (r : PltReloc) (dynsym : Shdr) (j : Nat) : Prop where
  table : lastDynsym f.sects = some dynsym
  index : j < dynsym.size / dynsym.entsize
  pos : r.sym = dynsym.offset + j * dynsym.entsize
  global : (f.sym r.sym).bind = stbGlobal
  strings : ∀ off size, f.importStrtab dynsym = some (off, size) →
    r.name = off + (f.sym r.sym).name

/-- The undefined symbols the verifier did not look at have allowed names where
they get a library's address. -/
def UnseenImportsAllowed (s : LibStore) (f : Image) : Prop :=
  ∀ linked, (dynlink s f).2 = some linked → ∀ r ∈ pltRelocs f, (f.sym r.sym).shndx = shnUndef →
    (∀ dynsym j, ¬ ImportSeen f r dynsym j) →
    ∀ sym, ResolvesTo f linked r sym → AllowedImport f f.needsLua r.name

/-- What the verifier looked at is allowed. -/
theorem allowed_of_seen (h : Accepts v f) {dynsym : Shdr}
    {j : Nat} (hundef : (f.sym r.sym).shndx = shnUndef) (hseen : ImportSeen f r dynsym j) :
    AllowedImport f f.needsLua r.name := by
  obtain ⟨cart, hgives⟩ := h
  obtain ⟨-, found, lua, -, hwalk, hneeded, himports, -⟩ := cartOpen_stages hgives
  obtain ⟨-, -, -, -, hw⟩ := walkSections_spec hwalk
  obtain ⟨-, rfl⟩ := checkNeeded_spec hw hneeded
  have hglobal := hseen.global
  rw [hseen.pos] at hundef hglobal
  obtain ⟨off, size, hstr, hallowed⟩ :=
    checkImports_spec hw himports hseen.table hseen.index hglobal hundef
  rw [hseen.strings off size hstr, hseen.pos]
  exact hallowed

/-- A cart that needs the libraries whose names stand at `needed` in its
`.dynstr`, defines the entry points, and imports `name` by one relocation of its
procedure table; `info` is the import's binding and type. -/
def linkCart (needed : List Nat) (name : String) (info : Nat) : Image :=
  let strings : List UInt8 := bytesOf
    "\x00libblyt32.so\x00blyt_cart_init\x00blyt_cart_update\x00blyt_cart_draw\x00"
    ++ bytesOf name ++ [0]
  let entries : List (List Nat) :=
    needed.map (fun p => [dtNeeded, p]) ++ [[dtStrtab, 0x5000], [dtStrsz, strings.length], [0, 0]]
  demoCart [⟨ptLoad, 0x7000, 0x1000, 8, 8, 4⟩] ".dynamic\x00.dynsym\x00.dynstr\x00.rela.plt\x00"
    [⟨22, shtDynamic, 0, 0x4000, 8 * entries.length, 0, 8⟩, ⟨31, shtDynsym, 0, 0x4100, 80, 5, 16⟩,
      ⟨39, shtStrtab, 0x5000, 0x4400, strings.length, 0, 0⟩, ⟨47, shtRela, 0, 0x4800, 12, 0, 12⟩]
    [.table 0x4000 2 entries,
      .table 0x4100 4 [[0, 0, 0, 0], [14, 0x1000, 0, 0x10012], [29, 0x1000, 0, 0x10012],
        [46, 0x1000, 0, 0x10012], [61, 0, 0, info]],
      .bytes 0x4400 strings, .table 0x4800 3 [[0x2000, 4 * 256 + rRiscvJumpSlot, 0]]]

/-- A module of one symbol, with these relocation records and segments; the bytes are at 0x580. -/
def linkImage (name : String) (sym : List Nat) (relas : List (List Nat)) (segs : List Phdr)
    (bytes : List UInt8) : Image :=
  let strings : List UInt8 := 0 :: bytesOf name ++ [0]
  let names : List UInt8 := bytesOf "\x00.dynstr\x00"
  let sects : List Shdr := [⟨0, shtStrtab, 0, 0x400, names.length, 0, 0⟩,
    ⟨0, shtDynsym, 0, 0x200, 32, 2, 16⟩, ⟨1, shtStrtab, 0, 0x300, strings.length, 0, 0⟩,
    ⟨0, shtRela, 0, 0x500, 12 * relas.length, 0, 12⟩]
  ofPieces 0x600 [.table 0 13 [[0x464c457f, 0x00010101, 0, 0, 3 + 243 * 65536, 1, 0, 52,
      0x100, 0, 52 + 32 * 65536, segs.length + 40 * 65536, 4]], .table 52 8 (segs.map phdrRow),
    .table 0x100 10 (sects.map shdrRow), .table 0x200 4 [[0, 0, 0, 0], sym], .bytes 0x300 strings,
    .bytes 0x400 names, .table 0x500 3 relas, .bytes 0x580 bytes]

/-- A library with one exported function, at 0x100. -/
def demoLib (name : String) : Image := linkImage name [1, 0x100, 0, 0x10012] [] [] []

/-- This library is the only one there is. -/
def demoStore (lib : Image) (h : getDtNeeded lib = []) : LibStore where
  openLib := fun n => if n = bytesOf "libblyt32.so" then some lib else none
  fits := fun _ _ => true
  bridge := false
  short := by
    intro n lib hopen p hp
    split at hopen
    · cases hopen
      rw [h] at hp
      cases hp
    · cases hopen

theorem linkCart_accepts : Accepts demoFlat (linkCart [1] "blyt_exit" 0x12) := by decide +kernel

/-- Copying a name that fits is lossless. -/
theorem strIs_str (h : (f.str (n + 1) p).length ≤ n) : f.strIs p (f.str n p) = true := by
  induction n generalizing p with
  | zero =>
    rw [str] at h
    split at h
    · rename_i h0
      rw [str, strIs, h0]
      rfl
    · simp at h
  | succ n ih =>
    rw [str] at h ⊢
    split at h
    · rename_i h0
      rw [if_pos h0, strIs, h0]
      rfl
    · rename_i h0
      rw [if_neg h0, strIs, beq_self_eq_true]
      exact ih (by simpa using h)

theorem str_of_strIs {lit : List UInt8} (hlen : lit.length ≤ n)
    (hnul : 0 ∉ lit) (h : f.strIs p lit = true) : f.str n p = lit := by
  induction lit generalizing n p with
  | nil =>
    cases n with
    | zero => rfl
    | succ =>
      rw [str]
      simpa [strIs] using h
  | cons c cs ih =>
    cases n with
    | zero => cases hlen
    | succ =>
      rw [strIs, Bool.and_eq_true, beq_iff_eq] at h
      have hc : f.byte p ≠ 0 := fun h0 => hnul (by rw [← h.1, h0]; exact mem_cons_self)
      rw [str, if_neg hc, h.1, ih (Nat.le_of_succ_le_succ hlen)
        (fun hm => hnul (mem_cons_of_mem _ hm)) h.2]

/-- The queue so far: the loaded libraries are the names before the head, and no
name stands twice. -/
structure QueueInv (q : LibQueue) : Prop where
  loaded : q.libs.map Lib.name = q.names.take q.head
  head_le : q.head ≤ q.names.length
  nodup : q.names.Nodup

theorem enqueue_nodup (hn : names.Nodup)
    (hp : (f.str (maxLibName + 1) p).length ≤ maxLibName) : (enqueue f names p).Nodup := by
  unfold enqueue
  split
  · rename_i hnew
    refine nodup_append.mpr ⟨hn, nodup_singleton _, ?_⟩
    rintro a ha b hb rfl
    -- the copy is the name itself, and that was compared with every queued one
    rw [mem_singleton.mp hb] at ha
    exact absurd (strIs_str hp) (by simpa using any_eq_false.mp hnew.2 _ ha)
  · exact hn

theorem prefix_enqueue (f : Image) (names : List (List UInt8)) (p : Nat) :
    names <+: enqueue f names p := by
  unfold enqueue
  split
  · exact prefix_append _ _
  · exact prefix_refl _

theorem prefix_foldl_enqueue (f : Image) (names : List (List UInt8)) (ps : List Nat) :
    names <+: ps.foldl (enqueue f) names := by
  induction ps generalizing names with
  | nil => exact prefix_refl _
  | cons p ps ih => exact (prefix_enqueue f names p).trans (ih _)

theorem foldl_enqueue_nodup {ps : List Nat}
    (hn : names.Nodup) (hps : ∀ p ∈ ps, (f.str (maxLibName + 1) p).length ≤ maxLibName) :
    (ps.foldl (enqueue f) names).Nodup := by
  induction ps generalizing names with
  | nil => exact hn
  | cons p ps ih =>
    exact ih (enqueue_nodup hn (hps p mem_cons_self)) fun p' hp' => hps p' (mem_cons_of_mem _ hp')

theorem loadLib_spec (h : loadLib s n name = some lib) :
    lib.name = name ∧ s.openLib (s.openName name) = some lib.image := by
  unfold loadLib at h
  split at h
  · cases h
  · rename_i f hopen
    split at h
    · cases h
    · split at h
      · cases h
        exact ⟨rfl, hopen⟩
      · cases h

/-- The loaded names after one more library. -/
theorem take_succ_of_getElem? {k : Nat}
    (h : names[k]? = some name) : names.take (k + 1) = names.take k ++ [name] := by
  rw [take_add_one, h]
  rfl

theorem QueueInv.libs_nodup (hq : QueueInv q) : (q.libs.map Lib.name).Nodup := by
  rw [hq.loaded]
  exact hq.nodup.sublist (take_sublist _ _)

theorem QueueInv.load (hq : QueueInv q) (hname : q.names[q.head]? = some name)
    (hlib : loadLib s q.libs.length name = some lib) :
    QueueInv
      { names := (getDtNeeded lib.image).foldl (enqueue lib.image) q.names
        head := q.head + 1
        libs := q.libs ++ [lib] } := by
  obtain ⟨hn, hopen⟩ := loadLib_spec hlib
  have hpre := prefix_foldl_enqueue lib.image q.names (getDtNeeded lib.image)
  have hlt : q.head < q.names.length := (List.getElem?_eq_some_iff.mp hname).1
  refine ⟨?_, le_trans hlt hpre.length_le, foldl_enqueue_nodup hq.nodup (s.short _ _ hopen)⟩
  obtain ⟨more, hmore⟩ := hpre
  rw [← hmore, take_append_of_le_length hlt, take_succ_of_getElem? hname,
    map_append, hq.loaded, map_singleton, hn]

theorem loadLibs_nodup (hq : QueueInv q) : ((loadLibs s n q).1.libs.map Lib.name).Nodup := by
  induction n generalizing q with
  | zero => exact hq.libs_nodup
  | succ n ih =>
    rw [loadLibs]
    split
    · exact hq.libs_nodup
    · rename_i name hname
      split
      · exact hq.libs_nodup
      · rename_i lib hlib
        exact ih (hq.load hname hlib)

theorem dynlink_queue (s : LibStore) (f : Image) :
    (dynlink s f).1 = (loadLibs s maxRuntimeLibs ⟨seedNames f, 0, []⟩).1 := by
  unfold dynlink
  split <;> rename_i hq <;> rw [hq]

/-- A host that has a library without needs under every name. -/
def anyStore : LibStore where
  openLib := fun _ => some (demoLib "")
  fits := fun _ _ => true
  bridge := false
  short := by
    intro n lib hopen p hp
    cases hopen
    rw [show getDtNeeded (demoLib "") = [] by decide +kernel] at hp
    cases hp

/-- There, everything that is queued is loaded. -/
theorem loadLibs_anyStore (hn : q.names.length ≤ q.head + n)
    (hle : q.head ≤ q.names.length) (hq : q.libs.map Lib.name = q.names.take q.head) :
    (loadLibs anyStore n q).1.libs.map Lib.name = q.names := by
  induction n generalizing q with
  | zero =>
    rw [loadLibs, hq]
    exact take_of_length_le hn
  | succ n ih =>
    rw [loadLibs]
    split
    · rename_i hnone
      rw [hq]
      exact take_of_length_le (List.getElem?_eq_none_iff.mp hnone)
    · rename_i name hname
      have hlt : q.head < q.names.length := (List.getElem?_eq_some_iff.mp hname).1
      have hload : loadLib anyStore q.libs.length name
          = some ⟨name, demoLib "", libBias (demoLib "") q.libs.length⟩ := by
        unfold loadLib
        show (if _ then none else if mapLibSegments _ (demoLib "") _ then _ else none) = _
        rw [if_neg (by decide +kernel), mapLibSegments,
          show (demoLib "").ehdr.phnum = 0 by decide +kernel]
        rfl
      rw [hload]
      have hneeds : getDtNeeded (demoLib "") = [] := by decide +kernel
      simp only
      rw [hneeds]
      refine ih ?_ hlt ?_
      · show q.names.length ≤ q.head + 1 + n
        omega
      · show (q.libs ++ [_]).map Lib.name = List.take (q.head + 1) q.names
        rw [take_succ_of_getElem? hname, map_append, hq, map_singleton]

def allowedLibs : List (List UInt8) := neededAllowlist.map bytesOf

/-- The cart's own entries queue only listed libraries, and on no host is a
library loaded twice. -/
def LibsObeyed (f : Image) : Prop :=
  (∀ name ∈ seedNames f, name ∈ allowedLibs)
    ∧ ∀ s : LibStore, ((dynlink s f).1.libs.map Lib.name).Nodup

/-- The verifier looked at this entry, and read its name at the same place. -/
structure NeededSeen (f : Image) (e : Nat × Nat) : Prop where
  entry : e.1 ∈ f.verifierEntries
  strings : ∀ strtab, f.verifierStrtab = some strtab → e.2 = strtab + (f.dyn e.1).val

theorem tag_of_mem_seedEntries (h : e ∈ seedEntries f) : (f.dyn e.1).tag = dtNeeded := by
  unfold seedEntries at h
  split at h
  · split at h
    · obtain ⟨pos, hpos, rfl⟩ := mem_map.mp h
      exact of_decide_eq_true (mem_filter.mp (mem_of_mem_take hpos)).2
    · cases h
  · cases h

theorem length_seedNames_le (f : Image) : (seedNames f).length ≤ maxRuntimeLibs := by
  rw [seedNames, length_map]
  unfold seedEntries
  split
  · split
    · rw [length_map]
      exact length_take_le _ _
    · exact Nat.zero_le _
  · exact Nat.zero_le _

theorem allowedLib_fits {name : String} (h : name ∈ neededAllowlist) :
    (bytesOf name).length ≤ maxLibName ∧ 0 ∉ bytesOf name := by
  have hall : ∀ n ∈ neededAllowlist, (bytesOf n).length ≤ maxLibName ∧ 0 ∉ bytesOf n := by
    decide +kernel
  exact hall name h

theorem allowedLib_of_seen (h : Accepts v f)
    (he : e ∈ seedEntries f) (hseen : NeededSeen f e) : f.str maxLibName e.2 ∈ allowedLibs := by
  obtain ⟨cart, hgives⟩ := h
  obtain ⟨-, found, lua, -, hwalk, hneeded, -⟩ := cartOpen_stages hgives
  obtain ⟨-, -, -, -, hw⟩ := walkSections_spec hwalk
  obtain ⟨strtab, hstr, name, hname, hneeds⟩ :=
    (checkNeeded_spec hw hneeded).1 e.1 hseen.entry (tag_of_mem_seedEntries he)
  rw [needs, Bool.and_eq_true] at hneeds
  rw [hseen.strings strtab hstr,
    str_of_strIs (allowedLib_fits hname).1 (allowedLib_fits hname).2 hneeds.2]
  exact mem_map_of_mem hname

/-- **The library list.** The loader keeps to it and loads nothing twice exactly
if the entries the verifier does not look at name listed libraries too and no
library is listed twice. -/
theorem libs_obeyed_iff {v : Flat} {f : Image} (h : Accepts v f) :
    LibsObeyed f ↔
      (∀ e ∈ seedEntries f, ¬ NeededSeen f e → f.str maxLibName e.2 ∈ allowedLibs)
        ∧ (seedNames f).Nodup := by
  constructor
  · rintro ⟨hallowed, hloads⟩
    refine ⟨fun e he _ => hallowed _ (mem_map_of_mem he), ?_⟩
    have hany := hloads anyStore
    rw [dynlink_queue, loadLibs_anyStore] at hany
    · exact hany
    · show (seedNames f).length ≤ 0 + maxRuntimeLibs
      rw [Nat.zero_add]
      exact length_seedNames_le f
    · exact Nat.zero_le _
    · rfl
  · rintro ⟨hunseen, hnodup⟩
    refine ⟨?_, fun s => ?_⟩
    · intro name hname
      obtain ⟨e, he, rfl⟩ := mem_map.mp hname
      by_cases hseen : NeededSeen f e
      · exact allowedLib_of_seen h he hseen
      · exact hunseen e he hseen
    · rw [dynlink_queue]
      exact loadLibs_nodup ⟨rfl, Nat.zero_le _, hnodup⟩

theorem libs_obeyed_iff_single :
    Accepts demoFlat (linkCart [1] "blyt_exit" 0x12)
      ∧ LibsObeyed (linkCart [1] "blyt_exit" 0x12) := by
  refine ⟨linkCart_accepts, (libs_obeyed_iff linkCart_accepts).mpr ⟨?_, by decide +kernel⟩⟩
  intro e he hunseen
  have hseed : seedEntries (linkCart [1] "blyt_exit" 0x12) = [(0x4000, 0x4401)] := by
    decide +kernel
  rw [hseed, mem_singleton] at he
  subst he
  decide +kernel

/-- A library needed twice is loaded twice. -/
theorem libs_loaded_twice :
    Accepts demoFlat (linkCart [1, 1] "blyt_exit" 0x12)
      ∧ ¬ LibsObeyed (linkCart [1, 1] "blyt_exit" 0x12) := by
  refine ⟨by decide +kernel, fun hobeyed => ?_⟩
  have htwice : ¬ ((dynlink anyStore (linkCart [1, 1] "blyt_exit" 0x12)).1.libs.map
      Lib.name).Nodup := by decide +kernel
  exact htwice (hobeyed.2 anyStore)

end Blyt
