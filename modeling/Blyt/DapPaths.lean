import Blyt.DapBodies

/-!
# Paths of the debugger

`map_path_inward` and `rewrite_paths_outward`, which `runtime/host/src/dap/dap_server.c` and
`dap_lua_inspect.c` both have. Each direction takes the first entry of the source map that fits,
the one by its canonical root and the other by its local root, and nothing makes the two choices
meet: an earlier local root may lie above the one that was written. The rewriting also goes on
behind the root it has replaced, which the other direction does not undo. And every path goes
through buffers of `MAX_SOURCE_PATH` bytes.
-/

namespace Blyt

open List Option

/-- `MAX_SOURCE_PATH`. -/
def maxSourcePath : Nat := 1024

/-- `dap_srcmap_t`. -/
structure SrcRoot where
  canon : List UInt8
  localRoot : List UInt8
  canon_lt : canon.length < maxSourcePath := by decide
  local_lt : localRoot.length < maxSourcePath := by decide
  deriving DecidableEq, Repr

/-- `root` is in front of `text`, and behind it comes a `/`, a quote or the end. -/
def atBoundary (root text : List UInt8) : Bool :=
  root.isPrefixOf text
    && ((text.drop root.length).head? = none || (text.drop root.length).head? = some 47
      || (text.drop root.length).head? = some 34)

/-- The entry the outward loop takes at a place in the text. -/
def canonAt (m : List SrcRoot) (text : List UInt8) : Option SrcRoot :=
  m.find? fun e => e.canon ≠ [] && atBoundary e.canon text

/-- `rewrite_paths_outward` with room for `room` bytes and the terminator, and with `skip` bytes
of a root that has been replaced still to pass. -/
def rewritePathsOutward (m : List SrcRoot) (room : Nat) : Nat → List UInt8 → List UInt8
  | _, [] => []
  | skip + 1, _ :: text => rewritePathsOutward m room skip text
  | 0, c :: text =>
    if room = 0 then []
    else
      match canonAt m (c :: text) with
      | some e =>
        e.localRoot.take room
          ++ rewritePathsOutward m (room - e.localRoot.length) (e.canon.length - 1) text
      | none => c :: rewritePathsOutward m (room - 1) 0 text

/-- `map_path_inward` into a buffer of `n` bytes. -/
def mapPathInward (n : Nat) : List SrcRoot → List UInt8 → List UInt8
  | [], path => (snprintf n path).1
  | e :: m, path =>
    if e.localRoot = [] then mapPathInward n m path
    else if path = e.localRoot then (snprintf n e.canon).1
    else if e.localRoot.isPrefixOf path && (path.drop e.localRoot.length).head? = some 47 then
      (snprintf n (e.canon ++ path.drop e.localRoot.length)).1
    else mapPathInward n m path

/-- The path as it is shown, and as it is read back from the client into `source_in`. -/
def clientPath (m : List SrcRoot) (path : List UInt8) : List UInt8 :=
  (rewritePathsOutward m (dapMaxMsg - 1) 0 path).take (maxSourcePath - 1)

/-- The path is a root or lies under it. -/
def Under (root path : List UInt8) : Prop :=
  root ≠ [] ∧ root <+: path
    ∧ (path.drop root.length = [] ∨ (path.drop root.length).head? = some 47)

instance Under.decidable (root path : List UInt8) : Decidable (Under root path) :=
  inferInstanceAs (Decidable (_ ∧ _ ∧ _))

/-- The entry `map_path_inward` takes; without one, nothing is replaced. -/
def localAt (m : List SrcRoot) (path : List UInt8) : SrcRoot :=
  (m.find? fun e => Under e.localRoot path).getD { canon := [], localRoot := [] }

/-- What the client has of the path behind the root that `e` replaces. -/
def shownRest (m : List SrcRoot) (path : List UInt8) (e : SrcRoot) : List UInt8 :=
  (rewritePathsOutward m (dapMaxMsg - 1 - e.localRoot.length) 0
    (path.drop e.canon.length)).take (maxSourcePath - 1 - e.localRoot.length)

/-- One root goes on behind the other with just what the one rest has in front of the other. -/
def Shifted (root root' rest rest' : List UInt8) : Prop :=
  (∃ u, root' = root ++ u ∧ rest = u ++ rest') ∨ ∃ u, root = root' ++ u ∧ rest' = u ++ rest

/-- Entry `e` outward and entry `e'` inward undo each other, with `rest` shown as `rest'`. One
of the two local roots lies above the other. -/
def Undoes (e e' : SrcRoot) (rest rest' : List UInt8) : Prop :=
  (∃ t, e.localRoot = e'.localRoot ++ t ∧ Shifted (e'.canon ++ t) e.canon rest' rest)
    ∨ ∃ t r, e'.localRoot = e.localRoot ++ t ∧ rest' = t ++ r ∧ Shifted e'.canon e.canon r rest

/-- The roots of both entries lie above each other in one and the same way. -/
def OneTree (e e' : SrcRoot) : Prop :=
  (∃ t, e.localRoot = e'.localRoot ++ t ∧ e.canon = e'.canon ++ t)
    ∨ ∃ t, e'.localRoot = e.localRoot ++ t ∧ e'.canon = e.canon ++ t

/-- The path from which `e` was taken outward comes back. A path that just fits its buffer may
also be cut off something that was `added`. -/
def ComesBack (m : List SrcRoot) (path : List UInt8) (e : SrcRoot) : Prop :=
  path.length < maxSourcePath
    ∧ ∃ added, (added = [] ∨ path.length + 1 = maxSourcePath)
      ∧ Undoes e (localAt m (e.localRoot ++ shownRest m path e))
        (path.drop e.canon.length ++ added) (shownRest m path e)

section

variable {m : List SrcRoot} {path : List UInt8}

theorem rewritePathsOutward_skip (m : List SrcRoot) (room skip : Nat) (text : List UInt8) :
    rewritePathsOutward m room skip text = rewritePathsOutward m room 0 (text.drop skip) := by
  induction text generalizing skip with
  | nil => rw [drop_nil, rewritePathsOutward, rewritePathsOutward]
  | cons c text ih =>
    cases skip with
    | zero => rfl
    | succ => rw [rewritePathsOutward, ih, drop_succ_cons]

theorem canonAt_append {e : SrcRoot} (h : canonAt m path = some e) :
    e.canon ≠ [] ∧ e.canon ++ path.drop e.canon.length = path := by
  have := find?_some h
  simp only [atBoundary, Bool.and_eq_true, decide_eq_true_eq, isPrefixOf_iff_prefix] at this
  obtain ⟨hne, ⟨rest, rfl⟩, -⟩ := this
  exact ⟨hne, by rw [drop_left]⟩

/-- The client has the local root of the entry that was taken, whole, and the rest behind it. -/
theorem clientPath_eq {e : SrcRoot} (h : canonAt m path = some e) :
    clientPath m path = e.localRoot ++ shownRest m path e := by
  obtain ⟨hne, happ⟩ := canonAt_append h
  have hlt := e.local_lt
  have hsize : maxSourcePath = 1024 ∧ dapMaxMsg - 1 = 65535 := ⟨rfl, rfl⟩
  obtain ⟨n, hn⟩ := Nat.exists_eq_succ_of_ne_zero (length_pos_iff.mpr hne).ne'
  cases path with
  | nil => exact absurd (append_eq_nil_iff.mp happ).1 hne
  | cons =>
    simp only [clientPath, shownRest, rewritePathsOutward, h, hn, drop_succ_cons,
      Nat.succ_sub_one]
    rw [if_neg (by omega), rewritePathsOutward_skip, take_append,
      take_of_length_le (i := dapMaxMsg - 1) (by omega), take_of_length_le (by omega)]

theorem under_iff {root : List UInt8} (hne : root ≠ []) : Under root path
    ↔ path = root ∨ root <+: path ∧ (path.drop root.length).head? = some 47 := by
  constructor
  · rintro ⟨-, ⟨rest, rfl⟩, hend⟩
    rw [drop_left] at hend ⊢
    exact hend.imp (fun h => by rw [h, append_nil]) fun h => ⟨prefix_append .., h⟩
  · rintro (rfl | ⟨hpre, hslash⟩)
    · exact ⟨hne, prefix_refl _, .inl List.drop_length⟩
    · exact ⟨hne, hpre, .inr hslash⟩

theorem mapPathInward_eq (n : Nat) (m : List SrcRoot) (path : List UInt8) :
    mapPathInward n m path = ((localAt m path).canon
      ++ path.drop (localAt m path).localRoot.length).take (n - 1) := by
  induction m with
  | nil => rfl
  | cons e m ih =>
    rw [mapPathInward, localAt, find?_cons]
    split <;> rename_i hne
    · rw [decide_eq_false fun h => h.1 hne]
      exact ih
    · simp only [under_iff hne, Bool.and_eq_true, isPrefixOf_iff_prefix, decide_eq_true_eq]
      by_cases heq : path = e.localRoot
      · simp [heq, snprintf]
      · rw [if_neg heq]
        split <;> rename_i hpre
        · rw [decide_eq_true (.inr hpre)]
          rfl
        · rw [decide_eq_false (not_or_intro heq hpre)]
          exact ih

theorem localAt_prefix (m : List SrcRoot) (path : List UInt8) :
    (localAt m path).localRoot <+: path := by
  unfold localAt
  cases h : m.find? fun e => Under e.localRoot path with
  | none => exact nil_prefix
  | some e =>
    have hunder := find?_some h
    exact (of_decide_eq_true hunder).2.1

theorem shifted_iff {root root' rest rest' : List UInt8} :
    Shifted root root' rest rest' ↔ root ++ rest = root' ++ rest' :=
  append_eq_append_iff.symm

/-- The entries undo each other if what the second writes is what the first has read. -/
theorem undoes_iff {e e' : SrcRoot} {rest rest' : List UInt8}
    (hpre : e'.localRoot <+: e.localRoot ++ rest') : Undoes e e' rest rest'
      ↔ e'.canon ++ (e.localRoot ++ rest').drop e'.localRoot.length = e.canon ++ rest := by
  unfold Undoes
  simp only [shifted_iff]
  obtain ⟨r, hr⟩ := hpre
  rw [← hr, drop_left]
  constructor
  · rintro (⟨t, ht, h⟩ | ⟨t, r', ht, rfl, h⟩)
    · rw [ht, append_assoc, append_cancel_left_eq] at hr
      rw [hr, ← append_assoc, h]
    · rw [ht, append_assoc, append_cancel_left_eq, append_cancel_left_eq] at hr
      rw [hr, h]
  · intro h
    rcases append_eq_append_iff.mp hr with ⟨t, ht, rfl⟩ | ⟨t, ht, rfl⟩
    · exact .inl ⟨t, ht, by rw [append_assoc, h]⟩
    · exact .inr ⟨t, r, ht, rfl, h⟩

/-- Where the rest is shown as it is, it comes down to the roots. -/
theorem undoes_same_iff {e e' : SrcRoot} {rest : List UInt8}
    (hpre : e'.localRoot <+: e.localRoot ++ rest) : Undoes e e' rest rest ↔ OneTree e e' := by
  unfold Undoes OneTree
  simp only [shifted_iff]
  refine or_congr (exists_congr fun t => and_congr_right fun _ => ?_) ⟨?_, ?_⟩
  · rw [append_cancel_right_eq, eq_comm]
  · rintro ⟨t, r, ht, rfl, h⟩
    rw [← append_assoc, append_cancel_right_eq] at h
    exact ⟨t, ht, h⟩
  · rintro ⟨t, ht, h⟩
    obtain ⟨r, hr⟩ := hpre
    rw [ht, append_assoc, append_cancel_left_eq] at hr
    exact ⟨t, r, ht, hr.symm, by rw [h, append_assoc, hr]⟩

/-- A text cut to the size of its buffer. -/
theorem take_eq_iff {text path : List UInt8} {n : Nat} : text.take (n - 1) = path ↔
    path.length ≤ n - 1 ∧ ∃ added, (added = [] ∨ path.length = n - 1) ∧ text = path ++ added := by
  constructor
  · rintro rfl
    refine ⟨length_take_le .., text.drop (n - 1), ?_, (take_append_drop ..).symm⟩
    rw [drop_eq_nil_iff, length_take]
    omega
  · rintro ⟨hle, added, rfl | hlen, rfl⟩
    · rw [append_nil, take_of_length_le hle]
    · rw [← hlen, take_left]

theorem canonAt_isSome (hroot : ∃ e ∈ m, Under e.canon path) : ∃ e, canonAt m path = some e := by
  obtain ⟨e, he, hne, hpre, hend⟩ := hroot
  refine isSome_iff_exists.mp (find?_isSome.mpr ⟨e, he, ?_⟩)
  rcases hend with hend | hend <;> simp [atBoundary, hne, isPrefixOf_iff_prefix.mpr hpre, hend]

end

/-- `/a` at `/x`, and `/b` at `/x/s`. -/
def rootA : SrcRoot := { canon := [47, 97], localRoot := [47, 120] }

def rootB : SrcRoot := { canon := [47, 98], localRoot := [47, 120, 47, 115] }

end Blyt
