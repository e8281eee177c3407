import Blyt.CartNames

/-!
# Bodies of the debug responses

The three builders of `runtime/host/src/dap/dap_lua_inspect.c` that append one piece for each
frame, variable or source. All do it alike: `snprintf` behind the running offset, with what is
left of the buffer as its size, and the offset grows by what `snprintf` returns. That is the
length of the piece whether or not it was cut, so the offset counts the whole text, and the
buffer holds out exactly if the lengths of the names, paths and values add up to no more.
-/

namespace Blyt

open List

/-- `DAP_LUA_MAX_FRAMES`, `DAP_LUA_MAX_VARS` and `DAP_LUA_MAX_MSG`. -/
def dapMaxFrames : Nat := 64
def dapMaxVars : Nat := 64
def dapMaxMsg : Nat := 64 * 1024

/-- `snprintf` into `n` bytes: what is stored in front of the terminator, and the return
value, the length of the whole text. -/
def snprintf (n : Nat) (text : List UInt8) : List UInt8 × Nat := (text.take (n - 1), text.length)

/-- What `lua_getinfo` tells of a level; without a name, `name` is what it calls the function. -/
structure LuaFrame where
  source : List UInt8
  name : List UInt8
  line : Int

def frameEntry (display : Nat) (f : LuaFrame) : List UInt8 :=
  bytesOf "\x7b\"id\":" ++ bytesOf (toString display) ++ bytesOf ",\"name\":\"" ++ f.name
    ++ bytesOf "\",\"source\":\x7b\"path\":\"" ++ f.source.tail ++ bytesOf "\"\x7d,\"line\":"
    ++ bytesOf (toString f.line) ++ bytesOf ",\"column\":1\x7d"

/-- The loop of `build_stack_body` over the levels of the paused thread and of the threads
below it; only sources with an `@` in front are shown. -/
def stackEntries (display : Nat) : List LuaFrame → List (List UInt8)
  | [] => []
  | f :: fs =>
    if display < dapMaxFrames then
      if f.source.head? = some 64 then frameEntry display f :: stackEntries (display + 1) fs
      else stackEntries display fs
    else []

/-- A local or an upvalue. `text` is there for strings and numbers. -/
structure LuaVar where
  name : List UInt8
  type : List UInt8
  text : Option (List UInt8)

/-- `val` of `append_variable`, a buffer of 256 bytes in which quotes and backslashes are
overwritten. -/
def shownValue (v : LuaVar) : List UInt8 :=
  ((v.text.getD v.type).take 255).map fun c => if c = 34 ∨ c = 92 then 95 else c

def varEntry (v : LuaVar) : List UInt8 :=
  bytesOf "\x7b\"name\":\"" ++ v.name ++ bytesOf "\",\"value\":\"" ++ shownValue v
    ++ bytesOf "\",\"type\":\"" ++ v.type ++ bytesOf "\",\"variablesReference\":0\x7d"

/-- The locals and the upvalues `handle_variables` shows. -/
def shownVars (locals upvalues : List LuaVar) : List LuaVar :=
  (locals.take dapMaxVars).filter (fun v => v.name.head? ≠ some 40)
    ++ (upvalues.take dapMaxVars).filter fun v => v.name ≠ bytesOf "_ENV"

def sourceEntry (path : List UInt8) : List UInt8 :=
  bytesOf "\x7b\"path\":\"" ++ path ++ bytesOf "\",\"name\":\"" ++ path ++ bytesOf "\"\x7d"

/-- `first ? "" : ","`, which `display` and `i` come to as well. -/
def separated : List (List UInt8) → List (List UInt8)
  | [] => []
  | e :: es => e :: es.map (44 :: ·)

/-- What a body is built from. -/
inductive DapBody
  | stackTrace (threads : List (List LuaFrame))
  | variables (locals upvalues : List LuaVar)
  | loadedSources (paths : List (List UInt8))

namespace DapBody

def opening : DapBody → List UInt8
  | .stackTrace _ => bytesOf "\x7b\"stackFrames\":["
  | .variables _ _ => bytesOf "\x7b\"variables\":["
  | .loadedSources _ => bytesOf "\x7b\"sources\":["

def pieces : DapBody → List (List UInt8)
  | .stackTrace threads => separated (stackEntries 0 threads.flatten)
  | .variables locals upvalues => separated ((shownVars locals upvalues).map varEntry)
  | .loadedSources paths => separated (paths.map sourceEntry)

/-- A body while it is built: the text in front of the terminator, and `off`. -/
structure Built where
  stored : List UInt8
  off : Nat

/-- `off += snprintf(body + off, size - (size_t)off, ...)`. -/
def Built.append (size : Nat) (s : Built) (piece : List UInt8) : Built :=
  let r := snprintf ((size + 2 ^ 64 - s.off) % 2 ^ 64) piece
  ⟨s.stored.take s.off ++ r.1, s.off + r.2⟩

def start (b : DapBody) (size : Nat) : Built :=
  ⟨(snprintf size b.opening).1, (snprintf size b.opening).2⟩

/-- `off` after the opening and after each piece. -/
def offsets (b : DapBody) (size : Nat) : List Nat :=
  (b.pieces.scanl (Built.append size) (b.start size)).map Built.off

/-- What the buffer holds in front of the closing. -/
def stored (b : DapBody) (size : Nat) : List UInt8 :=
  (b.pieces.foldl (Built.append size) (b.start size)).stored

/-- The text in front of the closing, as it would be without any limit. -/
def text (b : DapBody) : List UInt8 := b.opening ++ b.pieces.flatten

/-! ## In counts and lengths -/

def openingLength : DapBody → Nat
  | .stackTrace _ => 16
  | .variables _ _ => 14
  | .loadedSources _ => 12

/-- The frames that are shown. -/
def shownFrames (threads : List (List LuaFrame)) : List LuaFrame :=
  (threads.flatten.filter fun f => f.source.head? = some 64).take dapMaxFrames

/-- The length of each entry: what is the same for all, and the names, paths, numbers and
values. -/
def entryLengths : DapBody → List Nat
  | .stackTrace threads => (shownFrames threads).mapIdx fun i f =>
    57 + (toString i).length + f.name.length + (f.source.length - 1) + (toString f.line).length
  | .variables locals upvalues => (shownVars locals upvalues).map fun v =>
    55 + v.name.length + min 255 (v.text.getD v.type).length + v.type.length
  | .loadedSources paths => paths.map fun path => 21 + 2 * path.length

/-- The opening, the entries and the commas between them. -/
def bodyLength (b : DapBody) : Nat :=
  b.openingLength + b.entryLengths.sum + (b.entryLengths.length - 1)

end DapBody

open DapBody

theorem length_separated (es : List (List UInt8)) :
    (separated es).flatten.length = (es.map length).sum + (es.length - 1) := by
  cases es with
  | nil => rfl
  | cons e es =>
    have htail : ∀ l : List (List UInt8), (l.map (44 :: ·)).flatten.length
        = (l.map length).sum + l.length := by
      intro l
      induction l with
      | nil => rfl
      | cons e l ih =>
        simp only [map_cons, flatten_cons, length_append, length_cons, sum_cons, ih]
        omega
    simp only [separated, flatten_cons, length_append, htail, map_cons, sum_cons, length_cons]
    omega

theorem length_frameEntry (display : Nat) (f : LuaFrame) : (frameEntry display f).length
    = 57 + (toString display).length + f.name.length + (f.source.length - 1)
      + (toString f.line).length := by
  unfold frameEntry
  generalize toString display = id, toString f.line = line
  simp [bytesOf, ← String.length_toList]
  omega

/-- The loop shows the frames with a path, up to the limit. -/
theorem stackEntries_eq (fs : List LuaFrame) (display : Nat) : stackEntries display fs
    = ((fs.filter fun f => f.source.head? = some 64).take (dapMaxFrames - display)).mapIdx
      fun i f => frameEntry (display + i) f := by
  induction fs generalizing display with
  | nil => simp [stackEntries]
  | cons f fs ih =>
    by_cases hlt : display < dapMaxFrames
    · by_cases hpath : f.source.head? = some 64
      · rw [stackEntries, if_pos hlt, if_pos hpath, ih, filter_cons_of_pos (by simpa using hpath),
          show dapMaxFrames - display = dapMaxFrames - (display + 1) + 1 by omega, take_succ_cons,
          mapIdx_cons]
        simp only [Nat.add_assoc, Nat.add_comm 1, Nat.add_zero]
      · rw [stackEntries, if_pos hlt, if_neg hpath, ih, filter_cons_of_neg (by simpa using hpath)]
    · rw [stackEntries, if_neg hlt, Nat.sub_eq_zero_of_le (Nat.not_lt.mp hlt), take_zero]
      rfl

theorem length_opening (b : DapBody) : b.opening.length = b.openingLength := by
  cases b <;> rfl

theorem length_pieces (b : DapBody) :
    b.pieces.flatten.length = b.entryLengths.sum + (b.entryLengths.length - 1) := by
  rcases b with threads | ⟨locals, upvalues⟩ | paths
  · rw [pieces, length_separated, stackEntries_eq, length_mapIdx, Nat.sub_zero, entryLengths,
      length_mapIdx, mapIdx_eq_zipIdx_map, map_map, mapIdx_eq_zipIdx_map]
    simp only [Nat.zero_add, shownFrames, Function.comp_def, length_frameEntry]
  · rw [pieces, length_separated, map_map, length_map, entryLengths, length_map]
    refine congrArg (fun l : List Nat => l.sum + _) (map_congr_left fun v _ => ?_)
    simp [varEntry, shownValue, bytesOf]
    omega
  · rw [pieces, length_separated, map_map, length_map, entryLengths, length_map]
    refine congrArg (fun l : List Nat => l.sum + _) (map_congr_left fun path _ => ?_)
    simp [sourceEntry, bytesOf]
    omega

/-! ## The running offset -/

theorem scanl_off_le_iff (l : List (List UInt8)) (size : Nat) (s : Built) :
    (∀ o ∈ (l.scanl (Built.append size) s).map Built.off, o ≤ size)
      ↔ s.off + l.flatten.length ≤ size := by
  induction l generalizing s with
  | nil => simp
  | cons p l ih =>
    have hoff : (s.append size p).off = s.off + p.length := rfl
    rw [scanl_cons, map_cons, forall_mem_cons, ih, hoff, flatten_cons, length_append]
    omega

/-- As long as the offset stays in the buffer, the buffer holds the text. -/
theorem foldl_stored {size : Nat} (hsize : size < 2 ^ 64) {l : List (List UInt8)} {s : Built}
    {t : List UInt8} (hs : s.stored = t.take (size - 1)) (hoff : s.off = t.length)
    (hle : t.length + l.flatten.length ≤ size) :
    (l.foldl (Built.append size) s).stored = (t ++ l.flatten).take (size - 1) := by
  induction l generalizing s t with
  | nil => rw [flatten_nil, append_nil, foldl_nil, hs]
  | cons p l ih =>
    rw [flatten_cons, length_append] at hle
    rw [foldl_cons, flatten_cons, ← append_assoc]
    refine ih ?_ ?_ ?_
    · have hroom : (size + 2 ^ 64 - s.off) % 2 ^ 64 = size - t.length := by
        rw [hoff, show size + 2 ^ 64 - t.length = size - t.length + 2 ^ 64 by omega,
          Nat.add_mod_right, Nat.mod_eq_of_lt (by omega)]
      simp only [Built.append, snprintf, hroom]
      rw [hs, hoff, take_append, take_of_length_le (by simp), Nat.sub_right_comm]
    · simp only [Built.append, snprintf, hoff, length_append]
    · rw [length_append]
      omega

/-- **When a builder stays in its buffer.** The offset never exceeds the size of the buffer
exactly if the lengths add up to no more, and then the buffer holds the text. -/
theorem offsets_le_iff (b : DapBody) (size : Nat) (hsize : size < 2 ^ 64) :
    ((∀ o ∈ b.offsets size, o ≤ size) ↔ b.bodyLength ≤ size)
      ∧ (b.bodyLength ≤ size → b.stored size = b.text.take (size - 1)) := by
  have hlen : b.opening.length + b.pieces.flatten.length = b.bodyLength := by
    rw [length_opening, length_pieces, bodyLength, Nat.add_assoc]
  refine ⟨?_, fun hle => ?_⟩
  · rw [offsets, scanl_off_le_iff, ← hlen]
    rfl
  · exact foldl_stored hsize rfl rfl (hlen.trans_le hle)

/-- Two sources in a buffer that the second one does not fit into. -/
theorem offsets_le_iff_two :
    let b := DapBody.loadedSources [bytesOf "main.lua", bytesOf "lib.lua"]
    (∀ o ∈ b.offsets dapMaxMsg, o ≤ dapMaxMsg) ∧ b.stored dapMaxMsg = b.text
      ∧ ¬ ∀ o ∈ b.offsets 64, o ≤ 64 := by
  intro b
  have hlen : b.bodyLength = 85 := rfl
  have hroom : b.bodyLength ≤ dapMaxMsg := by rw [hlen]; decide
  obtain ⟨hiff, hstored⟩ := offsets_le_iff b dapMaxMsg (by decide)
  refine ⟨hiff.mpr hroom, (hstored hroom).trans (take_of_length_le ?_), fun h => ?_⟩
  · decide
  · have := (offsets_le_iff b 64 (by decide)).1.mp h
    omega

/-- As many sources as the table holds, with paths as long as it keeps them. -/
theorem loadedSources_overrun : ¬∀ o ∈ (DapBody.loadedSources
    (replicate 64 (replicate 1023 97))).offsets dapMaxMsg, o ≤ dapMaxMsg := by
  rw [offsets, scanl_off_le_iff, length_pieces]
  simp only [entryLengths, map_replicate, length_replicate, sum_replicate_nat, dapMaxMsg]
  omega

end Blyt
