import Blyt.Blys

/-!
# Reading a save

`blys_read` of `runtime/shared/blyt_blys.c` over the bytes of a file. The reader
streams: each array of a buffer is read in place, and a read that runs into the
end of the file leaves the bytes it got (`fread` does). The stream is the rest of
the file, so a read of `n` bytes gets `file.take n` and fails if that is less.

All the reader does to a buffer is to write over the front of its body - the
field arrays, the slot bitset and the generations, as one run of bytes
(`readBody_body`).
-/

namespace Blyt

open List Option Function

inductive BlysResult where
  | ok | errIo | errSchema
  deriving DecidableEq, Repr

/-! ## One buffer -/

namespace BlysBuffer

/-- Read into the array of field `fi`. -/
def loadField (v : BlysBuffer) (fi : Nat) (got : List UInt8) : BlysBuffer :=
  { v with data := Function.update v.data fi fun k => (got[k]?).getD (v.data fi k) }

/-- A slot's bit in the byte that was read, if it was. -/
def bitFrom (c : Option UInt8) (j : Nat) (old : Bool) : Bool :=
  match c with
  | none => old
  | some c => c.toNat.testBit j

def loadBits (v : BlysBuffer) (got : List UInt8) : BlysBuffer :=
  { v with used := fun s => bitFrom got[s / 8]? (s % 8) (v.used s) }

/-- A generation from its two bytes; the last may have got its low byte only. -/
def genFrom (old : Nat) : Option UInt8 → Option UInt8 → Nat
  | some lo, some hi => lo.toNat + 256 * hi.toNat
  | some lo, none => lo.toNat + 256 * (old / 256 % 256)
  | none, _ => old

def loadGens (v : BlysBuffer) (got : List UInt8) : BlysBuffer :=
  { v with gens := fun s => genFrom (v.gens s) got[2 * s]? got[2 * s + 1]? }

/-- The loop over the fields, from `fi` on. -/
def readFields (v : BlysBuffer) : Nat → List Nat → List UInt8 → BlysBuffer × Option (List UInt8)
  | _, [], file => (v, some file)
  | fi, tag :: tags, file =>
    let bytes := v.fieldLen tag
    let v := v.loadField fi (file.take bytes)
    if file.length < bytes then (v, none) else readFields v (fi + 1) tags (file.drop bytes)

/-- A section's data; `none` if the file ends within it. -/
def readBody (v : BlysBuffer) (file : List UInt8) : BlysBuffer × Option (List UInt8) :=
  match v.readFields 0 v.tags file with
  | (v, none) => (v, none)
  | (v, some file) =>
    let v := v.loadBits (file.take 16)
    if file.length < 16 then (v, none)
    else
      let file := file.drop 16
      let v := v.loadGens (file.take 256)
      if file.length < 256 then (v, none) else (v, some (file.drop 256))

end BlysBuffer

/-! ## The loop over the sections

What a section is read into is a parameter, with its name and the way it takes in
its data: a buffer's view in the code, a named block of bytes in the proofs. -/

structure Target (β : Type) where
  name : β → List UInt8
  load : β → List UInt8 → β × Option (List UInt8)

def blysTarget : Target BlysBuffer := ⟨BlysBuffer.name, BlysBuffer.readBody⟩

inductive LoopStep (β : Type) where
  | stop (result : BlysResult) (bufs : List β)
  | next (bufs : List β) (file : List UInt8)

section Loop

variable {β : Type} (R : Target β)

/-- The loop of `skip_bytes` over pieces of at most 256 bytes, in so many turns. -/
def skipPieces : Nat → Nat → List UInt8 → Option (List UInt8)
  | 0, _, file => some file
  | turns + 1, n, file =>
    if n = 0 then some file
    else if file.length < min n 256 then none
    else skipPieces turns (n - min n 256) (file.drop (min n 256))

def skipBytes (bufs : List β) (n : Nat) (file : List UInt8) : LoopStep β :=
  match skipPieces n n file with
  | none => .stop .errIo bufs
  | some file => .next bufs file

theorem skipPieces_eq {turns n : Nat} (h : n ≤ turns) (file : List UInt8) :
    skipPieces turns n file = if file.length < n then none else some (file.drop n) := by
  induction turns generalizing n file with
  | zero => simp [skipPieces, Nat.le_zero.mp h]
  | succ turns ih =>
    rw [skipPieces]
    split_ifs with h0 hcut hn hn
    · omega
    · rw [h0, List.drop_zero]
    · rfl
    · omega
    · rw [ih (by omega), if_pos (by rw [List.length_drop]; omega)]
    · rw [ih (by omega), if_neg (by rw [List.length_drop]; omega), List.drop_drop,
        Nat.add_sub_cancel' (Nat.min_le_left ..)]

theorem skipBytes_eq (bufs : List β) (n : Nat) (file : List UInt8) : skipBytes bufs n file
    = if file.length < n then .stop .errIo bufs else .next bufs (file.drop n) := by
  rw [skipBytes, skipPieces_eq le_rfl]
  split_ifs <;> rfl

def findNamed (bufs : List β) (name : List UInt8) : Option Nat :=
  bufs.findIdx? fun b => decide (R.name b = name)

/-- Read a section's data into buffer `i`. -/
def loadInto (bufs : List β) (i : Nat) (file : List UInt8) : LoopStep β :=
  match bufs[i]? with
  | none => .stop .errIo bufs
  | some b =>
    match R.load b file with
    | (b, none) => .stop .errIo (bufs.set i b)
    | (b, some file) => .next (bufs.set i b) file

/-- What follows the eight bytes of a section header with the tag `CART`. -/
def cartStep (bufs : List β) (payload : Nat) (file : List UInt8) : LoopStep β :=
  if file.length < 4 then .stop .errIo bufs
  else
    let nameLen := leNat (file.take 4)
    let file := file.drop 4
    if 256 ≤ nameLen then .stop .errIo bufs
    else if file.length < nameLen then .stop .errIo bufs
    else
      let name := file.take nameLen
      let file := file.drop nameLen
      match findNamed R bufs name with
      | none => skipBytes bufs (u32 (payload + 2 ^ 32 - 4 - nameLen)) file
      | some i => loadInto R bufs i file

def sectionStep (bufs : List β) (file : List UInt8) : LoopStep β :=
  if file.length = 0 then .stop .ok bufs
  else if file.length < 8 then .stop .errIo bufs
  else
    let payload := leNat ((file.drop 4).take 4)
    if file.take 4 = bytesOf "CART" then cartStep R bufs payload (file.drop 8)
    else skipBytes bufs payload (file.drop 8)

/-- Every turn takes eight bytes or more, so `fuel` above the length suffices. -/
def sectionLoop : Nat → List β → List UInt8 → BlysResult × List β
  | 0, bufs, _ => (.errIo, bufs)
  | fuel + 1, bufs, file =>
    match sectionStep R bufs file with
    | .stop result bufs => (result, bufs)
    | .next bufs file => sectionLoop fuel bufs file

end Loop

/-- The header: the save version, the schema hash, and the rest of the file. -/
def readHeader (file : List UInt8) : Option (Nat × Nat × List UInt8) :=
  if file.length < 16 then none
  else if file.take 4 ≠ bytesOf "BLYS" then none
  else
    let minor := leNat ((file.drop 6).take 2)
    let hash := leNat ((file.drop 8).take 8)
    let file := file.drop 16
    if minor < 1 then some (0, hash, file)
    else if file.length < 4 then none
    else some (leNat (file.take 4), hash, file.drop 4)

/-- `blys_read`: the result, the buffers afterwards and the save version. -/
def blysRead (schemaHash : UInt64) (bufs : List BlysBuffer) (file : List UInt8) :
    BlysResult × List BlysBuffer × Nat :=
  match readHeader file with
  | none => (.errIo, bufs, 0)
  | some (saveVersion, hash, file) =>
    if hash ≠ schemaHash.toNat then (.errSchema, bufs, saveVersion)
    else
      let (result, bufs) := sectionLoop blysTarget (file.length + 1) bufs file
      (result, bufs, saveVersion)

/-! ## What reading does to a buffer -/

theorem byte_of_bits (c : UInt8) :
    UInt8.ofNat ((range 8).foldl
      (fun acc j => acc + if c.toNat.testBit j then 2 ^ j else 0) 0) = c := by
  have hall : ∀ n < 256, (range 8).foldl
      (fun acc j => acc + if n.testBit j then 2 ^ j else 0) 0 = n := by decide +kernel
  rw [hall c.toNat c.toNat_lt, UInt8.ofNat_toNat]

namespace BlysBuffer

variable {v w : BlysBuffer}

structure SameShape (v w : BlysBuffer) : Prop where
  name : w.name = v.name
  tags : w.tags = v.tags
  count : w.count = v.count

theorem SameShape.refl (v : BlysBuffer) : SameShape v v := ⟨rfl, rfl, rfl⟩

theorem SameShape.trans {x : BlysBuffer} (h : SameShape v w) (h' : SameShape w x) : SameShape v x :=
  ⟨h'.name.trans h.name, h'.tags.trans h.tags, h'.count.trans h.count⟩

theorem SameShape.symm (h : SameShape v w) : SameShape w v :=
  ⟨h.name.symm, h.tags.symm, h.count.symm⟩

theorem SameShape.fieldLen (h : SameShape v w) : w.fieldLen = v.fieldLen := by
  funext tag
  rw [BlysBuffer.fieldLen, BlysBuffer.fieldLen, h.count]

/-- Everything of a buffer that a save holds. -/
def body (v : BlysBuffer) : List UInt8 := v.fieldBytes 0 v.tags ++ (v.bitset ++ v.genBytes)

def bodySize (v : BlysBuffer) : Nat := (v.tags.map v.fieldLen).sum + 272

@[simp] theorem length_body (v : BlysBuffer) : v.body.length = v.bodySize := by
  simp [body, length_fieldBytes, length_bitset, length_genBytes, bodySize]

theorem SameShape.bodySize (h : SameShape v w) : w.bodySize = v.bodySize := by
  rw [BlysBuffer.bodySize, BlysBuffer.bodySize, h.tags, h.fieldLen]

theorem loadBits_bitset (v : BlysBuffer) (got : List UInt8) :
    (v.loadBits got).bitset = overlay got v.bitset := by
  have hbyte : ∀ k, (v.loadBits got).bitsetByte k = (got[k]?).getD (v.bitsetByte k) := by
    intro k
    have hused : ∀ j ∈ range 8, (v.loadBits got).used (8 * k + j)
        = bitFrom got[k]? j (v.used (8 * k + j)) := by
      intro j hj
      have hj := mem_range.mp hj
      show bitFrom got[(8 * k + j) / 8]? ((8 * k + j) % 8) _ = _
      rw [show (8 * k + j) / 8 = k by omega, show (8 * k + j) % 8 = j by omega]
    have hfold : (v.loadBits got).bitsetByte k = UInt8.ofNat ((range 8).foldl (fun acc j =>
        acc + if bitFrom got[k]? j (v.used (8 * k + j)) then 2 ^ j else 0) 0) := by
      refine congrArg UInt8.ofNat (foldl_ext _ _ _ fun acc j hj => ?_)
      rw [hused j hj]
    rw [hfold]
    cases got[k]? with
    | none => rfl
    | some c => exact byte_of_bits c
  rw [bitset, bitset, overlay_map_range]
  exact map_congr_left fun k _ => hbyte k

theorem genBytes_eq (v : BlysBuffer) :
    v.genBytes = (range 256).map fun p => wordByte (v.gens (p / 2)) (p % 2) := by
  have hall : ∀ n, (range n).flatMap (fun s => leBytes 2 (v.gens s))
      = (range (2 * n)).map fun p => wordByte (v.gens (p / 2)) (p % 2) := by
    intro n
    induction n with
    | zero => rfl
    | succ n ih =>
      rw [range_succ, flatMap_append, ih, show 2 * (n + 1) = 2 * n + 1 + 1 by omega, range_succ,
        range_succ, map_append, map_append, append_assoc]
      simp only [map_cons, map_nil, cons_append, nil_append]
      rw [show 2 * n / 2 = n by omega, show 2 * n % 2 = 0 by omega,
        show (2 * n + 1) / 2 = n by omega, show (2 * n + 1) % 2 = 1 by omega]
      rfl
  exact hall 128

theorem wordByte_genFrom_low (old : Nat) (lo hi : Option UInt8) :
    wordByte (genFrom old lo hi) 0 = lo.getD (wordByte old 0) := by
  have hlow : ∀ (lo : UInt8) n, wordByte (lo.toNat + 256 * n) 0 = lo := by
    intro lo n
    have := lo.toNat_lt
    rw [wordByte, ← UInt8.toNat_inj, UInt8.toNat_ofNat']
    omega
  cases lo with
  | none => rfl
  | some lo => cases hi <;> exact hlow lo _

theorem wordByte_genFrom_high (old : Nat) {lo hi : Option UInt8} (h : hi.isSome → lo.isSome) :
    wordByte (genFrom old lo hi) 1 = hi.getD (wordByte old 1) := by
  have hhigh : ∀ (lo : UInt8) n, wordByte (lo.toNat + 256 * n) 1 = UInt8.ofNat n := by
    intro lo n
    have := lo.toNat_lt
    rw [wordByte, Nat.pow_one, show (lo.toNat + 256 * n) / 256 = n by omega]
  cases lo with
  | none =>
    cases hi with
    | none => rfl
    | some => cases h rfl
  | some =>
    cases hi with
    | none =>
      rw [genFrom, hhigh, getD_none, wordByte, Nat.pow_one, ← UInt8.toNat_inj,
        UInt8.toNat_ofNat', UInt8.toNat_ofNat', Nat.mod_mod]
    | some => rw [genFrom, hhigh, getD_some, UInt8.ofNat_toNat]

theorem loadGens_genBytes (v : BlysBuffer) (got : List UInt8) :
    (v.loadGens got).genBytes = overlay got v.genBytes := by
  rw [genBytes_eq, genBytes_eq, overlay_map_range]
  refine map_congr_left fun p _ => ?_
  obtain ⟨s, rfl | rfl⟩ : ∃ s, p = 2 * s ∨ p = 2 * s + 1 := ⟨p / 2, by omega⟩
  · rw [show 2 * s / 2 = s by omega, show 2 * s % 2 = 0 by omega]
    exact wordByte_genFrom_low _ _ _
  · rw [show (2 * s + 1) / 2 = s by omega, show (2 * s + 1) % 2 = 1 by omega]
    refine wordByte_genFrom_high _ fun hhi => ?_
    -- a high byte comes after its low byte
    rw [isSome_iff_ne_none, ne_eq, List.getElem?_eq_none_iff] at hhi ⊢
    omega

/-- Field arrays from `fi` on do not see what happens below `fi`. -/
theorem fieldBytes_of_data {fi : Nat} {tags : List Nat} (hc : w.count = v.count)
    (h : ∀ j, fi ≤ j → w.data j = v.data j) : w.fieldBytes fi tags = v.fieldBytes fi tags := by
  induction tags generalizing fi with
  | nil => rfl
  | cons tag tags ih =>
    rw [fieldBytes, fieldBytes, h fi le_rfl, ih fun j hj => h j (by omega), fieldLen, fieldLen, hc]

/-- What the loop over the fields leaves. -/
structure FieldsRead (v w : BlysBuffer) (fi : Nat) : Prop where
  shape : SameShape v w
  used : w.used = v.used
  gens : w.gens = v.gens
  below : ∀ j < fi, w.data j = v.data j

section

variable (v : BlysBuffer)

theorem readFields_frame (fi : Nat) (tags : List Nat) (file : List UInt8) :
    FieldsRead v (v.readFields fi tags file).1 fi := by
  induction tags generalizing v fi file with
  | nil => exact ⟨SameShape.refl v, rfl, rfl, fun _ _ => rfl⟩
  | cons tag tags ih =>
    have hload : FieldsRead v (v.loadField fi (file.take (v.fieldLen tag))) fi :=
      ⟨⟨rfl, rfl, rfl⟩, rfl, rfl, fun j hj => update_of_ne (by omega) _ _⟩
    rw [readFields]
    split_ifs with hlen
    · exact hload
    · have hrest := ih (v.loadField fi (file.take (v.fieldLen tag))) (fi + 1)
        (file.drop (v.fieldLen tag))
      exact ⟨hload.shape.trans hrest.shape, hrest.used.trans hload.used,
        hrest.gens.trans hload.gens,
        fun j hj => (hrest.below j (by omega)).trans (hload.below j hj)⟩

theorem loadField_bytes (fi tag : Nat) (got : List UInt8) :
    (range (v.fieldLen tag)).map ((v.loadField fi got).data fi)
      = overlay got ((range (v.fieldLen tag)).map (v.data fi)) := by
  rw [overlay_map_range]
  show List.map (Function.update v.data fi _ fi) _ = _
  rw [update_self]

/-- Reading fields writes over the front of their arrays. -/
theorem readFields_bytes (fi : Nat) (tags : List Nat) (file : List UInt8) :
    (v.readFields fi tags file).1.fieldBytes fi tags = overlay file (v.fieldBytes fi tags) := by
  induction tags generalizing v fi file with
  | nil => simp [fieldBytes, overlay]
  | cons tag tags ih =>
    have hlenMap : ((range (v.fieldLen tag)).map (v.data fi)).length = v.fieldLen tag := by
      rw [length_map, length_range]
    have htail : (v.loadField fi (file.take (v.fieldLen tag))).fieldBytes (fi + 1) tags
        = v.fieldBytes (fi + 1) tags :=
      fieldBytes_of_data rfl fun j hj => update_of_ne (by omega) _ _
    rw [readFields]
    split_ifs with hlen
    · -- the file ends within this field
      rw [fieldBytes, fieldBytes, htail, overlay_append, hlenMap,
        drop_of_length_le hlen.le, overlay_nil]
      exact congrArg (· ++ _) (loadField_bytes v fi tag _)
    · have hframe := readFields_frame (v.loadField fi (file.take (v.fieldLen tag))) (fi + 1) tags
        (file.drop (v.fieldLen tag))
      rw [fieldBytes, fieldBytes, ih, htail, overlay_append, hlenMap, hframe.below fi (by omega),
        hframe.shape.fieldLen]
      exact congrArg (· ++ _) (loadField_bytes v fi tag _)

theorem readFields_rest (fi : Nat) (tags : List Nat) (file : List UInt8) :
    (v.readFields fi tags file).2 = if (tags.map v.fieldLen).sum ≤ file.length
      then some (file.drop (tags.map v.fieldLen).sum) else none := by
  induction tags generalizing v fi file with
  | nil => simp [readFields]
  | cons tag tags ih =>
    have hshape : (v.loadField fi (file.take (v.fieldLen tag))).fieldLen = v.fieldLen := rfl
    rw [readFields, map_cons, sum_cons]
    split_ifs with hlen hsum hsum
    · omega
    · rfl
    · rw [ih, hshape, if_pos (by rw [length_drop]; omega), drop_drop]
    · rw [ih, hshape, if_neg (by rw [length_drop]; omega)]

theorem readBody_shape (file : List UInt8) : SameShape v (v.readBody file).1 := by
  have hframe := readFields_frame v 0 v.tags file
  unfold readBody
  cases hr : v.readFields 0 v.tags file with
  | mk w rest =>
    rw [hr] at hframe
    cases rest with
    | none => exact hframe.shape
    | some =>
      have hshape := hframe.shape
      simp only
      split_ifs <;> exact hshape.trans ⟨rfl, rfl, rfl⟩

theorem readBody_rest (file : List UInt8) :
    (v.readBody file).2
      = if v.bodySize ≤ file.length then some (file.drop v.bodySize) else none := by
  have hrest := readFields_rest v 0 v.tags file
  unfold readBody bodySize
  cases hr : v.readFields 0 v.tags file with
  | mk =>
    rw [hr] at hrest
    subst hrest
    by_cases hsum : (v.tags.map v.fieldLen).sum ≤ file.length
    · simp only [if_pos hsum, length_drop]
      split_ifs with h1 h2 h3 h4 h5
      all_goals first | omega | rfl | skip
      rw [drop_drop, drop_drop]
    · simp only [if_neg hsum]
      rw [if_neg (by omega)]

theorem loadBits_body (got : List UInt8) :
    (v.loadBits got).body = v.fieldBytes 0 v.tags ++ (overlay got v.bitset ++ v.genBytes) := by
  rw [← loadBits_bitset]
  exact congrArg (· ++ _) (fieldBytes_of_data rfl fun _ _ => rfl)

theorem loadGens_body (got : List UInt8) :
    (v.loadGens got).body = v.fieldBytes 0 v.tags ++ (v.bitset ++ overlay got v.genBytes) := by
  rw [← loadGens_genBytes]
  exact congrArg (· ++ _) (fieldBytes_of_data rfl fun _ _ => rfl)

theorem loadBits_loadGens_body (got got' : List UInt8) :
    ((v.loadBits got).loadGens got').body
      = v.fieldBytes 0 v.tags ++ (overlay got v.bitset ++ overlay got' v.genBytes) := by
  rw [loadGens_body, loadBits_bitset]
  exact congrArg (· ++ _) (fieldBytes_of_data rfl fun _ _ => rfl)

/-- **Reading writes over the front of the body**, as far as the file goes. -/
theorem readBody_body (file : List UInt8) : (v.readBody file).1.body = overlay file v.body := by
  have hframe := readFields_frame v 0 v.tags file
  have hbytes := readFields_bytes v 0 v.tags file
  have hrest := readFields_rest v 0 v.tags file
  have hlen := length_fieldBytes v 0 v.tags
  unfold readBody
  cases hr : v.readFields 0 v.tags file with
  | mk w =>
    rw [hr] at hframe hbytes hrest
    have hbits : w.bitset = v.bitset := by
      unfold bitset bitsetByte
      rw [hframe.used]
    have hgens : w.genBytes = v.genBytes := by
      unfold genBytes
      rw [hframe.gens]
    have htags := hframe.shape.tags
    -- the bytes of the fields are taken from the file's front, the others from behind it
    have hfields : w.fieldBytes 0 w.tags = overlay (file.take (v.tags.map v.fieldLen).sum)
        (v.fieldBytes 0 v.tags) := by
      rw [htags, hbytes, ← hlen, overlay_take]
    have hsplit : overlay file v.body = w.fieldBytes 0 w.tags
        ++ (overlay ((file.drop (v.tags.map v.fieldLen).sum).take 16) w.bitset
          ++ overlay ((file.drop (v.tags.map v.fieldLen).sum).drop 16) w.genBytes) := by
      rw [body, overlay_append, overlay_append, hlen, length_bitset, hfields, hbits, hgens]
    rw [hsplit]
    split at hrest
    · subst hrest
      simp only
      generalize file.drop (v.tags.map v.fieldLen).sum = file'
      have hgen := overlay_take (file'.drop 16) w.genBytes
      rw [length_genBytes] at hgen
      split_ifs with h1 h2
      · rw [drop_of_length_le h1.le, overlay_nil]
        exact loadBits_body w _
      · rw [← hgen]
        exact loadBits_loadGens_body w _ _
      · rw [← hgen]
        exact loadBits_loadGens_body w _ _
    · subst hrest
      rw [drop_of_length_le (by omega), take_nil, drop_nil, overlay_nil, overlay_nil]
      rfl

end

end BlysBuffer

end Blyt
