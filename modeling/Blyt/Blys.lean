import Blyt.StateBuffer
import Blyt.CartNames

/-!
# The save format

`blys_write` of `runtime/shared/blyt_blys.c`, the one serializer both runtimes
use: a header, then a section per state buffer. Each section says how long it is,
so a save can be taken apart again in only one way (`blysSections_inj`). I/O
errors are left out.
-/

namespace Blyt

open List

/-- `blys_buffer_t`. `data fi` is the byte array of field `fi`. -/
structure BlysBuffer where
  name : List UInt8
  tags : List Nat
  count : Nat
  data : Nat → ByteMem
  used : Nat → Bool
  gens : Nat → Nat

namespace BlysBuffer

/-- What a section's payload takes, before it is cut to 32 bits. -/
def serializedSize (v : BlysBuffer) : Nat :=
  4 + v.name.length + (v.tags.map fun tag => v.count * fieldSizeof tag).sum + 16 + 256

/-- `blys_buffer_payload_size`. -/
def payloadSize (v : BlysBuffer) : Nat := u32 v.serializedSize

def fieldLen (v : BlysBuffer) (tag : Nat) : Nat := u32 (v.count * fieldSizeof tag)

/-- The arrays of the fields from `fi` on. -/
def fieldBytes (v : BlysBuffer) : Nat → List Nat → List UInt8
  | _, [] => []
  | fi, tag :: tags =>
    (range (v.fieldLen tag)).map (v.data fi) ++ v.fieldBytes (fi + 1) tags

/-- Byte `k` of the slot bitset. -/
def bitsetByte (v : BlysBuffer) (k : Nat) : UInt8 :=
  UInt8.ofNat ((range 8).foldl (fun acc j => acc + if v.used (8 * k + j) then 2 ^ j else 0) 0)

def bitset (v : BlysBuffer) : List UInt8 := (range 16).map v.bitsetByte

def genBytes (v : BlysBuffer) : List UInt8 := (range 128).flatMap fun s => leBytes 2 (v.gens s)

/-- What follows the two words that say how long it is. -/
def payload (v : BlysBuffer) : List UInt8 :=
  leBytes 4 v.name.length ++ (v.name ++ (v.fieldBytes 0 v.tags ++ (v.bitset ++ v.genBytes)))

def cartSection (v : BlysBuffer) : List UInt8 :=
  bytesOf "CART" ++ (leBytes 4 v.payloadSize ++ v.payload)

end BlysBuffer

def blysHeader (schemaHash : UInt64) (saveVersion : Nat) : List UInt8 :=
  bytesOf "BLYS" ++ (leBytes 2 1 ++ (leBytes 2 1 ++ (leBytes 8 schemaHash.toNat
    ++ leBytes 4 saveVersion)))

def blysSections : List BlysBuffer → List UInt8
  | [] => []
  | v :: vs => v.cartSection ++ blysSections vs

def blysWrite (schemaHash : UInt64) (saveVersion : Nat) (views : List BlysBuffer) : List UInt8 :=
  blysHeader schemaHash saveVersion ++ blysSections views

/-! ## Taking a save apart -/

theorem length_blysHeader (h : UInt64) (ver : Nat) : (blysHeader h ver).length = 20 := by
  simp [blysHeader, bytesOf]

/-- Two saves with the same bytes have the same header and the same sections. -/
theorem blysWrite_inj {h h' : UInt64} {ver : Nat} {vs vs' : List BlysBuffer}
    (heq : blysWrite h ver vs = blysWrite h' ver vs') :
    h = h' ∧ blysSections vs = blysSections vs' := by
  obtain ⟨hhead, hrest⟩ := append_inj heq (by rw [length_blysHeader, length_blysHeader])
  refine ⟨?_, hrest⟩
  have hhash := append_cancel_left (append_cancel_left (append_cancel_left hhead))
  have hbytes := (append_inj hhash (by rw [length_leBytes, length_leBytes])).1
  have hlt : ∀ x : UInt64, x.toNat < 256 ^ 8 := fun x => by
    have := x.toNat_lt
    exact this
  exact UInt64.toNat_inj.mp (leBytes_inj (hlt h) (hlt h') hbytes)

namespace BlysBuffer

variable {v v' : BlysBuffer}

theorem length_fieldBytes (v : BlysBuffer) (fi : Nat) (tags : List Nat) :
    (v.fieldBytes fi tags).length = (tags.map v.fieldLen).sum := by
  induction tags generalizing fi with
  | nil => rfl
  | cons tag tags ih =>
    rw [fieldBytes, length_append, length_map, length_range, ih, map_cons, sum_cons]

@[simp] theorem length_bitset (v : BlysBuffer) : v.bitset.length = 16 := by
  rw [bitset, length_map, length_range]

@[simp] theorem length_genBytes (v : BlysBuffer) : v.genBytes.length = 256 := by
  rw [genBytes]
  simp

/-- The size of the section fits in 32 bits. -/
def Fits (v : BlysBuffer) : Prop := v.serializedSize < 2 ^ 32

instance (v : BlysBuffer) : Decidable v.Fits := inferInstanceAs (Decidable (_ < _))

theorem sum_fieldLen {tags : List Nat}
    (h : (tags.map fun tag => v.count * fieldSizeof tag).sum < 2 ^ 32) :
    (tags.map v.fieldLen).sum = (tags.map fun tag => v.count * fieldSizeof tag).sum := by
  refine congrArg sum (map_congr_left fun tag htag => u32_of_lt ?_)
  exact (single_le_sum (fun _ _ => Nat.zero_le _) _ (mem_map_of_mem htag)).trans_lt h

/-- A section that fits records how many bytes follow. -/
theorem length_payload (h : v.Fits) : v.payload.length = v.payloadSize := by
  unfold Fits at h
  rw [payloadSize, u32_of_lt h]
  unfold serializedSize at h ⊢
  simp only [payload, length_append, length_leBytes, length_fieldBytes, length_genBytes,
    length_bitset]
  rw [sum_fieldLen (by omega)]
  omega

/-- Field arrays depend on widths, the count and the bytes below it. -/
theorem fieldBytes_congr {tags tags' : List Nat} {fi : Nat}
    (hw : tags.map fieldSizeof = tags'.map fieldSizeof) (hc : v.count = v'.count)
    (hd : ∀ j tag, tags[j]? = some tag → ∀ k < v.count * fieldSizeof tag,
      v.data (fi + j) k = v'.data (fi + j) k) : v.fieldBytes fi tags = v'.fieldBytes fi tags' := by
  induction tags generalizing fi tags' with
  | nil =>
    cases tags' with
    | nil => rfl
    | cons => cases hw
  | cons tag tags ih =>
    cases tags' with
    | nil => cases hw
    | cons tag' tags' =>
      rw [map_cons, map_cons, cons.injEq] at hw
      have hrest : v.fieldBytes (fi + 1) tags = v'.fieldBytes (fi + 1) tags' := by
        refine ih hw.2 fun j t ht k hk => ?_
        have := hd (j + 1) t ht k hk
        rwa [show fi + (j + 1) = fi + 1 + j by omega] at this
      rw [fieldBytes, fieldBytes, fieldLen, fieldLen, ← hw.1, ← hc]
      congr 1
      exact map_congr_left fun k hk =>
        hd 0 tag rfl k ((mem_range.mp hk).trans_le (u32_le _))

theorem fieldBytes_of_count (h : v.count = 0) (fi : Nat) (tags : List Nat) :
    v.fieldBytes fi tags = [] := by
  have hzero : ∀ tag, v.fieldLen tag = 0 := fun tag => by
    rw [fieldLen, h, Nat.zero_mul]
    rfl
  rw [← length_eq_zero_iff, length_fieldBytes, funext hzero]
  simp

/-- The first section of equal bytes is the same. -/
theorem section_append_inj {r r' : List UInt8} (hv : v.Fits) (hv' : v'.Fits)
    (h : v.cartSection ++ r = v'.cartSection ++ r') : v.payload = v'.payload ∧ r = r' := by
  simp only [cartSection, append_assoc] at h
  have h := append_cancel_left h
  obtain ⟨hsize, h⟩ := append_inj h (by rw [length_leBytes, length_leBytes])
  have hsize := leBytes_inj (u32_lt _) (u32_lt _) hsize
  exact append_inj h (by rw [length_payload hv, length_payload hv', hsize])

/-- A payload gives away the name, and how much there is behind it. -/
theorem payload_inj (hv : v.Fits) (hv' : v'.Fits) (h : v.payload = v'.payload) :
    v.name = v'.name ∧ v.fieldBytes 0 v.tags ++ (v.bitset ++ v.genBytes)
      = v'.fieldBytes 0 v'.tags ++ (v'.bitset ++ v'.genBytes) := by
  obtain ⟨hlen, h⟩ := append_inj h (by rw [length_leBytes, length_leBytes])
  have hle : ∀ {x : BlysBuffer}, x.Fits → x.name.length < 256 ^ 4 := by
    intro x hx
    unfold Fits serializedSize at hx
    omega
  exact append_inj h (leBytes_inj (hle hv) (hle hv') hlen)

end BlysBuffer

theorem blysSections_congr {vs vs' : List BlysBuffer}
    (h : List.Forall₂ (fun v v' => v.cartSection = v'.cartSection) vs vs') :
    blysSections vs = blysSections vs' := by
  induction h with
  | nil => rfl
  | cons hv _ ih => rw [blysSections, blysSections, hv, ih]

/-- **Unique reading.** Saves with equal sections have the same number of buffers,
and each buffer the same payload. -/
theorem blysSections_inj {vs vs' : List BlysBuffer} (hv : ∀ v ∈ vs, v.Fits)
    (hv' : ∀ v ∈ vs', v.Fits) (h : blysSections vs = blysSections vs') :
    List.Forall₂ (fun v v' => v.payload = v'.payload) vs vs' := by
  induction vs generalizing vs' with
  | nil =>
    cases vs' with
    | nil => exact List.Forall₂.nil
    | cons => cases h
  | cons v vs ih =>
    cases vs' with
    | nil => cases h
    | cons =>
      rw [forall_mem_cons] at hv hv'
      obtain ⟨hfirst, hrest⟩ := BlysBuffer.section_append_inj hv.1 hv'.1 h
      exact List.Forall₂.cons hfirst (ih hv.2 hv'.2 hrest)

end Blyt
