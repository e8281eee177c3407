import Blyt.BlysRead

/-!
# A buffer's body and its contents

The body determines the contents of a buffer, and the contents the body, as far as
the body reaches: a field whose array takes 4 GiB or more is not saved as a whole.
What lies behind that, reading leaves alone (`readBody_loaded`).
-/

namespace Blyt

open List Option Function

theorem bits_of_byte (f : Nat → Bool) {j : Nat} (hj : j < 8) :
    (UInt8.ofNat ((range 8).foldl
      (fun acc j => acc + if f j then 2 ^ j else 0) 0)).toNat.testBit j = f j := by
  have hall : ∀ a b c d e g h i : Bool,
      let n := (UInt8.ofNat (0 + (if a then 2 ^ 0 else 0) + (if b then 2 ^ 1 else 0)
        + (if c then 2 ^ 2 else 0) + (if d then 2 ^ 3 else 0) + (if e then 2 ^ 4 else 0)
        + (if g then 2 ^ 5 else 0) + (if h then 2 ^ 6 else 0) + (if i then 2 ^ 7 else 0))).toNat
      n.testBit 0 = a ∧ n.testBit 1 = b ∧ n.testBit 2 = c ∧ n.testBit 3 = d ∧ n.testBit 4 = e
        ∧ n.testBit 5 = g ∧ n.testBit 6 = h ∧ n.testBit 7 = i := by decide +kernel
  obtain ⟨h0, h1, h2, h3, h4, h5, h6, h7⟩ :=
    hall (f 0) (f 1) (f 2) (f 3) (f 4) (f 5) (f 6) (f 7)
  interval_cases j
  · exact h0
  · exact h1
  · exact h2
  · exact h3
  · exact h4
  · exact h5
  · exact h6
  · exact h7

namespace BlysBuffer

variable {v w : BlysBuffer}

/-- The same field bytes, slot bits and generations. -/
structure SameContents (v w : BlysBuffer) : Prop where
  data : ∀ fi tag, v.tags[fi]? = some tag → ∀ k < v.count * fieldSizeof tag,
    w.data fi k = v.data fi k
  used : ∀ s < 128, w.used s = v.used s
  gens : ∀ s < 128, w.gens s = v.gens s

theorem SameContents.refl (v : BlysBuffer) : SameContents v v :=
  ⟨fun _ _ _ _ _ => rfl, fun _ _ => rfl, fun _ _ => rfl⟩

/-- Generations are 16 bits wide. -/
def Typed (v : BlysBuffer) : Prop := ∀ s < 128, v.gens s < 2 ^ 16

/-! ## From contents to the body -/

theorem SameContents.body (hs : SameShape v w) (h : SameContents v w) : w.body = v.body := by
  have hfields : w.fieldBytes 0 w.tags = v.fieldBytes 0 v.tags := by
    rw [hs.tags]
    refine fieldBytes_congr rfl hs.count fun j tag ht k hk => ?_
    rw [hs.count] at hk
    rw [Nat.zero_add]
    exact h.data j tag ht k hk
  have hbits : w.bitset = v.bitset := by
    refine map_congr_left fun k hk => ?_
    have hk := mem_range.mp hk
    refine congrArg UInt8.ofNat (foldl_ext _ _ _ fun acc j hj => ?_)
    have hj := mem_range.mp hj
    rw [h.used (8 * k + j) (by omega)]
  have hgens : w.genBytes = v.genBytes := by
    rw [genBytes_eq, genBytes_eq]
    refine map_congr_left fun p hp => ?_
    have hp := mem_range.mp hp
    rw [h.gens (p / 2) (by omega)]
  rw [BlysBuffer.body, BlysBuffer.body, hfields, hbits, hgens]

/-! ## From the body to the contents -/

theorem map_range_inj {α : Type} {f g : Nat → α} {n k : Nat}
    (h : (range n).map f = (range n).map g) (hk : k < n) : f k = g k := by
  have := congrArg (fun l => l[k]?) h
  simpa [hk] using this

theorem fieldBytes_inj {fi : Nat} {tags : List Nat} (hc : w.count = v.count)
    (h : w.fieldBytes fi tags = v.fieldBytes fi tags) {j tag k : Nat} (ht : tags[j]? = some tag)
    (hk : k < v.fieldLen tag) : w.data (fi + j) k = v.data (fi + j) k := by
  have hlen : w.fieldLen = v.fieldLen := by
    funext tag
    rw [fieldLen, fieldLen, hc]
  induction tags generalizing fi j with
  | nil => cases ht
  | cons t tags ih =>
    rw [fieldBytes, hlen] at h
    obtain ⟨hhead, htail⟩ := append_inj h (by simp)
    cases j with
    | zero =>
      cases ht
      exact map_range_inj hhead hk
    | succ j =>
      rw [show fi + (j + 1) = fi + 1 + j by omega]
      exact ih htail ht

theorem used_of_bitset (h : w.bitset = v.bitset) {s : Nat} (hs : s < 128) :
    w.used s = v.used s := by
  have hbyte : w.bitsetByte (s / 8) = v.bitsetByte (s / 8) := map_range_inj h (by omega)
  have hw := bits_of_byte (fun j => w.used (8 * (s / 8) + j)) (show s % 8 < 8 by omega)
  have hv := bits_of_byte (fun j => v.used (8 * (s / 8) + j)) (show s % 8 < 8 by omega)
  rw [bitsetByte, bitsetByte] at hbyte
  rw [hbyte] at hw
  rw [hw, Nat.div_add_mod] at hv
  exact hv.symm ▸ rfl

theorem gens_of_genBytes (h : w.genBytes = v.genBytes) {s : Nat} (hs : s < 128) :
    w.gens s % 2 ^ 16 = v.gens s % 2 ^ 16 := by
  rw [genBytes_eq, genBytes_eq] at h
  have hlo := map_range_inj h (show 2 * s < 256 by omega)
  have hhi := map_range_inj h (show 2 * s + 1 < 256 by omega)
  rw [show 2 * s / 2 = s by omega, show 2 * s % 2 = 0 by omega, wordByte, wordByte,
    ← UInt8.toNat_inj, UInt8.toNat_ofNat', UInt8.toNat_ofNat'] at hlo
  rw [show (2 * s + 1) / 2 = s by omega, show (2 * s + 1) % 2 = 1 by omega, wordByte, wordByte,
    ← UInt8.toNat_inj, UInt8.toNat_ofNat', UInt8.toNat_ofNat'] at hhi
  omega

/-- What equal bodies have in common. -/
theorem contents_of_body (hs : SameShape v w) (hv : v.Typed) (hw : w.Typed) (h : w.body = v.body) :
    (∀ fi tag, v.tags[fi]? = some tag → ∀ k < v.fieldLen tag, w.data fi k = v.data fi k)
      ∧ (∀ s < 128, w.used s = v.used s) ∧ ∀ s < 128, w.gens s = v.gens s := by
  rw [body, hs.tags] at h
  obtain ⟨hfields, hrest⟩ := append_inj h (by
    rw [length_fieldBytes, length_fieldBytes, hs.fieldLen])
  obtain ⟨hbits, hgens⟩ := append_inj hrest (by simp)
  refine ⟨fun fi tag ht k hk => ?_, fun s hlt => used_of_bitset hbits hlt, fun s hlt => ?_⟩
  · have := fieldBytes_inj hs.count hfields ht hk
    rwa [Nat.zero_add] at this
  · have := gens_of_genBytes hgens hlt
    rwa [Nat.mod_eq_of_lt (hv s hlt), Nat.mod_eq_of_lt (hw s hlt)] at this

theorem SameContents.of_body (hs : SameShape v w) (hv : v.Typed) (hw : w.Typed)
    (hbeyond : ∀ fi tag, v.tags[fi]? = some tag → ∀ k, v.fieldLen tag ≤ k →
      k < v.count * fieldSizeof tag → w.data fi k = v.data fi k) (h : w.body = v.body) :
    SameContents v w := by
  obtain ⟨hdata, hused, hgens⟩ := contents_of_body hs hv hw h
  refine ⟨fun fi tag ht k hlt => ?_, hused, hgens⟩
  rcases Nat.lt_or_ge k (v.fieldLen tag) with hk | hk
  · exact hdata fi tag ht k hk
  · exact hbeyond fi tag ht k hk hlt

/-! ## What reading leaves alone -/

section

variable (v : BlysBuffer)

theorem loadField_nil (fi : Nat) : v.loadField fi [] = v := by
  have hdata := update_eq_self fi v.data
  unfold loadField
  simp only [getElem?_nil, getD_none]
  rw [hdata]

theorem readFields_nil (fi : Nat) (tags : List Nat) : (v.readFields fi tags []).1 = v := by
  induction tags generalizing fi with
  | nil => rfl
  | cons tag tags ih =>
    rw [readFields]
    simp only [take_nil, drop_nil, loadField_nil]
    split_ifs
    · rfl
    · exact ih (fi + 1)

theorem readBody_nil : (v.readBody []).1 = v := by
  have hfields := readFields_nil v 0 v.tags
  have hrest := readFields_rest v 0 v.tags []
  unfold readBody
  cases hr : v.readFields 0 v.tags [] with
  | mk w rest =>
    rw [hr] at hfields hrest
    subst hfields
    cases rest with
    | none => rfl
    | some file =>
      have hfile : file = [] := by
        split_ifs at hrest with h0
        rw [drop_nil] at hrest
        exact some.inj hrest
      subst hfile
      rfl

/-- The loop over the fields stays within the arrays' saved part. -/
theorem readFields_beyond (fi : Nat) (tags : List Nat) (file : List UInt8)
    {j tag k : Nat} (ht : tags[j]? = some tag) (hk : v.fieldLen tag ≤ k) :
    (v.readFields fi tags file).1.data (fi + j) k = v.data (fi + j) k := by
  induction tags generalizing v fi file j with
  | nil => cases ht
  | cons t tags ih =>
    have hload : ∀ i, (i = fi → v.fieldLen t ≤ k) →
        (v.loadField fi (file.take (v.fieldLen t))).data i k = v.data i k := by
      intro i hi
      by_cases heq : i = fi
      · subst heq
        show Function.update v.data i _ i k = _
        rw [update_self, getElem?_eq_none (by simp; have := hi rfl; omega), getD_none]
      · exact congrFun (update_of_ne heq _ _) k
    rw [readFields]
    cases j with
    | zero =>
      cases ht
      split_ifs
      · exact hload fi fun _ => hk
      · have hframe := readFields_frame (v.loadField fi (file.take (v.fieldLen tag))) (fi + 1)
          tags (file.drop (v.fieldLen tag))
        exact (congrFun (hframe.below fi (by omega)) k).trans (hload fi fun _ => hk)
    | succ j =>
      rw [show fi + (j + 1) = fi + 1 + j by omega]
      split_ifs
      · exact hload _ fun h => by omega
      · rw [ih (v.loadField fi (file.take (v.fieldLen t))) (fi + 1) _ ht hk]
        exact hload _ fun h => by omega

/-- Reading a section leaves the shape, what is not saved, and the width of the
generations. -/
structure Loaded (v w : BlysBuffer) : Prop where
  shape : SameShape v w
  beyond : ∀ fi tag, v.tags[fi]? = some tag → ∀ k, v.fieldLen tag ≤ k →
    w.data fi k = v.data fi k
  typed : v.Typed → w.Typed

theorem Loaded.refl : Loaded v v :=
  ⟨SameShape.refl v, fun _ _ _ _ _ => rfl, id⟩

end

theorem Loaded.trans {x : BlysBuffer} (h : Loaded v w) (h' : Loaded w x) : Loaded v x := by
  refine ⟨h.shape.trans h'.shape, fun fi tag ht k hk => ?_, h'.typed ∘ h.typed⟩
  rw [h'.beyond fi tag (by rwa [h.shape.tags]) k (by rwa [h.shape.fieldLen])]
  exact h.beyond fi tag ht k hk

theorem genFrom_lt {old : Nat} (h : old < 2 ^ 16) (lo hi : Option UInt8) :
    genFrom old lo hi < 2 ^ 16 := by
  cases lo with
  | none => exact h
  | some lo =>
    have := lo.toNat_lt
    cases hi with
    | none =>
      rw [genFrom]
      omega
    | some hi =>
      have := hi.toNat_lt
      rw [genFrom]
      omega

theorem readBody_loaded (v : BlysBuffer) (file : List UInt8) : Loaded v (v.readBody file).1 := by
  have hframe := readFields_frame v 0 v.tags file
  have hbeyond : ∀ fi tag, v.tags[fi]? = some tag → ∀ k, v.fieldLen tag ≤ k →
      (v.readFields 0 v.tags file).1.data fi k = v.data fi k := by
    intro fi tag ht k hk
    have := readFields_beyond v 0 v.tags file ht hk
    rwa [Nat.zero_add] at this
  refine ⟨readBody_shape v file, ?_, ?_⟩
  · unfold readBody
    cases hr : v.readFields 0 v.tags file with
    | mk w rest =>
      rw [hr] at hbeyond
      cases rest with
      | none => exact hbeyond
      | some =>
        simp only
        split_ifs <;> exact hbeyond
  · intro hv
    have hw : (v.readFields 0 v.tags file).1.Typed := fun s hs => by
      rw [hframe.gens]
      exact hv s hs
    unfold readBody
    cases hr : v.readFields 0 v.tags file with
    | mk w rest =>
      rw [hr] at hw
      cases rest with
      | none => exact hw
      | some =>
        simp only
        split_ifs
        · exact hw
        · exact fun s hs => genFrom_lt (hw s hs) _ _
        · exact fun s hs => genFrom_lt (hw s hs) _ _

end BlysBuffer

end Blyt
