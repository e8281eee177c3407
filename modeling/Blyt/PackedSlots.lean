import Blyt.BufferDiffer
import Blyt.PackedState

/-!
# Slots of packed buffers

Whether both runtimes can use what the packer accepts. The checks of `config.rs`
know none of the runtimes' limits: the emulated one holds 32 buffers of at most 128
slots and 1 to 256 fields, the native one eight buffers, and the native reader takes
in only declarations that have a count and their vtable in front of them
(`VtablePlaces`, `readDecl`). What it does not take in keeps 128 slots.
-/

namespace Blyt

open List Function NativeBuffer

/-- The successful ones of so many `alloc_slot` calls on a buffer. -/
def slotsGiven {σ : Type} (step : σ → BufCall → σ × Option Nat) (s : σ) (buf n : Nat) : Nat :=
  (traceOf step s (replicate n ⟨buf, .alloc⟩)).2.countP Option.isSome

/-- `blyt_state_ctx_init` on a packed cart, `none` if it fails. A cart without state
buffers has no section and starts without any. -/
def hostState (places : VtablePlaces) (cfg : CartConfig) : Option (List Buffer) :=
  match cartLayouts places cfg with
  | none => some []
  | some p => initBuffers p.layouts (p.buffers.take maxBuffers)

/-- `load_cart_buf_counts` on a packed cart; it does not fail. -/
def nativeState (places : VtablePlaces) (cfg : CartConfig) : Native :=
  match cartLayouts places cfg with
  | none => ⟨0, 0, replicate nativeMaxBuf default⟩
  | some p => loadCartBufCounts p.layouts

/-- The emulated runtime starts, with every declared buffer under its handle, and
gives as many slots as were declared. -/
def HostUses (places : VtablePlaces) (cfg : CartConfig) : Prop :=
  ∃ s, hostState places cfg = some s ∧ ∀ (i : Nat) (b : List UInt8 × ConfigBuffer),
    cfg.stateBuffers.entries[i]? = some b →
      ∃ buf, findBuffer s (i + 1) = some buf ∧ buf.name = cstr b.1
        ∧ ∀ n, slotsGiven stateStep s (i + 1) n = min n b.2.count.toNat

def NativeUses (places : VtablePlaces) (cfg : CartConfig) : Prop :=
  ∀ (i : Nat) (b : List UInt8 × ConfigBuffer), cfg.stateBuffers.entries[i]? = some b →
    ∃ buf, (nativeState places cfg).bufs[i]? = some buf
      ∧ ∀ n, slotsGiven nativeStep (nativeState places cfg) (i + 1) n = min n b.2.count.toNat

/-! ## Counting slots -/

/-- The first slots are taken. -/
def takenTo (j : Nat) : Nat → Bool := fun s => decide (s < j)

variable {j : Nat} {b : Buffer} {i : Nat}

theorem find_takenTo {c : Nat} (hj : j ≤ c) :
    (range c).find? (fun s => !takenTo j s) = if j < c then some j else none := by
  split
  · rename_i hlt
    rw [find?_range_eq_some]
    exact ⟨by simp [takenTo], mem_range.mpr hlt, fun k hk => by simp [takenTo, hk]⟩
  · rw [find?_range_eq_none]
    exact fun k hk => by simp [takenTo]; omega

theorem update_takenTo (j : Nat) : Function.update (takenTo j) j true = takenTo (j + 1) := by
  funext s
  by_cases h : s = j
  · rw [h, update_self, takenTo, decide_eq_true (Nat.lt_succ_self j)]
  · rw [update_of_ne h]
    exact decide_eq_decide.mpr (by omega)

/-- An emulated buffer with so many slots taken. -/
theorem Buffer.step_takenTo (hu : b.used = takenTo j) (hj : j ≤ min b.count maxSlots) :
    b.step .alloc
      = if j < min b.count maxSlots then ({ b with used := takenTo (j + 1) }, some j)
        else (b, none) := by
  rw [Buffer.step, Buffer.allocSlot, hu, find_takenTo hj]
  split_ifs
  · simp only [update_takenTo]
  · rfl

theorem NativeBuffer.step_takenTo {b : NativeBuffer} (hu : b.used = takenTo j) (hj : j ≤ b.count) :
    b.step .alloc
      = if j < b.count then ({ b with used := takenTo (j + 1) }, some j) else (b, none) := by
  rw [NativeBuffer.step, allocSlot, hu, find_takenTo hj]
  split_ifs
  · simp only [update_takenTo]
  · rfl

theorem slotsGiven_host {s : List Buffer} (hb : s[i]? = some b) (hu : b.used = takenTo 0)
    (n : Nat) : slotsGiven stateStep s (i + 1) n = min n (min b.count maxSlots) := by
  rw [slotsGiven, ← map_replicate, stateTrace_one hb, ← Nat.sub_zero (min b.count maxSlots)]
  refine traceOf_successes (P := fun j b' => b'.used = takenTo j ∧ b'.count = b.count)
    (fun j b' hj hlt => ?_) (fun b' hj => ?_) ⟨hu, rfl⟩ (Nat.zero_le _) n
  · rw [← hj.2] at hlt
    rw [Buffer.step_takenTo hj.1 hlt.le, if_pos hlt]
    exact ⟨rfl, rfl, hj.2⟩
  · rw [Buffer.step_takenTo hj.1 (by rw [hj.2]), if_neg (by rw [hj.2]; omega)]
    exact ⟨rfl, hj⟩

theorem slotsGiven_native {t : Native} {b : NativeBuffer} (hb : t.bufs[i]? = some b)
    (hu : b.used = takenTo 0) (n : Nat) : slotsGiven nativeStep t (i + 1) n = min n b.count := by
  rw [slotsGiven, ← map_replicate, nativeTrace_one hb, ← Nat.sub_zero b.count]
  refine traceOf_successes (P := fun j b' => b'.used = takenTo j ∧ b'.count = b.count)
    (fun j b' hj hlt => ?_) (fun b' hj => ?_) ⟨hu, rfl⟩ (Nat.zero_le _) n
  · rw [← hj.2] at hlt
    rw [step_takenTo hj.1 hlt.le, if_pos hlt]
    exact ⟨rfl, rfl, hj.2⟩
  · rw [step_takenTo hj.1 (by rw [hj.2]), if_neg (by rw [hj.2]; omega)]
    exact ⟨rfl, hj⟩

/-- As many as are declared: the cap is the count. -/
theorem all_min_eq_iff {cap count : Nat} : (∀ n, min n cap = min n count) ↔ cap = count := by
  refine ⟨fun h => ?_, fun h n => by rw [h]⟩
  have h1 := h cap
  have h2 := h count
  omega

theorem takenTo_zero : takenTo 0 = fun _ => false := by
  funext s
  exact decide_eq_false (Nat.not_lt_zero s)

/-! ## The emulated runtime -/

section

variable {cfg : CartConfig} {places : VtablePlaces} {p : PackedLayouts}

theorem hostState_eq (hlen : cfg.stateBuffers.entries.length ≤ maxBuffers)
    (hp : cartLayouts places cfg = some p) :
    hostState places cfg = initBuffers p.layouts p.buffers := by
  have hshort : p.buffers.length ≤ maxBuffers := by
    rwa [(cartLayouts_eq hp).2, packBuffers, length_mapIdx]
  rw [hostState, hp]
  simp only [take_of_length_le hshort]

theorem findBuffer_succ (s : List Buffer) (i : Nat) : findBuffer s (i + 1) = s[i]? :=
  if_neg (Nat.succ_ne_zero i)

variable {s : List Buffer} {i : Nat} {b : List UInt8 × ConfigBuffer}

theorem hostState_length (h : hostState places cfg = some s) : s.length ≤ maxBuffers := by
  rw [hostState] at h
  split at h
  · cases h
    exact Nat.zero_le _
  · rw [← (initBuffers_eq_some.mp h).length_eq, length_take]
    exact Nat.min_le_left _ _

/-- A buffer of the runtime, and how many slots it gives. -/
theorem hostState_getElem (hacc : cfg.Accepted)
    (hlen : cfg.stateBuffers.entries.length ≤ maxBuffers) (h : hostState places cfg = some s)
    (hb : cfg.stateBuffers.entries[i]? = some b) {buf : Buffer} (hbuf : s[i]? = some buf) :
    cfg.FieldsFit b.2.record ∧ buf.name = cstr b.1
      ∧ ∀ n, slotsGiven stateStep s (i + 1) n = min n (min b.2.count.toNat maxSlots) := by
  obtain ⟨p, hp⟩ := cartLayouts_some places hb
  rw [hostState_eq hlen hp] at h
  have hget := hbuf
  rw [initBuffers_getElem h i] at hget
  obtain ⟨r, hr, hne, hle, rfl⟩ := (initBuffer_packed hacc hp hb).mp hget
  exact ⟨⟨r, hr, hne, hle⟩, rfl, slotsGiven_host hbuf takenTo_zero.symm⟩

theorem hostState_isSome (places : VtablePlaces) (hacc : cfg.Accepted)
    (hlen : cfg.stateBuffers.entries.length ≤ maxBuffers)
    (hfit : ∀ b ∈ cfg.stateBuffers.entries, cfg.FieldsFit b.2.record) :
    ∃ s, hostState places cfg = some s ∧ s.length = cfg.stateBuffers.entries.length := by
  cases hp : cartLayouts places cfg with
  | none =>
    refine ⟨[], by rw [hostState, hp], ?_⟩
    cases hE : cfg.stateBuffers.entries with
    | nil => rfl
    | cons =>
      obtain ⟨p, hp'⟩ : ∃ p, cartLayouts places cfg = some p := cartLayouts_some places (i := 0)
        (by rw [hE]; rfl)
      rw [hp] at hp'
      cases hp'
  | some =>
    obtain ⟨s, hs, hslen⟩ := initBuffers_packed hacc hp hfit
    exact ⟨s, (hostState_eq hlen hp).trans hs, hslen⟩

theorem hostUses_iff (places : VtablePlaces) (hacc : cfg.Accepted) :
    HostUses places cfg ↔ cfg.stateBuffers.entries.length ≤ maxBuffers
      ∧ ∀ b ∈ cfg.stateBuffers.entries, b.2.count.toNat ≤ maxSlots ∧ cfg.FieldsFit b.2.record := by
  constructor
  · rintro ⟨s, hs, h⟩
    have hbuf : ∀ (i : Nat) b, cfg.stateBuffers.entries[i]? = some b → ∃ buf, s[i]? = some buf :=
      fun i b hb => by
        obtain ⟨buf, hbuf, -⟩ := h i b hb
        exact ⟨buf, findBuffer_succ s i ▸ hbuf⟩
    have hlen : cfg.stateBuffers.entries.length ≤ maxBuffers := by
      by_contra hlong
      obtain ⟨buf, hbuf⟩ := hbuf maxBuffers _ (getElem?_eq_getElem (by omega))
      have := (List.getElem?_eq_some_iff.mp hbuf).1
      have := hostState_length hs
      omega
    refine ⟨hlen, fun b hb => ?_⟩
    obtain ⟨i, hi⟩ := getElem?_of_mem hb
    obtain ⟨buf, hbuf⟩ := hbuf i b hi
    obtain ⟨hfit, -, hslots⟩ := hostState_getElem hacc hlen hs hi hbuf
    obtain ⟨-, -, -, hgiven⟩ := h i b hi
    have hcap := all_min_eq_iff.mp fun n => (hslots n).symm.trans (hgiven n)
    exact ⟨by omega, hfit⟩
  · rintro ⟨hlen, h⟩
    obtain ⟨s, hs, hslen⟩ := hostState_isSome places hacc hlen fun b hb => (h b hb).2
    refine ⟨s, hs, fun i b hb => ?_⟩
    have hi := (List.getElem?_eq_some_iff.mp hb).1
    obtain ⟨buf, hbuf⟩ : ∃ buf, s[i]? = some buf := ⟨_, getElem?_eq_getElem (by omega)⟩
    obtain ⟨-, hname, hslots⟩ := hostState_getElem hacc hlen hs hb hbuf
    refine ⟨buf, (findBuffer_succ s i).trans hbuf, hname, fun n => (hslots n).trans ?_⟩
    rw [Nat.min_eq_left (h b (mem_of_getElem? hb)).1]

/-! ## The native runtime -/

/-- The native reader gets to the declaration: no vtable on the way lies behind. -/
def VtablePlaces.Reaches (places : VtablePlaces) (i : Nat) : Prop :=
  0 < places.root ∧ 0 < places.decl i

instance (places : VtablePlaces) (i : Nat) : Decidable (places.Reaches i) := by
  unfold VtablePlaces.Reaches
  infer_instance

/-- The slots the native runtime has for a buffer. -/
def nativeCount (places : VtablePlaces) (i : Nat) (b : List UInt8 × ConfigBuffer) : Nat :=
  if places.Reaches i ∧ b.2.count ≠ 0 then min b.2.count.toNat maxSlots else maxSlots

theorem readDecl_used (L : CartLayouts) (d : BufferDecl) : (readDecl L d).used = takenTo 0 := by
  rw [readDecl]
  split
  · rfl
  · split <;> rfl

theorem readDecl_count (L : CartLayouts) (d : BufferDecl) :
    (readDecl L d).count
      = if 0 < d.soff then (d.count.map fun c => min c maxSlots).getD maxSlots else maxSlots := by
  rw [readDecl]
  by_cases hsoff : 0 < d.soff
  · rw [if_pos hsoff, if_neg (Int.not_le.mpr hsoff)]
    cases d.count <;> rfl
  · rw [if_neg hsoff, if_pos (Int.not_lt.mp hsoff)]
    rfl

theorem nativeState_getElem (places : VtablePlaces)
    (hb : cfg.stateBuffers.entries[i]? = some b) (hi : i < nativeMaxBuf) :
    ∃ buf, (nativeState places cfg).bufs[i]? = some buf ∧ buf.used = takenTo 0
      ∧ buf.count = nativeCount places i b := by
  obtain ⟨p, hp⟩ := cartLayouts_some places hb
  have hsoff := cartLayouts_soff hp
  rw [nativeState, hp]
  show ∃ buf, (loadCartBufCounts p.layouts).bufs[i]? = some buf ∧ _
  by_cases hroot : 0 < places.root
  · have hget : (packBuffers places cfg.stateBuffers.entries)[i]? = _ := packBuffers_getElem hb
    rw [← (cartLayouts_eq hp).2] at hget
    refine ⟨readDecl p.layouts _, ?_, readDecl_used p.layouts ⟨places.decl i, some b.1, b.2.record,
      if b.2.count = 0 then none else some b.2.count.toNat⟩, ?_⟩
    · rw [loadCartBufCounts, hsoff, if_neg (Int.not_le.mpr hroot)]
      show (((p.buffers.take nativeMaxBuf).map (readDecl p.layouts)) ++ _)[i]? = _
      have hlt := (List.getElem?_eq_some_iff.mp hget).1
      rw [getElem?_append_left (by rw [length_map, length_take]; omega),
        getElem?_map, getElem?_take_of_lt hi, hget]
      rfl
    · rw [readDecl_count, nativeCount]
      simp only [VtablePlaces.Reaches, hroot, true_and]
      split_ifs <;> simp_all
  · refine ⟨default, ?_, takenTo_zero.symm, ?_⟩
    · rw [loadCartBufCounts, hsoff, if_pos (Int.not_lt.mp hroot)]
      exact getElem?_replicate_of_lt hi
    · rw [nativeCount, if_neg fun h => hroot h.1.1]
      rfl

theorem nativeState_length (places : VtablePlaces) (cfg : CartConfig) :
    (nativeState places cfg).bufs.length = nativeMaxBuf := by
  rw [nativeState]
  split
  · exact length_replicate
  · rw [loadCartBufCounts]
    split
    · exact length_replicate
    · split
      · exact length_replicate
      · rw [length_append, length_replicate, length_map, length_take]
        omega

theorem nativeUses_iff (places : VtablePlaces) (cfg : CartConfig) :
    NativeUses places cfg ↔ cfg.stateBuffers.entries.length ≤ nativeMaxBuf
      ∧ ∀ (i : Nat) b, cfg.stateBuffers.entries[i]? = some b →
        nativeCount places i b = b.2.count.toNat := by
  constructor
  · intro h
    have hlen : cfg.stateBuffers.entries.length ≤ nativeMaxBuf := by
      by_contra hlong
      obtain ⟨buf, hbuf, -⟩ := h nativeMaxBuf _ (getElem?_eq_getElem (by omega))
      have := (List.getElem?_eq_some_iff.mp hbuf).1
      rw [nativeState_length] at this
      omega
    refine ⟨hlen, fun i b hb => ?_⟩
    have hi := (List.getElem?_eq_some_iff.mp hb).1
    obtain ⟨buf, hbuf, hu, hcount⟩ := nativeState_getElem places hb (by omega)
    obtain ⟨-, -, hgiven⟩ := h i b hb
    rw [← hcount]
    exact all_min_eq_iff.mp fun n => (slotsGiven_native hbuf hu n).symm.trans (hgiven n)
  · rintro ⟨hlen, h⟩ i b hb
    have hi := (List.getElem?_eq_some_iff.mp hb).1
    obtain ⟨buf, hbuf, hu, hcount⟩ := nativeState_getElem places hb (by omega)
    refine ⟨buf, hbuf, fun n => (slotsGiven_native hbuf hu n).trans ?_⟩
    rw [hcount, h i b hb]

end

/-- The configuration is within the limits of both runtimes, and a declaration the native
reader does not get to asks for what is there anyway. -/
structure WithinRuntimes (places : VtablePlaces) (cfg : CartConfig) : Prop where
  buffers : cfg.stateBuffers.entries.length ≤ nativeMaxBuf
  counts : ∀ b ∈ cfg.stateBuffers.entries, b.2.count ≠ 0 ∧ b.2.count.toNat ≤ maxSlots
  unread : ∀ (i : Nat) b, cfg.stateBuffers.entries[i]? = some b →
    ¬ places.Reaches i → b.2.count.toNat = maxSlots
  fields : ∀ b ∈ cfg.stateBuffers.entries, cfg.FieldsFit b.2.record

theorem nativeCount_eq_iff {places : VtablePlaces} {i : Nat} {b : List UInt8 × ConfigBuffer} :
    nativeCount places i b = b.2.count.toNat
      ↔ (b.2.count ≠ 0 ∧ b.2.count.toNat ≤ maxSlots)
        ∧ (¬ places.Reaches i → b.2.count.toNat = maxSlots) := by
  have hmax : maxSlots = 128 := rfl
  have hzero : b.2.count = 0 ↔ b.2.count.toNat = 0 := UInt32.toNat_inj.symm
  simp only [nativeCount, ne_eq, hzero]
  by_cases hreach : places.Reaches i
  · simp only [hreach, true_and, not_true, false_implies, and_true]
    split_ifs <;> omega
  · simp only [hreach, false_and, if_false, not_false_iff, true_implies]
    omega

/-- **What is accepted can be used.** Both runtimes start with every declared buffer
and give the declared number of slots exactly if the configuration has at most eight
buffers of 1 to 128 slots over records with 1 to 256 fields, and of 128 slots where the
vtable is not in front. -/
theorem runtimes_use_iff (places : VtablePlaces) {cfg : CartConfig} (hacc : cfg.Accepted) :
    HostUses places cfg ∧ NativeUses places cfg ↔ WithinRuntimes places cfg := by
  rw [hostUses_iff places hacc, nativeUses_iff places cfg]
  constructor
  · rintro ⟨⟨-, hhost⟩, hlen, hcounts⟩
    refine ⟨hlen, fun b hb => ?_, fun i b hb => ?_, fun b hb => (hhost b hb).2⟩
    · obtain ⟨i, hi⟩ := getElem?_of_mem hb
      exact (nativeCount_eq_iff.mp (hcounts i b hi)).1
    · exact (nativeCount_eq_iff.mp (hcounts i b hb)).2
  · intro h
    refine ⟨⟨h.buffers.trans (by decide), fun b hb => ⟨(h.counts b hb).2, h.fields b hb⟩⟩,
      h.buffers, fun i b hb => ?_⟩
    exact nativeCount_eq_iff.mpr ⟨h.counts b (mem_of_getElem? hb), h.unread i b hb⟩

theorem runtimes_use_iff_player :
    (posConfig poolBuffers).Accepted ∧ HostUses poolPlaces (posConfig poolBuffers)
      ∧ NativeUses poolPlaces (posConfig poolBuffers) := by
  have hacc : (posConfig poolBuffers).Accepted := by decide +kernel
  refine ⟨hacc, (runtimes_use_iff _ hacc).mpr ⟨by decide, by decide, ?_, fun b hb => ?_⟩⟩
  · rintro (_ | _ | i) b hb hnot
    · exact absurd (by decide) hnot
    · cases hb
      rfl
    · cases hb
  · rcases mem_pair.mp hb with rfl | rfl <;>
      exact ⟨bytesOf "Body", by decide +kernel,
        signature_eq (posConfig_flatten poolBuffers) ▸ ⟨nofun, by decide⟩⟩

def largePool : KeyMap ConfigBuffer := ⟨[(bytesOf "enemy", ⟨bytesOf "Body", 200⟩)], by decide⟩

/-- Of 200 declared slots both runtimes give 128, wherever the vtables are. -/
theorem large_pool_cut :
    (posConfig largePool).Accepted ∧ ∀ places,
      ¬HostUses places (posConfig largePool) ∧ ¬NativeUses places (posConfig largePool) := by
  have hacc : (posConfig largePool).Accepted := by decide +kernel
  have hb : (posConfig largePool).stateBuffers.entries[0]?
      = some (bytesOf "enemy", ⟨bytesOf "Body", 200⟩) := rfl
  refine ⟨hacc, fun places => ⟨fun h => ?_, fun h => ?_⟩⟩
  · have hle := (((hostUses_iff places hacc).mp h).2 _ (mem_of_getElem? hb)).1
    exact absurd hle (by decide)
  · have hcount := ((nativeUses_iff places _).mp h).2 0 _ hb
    exact absurd (nativeCount_eq_iff.mp hcount).1.2 (by decide)

end Blyt
