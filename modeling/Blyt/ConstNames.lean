import Blyt.PackedState

/-!
# Generated names

`compute_cart_state` names the constant of a field by its buffer, an underscore and the
field, all in capitals. The parts may have underscores themselves, so one name can be
cut in more than one way; `names_unambiguous_iff` lists all ways two names can be equal.
-/

namespace Blyt

open List Option

/-- Two ways to cut a text at `c` are the same, or one of them cuts further on. -/
theorem append_cons_eq_iff {α : Type} {c : α} {x x' y y' : List α} :
    x ++ c :: y = x' ++ c :: y'
      ↔ (x = x' ∧ y = y') ∨ (∃ s, x' = x ++ c :: s ∧ y = s ++ c :: y')
        ∨ ∃ s, x = x' ++ c :: s ∧ y' = s ++ c :: y := by
  rw [append_eq_append_iff]
  constructor
  · rintro (⟨_ | ⟨d, s⟩, hx, hy⟩ | ⟨_ | ⟨d, s⟩, hx, hy⟩)
    · exact .inl ⟨by simpa using hx.symm, (cons.inj hy).2⟩
    · obtain ⟨rfl, hcut⟩ := cons.inj hy
      exact .inr (.inl ⟨s, hx, hcut⟩)
    · exact .inl ⟨by simpa using hx, (cons.inj hy).2.symm⟩
    · obtain ⟨rfl, hcut⟩ := cons.inj hy
      exact .inr (.inr ⟨s, hx, hcut⟩)
  · rintro (⟨rfl, rfl⟩ | ⟨s, rfl, rfl⟩ | ⟨s, rfl, rfl⟩)
    · exact .inl ⟨[], by simp⟩
    · exact .inl ⟨c :: s, rfl, rfl⟩
    · exact .inr ⟨c :: s, rfl, rfl⟩

variable (upper : List UInt8 → List UInt8) (cfg : CartConfig)

/-- Buffer `b'` continues the name of `b` with an underscore, and a field of `b` has the
rest for its name, alone or before the name of a field of `b'`. -/
def Clashes (b b' : List UInt8 × ConfigBuffer) : Prop :=
  ∃ s, upper b'.1 = upper b.1 ++ 95 :: s ∧ ∃ f ∈ cfg.signature b.2.record,
    upper f.1 = s ∨ ∃ f' ∈ cfg.signature b'.2.record, upper f.1 = s ++ 95 :: upper f'.1

def namesOf (b : List UInt8 × ConfigBuffer) : List (List UInt8) :=
  bufferKey upper b.1 :: (cfg.signature b.2.record).map fun f => fieldKey upper b.1 f.1

variable {upper} {cfg} {b b' : List UInt8 × ConfigBuffer}

theorem mem_namesOf {key : List UInt8} : key ∈ namesOf upper cfg b
    ↔ key = upper b.1 ∨ ∃ f ∈ cfg.signature b.2.record, key = upper b.1 ++ 95 :: upper f.1 := by
  simp [namesOf, bufferKey, fieldKey, bytesOf, eq_comm]

theorem namesOf_nodup_iff : (namesOf upper cfg b).Nodup
    ↔ ((cfg.signature b.2.record).map fun f => upper f.1).Nodup := by
  have hmap : (cfg.signature b.2.record).map (fun f => fieldKey upper b.1 f.1)
      = ((cfg.signature b.2.record).map fun f => upper f.1).map
        (upper b.1 ++ bytesOf "_" ++ ·) := by
    rw [List.map_map]
    rfl
  have hbuf : bufferKey upper b.1
      ∉ (cfg.signature b.2.record).map fun f => fieldKey upper b.1 f.1 := by
    intro h
    obtain ⟨f, -, hf⟩ := List.mem_map.mp h
    simpa [bufferKey, fieldKey, bytesOf] using congrArg length hf
  rw [namesOf, nodup_cons, and_iff_right hbuf, hmap, nodup_map_iff (append_right_injective _)]

theorem not_clashes (h : Disjoint (namesOf upper cfg b) (namesOf upper cfg b')) :
    ¬Clashes upper cfg b b' := by
  rintro ⟨s, hs, f, hf, rfl | ⟨f', hf', hcut⟩⟩
  · exact h (mem_namesOf.mpr (.inr ⟨f, hf, rfl⟩)) (mem_namesOf.mpr (.inl hs.symm))
  · refine h (mem_namesOf.mpr (.inr ⟨f, hf, rfl⟩)) (mem_namesOf.mpr (.inr ⟨f', hf', ?_⟩))
    exact append_cons_eq_iff.mpr (.inr (.inl ⟨s, hs, hcut⟩))

/-- Two buffers share no name unless they have the same or one clashes with the other. -/
theorem namesOf_disjoint_iff : Disjoint (namesOf upper cfg b) (namesOf upper cfg b')
    ↔ upper b.1 ≠ upper b'.1 ∧ ¬Clashes upper cfg b b' ∧ ¬Clashes upper cfg b' b := by
  constructor
  · intro h
    refine ⟨fun heq => ?_, not_clashes h, not_clashes h.symm⟩
    exact h (mem_namesOf.mpr (.inl rfl)) (mem_namesOf.mpr (.inl heq))
  · rintro ⟨hne, hclash, hclash'⟩ key h h'
    rcases mem_namesOf.mp h with rfl | ⟨f, hf, rfl⟩
    · rcases mem_namesOf.mp h' with heq | ⟨f', hf', heq⟩
      · exact hne heq
      · exact hclash' ⟨_, heq, f', hf', .inl rfl⟩
    · rcases mem_namesOf.mp h' with heq | ⟨f', hf', heq⟩
      · exact hclash ⟨_, heq.symm, f, hf, .inl rfl⟩
      · rcases append_cons_eq_iff.mp heq with ⟨heq, -⟩ | ⟨s, hs, hcut⟩ | ⟨s, hs, hcut⟩
        · exact hne heq
        · exact hclash ⟨s, hs, f, hf, .inr ⟨f', hf', hcut⟩⟩
        · exact hclash' ⟨s, hs, f', hf', .inr ⟨f, hf, hcut⟩⟩

/-- **Generated names.** For an accepted configuration the generated names are all
different exactly if in capitals the fields of each buffer differ, and of any two buffers
the names differ and neither clashes with the other. -/
theorem names_unambiguous_iff (hacc : cfg.Accepted) :
    ∃ consts, computeCartState upper cfg = .ok consts ∧ ((consts.map Prod.fst).Nodup
      ↔ (∀ b ∈ cfg.stateBuffers.entries, ((cfg.signature b.2.record).map fun f => upper f.1).Nodup)
        ∧ cfg.stateBuffers.entries.Pairwise fun b b' => upper b.1 ≠ upper b'.1
          ∧ ¬Clashes upper cfg b b' ∧ ¬Clashes upper cfg b' b) := by
  obtain ⟨consts, hconsts, -⟩ := stateConsts_ok upper 1 fun b hb =>
    hacc.flatten ((CartConfig.accepted_iff.mp hacc).2.1 b hb)
  have hnames : consts.map Prod.fst = cfg.stateBuffers.entries.flatMap (namesOf upper cfg) :=
    stateConsts_names hconsts
  refine ⟨consts, hconsts, ?_⟩
  rw [hnames, nodup_flatMap]
  simp only [namesOf_nodup_iff]
  exact and_congr_right fun _ => Pairwise.iff fun _ _ => namesOf_disjoint_iff

theorem names_unambiguous_iff_player :
    (posConfig poolBuffers).Accepted
      ∧ ∃ consts, computeCartState asciiUpper (posConfig poolBuffers) = .ok consts
        ∧ (consts.map Prod.fst).Nodup := by
  have hacc : (posConfig poolBuffers).Accepted := by decide +kernel
  obtain ⟨consts, hconsts, hiff⟩ := names_unambiguous_iff hacc
  refine ⟨hacc, consts, hconsts, hiff.mpr ⟨by decide +kernel, pairwise_pair.mpr ⟨?_, ?_, ?_⟩⟩⟩
  · decide +kernel
  -- the first letters differ
  · rintro ⟨s, h, -⟩
    exact absurd (congrArg List.head? h) (by simp; decide +kernel)
  · rintro ⟨s, h, -⟩
    exact absurd (congrArg List.head? h) (by simp; decide +kernel)

/-- Two buffers whose names differ in case. -/
def caseBuffers : KeyMap ConfigBuffer :=
  ⟨[(bytesOf "Player", ⟨bytesOf "Body", 4⟩), (bytesOf "player", ⟨bytesOf "Body", 4⟩)], by decide⟩

/-- `S_PLAYER` and `S_PLAYER_POS` are defined for both of them. -/
theorem player_case_clashes :
    (posConfig caseBuffers).Accepted
      ∧ ∃ consts, computeCartState asciiUpper (posConfig caseBuffers) = .ok consts
        ∧ ¬(consts.map Prod.fst).Nodup := by
  exact ⟨by decide +kernel, [(bytesOf "PLAYER", 1), (bytesOf "PLAYER_POS", 0x10001),
    (bytesOf "PLAYER", 2), (bytesOf "PLAYER_POS", 0x20001)], by decide +kernel, by decide +kernel⟩

end Blyt
