import Blyt.ResourceFile

/-!
# Resources, packed and unpacked

`encode_resource` of the devtool (`build/resource_pack.rs`) writes a resource section,
`blyt_res_header_parse` and `blyt_res_decode` of `runtime/shared/blyt_resource_codec.c` read
it. The encoder keeps what zstd makes of the bytes only if that saves more than 5 %.
-/

namespace Blyt

open List

/-- Compression may fail; decompression is into a buffer of the given size. -/
structure Zstd where
  compress : List UInt8 → Option (List UInt8)
  decompress : List UInt8 → Nat → Option (List UInt8)
  inverts : ∀ raw c, compress raw = some c → decompress c raw.length = some raw

def encodeResource (z : Zstd) (raw : List UInt8) : List UInt8 :=
  let compressed := if raw = [] then none else z.compress raw
  let (algo, body) :=
    match compressed with
    | some c => if c.length * 100 < raw.length * 95 then (resAlgoZstd, c) else (resAlgoNone, raw)
    | none => (resAlgoNone, raw)
  [UInt8.ofNat algo, 0, 0, 0] ++ (leBytes 4 (u32 raw.length) ++ body)

def resDecode (z : Zstd) (algo : Nat) (body : List UInt8) (outLen : Nat) : Option (List UInt8) :=
  if algo = resAlgoNone then if body.length ≠ outLen then none else some body
  else if algo = resAlgoZstd then (z.decompress body outLen).filter fun out => out.length = outLen
  else none

variable {f : Image} {s : ResSection} {algo n : Nat} {body : List UInt8}

theorem resHeaderParse_packed (halgo : algo = resAlgoNone ∨ algo = resAlgoZstd) (hn : n < 2 ^ 32)
    (h : f.slice s.off s.size = [UInt8.ofNat algo, 0, 0, 0] ++ (leBytes 4 n ++ body)) :
    resHeaderParse f s = some ⟨algo, n, s.off + resHeaderLen, body.length⟩
      ∧ f.slice (s.off + resHeaderLen) body.length = body := by
  have hsize : s.size = body.length + 8 := by
    have hlen := congrArg length h
    simp only [Image.slice, length_map, length_range, length_append, length_cons, length_nil,
      length_leBytes] at hlen
    omega
  rw [hsize] at h
  have hdrop := fun k => (slice_drop f s.off (body.length + 8) k).symm.trans (congrArg (drop k) h)
  have hfirst : (f.byte s.off).toNat = algo := by
    have hhead : f.byte (s.off + 0) = UInt8.ofNat algo := by
      rw [Image.slice, range_succ_eq_map, map_cons] at h
      exact (cons.inj h).1
    rcases halgo with rfl | rfl <;> rw [Nat.add_zero] at hhead <;> rw [hhead] <;> rfl
  have hword : f.le32 (s.off + 4) = n := by
    have htake : f.slice (s.off + 4) 4 = leBytes 4 n := by
      have := congrArg (take 4) (hdrop 4)
      rwa [Image.slice, ← map_take, take_range, min_eq_left (by omega)] at this
    calc f.le32 (s.off + 4) = leNat (f.slice (s.off + 4) 4) := by
          show _ = leNat [f.byte (s.off + 4), f.byte _, f.byte _, f.byte _]
          simp only [Image.le32, read32, leNat]
          omega
      _ = n := by rw [htake, leNat_leBytes (by simpa using hn)]
  refine ⟨?_, hdrop 8⟩
  rw [resHeaderParse, hsize, hfirst, hword, if_neg (by simp [resHeaderLen]), if_neg (by tauto)]
  rfl

/-- **A packed resource comes back.** -/
theorem encodeResource_roundTrip (z : Zstd) {raw : List UInt8} (hlen : raw.length < 2 ^ 32)
    (h : f.slice s.off s.size = encodeResource z raw) :
    ∃ hdr, resHeaderParse f s = some hdr ∧ hdr.dsize = raw.length ∧ hdr.bodyLen ≤ raw.length
      ∧ resDecode z hdr.algo (f.slice hdr.body hdr.bodyLen) hdr.dsize = some raw := by
  have hpick : ∃ algo body, encodeResource z raw
        = [UInt8.ofNat algo, 0, 0, 0] ++ (leBytes 4 raw.length ++ body)
      ∧ (algo = resAlgoNone ∧ body = raw ∨ algo = resAlgoZstd ∧ body.length ≤ raw.length
        ∧ z.decompress body raw.length = some raw) := by
    unfold encodeResource
    rw [u32_of_lt hlen]
    by_cases hraw : raw = []
    · exact ⟨resAlgoNone, raw, by simp [hraw], .inl ⟨rfl, rfl⟩⟩
    rw [if_neg hraw]
    cases hc : z.compress raw with
    | none => exact ⟨resAlgoNone, raw, rfl, .inl ⟨rfl, rfl⟩⟩
    | some c =>
      by_cases hsmall : c.length * 100 < raw.length * 95
      · exact ⟨resAlgoZstd, c, by simp [hsmall], .inr ⟨rfl, by omega, z.inverts raw c hc⟩⟩
      · exact ⟨resAlgoNone, raw, by simp [hsmall], .inl ⟨rfl, rfl⟩⟩
  obtain ⟨algo, body, henc, hcase⟩ := hpick
  obtain ⟨hparse, hbody⟩ := resHeaderParse_packed (by tauto) hlen (h.trans henc)
  refine ⟨_, hparse, rfl, ?_, ?_⟩
  · rcases hcase with ⟨-, rfl⟩ | ⟨-, hle, -⟩
    · exact le_rfl
    · exact hle
  · rw [hbody]
    rcases hcase with ⟨rfl, rfl⟩ | ⟨rfl, -, hz⟩
    · simp [resDecode]
    · simp [resDecode, hz, resAlgoZstd, resAlgoNone]

/-- Packs a run of one byte. -/
def demoZstd : Zstd where
  compress raw := raw.head?.bind fun b =>
    if raw = replicate raw.length b then some (runFrame raw.length b) else none
  decompress := decodeRun
  inverts raw c h := by
    obtain ⟨b, -, h⟩ := Option.bind_eq_some_iff.mp h
    split at h <;> cases h
    rename_i hraw
    rw [decodeRun, show (runFrame raw.length b).getLast? = some b from getLast?_concat,
      Option.bind_some, if_pos rfl, ← hraw]

def demoPacked : Image :=
  ⟨21, fun x => ([1, 0, 0, 0, 40, 0, 0, 0] ++ runFrame 40 5).getD x 0⟩

theorem encodeResource_roundTrip_demo :
    ∃ hdr, resHeaderParse demoPacked ⟨7, 0, 21⟩ = some hdr ∧ hdr.dsize = 40 ∧ hdr.bodyLen ≤ 40
      ∧ resDecode demoZstd hdr.algo (demoPacked.slice hdr.body hdr.bodyLen) hdr.dsize
        = some (replicate 40 5) :=
  encodeResource_roundTrip demoZstd
    (show (replicate 40 (5 : UInt8)).length < 2 ^ 32 by decide) (by decide)

end Blyt
