import Mathlib.Tactic

/-!
# The hash of a frame

`blyt_frame_hash` of `runtime/shared/blyt_frame_hash.c`: FNV-1a over the bytes of a
framebuffer (or of a palette), by which the legs are compared frame by frame. A `NULL`
buffer hashes like one without bytes. Each turn of the loop can be undone, since the prime
is odd; so a difference in one byte is still there at the end (`frameHash_one_byte`).
-/

namespace Blyt

def fnvStep (h : UInt64) (pixel : UInt8) : UInt64 := (h ^^^ pixel.toUInt64) * 0x100000001b3

def frameHash (pixels : List UInt8) : UInt64 := pixels.foldl fnvStep 0xcbf29ce484222325

theorem mul_prime_inj {a b : UInt64} (h : a * 0x100000001b3 = b * 0x100000001b3) : a = b := by
  have hinv : (0x100000001b3 : UInt64) * 0xce965057aff6957b = 1 := by decide
  have hundo := congrArg (· * (0xce965057aff6957b : UInt64)) h
  simpa only [UInt64.mul_assoc, hinv, UInt64.mul_one] using hundo

theorem fnvStep_inj {h h' : UInt64} {p q : UInt8} (heq : fnvStep h p = fnvStep h' q) :
    h ^^^ p.toUInt64 = h' ^^^ q.toUInt64 := mul_prime_inj heq

theorem foldl_fnvStep_inj (pixels : List UInt8) {h h' : UInt64}
    (heq : pixels.foldl fnvStep h = pixels.foldl fnvStep h') : h = h' := by
  induction pixels generalizing h h' with
  | nil => exact heq
  | cons p pixels ih => exact (UInt64.xor_left_inj _).mp (fnvStep_inj (ih heq))

/-- **One byte.** Frames that differ in one byte at most have the same hash only if they are
the same. -/
theorem frameHash_one_byte (before after : List UInt8) (p q : UInt8) :
    frameHash (before ++ p :: after) = frameHash (before ++ q :: after) ↔ p = q := by
  refine ⟨fun h => ?_, fun h => h ▸ rfl⟩
  rw [frameHash, frameHash, List.foldl_append, List.foldl_append] at h
  have hstep := fnvStep_inj (foldl_fnvStep_inj after h)
  exact UInt8.toUInt64_inj.mp ((UInt64.xor_right_inj _).mp hstep)

end Blyt
