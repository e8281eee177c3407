import Mathlib.Data.Nat.Digits.Defs
import Blyt.CartNames
import Blyt.ByteMem

/-!
# Documents in pieces

`handle_qXfer_exec_file` and `handle_qXfer_libraries` of
`runtime/host/src/gdb/gdb_stub.c`: the client asks for a document by offset and length,
both as hexadecimal text, and gets a piece with a mark, `m` for more or `l` for the last.
The two handlers build different documents and cut them alike (`xferReply`).

`fetch` is a client that asks from where it has got to; it gets the payload that the
handler hands to the transport. Texts are C strings: lists of bytes other than 0. `strtoul`
and `snprintf` are modelled as the C standard has them.
-/

namespace Blyt

open List Option

/-! ## Numbers as text -/

def hexDigit (d : Nat) : UInt8 := UInt8.ofNat (if d < 10 then 48 + d else 87 + d)

/-- What `%x` prints. -/
def hexText (n : Nat) : List UInt8 :=
  if n = 0 then [48] else ((Nat.digits 16 n).map hexDigit).reverse

def fromHex (c : UInt8) : Option Nat :=
  if 48 ≤ c ∧ c ≤ 57 then some (c.toNat - 48)
  else if 97 ≤ c ∧ c ≤ 102 then some (c.toNat - 87)
  else if 65 ≤ c ∧ c ≤ 70 then some (c.toNat - 55)
  else none

def isXDigit (c : UInt8) : Bool := (fromHex c).isSome

/-- `isspace` of the C locale. -/
def isSpace (c : UInt8) : Bool := c == 32 || (9 ≤ c && c ≤ 13)

/-- `ULONG_MAX`; `long` is wide on the native hosts and narrow under Emscripten. -/
def ulongMax (wide : Bool) : Nat := if wide then 2 ^ 64 - 1 else 2 ^ 32 - 1

def skipSign : List UInt8 → Bool × List UInt8
  | 43 :: s => (false, s)
  | 45 :: s => (true, s)
  | s => (false, s)

/-- An optional `0x`, if a digit follows. -/
def skip0x : List UInt8 → List UInt8
  | 48 :: x :: d :: s =>
    if (x = 120 ∨ x = 88) ∧ isXDigit d then d :: s else 48 :: x :: d :: s
  | s => s

def hexValue (ds : List UInt8) : Nat := ds.foldl (fun v c => v * 16 + (fromHex c).getD 0) 0

/-- `strtoul(s, &end, 16)`: the value and what is left at `end`. -/
def strtoul16 (wide : Bool) (s : List UInt8) : Nat × List UInt8 :=
  let signed := skipSign (s.dropWhile isSpace)
  let t := skip0x signed.2
  let v := hexValue (t.takeWhile isXDigit)
  if (t.takeWhile isXDigit) = [] then (0, s)
  else
    (if ulongMax wide < v then ulongMax wide
      else if signed.1 then (ulongMax wide + 1 - v) % (ulongMax wide + 1) else v,
      t.dropWhile isXDigit)

/-! ## The handlers -/

/-- `MAX_PACKET`. -/
def maxPacket : Nat := 2 ^ 16

structure GdbLibrary where
  path : List UInt8
  lAddr : Nat
  lLd : Nat
  deriving DecidableEq, Repr

structure GdbLayout where
  execPath : Option (List UInt8)
  libraries : List GdbLibrary
  deriving DecidableEq, Repr

/-- The part of `gdb_state_t` that the handlers work on. -/
structure XferState where
  layout : GdbLayout
  libFetchGen : Nat
  deriving DecidableEq, Repr

/-- Offset and length from `annex:offset,length`. -/
def xferArgs (wide : Bool) (args : List UInt8) : Option (Nat × Nat) :=
  match args.dropWhile (· ≠ 58) with
  | [] => none
  | _ :: p =>
    let off := strtoul16 wide p
    let rest := if off.2.head? = some 44 then off.2.tail else off.2
    some (u32 off.1, u32 (strtoul16 wide rest).1)

/-- The piece of a document, in a buffer of `cap` bytes. -/
def xferReply (doc : List UInt8) (cap off len : Nat) : List UInt8 :=
  let total := u32 doc.length
  if total ≤ off then bytesOf "l"
  else
    let avail := u32 (doc.length - off)
    let len := if avail < len then avail else len
    let mark : UInt8 := if total ≤ u32 (off + len) then 108 else 109
    if cap < len + 2 then bytesOf "E02" else mark :: (doc.drop off).take len

def handleQXferExecFile (wide : Bool) (s : XferState) (args : List UInt8) :
    XferState × Option (List UInt8) :=
  match xferArgs wide args with
  | none => (s, some (bytesOf "E01"))
  | some (off, len) => (s, some (xferReply (s.layout.execPath.getD []) maxPacket off len))

def libraryXml (lib : GdbLibrary) : List UInt8 :=
  bytesOf "<library name=\"" ++ lib.path ++ bytesOf "\" lm=\"0x" ++ hexText lib.lAddr
    ++ bytesOf "\" l_addr=\"0x" ++ hexText lib.lAddr ++ bytesOf "\" l_ld=\"0x" ++ hexText lib.lLd
    ++ bytesOf "\" lmid=\"0x0\"/>"

def libraryListXml (libs : List GdbLibrary) : List UInt8 :=
  bytesOf "<library-list-svr4 version=\"1.0\" main-lm=\"0x0\">" ++ libs.flatMap libraryXml
    ++ bytesOf "</library-list-svr4>"

/-- `sizeof xml`. -/
def xmlSize : Nat := 8192

/-- No reply: the document does not fit, and the source writes or reads past its
buffer. -/
def handleQXferLibraries (wide : Bool) (s : XferState) (args : List UInt8) :
    XferState × Option (List UInt8) :=
  match xferArgs wide args with
  | none => (s, some (bytesOf "E01"))
  | some (off, len) =>
    let doc := libraryListXml s.layout.libraries
    (if off = 0 then { s with libFetchGen := u32 (s.libFetchGen + 1) } else s,
      if doc.length < xmlSize then some (xferReply doc maxPacket off len) else none)

/-! ## The client -/

inductive Transfer
  /-- The last piece has come; these lengths are left over. -/
  | final (doc : List UInt8) (left : List Nat)
  | more (got : List UInt8)
  | failed
  deriving DecidableEq, Repr

def xferRequest (annex : List UInt8) (off len : Nat) : List UInt8 :=
  annex ++ 58 :: (hexText off ++ 44 :: hexText len)

/-- Ask for one piece after the other, until one is marked as the last. -/
def fetch (serve : XferState → List UInt8 → XferState × Option (List UInt8))
    (annex : List UInt8) : XferState → List UInt8 → List Nat → Transfer
  | _, got, [] => .more got
  | s, got, len :: lens =>
    match serve s (xferRequest annex got.length len) with
    | (_, some (108 :: bs)) => .final (got ++ bs) lens
    | (s', some (109 :: bs)) => fetch serve annex s' (got ++ bs) lens
    | _ => .failed

/-! ## Reading the request -/

theorem fromHex_hexDigit {d : Nat} (h : d < 16) : fromHex (hexDigit d) = some d := by
  interval_cases d <;> decide

theorem hexText_ne_nil (n : Nat) : hexText n ≠ [] := by
  rw [hexText]
  split
  · exact cons_ne_nil _ _
  next h => simpa [Nat.digits_eq_nil_iff_eq_zero] using h

variable {n : Nat} {c : UInt8} {annex : List UInt8}

theorem hexText_digits (hc : c ∈ hexText n) : isXDigit c = true := by
  rw [hexText] at hc
  split at hc
  · rw [mem_singleton.mp hc]
    decide
  · obtain ⟨d, hd, rfl⟩ := List.mem_map.mp (mem_reverse.mp hc)
    rw [isXDigit, fromHex_hexDigit (Nat.digits_lt_base (by decide) hd)]
    rfl

theorem hexValue_hexText (n : Nat) : hexValue (hexText n) = n := by
  rw [hexText]
  split
  next h =>
    rw [h]
    decide
  next =>
    -- the digits are printed from the last one on
    have hfold : ∀ ds : List Nat, (∀ d ∈ ds, d < 16) →
        hexValue ((ds.map hexDigit).reverse) = Nat.ofDigits 16 ds := by
      intro ds hds
      induction ds with
      | nil => rfl
      | cons d ds ih =>
        have hd := hds d mem_cons_self
        rw [map_cons, reverse_cons, hexValue, foldl_append, foldl_cons,
          foldl_nil, fromHex_hexDigit hd, getD_some, Nat.ofDigits_cons,
          ← ih fun e he => hds e (mem_cons_of_mem _ he), hexValue]
        omega
    rw [hfold _ fun d hd => Nat.digits_lt_base (by decide) hd, Nat.ofDigits_digits]

theorem not_isSpace (hc : isXDigit c = true) : isSpace c = false := by
  by_contra hne
  have hspace : c = 32 ∨ 9 ≤ c ∧ c ≤ 13 := by
    simpa [isSpace, or_iff_not_imp_left] using hne
  have hnone : fromHex c = none := by
    rcases hspace with rfl | ⟨h1, h2⟩
    · decide
    · have h2 : c.toNat ≤ 13 := h2
      have hbelow : ∀ b : UInt8, 13 < b.toNat → ¬b ≤ c := fun b hb hle => by
        have hle : b.toNat ≤ c.toNat := hle
        omega
      rw [fromHex, if_neg fun h => hbelow 48 (by decide) h.1,
        if_neg fun h => hbelow 97 (by decide) h.1, if_neg fun h => hbelow 65 (by decide) h.1]
  rw [isXDigit, hnone] at hc
  cases hc

theorem skipSign_digit (hc : isXDigit c = true) (s : List UInt8) :
    skipSign (c :: s) = (false, c :: s) := by
  unfold skipSign
  split
  next h =>
    rw [(cons.inj h).1] at hc
    exact absurd hc (by decide)
  next h =>
    rw [(cons.inj h).1] at hc
    exact absurd hc (by decide)
  next => rfl

theorem skip0x_eq {s : List UInt8} (h : ∀ x, s[1]? = some x → x ≠ 120 ∧ x ≠ 88) : skip0x s = s := by
  unfold skip0x
  split
  next x d t =>
    obtain ⟨h1, h2⟩ := h x rfl
    rw [if_neg (by rintro ⟨h | h, -⟩ <;> contradiction)]
  next => rfl

variable (wide : Bool)

/-- A number is read back, up to what follows it. -/
theorem strtoul16_hexText (hn : n < 2 ^ 32) (rest : List UInt8)
    (hrest : ∀ c ∈ rest.head?, c = 44) : strtoul16 wide (hexText n ++ rest) = (n, rest) := by
  have hstop : ∀ c ∈ rest.head?, ¬isXDigit c = true := fun c hc => by
    rw [hrest c hc]
    decide
  obtain ⟨c, cs, htext⟩ := exists_cons_of_ne_nil (hexText_ne_nil n)
  have hdig := hexText_digits (htext ▸ mem_cons_self)
  have hskip : skip0x (hexText n ++ rest) = hexText n ++ rest := by
    refine skip0x_eq fun x hx => ?_
    have hx' : isXDigit x = true ∨ x = 44 := by
      rw [htext] at hx
      cases cs with
      | nil => exact .inr (hrest x (by simpa [head?_eq_getElem?] using hx))
      | cons =>
        obtain rfl := some.inj hx
        exact .inl (hexText_digits (htext ▸ mem_cons_of_mem _ mem_cons_self))
    rcases hx' with hx' | rfl
    · constructor <;> rintro rfl <;> exact absurd hx' (by decide)
    · decide
  have htake : (hexText n ++ rest).takeWhile isXDigit = hexText n := by
    rw [takeWhile_append_of_pos fun c hc => hexText_digits hc]
    cases rest with
    | nil => rw [takeWhile_nil, append_nil]
    | cons r => rw [takeWhile_cons_of_neg (hstop r rfl), append_nil]
  have hdrop : (hexText n ++ rest).dropWhile isXDigit = rest := by
    rw [dropWhile_append_of_pos fun c hc => hexText_digits hc]
    cases rest with
    | nil => rfl
    | cons r => rw [dropWhile_cons_of_neg (hstop r rfl)]
  have hspace : (hexText n ++ rest).dropWhile isSpace = hexText n ++ rest := by
    rw [htext, cons_append, dropWhile_cons_of_neg]
    rw [not_isSpace hdig]
    exact Bool.false_ne_true
  have hsign : skipSign (hexText n ++ rest) = (false, hexText n ++ rest) := by
    rw [htext]
    exact skipSign_digit hdig _
  have hmax : ¬ulongMax wide < n := by
    unfold ulongMax
    split <;> omega
  rw [strtoul16, hspace, hsign]
  simp only [hskip, htake, hdrop, hexValue_hexText]
  rw [if_neg (hexText_ne_nil n), if_neg hmax, if_neg Bool.false_ne_true]

theorem xferArgs_request {wide : Bool} (hannex : 58 ∉ annex) {off len : Nat} (hoff : off < 2 ^ 32)
    (hlen : len < 2 ^ 32) : xferArgs wide (xferRequest annex off len) = some (off, len) := by
  have hcolon : (xferRequest annex off len).dropWhile (· ≠ 58)
      = 58 :: (hexText off ++ 44 :: hexText len) := by
    rw [xferRequest, dropWhile_append_of_pos fun c hc => ?_]
    · exact dropWhile_cons_of_neg (by decide)
    · exact decide_eq_true fun heq => hannex (heq ▸ hc)
  have hnum : strtoul16 wide (hexText len) = (len, []) := by
    have hread := strtoul16_hexText wide hlen [] nofun
    rwa [append_nil] at hread
  rw [xferArgs, hcolon]
  have hread := strtoul16_hexText wide hoff (44 :: hexText len) fun c hc => (some.inj hc).symm
  simp [hread, hnum, u32_of_lt hoff, u32_of_lt hlen]

/-! ## Reassembly -/

/-- The handler answers every request for this document with the piece of it, as long as the
layout stays. -/
def Serves (serve : XferState → List UInt8 → XferState × Option (List UInt8))
    (annex : List UInt8) (layout : GdbLayout) (doc : List UInt8) : Prop :=
  ∀ s off len, s.layout = layout → off < 2 ^ 32 → len < 2 ^ 32 →
    ∃ s', s'.layout = layout
      ∧ serve s (xferRequest annex off len) = (s', some (xferReply doc maxPacket off len))

section Fetch

variable {serve : XferState → List UInt8 → XferState × Option (List UInt8)} {annex : List UInt8}
  {layout : GdbLayout} {doc : List UInt8} {cap off len : Nat}

theorem xferReply_more (hdoc : doc.length < 2 ^ 32) (hcap : len + 2 ≤ cap)
    (h : off + len < doc.length) : xferReply doc cap off len = 109 :: (doc.drop off).take len := by
  simp only [xferReply]
  rw [u32_of_lt hdoc, u32_of_lt (by omega),
    if_neg (by omega), if_neg (by omega : ¬doc.length - off < len),
    u32_of_lt (by omega), if_neg (by omega), if_neg (by omega)]

theorem xferReply_last (hdoc : doc.length < 2 ^ 32) (hcap : len + 2 ≤ cap)
    (h : doc.length ≤ off + len) : xferReply doc cap off len = 108 :: doc.drop off := by
  simp only [xferReply]
  rw [u32_of_lt hdoc]
  by_cases hoff : doc.length ≤ off
  · rw [if_pos hoff, drop_eq_nil_of_le hoff]
    rfl
  · rw [u32_of_lt (by omega), if_neg hoff]
    have hlen : (if doc.length - off < len then doc.length - off else len)
        = doc.length - off := by split <;> omega
    have hall : (doc.drop off).take (doc.length - off) = doc.drop off :=
      take_of_length_le (by rw [length_drop])
    rw [hlen, Nat.add_sub_cancel' (by omega), u32_of_lt hdoc, if_pos le_rfl, if_neg (by omega),
      hall]

variable (hserve : Serves serve annex layout doc) (hdoc : doc.length < 2 ^ 32) {s : XferState}
  (hs : s.layout = layout)

include hserve hdoc hs

/-- A piece that is not the last. -/
theorem fetch_step (hlen : len + 2 ≤ maxPacket) (off : Nat)
    (h : off + len < doc.length) (lens : List Nat) :
    ∃ s', s'.layout = layout ∧ fetch serve annex s (doc.take off) (len :: lens)
      = fetch serve annex s' (doc.take (off + len)) lens := by
  have hsmall : len < 2 ^ 32 := by unfold maxPacket at hlen; omega
  have hgot : (doc.take off).length = off := length_take_of_le (by omega)
  obtain ⟨s', hs', hreply⟩ := hserve s off len hs (by omega) hsmall
  rw [xferReply_more hdoc hlen h] at hreply
  refine ⟨s', hs', ?_⟩
  rewrite [fetch, hgot, hreply, take_add]
  rfl

theorem fetch_more {lens : List Nat} (hlens : ∀ len ∈ lens, len + 2 ≤ maxPacket) (off : Nat)
    (h : off + lens.sum < doc.length) :
    fetch serve annex s (doc.take off) lens = .more (doc.take (off + lens.sum)) := by
  induction lens generalizing s off with
  | nil => rfl
  | cons len lens ih =>
    rw [sum_cons, ← Nat.add_assoc] at h ⊢
    obtain ⟨s', hs', hstep⟩ := fetch_step hserve hdoc hs (hlens len mem_cons_self)
      off (by omega) lens
    rw [hstep, ih hs' (fun l hl => hlens l (mem_cons_of_mem _ hl)) (off + len) h]

theorem fetch_final {pre : List Nat} (hpre : ∀ l ∈ pre, l + 2 ≤ maxPacket)
    (hlen : len + 2 ≤ maxPacket) (post : List Nat) (off : Nat) (hoff : off ≤ doc.length)
    (hmore : pre = [] ∨ off + pre.sum < doc.length) (hlast : doc.length ≤ off + pre.sum + len) :
    fetch serve annex s (doc.take off) (pre ++ len :: post) = .final doc post := by
  induction pre generalizing s off with
  | nil =>
    have hsmall : len < 2 ^ 32 := by unfold maxPacket at hlen; omega
    have hgot := length_take_of_le hoff
    obtain ⟨s', -, hreply⟩ := hserve s off len hs (by omega) hsmall
    rw [xferReply_last hdoc hlen (by simpa using hlast)] at hreply
    rw [nil_append, fetch, hgot, hreply]
    simp
  | cons l pre ih =>
    have hmore := hmore.resolve_left (cons_ne_nil _ _)
    rw [sum_cons, ← Nat.add_assoc] at hmore hlast
    obtain ⟨s', hs', hstep⟩ := fetch_step hserve hdoc hs (hpre l mem_cons_self)
      off (by omega) (pre ++ len :: post)
    rw [cons_append, hstep]
    exact ih hs' (fun l hl => hpre l (mem_cons_of_mem _ hl)) (off + l) (by omega) (.inr hmore) hlast

end Fetch

theorem execFile_serves (hannex : 58 ∉ annex) (layout : GdbLayout) :
    Serves (handleQXferExecFile wide) annex layout (layout.execPath.getD []) := by
  intro s off len hs hoff hlen
  refine ⟨s, hs, ?_⟩
  rw [handleQXferExecFile, xferArgs_request hannex hoff hlen, hs]

theorem libraries_serves (hannex : 58 ∉ annex)
    {layout : GdbLayout} (hfits : (libraryListXml layout.libraries).length < xmlSize) :
    Serves (handleQXferLibraries wide) annex layout (libraryListXml layout.libraries) := by
  intro s off len hs hoff hlen
  have hreply : handleQXferLibraries wide s (xferRequest annex off len)
      = (if off = 0 then { s with libFetchGen := u32 (s.libFetchGen + 1) } else s,
        some (xferReply (libraryListXml layout.libraries) maxPacket off len)) := by
    rw [handleQXferLibraries, xferArgs_request hannex hoff hlen]
    simp only [hs, if_pos hfits]
  refine ⟨_, ?_, hreply⟩
  split <;> exact hs

/-- However the lengths are chosen: as long as the pieces do not reach the end they are
marked `m` and add up to the beginning of the document; the piece that reaches the end is
marked `l`, and then all of it is there. -/
def Reassembles (serve : XferState → List UInt8 → XferState × Option (List UInt8))
    (s : XferState) (annex doc : List UInt8) : Prop :=
  ∀ lens : List Nat, (∀ len ∈ lens, 1 ≤ len ∧ len ≤ maxPacket - 2) →
    (lens.sum < doc.length → fetch serve annex s [] lens = .more (doc.take lens.sum))
      ∧ ∀ pre len post, lens = pre ++ len :: post → (pre = [] ∨ pre.sum < doc.length) →
        doc.length ≤ pre.sum + len → fetch serve annex s [] lens = .final doc post

theorem Serves.reassembles {serve : XferState → List UInt8 → XferState × Option (List UInt8)}
    {s : XferState} {doc : List UInt8} (hserve : Serves serve annex s.layout doc)
    (hdoc : doc.length < 2 ^ 32) : Reassembles serve s annex doc := by
  intro lens hlens
  have hcap : ∀ len ∈ lens, len + 2 ≤ maxPacket := fun len hl => by
    have := (hlens len hl).2
    unfold maxPacket at this ⊢
    omega
  refine ⟨fun h => ?_, fun pre len post heq hmore hlast => ?_⟩
  · have hfetch := fetch_more hserve hdoc rfl hcap 0 (by omega)
    rwa [Nat.zero_add] at hfetch
  · subst heq
    have hfetch := fetch_final hserve hdoc rfl (fun l hl => hcap l (mem_append_left _ hl))
      (hcap len (mem_append_right _ mem_cons_self)) post 0 (Nat.zero_le _)
      (by simpa using hmore) (by simpa using hlast)
    rwa [take_zero] at hfetch

/-- **Documents come over whole.** For every path (the session's buffer holds 4096 bytes) and
every library list whose XML fits the handler's buffer, and every choice of lengths, a client
that asks from where it has got to puts the document together exactly, and sees the final mark
on the piece that completes it and on no other. -/
theorem qXfer_reassembles (wide : Bool) (s : XferState) (annex : List UInt8) (hannex : 58 ∉ annex) :
    ((s.layout.execPath.getD []).length < 2 ^ 32 →
        Reassembles (handleQXferExecFile wide) s annex (s.layout.execPath.getD []))
      ∧ ((libraryListXml s.layout.libraries).length < xmlSize →
        Reassembles (handleQXferLibraries wide) s annex (libraryListXml s.layout.libraries)) := by
  refine ⟨(execFile_serves wide hannex s.layout).reassembles, fun h => ?_⟩
  refine (libraries_serves wide hannex h).reassembles (h.trans ?_)
  decide

def demoXfer : XferState :=
  ⟨⟨some (bytesOf "/carts/demo.blyt"), [⟨bytesOf "libblyt32.so", 0x3000000, 0x3001f00⟩]⟩, 0⟩

theorem qXfer_reassembles_demo :
    fetch (handleQXferExecFile true) (bytesOf "1") demoXfer [] [7, 4, 5, 9]
        = .final (bytesOf "/carts/demo.blyt") [9]
      ∧ fetch (handleQXferLibraries false) [] demoXfer [] [60, 60, 100]
        = .final (libraryListXml demoXfer.layout.libraries) [] := by
  have hpath := (qXfer_reassembles true demoXfer (bytesOf "1") (by decide)).1 (by decide)
  have hlibs := (qXfer_reassembles false demoXfer [] (by decide)).2 (by decide +kernel)
  exact ⟨(hpath [7, 4, 5, 9] (by decide)).2 [7, 4] 5 [9] rfl (by decide) (by decide),
    (hlibs [60, 60, 100] (by decide)).2 [60, 60] 100 [] rfl (by decide +kernel) (by decide +kernel)⟩

end Blyt
