import Mathlib.Tactic

/-!
# Calls from native code back into Lua

`BLYT_LUA_OP_PCALL` in `bridge_lua_op` of `runtime/host/src/libblyt/cart_run.c`. Without a
debugger the host runs `lua_pcall` on the exchange thread. With one it parks the guest, the
trampoline of `cart_run_hostlua.c` drives the callback with `lua_resume` until it no longer
yields, and `blyt_session_finish_reverse_call` trims the stack and answers.

Lua itself is a parameter (`LuaApi`). What its manual says about the end of the two calls are
the hypotheses `PcallEnds` and `ResumeEnds`: a callback that fails leaves one error object
behind a `lua_pcall`, while `lua_resume` does not unwind the stack, so that anything may be in
sight below the error object. `SameEnd` is what is left of the equality.
-/

namespace Blyt

inductive LuaVal
  | nil
  | string (text : String)
  | other (id : Nat)
  deriving DecidableEq, Repr

/-- `LUA_ERRRUN`, `LUA_ERRMEM` and `LUA_ERRERR`. -/
inductive LuaError
  | run
  | mem
  | handler
  deriving DecidableEq, Repr

def LuaError.code : LuaError → Nat
  | run => 2
  | mem => 4
  | handler => 5

/-- How a callback ends. -/
inductive CallOutcome
  | returns (vals : List LuaVal)
  | fails (status : LuaError) (err : LuaVal)
  deriving DecidableEq, Repr

def CallOutcome.status : CallOutcome → Nat
  | returns _ => 0
  | fails status _ => status.code

/-- `LUA_YIELD`. -/
def luaYield : Nat := 1

theorem LuaError.code_ne (status : LuaError) : status.code ≠ 0 ∧ status.code ≠ luaYield := by
  cases status <;> decide

theorem LuaError.code_inj {status status' : LuaError} (h : status.code = status'.code) :
    status = status' := by
  revert h
  cases status <;> cases status' <;> decide

/-- The part of the guest that `blyt_session_save_call_frame` saves; `rest` are the
floating-point registers, the saved registers and the bridge's own fields. -/
structure CallFrame where
  regs : Nat → Nat
  pc : Nat
  rest : List Nat

/-- What the guest asks for; `nresults` is `none` for `LUA_MULTRET`. -/
structure ReverseCall where
  nargs : Nat
  nresults : Option Nat
  isProtected : Bool
  deriving DecidableEq, Repr

/-- What native code is given: the stack and its registers, or an error in its place. -/
inductive CallSeen
  | finished (stack : List LuaVal) (frame : CallFrame)
  | raised (err : LuaVal)

/-- `lua_settop`. -/
def luaSettop (stack : List LuaVal) (n : Nat) : List LuaVal :=
  stack.take n ++ List.replicate (n - stack.length) .nil

/-- The Lua library: a thread with its stack, and the calls the bridge makes on it. -/
structure LuaApi (τ : Type) where
  stack : τ → List LuaVal
  settop : τ → Nat → τ
  /-- arguments and results are counted; the status is returned -/
  pcall : τ → Nat → Option Nat → Nat × τ
  resume : τ → Nat → Nat × τ
  stack_settop : ∀ t n, stack (settop t n) = luaSettop (stack t) n

variable {τ : Type} (vm : LuaApi τ)

/-- The loop over `blyt_session_reverse_resume`: only the first resume passes the arguments. -/
inductive LuaApi.Driven : τ → Nat → Nat × τ → Prop
  | ends {t : τ} {nargs : Nat} : (vm.resume t nargs).1 ≠ luaYield →
    Driven t nargs (vm.resume t nargs)
  | yields {t : τ} {nargs : Nat} {r : Nat × τ} : (vm.resume t nargs).1 = luaYield →
    Driven (vm.resume t nargs).2 0 r → Driven t nargs r

namespace ReverseCall

variable (c : ReverseCall)

/-- The stack below the function. -/
def below (t : τ) : List LuaVal := (vm.stack t).take ((vm.stack t).length - c.nargs - 1)

/-- Results as `lua_pcall` leaves them. -/
def adjust (vals : List LuaVal) : List LuaVal :=
  match c.nresults with
  | none => vals
  | some n => luaSettop vals n

/-- The manual on `lua_pcall`: function and arguments give way to the results, in the number
asked for, or to the error object. -/
def PcallEnds (t : τ) (o : CallOutcome) : Prop :=
  (vm.pcall t c.nargs c.nresults).1 = o.status
    ∧ vm.stack (vm.pcall t c.nargs c.nresults).2 = c.below vm t ++
      match o with
      | .returns vals => c.adjust vals
      | .fails _ err => [err]

/-- The manual on the last `lua_resume`: all results are there; after an error the stack is not
unwound, and the error object is on top of what is `left`. -/
def ResumeEnds (t : τ) (r : Nat × τ) (o : CallOutcome) (left : List LuaVal) : Prop :=
  r.1 = o.status
    ∧ vm.stack r.2 =
      match o with
      | .returns vals => c.below vm t ++ vals
      | .fails _ err => left ++ [err]

/-- `blyt_session_restore_call_frame`; `x0` is not written. -/
def restore (now saved : CallFrame) : CallFrame :=
  { saved with regs := fun i => if i = 0 then now.regs 0 else saved.regs i }

/-- The end of both branches: `a0` is the status, `a1` and `a2` are zero. -/
def answer (frame : CallFrame) (status : Nat) : CallFrame :=
  { frame with
    regs := fun i => if i = 10 then status else if i = 11 ∨ i = 12 then 0 else frame.regs i
    pc := (frame.pc + 4) % 2 ^ 32 }

/-- The checks in front. `room` is the answer of `lua_checkstack`. -/
def rejected (t : τ) (room : Bool) : Option LuaVal :=
  if (vm.stack t).length < c.nargs + 1 then
    some (.string "blyt bridge: pcall bad argument count")
  else
    match c.nresults with
    | none => none
    | some n =>
      if 200 < n then some (.string "blyt bridge: pcall bad result count")
      else if room then none
      else some (.string "blyt bridge: pcall result stack overflow")

/-- `lua_pcall` with the frame saved around it; `now` is what the callback leaves there. -/
def synchronous (t : τ) (saved now : CallFrame) : CallSeen :=
  let r := vm.pcall t c.nargs c.nresults
  if r.1 ≠ 0 ∧ !c.isProtected then .raised ((vm.stack r.2).getLastD .nil)
  else .finished (vm.stack r.2) (answer (restore now saved) r.1)

/-- `blyt_session_finish_reverse_call`, with what the last resume has left. -/
def finish (t : τ) (saved now : CallFrame) (r : Nat × τ) : CallSeen :=
  if r.1 ≠ 0 ∧ r.1 ≠ luaYield ∧ !c.isProtected then .raised ((vm.stack r.2).getLastD .nil)
  else
    let ex :=
      match c.nresults with
      | none => r.2
      | some n => vm.settop r.2 ((c.below vm t).length + n)
    .finished (vm.stack ex) (answer (restore now saved) r.1)

/-- The operation; `deferred` is there if `dap_enabled` of the hook is set: what driving the
callback has come to. -/
def pcallOp (deferred : Option (Nat × τ)) (t : τ) (room : Bool) (saved now : CallFrame) :
    CallSeen :=
  match c.rejected vm t room with
  | some msg => .raised msg
  | none => deferred.elim (c.synchronous vm t saved now) (c.finish vm t saved now)

/-- The error object `err'` on top of `left`, trimmed to one result, is `err` on top of `below`:
nothing else was left, or the error was left a second time in just that place, or it is `nil`
and so is what `below` ends with. -/
def Survives (below : List LuaVal) (err : LuaVal) (left : List LuaVal) (err' : LuaVal) : Prop :=
  left = below ∧ err' = err ∨ below ++ [err] <+: left
    ∨ err = .nil ∧ ∃ k, below = left ++ err' :: List.replicate k .nil

/-- The callback ends a synchronous call and a deferred one alike: with the same results, as
far as they are asked for; with the same error, in an unprotected call; with the same status
and the error in its place, in a protected one, which must ask for one result or for all. -/
def SameEnd (below left : List LuaVal) : CallOutcome → CallOutcome → Prop
  | .returns vals, .returns vals' => c.adjust vals = c.adjust vals'
  | .fails status err, .fails status' err' =>
    if c.isProtected then
      status = status' ∧
        match c.nresults with
        | none => left = below ∧ err' = err
        | some n => n = 1 ∧ Survives below err left err'
    else err = err'
  | _, _ => False

variable {vm} {c} {t : τ} {saved now : CallFrame} {o o' : CallOutcome} {r : Nat × τ}
  {left : List LuaVal}

theorem luaSettop_append (xs vals : List LuaVal) (n : Nat) :
    luaSettop (xs ++ vals) (xs.length + n) = xs ++ luaSettop vals n := by
  simp only [luaSettop, List.take_append, List.length_append, List.append_assoc]
  rw [List.take_of_length_le (by omega), Nat.add_sub_cancel_left, Nat.add_sub_add_left]

theorem luaSettop_length (xs : List LuaVal) (n : Nat) : (luaSettop xs n).length = n := by
  simp only [luaSettop, List.length_append, List.length_take, List.length_replicate]
  omega

theorem concat_iff {xs ys : List LuaVal} {a b : LuaVal} :
    xs ++ [a] = ys ++ [b] ↔ xs = ys ∧ a = b := by
  rw [← List.concat_eq_append, ← List.concat_eq_append, List.concat_inj]

/-- When trimming a failed callback's stack leaves what `lua_pcall` would. -/
theorem trim_error_iff {below left : List LuaVal} {err err' : LuaVal} {n : Nat} :
    luaSettop (left ++ [err']) (below.length + n) = below ++ [err]
      ↔ n = 1 ∧ Survives below err left err' := by
  have hone : luaSettop (left ++ [err']) (below.length + n) = below ++ [err] → n = 1 := by
    intro h
    have := congrArg List.length h
    rw [luaSettop_length, List.length_append, List.length_singleton] at this
    omega
  rw [← and_iff_right_of_imp hone]
  refine and_congr_right ?_
  rintro rfl
  have hlen : below ++ [err] <+: left → below.length < left.length := fun h => by
    simpa using h.length_le
  rcases lt_trichotomy left.length below.length with hlt | heq | hgt
  · -- filled up with `nil`
    obtain ⟨k, hk⟩ := Nat.exists_eq_add_of_lt hlt
    have hset : luaSettop (left ++ [err']) (below.length + 1)
        = (left ++ err' :: List.replicate k .nil) ++ [.nil] := by
      rw [luaSettop, List.take_of_length_le (by simp; omega), List.length_append,
        List.length_singleton, show below.length + 1 - (left.length + 1) = k + 1 by omega,
        List.replicate_succ']
      simp
    rw [hset, concat_iff]
    constructor
    · rintro ⟨hbelow, rfl⟩
      exact .inr (.inr ⟨rfl, k, hbelow.symm⟩)
    · rintro (⟨rfl, -⟩ | hpre | ⟨rfl, k', rfl⟩)
      · omega
      · have := hlen hpre
        omega
      · simp only [List.length_append, List.length_cons, List.length_replicate] at hk
        obtain rfl : k' = k := by omega
        exact ⟨rfl, rfl⟩
  · have hset : luaSettop (left ++ [err']) (below.length + 1) = left ++ [err'] := by
      simp [luaSettop, ← heq]
    rw [hset, concat_iff]
    refine ⟨.inl, ?_⟩
    rintro (h | hpre | ⟨-, k, rfl⟩)
    · exact h
    · exact absurd heq.symm (hlen hpre).ne
    · rw [List.length_append, List.length_cons] at heq
      omega
  · have hset : luaSettop (left ++ [err']) (below.length + 1) = left.take (below.length + 1) := by
      rw [luaSettop, List.take_append_of_le_length hgt, List.length_append,
        Nat.sub_eq_zero_of_le (by omega), List.replicate_zero, List.append_nil]
    rw [hset]
    constructor
    · intro h
      exact .inr (.inl (h ▸ List.take_prefix ..))
    · rintro (⟨rfl, -⟩ | hpre | ⟨-, k, rfl⟩)
      · omega
      · exact (List.length_append ▸ List.prefix_iff_eq_take.mp hpre).symm
      · rw [List.length_append] at hgt
        omega

theorem answer_code {frame : CallFrame} {m n : Nat} (h : answer frame m = answer frame n) :
    m = n := congrFun (congrArg CallFrame.regs h) 10

theorem synchronous_eq (h : c.PcallEnds vm t o) : c.synchronous vm t saved now =
    match o with
    | .returns vals => .finished (c.below vm t ++ c.adjust vals) (answer (restore now saved) 0)
    | .fails status err =>
      if c.isProtected then
        .finished (c.below vm t ++ [err]) (answer (restore now saved) status.code)
      else .raised err := by
  obtain ⟨hstatus, hstack⟩ := h
  cases o with
  | returns => simp [synchronous, hstatus, hstack, CallOutcome.status]
  | fails status =>
    cases hp : c.isProtected with
    | true | false =>
      simp [synchronous, hstatus, hstack, hp, CallOutcome.status, status.code_ne.1]

theorem finish_eq (h : c.ResumeEnds vm t r o left) : c.finish vm t saved now r =
    match o with
    | .returns vals => .finished (c.below vm t ++ c.adjust vals) (answer (restore now saved) 0)
    | .fails status err =>
      if c.isProtected then
        .finished (match c.nresults with
          | none => left ++ [err]
          | some n => luaSettop (left ++ [err]) ((c.below vm t).length + n))
          (answer (restore now saved) status.code)
      else .raised err := by
  obtain ⟨hstatus, hstack⟩ := h
  cases o with
  | returns vals =>
    cases hn : c.nresults with
    | none => simp [finish, hstatus, hstack, hn, adjust, CallOutcome.status]
    | some n =>
      simp [finish, hstatus, hstack, hn, adjust, CallOutcome.status, vm.stack_settop,
        luaSettop_append]
  | fails status err =>
    obtain ⟨hne, hyield⟩ := status.code_ne
    cases hp : c.isProtected with
    | false => simp [finish, hstatus, hstack, hp, CallOutcome.status, hne, hyield]
    | true =>
      cases hn : c.nresults with
      | none | some =>
        simp [finish, hstatus, hstack, hn, hp, CallOutcome.status, vm.stack_settop]

/-- **When a deferred call is like a synchronous one.** `o` is how the callback ends under
`lua_pcall`, and `o'` how it ends once the trampoline has driven it through its yields. -/
theorem deferred_eq_iff (vm : LuaApi τ) (c : ReverseCall) (t : τ) (room : Bool)
    (saved now : CallFrame) {o o' : CallOutcome} {left : List LuaVal}
    (hpcall : c.PcallEnds vm t o)
    (hresume : ∀ r, vm.Driven t c.nargs r → c.ResumeEnds vm t r o' left)
    {r : Nat × τ} (hdriven : vm.Driven t c.nargs r) :
    c.pcallOp vm (some r) t room saved now = c.pcallOp vm none t room saved now
      ↔ c.rejected vm t room ≠ none ∨ c.SameEnd (c.below vm t) left o o' := by
  unfold pcallOp
  cases c.rejected vm t room with
  | some => simp
  | none =>
    simp only [Option.elim, ne_eq, not_true_eq_false, false_or]
    rw [synchronous_eq hpcall, finish_eq (hresume r hdriven)]
    cases o with
    | returns vals =>
      cases o' with
      | returns vals' => simp [SameEnd, eq_comm]
      | fails status' err' =>
        simp only [SameEnd, iff_false]
        split_ifs
        · intro h
          exact status'.code_ne.1 (answer_code (CallSeen.finished.inj h).2)
        · nofun
    | fails status err =>
      cases o' with
      | returns vals' =>
        simp only [SameEnd, iff_false]
        split_ifs
        · intro h
          exact status.code_ne.1 (answer_code (CallSeen.finished.inj h).2).symm
        · nofun
      | fails status' err' =>
        unfold SameEnd
        split_ifs
        · rw [CallSeen.finished.injEq, and_comm]
          refine and_congr ⟨fun h => (LuaError.code_inj (answer_code h)).symm, ?_⟩ ?_
          · rintro rfl
            rfl
          cases c.nresults with
          | none => exact concat_iff
          | some n => exact trim_error_iff
        · rw [CallSeen.raised.injEq, eq_comm]

end ReverseCall

/-- A thread whose callback ends with `o`, after a yield if it is driven; a failure leaves
nothing but the error in sight. The flag says that it has yielded. -/
def demoVm (o : CallOutcome) : LuaApi (Bool × List LuaVal) where
  stack := Prod.snd
  settop t n := (t.1, luaSettop t.2 n)
  pcall t nargs nresults := (o.status, t.1, t.2.take (t.2.length - nargs - 1) ++
    match o with
    | .returns vals => ReverseCall.adjust ⟨nargs, nresults, true⟩ vals
    | .fails _ err => [err])
  resume t nargs :=
    if t.1 then
      (o.status, true,
        match o with
        | .returns vals => t.2 ++ vals
        | .fails _ err => [err])
    else (luaYield, true, t.2.take (t.2.length - nargs - 1))
  stack_settop _ _ := rfl

/-- A callback that is driven through a yield and returns two values where one is asked for. -/
theorem deferred_eq_demo :
    let vm := demoVm (.returns [.other 7, .other 8])
    let c : ReverseCall := ⟨1, some 1, true⟩
    let t := (false, [.other 5, .other 1, .other 2])
    ∃ r, vm.Driven t 1 r ∧ c.pcallOp vm (some r) t true ⟨id, 0, []⟩ ⟨id, 4, []⟩
      = c.pcallOp vm none t true ⟨id, 0, []⟩ ⟨id, 4, []⟩ := by
  intro vm c t
  have hdriven : vm.Driven t 1 _ := .yields rfl (.ends (by decide))
  have hpcall : c.PcallEnds vm t (.returns [.other 7, .other 8]) := ⟨rfl, rfl⟩
  have hresume : ∀ r, vm.Driven t 1 r →
      c.ResumeEnds vm t r (.returns [.other 7, .other 8]) [] := by
    intro r hr
    cases hr with
    | ends h => exact absurd rfl h
    | yields _ h =>
      cases h with
      | ends => exact ⟨rfl, rfl⟩
      | yields h _ => cases h
  exact ⟨_, hdriven,
    (ReverseCall.deferred_eq_iff vm c t true _ _ hpcall hresume hdriven).mpr (.inr rfl)⟩

/-- A protected call that wants no results and fails: the status is there, the error object is
not. -/
theorem deferred_error_lost :
    let vm := demoVm (.fails .run (.string "boom"))
    let c : ReverseCall := ⟨0, some 0, true⟩
    ∃ r, vm.Driven (false, [.other 1]) 0 r
      ∧ c.pcallOp vm (some r) (false, [.other 1]) true ⟨id, 0, []⟩ ⟨id, 0, []⟩
        ≠ c.pcallOp vm none (false, [.other 1]) true ⟨id, 0, []⟩ ⟨id, 0, []⟩ := by
  refine ⟨_, .yields rfl (.ends (by decide)), fun h => ?_⟩
  have hstack := (CallSeen.finished.inj h).1
  revert hstack
  decide

end Blyt
