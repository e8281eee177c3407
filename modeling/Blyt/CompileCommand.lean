import Mathlib.Data.List.Basic

/-!
# The command of an external compiler

`tokenize_command` of `devtool/src/build/external.rs` cuts the command line of a compiler
at white space; what stands in single or double quotes is taken as it is. A token is kept
only if it is not empty, so an argument that is quoted and empty is lost.
-/

namespace Blyt

open List

def isCommandSpace (c : Char) : Bool := c ∈ [' ', '\t', '\n', '\r']

def isCommandQuote (c : Char) : Bool := c ∈ ['\x27', '\x22']

/-- `if !current.is_empty() { tokens.push(current) }` -/
def pushed (current : List Char) : List (List Char) := [current].filter fun t => !t.isEmpty

/-- The loops of `tokenize_command`; `quote` is the quote that is open. -/
def tokenizeFrom (quote : Option Char) (current : List Char) : List Char → List (List Char)
  | [] => pushed current
  | c :: cs =>
    match quote with
    | some q =>
      if c = q then tokenizeFrom none current cs else tokenizeFrom quote (current ++ [c]) cs
    | none =>
      if isCommandSpace c then pushed current ++ tokenizeFrom none [] cs
      else if isCommandQuote c then tokenizeFrom (some c) current cs
      else tokenizeFrom none (current ++ [c]) cs

def tokenizeCommand (cmd : List Char) : List (List Char) := tokenizeFrom none [] cmd

/-- An argument, the quotes it is put in, and the white space between it and the next. -/
structure QuotedArg where
  text : List Char
  quote : Char
  gap : List Char
  plain : ∀ c ∈ text, isCommandQuote c = false
  isQuote : isCommandQuote quote = true
  gap_ne : gap ≠ []
  blank : ∀ c ∈ gap, isCommandSpace c = true

def QuotedArg.written (a : QuotedArg) : List Char := a.quote :: a.text ++ [a.quote]

def joined : List QuotedArg → List Char
  | [] => []
  | [a] => a.written
  | a :: b :: args => a.written ++ (a.gap ++ joined (b :: args))

variable {q : Char} {text gap : List Char}

theorem tokenizeFrom_quoted (h : q ∉ text) (current rest : List Char) :
    tokenizeFrom (some q) current (text ++ q :: rest)
      = tokenizeFrom none (current ++ text) rest := by
  induction text generalizing current with
  | nil => simp [tokenizeFrom]
  | cons c text ih =>
    obtain ⟨hc, htext⟩ := not_or.mp (mt mem_cons.mpr h)
    rw [cons_append, tokenizeFrom]
    simp only [Ne.symm hc, if_false]
    rw [ih htext, append_assoc, singleton_append]

theorem tokenizeFrom_written (a : QuotedArg) (rest : List Char) :
    tokenizeFrom none [] (a.written ++ rest) = tokenizeFrom none a.text rest := by
  have hspace : isCommandSpace a.quote = false := by
    have hq := a.isQuote
    simp only [isCommandQuote, mem_cons, not_mem_nil, or_false, decide_eq_true_eq] at hq
    rcases hq with hq | hq <;> rw [hq] <;> rfl
  have hquote : a.quote ∉ a.text := fun hmem =>
    Bool.false_ne_true ((a.plain _ hmem).symm.trans a.isQuote)
  rw [QuotedArg.written, cons_append, cons_append, tokenizeFrom]
  simp only [hspace, a.isQuote, Bool.false_eq_true, if_false, if_true]
  rw [append_assoc, singleton_append, tokenizeFrom_quoted hquote, nil_append]

/-- White space ends the token, and more of it changes nothing. -/
theorem tokenizeFrom_gap (hne : gap ≠ []) (h : ∀ c ∈ gap, isCommandSpace c = true)
    (current rest : List Char) :
    tokenizeFrom none current (gap ++ rest) = pushed current ++ tokenizeFrom none [] rest := by
  induction gap generalizing current with
  | nil => exact absurd rfl hne
  | cons c gap ih =>
    obtain ⟨hc, hgap⟩ := forall_mem_cons.mp h
    rw [cons_append, tokenizeFrom]
    simp only [hc, if_true]
    cases gap with
    | nil => rfl
    | cons d gap =>
      rw [ih (cons_ne_nil d gap) hgap]
      rfl

theorem tokenizeCommand_joined (args : List QuotedArg) :
    tokenizeCommand (joined args) = (args.map QuotedArg.text).filter fun t => !t.isEmpty := by
  rw [tokenizeCommand]
  fun_induction joined args with
  | case1 => rfl
  | case2 a => rw [← append_nil a.written, tokenizeFrom_written]; rfl
  | case3 a b args ih =>
    rw [tokenizeFrom_written, tokenizeFrom_gap a.gap_ne a.blank, ih]
    exact (filter_append [a.text] _).symm

/-- **Quoted arguments come back exactly if none is empty.** -/
theorem tokenizeCommand_joined_iff (args : List QuotedArg) :
    tokenizeCommand (joined args) = args.map QuotedArg.text ↔ ∀ a ∈ args, a.text ≠ [] := by
  rw [tokenizeCommand_joined, filter_eq_self, forall_mem_map]
  simp

/-- Two quotes with nothing between them. -/
theorem empty_argument_lost : ∃ a : QuotedArg, a.text = [] ∧ tokenizeCommand (joined [a]) = [] :=
  ⟨⟨[], '\x22', [' '], nofun, rfl, cons_ne_nil _ _, forall_mem_singleton.mpr rfl⟩, rfl, rfl⟩

end Blyt
