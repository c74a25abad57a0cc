import SignatureAutomata.Dfa.Determinization

/-! # Log records

What the stages of a compilation leave in the log.  A record is a cause; its level
and its wording follow from it.  A symbol is worded by a function that the caller
gives, because symbols of different types are quoted differently.
-/

namespace SignatureAutomata

/-- How much a record matters. -/
inductive Level where
  | trace
  | debug
  deriving DecidableEq

/-- The name of a level. -/
def Level.name : Level → String
  | .trace => "trace"
  | .debug => "debug"

/-- **A log record.** -/
inductive Record (α : Type) where
  /-- A symbol got a code. -/
  | registered (symbol : α) (code : Nat)
  /-- A signature became an automaton. -/
  | compiled (tokens numStates : Nat)
  /-- Determinization found a state. -/
  | discovered (discovery : Discovery)
  /-- Determinization ended. -/
  | determinized (nfaStates dfaStates columns : Nat)
  /-- A table was written. -/
  | emitted (rows columns accepting : Nat)
  deriving DecidableEq

namespace Record
variable {α : Type}

/-- Single symbols and states are traced; each stage ends with a summary. -/
def level : Record α → Level
  | .registered .. => .trace
  | .discovered .. => .trace
  | _ => .debug

/-- The wording of a record, symbols being worded by `quote`. -/
def text (quote : α → String) : Record α → String
  | .registered symbol code => "registered symbol " ++ quote symbol ++ s!" as code {code}"
  | .compiled tokens numStates =>
      s!"compiled signature of {tokens} tokens into {numStates} nfa states"
  | .discovered ⟨state, subset, final⟩ =>
      s!"dfa state {state} = nfa " ++ subset.text ++ if final then " (final)" else ""
  | .determinized nfaStates dfaStates columns =>
      s!"determinized {nfaStates} nfa states into {dfaStates} dfa states over {columns} columns"
  | .emitted rows columns accepting =>
      s!"emitted {rows}x{columns} transition table with {accepting} accepting states"

end Record

/-- The records of registering the symbols of a list in turn: one for each symbol
that is new when its turn comes. -/
def Alphabet.registrations {α : Type} [DecidableEq α] (A : Alphabet α) :
    List α → List (Record α)
  | [] => []
  | x :: xs =>
      let grown := A.register x
      if x ∈ A.symbols then grown.registrations xs
      else .registered x (grown.codeOf x) :: grown.registrations xs

end SignatureAutomata
