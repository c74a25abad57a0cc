import SignatureAutomata.Alphabet
import SignatureAutomata.Exploration
import SignatureAutomata.StateSet

/-! # Deterministic automata whose states are sets

A state of a `Dfa` stands for a set of states of a nondeterministic automaton; no
two stand for the same set.  States are numbered in the order of discovery and
the start state is `0`.  The columns are the codes on which every state has a
transition: `Code.sigma` first, then the symbols that were registered when the
automaton was made.

A symbol registered later has no column.  `next` moves on it as on a value of any
kind, along the `Code.sigma` column.
-/

namespace SignatureAutomata

/-- **A deterministic automaton**, total over its columns. -/
structure Dfa where
  /-- The codes that the transitions of a row belong to. -/
  columns : List Nat
  /-- The set that each state stands for. -/
  subsets : List StateSet
  accepting : StateSet
  /-- For each state, where each column leads. -/
  rows : List (List Nat)
  deriving DecidableEq

namespace Dfa

/-- The state that runs start in. -/
def start (_ : Dfa) : Nat := 0

/-- The number of states, the dead one included. -/
def numStates (D : Dfa) : Nat := D.subsets.length

/-- How many symbols have a column. -/
def numSymbols (D : Dfa) : Nat := D.columns.length - 1

/-- The set that a state stands for. -/
def subset (D : Dfa) (state : Nat) : Option StateSet := D.subsets[state]?

/-- The state that stands for a set. -/
def stateFor (D : Dfa) (S : StateSet) : Option Nat := D.subsets.idxOf? S

/-- Where a state leads on exactly this code, if the code has a column. -/
def transition (D : Dfa) (state code : Nat) : Option Nat := do
  let row ← D.rows[state]?
  let column ← D.columns.idxOf? code
  row[column]?

/-- Where a state leads on a code; one without a column counts as `Code.sigma`. -/
def next (D : Dfa) (state code : Nat) : Option Nat :=
  match D.transition state code with
  | some t => some t
  | none => D.transition state Code.sigma

/-- Whether the codes lead from a state to an accepting one. -/
def acceptsFrom (D : Dfa) (state : Nat) : List Nat → Bool
  | [] => state ∈ D.accepting
  | code :: codes =>
      match D.next state code with
      | none => false
      | some t => D.acceptsFrom t codes

/-- **Whether an input is accepted**, its values having the codes that the alphabet
gives them now. -/
def accepts {α : Type} [DecidableEq α] (D : Dfa) (A : Alphabet α) (input : List α) : Bool :=
  D.acceptsFrom D.start (input.map A.codeOf)

/-- Whether every state leads somewhere on every column. -/
def isTotal (D : Dfa) : Bool :=
  (List.range D.numStates).all fun s => D.columns.all fun code => (D.transition s code).isSome

/-- Whether no accepting state is reached from the start. -/
def isEmpty (D : Dfa) : Bool :=
  (reachable (fun s => D.columns.filterMap (D.transition s)) D.numStates [D.start]).all
    (· ∉ D.accepting)

/-- The transitions as triples, by state and column. -/
def transitions (D : Dfa) : List (Nat × Nat × Nat) :=
  (List.range D.numStates).flatMap fun s =>
    D.columns.filterMap fun code => (D.transition s code).map (s, code, ·)

/-- One line for each state: a star if it accepts, its number, its set, and where
its columns lead. -/
def line (D : Dfa) (state : Nat) (S : StateSet) : String :=
  (if state ∈ D.accepting then "*" else " ") ++ toString state ++ " ["
    ++ String.intercalate ", " (S.members.map toString) ++ "]:"
    ++ String.join (D.columns.map fun code =>
        match D.transition state code with
        | some t => s!" {code}->{t}"
        | none => "")
    ++ "\n"

/-- The automaton as text, a line for each state. -/
def text (D : Dfa) : String := String.join (D.subsets.mapIdx D.line)

end Dfa
end SignatureAutomata
