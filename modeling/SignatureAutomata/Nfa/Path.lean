import SignatureAutomata.Alphabet
import SignatureAutomata.Nfa.Closure

/-! # Paths

What an automaton accepts, said without sets of states: an input is spelled by a
path from the start to an accepting state.  A path is a chain of edges; dropping
its epsilon labels leaves what it consumes, and a label fits a value if it is
`Code.sigma` or the value's code.
-/

namespace SignatureAutomata
namespace Nfa

/-- **`t` is reached from `s` along epsilon edges**, none included. -/
inductive EpsilonReach (N : Nfa) : Nat → Nat → Prop where
  | refl (s : Nat) : EpsilonReach N s s
  | step {s t u : Nat} : EpsilonReach N s t → ⟨t, Code.epsilon, u⟩ ∈ N.edges → EpsilonReach N s u

/-- **A path from `s` to `t`**, with the labels of its edges in order. -/
inductive Path (N : Nfa) : Nat → List Nat → Nat → Prop where
  | nil (s : Nat) : Path N s [] s
  | cons {s label t : Nat} {labels : List Nat} {u : Nat} :
      ⟨s, label, t⟩ ∈ N.edges → Path N t labels u → Path N s (label :: labels) u

/-- The labels that consume a value. -/
def consumed (labels : List Nat) : List Nat := labels.filter (· ≠ Code.epsilon)

/-- Whether labels fit codes, one by one. -/
def Fits : List Nat → List Nat → Prop
  | [], [] => True
  | label :: labels, code :: codes => (label = Code.sigma ∨ label = code) ∧ Fits labels codes
  | _, _ => False

/-- **Some path from the start to an accepting state spells the input.** -/
def Spells {α : Type} [DecidableEq α] (N : Nfa) (A : Alphabet α) (input : List α) : Prop :=
  ∃ labels t, N.Path N.start labels t ∧ t ∈ N.accepting ∧
    Fits (consumed labels) (input.map A.codeOf)

/-- **Every state that the automaton mentions is one of its own**, and the
closures kept are those of all its states. -/
structure WellFormed (N : Nfa) : Prop where
  start_lt : N.start < N.numStates
  accepting_lt : ∀ s ∈ N.accepting, s < N.numStates
  edge_lt : ∀ e ∈ N.edges, e.source < N.numStates ∧ e.target < N.numStates
  closures_eq : ∀ closures, N.closures = some closures →
    closures = (List.range N.numStates).map fun s => N.surveyEpsilon [s]

theorem Path.append {N : Nfa} {s t u : Nat} {k l : List Nat} (h : N.Path s k t)
    (h' : N.Path t l u) : N.Path s (k ++ l) u := by
  induction h with
  | nil => exact h'
  | cons he _ ih => exact .cons he (ih h')

theorem EpsilonReach.trans {N : Nfa} {s t u : Nat} (h : N.EpsilonReach s t)
    (h' : N.EpsilonReach t u) : N.EpsilonReach s u := by
  induction h' with
  | refl => exact h
  | step _ he ih => exact .step ih he

end Nfa
end SignatureAutomata
