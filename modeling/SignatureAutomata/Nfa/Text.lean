import SignatureAutomata.Nfa.Simulation
import SignatureAutomata.Symbol

/-! # Automata as text

The first line names the start state and the accepting states.  A line for each
group of edges follows, by source and label: the source, the label inside an arrow,
and the set of targets.  An epsilon or sigma label is shown by its Greek letter, a
symbol's by the symbol, and a code without a symbol by its number.
-/

namespace SignatureAutomata
namespace Nfa

/-- A label as it is shown in an arrow. -/
def labelText (τ : SymbolType) (A : Alphabet τ.Symbol) (label : Nat) : String :=
  if label = Code.epsilon then "ε"
  else if label = Code.sigma then "σ"
  else
    match A.symbolOf label with
    | some symbol => τ.quote symbol
    | none => s!"#{label}"

/-- The automaton as text, symbols being those of an alphabet. -/
def text (N : Nfa) (τ : SymbolType) (A : Alphabet τ.Symbol) : String :=
  s!"start: {N.start}, final: " ++ N.accepting.text ++ "\n"
    ++ String.join (N.sortedEdges.map fun g =>
        s!"{g.source} -" ++ labelText τ A g.label ++ "-> " ++ g.targets.text ++ "\n")

end Nfa
end SignatureAutomata
