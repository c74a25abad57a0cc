import SignatureAutomata.Nfa.Construction
import SignatureAutomata.Nfa.Simulation
import SignatureAutomata.Signature

/-! # The automaton of a signature

Every position adds a fragment that starts in the last state so far and ends in
the new last state:

* a literal adds one state and one edge with the literal's code;
* `any` adds one state and, between the two, a sigma edge and an edge for every
  symbol of the alphabet;
* `anySequence` adds three states `a`, `b`, `c`.  Epsilon edges lead through them
  in order and back from `c` to the state before, and one value of any kind leads
  from `a` to `b`.

The literals are registered before any edge is laid, so the edges of `any` and
`anySequence` name every literal of the signature.  The end of the last fragment
is the accepting state, and the closures of all states are kept.
-/

namespace SignatureAutomata

/-- The edges from `source` to `target` that one value of any kind takes. -/
def anyValueEdges (codes : List Nat) (source target : Nat) : List Construction :=
  .sigma source target :: codes.map (.transition source · target)

namespace Token
variable {α : Type}

/-- How many states the fragment of a position adds. -/
def width : Token α → Nat
  | .literal _ => 1
  | .any => 1
  | .anySequence => 3

variable [DecidableEq α] (A : Alphabet α)

/-- The fragment of one position, begun in the last state. -/
def fragment (last : Nat) : Token α → List Construction
  | .literal v => [.newState, .transition last (A.codeOf v) (last + 1)]
  | .any => .newState :: anyValueEdges A.codes last (last + 1)
  | .anySequence =>
      [.newState, .newState, .newState, .epsilon last (last + 1), .epsilon (last + 1) (last + 2)]
        ++ anyValueEdges A.codes (last + 1) (last + 2)
        ++ [.epsilon (last + 2) (last + 3), .epsilon (last + 3) last]

/-- The fragments of a list of positions, and the acceptance of their end. -/
def fragments (last : Nat) : List (Token α) → List Construction
  | [] => [.accepting last]
  | token :: tokens => token.fragment A last ++ fragments (last + token.width) tokens

end Token

namespace Signature
variable {α : Type} [DecidableEq α]

/-- The alphabet after registering the literals. -/
def seed (s : Signature α) (A : Alphabet α) : Alphabet α := A.registerAll s.literals

/-- The steps that build the automaton over an alphabet that has the literals. -/
def construction (s : Signature α) (A : Alphabet α) : List Construction :=
  Token.fragments A 0 s.tokens ++ [.cacheClosures]

/-- **The automaton of a signature**, and the alphabet grown by its literals. -/
def automaton (s : Signature α) (A : Alphabet α) : Except ConstructionError (Alphabet α × Nfa) :=
  (Nfa.initial.applyAll .unbounded (s.construction (s.seed A))).map (s.seed A, ·)

end Signature
end SignatureAutomata
