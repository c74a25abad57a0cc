import SignatureAutomata.Code
import SignatureAutomata.Nfa.EdgeMap

/-! # Nondeterministic automata over codes

An `Nfa` owns the states `0, …, numStates - 1`.  Its edges are labelled with
codes: `Code.epsilon` edges consume nothing, `Code.sigma` edges any value, and an
edge with the code of a symbol that symbol.  The automaton knows no alphabet; an
alphabet is needed only to turn values into codes.

An automaton is changed by calls (`Nfa.Call`).  A call comes back with an answer or
with an error, and either way with the automaton it leaves behind; a call that fails
may have changed something by then, unless one shows that it has not.  An edge must
join two states that the automaton owns, and an edge that consumes a symbol must have
a code that is not reserved; what is wrong is a `ConstructionError`.

States are counted by a counter with its own way of counting on (`Counting`).

The closures of all states may be kept in the automaton.  They are dropped as
soon as they could become wrong: by a new state and by a new epsilon edge.
-/

namespace SignatureAutomata

/-- **An automaton** with epsilon and sigma edges. -/
structure Nfa where
  /-- How many states the automaton owns. -/
  numStates : Nat
  start : Nat
  accepting : StateSet
  /-- The edges, in the map's own order. -/
  edgeMap : EdgeMap
  /-- The closure of each state, while they are kept. -/
  closures : Option (List StateSet)
  deriving DecidableEq

/-- **Why a call on an automaton fails.** -/
inductive ConstructionError where
  /-- A state that the automaton does not own. -/
  | foreignState (state numStates : Nat)
  /-- A reserved code where a symbol's is needed. -/
  | reservedCode (code : Nat)
  /-- There is no number for one more state.  Nothing answers this failure; the program
  stops. -/
  | overflow
  deriving DecidableEq

/-- The wording of a failure. -/
def ConstructionError.message : ConstructionError → String
  | .foreignState state numStates =>
      s!"state {state} does not belong to this automaton ({numStates} states)"
  | .reservedCode code => s!"code {code} is reserved for epsilon/sigma transitions"
  | .overflow => "attempt to add with overflow"

/-- How many numbers a counter of states has. -/
def counterSize : Nat := Nat.pow 2 32

/-- **How states are counted.** -/
inductive Counting where
  /-- Without end. -/
  | unbounded
  /-- Up to the last number of the counter, where counting on fails. -/
  | checked
  /-- Up to the last number of the counter, after which the counter is at zero again. -/
  | wrapping
  deriving DecidableEq

namespace Counting

/-- Whether counting on from a number fails. -/
def overflows : Counting → Nat → Bool
  | .unbounded, _ => false
  | .checked, n => counterSize ≤ n + 1
  | .wrapping, _ => false

/-- The number that comes after a number, where counting on does not fail. -/
def next : Counting → Nat → Nat
  | .unbounded, n => n + 1
  | .checked, n => n + 1
  | .wrapping, n => (n + 1) % counterSize

end Counting

namespace Nfa

/-- One state, which is the start state and not accepting. -/
def initial : Nfa := ⟨1, 0, ∅, .empty, none⟩

/-! ### Calls -/

/-- **A call on an automaton**: it comes back with an answer or an error, and with the
automaton it leaves behind. -/
abbrev Call (β : Type) := EStateM ConstructionError Nfa β

/-- Asks for a state that the automaton owns. -/
def checkState (state : Nat) : Call Unit := do
  let N ← get
  if state < N.numStates then pure () else throw (.foreignState state N.numStates)

/-- Adds a state and answers its number. -/
def newState (k : Counting) : Call Nat := do
  let N ← get
  if k.overflows N.numStates then throw .overflow
  set { N with numStates := k.next N.numStates, closures := none }
  pure N.numStates

/-- Adds an edge between two states of the automaton; the source is looked at
first. -/
def insertEdge (e : Edge) : Call Unit := do
  checkState e.source
  checkState e.target
  modify fun N => { N with edgeMap := N.edgeMap.insert e }
  if e.label = Code.epsilon then modify fun N => { N with closures := none }

/-- Adds an edge that consumes the symbol with the given code, registered or not. -/
def addTransition (source code target : Nat) : Call Unit := do
  if Code.isReserved code then throw (.reservedCode code)
  insertEdge ⟨source, code, target⟩

/-- Adds an edge that consumes nothing. -/
def addEpsilon (source target : Nat) : Call Unit := insertEdge ⟨source, Code.epsilon, target⟩

/-- Adds an edge that consumes one value of any kind. -/
def addSigma (source target : Nat) : Call Unit := insertEdge ⟨source, Code.sigma, target⟩

/-- Moves the start to a state of the automaton. -/
def setStart (state : Nat) : Call Unit := do
  checkState state
  modify fun N => { N with start := state }

/-- Makes a state of the automaton accepting. -/
def addAccepting (state : Nat) : Call Unit := do
  checkState state
  modify fun N => { N with accepting := N.accepting.insert state }

/-! ### Looking at edges -/

/-- **The edges**, in order. -/
def edges (N : Nfa) : List Edge := N.edgeMap.sortedTransitions

/-- The edges, in the order of the map. -/
def transitions (N : Nfa) : List Edge := N.edgeMap.transitions

theorem mem_transitions {N : Nfa} {e : Edge} : e ∈ N.transitions ↔ e ∈ N.edges :=
  EdgeMap.mem_sortedTransitions.symm

/-- No edge is listed twice or out of order. -/
theorem ordered (N : Nfa) : N.edges.Pairwise Edge.Before := N.edgeMap.pairwise_sortedTransitions

/-- The set of the ends of the edges that leave `state` with exactly the given label, if
there are any. -/
def targets (N : Nfa) (state label : Nat) : Option StateSet := N.edgeMap.find? state label

/-- Those ends, in ascending order. -/
def targetList (N : Nfa) (state label : Nat) : List Nat := N.edgeMap.targetList state label

theorem mem_targetList {N : Nfa} {state label t : Nat} :
    t ∈ N.targetList state label ↔ ⟨state, label, t⟩ ∈ N.edges :=
  EdgeMap.mem_targetList.trans mem_transitions

theorem pairwise_targetList (N : Nfa) (state label : Nat) :
    (N.targetList state label).Pairwise (· < ·) := N.edgeMap.pairwise_targetList state label

/-- The edges grouped by source and label, in order. -/
def sortedEdges (N : Nfa) : List EdgeGroup := N.edgeMap.sortedGroups

end Nfa
end SignatureAutomata
