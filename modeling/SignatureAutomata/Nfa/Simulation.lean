import SignatureAutomata.Alphabet
import SignatureAutomata.Nfa.Closure

/-! # Running an automaton

A run keeps the set of states that the input read so far can lead to.  Reading a
code moves along the edges with that label and along sigma edges, which consume
every value; so a value registered only after the edges were laid still moves
along sigma edges.

There is no move on `Code.epsilon`: `move?` and `step?` refuse it, because closures
already take the epsilon edges.
-/

namespace SignatureAutomata
namespace Nfa

/-- Adds to a set where one value with the given code leads from one state. -/
def moveFrom (N : Nfa) (code : Nat) (T : StateSet) (s : Nat) : StateSet :=
  let T := T.insertAll (N.targetList s code)
  if code = Code.sigma then T else T.insertAll (N.targetList s Code.sigma)

/-- Where one value with the given code leads from the closure of `S`.  The result
is not closed. -/
def move (N : Nfa) (S : StateSet) (code : Nat) : StateSet :=
  (N.epsilonClosure S).members.foldl (N.moveFrom code) ∅

theorem mem_moveFrom {N : Nfa} {code s t : Nat} {T : StateSet} :
    t ∈ N.moveFrom code T s ↔
      (⟨s, code, t⟩ ∈ N.edges ∨ ⟨s, Code.sigma, t⟩ ∈ N.edges) ∨ t ∈ T := by
  unfold moveFrom
  split
  · rename_i hcode
    rw [StateSet.mem_insertAll, mem_targetList, hcode, or_self]
  · rw [StateSet.mem_insertAll, StateSet.mem_insertAll, mem_targetList, mem_targetList,
      or_left_comm, or_assoc]

theorem mem_move {N : Nfa} {S : StateSet} {code t : Nat} :
    t ∈ N.move S code ↔
      ∃ e ∈ N.edges, (e.label = code ∨ e.label = Code.sigma) ∧
        e.source ∈ N.epsilonClosure S ∧ e.target = t := by
  have hfold : ∀ (states : List Nat) (T : StateSet), t ∈ states.foldl (N.moveFrom code) T ↔
      t ∈ T ∨ ∃ s ∈ states, ⟨s, code, t⟩ ∈ N.edges ∨ ⟨s, Code.sigma, t⟩ ∈ N.edges := by
    intro states
    induction states with
    | nil => simp
    | cons s states ih =>
        intro T
        rw [List.foldl_cons, ih, mem_moveFrom]
        simp only [List.mem_cons, exists_eq_or_imp, or_assoc, or_left_comm]
  rw [move, hfold]
  constructor
  · rintro (h | ⟨s, hs, he | he⟩)
    · exact absurd h (StateSet.not_mem_empty t)
    · exact ⟨_, he, .inl rfl, hs, rfl⟩
    · exact ⟨_, he, .inr rfl, hs, rfl⟩
  · rintro ⟨⟨s, label, _⟩, he, rfl | rfl, hs, rfl⟩
    · exact .inr ⟨s, hs, .inl he⟩
    · exact .inr ⟨s, hs, .inr he⟩

/-- The closure of where one value with the given code leads. -/
def step (N : Nfa) (S : StateSet) (code : Nat) : StateSet := N.epsilonClosure (N.move S code)

/-- A move was asked for on `Code.epsilon`, which consumes nothing. -/
structure EpsilonMove where

/-- The wording of that refusal. -/
def EpsilonMove.message (_ : EpsilonMove) : String := "use epsilon_closure for epsilon moves"

/-- `move`, refusing `Code.epsilon`. -/
def move? (N : Nfa) (S : StateSet) (code : Nat) : Except EpsilonMove StateSet :=
  if code = Code.epsilon then .error {} else .ok (N.move S code)

/-- `step`, refusing `Code.epsilon`. -/
def step? (N : Nfa) (S : StateSet) (code : Nat) : Except EpsilonMove StateSet :=
  if code = Code.epsilon then .error {} else .ok (N.step S code)

/-- Whether the codes lead from `S` to an accepting state.  Nothing leads on from
the empty set, so there the run stops. -/
def acceptsFrom (N : Nfa) (S : StateSet) : List Nat → Bool
  | [] => S.intersects N.accepting
  | code :: codes =>
      let next := N.step S code
      if next.isEmpty then false else N.acceptsFrom next codes

/-- **Whether an input is accepted**, its values having the codes that the alphabet
gives them now. -/
def accepts {α : Type} [DecidableEq α] (N : Nfa) (A : Alphabet α) (input : List α) : Bool :=
  N.acceptsFrom N.startClosure (input.map A.codeOf)

/-- Where the edges from a state lead, whatever their labels, in the order of the map. -/
def ends (N : Nfa) (s : Nat) : List Nat :=
  (N.edgeMap.groups.filter (·.source = s)).flatMap (·.targets.members)

/-- Whether no accepting state is reached from the start along edges of any kind. -/
def isEmpty (N : Nfa) : Bool :=
  (reachable N.ends (1 + N.transitions.length) [N.start]).all (· ∉ N.accepting)

end Nfa
end SignatureAutomata
