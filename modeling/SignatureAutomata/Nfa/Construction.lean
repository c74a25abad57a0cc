import SignatureAutomata.Nfa.Closure

/-! # Construction steps

Every automaton is made from the initial one by a list of `Construction` steps, each of
which is a call.  `applyAll` stops at the first call that fails; `buildBy` passes over
failures and goes on with the automaton that the failed call left behind.

States may be counted in any way of `Counting`.  `build` counts them without end.
-/

namespace SignatureAutomata

/-- **A step in the construction of an automaton.** -/
inductive Construction where
  | newState
  | transition (source code target : Nat)
  | epsilon (source target : Nat)
  | sigma (source target : Nat)
  | start (state : Nat)
  | accepting (state : Nat)
  | cacheClosures
  deriving DecidableEq

/-- The call that a step makes.  The number of a new state is not looked at. -/
def Construction.call (k : Counting) : Construction → Nfa.Call Unit
  | .newState => do let _ ← Nfa.newState k
  | .transition source code target => Nfa.addTransition source code target
  | .epsilon source target => Nfa.addEpsilon source target
  | .sigma source target => Nfa.addSigma source target
  | .start state => Nfa.setStart state
  | .accepting state => Nfa.addAccepting state
  | .cacheClosures => modify Nfa.cacheClosures

namespace Nfa

/-- Carries out one step, if its call does not fail. -/
def apply (k : Counting) (N : Nfa) (c : Construction) : Except ConstructionError Nfa :=
  match (c.call k).run N with
  | .ok _ N' => .ok N'
  | .error e _ => .error e

/-- The automaton that a step leaves behind, whether its call fails or not. -/
def attempt (k : Counting) (N : Nfa) (c : Construction) : Nfa :=
  match (c.call k).run N with
  | .ok _ N' => N'
  | .error _ N' => N'

/-- Carries out steps in turn, up to the first failure. -/
def applyAll (k : Counting) (N : Nfa) : List Construction → Except ConstructionError Nfa
  | [] => .ok N
  | c :: cs =>
      match N.apply k c with
      | .ok N' => N'.applyAll k cs
      | .error e => .error e

/-- **The automaton that a list of steps builds** from the initial one, with states counted
in a given way. -/
def buildBy (k : Counting) (cs : List Construction) : Nfa := cs.foldl (attempt k) initial

/-- **The automaton that a list of steps builds** from the initial one. -/
def build (cs : List Construction) : Nfa := buildBy .unbounded cs

theorem buildBy_append (k : Counting) (cs ds : List Construction) :
    buildBy k (cs ++ ds) = ds.foldl (attempt k) (buildBy k cs) := List.foldl_append

theorem buildBy_concat (k : Counting) (cs : List Construction) (c : Construction) :
    buildBy k (cs ++ [c]) = (buildBy k cs).attempt k c := buildBy_append k cs [c]

end Nfa
end SignatureAutomata
