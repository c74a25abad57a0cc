import SignatureAutomata.Nfa.Construction

/-! # What calls do

The call of a step looks at what it was given before it changes anything.  So there is one cause
for which it can fail (`Construction.failure?`), which can be told from the step and the number of
states.  `run_call` says what the call does in either case: it fails and leaves the automaton as it
is, or it answers and leaves the automaton that the step makes (`carryOut`).

Nothing of this is built into calls.  A call is a program that changes the automaton bit by bit, and
one that fails half-way keeps the changes made by then; that none of these calls does so is proved
from their programs, one part after the other.
-/

namespace SignatureAutomata

/-! ### Programs that may fail -/

section Run
variable {ε σ β γ : Type} {x : EStateM ε σ β} {f : β → EStateM ε σ γ} {s s' : σ}

/-- What comes after a program that answers. -/
theorem run_bind_of_ok {b : β} (h : x.run s = .ok b s') : (x >>= f).run s = (f b).run s' := by
  rw [EStateM.run_bind, h]

/-- Nothing comes after a program that fails. -/
theorem run_bind_of_error {e : ε} (h : x.run s = .error e s') :
    (x >>= f).run s = .error e s' := by
  rw [EStateM.run_bind, h]

end Run

/-- The failure for the first of some states that an automaton with `n` states does not own. -/
def firstForeign? (n : Nat) (states : List Nat) : Option ConstructionError :=
  (states.find? (n ≤ ·)).map (.foreignState · n)

namespace Construction

/-- The reserved code that a step asks for in place of a symbol's. -/
def reserved? : Construction → Option Nat
  | .transition _ code _ => if code = Code.epsilon ∨ code = Code.sigma then some code else none
  | _ => none

/-- The states that a step names, in the order in which they are looked at. -/
def named : Construction → List Nat
  | .transition source _ target | .epsilon source target | .sigma source target => [source, target]
  | .start state | .accepting state => [state]
  | .newState | .cacheClosures => []

/-- **Why an automaton with `n` states refuses a step**, if it does: for a reserved code,
whatever the states are, or else for the first state that is foreign. -/
def refusal? (n : Nat) (c : Construction) : Option ConstructionError :=
  match c.reserved? with
  | some code => some (.reservedCode code)
  | none => firstForeign? n c.named

/-- **Why the call of a step fails**, if it does: the counter of states overflows, or the step is
refused. -/
def failure? (k : Counting) (n : Nat) : Construction → Option ConstructionError
  | .newState => if k.overflows n then some .overflow else none
  | c => c.refusal? n

theorem reserved?_transition_of_isReserved {source code target : Nat}
    (h : Code.isReserved code = true) : reserved? (.transition source code target) = some code :=
  if_pos (Code.isReserved_iff.1 h)

theorem reserved?_transition_eq_none {source code target : Nat}
    (h : Code.isReserved code = false) : reserved? (.transition source code target) = none := by
  have hcode : ¬ (code = Code.epsilon ∨ code = Code.sigma) := by
    rw [← Code.isReserved_iff, h]
    exact Bool.false_ne_true
  exact if_neg hcode

/-- Only for a new state is the counter looked at. -/
theorem failure?_of_ne {k : Counting} {n : Nat} {c : Construction} (h : c ≠ .newState) :
    c.failure? k n = c.refusal? n := by
  cases c with
  | newState => exact absurd rfl h
  | _ => rfl

/-- Where states are counted without end, steps fail only if they are refused. -/
theorem failure?_unbounded (n : Nat) (c : Construction) :
    c.failure? .unbounded n = c.refusal? n := by
  cases c <;> rfl

end Construction

namespace Nfa
variable {k : Counting} {N M : Nfa} {c : Construction} {e : ConstructionError}

/-! ### What steps make of an automaton -/

/-- One more state. -/
def withState (N : Nfa) (k : Counting) : Nfa :=
  { N with numStates := k.next N.numStates, closures := none }

/-- One more edge. -/
def withEdge (N : Nfa) (e : Edge) : Nfa :=
  { N with
    edgeMap := N.edgeMap.insert e
    closures := if e.label = Code.epsilon then none else N.closures }

@[simp] theorem mem_edges_withEdge {N : Nfa} {e f : Edge} :
    f ∈ (N.withEdge e).edges ↔ f = e ∨ f ∈ N.edges := by
  rw [← mem_transitions, ← mem_transitions]
  exact EdgeMap.mem_transitions_insert

/-- **What a step makes of an automaton** if its call does not fail. -/
def carryOut (N : Nfa) (k : Counting) : Construction → Nfa
  | .newState => N.withState k
  | .transition source code target => N.withEdge ⟨source, code, target⟩
  | .epsilon source target => N.withEdge ⟨source, Code.epsilon, target⟩
  | .sigma source target => N.withEdge ⟨source, Code.sigma, target⟩
  | .start state => { N with start := state }
  | .accepting state => { N with accepting := N.accepting.insert state }
  | .cacheClosures => N.cacheClosures

/-! ### Running calls -/

/-- What a call without an answer of its own does if it changes nothing before it fails: it fails
for the cause there is, or leaves what it makes. -/
def outcome (failure : Option ConstructionError) (N M : Nfa) :
    EStateM.Result ConstructionError Nfa Unit :=
  match failure with
  | some e => .error e N
  | none => .ok () M

theorem run_checkState_of_lt {state : Nat} (h : state < N.numStates) :
    (checkState state).run N = .ok () N := by
  rw [checkState, run_bind_of_ok (EStateM.run_get N), if_pos h]
  rfl

theorem run_checkState_of_not_lt {state : Nat} (h : ¬ state < N.numStates) :
    (checkState state).run N = .error (.foreignState state N.numStates) N := by
  rw [checkState, run_bind_of_ok (EStateM.run_get N), if_neg h]
  rfl

/-- **A state is asked for before anything else is done.** -/
theorem run_checkState_bind {x : Call Unit} {state : Nat} {states : List Nat}
    (h : x.run N = outcome (firstForeign? N.numStates states) N M) :
    (checkState state >>= fun _ => x).run N =
      outcome (firstForeign? N.numStates (state :: states)) N M := by
  unfold firstForeign?
  by_cases hstate : state < N.numStates
  · have hle : ¬ N.numStates ≤ state := by omega
    rw [run_bind_of_ok (run_checkState_of_lt hstate), h,
      List.find?_cons_of_neg (by simpa using hle)]
    rfl
  · have hle : N.numStates ≤ state := by omega
    rw [run_bind_of_error (run_checkState_of_not_lt hstate),
      List.find?_cons_of_pos (by simpa using hle)]
    rfl

/-- **A new state is answered by its number**, the counter being looked at first. -/
theorem run_newState (k : Counting) (N : Nfa) :
    (newState k).run N =
      if k.overflows N.numStates then .error .overflow N
      else .ok N.numStates (N.withState k) := by
  refine (run_bind_of_ok (EStateM.run_get N)).trans ?_
  cases k.overflows N.numStates <;> rfl

theorem run_insertEdge (N : Nfa) (e : Edge) :
    (insertEdge e).run N =
      outcome (firstForeign? N.numStates [e.source, e.target]) N (N.withEdge e) := by
  refine run_checkState_bind (run_checkState_bind ?_)
  -- the edge is laid, and what follows depends on its label
  refine (run_bind_of_ok (EStateM.run_modify _ N)).trans ?_
  unfold withEdge
  split
  · rfl
  · rfl

theorem run_addTransition (N : Nfa) (source code target : Nat) :
    (addTransition source code target).run N =
      outcome ((Construction.transition source code target).refusal? N.numStates) N
        (N.withEdge ⟨source, code, target⟩) := by
  unfold addTransition Construction.refusal?
  cases hcode : Code.isReserved code with
  | true =>
      rw [Construction.reserved?_transition_of_isReserved hcode]
      rfl
  | false =>
      rw [Construction.reserved?_transition_eq_none hcode]
      exact run_insertEdge N ⟨source, code, target⟩

/-- **What the call of a step does.** -/
theorem run_call (k : Counting) (N : Nfa) (c : Construction) :
    (c.call k).run N = outcome (c.failure? k N.numStates) N (N.carryOut k c) := by
  cases c with
  | newState =>
      have hrun := run_newState k N
      rw [Construction.failure?]
      cases hfull : k.overflows N.numStates with
      | false => exact run_bind_of_ok (hrun.trans (by rw [hfull]; rfl))
      | true => exact run_bind_of_error (hrun.trans (by rw [hfull]; rfl))
  | transition source code target => exact run_addTransition N source code target
  | epsilon source target => exact run_insertEdge N ⟨source, Code.epsilon, target⟩
  | sigma source target => exact run_insertEdge N ⟨source, Code.sigma, target⟩
  | start state => exact @run_checkState_bind _ _ _ state [] rfl
  | accepting state => exact @run_checkState_bind _ _ _ state [] rfl
  | cacheClosures => rfl

/-- **A call fails for its cause only, and then leaves the automaton as it was.** -/
theorem run_call_eq_error_iff :
    (c.call k).run N = .error e M ↔ c.failure? k N.numStates = some e ∧ M = N := by
  rw [run_call]
  cases c.failure? k N.numStates with
  | none => simp [outcome]
  | some e' => simp [outcome, eq_comm]

theorem apply_eq_ok_iff_of_counting :
    N.apply k c = .ok M ↔ c.failure? k N.numStates = none ∧ N.carryOut k c = M := by
  rw [apply, run_call]
  cases c.failure? k N.numStates with
  | none => simp [outcome]
  | some e => simp [outcome]

theorem attempt_of_failure (h : c.failure? k N.numStates = some e) : N.attempt k c = N := by
  rw [attempt, run_call, h]
  rfl

theorem attempt_of_no_failure (h : c.failure? k N.numStates = none) :
    N.attempt k c = N.carryOut k c := by
  rw [attempt, run_call, h]
  rfl

end Nfa
end SignatureAutomata
