import SignatureAutomata.Proofs.Nfa.Counting
import SignatureAutomata.Proofs.Nfa.SameGraph

/-! # Keeping closures changes nothing

An automaton that keeps the closures of its states is compared here with the same automaton
without them (`uncached`).  The two have the same states and edges, so that they agree wherever
those decide (`sameGraph_of_uncached_eq`); they may differ on a set with foreign numbers.

Steps that keep the closures can therefore be put in anywhere among the steps of a construction
(`Interspersed`): what is built is the same but for the closures kept
(`uncached_buildBy_of_interspersed`).
-/

namespace SignatureAutomata

namespace Construction

/-- **The second list is the first with `cacheClosures` steps put in**, at any places. -/
inductive Interspersed : List Construction → List Construction → Prop where
  | nil : Interspersed [] []
  | step (c : Construction) {cs ds : List Construction} :
      Interspersed cs ds → Interspersed (c :: cs) (c :: ds)
  | cache {cs ds : List Construction} : Interspersed cs ds → Interspersed cs (.cacheClosures :: ds)

end Construction

namespace Nfa
variable {N M : Nfa}

/-- The automaton without the closures kept. -/
def uncached (N : Nfa) : Nfa := { N with closures := none }

theorem WellFormed.uncached (hN : N.WellFormed) : N.uncached.WellFormed where
  start_lt := hN.start_lt
  accepting_lt := hN.accepting_lt
  edge_lt := hN.edge_lt
  closures_eq _ hc := by cases hc

theorem mem_epsilonClosure_uncached_iff {S : StateSet} {t : Nat} :
    t ∈ N.uncached.epsilonClosure S ↔ ∃ s ∈ S, N.EpsilonReach s t :=
  mem_surveyEpsilon_iff (N := N)

/-! ### With and without closures -/

/-- Automata that differ in the closures kept only have the same states and edges. -/
theorem sameGraph_of_uncached_eq (h : N.uncached = M.uncached) : SameGraph N M where
  numStates_eq := (congrArg numStates h :)
  start_eq := (congrArg start h :)
  mem_accepting_iff s := by
    show s ∈ N.uncached.accepting ↔ s ∈ M.uncached.accepting
    rw [h]
  mem_edges_iff e := by
    show e ∈ N.uncached.edges ↔ e ∈ M.uncached.edges
    rw [h]

theorem sameGraph_uncached (N : Nfa) : SameGraph N.uncached N :=
  have h : N.uncached.uncached = N.uncached := rfl
  sameGraph_of_uncached_eq h

theorem WellFormed.epsilonClosure_uncached (hN : N.WellFormed) {S : StateSet} (hS : N.Owns S) :
    N.uncached.epsilonClosure S = N.epsilonClosure S :=
  N.sameGraph_uncached.epsilonClosure_eq hN.uncached hN hS

theorem WellFormed.startClosure_uncached (hN : N.WellFormed) :
    N.uncached.startClosure = N.startClosure :=
  hN.epsilonClosure_uncached hN.owns_start

theorem WellFormed.step_uncached (hN : N.WellFormed) (S : StateSet) (code : Nat) :
    N.uncached.step S code = N.step S code :=
  N.sameGraph_uncached.step_eq hN.uncached hN S code

/-! ### Constructions with and without the step that keeps closures -/

theorem uncached_cacheClosures (N : Nfa) : N.cacheClosures.uncached = N.uncached := by
  unfold cacheClosures
  split <;> rfl

/-- No other step looks at the closures kept. -/
theorem uncached_carryOut (N : Nfa) (k : Counting) (c : Construction) :
    (N.carryOut k c).uncached = (N.uncached.carryOut k c).uncached := by
  cases c with
  | cacheClosures =>
      show N.cacheClosures.uncached = N.uncached.cacheClosures.uncached
      rw [uncached_cacheClosures, uncached_cacheClosures]
      rfl
  | _ => rfl

/-- A step does the same to automata that differ in the closures kept only. -/
theorem uncached_attempt (k : Counting) (h : N.uncached = M.uncached) (c : Construction) :
    (N.attempt k c).uncached = (M.attempt k c).uncached := by
  have hstates : N.numStates = M.numStates := by
    show N.uncached.numStates = M.uncached.numStates
    rw [h]
  cases hc : c.failure? k N.numStates with
  | some e => rw [attempt_of_failure hc, attempt_of_failure (hstates ▸ hc), h]
  | none =>
      rw [attempt_of_no_failure hc, attempt_of_no_failure (hstates ▸ hc), uncached_carryOut, h,
        ← uncached_carryOut]

/-- **Keeping closures on the way changes no other part of what is built**, however states are
counted. -/
theorem uncached_buildBy_of_interspersed {cs ds : List Construction} (k : Counting)
    (h : Construction.Interspersed cs ds) : (buildBy k cs).uncached = (buildBy k ds).uncached := by
  -- past the first step the two automata may differ in the closures kept
  suffices key : ∀ N M : Nfa, N.uncached = M.uncached →
      (cs.foldl (attempt k) N).uncached = (ds.foldl (attempt k) M).uncached from
    key initial initial rfl
  induction h with
  | nil => exact fun _ _ h => h
  | step c _ ih => exact fun N M h => ih _ _ (uncached_attempt k h c)
  | cache _ ih =>
      intro N M h
      refine ih _ _ ?_
      have hcached : M.attempt k .cacheClosures = M.cacheClosures := attempt_of_no_failure rfl
      rw [hcached, uncached_cacheClosures, h]

/-- The steps that keep closures add no states. -/
theorem addedAll_of_interspersed {cs ds : List Construction}
    (h : Construction.Interspersed cs ds) :
    Construction.addedAll cs = Construction.addedAll ds := by
  induction h with
  | nil => rfl
  | step c _ ih => rw [Construction.addedAll, Construction.addedAll, ih]
  | cache _ ih => exact ih.trans (Nat.zero_add _).symm

end Nfa
end SignatureAutomata
