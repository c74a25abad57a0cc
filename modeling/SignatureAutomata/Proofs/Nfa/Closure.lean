import SignatureAutomata.Nfa.Path
import SignatureAutomata.Proofs.Exploration

/-! # Closures are what epsilon edges reach

The survey behind a closure finds exactly the states that epsilon edges reach from
the states it starts from (`mem_surveyEpsilon_iff`), whatever the graph.  A closure
that is put together from kept ones agrees with it on the states of the automaton
(`WellFormed.mem_epsilonClosure_iff`), provided that the closures kept are the right
ones, which is part of `WellFormed`.
-/

namespace SignatureAutomata
namespace Nfa
variable {N : Nfa}

/-- A set of states of the automaton. -/
def Owns (N : Nfa) (S : StateSet) : Prop := ∀ s ∈ S, s < N.numStates

/-! ### The survey of epsilon edges -/

theorem reached_targetList_iff {states : List Nat} {t : Nat} :
    Reached (N.targetList · Code.epsilon) states t ↔ ∃ s ∈ states, N.EpsilonReach s t := by
  constructor
  · intro h
    induction h with
    | start hs => exact ⟨_, hs, .refl _⟩
    | step _ ht ih =>
        obtain ⟨s, hs, hst⟩ := ih
        exact ⟨s, hs, .step hst (mem_targetList.1 ht)⟩
  · rintro ⟨s, hs, hst⟩
    induction hst with
    | refl => exact .start hs
    | step _ he ih => exact .step ih (mem_targetList.2 he)

/-- A state that is reached is one of those started from or the end of an edge. -/
theorem atMost_reached_targetList (states : List Nat) :
    AtMost (states.length + N.transitions.length)
      (Reached (N.targetList · Code.epsilon) states) := by
  rw [← N.transitions.length_map (·.target), ← List.length_append]
  refine atMost_of_forall_mem fun t ht => ?_
  cases ht with
  | start hs => exact List.mem_append_left _ hs
  | step _ ht =>
      have he := mem_transitions.2 (mem_targetList.1 ht)
      exact List.mem_append_right _ (List.mem_map.2 ⟨_, he, rfl⟩)

/-- **The survey finds what epsilon edges reach**, and nothing else. -/
theorem mem_surveyEpsilon_iff {states : List Nat} {t : Nat} :
    t ∈ N.surveyEpsilon states ↔ ∃ s ∈ states, N.EpsilonReach s t := by
  rw [surveyEpsilon, StateSet.mem_ofList, mem_reachable_iff (atMost_reached_targetList states),
    reached_targetList_iff]

/-- Only the epsilon edges of an automaton matter. -/
theorem EpsilonReach.mono {M : Nfa}
    (h : ∀ s t, ⟨s, Code.epsilon, t⟩ ∈ N.edges → ⟨s, Code.epsilon, t⟩ ∈ M.edges) {s t : Nat}
    (hst : N.EpsilonReach s t) : M.EpsilonReach s t := by
  induction hst with
  | refl => exact .refl _
  | step _ he ih => exact .step ih (h _ _ he)

theorem surveyEpsilon_congr {M : Nfa}
    (h : ∀ s t, ⟨s, Code.epsilon, t⟩ ∈ N.edges ↔ ⟨s, Code.epsilon, t⟩ ∈ M.edges)
    (states : List Nat) : N.surveyEpsilon states = M.surveyEpsilon states := by
  refine StateSet.ext fun t => ?_
  rw [mem_surveyEpsilon_iff, mem_surveyEpsilon_iff]
  constructor
  · rintro ⟨s, hs, hst⟩
    exact ⟨s, hs, hst.mono fun s t => (h s t).1⟩
  · rintro ⟨s, hs, hst⟩
    exact ⟨s, hs, hst.mono fun s t => (h s t).2⟩

/-! ### Closures, kept or not -/

theorem mem_unionOfClosures_iff {closures : List StateSet} {states : List Nat} {t : Nat} :
    t ∈ unionOfClosures closures states ↔ ∃ s ∈ states, t ∈ closures[s]?.getD ∅ := by
  suffices key : ∀ S : StateSet, t ∈ states.foldl (fun S s => S.union (closures[s]?.getD ∅)) S ↔
      t ∈ S ∨ ∃ s ∈ states, t ∈ closures[s]?.getD ∅ by
    rw [unionOfClosures, key]
    simp
  induction states with
  | nil => simp
  | cons s states ih =>
      intro S
      rw [List.foldl_cons, ih, StateSet.mem_union]
      simp only [List.mem_cons, exists_eq_or_imp, or_assoc]

/-- A kept closure is that of its state. -/
theorem WellFormed.mem_closure_iff (hN : N.WellFormed) {closures : List StateSet}
    (hc : N.closures = some closures) {s : Nat} (hs : s < N.numStates) {t : Nat} :
    t ∈ closures[s]?.getD ∅ ↔ N.EpsilonReach s t := by
  have hget : closures[s]? = some (N.surveyEpsilon [s]) := by
    rw [hN.closures_eq closures hc, List.getElem?_map, List.getElem?_range hs]
    rfl
  rw [hget, Option.getD_some, mem_surveyEpsilon_iff]
  simp

/-- **The closure of a set of states is what epsilon edges reach from it.** -/
theorem WellFormed.mem_epsilonClosure_iff (hN : N.WellFormed) {S : StateSet} (hS : N.Owns S)
    {t : Nat} : t ∈ N.epsilonClosure S ↔ ∃ s ∈ S, N.EpsilonReach s t := by
  unfold epsilonClosure
  cases hc : N.closures with
  | none => exact mem_surveyEpsilon_iff
  | some closures =>
      -- the members of `S` are states of the automaton, so each has a kept closure
      refine mem_unionOfClosures_iff.trans ?_
      constructor
      · rintro ⟨s, hs, ht⟩
        exact ⟨s, hs, (hN.mem_closure_iff hc (hS s hs)).1 ht⟩
      · rintro ⟨s, hs, hst⟩
        exact ⟨s, hs, (hN.mem_closure_iff hc (hS s hs)).2 hst⟩

/-- The empty set is closed. -/
@[simp] theorem epsilonClosure_empty (N : Nfa) : N.epsilonClosure ∅ = ∅ := by
  refine StateSet.eq_empty_of_forall_not_mem fun t ht => ?_
  have hmem : ∀ s, s ∉ (∅ : StateSet).members := StateSet.not_mem_empty
  unfold epsilonClosure at ht
  split at ht
  · obtain ⟨s, hs, -⟩ := mem_unionOfClosures_iff.1 ht
    exact absurd hs (hmem s)
  · obtain ⟨s, hs, -⟩ := mem_surveyEpsilon_iff.1 ht
    exact absurd hs (hmem s)

/-! ### Nothing leads out of the automaton -/

theorem WellFormed.lt_of_epsilonReach (hN : N.WellFormed) {s t : Nat} (hs : s < N.numStates)
    (hst : N.EpsilonReach s t) : t < N.numStates := by
  cases hst with
  | refl => exact hs
  | step _ he => exact (hN.edge_lt _ he).2

theorem WellFormed.owns_epsilonClosure (hN : N.WellFormed) {S : StateSet} (hS : N.Owns S) :
    N.Owns (N.epsilonClosure S) := by
  intro t ht
  obtain ⟨s, hs, hst⟩ := (hN.mem_epsilonClosure_iff hS).1 ht
  exact hN.lt_of_epsilonReach (hS s hs) hst

theorem WellFormed.owns_start (hN : N.WellFormed) : N.Owns (.singleton N.start) := by
  intro s hs
  rw [StateSet.mem_singleton.1 hs]
  exact hN.start_lt

theorem WellFormed.owns_startClosure (hN : N.WellFormed) : N.Owns N.startClosure :=
  hN.owns_epsilonClosure hN.owns_start

end Nfa
end SignatureAutomata
