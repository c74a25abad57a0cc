import SignatureAutomata.Proofs.Nfa.Caching
import SignatureAutomata.Proofs.Nfa.Walk

/-! # Laws of closures and steps

On sets of its own states, the closure of an automaton is what epsilon edges reach
(`WellFormed.mem_epsilonClosure_iff`).  So it is a closure operator: a set is part of its closure, a
larger set has a larger closure, and a closure is closed.  More than that, a state reaches what it
reaches whatever the company, so the closure of a union is the union of the closures
(`WellFormed.epsilonClosure_union`).  The same goes for moves and for steps
(`WellFormed.step_union`).

Whether closures are kept makes no difference, and a walk from the set finds the closure in as many
turns as there are states in the set and epsilon edges (`WellFormed.iterate_turn_start`).
-/

namespace SignatureAutomata
namespace Nfa
variable {N : Nfa} {S T : StateSet}

theorem Owns.union (hS : N.Owns S) (hT : N.Owns T) : N.Owns (S.union T) := by
  intro s hs
  rcases StateSet.mem_union.1 hs with hs | hs
  · exact hS s hs
  · exact hT s hs

/-! ### Closures -/

/-- **A walk from a set ends with its closure**, whether closures are kept or not. -/
theorem WellFormed.iterate_turn_start (hN : N.WellFormed) (hS : N.Owns S) {n : Nat}
    (h : S.size + (N.edges.filter fun e => e.label = Code.epsilon).length ≤ n) :
    (Walk.turn N)^[n] (.start S.members) = ⟨[], N.epsilonClosure S⟩ := by
  rw [Walk.iterate_turn_start h, ← hN.epsilonClosure_uncached hS]
  rfl

theorem WellFormed.epsilonClosure_cacheClosures (hN : N.WellFormed) (hS : N.Owns S) :
    N.cacheClosures.epsilonClosure S = N.epsilonClosure S := by
  have hS' : N.cacheClosures.Owns S := by
    rwa [Owns, numStates_cacheClosures]
  rw [← hN.cacheClosures.epsilonClosure_uncached hS', uncached_cacheClosures,
    hN.epsilonClosure_uncached hS]

theorem WellFormed.mem_epsilonClosure_of_mem (hN : N.WellFormed) (hS : N.Owns S) {s : Nat}
    (hs : s ∈ S) : s ∈ N.epsilonClosure S :=
  (hN.mem_epsilonClosure_iff hS).2 ⟨s, hs, .refl s⟩

theorem WellFormed.epsilonClosure_mono (hN : N.WellFormed) (hS : N.Owns S) (hT : N.Owns T)
    (hST : ∀ s ∈ S, s ∈ T) : ∀ t ∈ N.epsilonClosure S, t ∈ N.epsilonClosure T := by
  intro t ht
  obtain ⟨s, hs, hst⟩ := (hN.mem_epsilonClosure_iff hS).1 ht
  exact (hN.mem_epsilonClosure_iff hT).2 ⟨s, hST s hs, hst⟩

/-- **A closure is closed.** -/
theorem WellFormed.epsilonClosure_epsilonClosure (hN : N.WellFormed) (hS : N.Owns S) :
    N.epsilonClosure (N.epsilonClosure S) = N.epsilonClosure S := by
  have hclosure : N.Owns (N.epsilonClosure S) := hN.owns_epsilonClosure hS
  refine StateSet.ext fun t => ⟨fun ht => ?_, hN.mem_epsilonClosure_of_mem hclosure⟩
  obtain ⟨q, hq, hqt⟩ := (hN.mem_epsilonClosure_iff hclosure).1 ht
  obtain ⟨s, hs, hsq⟩ := (hN.mem_epsilonClosure_iff hS).1 hq
  exact (hN.mem_epsilonClosure_iff hS).2 ⟨s, hs, hsq.trans hqt⟩

/-- **The closure of a union is the union of the closures.** -/
theorem WellFormed.epsilonClosure_union (hN : N.WellFormed) (hS : N.Owns S) (hT : N.Owns T) :
    N.epsilonClosure (S.union T) = (N.epsilonClosure S).union (N.epsilonClosure T) := by
  refine StateSet.ext fun t => ?_
  rw [StateSet.mem_union, hN.mem_epsilonClosure_iff (hS.union hT), hN.mem_epsilonClosure_iff hS,
    hN.mem_epsilonClosure_iff hT]
  simp only [StateSet.mem_union, or_and_right, exists_or]

/-! ### Moves and steps -/

theorem WellFormed.move_union (hN : N.WellFormed) (hS : N.Owns S) (hT : N.Owns T) (code : Nat) :
    N.move (S.union T) code = (N.move S code).union (N.move T code) := by
  refine StateSet.ext fun t => ?_
  rw [StateSet.mem_union, mem_move, mem_move, mem_move, hN.epsilonClosure_union hS hT]
  simp only [StateSet.mem_union, or_and_right, and_or_left, exists_or]

/-- **A step from a union is the union of the steps.** -/
theorem WellFormed.step_union (hN : N.WellFormed) (hS : N.Owns S) (hT : N.Owns T) (code : Nat) :
    N.step (S.union T) code = (N.step S code).union (N.step T code) := by
  rw [step, hN.move_union hS hT,
    hN.epsilonClosure_union (hN.owns_move S code) (hN.owns_move T code)]
  rfl

/-- Only a step on `Code.epsilon` is refused. -/
theorem step?_of_pos {code : Nat} (h : 1 ≤ code) (S : StateSet) :
    N.step? S code = .ok (N.step S code) :=
  if_neg (Nat.ne_of_gt h)

/-- **However an automaton is constructed, the closure of a set of its states is what epsilon edges
reach from it**, and a walk along these edges ends with it.  It does not depend on whether closures
are kept.  A set is part of its closure, a larger set has a larger closure, a closure is closed, and
closures distribute over unions.  So do steps on every code but `Code.epsilon`. -/
theorem epsilonClosure_build (cs : List Construction) {S T : StateSet} (hS : (build cs).Owns S)
    (hT : (build cs).Owns T) :
    let N := build cs
    (∀ n, S.size + (N.edges.filter fun e => e.label = Code.epsilon).length ≤ n →
      (Walk.turn N)^[n] (.start S.members) = ⟨[], N.epsilonClosure S⟩) ∧
    (∀ t, t ∈ N.epsilonClosure S ↔ ∃ s ∈ S, N.EpsilonReach s t) ∧
    N.uncached.epsilonClosure S = N.epsilonClosure S ∧
    N.cacheClosures.epsilonClosure S = N.epsilonClosure S ∧
    (∀ s ∈ S, s ∈ N.epsilonClosure S) ∧
    ((∀ s ∈ S, s ∈ T) → ∀ t ∈ N.epsilonClosure S, t ∈ N.epsilonClosure T) ∧
    N.epsilonClosure (N.epsilonClosure S) = N.epsilonClosure S ∧
    N.epsilonClosure (S.union T) = (N.epsilonClosure S).union (N.epsilonClosure T) ∧
    ∀ code, 1 ≤ code → ∃ U V, N.step? S code = .ok U ∧ N.step? T code = .ok V ∧
      N.step? (S.union T) code = .ok (U.union V) := by
  intro N
  have hN : N.WellFormed := wellFormed_build cs
  refine ⟨fun _ h => hN.iterate_turn_start hS h, fun _ => hN.mem_epsilonClosure_iff hS,
    hN.epsilonClosure_uncached hS, hN.epsilonClosure_cacheClosures hS,
    fun _ => hN.mem_epsilonClosure_of_mem hS, hN.epsilonClosure_mono hS hT,
    hN.epsilonClosure_epsilonClosure hS, hN.epsilonClosure_union hS hT, fun code hcode => ?_⟩
  refine ⟨N.step S code, N.step T code, step?_of_pos hcode S, step?_of_pos hcode T, ?_⟩
  rw [step?_of_pos hcode, hN.step_union hS hT]

/-- Two epsilon cycles that share a state, and an epsilon edge from a state to itself. -/
theorem epsilonClosure_build_cycles :
    let N := build [.newState, .newState, .newState, .epsilon 0 1, .epsilon 1 0, .epsilon 1 2,
      .epsilon 2 1, .epsilon 3 3, .sigma 2 3, .cacheClosures]
    N.Owns (.singleton 0) ∧ N.Owns (.singleton 3) ∧
      N.epsilonClosure (.singleton 0) = .ofList [0, 1, 2] ∧
      (Walk.turn N)^[6] (.start [0]) = ⟨[], N.epsilonClosure (.singleton 0)⟩ ∧
      N.epsilonClosure ((StateSet.singleton 0).union (.singleton 3)) =
        (N.epsilonClosure (.singleton 0)).union (N.epsilonClosure (.singleton 3)) := by
  intro N
  have howns : ∀ q, q < N.numStates → N.Owns (.singleton q) := fun q hq s hs =>
    StateSet.mem_singleton.1 hs ▸ hq
  have hS : N.Owns (.singleton 0) := howns 0 (by decide)
  have hT : N.Owns (.singleton 3) := howns 3 (by decide)
  obtain ⟨hwalk, -, -, -, -, -, -, hunion, -⟩ := epsilonClosure_build _ hS hT
  exact ⟨hS, hT, by decide, hwalk 6 (by decide), hunion⟩

end Nfa
end SignatureAutomata
