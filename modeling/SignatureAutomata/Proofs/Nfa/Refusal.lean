import Mathlib.Data.List.Induction
import SignatureAutomata.Proofs.Nfa.Caching

/-! # Which construction steps are refused

A step is refused for one of two causes (`Construction.refusal?`): it asks for a reserved code
where a symbol's is needed, or it names a state that the automaton does not own.  The code is
looked at before any state, and the source of an edge before its target.  Beyond these, the call of
a step can fail only where a counter that stops has no number for one more state
(`Construction.failure?`).

A call that fails leaves the automaton as it was (`run_call_eq_error_iff`).  So whatever the steps,
every edge was laid by a step with no cause to be refused (`exists_step_of_mem_edges`), and the
closures kept are those that would be found anew (`WellFormed.closures_fresh`).
-/

namespace SignatureAutomata
namespace Nfa
variable {k : Counting} {N : Nfa} {c : Construction}

/-- An edge that is new after a step was laid by it. -/
theorem mem_edges_carryOut {e : Edge} (he : e ∈ (N.carryOut k c).edges) :
    c.edge? = some e ∨ e ∈ N.edges := by
  cases c with
  | transition source code target =>
      exact (mem_edges_withEdge.1 he).imp_left fun h => congrArg some h.symm
  | epsilon source target =>
      exact (mem_edges_withEdge.1 he).imp_left fun h => congrArg some h.symm
  | sigma source target =>
      exact (mem_edges_withEdge.1 he).imp_left fun h => congrArg some h.symm
  | cacheClosures =>
      right
      rwa [← edges_cacheClosures N]
  | _ => exact .inr he

/-- A step that is not refused asks for no reserved code. -/
theorem reserved?_eq_none {n : Nat} (h : c.failure? k n = none) : c.reserved? = none := by
  have hrefusal : c.refusal? n = none := by
    rw [← Construction.failure?_unbounded]
    exact failure?_unbounded_of_none h
  unfold Construction.refusal? at hrefusal
  cases hcode : c.reserved? with
  | none => rfl
  | some code =>
      rw [hcode] at hrefusal
      cases hrefusal

/-- An edge that is new after a step was laid by it, and the step asks for no reserved code. -/
theorem mem_edges_attempt {e : Edge} (he : e ∈ (N.attempt k c).edges) :
    e ∈ N.edges ∨ c.edge? = some e ∧ c.reserved? = none := by
  cases hc : c.failure? k N.numStates with
  | some _ =>
      rw [attempt_of_failure hc] at he
      exact .inl he
  | none =>
      rw [attempt_of_no_failure hc] at he
      exact (mem_edges_carryOut he).symm.imp_right fun h => ⟨h, reserved?_eq_none hc⟩

/-! ### Any number of steps -/

/-- **Every edge was laid by a step that asks for no reserved code.** -/
theorem exists_step_of_mem_edges {cs : List Construction} {e : Edge}
    (he : e ∈ (buildBy k cs).edges) : ∃ c ∈ cs, c.edge? = some e ∧ c.reserved? = none := by
  induction cs using List.reverseRecOn with
  | nil => exact absurd he List.not_mem_nil
  | append_singleton cs c ih =>
      rw [buildBy_concat] at he
      rcases mem_edges_attempt he with hold | hnew
      · obtain ⟨d, hd, hlaid⟩ := ih hold
        exact ⟨d, List.mem_append_left _ hd, hlaid⟩
      · exact ⟨c, List.mem_append_right _ (List.mem_singleton_self c), hnew⟩

/-- The closures kept are one for each state, as it would be found anew. -/
theorem WellFormed.closures_fresh (hN : N.WellFormed) {closures : List StateSet}
    (hc : N.closures = some closures) :
    closures.length = N.numStates ∧
      ∀ s < N.numStates, closures[s]? = some (N.uncached.epsilonClosure (.singleton s)) := by
  rw [hN.closures_eq closures hc]
  refine ⟨by rw [List.length_map, List.length_range], fun s hs => ?_⟩
  rw [List.getElem?_map, List.getElem?_range hs]
  rfl

end Nfa
end SignatureAutomata
