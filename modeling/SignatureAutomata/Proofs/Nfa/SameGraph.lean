import SignatureAutomata.Dfa.Determinization
import SignatureAutomata.Proofs.Nfa.Simulation

/-! # What does not depend on how an automaton is kept

Two automata may be the same to anyone who asks only about states and edges (`SameGraph`), and yet
be kept differently: with or without the closures of their states, and with their edges in maps of
different orders.  They agree on the closure of every set of their own states, so they move, step,
accept and determinize alike (`SameGraph.step_eq`, `SameGraph.accepts_eq`,
`SameGraph.determinize_eq`).

They may differ on a set with foreign numbers.  Nothing leads out of a foreign number, so it is
only itself at stake: it is in the closure of a set that it is a member of exactly if no
closures are kept (`WellFormed.mem_epsilonClosure_of_le`).  No edge leaves it either, so a move
does not notice.
-/

namespace SignatureAutomata
namespace Nfa
variable {N M : Nfa}

/-! ### Foreign numbers -/

/-- No epsilon edge leaves a foreign number. -/
theorem WellFormed.eq_of_epsilonReach (hN : N.WellFormed) {s t : Nat} (hs : N.numStates ≤ s)
    (hst : N.EpsilonReach s t) : t = s := by
  induction hst with
  | refl => rfl
  | @step t u _ he ih =>
      have hlt : t < N.numStates := (hN.edge_lt _ he).1
      omega

/-- A kept closure is one of a state, and has states only. -/
theorem WellFormed.mem_epsilonClosure_cached_iff (hN : N.WellFormed) {closures : List StateSet}
    (hc : N.closures = some closures) {S : StateSet} {t : Nat} :
    t ∈ N.epsilonClosure S ↔ ∃ s ∈ S, s < N.numStates ∧ N.EpsilonReach s t := by
  unfold epsilonClosure
  rw [hc]
  refine mem_unionOfClosures_iff.trans ?_
  constructor
  · rintro ⟨s, hs, ht⟩
    by_cases hlt : s < N.numStates
    · exact ⟨s, hs, hlt, (hN.mem_closure_iff hc hlt).1 ht⟩
    · -- there is no closure in a place beyond the states
      have hget : closures[s]? = none := by
        rw [hN.closures_eq closures hc, List.getElem?_eq_none_iff, List.length_map,
          List.length_range]
        omega
      rw [hget] at ht
      exact absurd ht (StateSet.not_mem_empty t)
  · rintro ⟨s, hs, hlt, hst⟩
    exact ⟨s, hs, (hN.mem_closure_iff hc hlt).2 hst⟩

/-- **On the states of the automaton a closure is what epsilon edges reach**, whatever set it
is the closure of. -/
theorem WellFormed.mem_epsilonClosure_of_lt (hN : N.WellFormed) {S : StateSet} {t : Nat}
    (ht : t < N.numStates) : t ∈ N.epsilonClosure S ↔ ∃ s ∈ S, N.EpsilonReach s t := by
  cases hc : N.closures with
  | none =>
      unfold epsilonClosure
      rw [hc]
      exact mem_surveyEpsilon_iff
  | some closures =>
      rw [hN.mem_epsilonClosure_cached_iff hc]
      constructor
      · rintro ⟨s, hs, -, hst⟩
        exact ⟨s, hs, hst⟩
      · rintro ⟨s, hs, hst⟩
        refine ⟨s, hs, Nat.lt_of_not_le fun hle => ?_, hst⟩
        have hts : t = s := hN.eq_of_epsilonReach hle hst
        omega

/-- **A foreign number is in the closure of its sets exactly if no closures are kept.** -/
theorem WellFormed.mem_epsilonClosure_of_le (hN : N.WellFormed) {S : StateSet} {t : Nat}
    (ht : N.numStates ≤ t) : t ∈ N.epsilonClosure S ↔ t ∈ S ∧ N.closures = none := by
  cases hc : N.closures with
  | none =>
      unfold epsilonClosure
      rw [hc]
      refine mem_surveyEpsilon_iff.trans ?_
      constructor
      · rintro ⟨s, hs, hst⟩
        by_cases hlt : s < N.numStates
        · have hlt' : t < N.numStates := hN.lt_of_epsilonReach hlt hst
          omega
        · have hts : t = s := hN.eq_of_epsilonReach (by omega) hst
          exact ⟨hts ▸ hs, rfl⟩
      · rintro ⟨hs, -⟩
        exact ⟨t, hs, .refl t⟩
  | some closures =>
      rw [hN.mem_epsilonClosure_cached_iff hc]
      constructor
      · rintro ⟨s, -, hlt, hst⟩
        have hlt' : t < N.numStates := hN.lt_of_epsilonReach hlt hst
        omega
      · rintro ⟨-, hnone⟩
        cases hnone

/-! ### The same states and edges -/

/-- **Automata with the same states, start, accepting states and edges.** -/
structure SameGraph (N M : Nfa) : Prop where
  numStates_eq : N.numStates = M.numStates
  start_eq : N.start = M.start
  mem_accepting_iff : ∀ s, s ∈ N.accepting ↔ s ∈ M.accepting
  mem_edges_iff : ∀ e, e ∈ N.edges ↔ e ∈ M.edges

namespace SameGraph

theorem symm (h : SameGraph N M) : SameGraph M N :=
  ⟨h.numStates_eq.symm, h.start_eq.symm, fun s => (h.mem_accepting_iff s).symm,
    fun e => (h.mem_edges_iff e).symm⟩

theorem trans {L : Nfa} (h : SameGraph N M) (h' : SameGraph M L) : SameGraph N L :=
  ⟨h.numStates_eq.trans h'.numStates_eq, h.start_eq.trans h'.start_eq,
    fun s => (h.mem_accepting_iff s).trans (h'.mem_accepting_iff s),
    fun e => (h.mem_edges_iff e).trans (h'.mem_edges_iff e)⟩

theorem accepting_eq (h : SameGraph N M) : N.accepting = M.accepting :=
  StateSet.ext h.mem_accepting_iff

theorem surveyEpsilon_eq (h : SameGraph N M) (states : List Nat) :
    N.surveyEpsilon states = M.surveyEpsilon states :=
  surveyEpsilon_congr (fun _ _ => h.mem_edges_iff _) states

theorem epsilonReach_iff (h : SameGraph N M) {s t : Nat} :
    N.EpsilonReach s t ↔ M.EpsilonReach s t :=
  ⟨fun hst => hst.mono fun _ _ => (h.mem_edges_iff _).1,
    fun hst => hst.mono fun _ _ => (h.mem_edges_iff _).2⟩

/-- A path of the one is a path of the other. -/
theorem path (h : SameGraph N M) {s t : Nat} {labels : List Nat} (hpath : N.Path s labels t) :
    M.Path s labels t := by
  induction hpath with
  | nil s => exact .nil s
  | cons he _ ih => exact .cons ((h.mem_edges_iff _).1 he) ih

section
variable (h : SameGraph N M) (hN : N.WellFormed) (hM : M.WellFormed)
include h hN hM

/-- A set of states of the automaton has the same closure. -/
theorem epsilonClosure_eq {S : StateSet} (hS : N.Owns S) :
    N.epsilonClosure S = M.epsilonClosure S := by
  have hS' : M.Owns S := fun s hs => h.numStates_eq ▸ hS s hs
  refine StateSet.ext fun t => ?_
  rw [hN.mem_epsilonClosure_iff hS, hM.mem_epsilonClosure_iff hS']
  simp only [h.epsilonReach_iff]

theorem startClosure_eq : N.startClosure = M.startClosure := by
  rw [startClosure, startClosure, ← h.start_eq]
  exact h.epsilonClosure_eq hN hM hN.owns_start

/-- An edge leaves a state, so foreign numbers in a set do not matter for a move. -/
theorem move_eq (S : StateSet) (code : Nat) : N.move S code = M.move S code := by
  refine StateSet.ext fun t => ?_
  rw [mem_move, mem_move]
  have hsource : ∀ e ∈ N.edges, e.source ∈ N.epsilonClosure S ↔ e.source ∈ M.epsilonClosure S := by
    intro e he
    have hlt : e.source < N.numStates := (hN.edge_lt e he).1
    rw [hN.mem_epsilonClosure_of_lt hlt, hM.mem_epsilonClosure_of_lt (h.numStates_eq ▸ hlt)]
    simp only [h.epsilonReach_iff]
  constructor
  · rintro ⟨e, he, hlabel, hs, ht⟩
    exact ⟨e, (h.mem_edges_iff e).1 he, hlabel, (hsource e he).1 hs, ht⟩
  · rintro ⟨e, he, hlabel, hs, ht⟩
    have he : e ∈ N.edges := (h.mem_edges_iff e).2 he
    exact ⟨e, he, hlabel, (hsource e he).2 hs, ht⟩

theorem step_eq (S : StateSet) (code : Nat) : N.step S code = M.step S code := by
  rw [step, step, h.epsilonClosure_eq hN hM (hN.owns_move S code), h.move_eq hN hM]

theorem acceptsFrom_eq (S : StateSet) (codes : List Nat) :
    N.acceptsFrom S codes = M.acceptsFrom S codes := by
  induction codes generalizing S with
  | nil => rw [acceptsFrom, acceptsFrom, h.accepting_eq]
  | cons code codes ih => rw [acceptsFrom_cons, acceptsFrom_cons, h.step_eq hN hM, ih]

theorem accepts_eq {α : Type} [DecidableEq α] (A : Alphabet α) (input : List α) :
    N.accepts A input = M.accepts A input := by
  rw [accepts, accepts, h.startClosure_eq hN hM, h.acceptsFrom_eq hN hM]

/-- **The survey of sets is the same**, so that the sets get the same numbers. -/
theorem surveySubsets_eq (columns : List Nat) :
    N.surveySubsets columns = M.surveySubsets columns := by
  have hsuccessors : N.successors columns = M.successors columns := by
    funext S
    exact List.map_congr_left fun code _ => h.step_eq hN hM S code
  have hdiscovery : N.discovery = M.discovery := by
    funext state S
    rw [discovery, discovery, h.accepting_eq]
  rw [surveySubsets, surveySubsets, hsuccessors, hdiscovery, h.startClosure_eq hN hM,
    h.numStates_eq]

theorem determinize_eq {α : Type} (A : Alphabet α) : N.determinize A = M.determinize A := by
  rw [determinize, determinize, h.surveySubsets_eq hN hM, toDfa, toDfa, h.accepting_eq]

end

end SameGraph
end Nfa
end SignatureAutomata
