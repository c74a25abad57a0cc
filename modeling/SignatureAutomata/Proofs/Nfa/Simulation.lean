import SignatureAutomata.Nfa.Simulation
import SignatureAutomata.Proofs.Nfa.Closure

/-! # Running an automaton follows its edges

`Reads N s codes t` says that some edges lead from `s` to `t` and consume the codes
one by one, in any company of epsilon edges.  A run over sets of states accepts
exactly what is read from the start to an accepting state (`WellFormed.accepts_iff`).

Neither of the two shortcuts of a run changes its outcome: stopping at the empty set
(`acceptsFrom_cons`) is right because nothing leads out of it, and closing a set that
is closed already adds nothing.
-/

namespace SignatureAutomata
namespace Nfa
variable {N : Nfa}

/-- **`codes` are read from `s` to `t`**: epsilon edges consume nothing, sigma edges
any code, and all other edges their own label. -/
inductive Reads (N : Nfa) : Nat → List Nat → Nat → Prop where
  | nil (s : Nat) : Reads N s [] s
  | silent {s t u : Nat} {codes : List Nat} :
      ⟨s, Code.epsilon, t⟩ ∈ N.edges → Reads N t codes u → Reads N s codes u
  | consume {s label t u code : Nat} {codes : List Nat} :
      ⟨s, label, t⟩ ∈ N.edges → label = code ∨ label = Code.sigma → Reads N t codes u →
        Reads N s (code :: codes) u

theorem Reads.append {s t u : Nat} {k l : List Nat} (h : N.Reads s k t) (h' : N.Reads t l u) :
    N.Reads s (k ++ l) u := by
  induction h with
  | nil => exact h'
  | silent he _ ih => exact .silent he (ih h')
  | consume he hlabel _ ih => exact .consume he hlabel (ih h')

theorem EpsilonReach.reads {s t u : Nat} {codes : List Nat} (h : N.EpsilonReach s t)
    (h' : N.Reads t codes u) : N.Reads s codes u := by
  induction h with
  | refl => exact h'
  | step _ he ih => exact ih (.silent he h')

theorem reads_nil_iff {s t : Nat} : N.Reads s [] t ↔ N.EpsilonReach s t := by
  constructor
  · intro h
    generalize hc : ([] : List Nat) = codes at h
    induction h with
    | nil => exact .refl _
    | silent he _ ih => exact EpsilonReach.trans (.step (.refl _) he) (ih hc)
    | consume => cases hc
  · exact fun h => h.reads (.nil t)

/-- The first code is consumed by one edge, after epsilon edges. -/
theorem reads_cons_iff {s u code : Nat} {codes : List Nat} :
    N.Reads s (code :: codes) u ↔ ∃ e ∈ N.edges, (e.label = code ∨ e.label = Code.sigma) ∧
      N.EpsilonReach s e.source ∧ N.Reads e.target codes u := by
  constructor
  · intro h
    -- the induction is on the run, and silent edges at its beginning leave all codes to it
    generalize hc : code :: codes = all at h
    induction h with
    | nil => cases hc
    | silent he _ ih =>
        obtain ⟨e, hmem, hlabel, hreach, hreads⟩ := ih hc
        exact ⟨e, hmem, hlabel, EpsilonReach.trans (.step (.refl _) he) hreach, hreads⟩
    | consume he hlabel hreads =>
        cases hc
        exact ⟨_, he, hlabel, .refl _, hreads⟩
  · rintro ⟨⟨p, label, q⟩, he, hlabel, hreach, hreads⟩
    exact hreach.reads (.consume he hlabel hreads)

/-! ### Steps -/

theorem WellFormed.owns_move (hN : N.WellFormed) (S : StateSet) (code : Nat) :
    N.Owns (N.move S code) := by
  intro t ht
  obtain ⟨e, he, -, -, rfl⟩ := mem_move.1 ht
  exact (hN.edge_lt e he).2

theorem WellFormed.owns_step (hN : N.WellFormed) (S : StateSet) (code : Nat) :
    N.Owns (N.step S code) :=
  hN.owns_epsilonClosure (hN.owns_move S code)

@[simp] theorem step_empty (N : Nfa) (code : Nat) : N.step ∅ code = ∅ := by
  have hmove : N.move ∅ code = ∅ := by
    refine StateSet.eq_empty_of_forall_not_mem fun t ht => ?_
    obtain ⟨e, -, -, he, -⟩ := mem_move.1 ht
    rw [epsilonClosure_empty] at he
    exact absurd he (StateSet.not_mem_empty _)
  rw [step, hmove, epsilonClosure_empty]

/-- No edge has the label. -/
def Unlabelled (N : Nfa) (label : Nat) : Prop := ∀ e ∈ N.edges, e.label ≠ label

instance (N : Nfa) (label : Nat) : Decidable (N.Unlabelled label) :=
  inferInstanceAs (Decidable (∀ e ∈ N.edges, e.label ≠ label))

/-- A code that labels no edge moves like a value of any kind. -/
theorem step_eq_step_sigma {code : Nat} (h : N.Unlabelled code) (S : StateSet) :
    N.step S code = N.step S Code.sigma := by
  refine congrArg N.epsilonClosure (StateSet.ext fun t => ?_)
  rw [mem_move, mem_move]
  constructor
  · rintro ⟨e, he, hlabel, hs⟩
    exact ⟨e, he, .inr (hlabel.resolve_left (h e he)), hs⟩
  · rintro ⟨e, he, hlabel, hs⟩
    exact ⟨e, he, .inr (hlabel.elim id id), hs⟩

/-! ### Runs -/

theorem acceptsFrom_empty (N : Nfa) (codes : List Nat) : N.acceptsFrom ∅ codes = false := by
  cases codes with
  | nil => rfl
  | cons code codes =>
      rw [acceptsFrom, step_empty]
      rfl

/-- **Stopping at the empty set is no loss**: a run is a step and the rest of the run. -/
theorem acceptsFrom_cons (S : StateSet) (code : Nat) (codes : List Nat) :
    N.acceptsFrom S (code :: codes) = N.acceptsFrom (N.step S code) codes := by
  rw [acceptsFrom]
  split
  · rename_i hempty
    rw [StateSet.isEmpty_iff.1 hempty, acceptsFrom_empty]
  · rfl

theorem WellFormed.mem_move_epsilonClosure_iff (hN : N.WellFormed) {S : StateSet}
    (hS : N.Owns S) {code t : Nat} :
    t ∈ N.move (N.epsilonClosure S) code ↔ ∃ s ∈ S, ∃ e ∈ N.edges,
      (e.label = code ∨ e.label = Code.sigma) ∧ N.EpsilonReach s e.source ∧ e.target = t := by
  -- a move closes the set again, which adds nothing
  rw [mem_move]
  constructor
  · rintro ⟨e, he, hlabel, hsource, ht⟩
    obtain ⟨p, hp, hpe⟩ := (hN.mem_epsilonClosure_iff (hN.owns_epsilonClosure hS)).1 hsource
    obtain ⟨s, hs, hsp⟩ := (hN.mem_epsilonClosure_iff hS).1 hp
    exact ⟨s, hs, e, he, hlabel, hsp.trans hpe, ht⟩
  · rintro ⟨s, hs, e, he, hlabel, hse, ht⟩
    have hsource : e.source ∈ N.epsilonClosure S := (hN.mem_epsilonClosure_iff hS).2 ⟨s, hs, hse⟩
    exact ⟨e, he, hlabel, (hN.mem_epsilonClosure_iff (hN.owns_epsilonClosure hS)).2
      ⟨_, hsource, .refl _⟩, ht⟩

/-- **A run from the closure of a set accepts what is read from one of its members.** -/
theorem WellFormed.acceptsFrom_epsilonClosure_iff (hN : N.WellFormed) {codes : List Nat}
    {S : StateSet} (hS : N.Owns S) :
    N.acceptsFrom (N.epsilonClosure S) codes = true ↔
      ∃ s ∈ S, ∃ t ∈ N.accepting, N.Reads s codes t := by
  induction codes generalizing S with
  | nil =>
      rw [acceptsFrom, StateSet.intersects_iff]
      constructor
      · rintro ⟨t, ht, hacc⟩
        obtain ⟨s, hs, hst⟩ := (hN.mem_epsilonClosure_iff hS).1 ht
        exact ⟨s, hs, t, hacc, reads_nil_iff.2 hst⟩
      · rintro ⟨s, hs, t, hacc, hst⟩
        exact ⟨t, (hN.mem_epsilonClosure_iff hS).2 ⟨s, hs, reads_nil_iff.1 hst⟩, hacc⟩
  | cons code codes ih =>
      -- a step ends in a closure, so the hypothesis is about the set that is moved to
      rw [acceptsFrom_cons, step, ih (hN.owns_move _ code)]
      constructor
      · rintro ⟨q, hq, t, hacc, hqt⟩
        obtain ⟨s, hs, e, he, hlabel, hse, rfl⟩ := (hN.mem_move_epsilonClosure_iff hS).1 hq
        exact ⟨s, hs, t, hacc, reads_cons_iff.2 ⟨e, he, hlabel, hse, hqt⟩⟩
      · rintro ⟨s, hs, t, hacc, hst⟩
        obtain ⟨e, he, hlabel, hse, hreads⟩ := reads_cons_iff.1 hst
        exact ⟨e.target, (hN.mem_move_epsilonClosure_iff hS).2 ⟨s, hs, e, he, hlabel, hse, rfl⟩,
          t, hacc, hreads⟩

/-- **An input is accepted exactly if its codes are read from the start to an accepting
state.** -/
theorem WellFormed.accepts_iff {α : Type} [DecidableEq α] (hN : N.WellFormed) {A : Alphabet α}
    {input : List α} :
    N.accepts A input = true ↔ ∃ t ∈ N.accepting, N.Reads N.start (input.map A.codeOf) t := by
  rw [accepts, startClosure, hN.acceptsFrom_epsilonClosure_iff hN.owns_start]
  simp

end Nfa
end SignatureAutomata
