import SignatureAutomata.Proofs.Matcher.Emission
import SignatureAutomata.Proofs.Nfa.Emptiness

/-! # Deterministic automata that accept nothing

Every state of a subset automaton is reached from the start, so `Dfa.isEmpty` comes down to
whether there is an accepting state at all (`SubsetAutomaton.isEmpty_iff`).  The search goes by
columns, though, and an input by values.  The column of a symbol is that of a value; the column
of `Code.sigma` need not be, because all values of the type may be registered.

A word over columns that leads to an accepting state is therefore carried back to the
nondeterministic automaton, where it is read along edges.  An edge taken on `Code.sigma` takes
every value, so there some input takes the same edges (`Reads.exists_input`), and determinization
keeps its verdict.
-/

namespace SignatureAutomata

namespace Dfa
variable {D : Dfa}

/-- An accepted word ends in an accepting state. -/
theorem exists_mem_accepting {s : Nat} {codes : List Nat} (h : D.acceptsFrom s codes = true) :
    ∃ t, t ∈ D.accepting := by
  induction codes generalizing s with
  | nil => exact ⟨s, of_decide_eq_true h⟩
  | cons code codes ih =>
      rw [acceptsFrom] at h
      split at h
      · cases h
      · exact ih h

/-- A word of codes with columns is accepted if it leads to an accepting state. -/
theorem acceptsFrom_of_follow {s t : Nat} {word : List Nat} (h : D.follow s word = some t)
    (ht : t ∈ D.accepting) : D.acceptsFrom s word = true := by
  induction word generalizing s with
  | nil =>
      obtain rfl := Option.some.inj h
      exact decide_eq_true ht
  | cons code word ih =>
      obtain ⟨u, hu, hut⟩ := Option.bind_eq_some_iff.1 h
      have hnext : D.next s code = some u := by rw [next, hu]
      rw [acceptsFrom, hnext]
      exact ih hut

/-- Where the columns lead from a state. -/
def ends (D : Dfa) (s : Nat) : List Nat := D.columns.filterMap (D.transition s)

/-- The search meets what a word leads to. -/
theorem reached_of_follow {s t : Nat} {word : List Nat} (hs : Reached D.ends [D.start] s)
    (h : D.follow s word = some t) : Reached D.ends [D.start] t := by
  induction word generalizing s with
  | nil => exact Option.some.inj h ▸ hs
  | cons code word ih =>
      obtain ⟨u, hu, hut⟩ := Option.bind_eq_some_iff.1 h
      have hcode : code ∈ D.columns := mem_columns_of_transition hu
      exact ih (.step hs (List.mem_filterMap.2 ⟨code, hcode, hu⟩)) hut

end Dfa

namespace SubsetAutomaton
variable {α : Type} {N : Nfa} {A : Alphabet α} {D : Dfa} {s : Nat}

/-- **The search meets all states**, and nothing else. -/
theorem reached_ends_iff (h : SubsetAutomaton N (Nfa.columns A) D) :
    Reached D.ends [D.start] s ↔ s < D.numStates := by
  constructor
  · intro hs
    induction hs with
    | start hs => exact List.mem_singleton.1 hs ▸ h.start_lt
    | step _ ht ih =>
        obtain ⟨code, -, ht⟩ := List.mem_filterMap.1 ht
        exact h.transition_lt ih ht
  · intro hs
    obtain ⟨word, -, hfollow⟩ := h.exists_follow s hs
    exact Dfa.reached_of_follow (.start (List.mem_singleton.2 rfl)) hfollow

theorem atMost_reached_ends (h : SubsetAutomaton N (Nfa.columns A) D) :
    AtMost D.numStates (Reached D.ends [D.start]) := by
  have hatMost : AtMost (List.range D.numStates).length (Reached D.ends [D.start]) :=
    atMost_of_forall_mem fun s hs => List.mem_range.2 (h.reached_ends_iff.1 hs)
  rwa [List.length_range] at hatMost

/-- **A subset automaton is called empty if it has no accepting state.** -/
theorem isEmpty_iff (h : SubsetAutomaton N (Nfa.columns A) D) :
    D.isEmpty = true ↔ ∀ s, s ∉ D.accepting := by
  have hsearch : D.isEmpty = (reachable D.ends D.numStates [D.start]).all (· ∉ D.accepting) := rfl
  rw [hsearch, all_reachable_iff h.atMost_reached_ends]
  simp only [decide_eq_true_eq, h.reached_ends_iff]
  constructor
  · intro hnone s hs
    exact hnone s (h.accepting_lt s hs) hs
  · exact fun hnone s _ => hnone s

/-- The automaton decides alike whatever was registered since. -/
theorem accepts_registerAll [DecidableEq α] (h : SubsetAutomaton N (Nfa.columns A) D)
    (late input : List α) : D.accepts (A.registerAll late) input = D.accepts A input :=
  -- the matcher is one and the same at both times, and decides as the automaton does
  Option.some.inj ((Matcher.run?_ofDfa h late input).symm.trans (Matcher.run?_ofDfa h [] input))

end SubsetAutomaton

namespace Nfa
variable {α : Type} [DecidableEq α] [Nonempty α] {N : Nfa} {A : Alphabet α}

/-- **Behind every accepting state there is an input.** -/
theorem WellFormed.exists_accepts_determinize (hN : N.WellFormed) {s : Nat}
    (hs : s ∈ (N.determinize A).accepting) :
    ∃ input : List α, (N.determinize A).accepts A input = true := by
  have h := hN.subsetAutomaton A
  obtain ⟨word, hword, hfollow⟩ := h.exists_follow s (h.accepting_lt s hs)
  have haccepts : N.acceptsFrom (N.epsilonClosure (.singleton N.start)) word = true := by
    rw [← Dfa.acceptsFrom_of_follow hfollow hs]
    exact (hN.acceptsFrom_determinize (fun code hcode => .inl (hword code hcode))
      h.subset_start).symm
  obtain ⟨_, hstart, t, ht, hreads⟩ := (hN.acceptsFrom_epsilonClosure_iff hN.owns_start).1 haccepts
  rw [StateSet.mem_singleton.1 hstart] at hreads
  obtain ⟨input, hinput⟩ := hreads.exists_input hword
  refine ⟨input, ?_⟩
  rw [hN.accepts_determinize fun _ hcode hnew => absurd hcode hnew]
  exact hN.accepts_iff.2 ⟨t, ht, hinput⟩

/-- **However an automaton is constructed, its determinization is called empty exactly if it
accepts nothing**, at that time and at any later one, also if all values are registered. -/
theorem isEmpty_determinize_build_iff (cs : List Construction) (A : Alphabet α)
    (late : List α) :
    ((build cs).determinize A).isEmpty = true ↔
      ∀ input, ((build cs).determinize A).accepts (A.registerAll late) input = false := by
  have hN : (build cs).WellFormed := wellFormed_build cs
  have h := hN.subsetAutomaton A
  simp only [h.isEmpty_iff, h.accepts_registerAll]
  constructor
  · intro hnone input
    refine Bool.eq_false_iff.2 fun haccepts => ?_
    obtain ⟨s, hs⟩ := Dfa.exists_mem_accepting haccepts
    exact hnone s hs
  · intro hnothing s hs
    obtain ⟨input, hinput⟩ := hN.exists_accepts_determinize hs
    rw [hnothing input] at hinput
    cases hinput

/-- Both values of the type are registered, and only `Code.sigma` leads to an accepting
state of the nondeterministic automaton. -/
theorem isEmpty_determinize_build_iff_bool :
    let D := (build [.newState, .transition 0 2 0, .sigma 0 1, .accepting 1]).determinize
      (.ofList [true, false])
    Nonempty Bool ∧ D.isEmpty = false ∧
      ¬ ∀ input, D.accepts ((Alphabet.ofList [true, false]).registerAll [true]) input = false := by
  intro D
  have hempty : D.isEmpty = false := by decide
  refine ⟨inferInstance, hempty, fun hnothing => ?_⟩
  have htrue : D.isEmpty = true := (isEmpty_determinize_build_iff _ _ [true]).2 hnothing
  rw [hempty] at htrue
  cases htrue

end Nfa
end SignatureAutomata
