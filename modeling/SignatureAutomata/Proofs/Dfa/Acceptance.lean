import SignatureAutomata.Proofs.Dfa.Determinization

/-! # Determinization keeps the verdicts

From every state, the deterministic automaton accepts what the nondeterministic one
accepts from the set that the state stands for
(`WellFormed.acceptsFrom_determinize`).  The two move alike on a code with a column,
and on a code that labels no edge: without a column the one falls back on the
`Code.sigma` column, and without an edge of its own the other follows the sigma edges.

So both agree while the alphabet grows, as long as no new code labels an edge.
-/

namespace SignatureAutomata
namespace Nfa
variable {α : Type} {N : Nfa} {A : Alphabet α} {s code : Nat} {S : StateSet}

/-- **One move.** -/
theorem WellFormed.exists_next_determinize (hN : N.WellFormed)
    (hs : (N.determinize A).subset s = some S)
    (hcode : code ∈ columns A ∨ N.Unlabelled code) :
    ∃ t, (N.determinize A).next s code = some t ∧
      (N.determinize A).subset t = some (N.step S code) := by
  unfold Dfa.next
  by_cases hcolumn : code ∈ columns A
  · obtain ⟨t, ht, hsubset⟩ := hN.exists_transition_determinize hs hcolumn
    rw [ht]
    exact ⟨t, rfl, hsubset⟩
  · -- both follow `Code.sigma`, for want of a column and for want of an edge
    rw [Dfa.transition_of_not_mem hcolumn, step_eq_step_sigma (hcode.resolve_left hcolumn)]
    exact hN.exists_transition_determinize hs (List.mem_cons_self ..)

/-- **A whole run.** -/
theorem WellFormed.acceptsFrom_determinize (hN : N.WellFormed) {codes : List Nat}
    (hcodes : ∀ code ∈ codes, code ∈ columns A ∨ N.Unlabelled code)
    (hs : (N.determinize A).subset s = some S) :
    (N.determinize A).acceptsFrom s codes = N.acceptsFrom S codes := by
  induction codes generalizing s S with
  | nil =>
      rw [Dfa.acceptsFrom, acceptsFrom, Bool.eq_iff_iff, decide_eq_true_iff,
        mem_accepting_determinize_iff hs, StateSet.intersects_iff]
  | cons code codes ih =>
      rw [List.forall_mem_cons] at hcodes
      obtain ⟨t, ht, hsubset⟩ := hN.exists_next_determinize hs hcodes.1
      rw [Dfa.acceptsFrom, ht, acceptsFrom_cons]
      exact ih hcodes.2 hsubset

theorem epsilon_not_mem_columns (A : Alphabet α) : Code.epsilon ∉ columns A := by
  intro h
  rcases List.mem_cons.1 h with h | h
  · cases h
  · cases (Alphabet.mem_codes_iff.1 h).1

variable [DecidableEq α]

theorem codeOf_mem_columns (A : Alphabet α) (x : α) : A.codeOf x ∈ columns A := by
  by_cases hx : x ∈ A.symbols
  · exact List.mem_cons_of_mem _ (Alphabet.codeOf_mem_codes_iff.2 hx)
  · rw [Alphabet.codeOf_of_not_mem hx]
    exact List.mem_cons_self ..

/-- **Both automata accept the same inputs** over any alphabet whose codes label no edge,
except for those known when the deterministic one was made. -/
theorem WellFormed.accepts_determinize (hN : N.WellFormed) {B : Alphabet α}
    (hnew : ∀ code ∈ B.codes, code ∉ A.codes → N.Unlabelled code) (input : List α) :
    (N.determinize A).accepts B input = N.accepts B input := by
  refine hN.acceptsFrom_determinize (fun code hcode => ?_) (subset_determinize_start N A)
  -- every value has `Code.sigma`, a code known before, or a new one
  obtain ⟨x, -, rfl⟩ := List.mem_map.1 hcode
  rcases List.mem_cons.1 (codeOf_mem_columns B x) with hsigma | hB
  · rw [hsigma]
    exact .inl (List.mem_cons_self ..)
  · by_cases hA : B.codeOf x ∈ A.codes
    · exact .inl (List.mem_cons_of_mem _ hA)
    · exact .inr (hnew _ hB hA)

/-- **However an automaton is constructed, determinization keeps its verdicts** on all
inputs, also after symbols were registered whose new codes label no edge. -/
theorem accepts_determinize_build (cs : List Construction) (A : Alphabet α) (late : List α)
    (hnew : ∀ code ∈ (A.registerAll late).codes, code ∉ A.codes → (build cs).Unlabelled code)
    (input : List α) :
    ((build cs).determinize A).accepts (A.registerAll late) input =
      (build cs).accepts (A.registerAll late) input :=
  (wellFormed_build cs).accepts_determinize hnew input

/-- An automaton with a cycle through an epsilon edge and with an edge for a code that
no symbol has, and two late symbols. -/
theorem accepts_determinize_build_late :
    let cs : List Construction :=
      [.newState, .newState, .transition 0 2 1, .transition 0 9 2, .sigma 1 2, .epsilon 2 0,
        .accepting 2, .cacheClosures]
    let A : Alphabet Nat := .ofList [7]
    (∀ code ∈ (A.registerAll [8, 5]).codes, code ∉ A.codes → (build cs).Unlabelled code) ∧
      ((build cs).determinize A).accepts (A.registerAll [8, 5]) [7, 5, 7, 6] =
        (build cs).accepts (A.registerAll [8, 5]) [7, 5, 7, 6] := by
  exact ⟨by decide, accepts_determinize_build _ _ _ (by decide) _⟩

/-- The condition is needed: a late symbol may get a code that labels an edge, and then
the symbol takes that edge in one automaton only. -/
example :
    let N := build [.newState, .transition 0 3 1, .accepting 1]
    let A : Alphabet Nat := .ofList [7]
    N.accepts (A.register 5) [5] = true ∧
      (N.determinize A).accepts (A.register 5) [5] = false := by decide

end Nfa
end SignatureAutomata
