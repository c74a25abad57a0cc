import SignatureAutomata.Matcher
import SignatureAutomata.Proofs.Dfa.Acceptance

/-! # The matcher of a deterministic automaton

The matcher of a subset automaton is well formed (`wellFormed_ofDfa`) and decides the
same inputs (`run?_ofDfa`), though the two look a value up differently.  The automaton
asks the alphabet as it is now for a code and falls back on the `Code.sigma` column if
the code has no column.  The matcher searches the literals, which are the symbols that
were registered when the automaton was made, and goes to the column next to the
literal's place.

They meet in one transition: that on the code which the value had when the automaton
was made (`next_codeOf_registerAll`, `next?_ofDfa`).
-/

namespace SignatureAutomata

/-- What is found for every member of a list is kept in place. -/
theorem getElem?_filterMap_of_isSome {α β : Type} {f : α → Option β} :
    ∀ {l : List α}, (∀ x ∈ l, (f x).isSome) → ∀ i : Nat, (l.filterMap f)[i]? = l[i]?.bind f
  | [], _, _ => rfl
  | x :: l, h, i => by
      rw [List.forall_mem_cons] at h
      obtain ⟨y, hy⟩ := Option.isSome_iff_exists.1 h.1
      rw [List.filterMap_cons_some hy]
      cases i with
      | zero => exact hy.symm
      | succ i => exact getElem?_filterMap_of_isSome h.2 i

/-- A code with a column is the code of its column. -/
theorem getElem?_columns_of_mem {α : Type} {A : Alphabet α} {code : Nat}
    (h : code ∈ Nfa.columns A) :
    ∃ column, Code.column code = some column ∧ (Nfa.columns A)[column]? = some code := by
  have hrange : Nfa.columns A = List.range' Code.sigma (A.size + 1) := rfl
  rw [hrange] at h ⊢
  obtain ⟨column, hlt, rfl⟩ := List.mem_range'.1 h
  refine ⟨column, ?_, List.getElem?_range' hlt⟩
  rw [Nat.one_mul, Nat.add_comm]
  rfl

namespace SubsetAutomaton
variable {α : Type} {N : Nfa} {A : Alphabet α} {D : Dfa} {s t code : Nat}

theorem isSome_transition (h : SubsetAutomaton N (Nfa.columns A) D) (hs : s < D.numStates) :
    ∀ code ∈ D.columns, (D.transition s code).isSome := by
  intro code hcode
  obtain ⟨t, ht, -⟩ := h.exists_transition s hs code (h.columns_eq ▸ hcode)
  exact Option.isSome_iff_exists.2 ⟨t, ht⟩

/-- Transitions lead to states. -/
theorem transition_lt (h : SubsetAutomaton N (Nfa.columns A) D) (hs : s < D.numStates)
    (ht : D.transition s code = some t) : t < D.numStates := by
  obtain ⟨S, hS⟩ := Dfa.exists_subset_iff.2 hs
  exact Dfa.exists_subset_iff.1 ⟨_, h.subset_transition s code t S ht hS⟩

theorem start_lt (h : SubsetAutomaton N (Nfa.columns A) D) : D.start < D.numStates :=
  Dfa.exists_subset_iff.1 ⟨_, h.subset_start⟩

theorem numSymbols_eq (h : SubsetAutomaton N (Nfa.columns A) D) : D.numSymbols = A.size := by
  rw [Dfa.numSymbols, h.columns_eq]
  simp [Nfa.columns, Alphabet.codes]

variable [DecidableEq α]

/-- Every value leads on from every state. -/
theorem exists_transition_codeOf (h : SubsetAutomaton N (Nfa.columns A) D)
    (hs : s < D.numStates) (x : α) : ∃ t, D.transition s (A.codeOf x) = some t := by
  obtain ⟨t, ht, -⟩ := h.exists_transition s hs _ (Nfa.codeOf_mem_columns A x)
  exact ⟨t, ht⟩

/-- **A value registered since moves like one that is not registered.** -/
theorem next_codeOf_registerAll (h : SubsetAutomaton N (Nfa.columns A) D)
    (hs : s < D.numStates) (late : List α) (x : α) :
    D.next s ((A.registerAll late).codeOf x) = D.transition s (A.codeOf x) := by
  unfold Dfa.next
  by_cases hx : x ∈ A.symbols
  · obtain ⟨t, ht⟩ := h.exists_transition_codeOf hs x
    rw [Alphabet.codeOf_registerAll hx, ht]
  · rw [Alphabet.codeOf_of_not_mem hx]
    by_cases hsigma : (A.registerAll late).codeOf x = Code.sigma
    · -- still not registered: both look at the same column
      rw [hsigma]
      cases D.transition s Code.sigma <;> rfl
    · -- registered since: the new code has no column, which leaves that of `Code.sigma`
      have hcode : (A.registerAll late).codeOf x ∉ D.columns := by
        rw [h.columns_eq]
        exact List.not_mem_cons_of_ne_of_not_mem hsigma
          (Alphabet.codeOf_registerAll_not_mem_codes hx late)
      rw [Dfa.transition_of_not_mem hcode]

end SubsetAutomaton

namespace Matcher
variable {α : Type} {N : Nfa} {A : Alphabet α} {D : Dfa} {s : Nat}

/-! ### Accepting states -/

theorem isAccepting_ofDfa (A : Alphabet α) (D : Dfa) (s : Nat) :
    (ofDfa A D).isAccepting s = decide (s ∈ D.accepting) := by
  rw [Bool.eq_iff_iff, decide_eq_true_iff]
  exact binarySearch_iff D.accepting.ascending

/-! ### Shape -/

theorem numStates_ofDfa (A : Alphabet α) (D : Dfa) : (ofDfa A D).numStates = D.numStates := by
  rw [numStates, ofDfa, List.length_map, List.length_range]

theorem symbols_ofDfa (h : SubsetAutomaton N (Nfa.columns A) D) :
    (ofDfa A D).symbols = A.symbols := by
  rw [ofDfa, h.numSymbols_eq]
  exact List.take_length

/-- **The matcher of a subset automaton is well formed.** -/
theorem wellFormed_ofDfa (h : SubsetAutomaton N (Nfa.columns A) D) : (ofDfa A D).WellFormed := by
  refine ⟨?_, ?_, ?_, D.accepting.ascending, ?_⟩
  · rw [numStates_ofDfa]
    exact h.start_lt
  · intro row hrow
    obtain ⟨s, hs, rfl⟩ := List.mem_map.1 hrow
    rw [List.filterMap_length_eq_length.2 (h.isSome_transition (List.mem_range.1 hs)),
      h.columns_eq, numColumns, symbols_ofDfa h]
    simp [Nfa.columns, Alphabet.codes, Alphabet.size]
  · intro row hrow t ht
    obtain ⟨s, hs, rfl⟩ := List.mem_map.1 hrow
    obtain ⟨code, -, ht⟩ := List.mem_filterMap.1 ht
    rw [numStates_ofDfa]
    exact h.transition_lt (List.mem_range.1 hs) ht
  · intro s hs
    rw [numStates_ofDfa]
    exact h.accepting_lt s hs

variable [DecidableEq α]

/-- **Symbols registered since leave no trace in the matcher.** -/
theorem ofDfa_registerAll (h : SubsetAutomaton N (Nfa.columns A) D) (late : List α) :
    ofDfa (A.registerAll late) D = ofDfa A D := by
  have htake : (A.registerAll late).symbols.take D.numSymbols = A.symbols.take D.numSymbols := by
    obtain ⟨l, hl⟩ := Alphabet.symbols_isPrefix_registerAll A late
    have hle : A.size ≤ A.symbols.length := Nat.le_refl _
    rw [← hl, h.numSymbols_eq, List.take_append_of_le_length hle]
  rw [ofDfa, htake]
  rfl

/-! ### Runs -/

/-- **The matcher knows the code that a value had when the automaton was made.** -/
theorem classify_ofDfa (h : SubsetAutomaton N (Nfa.columns A) D) (x : α) :
    (ofDfa A D).classify x = A.codeOf x := by
  unfold classify
  rw [symbols_ofDfa h]
  by_cases hx : x ∈ A.symbols
  · -- the place among the literals is the place among the symbols
    rw [Alphabet.codeOf_of_mem hx]
    obtain ⟨i, hi⟩ := Option.isSome_iff_exists.1 (List.isSome_idxOf?.2 hx)
    rw [hi, List.idxOf_eq_getD_idxOf?, hi]
    rfl
  · rw [Alphabet.codeOf_of_not_mem hx, List.idxOf?_eq_none_iff.2 hx]

/-- An entry of the table is a transition of the automaton. -/
theorem next?_ofDfa (h : SubsetAutomaton N (Nfa.columns A) D) (hs : s < D.numStates) (x : α) :
    (ofDfa A D).next? s x = D.transition s (A.codeOf x) := by
  obtain ⟨column, hcolumn, hget⟩ := getElem?_columns_of_mem (Nfa.codeOf_mem_columns A x)
  have hrow : (ofDfa A D).table[s]? = some (D.columns.filterMap (D.transition s)) := by
    rw [ofDfa, List.getElem?_map, List.getElem?_range hs]
    rfl
  rw [next?, hrow, classify_ofDfa h, hcolumn]
  show (D.columns.filterMap (D.transition s))[column]? = _
  rw [getElem?_filterMap_of_isSome (h.isSome_transition hs), h.columns_eq, hget]
  rfl

theorem map_runFrom?_ofDfa (h : SubsetAutomaton N (Nfa.columns A) D) (hs : s < D.numStates)
    (late input : List α) :
    ((ofDfa A D).runFrom? s input).map (ofDfa A D).isAccepting =
      some (D.acceptsFrom s (input.map (A.registerAll late).codeOf)) := by
  induction input generalizing s with
  | nil => exact congrArg some (isAccepting_ofDfa A D s)
  | cons x input ih =>
      have hnext := h.next_codeOf_registerAll hs late x
      obtain ⟨t, ht⟩ := h.exists_transition_codeOf hs x
      rw [runFrom?, next?_ofDfa h hs, ht, Option.bind_some, List.map_cons, Dfa.acceptsFrom, hnext,
        ht]
      exact ih (h.transition_lt hs ht)

/-- **The matcher decides what the automaton decides**, whatever was registered since. -/
theorem run?_ofDfa (h : SubsetAutomaton N (Nfa.columns A) D) (late input : List α) :
    (ofDfa A D).run? input = some (D.accepts (A.registerAll late) input) :=
  map_runFrom?_ofDfa h h.start_lt late input

/-- **However an automaton is constructed, its matcher is the same at any later time**,
is valid, classifies a value by the code that it had at determinization, and decides what
the deterministic automaton decides while the alphabet goes on growing. -/
theorem ofDfa_determinize_build (cs : List Construction) (A : Alphabet α)
    (before after : List α) :
    let D := (Nfa.build cs).determinize A
    let m := ofDfa (A.registerAll before) D
    let B := (A.registerAll before).registerAll after
    m = ofDfa A D ∧ m.validate = .ok () ∧
      (∀ x, m.classify x = A.codeOf x) ∧
      (∀ x, m.classify x = if x ∈ A.symbols then B.codeOf x else Code.sigma) ∧
      ∀ input, m.run? input = some (D.accepts B input) := by
  intro D m B
  have h : SubsetAutomaton (Nfa.build cs) (Nfa.columns A) D :=
    (Nfa.wellFormed_build cs).subsetAutomaton A
  have hm : m = ofDfa A D := ofDfa_registerAll h before
  have hB : B = A.registerAll (before ++ after) := (A.registerAll_append before after).symm
  rw [hm, hB]
  refine ⟨rfl, validate_eq_ok_iff.2 (wellFormed_ofDfa h), classify_ofDfa h, fun x => ?_,
    run?_ofDfa h (before ++ after)⟩
  rw [classify_ofDfa h]
  split
  · rename_i hx
    exact (Alphabet.codeOf_registerAll hx _).symm
  · rename_i hx
    exact Alphabet.codeOf_of_not_mem hx

end Matcher
end SignatureAutomata
