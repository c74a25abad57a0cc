import SignatureAutomata.Compilation
import SignatureAutomata.Proofs.Alphabet.Registration
import SignatureAutomata.Proofs.Nfa.Caching
import SignatureAutomata.Proofs.Signature.Language

/-! # One signature over two alphabets

The automata of a signature over two alphabets have the same states.  An edge of the one has a
counterpart between the same states in the other (`IsShapeOf.exists_edge`); only the labels are
recoded: the code of a literal becomes the literal's code in the other alphabet, and any other
symbol is passed along a sigma edge.

So two codes that mean the same to the signature (`SameMeaning`) lead from a set of states to the
same set in both automata (`IsShapeOf.step_eq`).  Every column of the one automaton has a column
of the same meaning in the other, so both reach the same sets and have as many states.  A symbol
that is no literal means what `Code.sigma` means.  It comes after `Code.sigma` in a row and names a
set that is named already, so it does not count for the order of discovery; the literals alone
give the sets their numbers (`IsShapeOf.subsets_determinize_eq`).
-/

namespace SignatureAutomata

open Nfa (columns)

/-! ### Edges with other labels -/

namespace Token
variable {α : Type} [DecidableEq α] {A B : Alphabet α} {values : List α} {last : Nat}

/-- **What a label becomes over another alphabet**, given the values of the literals. -/
inductive Recoded (A B : Alphabet α) (values : List α) : Nat → Nat → Prop where
  | silent : Recoded A B values Code.epsilon Code.epsilon
  | anyValue {label : Nat} : label ∈ columns A → Recoded A B values label Code.sigma
  | literal {v : α} : v ∈ values → Recoded A B values (A.codeOf v) (B.codeOf v)

theorem exists_recoded_of_mem_edges {token : Token α} (B : Alphabet α)
    (hvalues : ∀ v, token.value? = some v → v ∈ values) {e : Edge} (he : e ∈ token.edges A last) :
    ∃ label, ⟨e.source, label, e.target⟩ ∈ token.edges B last ∧
      Recoded A B values e.label label := by
  cases token with
  | literal v =>
      rw [List.mem_singleton.1 he]
      exact ⟨_, List.mem_singleton.2 rfl, .literal (hvalues v rfl)⟩
  | any =>
      obtain ⟨label, hlabel, rfl⟩ := List.mem_map.1 he
      exact ⟨_, List.mem_map_of_mem List.mem_cons_self, .anyValue hlabel⟩
  | anySequence =>
      simp only [edges, List.mem_append, List.mem_cons, List.mem_map, List.not_mem_nil,
        or_false] at he ⊢
      rcases he with ((rfl | rfl) | ⟨label, hlabel, rfl⟩) | (rfl | rfl)
      · exact ⟨_, .inl (.inl (.inl rfl)), .silent⟩
      · exact ⟨_, .inl (.inl (.inr rfl)), .silent⟩
      · exact ⟨_, .inl (.inr ⟨_, List.mem_cons_self, rfl⟩), .anyValue hlabel⟩
      · exact ⟨_, .inr (.inl rfl), .silent⟩
      · exact ⟨_, .inr (.inr rfl), .silent⟩

/-- **Every edge has its counterpart over the other alphabet.** -/
theorem exists_recoded_of_mem_edgesAll {tokens : List (Token α)} (B : Alphabet α)
    (hvalues : ∀ token ∈ tokens, ∀ v, token.value? = some v → v ∈ values) {e : Edge}
    (he : e ∈ edgesAll A last tokens) :
    ∃ label, ⟨e.source, label, e.target⟩ ∈ edgesAll B last tokens ∧
      Recoded A B values e.label label := by
  induction tokens generalizing last with
  | nil => cases he
  | cons token tokens ih =>
      rw [List.forall_mem_cons] at hvalues
      rcases List.mem_append.1 he with he | he
      · obtain ⟨label, hedge, hlabel⟩ := exists_recoded_of_mem_edges B hvalues.1 he
        exact ⟨label, List.mem_append_left _ hedge, hlabel⟩
      · obtain ⟨label, hedge, hlabel⟩ := ih hvalues.2 he
        exact ⟨label, List.mem_append_right _ hedge, hlabel⟩

/-- Labels that consume nothing go on to consume nothing. -/
theorem Recoded.silent_of_silent {label : Nat} (h : Recoded A B values Code.epsilon label) :
    label = Code.epsilon := by
  generalize hsilent : Code.epsilon = code at h
  cases h with
  | silent => rfl
  | anyValue hlabel => exact absurd (hsilent ▸ hlabel) (Nfa.epsilon_not_mem_columns A)
  | @literal v _ => exact absurd hsilent.symm (A.codeOf_ne_epsilon v)

end Token

namespace Signature
variable {α : Type} [DecidableEq α] {s : Signature α} {A B : Alphabet α} {N M : Nfa}
  {c d : Nat} {x : α}

/-! ### Codes of the same meaning -/

/-- **Two codes mean the same to a signature**, each over an alphabet of its own: both have a
column, and they are the codes of the same literals. -/
structure SameMeaning (s : Signature α) (A B : Alphabet α) (c d : Nat) : Prop where
  left_mem : c ∈ columns A
  right_mem : d ∈ columns B
  codeOf_eq_iff : ∀ v ∈ s.literals, A.codeOf v = c ↔ B.codeOf v = d

theorem SameMeaning.symm (h : s.SameMeaning A B c d) : s.SameMeaning B A d c :=
  ⟨h.right_mem, h.left_mem, fun v hv => (h.codeOf_eq_iff v hv).symm⟩

theorem sameMeaning_codeOf (hA : s.literals ⊆ A.symbols) (hB : s.literals ⊆ B.symbols)
    (hx : x ∈ s.literals) : s.SameMeaning A B (A.codeOf x) (B.codeOf x) where
  left_mem := Nfa.codeOf_mem_columns A x
  right_mem := Nfa.codeOf_mem_columns B x
  codeOf_eq_iff v _ := by
    rw [Alphabet.codeOf_eq_codeOf_iff (hA hx), Alphabet.codeOf_eq_codeOf_iff (hB hx)]

/-- **A value that is no literal means what any value means.** -/
theorem sameMeaning_sigma (hA : s.literals ⊆ A.symbols) (hB : s.literals ⊆ B.symbols)
    (hx : x ∉ s.literals) : s.SameMeaning A B (A.codeOf x) Code.sigma where
  left_mem := Nfa.codeOf_mem_columns A x
  right_mem := List.mem_cons_self
  codeOf_eq_iff v hv := by
    refine iff_of_false (fun h => ?_) (Alphabet.codeOf_ne_sigma (hB hv))
    exact hx ((Alphabet.codeOf_eq_codeOf_iff (hA hv)).1 h.symm ▸ hv)

theorem sameMeaning_sigma_sigma (hA : s.literals ⊆ A.symbols) (hB : s.literals ⊆ B.symbols) :
    s.SameMeaning A B Code.sigma Code.sigma where
  left_mem := List.mem_cons_self
  right_mem := List.mem_cons_self
  codeOf_eq_iff _ hv :=
    iff_of_false (Alphabet.codeOf_ne_sigma (hA hv)) (Alphabet.codeOf_ne_sigma (hB hv))

/-- Every column has one of the same meaning over the other alphabet. -/
theorem exists_sameMeaning (hA : s.literals ⊆ A.symbols) (hB : s.literals ⊆ B.symbols)
    (hc : c ∈ columns A) : ∃ d, s.SameMeaning A B c d := by
  rcases List.mem_cons.1 hc with rfl | hc
  · exact ⟨_, sameMeaning_sigma_sigma hA hB⟩
  · obtain ⟨x, -, rfl⟩ := Alphabet.exists_codeOf_eq hc
    by_cases hx : x ∈ s.literals
    · exact ⟨_, sameMeaning_codeOf hA hB hx⟩
    · exact ⟨_, sameMeaning_sigma hA hB hx⟩

/-- Labels that take a code go on to take a code of the same meaning. -/
theorem SameMeaning.consumes (h : s.SameMeaning A B c d) (hA : s.literals ⊆ A.symbols)
    {label label' : Nat} (hlabel : Token.Recoded A B s.literals label label')
    (hc : label = c ∨ label = Code.sigma) : label' = d ∨ label' = Code.sigma := by
  cases hlabel with
  | silent =>
      rcases hc with rfl | hc
      · exact absurd h.left_mem (Nfa.epsilon_not_mem_columns A)
      · cases hc
  | anyValue => exact .inr rfl
  | @literal v hv =>
      have hcode : A.codeOf v = c := hc.resolve_right (Alphabet.codeOf_ne_sigma (hA hv))
      exact .inl ((h.codeOf_eq_iff v hv).1 hcode)

/-! ### Steps alike -/

theorem IsShapeOf.literals_subset (h : s.IsShapeOf A N) : s.literals ⊆ A.symbols := by
  intro v hv
  obtain ⟨token, htoken, hvalue⟩ := List.mem_filterMap.1 hv
  exact h.registered token htoken v hvalue

theorem IsShapeOf.exists_edge (h : s.IsShapeOf A N) (h' : s.IsShapeOf B M) {e : Edge}
    (he : e ∈ N.edges) : ∃ label, ⟨e.source, label, e.target⟩ ∈ M.edges ∧
      Token.Recoded A B s.literals e.label label := by
  obtain ⟨label, hedge, hlabel⟩ := Token.exists_recoded_of_mem_edgesAll B
    (fun token htoken v hv => List.mem_filterMap.2 ⟨token, htoken, hv⟩) ((h.mem_edges_iff e).1 he)
  exact ⟨label, (h'.mem_edges_iff _).2 hedge, hlabel⟩

theorem IsShapeOf.epsilonReach (h : s.IsShapeOf A N) (h' : s.IsShapeOf B M) {p q : Nat}
    (hpq : N.EpsilonReach p q) : M.EpsilonReach p q := by
  refine hpq.mono fun p q he => ?_
  obtain ⟨label, hedge, hlabel⟩ := h.exists_edge h' he
  rwa [hlabel.silent_of_silent] at hedge

theorem IsShapeOf.mem_step (h : s.IsShapeOf A N) (h' : s.IsShapeOf B M)
    (hcodes : s.SameMeaning A B c d) {S : StateSet} {t : Nat} (ht : t ∈ N.step S c) :
    t ∈ M.step S d := by
  -- without closures kept, a closure is what epsilon edges reach, also of a set of foreign numbers
  rw [← h.wellFormed.step_uncached, Nfa.step, Nfa.mem_epsilonClosure_uncached_iff] at ht
  rw [← h'.wellFormed.step_uncached, Nfa.step, Nfa.mem_epsilonClosure_uncached_iff]
  obtain ⟨q, hq, hqt⟩ := ht
  obtain ⟨e, he, hlabel, hsource, rfl⟩ := Nfa.mem_move.1 hq
  obtain ⟨p, hp, hpe⟩ := Nfa.mem_epsilonClosure_uncached_iff.1 hsource
  obtain ⟨label, hedge, hrecoded⟩ := h.exists_edge h' he
  refine ⟨e.target, Nfa.mem_move.2 ⟨_, hedge, ?_, ?_, rfl⟩, h.epsilonReach h' hqt⟩
  · exact hcodes.consumes h.literals_subset hrecoded hlabel
  · exact Nfa.mem_epsilonClosure_uncached_iff.2 ⟨p, hp, h.epsilonReach h' hpe⟩

/-- **Codes of the same meaning lead to the same set.** -/
theorem IsShapeOf.step_eq (h : s.IsShapeOf A N) (h' : s.IsShapeOf B M)
    (hcodes : s.SameMeaning A B c d) (S : StateSet) : N.step S c = M.step S d :=
  StateSet.ext fun _ => ⟨h.mem_step h' hcodes, h'.mem_step h hcodes.symm⟩

theorem IsShapeOf.startClosure_eq (h : s.IsShapeOf A N) (h' : s.IsShapeOf B M) :
    N.startClosure = M.startClosure := by
  rw [← h.wellFormed.startClosure_uncached, ← h'.wellFormed.startClosure_uncached]
  refine StateSet.ext fun t => ?_
  have hstart : N.uncached.start = M.uncached.start := h.start_eq.trans h'.start_eq.symm
  rw [Nfa.startClosure, Nfa.startClosure, Nfa.mem_epsilonClosure_uncached_iff,
    Nfa.mem_epsilonClosure_uncached_iff, hstart]
  constructor
  · rintro ⟨p, hp, hpt⟩
    exact ⟨p, hp, h.epsilonReach h' hpt⟩
  · rintro ⟨p, hp, hpt⟩
    exact ⟨p, hp, h'.epsilonReach h hpt⟩

theorem IsShapeOf.numStates_eq_numStates (h : s.IsShapeOf A N) (h' : s.IsShapeOf B M) :
    N.numStates = M.numStates :=
  h.numStates_eq.trans h'.numStates_eq.symm

theorem IsShapeOf.accepting_eq (h : s.IsShapeOf A N) (h' : s.IsShapeOf B M) :
    N.accepting = M.accepting :=
  StateSet.ext fun t => (h.mem_accepting_iff t).trans (h'.mem_accepting_iff t).symm

/-! ### As many sets -/

theorem IsShapeOf.reached (h : s.IsShapeOf A N) (h' : s.IsShapeOf B M) {S : StateSet}
    (hS : Reached (N.successors (columns A)) [N.startClosure] S) :
    Reached (M.successors (columns B)) [M.startClosure] S := by
  induction hS with
  | start hS => exact .start (h.startClosure_eq h' ▸ hS)
  | step _ hT ih =>
      obtain ⟨c, hc, rfl⟩ := List.mem_map.1 hT
      obtain ⟨d, hcodes⟩ := exists_sameMeaning h.literals_subset h'.literals_subset hc
      rw [h.step_eq h' hcodes]
      exact .step ih (List.mem_map_of_mem hcodes.right_mem)

/-- **Foreign symbols add no states.** -/
theorem IsShapeOf.numStates_determinize_eq (h : s.IsShapeOf A N) (h' : s.IsShapeOf B M) :
    (N.determinize A).numStates = (M.determinize B).numStates := by
  have hbound := h.wellFormed.atMost_reached (columns A)
  show (N.surveySubsets (columns A)).found.length = (M.surveySubsets (columns B)).found.length
  rw [Nfa.surveySubsets, h.startClosure_eq h', h.numStates_eq_numStates h']
  rw [h.startClosure_eq h', h.numStates_eq_numStates h'] at hbound
  refine length_found_survey_eq hbound (h'.wellFormed.atMost_reached _) fun S => ?_
  constructor
  · exact fun hS => h.reached h' (h.startClosure_eq h' ▸ hS)
  · exact fun hS => h.startClosure_eq h' ▸ h'.reached h hS

/-! ### The same numbers -/

/-- The literals in the order in which an alphabet has them. -/
def literalsIn (s : Signature α) (A : Alphabet α) : List α := A.symbols.filter (· ∈ s.literals)

/-- **Two alphabets have the literals of a signature in the same order.** -/
def SameOrder (s : Signature α) (A B : Alphabet α) : Prop :=
  ∀ x ∈ s.literals, ∀ y ∈ s.literals, A.codeOf x < A.codeOf y ↔ B.codeOf x < B.codeOf y

instance (s : Signature α) (A B : Alphabet α) : Decidable (s.SameOrder A B) :=
  inferInstanceAs (Decidable (∀ x ∈ s.literals, ∀ y ∈ s.literals,
    A.codeOf x < A.codeOf y ↔ B.codeOf x < B.codeOf y))

theorem mem_literalsIn_iff (hA : s.literals ⊆ A.symbols) : x ∈ s.literalsIn A ↔ x ∈ s.literals := by
  rw [literalsIn, List.mem_filter, decide_eq_true_iff]
  exact ⟨fun h => h.2, fun h => ⟨hA h, h⟩⟩

theorem pairwise_literalsIn (s : Signature α) (A : Alphabet α) :
    (s.literalsIn A).Pairwise fun x y => A.codeOf x < A.codeOf y := by
  have hcodes : (A.symbols.map A.codeOf).Pairwise (· < ·) := by
    rw [Alphabet.map_codeOf_symbols]
    exact List.pairwise_lt_range' 1
  exact (List.pairwise_map.1 hcodes).filter _

/-- Lists in the same order are the same. -/
theorem SameOrder.literalsIn_eq (h : s.SameOrder A B) (hA : s.literals ⊆ A.symbols)
    (hB : s.literals ⊆ B.symbols) : s.literalsIn A = s.literalsIn B := by
  have hperm : (s.literalsIn A).Perm (s.literalsIn B) := by
    refine (List.perm_ext_iff_of_nodup (A.distinct.filter _) (B.distinct.filter _)).2 fun x => ?_
    exact (mem_literalsIn_iff hA).trans (mem_literalsIn_iff hB).symm
  refine List.Perm.eq_of_pairwise (fun x y _ _ hxy hyx => ?_) (s.pairwise_literalsIn A) ?_ hperm
  · exact absurd hxy (Nat.lt_asymm hyx)
  · -- the order of `B` is that of `A` among literals
    refine (s.pairwise_literalsIn B).imp_of_mem fun hx hy hlt => ?_
    rw [mem_literalsIn_iff hB] at hx hy
    exact (h _ hx _ hy).2 hlt

/-- **Only the literals count for the order in which a set names its successors.** -/
theorem IsShapeOf.eraseDups_successors (h : s.IsShapeOf A N) (S : StateSet) :
    (N.successors (columns A) S).eraseDups =
      (N.step S Code.sigma :: (s.literalsIn A).map fun x => N.step S (A.codeOf x)).eraseDups := by
  have hcolumns : N.successors (columns A) S =
      N.step S Code.sigma :: A.symbols.map fun x => N.step S (A.codeOf x) := by
    rw [Nfa.successors, columns, ← Alphabet.map_codeOf_symbols, List.map_cons, List.map_map]
    rfl
  rw [hcolumns, literalsIn]
  refine eraseDups_cons_map_filter fun x _ hx => ?_
  have hx : x ∉ s.literals := of_decide_eq_false hx
  exact h.step_eq h (sameMeaning_sigma h.literals_subset h.literals_subset hx) S

/-- **The literals in the same order give the sets the same numbers.** -/
theorem IsShapeOf.subsets_determinize_eq (h : s.IsShapeOf A N) (h' : s.IsShapeOf B M)
    (horder : s.SameOrder A B) : (N.determinize A).subsets = (M.determinize B).subsets := by
  show (N.surveySubsets (columns A)).found = (M.surveySubsets (columns B)).found
  rw [Nfa.surveySubsets, Nfa.surveySubsets, h.startClosure_eq h', h.numStates_eq_numStates h']
  refine found_survey_congr fun S => ?_
  have hA := h.literals_subset
  have hB := h'.literals_subset
  rw [h.eraseDups_successors, h'.eraseDups_successors, horder.literalsIn_eq hA hB,
    h.step_eq h' (sameMeaning_sigma_sigma hA hB)]
  congr 2
  refine List.map_congr_left fun x hx => ?_
  exact h.step_eq h' (sameMeaning_codeOf hA hB ((mem_literalsIn_iff hB).1 hx)) S

theorem IsShapeOf.accepting_determinize_eq (h : s.IsShapeOf A N) (h' : s.IsShapeOf B M)
    (hsubsets : (N.determinize A).subsets = (M.determinize B).subsets) :
    (N.determinize A).accepting = (M.determinize B).accepting := by
  have hfound : (N.surveySubsets (columns A)).found = (M.surveySubsets (columns B)).found :=
    hsubsets
  rw [Nfa.determinize, Nfa.determinize, Nfa.toDfa, Nfa.toDfa, hfound, h.accepting_eq h']

/-- **Columns of the same meaning are the same** once the sets have the same numbers. -/
theorem IsShapeOf.transition_eq (h : s.IsShapeOf A N) (h' : s.IsShapeOf B M)
    (hsubsets : (N.determinize A).subsets = (M.determinize B).subsets)
    (hcodes : s.SameMeaning A B c d) {state : Nat} (hstate : state < (N.determinize A).numStates) :
    (N.determinize A).transition state c = (M.determinize B).transition state d := by
  obtain ⟨S, hS⟩ := Dfa.exists_subset_iff.2 hstate
  have hS' : (M.determinize B).subset state = some S := by
    rw [Dfa.subset, ← hsubsets]
    exact hS
  obtain ⟨t, ht, hsubset⟩ := h.wellFormed.exists_transition_determinize hS hcodes.left_mem
  obtain ⟨u, hu, hsubset'⟩ := h'.wellFormed.exists_transition_determinize hS' hcodes.right_mem
  -- both states stand for the set of the step
  rw [Dfa.subset, hsubsets, h.step_eq h' hcodes] at hsubset
  rw [ht, hu, Nfa.subset_determinize_injective hsubset hsubset']

end Signature

/-! ### Matchers -/

namespace Matcher
variable {α : Type} {N : Nfa} {A : Alphabet α} {D : Dfa}

/-- **A column of the table**, from the top. -/
def column (m : Matcher α) (index : Nat) : List (Option Nat) := m.table.map (·[index]?)

theorem start_ofDfa (A : Alphabet α) (D : Dfa) : (ofDfa A D).start = 0 := rfl

/-- The column of a code holds the transitions on it. -/
theorem column_ofDfa (h : SubsetAutomaton N (columns A) D) {code index : Nat}
    (hcode : code ∈ columns A) (hindex : Code.column code = some index) :
    (ofDfa A D).column index = (List.range D.numStates).map (D.transition · code) := by
  obtain ⟨i, hi, hget⟩ := getElem?_columns_of_mem hcode
  obtain rfl : i = index := Option.some.inj (hi.symm.trans hindex)
  rw [column, ofDfa, List.map_map]
  refine List.map_congr_left fun s hs => ?_
  show (D.columns.filterMap (D.transition s))[i]? = _
  rw [getElem?_filterMap_of_isSome (h.isSome_transition (List.mem_range.1 hs)), h.columns_eq, hget]
  rfl

end Matcher

namespace Signature
variable {α : Type} [DecidableEq α] {s : Signature α} {A B : Alphabet α} {N M : Nfa}
  {c d : Nat} {x : α}

theorem IsShapeOf.column_eq (h : s.IsShapeOf A N) (h' : s.IsShapeOf B M)
    (hsubsets : (N.determinize A).subsets = (M.determinize B).subsets)
    (hcodes : s.SameMeaning A B c d) {i j : Nat} (hi : Code.column c = some i)
    (hj : Code.column d = some j) :
    (Matcher.ofDfa A (N.determinize A)).column i =
      (Matcher.ofDfa B (M.determinize B)).column j := by
  have hstates : (N.determinize A).numStates = (M.determinize B).numStates :=
    h.numStates_determinize_eq h'
  rw [Matcher.column_ofDfa (h.wellFormed.subsetAutomaton A) hcodes.left_mem hi,
    Matcher.column_ofDfa (h'.wellFormed.subsetAutomaton B) hcodes.right_mem hj, ← hstates]
  exact List.map_congr_left fun state hstate =>
    h.transition_eq h' hsubsets hcodes (List.mem_range.1 hstate)

theorem column_codeOf (hx : x ∈ A.symbols) :
    Code.column (A.codeOf x) = some (A.symbols.idxOf x + 1) := by
  rw [Alphabet.codeOf_of_mem hx, Nat.add_comm]
  rfl

/-- A symbol that is no literal has the column of `Code.sigma` once more. -/
theorem IsShapeOf.column_eq_column_zero (h : s.IsShapeOf A N) {i : Nat}
    (hi : A.symbols[i]? = some x) (hx : x ∉ s.literals) :
    (Matcher.ofDfa A (N.determinize A)).column (i + 1) =
      (Matcher.ofDfa A (N.determinize A)).column 0 := by
  obtain ⟨hlt, rfl⟩ := List.getElem?_eq_some_iff.1 hi
  have hcolumn := column_codeOf (List.getElem_mem hlt)
  rw [A.distinct.idxOf_getElem _ hlt] at hcolumn
  exact h.column_eq h rfl (sameMeaning_sigma h.literals_subset h.literals_subset hx) hcolumn rfl

/-- The alphabet of a compilation is the one given, grown by the literals, and the matcher has its
symbols. -/
theorem alphabet_compile {c : Compilation α} (hc : s.compile A = .ok c) :
    c.alphabet = s.seed A ∧ c.matcher.symbols = c.alphabet.symbols := by
  obtain ⟨N, hN, h⟩ := s.exists_automaton A
  rw [compile, hN] at hc
  obtain rfl := Except.ok.inj hc
  exact ⟨rfl, Matcher.symbols_ofDfa (h.wellFormed.subsetAutomaton (s.seed A))⟩

/-- **The table of a signature depends on the alphabet in the order of the literals only.**
Whatever two alphabets a signature is compiled over, both matchers have as many rows.  If the
literals are in the same order in both alphabets as grown, the matchers agree on the start, the
accepting list, the column for values that equal no literal, and the column of every literal.  In
either matcher a symbol that is no literal of the signature has the column for values that equal
no literal. -/
theorem matchers_agree (s : Signature α) (A B : Alphabet α) :
    ∃ c d, s.compile A = .ok c ∧ s.compile B = .ok d ∧
      c.matcher.numStates = d.matcher.numStates ∧
      (s.SameOrder c.alphabet d.alphabet →
        c.matcher.start = d.matcher.start ∧ c.matcher.accepting = d.matcher.accepting ∧
        c.matcher.column 0 = d.matcher.column 0 ∧
        ∀ x ∈ s.literals, x ∈ c.matcher.symbols ∧ x ∈ d.matcher.symbols ∧
          c.matcher.column (c.matcher.symbols.idxOf x + 1) =
            d.matcher.column (d.matcher.symbols.idxOf x + 1)) ∧
      ∀ m ∈ [c.matcher, d.matcher], ∀ i x, m.symbols[i]? = some x → x ∉ s.literals →
        m.column (i + 1) = m.column 0 := by
  obtain ⟨N, hN, h⟩ := s.exists_automaton A
  obtain ⟨M, hM, h'⟩ := s.exists_automaton B
  have hsymbols := Matcher.symbols_ofDfa (h.wellFormed.subsetAutomaton (s.seed A))
  have hsymbols' := Matcher.symbols_ofDfa (h'.wellFormed.subsetAutomaton (s.seed B))
  refine ⟨_, _, by rw [compile, hN], by rw [compile, hM], ?_, fun horder => ?_, ?_⟩
  · rw [Matcher.numStates_ofDfa, Matcher.numStates_ofDfa]
    exact h.numStates_determinize_eq h'
  · have hsubsets := h.subsets_determinize_eq h' horder
    refine ⟨?_, congrArg StateSet.members (h.accepting_determinize_eq h' hsubsets), ?_, ?_⟩
    · rw [Matcher.start_ofDfa, Matcher.start_ofDfa]
    · exact h.column_eq h' hsubsets
        (sameMeaning_sigma_sigma h.literals_subset h'.literals_subset) rfl rfl
    · intro x hx
      have hA := h.literals_subset hx
      have hB := h'.literals_subset hx
      rw [hsymbols, hsymbols']
      refine ⟨hA, hB, h.column_eq h' hsubsets ?_ (column_codeOf hA) (column_codeOf hB)⟩
      exact sameMeaning_codeOf h.literals_subset h'.literals_subset hx
  · intro m hm i x hi hx
    rcases List.mem_cons.1 hm with rfl | hm
    · exact h.column_eq_column_zero (hsymbols ▸ hi) hx
    · obtain rfl := List.mem_singleton.1 hm
      exact h'.column_eq_column_zero (hsymbols' ▸ hi) hx

/-- Two literals among other symbols, and the same literals in the same order behind another
symbol: tables of four rows with one accepting state, which the literal `9` leads to from the
third and the fourth row. -/
theorem matchers_agree_interleaved :
    let s : Signature Nat := ⟨[.literal 4, .anySequence, .literal 9]⟩
    ∃ c d, s.compile (.ofList [7, 4, 8]) = .ok c ∧ s.compile (.ofList [5]) = .ok d ∧
      s.SameOrder c.alphabet d.alphabet ∧ c.matcher.symbols = [7, 4, 8, 9] ∧
      d.matcher.symbols = [5, 4, 9] ∧ c.matcher.numStates = 4 ∧ d.matcher.numStates = 4 ∧
      c.matcher.accepting = [3] ∧ d.matcher.accepting = [3] ∧
      c.matcher.column 4 = [some 1, some 1, some 3, some 3] ∧
      d.matcher.column 3 = [some 1, some 1, some 3, some 3] ∧
      c.matcher.column 3 = [some 1, some 1, some 2, some 2] ∧
      c.matcher.column 0 = [some 1, some 1, some 2, some 2] := by
  intro s
  obtain ⟨c, d, hc, hd, hstates, hsame, hforeign⟩ :=
    matchers_agree s (.ofList [7, 4, 8]) (.ofList [5])
  obtain ⟨hA, hsymbols⟩ := alphabet_compile hc
  obtain ⟨hB, hsymbols'⟩ := alphabet_compile hd
  have horder : s.SameOrder c.alphabet d.alphabet := by
    rw [hA, hB]
    decide
  rw [hA] at hsymbols
  rw [hB] at hsymbols'
  obtain ⟨-, haccepting, -, hliteral⟩ := hsame horder
  obtain ⟨-, -, hnine⟩ := hliteral 9 (by decide)
  rw [hsymbols, hsymbols'] at hnine
  have height : c.matcher.column 3 = c.matcher.column 0 := by
    refine hforeign c.matcher List.mem_cons_self 2 8 ?_ (by decide)
    rw [hsymbols]
    rfl
  -- the first table, of which the second one has what the theorem says
  have htable : (s.compile (.ofList [7, 4, 8])).toOption.map (·.matcher.table) = some
      [[1, 1, 2, 1, 1], [1, 1, 1, 1, 1], [2, 2, 2, 2, 3], [2, 2, 2, 2, 3]] := by decide +kernel
  have hfinal : (s.compile (.ofList [7, 4, 8])).toOption.map (·.matcher.accepting) = some [3] := by
    decide +kernel
  rw [hc] at htable hfinal
  have htable : c.matcher.table = _ := Option.some.inj htable
  have hfinal : c.matcher.accepting = [3] := Option.some.inj hfinal
  have hrows : c.matcher.numStates = 4 := congrArg List.length htable
  have hcolumn : ∀ i, c.matcher.column i = _ := fun i => congrArg (List.map (·[i]?)) htable
  have hfourth : c.matcher.column 4 = d.matcher.column 3 := hnine
  refine ⟨c, d, hc, hd, horder, hsymbols, hsymbols', hrows, hstates ▸ hrows, hfinal,
    haccepting ▸ hfinal, hcolumn 4, hfourth ▸ hcolumn 4, hcolumn 3, height ▸ hcolumn 3⟩

end Signature
end SignatureAutomata
