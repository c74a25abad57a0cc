import Mathlib.Data.List.Sublists
import SignatureAutomata.Dfa.Determinization
import SignatureAutomata.Proofs.Alphabet
import SignatureAutomata.Proofs.Nfa.Construction
import SignatureAutomata.Proofs.Nfa.Simulation

/-! # The subset automaton

Determinization ends, and what it makes is the subset automaton over its columns
(`SubsetAutomaton`): its states are the sets that runs over columns can be in, each
with one number, and a transition is a step of the nondeterministic automaton.

The survey behind it meets sets of owned states only.  An automaton with `n` states
has `2 ^ n` of those (`atMost_below`), so the survey has rounds enough to expand
every set that it finds, and everything else is read off its rows.
-/

namespace SignatureAutomata

/-! ### How many sets there are -/

/-- A set of numbers below `n` is listed by a sublist of `0, …, n - 1`. -/
theorem members_sublist_range {S : StateSet} {n : Nat} (h : ∀ s ∈ S, s < n) :
    S.members.Sublist (List.range n) := by
  have hfilter : S.members = (List.range n).filter (· ∈ S) := by
    refine eq_of_mem_iff S.ascending (List.pairwise_lt_range.filter _) fun s => ?_
    rw [List.mem_filter, List.mem_range, decide_eq_true_iff]
    exact ⟨fun hs => ⟨h s hs, hs⟩, fun hs => hs.2⟩
  rw [hfilter]
  exact List.filter_sublist

/-- **There are `2 ^ n` sets of numbers below `n`.** -/
theorem atMost_below (n : Nat) : AtMost (Nat.pow 2 n) fun S : StateSet => ∀ s ∈ S, s < n := by
  intro l hl hbelow
  -- different sets have different lists of members, all of them sublists of one list
  have hnodup : (l.map StateSet.members).Nodup :=
    List.pairwise_map.2 (hl.imp fun hne heq => hne (StateSet.ext fun s => by
      rw [← StateSet.mem_members, heq, StateSet.mem_members]))
  have hsub : l.map StateSet.members ⊆ (List.range n).sublists := by
    intro m hm
    obtain ⟨S, hS, rfl⟩ := List.mem_map.1 hm
    exact List.mem_sublists.2 (members_sublist_range (hbelow S hS))
  have hle := hnodup.length_le_of_subset hsub
  rwa [List.length_map, List.length_sublists, List.length_range] at hle

namespace Dfa
variable {D : Dfa}

/-- Where a word of codes leads, each of which has a column. -/
def follow (D : Dfa) (state : Nat) : List Nat → Option Nat
  | [] => some state
  | code :: codes => (D.transition state code).bind fun t => D.follow t codes

theorem follow_append {s t : Nat} {k : List Nat} (h : D.follow s k = some t) (l : List Nat) :
    D.follow s (k ++ l) = D.follow t l := by
  induction k generalizing s with
  | nil => rw [Option.some.inj h, List.nil_append]
  | cons code k ih =>
      obtain ⟨u, hu, hut⟩ := Option.bind_eq_some_iff.1 h
      rw [List.cons_append, follow, hu]
      exact ih hut

theorem mem_transitions_iff {s code t : Nat} :
    (s, code, t) ∈ D.transitions ↔
      s < D.numStates ∧ code ∈ D.columns ∧ D.transition s code = some t := by
  simp only [transitions, List.mem_flatMap, List.mem_range, List.mem_filterMap,
    Option.map_eq_some_iff, Prod.mk.injEq]
  constructor
  · rintro ⟨s', hs, code', hcode, t', ht, rfl, rfl, rfl⟩
    exact ⟨hs, hcode, ht⟩
  · rintro ⟨hs, hcode, ht⟩
    exact ⟨s, hs, code, hcode, t, ht, rfl, rfl, rfl⟩

theorem exists_subset_iff {s : Nat} : (∃ S, D.subset s = some S) ↔ s < D.numStates := by
  constructor
  · rintro ⟨S, hS⟩
    exact (List.getElem?_eq_some_iff.1 hS).1
  · exact fun h => ⟨_, List.getElem?_eq_getElem h⟩

/-- A code without a column leads nowhere. -/
theorem transition_of_not_mem {code : Nat} (h : code ∉ D.columns) (s : Nat) :
    D.transition s code = none := by
  unfold transition
  rw [List.idxOf?_eq_none_iff.2 h]
  cases D.rows[s]? <;> rfl

theorem mem_columns_of_transition {s code t : Nat} (h : D.transition s code = some t) :
    code ∈ D.columns := by
  refine Decidable.byContradiction fun hcode => ?_
  rw [transition_of_not_mem hcode] at h
  cases h

/-- The entry of a row at the place of the code's column. -/
theorem transition_eq_some_iff {s code t : Nat} :
    D.transition s code = some t ↔ ∃ row column, D.rows[s]? = some row ∧
      D.columns.idxOf? code = some column ∧ row[column]? = some t := by
  simp [transition, Option.bind_eq_some_iff]

end Dfa

/-- **`D` is the subset automaton of `N` over some columns.** -/
structure SubsetAutomaton (N : Nfa) (columns : List Nat) (D : Dfa) : Prop where
  columns_eq : D.columns = columns
  start_eq : D.start = 0
  subset_start : D.subset D.start = some N.startClosure
  /-- On every column a state has one transition, listed as such and found as such. -/
  exists_transition : ∀ s < D.numStates, ∀ code ∈ columns,
    ∃ t, D.transition s code = some t ∧ ∀ u, (s, code, u) ∈ D.transitions ↔ u = t
  /-- A transition is a step. -/
  subset_transition : ∀ s code t S, D.transition s code = some t → D.subset s = some S →
    D.subset t = some (N.step S code)
  /-- A set is that of one state only. -/
  subset_injective : ∀ s t S, D.subset s = some S → D.subset t = some S → s = t
  stateFor_subset : ∀ s S, D.subset s = some S → D.stateFor S = some s
  exists_follow : ∀ s < D.numStates, ∃ word, (∀ code ∈ word, code ∈ columns) ∧
    D.follow D.start word = some s
  accepting_lt : ∀ s ∈ D.accepting, s < D.numStates
  accepting_iff : ∀ s S, D.subset s = some S → (s ∈ D.accepting ↔ ∃ q ∈ S, q ∈ N.accepting)
  isTotal_eq : D.isTotal = true

namespace Nfa
variable {N : Nfa} {columns : List Nat} {s t code : Nat} {S : StateSet}

/-! ### The survey of sets -/

/-- Runs stay within the automaton. -/
theorem WellFormed.owns_of_reached (hN : N.WellFormed)
    (h : Reached (N.successors columns) [N.startClosure] S) : N.Owns S := by
  cases h with
  | start hS => exact List.mem_singleton.1 hS ▸ hN.owns_startClosure
  | step _ hS =>
      obtain ⟨code, -, rfl⟩ := List.mem_map.1 hS
      exact hN.owns_step _ code

theorem WellFormed.atMost_reached (hN : N.WellFormed) (columns : List Nat) :
    AtMost (Nat.pow 2 N.numStates)
      (Reached (N.successors columns) [N.startClosure]) :=
  fun l hl hreached => atMost_below N.numStates l hl fun S hS =>
    hN.owns_of_reached (hreached S hS)

/-- **Determinization ends**: no set is left to expand. -/
theorem WellFormed.pending_surveySubsets (hN : N.WellFormed) (columns : List Nat) :
    (N.surveySubsets columns).pending = [] :=
  pending_survey (hN.atMost_reached columns)

/-- With more rounds it would end in the same way. -/
theorem WellFormed.survey_eq_surveySubsets (hN : N.WellFormed) (columns : List Nat) {rounds : Nat}
    (h : Nat.pow 2 N.numStates ≤ rounds) :
    survey (N.successors columns) N.discovery rounds [N.startClosure] = N.surveySubsets columns :=
  survey_eq_of_le (hN.atMost_reached columns) h

theorem invariant_surveySubsets (N : Nfa) (columns : List Nat) :
    (N.surveySubsets columns).Invariant (N.successors columns) [N.startClosure] :=
  invariant_survey _

/-! ### The automaton made from it -/

section
variable {α : Type} {A : Alphabet α}

theorem subset_determinize_start (N : Nfa) (A : Alphabet α) :
    (N.determinize A).subset 0 = some N.startClosure := by
  obtain ⟨l, hl⟩ := (invariant_surveySubsets N (Nfa.columns A)).starts_isPrefix
  show (N.surveySubsets (Nfa.columns A)).found[0]? = _
  rw [← hl]
  rfl

theorem subset_determinize_injective (hs : (N.determinize A).subset s = some S)
    (ht : (N.determinize A).subset t = some S) : s = t := by
  obtain ⟨hslt, hs⟩ := List.getElem?_eq_some_iff.1 hs
  obtain ⟨htlt, ht⟩ := List.getElem?_eq_some_iff.1 ht
  exact (List.Nodup.getElem_inj_iff (invariant_surveySubsets N (Nfa.columns A)).nodup).1
    (hs.trans ht.symm)

/-- **Every column leads on from every state**, to the state of the step. -/
theorem WellFormed.exists_transition_determinize (hN : N.WellFormed)
    (hs : (N.determinize A).subset s = some S) (hcode : code ∈ Nfa.columns A) :
    ∃ t, (N.determinize A).transition s code = some t ∧
      (N.determinize A).subset t = some (N.step S code) := by
  obtain ⟨row, hrow, hnames⟩ := exists_row_survey (hN.atMost_reached (Nfa.columns A)) hs
  obtain ⟨j, hj⟩ := Option.isSome_iff_exists.1 (List.isSome_idxOf?.2 hcode)
  obtain ⟨hlt, hget, -⟩ := List.idxOf?_eq_some_iff.1 hj
  -- the place of the code among the columns is the place of its step in the row
  have hentry : (row.map ((N.determinize A).subset ·))[j]? = some (some (N.step S code)) := by
    refine (congrArg (·[j]?) hnames).trans ?_
    simp [successors, List.getElem?_eq_getElem hlt, hget]
  rw [List.getElem?_map, Option.map_eq_some_iff] at hentry
  obtain ⟨t, ht, hsubset⟩ := hentry
  exact ⟨t, Dfa.transition_eq_some_iff.2 ⟨row, j, hrow, hj, ht⟩, hsubset⟩

theorem WellFormed.subset_transition_determinize (hN : N.WellFormed)
    (ht : (N.determinize A).transition s code = some t)
    (hs : (N.determinize A).subset s = some S) :
    (N.determinize A).subset t = some (N.step S code) := by
  have hcode : code ∈ Nfa.columns A := Dfa.mem_columns_of_transition ht
  obtain ⟨u, hu, hsubset⟩ := hN.exists_transition_determinize hs hcode
  obtain rfl := Option.some.inj (ht.symm.trans hu)
  exact hsubset

theorem mem_accepting_determinize_iff (hs : (N.determinize A).subset s = some S) :
    s ∈ (N.determinize A).accepting ↔ ∃ q ∈ S, q ∈ N.accepting := by
  have hs' : (N.surveySubsets (Nfa.columns A)).found[s]? = some S := hs
  have hlt := (List.getElem?_eq_some_iff.1 hs').1
  rw [determinize, toDfa, StateSet.mem_ofList, List.mem_filter, List.mem_range, hs',
    Option.map_some, Option.getD_some, StateSet.intersects_iff]
  exact ⟨fun h => h.2, fun h => ⟨hlt, h⟩⟩

theorem accepting_determinize_lt (hs : s ∈ (N.determinize A).accepting) :
    s < (N.determinize A).numStates := by
  rw [determinize, toDfa, StateSet.mem_ofList, List.mem_filter, List.mem_range] at hs
  exact hs.1

/-- Whatever a run over columns can be in is the set of a state, and a word leads to
that state. -/
theorem WellFormed.exists_follow_of_reached (hN : N.WellFormed)
    (h : Reached (N.successors (Nfa.columns A)) [N.startClosure] S) :
    ∃ word s, (∀ code ∈ word, code ∈ Nfa.columns A) ∧
      (N.determinize A).follow 0 word = some s ∧ (N.determinize A).subset s = some S := by
  induction h with
  | start hS =>
      rw [List.mem_singleton.1 hS]
      exact ⟨[], 0, fun _ h => absurd h List.not_mem_nil, rfl, subset_determinize_start N A⟩
  | step _ hS ih =>
      obtain ⟨code, hcode, rfl⟩ := List.mem_map.1 hS
      obtain ⟨word, s, hword, hfollow, hs⟩ := ih
      obtain ⟨t, ht, hsubset⟩ := hN.exists_transition_determinize hs hcode
      refine ⟨word ++ [code], t, fun c hc => ?_, ?_, hsubset⟩
      · rcases List.mem_append.1 hc with hc | hc
        · exact hword c hc
        · exact List.mem_singleton.1 hc ▸ hcode
      · rw [Dfa.follow_append hfollow, Dfa.follow, ht]
        rfl

theorem WellFormed.exists_follow_determinize (hN : N.WellFormed)
    (hs : s < (N.determinize A).numStates) :
    ∃ word, (∀ code ∈ word, code ∈ Nfa.columns A) ∧
      (N.determinize A).follow 0 word = some s := by
  obtain ⟨S, hS⟩ := Dfa.exists_subset_iff.2 hs
  have hreached := (invariant_surveySubsets N (Nfa.columns A)).reached S (List.mem_of_getElem? hS)
  obtain ⟨word, t, hword, hfollow, ht⟩ := hN.exists_follow_of_reached hreached
  obtain rfl := subset_determinize_injective hS ht
  exact ⟨word, hword, hfollow⟩

theorem WellFormed.isTotal_determinize (hN : N.WellFormed) (A : Alphabet α) :
    (N.determinize A).isTotal = true := by
  simp only [Dfa.isTotal, List.all_eq_true, List.mem_range]
  intro s hs code hcode
  obtain ⟨S, hS⟩ := Dfa.exists_subset_iff.2 hs
  obtain ⟨t, ht, -⟩ := hN.exists_transition_determinize hS hcode
  rw [ht]
  rfl

/-- **Determinization makes the subset automaton.** -/
theorem WellFormed.subsetAutomaton (hN : N.WellFormed) (A : Alphabet α) :
    SubsetAutomaton N (Nfa.columns A) (N.determinize A) where
  columns_eq := rfl
  start_eq := rfl
  subset_start := subset_determinize_start N A
  exists_transition s hs code hcode := by
    obtain ⟨S, hS⟩ := Dfa.exists_subset_iff.2 hs
    obtain ⟨t, ht, -⟩ := hN.exists_transition_determinize hS hcode
    refine ⟨t, ht, fun u => ?_⟩
    rw [Dfa.mem_transitions_iff, ht]
    exact ⟨fun h => (Option.some.inj h.2.2).symm, fun h => ⟨hs, hcode, congrArg some h.symm⟩⟩
  subset_transition _ _ _ _ ht hs := hN.subset_transition_determinize ht hs
  subset_injective _ _ _ hs ht := subset_determinize_injective hs ht
  stateFor_subset s S hS := by
    obtain ⟨hlt, hget⟩ := List.getElem?_eq_some_iff.1 hS
    -- an earlier state with the same set would be found first
    refine List.idxOf?_eq_some_iff.2 ⟨hlt, hget, fun j hj hget' => ?_⟩
    have hS' : (N.determinize A).subset j = some S :=
      List.getElem?_eq_some_iff.2 ⟨Nat.lt_trans hj hlt, hget'⟩
    exact absurd (subset_determinize_injective hS' hS) (Nat.ne_of_lt hj)
  exists_follow s hs := hN.exists_follow_determinize hs
  accepting_lt _ hs := accepting_determinize_lt hs
  accepting_iff _ _ hS := mem_accepting_determinize_iff hS
  isTotal_eq := hN.isTotal_determinize A

end

/-- **However an automaton is constructed, its determinization ends**, with nothing left
to expand and nothing more to find, **and it makes the subset automaton** over `Code.sigma`
and the codes registered at that time. -/
theorem determinize_build {α : Type} (cs : List Construction) (A : Alphabet α) :
    ((build cs).surveySubsets (Nfa.columns A)).pending = [] ∧
      (∀ rounds, Nat.pow 2 (build cs).numStates ≤ rounds →
        survey ((build cs).successors (Nfa.columns A)) (build cs).discovery rounds
          [(build cs).startClosure] = (build cs).surveySubsets (Nfa.columns A)) ∧
      SubsetAutomaton (build cs) (Code.sigma :: A.codes) ((build cs).determinize A) := by
  have hN : (build cs).WellFormed := wellFormed_build cs
  exact ⟨hN.pending_surveySubsets _, fun _ h => hN.survey_eq_surveySubsets _ h,
    hN.subsetAutomaton A⟩

end Nfa
end SignatureAutomata
