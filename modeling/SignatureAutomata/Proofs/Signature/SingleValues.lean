import SignatureAutomata.Proofs.Signature.Fragments

/-! # Signatures without sequences

Where no position is an `anySequence`, every position takes one value.  The automaton is then a
line: its states count the positions that are behind, every edge leads to the next state, and no
edge is an epsilon edge (`IsShapeOf.edge_next`).  From the set of one state a code leads to the set
of the next state, if some edge there is taken by it, and otherwise to the empty set
(`IsShapeOf.step_singleton`).  There is such a code for every state but the last one, and any code
leads from the last one to the empty set; so these sets are all reached, and no others
(`IsShapeOf.reached_iff`).
-/

namespace SignatureAutomata

namespace Nfa
variable {N : Nfa}

/-- Without epsilon edges every set is closed. -/
theorem WellFormed.epsilonClosure_eq_self (hN : N.WellFormed)
    (hsilent : N.Unlabelled Code.epsilon) {S : StateSet} (hS : N.Owns S) :
    N.epsilonClosure S = S := by
  have hreach : ∀ p q, N.EpsilonReach p q → q = p := by
    intro p q h
    induction h with
    | refl => rfl
    | step _ he => exact absurd rfl (hsilent _ he)
  refine StateSet.ext fun t => ?_
  rw [hN.mem_epsilonClosure_iff hS]
  constructor
  · rintro ⟨p, hp, hpt⟩
    exact hreach p t hpt ▸ hp
  · exact fun ht => ⟨t, ht, .refl t⟩

/-- Without epsilon edges a step is a single edge from each state. -/
theorem WellFormed.mem_step_iff (hN : N.WellFormed) (hsilent : N.Unlabelled Code.epsilon)
    {S : StateSet} (hS : N.Owns S) {code t : Nat} :
    t ∈ N.step S code ↔
      ∃ e ∈ N.edges, (e.label = code ∨ e.label = Code.sigma) ∧ e.source ∈ S ∧ e.target = t := by
  rw [step, hN.epsilonClosure_eq_self hsilent (hN.owns_move S code), mem_move,
    hN.epsilonClosure_eq_self hsilent hS]

end Nfa

namespace Token
variable {α : Type} [DecidableEq α] {A : Alphabet α} {last : Nat} {token : Token α}
  {tokens : List (Token α)} {e : Edge}

theorem stateAfter_eq_length (h : .anySequence ∉ tokens) : stateAfter tokens = tokens.length := by
  induction tokens with
  | nil => rfl
  | cons token tokens ih =>
      obtain ⟨htoken, htokens⟩ := not_or.1 (mt List.mem_cons.2 h)
      have hwidth : token.width = 1 := by
        cases token with
        | literal | any => rfl
        | anySequence => exact absurd rfl htoken
      rw [stateAfter_cons, hwidth, ih htokens, List.length_cons, Nat.add_comm]

theorem lastState_eq_length (h : .anySequence ∉ tokens) : lastState 0 tokens = tokens.length := by
  rw [lastState_eq, Nat.zero_add, stateAfter_eq_length h]

/-- A position that takes one value lays edges to the next state only, and no epsilon edge. -/
theorem HasEdge.next (h : HasEdge A last token e) (htoken : token ≠ .anySequence) :
    e.source = last ∧ e.target = last + 1 ∧ e.label ≠ Code.epsilon := by
  cases h with
  | literal v => exact ⟨rfl, rfl, A.codeOf_ne_epsilon v⟩
  | any => exact ⟨rfl, rfl, Nat.one_ne_zero⟩
  | anySymbol => exact ⟨rfl, rfl, A.codeOf_ne_epsilon _⟩
  | enter | pass | take | takeSymbol | leave | back => exact absurd rfl htoken

/-- Such a position has an edge, with a code that has a column. -/
theorem exists_hasEdge (A : Alphabet α) (last : Nat) (htoken : token ≠ .anySequence) :
    ∃ label ∈ Nfa.columns A, HasEdge A last token ⟨last, label, last + 1⟩ := by
  cases token with
  | literal v => exact ⟨_, Nfa.codeOf_mem_columns A v, .literal v⟩
  | any => exact ⟨_, List.mem_cons_self, .any⟩
  | anySequence => exact absurd rfl htoken

end Token

namespace Signature
variable {α : Type} [DecidableEq α] {s : Signature α} {A : Alphabet α} {N : Nfa}

/-! ### The automaton is a line -/

/-- **Every edge leads to the next state**, and none is an epsilon edge. -/
theorem IsShapeOf.edge_next (hN : s.IsShapeOf A N) (h : .anySequence ∉ s.tokens) {e : Edge}
    (he : e ∈ N.edges) :
    e.source < s.tokens.length ∧ e.target = e.source + 1 ∧ e.label ≠ Code.epsilon := by
  obtain ⟨before, token, after, htokens, hedge⟩ :=
    Token.mem_edgesAll_iff.1 ((hN.mem_edges_iff e).1 he)
  rw [htokens, List.mem_append, List.mem_cons, not_or, not_or] at h
  obtain ⟨hbefore, htoken, -⟩ := h
  obtain ⟨hsource, htarget, hlabel⟩ := hedge.next (Ne.symm htoken)
  rw [Nat.zero_add, Token.stateAfter_eq_length hbefore] at hsource htarget
  refine ⟨?_, by rw [htarget, hsource], hlabel⟩
  rw [hsource, htokens, List.length_append, List.length_cons]
  omega

/-- **An edge leads on from every state but the last.** -/
theorem IsShapeOf.exists_edge_next (hN : s.IsShapeOf A N) (h : .anySequence ∉ s.tokens) {i : Nat}
    (hi : i < s.tokens.length) : ∃ label ∈ Nfa.columns A, ⟨i, label, i + 1⟩ ∈ N.edges := by
  have htoken : s.tokens[i] ≠ .anySequence := fun heq => h (heq ▸ List.getElem_mem hi)
  have hbefore : .anySequence ∉ s.tokens.take i := fun hmem => h (List.mem_of_mem_take hmem)
  have hstate : 0 + Token.stateAfter (s.tokens.take i) = i := by
    rw [Nat.zero_add, Token.stateAfter_eq_length hbefore, List.length_take]
    omega
  obtain ⟨label, hlabel, hedge⟩ := Token.exists_hasEdge A i htoken
  refine ⟨label, hlabel, (hN.mem_edges_iff _).2 (Token.mem_edgesAll_iff.2
    ⟨s.tokens.take i, s.tokens[i], s.tokens.drop (i + 1), ?_, ?_⟩)⟩
  · rw [List.getElem_cons_drop, List.take_append_drop]
  · rw [hstate]
    exact hedge

theorem IsShapeOf.unlabelled_epsilon (hN : s.IsShapeOf A N) (h : .anySequence ∉ s.tokens) :
    N.Unlabelled Code.epsilon :=
  fun _ he => (hN.edge_next h he).2.2

theorem IsShapeOf.owns_singleton (hN : s.IsShapeOf A N) (h : .anySequence ∉ s.tokens) {i : Nat}
    (hi : i ≤ s.tokens.length) : N.Owns (.singleton i) := by
  intro t ht
  rw [StateSet.mem_singleton.1 ht, hN.numStates_eq, Token.lastState_eq_length h]
  omega

/-! ### The sets that runs can be in -/

theorem IsShapeOf.startClosure_eq_singleton (hN : s.IsShapeOf A N) (h : .anySequence ∉ s.tokens) :
    N.startClosure = .singleton 0 := by
  rw [Nfa.startClosure, hN.start_eq]
  exact hN.wellFormed.epsilonClosure_eq_self (hN.unlabelled_epsilon h)
    (hN.owns_singleton h (Nat.zero_le _))

theorem IsShapeOf.mem_step_singleton_iff (hN : s.IsShapeOf A N) (h : .anySequence ∉ s.tokens)
    {i code t : Nat} (hi : i ≤ s.tokens.length) :
    t ∈ N.step (.singleton i) code ↔ t = i + 1 ∧
      ∃ label, ⟨i, label, i + 1⟩ ∈ N.edges ∧ (label = code ∨ label = Code.sigma) := by
  rw [hN.wellFormed.mem_step_iff (hN.unlabelled_epsilon h) (hN.owns_singleton h hi)]
  constructor
  · rintro ⟨⟨source, label, target⟩, he, hlabel, hsource, rfl⟩
    obtain rfl := StateSet.mem_singleton.1 hsource
    obtain ⟨-, htarget, -⟩ := hN.edge_next h he
    dsimp only at htarget
    subst htarget
    exact ⟨rfl, label, he, hlabel⟩
  · rintro ⟨rfl, label, he, hlabel⟩
    exact ⟨_, he, hlabel, StateSet.mem_singleton.2 rfl, rfl⟩

/-- **A code leads from one state to the next or nowhere**, and from the last state nowhere. -/
theorem IsShapeOf.step_singleton (hN : s.IsShapeOf A N) (h : .anySequence ∉ s.tokens) {i : Nat}
    (hi : i ≤ s.tokens.length) (code : Nat) :
    N.step (.singleton i) code = ∅ ∨
      i < s.tokens.length ∧ N.step (.singleton i) code = .singleton (i + 1) := by
  by_cases hedge : ∃ label, ⟨i, label, i + 1⟩ ∈ N.edges ∧ (label = code ∨ label = Code.sigma)
  · obtain ⟨label, he, -⟩ := id hedge
    refine .inr ⟨(hN.edge_next h he).1, StateSet.ext fun t => ?_⟩
    rw [hN.mem_step_singleton_iff h hi, StateSet.mem_singleton, and_iff_left hedge]
  · refine .inl (StateSet.eq_empty_of_forall_not_mem fun t ht => ?_)
    exact hedge ((hN.mem_step_singleton_iff h hi).1 ht).2

/-- Some code leads to the next state. -/
theorem IsShapeOf.exists_step_singleton (hN : s.IsShapeOf A N) (h : .anySequence ∉ s.tokens)
    {i : Nat} (hi : i < s.tokens.length) :
    ∃ code ∈ Nfa.columns A, N.step (.singleton i) code = .singleton (i + 1) := by
  obtain ⟨code, hcode, he⟩ := hN.exists_edge_next h hi
  refine ⟨code, hcode, ?_⟩
  rcases hN.step_singleton h (Nat.le_of_lt hi) code with hempty | ⟨-, hnext⟩
  · have hmem : i + 1 ∈ N.step (.singleton i) code :=
      (hN.mem_step_singleton_iff h (Nat.le_of_lt hi)).2 ⟨rfl, code, he, .inl rfl⟩
    rw [hempty] at hmem
    exact absurd hmem (StateSet.not_mem_empty _)
  · exact hnext

/-- **Runs are in one state at a time, in any of them, or in none.** -/
theorem IsShapeOf.reached_iff (hN : s.IsShapeOf A N) (h : .anySequence ∉ s.tokens)
    {columns : List Nat} (hcolumns : Nfa.columns A ⊆ columns) {S : StateSet} :
    Reached (N.successors columns) [N.startClosure] S ↔
      S = ∅ ∨ ∃ i ≤ s.tokens.length, S = .singleton i := by
  have hstart := hN.startClosure_eq_singleton h
  have hstep : ∀ {T : StateSet} {code : Nat}, code ∈ Nfa.columns A →
      Reached (N.successors columns) [N.startClosure] T →
        Reached (N.successors columns) [N.startClosure] (N.step T code) := fun hcode hT =>
    .step hT (List.mem_map_of_mem (hcolumns hcode))
  have hsingleton : ∀ i ≤ s.tokens.length,
      Reached (N.successors columns) [N.startClosure] (.singleton i) := by
    intro i hi
    induction i with
    | zero => exact .start (List.mem_singleton.2 hstart.symm)
    | succ i ih =>
        obtain ⟨code, hcode, hnext⟩ := hN.exists_step_singleton h hi
        exact hnext ▸ hstep hcode (ih (Nat.le_of_lt hi))
  constructor
  · intro hS
    induction hS with
    | start hS => exact .inr ⟨0, Nat.zero_le _, (List.mem_singleton.1 hS).trans hstart⟩
    | step _ hS ih =>
        obtain ⟨code, -, rfl⟩ := List.mem_map.1 hS
        rcases ih with rfl | ⟨i, hi, rfl⟩
        · exact .inl (Nfa.step_empty N code)
        · rcases hN.step_singleton h hi code with hempty | ⟨hlt, hnext⟩
          · exact .inl hempty
          · exact .inr ⟨i + 1, hlt, hnext⟩
  · rintro (rfl | ⟨i, hi, rfl⟩)
    · -- the end of the line, where any code leads nowhere
      rcases hN.step_singleton h (Nat.le_refl _) Code.sigma with hempty | ⟨hlt, -⟩
      · exact hempty ▸ hstep List.mem_cons_self (hsingleton _ (Nat.le_refl _))
      · exact absurd hlt (Nat.lt_irrefl _)
    · exact hsingleton i hi

/-! ### The deterministic automaton -/

theorem nodup_singletons (n : Nat) : (∅ :: (List.range n).map StateSet.singleton).Nodup := by
  refine List.nodup_cons.2 ⟨fun hmem => ?_, ?_⟩
  · obtain ⟨i, -, hi⟩ := List.mem_map.1 hmem
    exact StateSet.not_mem_empty i (hi ▸ StateSet.mem_singleton.2 rfl)
  · refine List.pairwise_map.2 (List.nodup_range.imp fun hne heq => hne ?_)
    exact StateSet.mem_singleton.1 (heq ▸ StateSet.mem_singleton.2 rfl)

/-- **Its states are the sets of one state and the empty set.** -/
theorem IsShapeOf.subsets_determinize_perm (hN : s.IsShapeOf A N) (h : .anySequence ∉ s.tokens)
    {B : Alphabet α} (hcolumns : Nfa.columns A ⊆ Nfa.columns B) :
    (N.determinize B).subsets.Perm
      (∅ :: (List.range (s.tokens.length + 1)).map StateSet.singleton) := by
  have hnodup : (N.determinize B).subsets.Nodup :=
    (Nfa.invariant_surveySubsets N (Nfa.columns B)).nodup
  refine (List.perm_ext_iff_of_nodup hnodup (nodup_singletons _)).2 fun S => ?_
  have hfound : S ∈ (N.determinize B).subsets ↔
      Reached (N.successors (Nfa.columns B)) [N.startClosure] S :=
    mem_found_survey_iff (hN.wellFormed.atMost_reached (Nfa.columns B))
  rw [hfound, hN.reached_iff h hcolumns, List.mem_cons, List.mem_map]
  refine or_congr_right (exists_congr fun i => ?_)
  rw [List.mem_range, Nat.lt_succ_iff, eq_comm]

/-- **It accepts in the set of the last state only.** -/
theorem IsShapeOf.mem_accepting_determinize_iff (hN : s.IsShapeOf A N)
    (h : .anySequence ∉ s.tokens) {B : Alphabet α} (hcolumns : Nfa.columns A ⊆ Nfa.columns B)
    {state : Nat} {S : StateSet} (hS : (N.determinize B).subset state = some S) :
    state ∈ (N.determinize B).accepting ↔ S = .singleton s.tokens.length := by
  have haccepting : state ∈ (N.determinize B).accepting ↔ s.tokens.length ∈ S := by
    rw [Nfa.mem_accepting_determinize_iff hS]
    simp only [hN.mem_accepting_iff, Token.lastState_eq_length h, exists_eq_right]
  rw [haccepting]
  have hmem : S ∈ (N.determinize B).subsets := List.mem_of_getElem? hS
  rw [(hN.subsets_determinize_perm h hcolumns).mem_iff, List.mem_cons, List.mem_map] at hmem
  constructor
  · intro hlast
    rcases hmem with rfl | ⟨i, -, rfl⟩
    · exact absurd hlast (StateSet.not_mem_empty _)
    · rw [StateSet.mem_singleton.1 hlast]
  · rintro rfl
    exact StateSet.mem_singleton.2 rfl

/-- **Single values never multiply states.**  Whatever the alphabet a signature of `n` positions
without an `anySequence` is compiled over, and whatever is registered before determinization, the
deterministic automaton has `n + 2` states: one for the set of each state of the automaton, and one
for the empty set.  It accepts in the state that stands for the last of them, and in no other. -/
theorem determinize_single_values (s : Signature α) (h : .anySequence ∉ s.tokens) (A : Alphabet α)
    (early : List α) :
    ∃ N, s.automaton A = .ok (s.seed A, N) ∧
      let D := N.determinize ((s.seed A).registerAll early)
      D.numStates = s.tokens.length + 2 ∧
        D.subsets.Perm (∅ :: (List.range (s.tokens.length + 1)).map StateSet.singleton) ∧
        ∃ final, D.subset final = some (.singleton s.tokens.length) ∧
          D.accepting = .singleton final := by
  obtain ⟨N, hN, hshape⟩ := s.exists_automaton A
  have hcolumns : Nfa.columns (s.seed A) ⊆ Nfa.columns ((s.seed A).registerAll early) :=
    List.cons_subset_cons _ ((s.seed A).codes_subset_registerAll early)
  have hperm := hshape.subsets_determinize_perm h hcolumns
  refine ⟨N, hN, hperm.length_eq.trans (by simp), hperm, ?_⟩
  have hlast : StateSet.singleton s.tokens.length ∈
      ∅ :: (List.range (s.tokens.length + 1)).map StateSet.singleton :=
    List.mem_cons_of_mem _ (List.mem_map_of_mem (List.mem_range.2 (Nat.lt_succ_self _)))
  obtain ⟨final, hfinal⟩ := List.mem_iff_getElem?.1 (hperm.mem_iff.2 hlast)
  refine ⟨final, hfinal, StateSet.ext fun state => ?_⟩
  rw [StateSet.mem_singleton]
  constructor
  · intro hstate
    obtain ⟨S, hS⟩ := Dfa.exists_subset_iff.2 (Nfa.accepting_determinize_lt hstate)
    obtain rfl := (hshape.mem_accepting_determinize_iff h hcolumns hS).1 hstate
    exact Nfa.subset_determinize_injective hS hfinal
  · rintro rfl
    exact (hshape.mem_accepting_determinize_iff h hcolumns hfinal).2 rfl

/-- A literal that comes twice, over an alphabet with another symbol, and one registered late. -/
theorem determinize_single_values_repeated :
    let s : Signature Nat := ⟨[.literal 4, .any, .literal 4]⟩
    .anySequence ∉ s.tokens ∧
      ∃ N, s.automaton (.ofList [7]) = .ok (s.seed (.ofList [7]), N) ∧
        let D := N.determinize ((s.seed (.ofList [7])).registerAll [9])
        D.numStates = 5 ∧
          D.subsets.Perm [∅, .singleton 0, .singleton 1, .singleton 2, .singleton 3] ∧
          ∃ final, D.subset final = some (.singleton 3) ∧ D.accepting = .singleton final :=
  ⟨by decide, determinize_single_values _ (by decide) (.ofList [7]) [9]⟩

end Signature
end SignatureAutomata
