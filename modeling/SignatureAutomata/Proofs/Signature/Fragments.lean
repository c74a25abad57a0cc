import SignatureAutomata.Proofs.Alphabet.Registration

/-! # A signature's automaton, position by position

What compiling a signature makes is counted and listed here from its positions alone.  The
alphabet keeps its symbols and gets the literals that are new, each where it comes first
(`symbols_seed`).  The positions up to some point lead to a state whose number is counted from them
(`Token.stateAfter`), and from there the next position lays its edges (`Token.HasEdge`): an edge is
one of the automaton exactly if some position lays it (`Token.mem_edgesAll_iff`).

Edges lead to larger numbers, but for one epsilon edge back from the end of each `anySequence`
(`IsShapeOf.filter_edges_eq`).

Over an alphabet that has the literals already, compiling registers nothing (`seed_seed`) and so
makes the same automaton again.
-/

namespace SignatureAutomata

theorem Alphabet.registerAll_eq_self {α : Type} [DecidableEq α] {A : Alphabet α} {xs : List α}
    (h : ∀ x ∈ xs, x ∈ A.symbols) : A.registerAll xs = A := by
  induction xs with
  | nil => rfl
  | cons x xs ih =>
      rw [List.forall_mem_cons] at h
      show (A.register x).registerAll xs = A
      rw [register_of_mem h.1, ih h.2]

/-- The codes with a column are `Code.sigma` and the codes of the symbols. -/
theorem Nfa.mem_columns_iff {α : Type} [DecidableEq α] {A : Alphabet α} {code : Nat} :
    code ∈ columns A ↔ code = Code.sigma ∨ ∃ x ∈ A.symbols, A.codeOf x = code := by
  rw [columns, List.mem_cons]
  refine or_congr_right ⟨Alphabet.exists_codeOf_eq, ?_⟩
  rintro ⟨x, hx, rfl⟩
  exact Alphabet.codeOf_mem_codes_iff.2 hx

namespace Token
variable {α : Type} [DecidableEq α] {A : Alphabet α} {last : Nat} {token : Token α}
  {tokens : List (Token α)} {e : Edge}

/-! ### States -/

/-- **The state that some positions lead to**: one further for every literal and every `any`, three
further for every `anySequence`. -/
def stateAfter (tokens : List (Token α)) : Nat :=
  (tokens.filterMap value?).length + tokens.count .any + 3 * tokens.count .anySequence

theorem stateAfter_cons (token : Token α) (tokens : List (Token α)) :
    stateAfter (token :: tokens) = token.width + stateAfter tokens := by
  cases token <;> simp [stateAfter, value?, width, List.filterMap_cons] <;> omega

theorem lastState_eq (last : Nat) (tokens : List (Token α)) :
    lastState last tokens = last + stateAfter tokens := by
  induction tokens generalizing last with
  | nil => rfl
  | cons token tokens ih => rw [lastState, ih, stateAfter_cons, Nat.add_assoc]

/-! ### Edges -/

/-- **The edges of one position**, begun in the state `last`, over the alphabet with all symbols.
A literal has one edge.  For `any`, any value takes the `Code.sigma` edge, and there is one more
edge for every symbol.  An `anySequence` is entered, passed by, taken by one value and left in
epsilon edges to the next states, and from its end an epsilon edge leads back to where it began. -/
inductive HasEdge (A : Alphabet α) (last : Nat) : Token α → Edge → Prop where
  | literal (v : α) : HasEdge A last (.literal v) ⟨last, A.codeOf v, last + 1⟩
  | any : HasEdge A last .any ⟨last, Code.sigma, last + 1⟩
  | anySymbol {x : α} : x ∈ A.symbols → HasEdge A last .any ⟨last, A.codeOf x, last + 1⟩
  | enter : HasEdge A last .anySequence ⟨last, Code.epsilon, last + 1⟩
  | pass : HasEdge A last .anySequence ⟨last + 1, Code.epsilon, last + 2⟩
  | take : HasEdge A last .anySequence ⟨last + 1, Code.sigma, last + 2⟩
  | takeSymbol {x : α} : x ∈ A.symbols →
      HasEdge A last .anySequence ⟨last + 1, A.codeOf x, last + 2⟩
  | leave : HasEdge A last .anySequence ⟨last + 2, Code.epsilon, last + 3⟩
  | back : HasEdge A last .anySequence ⟨last + 3, Code.epsilon, last⟩

theorem mem_edges_of_hasEdge (h : HasEdge A last token e) : e ∈ token.edges A last := by
  cases h with
  | literal v => exact List.mem_singleton_self _
  | any => exact List.mem_map_of_mem (Nfa.mem_columns_iff.2 (.inl rfl))
  | anySymbol hx => exact List.mem_map_of_mem (Nfa.mem_columns_iff.2 (.inr ⟨_, hx, rfl⟩))
  | take =>
      refine List.mem_append_left _ (List.mem_append_right _ ?_)
      exact List.mem_map_of_mem (Nfa.mem_columns_iff.2 (.inl rfl))
  | takeSymbol hx =>
      refine List.mem_append_left _ (List.mem_append_right _ ?_)
      exact List.mem_map_of_mem (Nfa.mem_columns_iff.2 (.inr ⟨_, hx, rfl⟩))
  | enter | pass | leave | back => simp [edges]

theorem hasEdge_of_mem_edges (h : e ∈ token.edges A last) : HasEdge A last token e := by
  cases token with
  | literal v =>
      rw [List.mem_singleton.1 h]
      exact .literal v
  | any =>
      obtain ⟨label, hlabel, rfl⟩ := List.mem_map.1 h
      rcases Nfa.mem_columns_iff.1 hlabel with rfl | ⟨x, hx, rfl⟩
      · exact .any
      · exact .anySymbol hx
  | anySequence =>
      simp only [edges, List.mem_append, List.mem_cons, List.mem_map, List.not_mem_nil,
        or_false] at h
      rcases h with ((rfl | rfl) | ⟨label, hlabel, rfl⟩) | (rfl | rfl)
      · exact .enter
      · exact .pass
      · rcases Nfa.mem_columns_iff.1 hlabel with rfl | ⟨x, hx, rfl⟩
        · exact .take
        · exact .takeSymbol hx
      · exact .leave
      · exact .back

/-- **The edges are those that the positions lay**, each from the state that the positions ahead of
it lead to. -/
theorem mem_edgesAll_iff : e ∈ edgesAll A last tokens ↔ ∃ before token after,
    tokens = before ++ token :: after ∧ HasEdge A (last + stateAfter before) token e := by
  induction tokens generalizing last with
  | nil => simp [edgesAll]
  | cons head tail ih =>
      rw [edgesAll, List.mem_append, ih]
      constructor
      · rintro (hhead | ⟨before, token, after, rfl, hedge⟩)
        · exact ⟨[], head, tail, rfl, hasEdge_of_mem_edges hhead⟩
        · refine ⟨head :: before, token, after, rfl, ?_⟩
          rwa [stateAfter_cons, ← Nat.add_assoc]
      · rintro ⟨before, token, after, htokens, hedge⟩
        cases before with
        | nil =>
            obtain ⟨rfl, rfl⟩ := List.cons.inj htokens
            exact .inl (mem_edges_of_hasEdge hedge)
        | cons first before =>
            obtain ⟨rfl, rfl⟩ := List.cons.inj htokens
            rw [stateAfter_cons, ← Nat.add_assoc] at hedge
            exact .inr ⟨before, token, after, rfl, hedge⟩

/-! ### Back edges -/

/-- The edge from the end of an `anySequence` to its beginning. -/
def backEdge? (last : Nat) : Token α → Option Edge
  | .anySequence => some ⟨last + 3, Code.epsilon, last⟩
  | _ => none

/-- **The back edges of a list of positions**, one for each `anySequence`. -/
def backEdges (last : Nat) : List (Token α) → List Edge
  | [] => []
  | token :: tokens => (token.backEdge? last).toList ++ backEdges (last + token.width) tokens

theorem mem_edges_and_le_iff :
    e ∈ token.edges A last ∧ e.target ≤ e.source ↔ token.backEdge? last = some e := by
  constructor
  · rintro ⟨he, hle⟩
    cases hasEdge_of_mem_edges he with
    | back => rfl
    | _ => exact absurd hle (by simp)
  · intro h
    cases token with
    | anySequence =>
        obtain rfl := Option.some.inj h
        exact ⟨mem_edges_of_hasEdge .back, Nat.le_add_right last 3⟩
    | _ => cases h

/-- **All edges but the back edges lead to larger numbers.** -/
theorem mem_edgesAll_and_le_iff :
    e ∈ edgesAll A last tokens ∧ e.target ≤ e.source ↔ e ∈ backEdges last tokens := by
  induction tokens generalizing last with
  | nil => simp [edgesAll, backEdges]
  | cons token tokens ih =>
      rw [edgesAll, backEdges, List.mem_append, List.mem_append, ← ih, Option.mem_toList,
        ← mem_edges_and_le_iff (A := A), or_and_right]

omit [DecidableEq α] in
theorem lt_source_of_mem_backEdges (h : e ∈ backEdges last tokens) : last < e.source := by
  induction tokens generalizing last with
  | nil => cases h
  | cons token tokens ih =>
      rcases List.mem_append.1 h with h | h
      · cases token with
        | anySequence =>
            rw [List.mem_singleton.1 h]
            exact Nat.lt_add_of_pos_right (Nat.succ_pos 2)
        | _ => cases h
      · exact Nat.lt_of_le_of_lt (Nat.le_add_right _ _) (ih h)

omit [DecidableEq α] in
theorem pairwise_backEdges (last : Nat) (tokens : List (Token α)) :
    (backEdges last tokens).Pairwise Edge.Before := by
  induction tokens generalizing last with
  | nil => exact .nil
  | cons token tokens ih =>
      cases token with
      | anySequence =>
          refine List.pairwise_cons.2 ⟨fun e he => ?_, ih _⟩
          exact .inl (lt_source_of_mem_backEdges he)
      | _ => exact ih _

theorem length_backEdges (last : Nat) (tokens : List (Token α)) :
    (backEdges last tokens).length = tokens.count .anySequence := by
  induction tokens generalizing last with
  | nil => rfl
  | cons token tokens ih =>
      rw [backEdges, List.length_append, ih, List.count_cons]
      cases token <;> simp [backEdge?, Nat.add_comm]

end Token

namespace Signature
variable {α : Type} [DecidableEq α] {s : Signature α} {A : Alphabet α} {N : Nfa}

/-- **The new literals are registered where they come first**, behind the symbols there. -/
theorem symbols_seed (s : Signature α) (A : Alphabet α) :
    (s.seed A).symbols = A.symbols ++ (s.literals.filter (· ∉ A.symbols)).eraseDups :=
  A.symbols_registerAll_eq_append s.literals

/-- Registering the literals again does nothing. -/
theorem seed_seed (s : Signature α) (A : Alphabet α) : s.seed (s.seed A) = s.seed A :=
  Alphabet.registerAll_eq_self fun _ hx => Alphabet.mem_symbols_registerAll.2 (.inr hx)

/-- **The edges that do not lead to a larger number are the back edges.** -/
theorem IsShapeOf.filter_edges_eq (h : s.IsShapeOf A N) :
    N.edges.filter (fun e => e.target ≤ e.source) = Token.backEdges 0 s.tokens := by
  refine eq_of_mem_iff (N.ordered.filter _) (Token.pairwise_backEdges 0 s.tokens) fun e => ?_
  rw [List.mem_filter, decide_eq_true_iff, h.mem_edges_iff, Token.mem_edgesAll_and_le_iff]

/-- **`N` is the automaton described for a signature**, compiled over the alphabet `A` that has
become `B`. -/
structure IsDescribed (s : Signature α) (A B : Alphabet α) (N : Nfa) : Prop where
  symbols_eq : B.symbols = A.symbols ++ (s.literals.filter (· ∉ A.symbols)).eraseDups
  numStates_eq : N.numStates =
    1 + s.literals.length + s.tokens.count .any + 3 * s.tokens.count .anySequence
  start_eq : N.start = 0
  accepting_eq : N.accepting = .singleton (Token.stateAfter s.tokens)
  mem_edges_iff : ∀ e, e ∈ N.edges ↔ ∃ before token after,
    s.tokens = before ++ token :: after ∧ Token.HasEdge B (Token.stateAfter before) token e
  /-- The edges that do not lead to a larger number. -/
  filter_edges_eq : N.edges.filter (fun e => e.target ≤ e.source) = Token.backEdges 0 s.tokens
  length_backEdges_eq : (Token.backEdges 0 s.tokens).length = s.tokens.count .anySequence

/-- **Compiling a signature is never refused, and makes what is described**, whatever the alphabet;
compiling it again over the alphabet as it is then leaves the alphabet alone and makes the same
automaton. -/
theorem automaton_isDescribed (s : Signature α) (A : Alphabet α) :
    ∃ N, s.automaton A = .ok (s.seed A, N) ∧ s.IsDescribed A (s.seed A) N ∧
      s.automaton (s.seed A) = .ok (s.seed A, N) := by
  obtain ⟨N, hN, h⟩ := s.exists_automaton A
  have hlast : Token.lastState 0 s.tokens = Token.stateAfter s.tokens := by
    rw [Token.lastState_eq, Nat.zero_add]
  refine ⟨N, hN, ⟨s.symbols_seed A, ?_, h.start_eq, StateSet.ext fun t => ?_, fun e => ?_,
    h.filter_edges_eq, Token.length_backEdges 0 s.tokens⟩, ?_⟩
  · rw [h.numStates_eq, hlast, Token.stateAfter, literals]
    omega
  · rw [h.mem_accepting_iff, hlast, StateSet.mem_singleton]
  · rw [h.mem_edges_iff, Token.mem_edgesAll_iff]
    simp only [Nat.zero_add]
  · rw [automaton, seed_seed]
    exact hN

end Signature
end SignatureAutomata
