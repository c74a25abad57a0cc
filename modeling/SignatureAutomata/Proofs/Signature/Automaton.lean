import SignatureAutomata.Signature.Automaton
import SignatureAutomata.Proofs.Dfa.Acceptance

/-! # The shape of a signature's automaton

No step of a signature's construction is refused, and what it makes can be read off the
positions (`exists_automaton`): the edges of the fragments (`Token.edges`), the end of
the last fragment as the one accepting state, and `0` as the start.

A literal's edge has a code of the alphabet, and not `Code.sigma`, because the alphabet
has every literal of the signature before any edge is laid (`registered_seed`).
-/

namespace SignatureAutomata

open Construction

namespace Token
variable {α : Type}

/-- The state that a list of fragments ends in. -/
def lastState (last : Nat) : List (Token α) → Nat
  | [] => last
  | token :: tokens => lastState (last + token.width) tokens

/-! ### Any value -/

variable {A : Alphabet α}

theorem filterMap_edge?_anyValueEdges (A : Alphabet α) (source target : Nat) :
    (anyValueEdges A.codes source target).filterMap edge? =
      (Nfa.columns A).map (⟨source, ·, target⟩) := by
  have hsigma : edge? (.sigma source target) = some ⟨source, Code.sigma, target⟩ := rfl
  rw [anyValueEdges, List.filterMap_cons_some hsigma, List.filterMap_map]
  exact congrArg (_ :: ·) (congrFun List.filterMap_eq_map A.codes)

theorem addedAll_anyValueEdges (codes : List Nat) (source target : Nat) :
    addedAll (anyValueEdges codes source target) = 0 := by
  show 0 + addedAll (codes.map (.transition source · target)) = 0
  induction codes with
  | nil => rfl
  | cons code codes ih =>
      show 0 + (0 + addedAll (codes.map (.transition source · target))) = 0
      rw [ih]

theorem allowedAll_transitions {codes : List Nat} {source target n : Nat}
    (hcodes : ∀ code ∈ codes, Code.isReserved code = false) (hs : source < n) (ht : target < n) :
    AllowedAll n (codes.map (.transition source · target)) := by
  induction codes with
  | nil => trivial
  | cons code codes ih =>
      rw [List.forall_mem_cons] at hcodes
      exact ⟨⟨hcodes.1, hs, ht⟩, ih hcodes.2⟩

theorem isReserved_of_mem_codes {code : Nat} (h : code ∈ A.codes) :
    Code.isReserved code = false :=
  decide_eq_false (Nat.not_lt.2 (Alphabet.mem_codes_iff.1 h).1)

theorem allowedAll_anyValueEdges (A : Alphabet α) {source target n : Nat} (hs : source < n)
    (ht : target < n) : AllowedAll n (anyValueEdges A.codes source target) :=
  ⟨⟨hs, ht⟩, allowedAll_transitions (fun _ => isReserved_of_mem_codes) hs ht⟩

/-! ### Fragments -/

variable [DecidableEq α]

/-- **The edges of the fragment of one position**, begun in the last state. -/
def edges (A : Alphabet α) (last : Nat) : Token α → List Edge
  | .literal v => [⟨last, A.codeOf v, last + 1⟩]
  | .any => (Nfa.columns A).map (⟨last, ·, last + 1⟩)
  | .anySequence =>
      [⟨last, Code.epsilon, last + 1⟩, ⟨last + 1, Code.epsilon, last + 2⟩]
        ++ (Nfa.columns A).map (⟨last + 1, ·, last + 2⟩)
        ++ [⟨last + 2, Code.epsilon, last + 3⟩, ⟨last + 3, Code.epsilon, last⟩]

/-- The edges of the fragments of a list of positions. -/
def edgesAll (A : Alphabet α) (last : Nat) : List (Token α) → List Edge
  | [] => []
  | token :: tokens => token.edges A last ++ edgesAll A (last + token.width) tokens

theorem filterMap_edge?_fragment (A : Alphabet α) (last : Nat) (token : Token α) :
    (token.fragment A last).filterMap edge? = token.edges A last := by
  cases token with
  | literal v => rfl
  | any => exact filterMap_edge?_anyValueEdges A last (last + 1)
  | anySequence =>
      rw [fragment, List.filterMap_append, List.filterMap_append, filterMap_edge?_anyValueEdges]
      rfl

theorem addedAll_fragment (A : Alphabet α) (last : Nat) (token : Token α) :
    addedAll (token.fragment A last) = token.width := by
  cases token with
  | literal v => rfl
  | any => rw [fragment, addedAll, addedAll_anyValueEdges]; rfl
  | anySequence => rw [fragment, addedAll_append, addedAll_append, addedAll_anyValueEdges]; rfl

/-- A literal stands for a symbol of the alphabet. -/
def Registered (A : Alphabet α) (token : Token α) : Prop :=
  ∀ v, token.value? = some v → v ∈ A.symbols

/-- **No step of a fragment is refused** once its literal is registered. -/
theorem allowedAll_fragment {last : Nat} {token : Token α} (h : token.Registered A) :
    AllowedAll (last + 1) (token.fragment A last) := by
  have hlast : last < last + 2 := Nat.lt_add_of_pos_right Nat.zero_lt_two
  cases token with
  | literal v =>
      have hcode : Code.isReserved (A.codeOf v) = false :=
        isReserved_of_mem_codes (Alphabet.codeOf_mem_codes_iff.2 (h v rfl))
      exact ⟨trivial, ⟨hcode, hlast, Nat.lt_succ_self (last + 1)⟩, trivial⟩
  | any => exact ⟨trivial, allowedAll_anyValueEdges A hlast (Nat.lt_succ_self (last + 1))⟩
  | anySequence =>
      -- the three states are added before any edge is laid
      rw [fragment, allowedAll_append_iff, allowedAll_append_iff, addedAll_append,
        addedAll_anyValueEdges]
      refine ⟨⟨?_, allowedAll_anyValueEdges A ?_ ?_⟩, ?_⟩
      all_goals simp [AllowedAll, Allowed, added, addedAll]
      all_goals omega

theorem filterMap_edge?_fragments (A : Alphabet α) (last : Nat) (tokens : List (Token α)) :
    (fragments A last tokens).filterMap edge? = edgesAll A last tokens := by
  induction tokens generalizing last with
  | nil => rfl
  | cons token tokens ih =>
      rw [fragments, List.filterMap_append, filterMap_edge?_fragment, ih, edgesAll]

theorem allowedAll_fragments {last : Nat} {tokens : List (Token α)}
    (h : ∀ token ∈ tokens, token.Registered A) :
    AllowedAll (last + 1) (fragments A last tokens) := by
  induction tokens generalizing last with
  | nil => exact ⟨Nat.lt_succ_self last, trivial⟩
  | cons token tokens ih =>
      rw [List.forall_mem_cons] at h
      rw [fragments, allowedAll_append_iff, addedAll_fragment, Nat.add_right_comm]
      exact ⟨allowedAll_fragment h.1, ih h.2⟩

/-- The fragments add the states up to their end. -/
theorem add_addedAll_fragments (A : Alphabet α) (last : Nat) (tokens : List (Token α)) :
    last + addedAll (fragments A last tokens) = lastState last tokens := by
  induction tokens generalizing last with
  | nil => rfl
  | cons token tokens ih =>
      rw [fragments, addedAll_append, addedAll_fragment, ← Nat.add_assoc, ih, lastState]

/-- The one accepting step is that of the end. -/
theorem accepting_mem_fragments_iff {last s : Nat} {tokens : List (Token α)} :
    .accepting s ∈ fragments A last tokens ↔ s = lastState last tokens := by
  induction tokens generalizing last with
  | nil => simp [fragments, lastState]
  | cons token tokens ih =>
      have hfragment : .accepting s ∉ token.fragment A last := by
        cases token <;> simp [fragment, anyValueEdges]
      rw [fragments, List.mem_append, ih, lastState]
      exact ⟨fun h => h.resolve_left hfragment, .inr⟩

theorem start_not_mem_fragments {last s : Nat} {tokens : List (Token α)} :
    .start s ∉ fragments A last tokens := by
  induction tokens generalizing last with
  | nil => simp [fragments]
  | cons token tokens ih =>
      have hfragment : .start s ∉ token.fragment A last := by
        cases token <;> simp [fragment, anyValueEdges]
      rw [fragments, List.mem_append]
      exact fun h => h.elim hfragment ih

/-- Labels are `Code.epsilon` or codes with a column. -/
theorem label_of_mem_edgesAll {last : Nat} {tokens : List (Token α)} {e : Edge}
    (h : e ∈ edgesAll A last tokens) : e.label = Code.epsilon ∨ e.label ∈ Nfa.columns A := by
  induction tokens generalizing last with
  | nil => cases h
  | cons token tokens ih =>
      rcases List.mem_append.1 h with h | h
      · cases token with
        | literal v =>
            rw [List.mem_singleton.1 h]
            exact .inr (Nfa.codeOf_mem_columns A v)
        | any =>
            obtain ⟨label, hlabel, rfl⟩ := List.mem_map.1 h
            exact .inr hlabel
        | anySequence =>
            simp only [edges, List.mem_append, List.mem_cons, List.mem_map, List.not_mem_nil,
              or_false] at h
            rcases h with ((rfl | rfl) | ⟨label, hlabel, rfl⟩) | (rfl | rfl)
            · exact .inl rfl
            · exact .inl rfl
            · exact .inr hlabel
            · exact .inl rfl
            · exact .inl rfl
      · exact ih h

end Token

namespace Signature
variable {α : Type} [DecidableEq α] {A : Alphabet α}

/-- The alphabet of the construction has the literals. -/
theorem registered_seed (s : Signature α) (A : Alphabet α) :
    ∀ token ∈ s.tokens, token.Registered (s.seed A) :=
  fun token htoken _ hv =>
    Alphabet.mem_symbols_registerAll.2 (.inr (List.mem_filterMap.2 ⟨token, htoken, hv⟩))

/-- The steps of the construction lead to the automaton. -/
theorem applyAll_of_automaton {s : Signature α} {B : Alphabet α} {N : Nfa}
    (h : s.automaton A = .ok (B, N)) :
    Nfa.initial.applyAll .unbounded (s.construction (s.seed A)) = .ok N := by
  rw [automaton] at h
  cases hsteps : Nfa.initial.applyAll .unbounded (s.construction (s.seed A)) with
  | error e =>
      rw [hsteps] at h
      cases h
  | ok M =>
      rw [hsteps] at h
      cases h
      rfl

/-- **The automaton of a signature is one of those that steps build**, so what holds of all of these
holds of it. -/
theorem eq_build_of_automaton {s : Signature α} {B : Alphabet α} {N : Nfa}
    (h : s.automaton A = .ok (B, N)) : N = Nfa.build (s.construction (s.seed A)) :=
  (Nfa.foldl_attempt_of_applyAll (applyAll_of_automaton h)).symm

/-- **`N` has the shape of a signature** whose literals an alphabet has. -/
structure IsShapeOf (s : Signature α) (A : Alphabet α) (N : Nfa) : Prop where
  registered : ∀ token ∈ s.tokens, token.Registered A
  wellFormed : N.WellFormed
  numStates_eq : N.numStates = Token.lastState 0 s.tokens + 1
  start_eq : N.start = 0
  mem_accepting_iff : ∀ t, t ∈ N.accepting ↔ t = Token.lastState 0 s.tokens
  mem_edges_iff : ∀ e, e ∈ N.edges ↔ e ∈ Token.edgesAll A 0 s.tokens

/-- **Every signature has an automaton**, whatever the alphabet, and it has its shape. -/
theorem exists_automaton (s : Signature α) (A : Alphabet α) :
    ∃ N, s.automaton A = .ok (s.seed A, N) ∧ s.IsShapeOf (s.seed A) N := by
  have hallowed : AllowedAll Nfa.initial.numStates (s.construction (s.seed A)) :=
    allowedAll_append_iff.2 ⟨Token.allowedAll_fragments (s.registered_seed A), trivial, trivial⟩
  obtain ⟨N, hN⟩ := Nfa.exists_applyAll hallowed
  refine ⟨N, by rw [automaton, hN]; rfl, s.registered_seed A,
    Nfa.wellFormed_initial.applyAll hN, ?_, ?_, fun t => ?_, fun e => ?_⟩
  · rw [Nfa.numStates_applyAll hN, construction, addedAll_append, ← Nat.add_assoc,
      Nat.add_comm Nfa.initial.numStates, ← Token.add_addedAll_fragments (s.seed A)]
    simp [Nfa.initial, addedAll, added]
  · refine Nfa.start_applyAll hN fun t ht => ?_
    rcases List.mem_append.1 ht with ht | ht
    · exact Token.start_not_mem_fragments ht
    · cases List.mem_singleton.1 ht
  · rw [Nfa.mem_accepting_applyAll_iff hN, construction, List.mem_append,
      Token.accepting_mem_fragments_iff]
    simp [Nfa.initial]
  · rw [Nfa.mem_edges_applyAll_iff hN, construction, List.filterMap_append,
      Token.filterMap_edge?_fragments]
    simp [edge?]

end Signature
end SignatureAutomata
