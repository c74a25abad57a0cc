import SignatureAutomata.Compilation
import SignatureAutomata.Proofs.Alphabet.Registration
import SignatureAutomata.Proofs.Exploration.Reports

/-! # The log of a compilation

A literal is in the log only if it is new when it is registered: once, where it comes first, and
with the code that it keeps (`Alphabet.registrations_eq`).  Determinization has a record for each
state except the start, in the order of numbers, though it meets most sets more than once
(`Nfa.discoveries_eq`).  Together with a summary of every stage they are the whole log
(`Signature.records_compile`).
-/

namespace SignatureAutomata

namespace Alphabet
variable {α : Type} [DecidableEq α] {A : Alphabet α}

/-! ### Records of registration -/

/-- **Registering symbols records the new ones**, with the codes that they keep. -/
theorem registrations_eq (A : Alphabet α) (xs : List α) :
    A.registrations xs =
      (A.fresh xs).map fun x => .registered x ((A.registerAll xs).codeOf x) := by
  induction xs generalizing A with
  | nil => rfl
  | cons x xs ih =>
      show _ = (A.fresh (x :: xs)).map fun y =>
        Record.registered y (((A.register x).registerAll xs).codeOf y)
      rw [registrations, ih]
      by_cases hx : x ∈ A.symbols
      · rw [if_pos hx, register_of_mem hx, fresh_cons_of_mem hx]
      · have hkeep : ((A.register x).registerAll xs).codeOf x = (A.register x).codeOf x :=
          codeOf_registerAll (mem_symbols_register.2 (.inr rfl)) xs
        rw [if_neg hx, fresh_cons_of_not_mem hx, List.map_cons, hkeep]

/-- What is registered already is not recorded again. -/
theorem registrations_of_forall_mem {xs : List α} (h : ∀ x ∈ xs, x ∈ A.symbols) :
    A.registrations xs = [] := by
  have hfresh : xs.filter (· ∉ A.symbols) = [] := by
    simpa [List.filter_eq_nil_iff] using h
  rw [registrations_eq, fresh, hfresh]
  rfl

end Alphabet

/-! ### Records of determinization -/

/-- **The states other than the start**, in the order of their numbers: each with its number, its
set, and whether it accepts. -/
def Dfa.discoveries (D : Dfa) : List Discovery :=
  (D.subsets.mapIdx fun state S => ⟨state, S, decide (state ∈ D.accepting)⟩).tail

/-- Their numbers are `1, 2, …`. -/
theorem Dfa.map_state_discoveries (D : Dfa) :
    D.discoveries.map (·.state) = List.range' 1 (D.numStates - 1) := by
  refine List.ext_getElem (by simp [discoveries, numStates]) fun i hi _ => ?_
  simp [discoveries, Nat.add_comm]

/-- **Determinization records every state except the start once**, in the order of numbers. -/
theorem Nfa.discoveries_eq {α : Type} (N : Nfa) (A : Alphabet α) :
    N.discoveries A = (N.determinize A).discoveries := by
  have hreports := reports_survey (N.successors (columns A)) N.discovery
    (Nat.pow 2 N.numStates) [N.startClosure]
  -- a set is final when it is found exactly if its state is accepting in the end
  have hfinal : (N.determinize A).subsets.mapIdx N.discovery =
      (N.determinize A).subsets.mapIdx fun state S =>
        ⟨state, S, decide (state ∈ (N.determinize A).accepting)⟩ := by
    rw [List.mapIdx_eq_mapIdx_iff]
    intro state hstate
    have hsubset : (N.determinize A).subset state = some (N.determinize A).subsets[state] :=
      List.getElem?_eq_getElem hstate
    rw [discovery, Discovery.mk.injEq]
    refine ⟨rfl, rfl, ?_⟩
    rw [Bool.eq_iff_iff, decide_eq_true_iff, StateSet.intersects_iff,
      mem_accepting_determinize_iff hsubset]
  rw [Dfa.discoveries, ← hfinal, ← List.drop_one]
  exact hreports

namespace Signature
variable {α : Type} [DecidableEq α]

/-! ### The whole log -/

/-- **What is in the log of a compilation**, record after record and line after line. -/
structure IsLogged (s : Signature α) (A : Alphabet α) (c : Compilation α) : Prop where
  records_eq : c.records =
    ((A.fresh s.literals).map fun x => .registered x (c.alphabet.codeOf x))
      ++ [.compiled s.tokens.length c.nfa.numStates]
      ++ c.dfa.discoveries.map .discovered
      ++ [.determinized c.nfa.numStates c.dfa.numStates c.dfa.columns.length,
          .emitted c.matcher.table.length (c.matcher.symbols.length + 1)
            c.matcher.accepting.length]
  codes_eq : (A.fresh s.literals).map c.alphabet.codeOf =
    List.range' (Code.firstSymbol + A.size) (A.fresh s.literals).length
  /-- A literal that is registered once more when its edge is laid is not recorded once more. -/
  registrations_again : c.alphabet.registrations s.literals = []
  states_eq : c.dfa.discoveries.map (·.state) = List.range' 1 (c.dfa.numStates - 1)
  lines_eq : ∀ quote : α → String, (c.records.map fun r => (r.level, r.text quote)) =
    let states := c.nfa.numStates
    let found := c.dfa.numStates
    let columns := c.dfa.columns.length
    let rows := c.matcher.table.length
    let width := c.matcher.symbols.length + 1
    let accepting := c.matcher.accepting.length
    ((A.fresh s.literals).map fun x =>
        (.trace, "registered symbol " ++ quote x ++ s!" as code {c.alphabet.codeOf x}"))
      ++ [(.debug, s!"compiled signature of {s.tokens.length} tokens into {states} nfa states")]
      ++ (c.dfa.discoveries.map fun d => (.trace,
          s!"dfa state {d.state} = nfa " ++ d.subset.text ++ if d.final then " (final)" else ""))
      ++ [(.debug,
            s!"determinized {states} nfa states into {found} dfa states over {columns} columns"),
          (.debug, s!"emitted {rows}x{width} transition table with {accepting} accepting states")]

/-- **Every compilation succeeds, and its log is that of its stages**: the new literals, the
automaton, the states of the deterministic one behind the start, their number, and the table. -/
theorem records_compile (s : Signature α) (A : Alphabet α) :
    ∃ c, s.compile A = .ok c ∧ s.IsLogged A c := by
  obtain ⟨N, hN, -⟩ := s.exists_automaton A
  refine ⟨_, by rw [compile, hN], ?_⟩
  have hliterals : ∀ x ∈ s.literals, x ∈ (s.seed A).symbols :=
    fun x hx => Alphabet.mem_symbols_registerAll.2 (.inr hx)
  constructor
  · dsimp only
    rw [A.registrations_eq, N.discoveries_eq]
    rfl
  · exact A.map_codeOf_fresh _
  · exact Alphabet.registrations_of_forall_mem hliterals
  · exact Dfa.map_state_discoveries _
  · intro quote
    dsimp only
    rw [A.registrations_eq, N.discoveries_eq]
    simp only [List.map_append, List.map_map]
    rfl

/-- Of the literals `5`, `7` and `5` only the first one is new. -/
example : ((⟨[.literal 5, .literal 7, .literal 5]⟩ : Signature Nat).compile (.ofList [7])).map
      (fun c => c.records.take 3) =
    .ok [.registered 5 3, .compiled 3 4, .discovered ⟨1, ∅, false⟩] := by decide

end Signature
end SignatureAutomata
