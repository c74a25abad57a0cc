import SignatureAutomata.Proofs.Dfa.Emptiness
import SignatureAutomata.Proofs.Dfa.Numbering
import SignatureAutomata.Proofs.Exploration.Queue
import SignatureAutomata.Proofs.Nfa.Emptiness

/-! # Automata are explored with queues

A worklist of sets determinizes an automaton: once its queue is empty it has the sets of the
deterministic automaton in the order of their numbers, has laid its transitions, and has reported
its states other than the start state (`Nfa.WellFormed.iterate_turn_startClosure`).

Both searches for an accepting state may stop at the first one and keep a queue
(`Nfa.look_eq_isEmpty`, `SubsetAutomaton.look_eq_isEmpty`).
-/

namespace SignatureAutomata

namespace Dfa

/-- A row pairs off with distinct columns. -/
theorem filterMap_idxOf? {columns row : List Nat} (hnodup : columns.Nodup)
    (hlength : row.length = columns.length) (source : Nat) :
    (columns.filterMap fun code =>
        ((columns.idxOf? code).bind (row[·]?)).map fun target => (source, code, target)) =
      Worklist.transitionsOf columns source row := by
  induction columns generalizing row with
  | nil => rfl
  | cons c columns ih =>
      obtain ⟨t, row, rfl⟩ := List.exists_cons_of_length_eq_add_one hlength
      obtain ⟨hc, hnodup⟩ := List.nodup_cons.1 hnodup
      have hfirst : (((c :: columns).idxOf? c).bind ((t :: row)[·]?)).map
          (fun target => (source, c, target)) = some (source, c, t) := by
        simp [List.idxOf?_cons]
      have hlater : ∀ code ∈ columns, (((c :: columns).idxOf? code).bind ((t :: row)[·]?)).map
          (fun target => (source, code, target)) =
          ((columns.idxOf? code).bind (row[·]?)).map fun target => (source, code, target) := by
        intro code hcode
        have hne : c ≠ code := fun heq => hc (heq ▸ hcode)
        simp [List.idxOf?_cons, hne, Option.bind_map]
      simp only [List.filterMap_cons, hfirst]
      rw [List.filterMap_congr hlater, ih hnodup (Nat.succ.inj hlength)]
      rfl

/-- **The transitions of an automaton are its rows**, one after the other. -/
theorem transitions_eq_flatten {D : Dfa} (hnodup : D.columns.Nodup)
    (hrows : D.rows.length = D.numStates) (hrow : ∀ row ∈ D.rows, row.length = D.columns.length) :
    D.transitions = (D.rows.mapIdx (Worklist.transitionsOf D.columns)).flatten := by
  rw [transitions, List.flatMap_def]
  refine congrArg List.flatten (List.ext_getElem ?_ fun s hs hs' => ?_)
  · simp [hrows]
  · rw [List.length_mapIdx] at hs'
    have hget : D.rows[s]? = some D.rows[s] := List.getElem?_eq_getElem hs'
    rw [List.getElem_map, List.getElem_range, List.getElem_mapIdx,
      ← filterMap_idxOf? hnodup (hrow _ (List.getElem_mem hs'))]
    refine List.filterMap_congr fun code _ => ?_
    simp only [transition, hget, bind, Option.bind_some]

end Dfa

namespace Nfa
variable {α : Type} {N : Nfa} {turns : Nat}

/-- Once the survey has ended, every set has its row. -/
theorem WellFormed.length_rows_determinize (hN : N.WellFormed) (A : Alphabet α) :
    (N.determinize A).rows.length = (N.determinize A).numStates :=
  Nat.le_antisymm (invariant_surveySubsets N (columns A)).length_rows_le
    (Survey.pending_eq_nil_iff.1 (hN.pending_surveySubsets (columns A)))

theorem WellFormed.length_row_determinize (hN : N.WellFormed) {A : Alphabet α} {row : List Nat}
    (h : row ∈ (N.determinize A).rows) : row.length = (columns A).length := by
  obtain ⟨s, hs, rfl⟩ := List.mem_iff_getElem.1 h
  have hlt : s < (N.determinize A).numStates := hN.length_rows_determinize A ▸ hs
  obtain ⟨row, hrow, hnames⟩ := exists_row_survey (hN.atMost_reached (columns A))
    (List.getElem?_eq_getElem hlt)
  have hget : row = (N.determinize A).rows[s] :=
    Option.some.inj (hrow.symm.trans (List.getElem?_eq_getElem hs))
  have hlength := congrArg List.length hnames
  rw [List.length_map, List.length_map, successors, List.length_map] at hlength
  rw [← hget, hlength]

/-- **A worklist determinizes an automaton**: it ends, with the sets in the order of their numbers,
the transitions as they are listed, and a report on each state but the first. -/
theorem WellFormed.iterate_turn_startClosure (hN : N.WellFormed) (A : Alphabet α)
    (h : Nat.pow 2 N.numStates ≤ turns) :
    (Worklist.turn N.step N.discovery (columns A))^[turns] (.start N.startClosure) =
      ⟨[], (N.determinize A).subsets, N.discoveries A, (N.determinize A).transitions⟩ := by
  have hsurvey : Survey.expand (fun S => (columns A).map (N.step S)) N.discovery turns
      (.start [N.startClosure]) = N.surveySubsets (columns A) :=
    hN.survey_eq_surveySubsets (columns A) h
  have hmirrors :=
    (Worklist.mirrors_start (columns A) N.startClosure).iterate_turn N.step N.discovery turns
  rw [hsurvey] at hmirrors
  have htransitions : (N.determinize A).transitions = _ :=
    Dfa.transitions_eq_flatten (nodup_columns A) (hN.length_rows_determinize A)
      fun _ hrow => hN.length_row_determinize hrow
  rw [htransitions]
  exact hmirrors.eq_of_pending (hN.pending_surveySubsets (columns A))

/-- **The search for an accepting state may stop at the first one** and keep a queue. -/
theorem look_eq_isEmpty (N : Nfa) (h : 1 + N.transitions.length < turns) :
    Search.look N.ends (· ∈ N.accepting) turns (.start N.start) = some N.isEmpty := by
  rw [Search.look_eq_all_reachable (atMost_reached_ends N) h, isEmpty]
  simp only [decide_not]

end Nfa

/-- **The same for a subset automaton.** -/
theorem SubsetAutomaton.look_eq_isEmpty {α : Type} {N : Nfa} {A : Alphabet α} {D : Dfa}
    {turns : Nat} (hD : SubsetAutomaton N (Nfa.columns A) D) (h : D.numStates < turns) :
    Search.look D.ends (· ∈ D.accepting) turns (.start D.start) = some D.isEmpty := by
  have hsearch : D.isEmpty = (reachable D.ends D.numStates [D.start]).all (· ∉ D.accepting) := rfl
  rw [Search.look_eq_all_reachable hD.atMost_reached_ends h, hsearch]
  simp only [decide_not]

end SignatureAutomata
