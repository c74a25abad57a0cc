import SignatureAutomata.Loading

/-! # A matcher without fault runs within its table

A matcher may come from a text that nobody vouches for: its literals may repeat and its
table may have any shape.  Once nothing is wrong with it, every lookup of a run finds an
entry.  A value's column lies in every row, whatever the literals are, because rows are
as wide as the literals ask (`exists_column`); the entry there is a state again
(`WellFormed.exists_next?`), so that a run goes from state to state to its end
(`WellFormed.exists_runFrom?`).

A text is refused for the matcher in it exactly if that matcher is not well formed
(`exists_load_eq_error_iff`), so that whatever is loaded runs.
-/

namespace SignatureAutomata
namespace Matcher

section Run
variable {α : Type} [DecidableEq α] {m : Matcher α} {s t : Nat} {x : α}

/-! ### One step -/

/-- **Every value has a column**, and rows of the right width reach as far. -/
theorem exists_column (m : Matcher α) (x : α) :
    ∃ column, Code.column (m.classify x) = some column ∧ column < m.numColumns := by
  unfold classify
  cases h : m.symbols.idxOf? x with
  | none => exact ⟨0, rfl, Nat.succ_pos _⟩
  | some i =>
      obtain ⟨hi, -⟩ := List.idxOf?_eq_some_iff.1 h
      refine ⟨i + 1, ?_, Nat.succ_lt_succ hi⟩
      show Code.column (2 + i) = some (i + 1)
      rw [Nat.add_comm]
      rfl

/-- A step is a lookup by row and column. -/
theorem next?_eq_some_iff :
    m.next? s x = some t ↔ ∃ row column, m.table[s]? = some row ∧
      Code.column (m.classify x) = some column ∧ row[column]? = some t := by
  simp only [next?, bind, Option.bind_eq_some_iff]
  constructor
  · rintro ⟨row, hrow, column, hcolumn, ht⟩
    exact ⟨row, column, hrow, hcolumn, ht⟩
  · rintro ⟨row, column, hrow, hcolumn, ht⟩
    exact ⟨row, hrow, column, hcolumn, ht⟩

/-- **From a state every value leads to a state.** -/
theorem WellFormed.exists_next? (hm : m.WellFormed) (hs : s < m.numStates) (x : α) :
    ∃ t, m.next? s x = some t ∧ t < m.numStates := by
  have hrow : m.table[s]? = some m.table[s] := List.getElem?_eq_getElem hs
  have hmem : m.table[s] ∈ m.table := List.getElem_mem hs
  obtain ⟨column, hcolumn, hlt⟩ := m.exists_column x
  have hwidth : column < m.table[s].length := by
    rw [hm.row_length _ hmem]
    exact hlt
  have hentry : m.table[s][column] ∈ m.table[s] := List.getElem_mem hwidth
  exact ⟨_, next?_eq_some_iff.2 ⟨_, column, hrow, hcolumn, List.getElem?_eq_getElem hwidth⟩,
    hm.target_lt _ hmem _ hentry⟩

/-! ### Runs -/

/-- **A run stays within the table.** -/
theorem WellFormed.exists_runFrom? (hm : m.WellFormed) (hs : s < m.numStates) (input : List α) :
    ∃ t, m.runFrom? s input = some t ∧ t < m.numStates := by
  induction input generalizing s with
  | nil => exact ⟨s, rfl, hs⟩
  | cons x input ih =>
      obtain ⟨t, ht, hlt⟩ := hm.exists_next? hs x
      rw [runFrom?, ht]
      exact ih hlt

/-- One value more is one step more. -/
theorem runFrom?_concat (m : Matcher α) (s : Nat) (input : List α) (x : α) :
    m.runFrom? s (input ++ [x]) = (m.runFrom? s input).bind fun t => m.next? t x := by
  induction input generalizing s with
  | nil =>
      rw [List.nil_append, runFrom?, runFrom?, Option.bind_some]
      cases m.next? s x <;> rfl
  | cons y input ih =>
      rw [List.cons_append, runFrom?, runFrom?, Option.bind_assoc]
      exact Option.bind_congr fun t _ => ih t

/-- **Each step of a run is a lookup within the table**, from a state to a state. -/
theorem WellFormed.exists_lookup (hm : m.WellFormed) (seen : List α) (x : α) :
    ∃ s row column t, m.runFrom? m.start seen = some s ∧ s < m.numStates ∧
      m.table[s]? = some row ∧ Code.column (m.classify x) = some column ∧
      row[column]? = some t ∧ t < m.numStates ∧
      m.runFrom? m.start (seen ++ [x]) = some t := by
  obtain ⟨s, hs, hslt⟩ := hm.exists_runFrom? hm.start_lt seen
  obtain ⟨t, ht, htlt⟩ := hm.exists_next? hslt x
  obtain ⟨row, column, hrow, hcolumn, hentry⟩ := next?_eq_some_iff.1 ht
  refine ⟨s, row, column, t, hs, hslt, hrow, hcolumn, hentry, htlt, ?_⟩
  rw [runFrom?_concat, hs]
  exact ht

omit [DecidableEq α] in
/-- The search for an accepting state relies on the order of the list. -/
theorem WellFormed.isAccepting_iff (hm : m.WellFormed) :
    m.isAccepting s = true ↔ s ∈ m.accepting :=
  binarySearch_iff hm.accepting_ascending

end Run

/-! ### Loading -/

theorem not_wellFormed_iff {α : Type} {m : Matcher α} :
    ¬ m.WellFormed ↔ m.numStates ≤ m.start ∨
      (∃ row ∈ m.table, row.length ≠ m.symbols.length + 1) ∨
      (∃ row ∈ m.table, ∃ t ∈ row, m.numStates ≤ t) ∨
      ¬ m.accepting.Pairwise (· < ·) ∨ ∃ s ∈ m.accepting, m.numStates ≤ s := by
  have hiff : m.WellFormed ↔ m.start < m.numStates ∧
      (∀ row ∈ m.table, row.length = m.symbols.length + 1) ∧
      (∀ row ∈ m.table, ∀ t ∈ row, t < m.numStates) ∧
      m.accepting.Pairwise (· < ·) ∧ ∀ s ∈ m.accepting, s < m.numStates :=
    ⟨fun ⟨h₁, h₂, h₃, h₄, h₅⟩ => ⟨h₁, h₂, h₃, h₄, h₅⟩,
      fun ⟨h₁, h₂, h₃, h₄, h₅⟩ => ⟨h₁, h₂, h₃, h₄, h₅⟩⟩
  rw [hiff]
  simp only [Classical.not_and_iff_not_or_not, Classical.not_forall, Nat.not_lt, exists_prop,
    ne_eq]

variable {τ : SymbolType} {text : String} {m : Matcher τ.Symbol}

/-- A text that cannot be read is refused as JSON. -/
theorem load_of_error {e : Json.Failure} (h : Json.document (read τ) text = .error e) :
    load τ text = .error (.json e) := by
  unfold load
  rw [h]
  rfl

/-- A matcher that can be read is refused for its first fault. -/
theorem load_of_ok (h : Json.document (read τ) text = .ok m) :
    load τ text =
      match m.fault? with
      | some fault => .error (.matcher fault)
      | none => .ok m := by
  unfold load
  rw [h]
  show (m.validate.mapError Error.matcher).bind (fun _ => .ok m) = _
  unfold validate
  cases m.fault? <;> rfl

/-- **A matcher is loaded if it can be read and is well formed.** -/
theorem load_eq_ok_iff :
    load τ text = .ok m ↔ Json.document (read τ) text = .ok m ∧ m.WellFormed := by
  rw [← fault?_eq_none_iff]
  cases hread : Json.document (read τ) text with
  | error e =>
      rw [load_of_error hread]
      simp
  | ok m' =>
      rw [load_of_ok hread, Except.ok.injEq]
      cases hfault : m'.fault? with
      | none =>
          rw [Except.ok.injEq]
          exact ⟨fun h => ⟨h, h ▸ hfault⟩, fun h => h.1⟩
      | some fault =>
          refine ⟨fun h => (by cases h), fun ⟨h, hnone⟩ => ?_⟩
          rw [← h, hfault] at hnone
          cases hnone

/-- **A matcher is refused if it can be read but is not well formed.** -/
theorem exists_load_eq_error_iff :
    (∃ fault, load τ text = .error (.matcher fault)) ↔
      ∃ m, Json.document (read τ) text = .ok m ∧ ¬ m.WellFormed := by
  cases hread : Json.document (read τ) text with
  | error e =>
      rw [load_of_error hread]
      simp
  | ok m =>
      rw [load_of_ok hread]
      simp only [Except.ok.injEq, exists_eq_left', ← fault?_eq_none_iff]
      cases hfault : m.fault? <;> simp

/-- **Whatever is loaded runs within its table**: each value of an input is looked up in
range, in the row of a state, and leads to a state; so every input has a verdict, and it
is whether the last state is listed as accepting.  A matcher that can be read is refused
exactly for a start outside the table, a row of another width, a target outside the table,
or an accepting list that is out of order or out of range. -/
theorem load_within_table (τ : SymbolType) (text : String) :
    (∀ m, load τ text = .ok m →
      (∀ seen x, ∃ s row column t, m.runFrom? m.start seen = some s ∧ s < m.numStates ∧
        m.table[s]? = some row ∧ Code.column (m.classify x) = some column ∧
        row[column]? = some t ∧ t < m.numStates ∧
        m.runFrom? m.start (seen ++ [x]) = some t) ∧
      (∀ input, ∃ s, m.runFrom? m.start input = some s ∧ s < m.numStates ∧
        m.run? input = some (m.isAccepting s)) ∧
      ∀ s, m.isAccepting s = true ↔ s ∈ m.accepting) ∧
    ((∃ fault, load τ text = .error (.matcher fault)) ↔
      ∃ m, Json.document (read τ) text = .ok m ∧
        (m.numStates ≤ m.start ∨
          (∃ row ∈ m.table, row.length ≠ m.symbols.length + 1) ∨
          (∃ row ∈ m.table, ∃ t ∈ row, m.numStates ≤ t) ∨
          ¬ m.accepting.Pairwise (· < ·) ∨ ∃ s ∈ m.accepting, m.numStates ≤ s)) := by
  constructor
  · intro m hload
    have hm : m.WellFormed := (load_eq_ok_iff.1 hload).2
    refine ⟨hm.exists_lookup, fun input => ?_, fun s => hm.isAccepting_iff⟩
    obtain ⟨s, hs, hlt⟩ := hm.exists_runFrom? hm.start_lt input
    refine ⟨s, hs, hlt, ?_⟩
    rw [run?, hs]
    rfl
  · simp only [← not_wellFormed_iff]
    exact exists_load_eq_error_iff

/-- A matcher with a literal given twice runs; with a row that counts the literal once, it
is refused. -/
theorem load_within_table_repeated :
    let five : (SymbolType.integer .int64).Symbol := ⟨5, by decide⟩
    let m : Matcher (SymbolType.integer .int64).Symbol :=
      ⟨[five, five], [[1, 0, 1], [1, 1, 1]], 0, [1]⟩
    (load (.integer .int64) "[[5,5],[[1,0,1],[1,1,1]],0,[1]]" = .ok m ∧
      ∃ s, m.runFrom? m.start [five, five] = some s ∧ s < m.numStates ∧
        m.run? [five, five] = some (m.isAccepting s)) ∧
      ∃ fault, load (.integer .int64) "[[5,5],[[1,0,1],[1,1]],0,[1]]" =
        .error (.matcher fault) := by
  intro five m
  have hload : load (.integer .int64) "[[5,5],[[1,0,1],[1,1,1]],0,[1]]" = .ok m := by rfl
  refine ⟨⟨hload, ((load_within_table _ _).1 m hload).2.1 [five, five]⟩,
    (load_within_table _ _).2.2 ⟨⟨[five, five], [[1, 0, 1], [1, 1]], 0, [1]⟩, by rfl, ?_⟩⟩
  exact .inr (.inl ⟨[1, 1], by decide, by decide⟩)

end Matcher
end SignatureAutomata
