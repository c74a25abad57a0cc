import SignatureAutomata.Dfa

/-! # Table matchers

A matcher is a deterministic automaton as plain data: the literal values, a table
with a row for every state, the start row and the accepting rows.  Column `0` of a
row holds the transition for values that equal no literal; the literal at index `i`
has column `i + 1`.

A matcher may come from outside, so its table need not make sense.  `fault?` looks
for the first thing wrong with it, and `WellFormed` says that nothing is:
`fault?_eq_none_iff` ties the two together.
-/

namespace SignatureAutomata

/-- **A table matcher.** -/
structure Matcher (α : Type) where
  /-- The literals; the one at index `i` owns column `i + 1`. -/
  symbols : List α
  /-- For each state, the next state by column. -/
  table : List (List Nat)
  start : Nat
  /-- The accepting states, ascending. -/
  accepting : List Nat
  deriving DecidableEq

/-- **What is wrong with a matcher.** -/
inductive MatcherFault where
  | startOutside (state numStates : Nat)
  | rowWidth (row width expected : Nat)
  | missingTarget (row target : Nat)
  | acceptingOrder
  | acceptingOutside (state : Nat)
  deriving DecidableEq

/-- The wording of a fault. -/
def MatcherFault.message : MatcherFault → String
  | .startOutside state numStates => s!"start state {state} outside a table of {numStates} states"
  | .rowWidth row width expected => s!"row {row} has {width} columns, expected {expected}"
  | .missingTarget row target => s!"row {row} targets missing state {target}"
  | .acceptingOrder => "accepting states are not strictly ascending"
  | .acceptingOutside state => s!"accepting state {state} outside the table"

namespace Matcher
variable {α : Type}

/-- The matcher of a deterministic automaton: a row for every state with where its
columns lead.  A symbol registered after the automaton was made has no column, and so
is no literal of the matcher. -/
def ofDfa (A : Alphabet α) (D : Dfa) : Matcher α where
  symbols := A.symbols.take D.numSymbols
  table := (List.range D.numStates).map fun s => D.columns.filterMap (D.transition s)
  start := D.start
  accepting := D.accepting.members

/-- The number of rows. -/
def numStates (m : Matcher α) : Nat := m.table.length

/-- The number of columns that a row has to have. -/
def numColumns (m : Matcher α) : Nat := m.symbols.length + 1

/-- Whether a run that ends in this state is a match. -/
def isAccepting (m : Matcher α) (state : Nat) : Bool := binarySearch (· < ·) state m.accepting

/-! ### Running -/

section Run
variable [DecidableEq α]

/-- The code of a value: that of the first literal equal to it, or else
`Code.sigma`. -/
def classify (m : Matcher α) (x : α) : Nat :=
  match m.symbols.idxOf? x with
  | some i => Code.firstSymbol + i
  | none => Code.sigma

/-- The state after one value, if the table has that entry. -/
def next? (m : Matcher α) (state : Nat) (x : α) : Option Nat := do
  let row ← m.table[state]?
  let column ← Code.column (m.classify x)
  row[column]?

/-- The state that an input leads to, if every entry needed is there. -/
def runFrom? (m : Matcher α) (state : Nat) : List α → Option Nat
  | [] => some state
  | x :: input => (m.next? state x).bind fun t => m.runFrom? t input

/-- **Whether an input matches**, if the table has every entry that the run needs. -/
def run? (m : Matcher α) (input : List α) : Option Bool :=
  (m.runFrom? m.start input).map m.isAccepting

end Run

/-! ### Validation -/

/-- **Nothing is wrong with the matcher.** -/
structure WellFormed (m : Matcher α) : Prop where
  start_lt : m.start < m.numStates
  row_length : ∀ row ∈ m.table, row.length = m.numColumns
  target_lt : ∀ row ∈ m.table, ∀ t ∈ row, t < m.numStates
  accepting_ascending : m.accepting.Pairwise (· < ·)
  accepting_lt : ∀ s ∈ m.accepting, s < m.numStates

/-- The first fault of the row with a given index: its width is looked at before
its targets. -/
def rowFault? (m : Matcher α) (index : Nat) (row : List Nat) : Option MatcherFault :=
  if row.length = m.numColumns then
    (row.find? (m.numStates ≤ ·)).map (.missingTarget index)
  else some (.rowWidth index row.length m.numColumns)

/-- The first fault of the rows from a given index on. -/
def rowsFault? (m : Matcher α) (index : Nat) : List (List Nat) → Option MatcherFault
  | [] => none
  | row :: rows =>
      match m.rowFault? index row with
      | some fault => some fault
      | none => m.rowsFault? (index + 1) rows

/-- The first fault of the accepting list: its order is looked at before its range. -/
def acceptingFault? (m : Matcher α) : Option MatcherFault :=
  if m.accepting.Pairwise (· < ·) then
    (m.accepting.find? (m.numStates ≤ ·)).map .acceptingOutside
  else some .acceptingOrder

/-- **The first fault of a matcher**: start, then rows, then accepting list. -/
def fault? (m : Matcher α) : Option MatcherFault :=
  if m.start < m.numStates then
    match m.rowsFault? 0 m.table with
    | some fault => some fault
    | none => m.acceptingFault?
  else some (.startOutside m.start m.numStates)

/-- Refuses a matcher with a fault. -/
def validate (m : Matcher α) : Except MatcherFault Unit :=
  match m.fault? with
  | some fault => .error fault
  | none => .ok ()

theorem rowFault?_eq_none_iff {m : Matcher α} (index : Nat) {row : List Nat} :
    m.rowFault? index row = none ↔
      row.length = m.numColumns ∧ ∀ t ∈ row, t < m.numStates := by
  unfold rowFault?
  split
  · rename_i h
    simp [h, List.find?_eq_none]
  · rename_i h
    simp [h]

theorem rowsFault?_eq_none_iff {m : Matcher α} (index : Nat) {rows : List (List Nat)} :
    m.rowsFault? index rows = none ↔
      ∀ row ∈ rows, row.length = m.numColumns ∧ ∀ t ∈ row, t < m.numStates := by
  induction rows generalizing index with
  | nil => simp [rowsFault?]
  | cons row rows ih =>
      rw [List.forall_mem_cons, ← rowFault?_eq_none_iff index, ← ih (index + 1), rowsFault?]
      cases m.rowFault? index row <;> simp

theorem acceptingFault?_eq_none_iff {m : Matcher α} :
    m.acceptingFault? = none ↔
      m.accepting.Pairwise (· < ·) ∧ ∀ s ∈ m.accepting, s < m.numStates := by
  unfold acceptingFault?
  split
  · rename_i h
    simp [h, List.find?_eq_none]
  · rename_i h
    simp [h]

/-- **A matcher has no fault exactly when it is well formed.** -/
theorem fault?_eq_none_iff {m : Matcher α} : m.fault? = none ↔ m.WellFormed := by
  constructor
  · intro h
    unfold fault? at h
    split at h
    · rename_i hs
      split at h
      · cases h
      · rename_i hr
        have hrows := (rowsFault?_eq_none_iff 0).1 hr
        have hacc := acceptingFault?_eq_none_iff.1 h
        exact ⟨hs, fun row hrow => (hrows row hrow).1, fun row hrow => (hrows row hrow).2,
          hacc.1, hacc.2⟩
    · cases h
  · rintro ⟨hs, hl, ht, ha, hlt⟩
    have hr : m.rowsFault? 0 m.table = none :=
      (rowsFault?_eq_none_iff 0).2 fun row hrow => ⟨hl row hrow, ht row hrow⟩
    simp [fault?, hs, hr, acceptingFault?_eq_none_iff.2 ⟨ha, hlt⟩]

theorem validate_eq_ok_iff {m : Matcher α} : m.validate = .ok () ↔ m.WellFormed := by
  rw [← fault?_eq_none_iff, validate]
  cases m.fault? <;> simp

end Matcher
end SignatureAutomata
