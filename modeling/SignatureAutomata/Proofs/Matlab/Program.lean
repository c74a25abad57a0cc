import SignatureAutomata.Matlab.Source

/-! # MATLAB source read as a program

What a file of MATLAB does is told here without recourse to the matcher it was made from.
The file is cut into statements: lines without the space in front of them, blank lines and
comments being passed over.  From the statements a `Program` is read, or nothing if one of
them is not as expected:

* the rows between `table = [` and `];`, the flags in `logical([...])` and the number in
  `state = n;`, all of them decimal numerals;
* the name of the function that the loop calls, which has to be that of the second function;
* the number in `code = n;` and the branches of the chain of `if` and `elseif`.

Nothing is looked up by name but the called function, which is taken for the second one of the
file even if a variable has that name.

A program runs as MATLAB does: rows, columns and flags are counted from one (`entryAt?`), and
the first branch whose test holds gives the code of a value (`Program.classify`).

What is written as a numeral, as a list of numerals or as lines is read back as such
(`numeral?_digits`, `integer?_ofInt`, `numerals?_numbers`, `statements_lines`).
-/

namespace SignatureAutomata
namespace Matlab

/-! ### Programs -/

/-- **A program that folds its input through a table.** -/
structure Program (α : Type) where
  table : List (List Nat)
  flags : List Nat
  start : Nat
  /-- The tests of the classifier: a value, and the code of the values equal to it. -/
  branches : List (α × Nat)
  /-- The code of a value that fails all tests. -/
  otherwise : Nat

/-- The entry of a list at a place, the first place being `1`. -/
def entryAt? {β : Type} (l : List β) : (place : Nat) → Option β
  | 0 => none
  | i + 1 => l[i]?

namespace Program
variable {α : Type} [DecidableEq α]

/-- The code of a value: that of the first branch whose test holds. -/
def classify (p : Program α) (x : α) : Nat :=
  match p.branches.find? (fun branch => x = branch.1) with
  | some branch => branch.2
  | none => p.otherwise

/-- The entry `table(state, classify(x))`. -/
def next? (p : Program α) (state : Nat) (x : α) : Option Nat :=
  (entryAt? p.table state).bind fun row => entryAt? row (p.classify x)

/-- The state after the loop. -/
def loop? (p : Program α) (state : Nat) : List α → Option Nat
  | [] => some state
  | x :: input => (p.next? state x).bind fun t => p.loop? t input

/-- **The flag that the program ends with**, if every entry needed is there. -/
def run? (p : Program α) (input : List α) : Option Nat :=
  (p.loop? p.start input).bind (entryAt? p.flags)

end Program

/-! ### Numerals -/

/-- What stands between two texts. -/
def between? (front back s : List Char) : Option (List Char) :=
  let middle := (s.drop front.length).take (s.length - front.length - back.length)
  if front ++ middle ++ back = s then some middle else none

/-- A decimal numeral. -/
def numeral? (s : List Char) : Option Nat :=
  if s ≠ [] ∧ s.all Char.isDigit then some (Nat.ofDigitChars 10 s 0) else none

/-- A decimal numeral, which may have a minus sign. -/
def integer? (s : List Char) : Option Int :=
  if s.head? = some '-' then (numeral? s.tail).map Int.negOfNat else (numeral? s).map Int.ofNat

/-- Decimal numerals with spaces between them. -/
def numerals? (s : List Char) : Option (List Nat) :=
  ((s.splitOn ' ').filter (· ≠ [])).mapM numeral?

/-! ### Statements -/

/-- A line without the space in front. -/
def unindented (line : List Char) : List Char := line.dropWhile (· = ' ')

/-- Whether a line is neither blank nor a comment, no space being in front. -/
def isStatement (line : List Char) : Bool := line.head?.any (· ≠ '%')

/-- The statements on lines. -/
def statementsOn (lines : List (List Char)) : List (List Char) :=
  (lines.map unindented).filter isStatement

/-- **The statements of a file.** -/
def statements (text : List Char) : List (List Char) := statementsOn (text.splitOn '\n')

/-- The code that a statement gives. -/
def code? (statement : List Char) : Option Nat :=
  (between? "code = ".toList [';'] statement).bind numeral?

/-- The integer that a value is compared to. -/
def literal? (type : IntegerType) (keyword statement : List Char) : Option type.Value := do
  let digits ← between? (keyword ++ " isequal(value, ".toList ++ type.className.toList ++ ['('])
    "))".toList statement
  let n ← integer? digits
  type.ofInt? n

/-- The branches from an `elseif` on, then the end of the chain and that of the function. -/
def laterBranches? (type : IntegerType) : List (List Char) → Option (List (type.Value × Nat))
  | [] => none
  | [_] => none
  | test :: code :: rest =>
      if test = "end".toList then
        if code = "end".toList ∧ rest = [] then some [] else none
      else do
        let v ← literal? type "elseif".toList test
        let n ← code? code
        let later ← laterBranches? type rest
        return (v, n) :: later

/-- The branches of a function that may have none, and the end of the function. -/
def branches? (type : IntegerType) : List (List Char) → Option (List (type.Value × Nat))
  | [] => none
  | [last] => if last = "end".toList then some [] else none
  | test :: code :: rest => do
      let v ← literal? type "if".toList test
      let n ← code? code
      let later ← laterBranches? type rest
      return (v, n) :: later

/-- The program with a given table, from the statement that ends the table on. -/
def Program.withTable? (type : IntegerType) (table : List (List Nat)) :
    List (List Char) → Option (Program type.Value)
  | _ :: flags :: start :: loop :: step :: loopEnd :: verdict :: matcherEnd :: classifier
      :: otherwise :: chain => do
      let flags ← (between? "accepting = logical([".toList "]);".toList flags).bind numerals?
      let start ← (between? "state = ".toList [';'] start).bind numeral?
      let callee ← between? "state = table(state, ".toList "(input(k)));".toList step
      let otherwise ← code? otherwise
      let branches ← branches? type chain
      if loop = "for k = 1:numel(input)".toList ∧ loopEnd = "end".toList ∧
          verdict = "matched = accepting(state);".toList ∧ matcherEnd = "end".toList ∧
          classifier = "function code = ".toList ++ callee ++ "(value)".toList then
        some ⟨table, flags, start, branches, otherwise⟩
      else none
  | _ => none

/-- **The program that statements make.** -/
def Program.ofStatements? (type : IntegerType) :
    List (List Char) → Option (Program type.Value)
  | header :: opening :: body =>
      if opening = "table = [".toList then do
        let _ ← between? "function matched = ".toList "(input)".toList header
        let table ← (body.takeWhile (· ≠ "];".toList)).mapM numerals?
        withTable? type table (body.dropWhile (· ≠ "];".toList))
      else none
  | _ => none

/-- **The program in a file.** -/
def Program.read? (type : IntegerType) (text : List Char) : Option (Program type.Value) :=
  Program.ofStatements? type (statements text)

/-! ### Reading back -/

@[simp] theorem between?_append (front s back : List Char) :
    between? front back (front ++ s ++ back) = some s := by
  have hlength : (front ++ s ++ back).length - front.length - back.length = s.length := by
    simp only [List.length_append]
    omega
  unfold between?
  rw [hlength, List.append_assoc, List.drop_left, List.take_left]
  exact if_pos (List.append_assoc ..)

@[simp] theorem numeral?_digits (n : Nat) : numeral? (Decimal.digits n) = some n := by
  have hdigits : (Decimal.digits n).all Char.isDigit = true :=
    List.all_eq_true.2 fun c hc => Decimal.isDigit_of_mem_digits hc
  rw [numeral?, if_pos ⟨Decimal.digits_ne_nil n, hdigits⟩, Decimal.ofDigitChars_digits]

theorem ne_of_mem_digits {n : Nat} {c d : Char} (hc : c ∈ Decimal.digits n)
    (hd : d.isDigit = false) : c ≠ d := by
  rintro rfl
  rw [Decimal.isDigit_of_mem_digits hc] at hd
  cases hd

@[simp] theorem integer?_ofInt (n : Int) : integer? (Decimal.ofInt n) = some n := by
  unfold Decimal.ofInt integer?
  by_cases hn : n < 0
  · rw [if_pos hn, List.head?_cons, if_pos rfl, List.tail_cons, numeral?_digits, Option.map_some,
      Int.negOfNat_eq, Int.ofNat_eq_natCast, Int.ofNat_natAbs_of_nonpos (Int.le_of_lt hn),
      Int.neg_neg]
  · have hminus : (Decimal.digits n.natAbs).head? ≠ some '-' := fun h =>
      ne_of_mem_digits (List.mem_of_mem_head? h) rfl rfl
    rw [if_neg hn, if_neg hminus, numeral?_digits, Option.map_some]
    exact congrArg some (Int.natAbs_of_nonneg (Int.not_lt.1 hn))

/-- Items that read back one by one read back together. -/
theorem mapM_map_of_some {β γ : Type} {f : β → γ} {g : γ → Option β} {l : List β}
    (h : ∀ x ∈ l, g (f x) = some x) : (l.map f).mapM g = some l := by
  induction l with
  | nil => rfl
  | cons x l ih =>
      rw [List.map_cons, List.mapM_cons, h x (List.mem_cons_self ..),
        ih fun y hy => h y (List.mem_cons_of_mem _ hy)]
      rfl

@[simp] theorem numerals?_numbers (ns : List Nat) : numerals? (numbers ns) = some ns := by
  unfold numerals? numbers
  cases ns with
  | nil => rfl
  | cons n ns =>
      have hspace : ∀ l ∈ (n :: ns).map Decimal.digits, ' ' ∉ l := by
        intro l hl hmem
        obtain ⟨k, -, rfl⟩ := List.mem_map.1 hl
        exact ne_of_mem_digits hmem rfl rfl
      have hfilled : ∀ l ∈ (n :: ns).map Decimal.digits, decide (l ≠ []) = true := by
        intro l hl
        obtain ⟨k, -, rfl⟩ := List.mem_map.1 hl
        exact decide_eq_true (Decimal.digits_ne_nil k)
      rw [List.splitOn_intercalate ' ' hspace (by simp),
        List.filter_eq_self.2 hfilled]
      exact mapM_map_of_some fun k _ => numeral?_digits k

/-- Space in front of a line is of no account. -/
theorem unindented_append {pad : List Char} (hpad : ∀ c ∈ pad, c = ' ') (line : List Char) :
    unindented (pad ++ line) = unindented line :=
  List.dropWhile_append_of_pos fun c hc => decide_eq_true (hpad c hc)

theorem statementsOn_append (lines lines' : List (List Char)) :
    statementsOn (lines ++ lines') = statementsOn lines ++ statementsOn lines' := by
  unfold statementsOn
  rw [List.map_append, List.filter_append]

/-- A line whose first character is neither a space nor a percent sign is a statement. -/
theorem statementsOn_cons {pad line : List Char} (hpad : ∀ c ∈ pad, c = ' ') {c : Char}
    (hc : line.head? = some c) (hspace : c ≠ ' ') (hcomment : c ≠ '%')
    (lines : List (List Char)) :
    statementsOn ((pad ++ line) :: lines) = line :: statementsOn lines := by
  obtain ⟨cs, rfl⟩ := List.head?_eq_some_iff.1 hc
  have hline : unindented (c :: cs) = c :: cs := List.dropWhile_cons_of_neg (by simpa using hspace)
  have hstatement : isStatement (c :: cs) = true := by simpa [isStatement] using hcomment
  unfold statementsOn
  rw [List.map_cons, unindented_append hpad, hline, List.filter_cons_of_pos hstatement]

/-- Lines that each end with a line break stand between line breaks, with nothing on the
line after the last. -/
theorem flatMap_newline (lines : List (List Char)) :
    lines.flatMap (· ++ ['\n']) = List.intercalate ['\n'] (lines ++ [[]]) := by
  induction lines with
  | nil => rfl
  | cons line lines ih =>
      rw [List.flatMap_cons, ih, List.cons_append, List.intercalate_cons_of_ne_nil (by simp)]

/-- **The statements of a file** are those of its lines, one by one. -/
theorem statements_lines {lines : List (List Char)} (h : ∀ line ∈ lines, '\n' ∉ line) :
    statements (lines.flatMap (· ++ ['\n'])) = statementsOn lines := by
  have hlast : ∀ line ∈ lines ++ [[]], '\n' ∉ line := by
    intro line hline
    rcases List.mem_append.1 hline with hline | hline
    · exact h line hline
    · rw [List.mem_singleton.1 hline]
      exact List.not_mem_nil
  unfold statements
  rw [flatMap_newline, List.splitOn_intercalate '\n' hlast (by simp), statementsOn_append]
  exact List.append_nil _

example : statements "a = 1;\n\n  % note\n    b = 2;\n".toList =
    ["a = 1;".toList, "b = 2;".toList] := by decide

end Matlab
end SignatureAutomata
