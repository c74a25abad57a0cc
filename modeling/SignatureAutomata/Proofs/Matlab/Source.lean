import SignatureAutomata.Proofs.Matlab.Capacity
import SignatureAutomata.Proofs.Matlab.Program
import SignatureAutomata.Proofs.Matcher.Run

/-! # The source of a matcher decides as the matcher does

The file written for a matcher of integers reads as the program `programOf` of that matcher
(`read?_sourceText`): rows, start and columns are one higher than the matcher has them, every
state has a flag, and the branches of the classifier are the literals in order, from the
first symbol's code on.

To read it, the file is first taken apart into the lines it was made of, since neither a name
nor a numeral has a line break (`oneLine_matcherLines`, `oneLine_classifierLines`).  The
statements on the lines are then what was written, without the indentation; up to there the
symbols may be of any type (`statementsOn_matcherLines_eq`, `statementsOn_branches_eq`).

The program and the matcher go through the same states, the one a place ahead of the other
(`loop?_programOf`), and the flag of the last state says whether it is accepting
(`run?_programOf`).  A literal that occurs twice has two branches, of which the first is
taken; it is also the first whose code the matcher gives (`classify_programOf`).
-/

namespace SignatureAutomata
namespace Matlab

/-! ### The program of a matcher -/

section Run
variable {α : Type}

/-- **The program that a matcher is written as.** -/
def programOf (m : Matcher α) : Program α where
  table := m.table.map fun row => row.map (· + 1)
  flags := (List.range m.numStates).map fun s => (m.isAccepting s).toNat
  start := m.start + 1
  branches := m.symbols.zipIdx Code.firstSymbol
  otherwise := Code.sigma

variable [DecidableEq α] (m : Matcher α)

/-- The entry in the column of a code is at the place that the code gives. -/
theorem entryAt?_eq_bind_column {β : Type} (l : List β) (code : Nat) :
    entryAt? l code = (Code.column code).bind fun column => l[column]? := by
  cases code <;> rfl

/-- The first branch for a value is that of the first literal equal to it. -/
theorem find?_zipIdx (l : List α) (k : Nat) (x : α) :
    ((l.zipIdx k).find? fun branch => x = branch.1).map Prod.snd =
      (l.idxOf? x).map (k + ·) := by
  induction l generalizing k with
  | nil => rfl
  | cons y l ih =>
      rw [List.zipIdx_cons, List.find?_cons, List.idxOf?_cons]
      by_cases h : y = x
      · simp [h]
      · have h' : ¬ x = y := fun e => h e.symm
        simp only [h', decide_false, ih, beq_eq_false_iff_ne.2 h, Bool.false_eq_true, if_false,
          Option.map_map]
        exact congrArg (Option.map · _) (funext fun i => by simp only [Function.comp]; omega)

theorem classify_programOf (x : α) : (programOf m).classify x = m.classify x := by
  have h := find?_zipIdx m.symbols Code.firstSymbol x
  unfold Program.classify Matcher.classify programOf
  cases hfind : (m.symbols.zipIdx Code.firstSymbol).find? fun branch => x = branch.1 with
  | none =>
      rw [hfind, Option.map_none, eq_comm, Option.map_eq_none_iff] at h
      rw [h]
  | some branch =>
      rw [hfind, Option.map_some, eq_comm, Option.map_eq_some_iff] at h
      obtain ⟨i, hi, hcode⟩ := h
      rw [hi]
      exact hcode.symm

/-- **A step of the program is a step of the matcher**, a place ahead. -/
theorem next?_programOf (s : Nat) (x : α) :
    (programOf m).next? (s + 1) x = (m.next? s x).map (· + 1) := by
  have hrow : entryAt? (programOf m).table (s + 1) = m.table[s]?.map fun row => row.map (· + 1) :=
    List.getElem?_map
  simp only [Program.next?, Matcher.next?, hrow, classify_programOf, entryAt?_eq_bind_column,
    List.getElem?_map, bind, Option.bind_map, Option.map_bind, Function.comp_def]

theorem loop?_programOf (s : Nat) (input : List α) :
    (programOf m).loop? (s + 1) input = (m.runFrom? s input).map (· + 1) := by
  induction input generalizing s with
  | nil => rfl
  | cons x input ih =>
      rw [Program.loop?, Matcher.runFrom?, next?_programOf, Option.bind_map, Option.map_bind]
      exact Option.bind_congr fun t _ => ih t

/-- **The program ends with the flag of the state that the matcher ends in.** -/
theorem run?_programOf {m : Matcher α} (hm : m.WellFormed) (input : List α) :
    ∃ matched, m.run? input = some matched ∧ (programOf m).run? input = some matched.toNat := by
  obtain ⟨t, ht, hlt⟩ := hm.exists_runFrom? hm.start_lt input
  have hloop : (programOf m).loop? (programOf m).start input = some (t + 1) := by
    show (programOf m).loop? (m.start + 1) input = _
    rw [loop?_programOf, ht, Option.map_some]
  refine ⟨m.isAccepting t, by rw [Matcher.run?, ht, Option.map_some], ?_⟩
  rw [Program.run?, hloop, Option.bind_some]
  show ((List.range m.numStates).map fun s => (m.isAccepting s).toNat)[t]? = _
  rw [List.getElem?_map, List.getElem?_range hlt, Option.map_some]

end Run

/-! ### Lines -/

/-- A text without a line break. -/
def OneLine (s : List Char) : Prop := '\n' ∉ s

instance instDecidableOneLine (s : List Char) : Decidable (OneLine s) :=
  inferInstanceAs (Decidable ('\n' ∉ s))

section Lines
variable {s s' : List Char} {c : Char}

@[simp] theorem oneLine_append : OneLine (s ++ s') ↔ OneLine s ∧ OneLine s' := by
  rw [OneLine, List.mem_append, not_or]
  rfl

@[simp] theorem oneLine_cons : OneLine (c :: s) ↔ c ≠ '\n' ∧ OneLine s := by
  rw [OneLine, List.mem_cons, not_or, ne_comm]
  rfl

@[simp] theorem oneLine_digits (n : Nat) : OneLine (Decimal.digits n) :=
  fun h => ne_of_mem_digits h rfl rfl

@[simp] theorem oneLine_ofInt (n : Int) : OneLine (Decimal.ofInt n) := by
  unfold Decimal.ofInt
  split
  · exact oneLine_cons.2 ⟨by decide, oneLine_digits _⟩
  · exact oneLine_digits _

/-- The first number, then a space before every other. -/
theorem numbers_cons (n : Nat) (ns : List Nat) :
    numbers (n :: ns) = Decimal.digits n ++ ns.flatMap fun k => ' ' :: Decimal.digits k := by
  unfold numbers
  induction ns generalizing n with
  | nil => simp
  | cons k ns ih =>
      rw [List.map_cons, List.map_cons, List.intercalate_cons_cons, ← List.map_cons, ih,
        List.flatMap_cons, List.append_assoc]
      rfl

@[simp] theorem oneLine_numbers (ns : List Nat) : OneLine (numbers ns) := by
  cases ns with
  | nil => exact List.not_mem_nil
  | cons n ns =>
      rw [numbers_cons]
      refine oneLine_append.2 ⟨oneLine_digits n, fun h => ?_⟩
      obtain ⟨k, -, hk⟩ := List.mem_flatMap.1 h
      exact oneLine_cons.2 ⟨by decide, oneLine_digits k⟩ hk

@[simp] theorem oneLine_pad (o : Options) : OneLine o.pad :=
  fun h => absurd (List.eq_of_mem_replicate h) (by decide)

/-- A name is made of letters, digits and underscores. -/
theorem oneLine_name {name : String} (h : isIdentifier name = true) : OneLine name.toList := by
  unfold isIdentifier at h
  intro hmem
  split at h
  · rename_i hnil
    rw [hnil] at hmem
    cases hmem
  · rename_i c cs hcons
    rw [hcons, List.mem_cons] at hmem
    simp only [Bool.and_eq_true, List.all_eq_true] at h
    rcases hmem with rfl | hmem
    · exact absurd h.1.1 (by decide)
    · exact absurd (h.1.2 _ hmem) (by decide)

/-- No letter turns into a line break. -/
theorem oneLine_map_toUpper (h : OneLine s) : OneLine (s.map Char.toUpper) := by
  rw [OneLine, List.mem_map]
  rintro ⟨c, hc, hupper⟩
  unfold Char.toUpper at hupper
  split at hupper
  · rename_i hletter
    have hnat := congrArg (fun d : Char => d.val.toNat) hupper
    have hlower : 97 ≤ c.toNat := hletter.1
    have hle : c.toNat ≤ 122 := hletter.2
    simp at hnat
    omega
  · exact h (hupper ▸ hc)

@[simp] theorem oneLine_className (type : IntegerType) : OneLine type.className.toList := by
  cases type <;> decide

theorem oneLine_element (τ : SymbolType) (hs : OneLine s) (hs' : OneLine s') :
    OneLine (element τ s s') := by
  cases τ <;> simp +decide [element, hs, hs']

/-- The test of an integer. -/
theorem equalityTest_integer {type : IntegerType} (v : type.Value) (var : List Char) :
    equalityTest (.integer type) v var =
      "isequal(".toList ++ var ++ [',', ' '] ++ type.className.toList ++ '(' ::
        Decimal.ofInt v.val ++ [')', ')'] :=
  rfl

/-- **No branch has a line break.** -/
theorem oneLine_branches {type : IntegerType} {pad : List Char} (hpad : OneLine pad)
    (vs : List (SymbolType.integer type).Symbol) {keyword : List Char} (hkeyword : OneLine keyword)
    (code : Nat) : ∀ line ∈ branches (τ := .integer type) pad keyword code vs, OneLine line := by
  induction vs generalizing keyword code with
  | nil =>
      rw [branches]
      exact List.forall_mem_nil OneLine
  | cons v vs ih =>
      rw [branches, equalityTest_integer]
      refine List.forall_mem_append.2 ⟨?_, ih (by decide) (code + 1)⟩
      simp +decide [hpad, hkeyword]

/-- **No line of the function that matches has a line break**, whatever its literals are. -/
theorem oneLine_matcherLines {τ : SymbolType} {o : Options}
    (hname : OneLine o.functionName.toList) (hclassifier : OneLine o.classifierName.toList)
    (m : Matcher τ.Symbol) : ∀ line ∈ matcherLines m o, OneLine line := by
  unfold matcherLines
  refine List.forall_mem_append.2 ⟨List.forall_mem_append.2 ⟨?_, ?_⟩, ?_⟩
  · simp +decide [hname, oneLine_map_toUpper hname]
  · exact List.forall_mem_map.2 fun row _ => by simp
  · simp +decide [hclassifier, oneLine_element]

theorem oneLine_classifierLines {type : IntegerType} {o : Options}
    (hclassifier : OneLine o.classifierName.toList)
    (m : Matcher (SymbolType.integer type).Symbol) :
    ∀ line ∈ classifierLines m o, OneLine line := by
  unfold classifierLines
  refine List.forall_mem_append.2 ⟨List.forall_mem_append.2 ⟨List.forall_mem_append.2
    ⟨?_, oneLine_branches (oneLine_pad o) _ (by decide) _⟩, ?_⟩, ?_⟩
  · simp +decide [hclassifier]
  · split <;> simp +decide
  · simp +decide

end Lines

/-! ### Statements -/

section Statements
variable {type : IntegerType} {pad keyword : List Char}

theorem pad_eq_space (o : Options) : ∀ c ∈ o.pad, c = ' ' :=
  fun _ hc => List.eq_of_mem_replicate hc

/-- Numbers begin with a digit. -/
theorem exists_head?_numbers {ns : List Nat} (h : ns ≠ []) :
    ∃ c, (numbers ns).head? = some c ∧ ∀ d : Char, d.isDigit = false → c ≠ d := by
  obtain ⟨n, ns, rfl⟩ := List.exists_cons_of_ne_nil h
  obtain ⟨c, cs, hdigits, hc⟩ := Decimal.exists_digits_eq_cons n
  refine ⟨c, ?_, ?_⟩
  · rw [numbers_cons, hdigits]
    rfl
  · rintro d hd rfl
    rw [hc] at hd
    cases hd

/-- The rows are the statements before the end of the table. -/
theorem statementsOn_rows (hpad : ∀ c ∈ pad, c = ' ') {rows : List (List Nat)}
    (h : ∀ row ∈ rows, row ≠ []) :
    statementsOn (rows.map fun row => pad ++ numbers row) = rows.map numbers := by
  induction rows with
  | nil => rfl
  | cons row rows ih =>
      rw [List.forall_mem_cons] at h
      obtain ⟨c, hhead, hc⟩ := exists_head?_numbers h.1
      rw [List.map_cons, statementsOn_cons hpad hhead (hc ' ' rfl) (hc '%' rfl), ih h.2]
      rfl

theorem numbers_ne_closing {ns : List Nat} (h : ns ≠ []) : numbers ns ≠ "];".toList := by
  obtain ⟨c, hhead, hc⟩ := exists_head?_numbers h
  intro hclosing
  rw [hclosing] at hhead
  exact hc ']' rfl (Option.some.inj hhead).symm

/-- The statement that opens a branch. -/
def testStatement (type : IntegerType) (keyword : List Char) (v : type.Value) : List Char :=
  keyword ++ " isequal(value, ".toList ++ type.className.toList ++ ['('] ++ Decimal.ofInt v.val
    ++ "))".toList

/-- The statement that gives a code. -/
def codeStatement (code : Nat) : List Char := "code = ".toList ++ Decimal.digits code ++ [';']

theorem literal?_testStatement (v : type.Value) :
    literal? type keyword (testStatement type keyword v) = some v := by
  unfold literal? testStatement
  simp only [between?_append, integer?_ofInt, IntegerType.ofInt?_val, bind, Option.bind_some]

theorem code?_codeStatement (code : Nat) : code? (codeStatement code) = some code := by
  unfold code? codeStatement
  rw [between?_append, Option.bind_some, numeral?_digits]

/-- The statements of a branch, then those of the branches after it. -/
theorem statementsOn_branches_eq {τ : SymbolType} (hpad : ∀ c ∈ pad, c = ' ') {c : Char}
    (hkeyword : keyword.head? = some c) (hspace : c ≠ ' ') (hcomment : c ≠ '%')
    (code : Nat) (v : τ.Symbol) (vs : List τ.Symbol) :
    statementsOn (branches pad keyword code (v :: vs)) =
      (keyword ++ ' ' :: equalityTest τ v "value".toList) :: codeStatement code ::
        statementsOn (branches pad "elseif".toList (code + 1) vs) := by
  have hpads : ∀ c ∈ pad ++ pad, c = ' ' := List.forall_mem_append.2 ⟨hpad, hpad⟩
  have hcode : pad ++ pad ++ "code = ".toList ++ Decimal.digits code ++ [';'] =
      pad ++ pad ++ codeStatement code := by
    unfold codeStatement
    simp only [List.append_assoc]
  have hhead : (keyword ++ ' ' :: equalityTest τ v "value".toList).head? = some c := by
    obtain ⟨cs, rfl⟩ := List.head?_eq_some_iff.1 hkeyword
    rfl
  rw [branches, hcode, List.append_assoc pad keyword, List.cons_append, List.cons_append,
    List.nil_append, statementsOn_cons hpad hhead hspace hcomment,
    statementsOn_cons hpads rfl (by decide) (by decide)]

theorem statementsOn_branches_cons (hpad : ∀ c ∈ pad, c = ' ') {c : Char}
    (hkeyword : keyword.head? = some c) (hspace : c ≠ ' ') (hcomment : c ≠ '%')
    (code : Nat) (v : type.Value) (vs : List type.Value) :
    statementsOn (branches (τ := .integer type) pad keyword code (v :: vs)) =
      testStatement type keyword v :: codeStatement code ::
        statementsOn (branches (τ := .integer type) pad "elseif".toList (code + 1) vs) := by
  have htest : keyword ++ ' ' :: equalityTest (.integer type) v "value".toList =
      testStatement type keyword v := by
    rw [equalityTest_integer]
    unfold testStatement
    simp only [List.append_assoc]
    rfl
  rw [statementsOn_branches_eq hpad hkeyword hspace hcomment, htest]

theorem laterBranches?_branches (hpad : ∀ c ∈ pad, c = ' ') (code : Nat) (vs : List type.Value) :
    laterBranches? type
      (statementsOn (branches (τ := .integer type) pad "elseif".toList code vs) ++
        ["end".toList, "end".toList]) = some (vs.zipIdx code) := by
  induction vs generalizing code with
  | nil => rfl
  | cons v vs ih =>
      have hne : testStatement type "elseif".toList v ≠ "end".toList := fun h => by
        have hletter : some 'l' = some 'n' := congrArg (·[1]?) h
        cases hletter
      rw [statementsOn_branches_cons hpad rfl (by decide) (by decide), List.cons_append,
        List.cons_append, laterBranches?, if_neg hne, literal?_testStatement,
        code?_codeStatement, ih]
      rfl

/-- **The branches are the literals in order.** -/
theorem branches?_classifier (hpad : ∀ c ∈ pad, c = ' ') (vs : List type.Value) :
    branches? type
      (statementsOn (branches (τ := .integer type) pad "if".toList Code.firstSymbol vs) ++
        ((if vs.isEmpty then [] else ["end".toList]) ++ ["end".toList])) =
      some (vs.zipIdx Code.firstSymbol) := by
  cases vs with
  | nil => rfl
  | cons v vs =>
      have h := laterBranches?_branches hpad (Code.firstSymbol + 1) vs
      rw [statementsOn_branches_cons hpad rfl (by decide) (by decide), List.cons_append,
        List.cons_append, branches?, literal?_testStatement, code?_codeStatement]
      simp only [List.isEmpty_cons, Bool.false_eq_true, if_false, List.singleton_append, h, bind,
        Option.bind_some]
      rfl

/-- The statements of the function that matches, those of the rows told apart. -/
theorem statementsOn_matcherLines_eq {τ : SymbolType} (m : Matcher τ.Symbol) (o : Options) :
    statementsOn (matcherLines m o) =
      ["function matched = ".toList ++ o.functionName.toList ++ "(input)".toList,
        "table = [".toList]
      ++ statementsOn (m.table.map fun row => o.pad ++ o.pad ++ numbers (row.map (· + 1)))
      ++ ["];".toList,
        "accepting = logical([".toList ++
          numbers ((List.range m.numStates).map fun s => (m.isAccepting s).toNat) ++ "]);".toList,
        "state = ".toList ++ Decimal.digits (m.start + 1) ++ [';'],
        "for k = 1:numel(input)".toList,
        "state = table(state, ".toList ++ o.classifierName.toList ++ '(' ::
          element τ "input".toList ['k'] ++ "));".toList,
        "end".toList,
        "matched = accepting(state);".toList,
        "end".toList] := by
  have hpad := pad_eq_space o
  unfold matcherLines
  rw [statementsOn_append, statementsOn_append]
  simp only [statementsOn, List.map_cons, List.map_nil, List.append_assoc, unindented_append hpad]
  rfl

/-- The statements of the function that turns a value into its code, those of the tests told
apart. -/
theorem statementsOn_classifierLines_eq {τ : SymbolType} (m : Matcher τ.Symbol) (o : Options) :
    statementsOn (classifierLines m o) =
      ["function code = ".toList ++ o.classifierName.toList ++ "(value)".toList,
        codeStatement Code.sigma]
      ++ statementsOn (branches o.pad "if".toList Code.firstSymbol m.symbols)
      ++ (if m.symbols.isEmpty then [] else ["end".toList])
      ++ ["end".toList] := by
  have hpad := pad_eq_space o
  have hend : statementsOn (if m.symbols.isEmpty then [] else [o.pad ++ "end".toList]) =
      if m.symbols.isEmpty then [] else ["end".toList] := by
    split
    · rfl
    · exact statementsOn_cons hpad rfl (by decide) (by decide) []
  unfold classifierLines
  rw [statementsOn_append, statementsOn_append, statementsOn_append, hend]
  simp only [statementsOn, List.map_cons, List.map_nil, List.append_assoc, unindented_append hpad]
  rfl

theorem statementsOn_matcherLines {m : Matcher (SymbolType.integer type).Symbol} {o : Options}
    (hrows : ∀ row ∈ (programOf m).table, row ≠ []) :
    statementsOn (matcherLines m o) =
      ("function matched = ".toList ++ o.functionName.toList ++ "(input)".toList) ::
        "table = [".toList ::
        ((programOf m).table.map numbers ++
          ["];".toList,
            "accepting = logical([".toList ++ numbers (programOf m).flags ++ "]);".toList,
            "state = ".toList ++ Decimal.digits (m.start + 1) ++ [';'],
            "for k = 1:numel(input)".toList,
            "state = table(state, ".toList ++ o.classifierName.toList ++ "(input(k)));".toList,
            "end".toList,
            "matched = accepting(state);".toList,
            "end".toList]) := by
  have hpad := pad_eq_space o
  have hpads : ∀ c ∈ o.pad ++ o.pad, c = ' ' := List.forall_mem_append.2 ⟨hpad, hpad⟩
  have htable : statementsOn (m.table.map fun row => o.pad ++ o.pad ++ numbers (row.map (· + 1))) =
      (programOf m).table.map numbers := by
    rw [← statementsOn_rows hpads hrows, programOf, List.map_map]
    rfl
  rw [statementsOn_matcherLines_eq, htable]
  simp only [List.append_assoc]
  rfl

theorem statementsOn_classifierLines (m : Matcher (SymbolType.integer type).Symbol)
    (o : Options) :
    statementsOn ([] :: classifierLines m o) =
      ("function code = ".toList ++ o.classifierName.toList ++ "(value)".toList) ::
        codeStatement Code.sigma ::
        (statementsOn (branches (τ := .integer type) o.pad "if".toList Code.firstSymbol m.symbols)
          ++ ((if m.symbols.isEmpty then [] else ["end".toList]) ++ ["end".toList])) := by
  have hblank : statementsOn ([] :: classifierLines m o) = statementsOn (classifierLines m o) := rfl
  rw [hblank, statementsOn_classifierLines_eq]
  simp only [List.append_assoc]
  rfl

/-- The rows reach up to the statement that ends the table. -/
theorem ofStatements?_rows (name : List Char) {rows : List (List Nat)}
    (hrows : ∀ row ∈ rows, row ≠ []) (rest : List (List Char)) :
    Program.ofStatements? type (("function matched = ".toList ++ name ++ "(input)".toList) ::
      "table = [".toList :: (rows.map numbers ++ "];".toList :: rest)) =
      Program.withTable? type rows ("];".toList :: rest) := by
  have hclosing : ∀ line ∈ rows.map numbers, decide (line ≠ "];".toList) = true :=
    List.forall_mem_map.2 fun row hrow => decide_eq_true (numbers_ne_closing (hrows row hrow))
  have htable : (rows.map numbers).mapM numerals? = some rows :=
    mapM_map_of_some fun row _ => numerals?_numbers row
  rw [Program.ofStatements?, if_pos rfl, between?_append, List.takeWhile_append_of_pos hclosing,
    List.dropWhile_append_of_pos hclosing, List.takeWhile_cons_of_neg (by decide),
    List.dropWhile_cons_of_neg (by decide), List.append_nil, htable]
  rfl

/-- What follows the rows is read statement by statement. -/
theorem withTable?_statements (table : List (List Nat)) (flags : List Nat) (start code : Nat)
    (callee : List Char) {chain : List (List Char)} {later : List (type.Value × Nat)}
    (hchain : branches? type chain = some later) :
    Program.withTable? type table
      ("];".toList ::
        ("accepting = logical([".toList ++ numbers flags ++ "]);".toList) ::
        ("state = ".toList ++ Decimal.digits start ++ [';']) ::
        "for k = 1:numel(input)".toList ::
        ("state = table(state, ".toList ++ callee ++ "(input(k)));".toList) ::
        "end".toList ::
        "matched = accepting(state);".toList ::
        "end".toList ::
        ("function code = ".toList ++ callee ++ "(value)".toList) ::
        codeStatement code :: chain) = some ⟨table, flags, start, later, code⟩ := by
  rw [Program.withTable?, between?_append, between?_append, between?_append, Option.bind_some,
    numerals?_numbers, Option.bind_some, numeral?_digits, code?_codeStatement, hchain]
  exact if_pos ⟨rfl, rfl, rfl, rfl, rfl⟩

/-- **The lines of the source read as the program of the matcher.** -/
theorem read?_sourceText {m : Matcher (SymbolType.integer type).Symbol} {o : Options}
    (hm : m.WellFormed) (ho : o.validate = .ok ()) :
    Program.read? type (sourceText m o) = some (programOf m) := by
  obtain ⟨hfunction, hclassifier, -⟩ :=
    Options.invalidName?_eq_none_iff.1 (Options.validate_eq_ok_iff.1 ho)
  have hlines : ∀ line ∈ matcherLines m o ++ [] :: classifierLines m o, OneLine line :=
    List.forall_mem_append.2
      ⟨oneLine_matcherLines (oneLine_name hfunction) (oneLine_name hclassifier) m,
        List.forall_mem_cons.2 ⟨by decide, oneLine_classifierLines (oneLine_name hclassifier) m⟩⟩
  -- a row has at least the column of the values that equal no literal
  have hrows : ∀ row ∈ (programOf m).table, row ≠ [] := by
    refine List.forall_mem_map.2 fun row hrow hnil => ?_
    have hlength := hm.row_length row hrow
    rw [List.map_eq_nil_iff.1 hnil] at hlength
    cases hlength
  have hchain := branches?_classifier (pad_eq_space o) m.symbols
  rw [Program.read?, sourceText, statements_lines hlines, statementsOn_append,
    statementsOn_matcherLines hrows, statementsOn_classifierLines, List.cons_append,
    List.cons_append, List.append_assoc _ _ (_ :: _ :: _)]
  exact (ofStatements?_rows _ hrows _).trans (withTable?_statements _ _ _ _ _ hchain)

end Statements

/-- **The source of a matcher decides as the matcher does.**  For a matcher of integers without
fault and options that allow it there is a source if it fits into a text, and only then.  The source
reads as a program, and on every input the program ends with the flag `1` exactly if the input
matches. -/
theorem source_decides (type : IntegerType) (m : Matcher (SymbolType.integer type).Symbol)
    (o : Options) (hm : m.validate = .ok ()) (ho : o.validate = .ok ()) :
    (Fits m o → ∃ text p, source m o = .ok text ∧ Program.read? type text = some p ∧
      ∀ input, ∃ matched flag, m.run? input = some matched ∧ p.run? input = some flag ∧
        (flag = 1 ↔ matched = true)) ∧
      (¬ Fits m o → source m o = .error .capacityOverflow) := by
  have hwf : m.WellFormed := Matcher.validate_eq_ok_iff.1 hm
  refine ⟨fun hfits => ⟨sourceText m o, programOf m, source_of_fits ho hfits,
    read?_sourceText hwf ho, fun input => ?_⟩, source_of_not_fits ho⟩
  obtain ⟨matched, hmatched, hflag⟩ := run?_programOf hwf input
  exact ⟨matched, matched.toNat, hmatched, hflag, by cases matched <;> decide⟩

/-- A matcher with a negative literal given twice, of which the first column counts, written
without indentation. -/
theorem source_decides_repeated :
    let minus : (SymbolType.integer .int32).Symbol := ⟨-3, by decide⟩
    let m : Matcher (SymbolType.integer .int32).Symbol :=
      ⟨[minus, minus], [[0, 1, 0], [1, 1, 0]], 0, [1]⟩
    let o : Options := ⟨"match_shape", "code_of", 0⟩
    m.validate = .ok () ∧ o.validate = .ok () ∧ Fits m o ∧
      ∃ text p, source m o = .ok text ∧ Program.read? .int32 text = some p ∧
        p.run? [minus, minus] = some 1 := by
  intro minus m o
  have hm : m.validate = .ok () := by rfl
  have ho : o.validate = .ok () := Options.validate_eq_ok_iff.2
    (Options.invalidName?_eq_none_iff.2 ⟨by decide, by decide, by decide⟩)
  have hrun : m.run? [minus, minus] = some (m.isAccepting 1) := by rfl
  have haccepting : m.isAccepting 1 = true := (binarySearch_iff (by decide)).2 (by decide)
  have hfits : Fits m o := by decide +kernel
  obtain ⟨text, p, htext, hread, hruns⟩ := (source_decides .int32 m o hm ho).1 hfits
  obtain ⟨matched, flag, hmatched, hflag, hone⟩ := hruns [minus, minus]
  refine ⟨hm, ho, hfits, text, p, htext, hread, ?_⟩
  rw [hrun, haccepting] at hmatched
  rw [hflag, hone.2 (Option.some.inj hmatched).symm]

/-- **A matcher without fault need not have a source under options that are allowed**: one level of
indentation may be too long for a text. -/
theorem not_source_deep_indent :
    let m : Matcher (SymbolType.integer .int64).Symbol := ⟨[], [[0]], 0, []⟩
    let o : Options := { indent := Nat.pow 2 64 - 1 }
    m.validate = .ok () ∧ o.validate = .ok () ∧ ¬ ∃ text, source m o = .ok text := by
  intro m o
  have hm : m.validate = .ok () := by rfl
  have ho : o.validate = .ok () := Options.validate_eq_ok_iff.2
    (Options.invalidName?_eq_none_iff.2 ⟨by decide, by decide, by decide⟩)
  refine ⟨hm, ho, ?_⟩
  rintro ⟨text, htext⟩
  have hindent : o.indent ≤ capacity := ((source_eq_ok_iff ho).1 htext).1.indent_le
  exact absurd hindent (by decide)

end Matlab
end SignatureAutomata
