import SignatureAutomata.Proofs.Matlab.Source

/-! # The source of a matcher determines it

No two matchers are written as the same source, whatever their literals are.

A family of texts is `Separable` if one can tell from the front of a text which of them stands
there and where it ends, as long as something follows that stops it.  A numeral is stopped by
anything but a digit (`separable_digits`), a text in quotes by anything but a quote
(`separable_quote`); a test of a value needs nothing to stop it (`separable_equalityTest`).  A list
of separable texts is separable if what ends the list cannot be taken for one more item
(`Separable.flatMap`).  This is the only induction: it serves the characters of a text in quotes,
the numbers of a row, the rows of a table and the branches of a chain.

A literal may have line breaks and look like the source around it, so the source is not cut into
lines.  Read from the front, piece by piece, it gives the program of the matcher
(`sourceText_eq_programText`, `eq_of_programText_eq`), and the program gives the matcher
(`eq_of_programOf_eq`).
-/

namespace SignatureAutomata
namespace Matlab

/-! ### Texts that are told apart -/

section Separable
variable {β γ : Type} {write : β → List Char} {stops ends : List Char → Prop}

/-- **Texts that are told apart from the front**, if what follows stops them. -/
def Separable (write : β → List Char) (stops : List Char → Prop) : Prop :=
  ∀ ⦃x y : β⦄ ⦃rest rest' : List Char⦄, stops rest → stops rest' →
    write x ++ rest = write y ++ rest' → x = y ∧ rest = rest'

/-- What is the same in all texts may stand in front. -/
theorem Separable.after (hwrite : Separable write stops) (front : List Char) :
    Separable (fun x => front ++ write x) stops := by
  intro x y rest rest' hrest hrest' h
  rw [List.append_assoc, List.append_assoc] at h
  exact hwrite hrest hrest' (List.append_cancel_left h)

/-- What is the same in all texts may follow, if it stops them. -/
theorem Separable.before (hwrite : Separable write stops) (back : List Char)
    (hback : ∀ rest, ends rest → stops (back ++ rest)) :
    Separable (fun x => write x ++ back) ends := by
  intro x y rest rest' hrest hrest' h
  rw [List.append_assoc, List.append_assoc] at h
  obtain ⟨hxy, hrests⟩ := hwrite (hback rest hrest) (hback rest' hrest') h
  exact ⟨hxy, List.append_cancel_left hrests⟩

/-- Two texts in a row, the second of which stops the first. -/
theorem Separable.pair {write' : γ → List Char} (hwrite : Separable write stops)
    (hwrite' : Separable write' ends) (hnext : ∀ y rest, ends rest → stops (write' y ++ rest)) :
    Separable (fun z : β × γ => write z.1 ++ write' z.2) ends := by
  rintro ⟨x, y⟩ ⟨x', y'⟩ rest rest' hrest hrest' h
  simp only [List.append_assoc] at h
  obtain ⟨rfl, hseconds⟩ := hwrite (hnext y rest hrest) (hnext y' rest' hrest') h
  obtain ⟨rfl, hrests⟩ := hwrite' hrest hrest' hseconds
  exact ⟨rfl, hrests⟩

/-- Texts of what determines the thing that they stand for. -/
theorem Separable.of_injective (hwrite : Separable write stops) {f : γ → β}
    (hf : ∀ ⦃x y⦄, f x = f y → x = y) : Separable (fun x => write (f x)) stops := by
  intro x y rest rest' hrest hrest' h
  obtain ⟨hxy, hrests⟩ := hwrite hrest hrest' h
  exact ⟨hf hxy, hrests⟩

/-- **Lists of separable texts**: each item stops the one before it, as does what ends the list, and
this cannot be taken for an item. -/
theorem Separable.flatMap (hwrite : Separable write stops)
    (hnext : ∀ x rest, stops (write x ++ rest)) (hends : ∀ rest, ends rest → stops rest)
    (hne : ∀ x rest rest', ends rest → rest ≠ write x ++ rest') :
    Separable (fun xs : List β => xs.flatMap write) ends := by
  intro xs ys rest rest' hrest hrest' h
  have hstops : ∀ (zs : List β) (end' : List Char), ends end' →
      stops (zs.flatMap write ++ end') := by
    intro zs end' hend
    cases zs with
    | nil => exact hends end' hend
    | cons z zs =>
        rw [List.flatMap_cons, List.append_assoc]
        exact hnext z _
  induction xs generalizing ys with
  | nil =>
      cases ys with
      | nil => exact ⟨rfl, h⟩
      | cons y ys =>
          simp only [List.flatMap_nil, List.nil_append, List.flatMap_cons, List.append_assoc] at h
          exact absurd h (hne y rest _ hrest)
  | cons x xs ih =>
      cases ys with
      | nil =>
          simp only [List.flatMap_nil, List.nil_append, List.flatMap_cons, List.append_assoc] at h
          exact absurd h.symm (hne x rest' _ hrest')
      | cons y ys =>
          simp only [List.flatMap_cons, List.append_assoc] at h
          obtain ⟨rfl, htail⟩ := hwrite (hstops xs rest hrest) (hstops ys rest' hrest') h
          obtain ⟨rfl, hrests⟩ := ih htail
          exact ⟨rfl, hrests⟩

end Separable

/-! ### Pieces of a source -/

section Pieces
variable {rest : List Char}

/-- Nothing that goes on with a numeral. -/
def EndsNumeral (rest : List Char) : Prop := ∀ c cs, rest = c :: cs → c.isDigit = false

/-- Nothing that goes on with a list of numerals. -/
def EndsNumerals (rest : List Char) : Prop :=
  ∀ c cs, rest = c :: cs → c.isDigit = false ∧ c ≠ ' '

/-- Nothing that goes on with a text in quotes. -/
def EndsQuoted (rest : List Char) : Prop := ∀ cs, rest ≠ '\'' :: cs

theorem separable_digits : Separable Decimal.digits EndsNumeral := by
  intro n k rest rest' hrest hrest' h
  have htake : ∀ (i : Nat) (end' : List Char), EndsNumeral end' →
      (Decimal.digits i ++ end').takeWhile Char.isDigit = Decimal.digits i := by
    intro i end' hend
    rw [List.takeWhile_append_of_pos fun c hc => Decimal.isDigit_of_mem_digits hc]
    cases end' with
    | nil => rw [List.takeWhile_nil, List.append_nil]
    | cons c cs => rw [List.takeWhile_cons_of_neg (by rw [hend c cs rfl]; decide), List.append_nil]
  have hdigits : Decimal.digits n = Decimal.digits k := by
    rw [← htake n rest hrest, h, htake k rest' hrest']
  refine ⟨?_, ?_⟩
  · rw [← Decimal.ofDigitChars_digits n, hdigits, Decimal.ofDigitChars_digits]
  · rw [hdigits] at h
    exact List.append_cancel_left h

/-- What does not begin with a digit is no numeral. -/
theorem EndsNumeral.ne_digits_append (hrest : EndsNumeral rest) (n : Nat) (s : List Char) :
    rest ≠ Decimal.digits n ++ s := by
  intro h
  obtain ⟨c, cs, hcs, hc⟩ := Decimal.exists_digits_eq_cons n
  rw [hcs] at h
  rw [hrest c _ h] at hc
  cases hc

theorem endsNumeral_cons {c : Char} (hc : c.isDigit = false) (s : List Char) :
    EndsNumeral (c :: s) := by
  intro d cs h
  rw [← (List.cons.inj h).1]
  exact hc

theorem separable_ofInt : Separable Decimal.ofInt EndsNumeral := by
  intro n k rest rest' hrest hrest' h
  have hsign : ∀ (i : Nat) (s s' : List Char), '-' :: s ≠ Decimal.digits i ++ s' :=
    fun i s s' => (endsNumeral_cons rfl s).ne_digits_append i s'
  unfold Decimal.ofInt at h
  split at h <;> split at h <;> rename_i hn hk
  · obtain ⟨habs, hrests⟩ := separable_digits hrest hrest' (List.cons.inj h).2
    exact ⟨by omega, hrests⟩
  · exact absurd h (hsign _ _ _)
  · exact absurd h.symm (hsign _ _ _)
  · obtain ⟨habs, hrests⟩ := separable_digits hrest hrest' h
    exact ⟨by omega, hrests⟩

theorem EndsNumerals.endsNumeral (hrest : EndsNumerals rest) : EndsNumeral rest :=
  fun c cs h => (hrest c cs h).1

theorem endsNumerals_cons {c : Char} (hc : c.isDigit = false) (hspace : c ≠ ' ') (s : List Char) :
    EndsNumerals (c :: s) := by
  intro d cs h
  rw [← (List.cons.inj h).1]
  exact ⟨hc, hspace⟩

/-- Numbers that come after another one. -/
theorem separable_later :
    Separable (fun ns : List Nat => ns.flatMap fun n => ' ' :: Decimal.digits n) EndsNumerals :=
  (separable_digits.after [' ']).flatMap (fun _ _ => endsNumeral_cons rfl _)
    (fun _ => EndsNumerals.endsNumeral) fun _ _ _ hrest h => (hrest ' ' _ h).2 rfl

/-- What begins with neither a digit nor a space is no list of numerals. -/
theorem EndsNumerals.eq_nil (hrest : EndsNumerals rest) {ns : List Nat} {s : List Char}
    (h : rest = numbers ns ++ s) : ns = [] := by
  cases ns with
  | nil => rfl
  | cons n ns =>
      rw [numbers_cons, List.append_assoc] at h
      exact absurd h (hrest.endsNumeral.ne_digits_append n _)

theorem separable_numbers : Separable numbers EndsNumerals := by
  have hfirst : Separable (fun z : Nat × List Nat => Decimal.digits z.1 ++
      z.2.flatMap fun n => ' ' :: Decimal.digits n) EndsNumerals := by
    refine separable_digits.pair separable_later fun ns rest hrest => ?_
    cases ns with
    | nil => exact hrest.endsNumeral
    | cons n ns => exact endsNumeral_cons rfl _
  intro ns ks rest rest' hrest hrest' h
  cases ns with
  | nil =>
      obtain rfl := hrest.eq_nil h
      exact ⟨rfl, h⟩
  | cons n ns =>
      cases ks with
      | nil => cases hrest'.eq_nil h.symm
      | cons k ks =>
          rw [numbers_cons, numbers_cons] at h
          obtain ⟨hpair, hrests⟩ := hfirst (x := (n, ns)) (y := (k, ks)) hrest hrest' h
          obtain ⟨rfl, rfl⟩ := Prod.mk.inj hpair
          exact ⟨rfl, hrests⟩

/-- A character as it stands between quotes. -/
theorem separable_doubled :
    Separable (fun c => if c = '\'' then ['\'', '\''] else [c]) fun _ => True := by
  intro c d rest rest' _ _ h
  dsimp only at h
  split at h <;> split at h <;> rename_i hc hd
  · exact ⟨hc.trans hd.symm, (List.cons.inj (List.cons.inj h).2).2⟩
  · exact absurd (List.cons.inj h).1.symm hd
  · exact absurd (List.cons.inj h).1 hc
  · exact List.cons.inj h

/-- **A text in quotes shows where it ends**: at the first quote that is not doubled. -/
theorem separable_quote : Separable quote EndsQuoted := by
  have hcharacters : Separable
      (fun s : List Char => s.flatMap fun c => if c = '\'' then ['\'', '\''] else [c])
      (fun rest => ∃ s, EndsQuoted s ∧ rest = '\'' :: s) := by
    refine separable_doubled.flatMap (fun _ _ => trivial) (fun _ _ => trivial) ?_
    rintro c _ rest' ⟨s, hs, rfl⟩ h
    split at h <;> rename_i hc
    · exact hs _ (List.cons.inj h).2
    · exact hc (List.cons.inj h).1.symm
  exact (hcharacters.before ['\''] fun rest hrest => ⟨rest, hrest, rfl⟩).after ['\'']

/-- The test of a text. -/
theorem equalityTest_text (v : String) (var : List Char) :
    equalityTest .text v var = "strcmp(".toList ++ var ++ [',', ' '] ++ quote v.toList ++ [')'] :=
  rfl

/-- **A test shows its symbol and where it ends**, whatever follows. -/
theorem separable_equalityTest (τ : SymbolType) (var : List Char) :
    Separable (fun v => equalityTest τ v var) fun _ => True := by
  cases τ with
  | integer type =>
      have hvalue : Separable (fun v : type.Value => Decimal.ofInt v.val) EndsNumeral :=
        separable_ofInt.of_injective fun _ _ => Subtype.ext
      have hclosed : Separable (fun v : type.Value => Decimal.ofInt v.val ++ [')', ')'])
          fun _ => True := hvalue.before _ fun rest _ => endsNumeral_cons rfl _
      intro v w rest rest' hrest hrest' h
      dsimp only at h
      rw [equalityTest_integer, equalityTest_integer] at h
      refine hclosed hrest hrest' ?_
      simpa only [List.append_assoc, List.cons_append, List.append_cancel_left_eq,
        List.cons.injEq, true_and] using h
  | text =>
      have hvalue : Separable (fun v : String => quote v.toList) EndsQuoted :=
        separable_quote.of_injective fun _ _ => String.toList_inj.1
      have hclosed : Separable (fun v : String => quote v.toList ++ [')']) fun _ => True :=
        hvalue.before _ fun _ _ _ => nofun
      intro v w rest rest' hrest hrest' h
      dsimp only at h
      rw [equalityTest_text, equalityTest_text] at h
      refine hclosed hrest hrest' ?_
      simpa only [List.append_assoc, List.append_cancel_left_eq] using h

/-- A text behind some space begins with no other character. -/
theorem cons_ne_pad_append {pad : List Char} (hpad : ∀ c ∈ pad, c = ' ') {c d : Char}
    (hspace : c ≠ ' ') (hcd : c ≠ d) (s t : List Char) : c :: s ≠ pad ++ d :: t := by
  intro h
  cases pad with
  | nil => exact hcd (List.cons.inj h).1
  | cons e pad => exact hspace ((List.cons.inj h).1.trans (hpad e List.mem_cons_self))

end Pieces

/-! ### The text of a program -/

section Programs
variable {τ : SymbolType} {pad keyword : List Char}

/-- A row of the table on a line of its own. -/
def rowText (pad : List Char) (row : List Nat) : List Char := pad ++ pad ++ (numbers row ++ ['\n'])

/-- The two lines of a branch. -/
def branchText (pad keyword : List Char) (branch : τ.Symbol × Nat) : List Char :=
  pad ++ (keyword ++ [' ']) ++ (equalityTest τ branch.1 "value".toList ++
    ('\n' :: (pad ++ pad ++ "code = ".toList) ++ (Decimal.digits branch.2 ++ [';', '\n'])))

/-- A chain of branches up to its end. -/
def chainText (pad : List Char) : List (τ.Symbol × Nat) → List Char
  | [] => []
  | first :: later => branchText pad "if".toList first ++
      (later.flatMap (branchText pad "elseif".toList) ++ (pad ++ ("end".toList ++ ['\n'])))

/-- What stands before the rows. -/
def textBeforeRows (o : Options) : List Char :=
  ["function matched = ".toList ++ o.functionName.toList ++ "(input)".toList,
    '%' :: o.functionName.toList.map Char.toUpper ++ " Generated signature matcher.".toList,
    "%   Column ".toList ++ Decimal.digits Code.sigma
      ++ " of TABLE is taken by values matching no literal.".toList,
    o.pad ++ "table = [".toList].flatMap (· ++ ['\n'])

/-- What stands between the rows and the flags. -/
def textBehindRows (o : Options) : List Char :=
  o.pad ++ "];".toList ++ '\n' :: (o.pad ++ "accepting = logical([".toList)

/-- What stands between the flags and the start state. -/
def textBehindFlags (o : Options) : List Char :=
  "]);".toList ++ '\n' :: (o.pad ++ "state = ".toList)

/-- What stands between the start state and the code of the values that equal no literal. -/
def textBehindStart (τ : SymbolType) (o : Options) : List Char :=
  ';' :: '\n' :: ([o.pad ++ "for k = 1:numel(input)".toList,
    o.pad ++ o.pad ++ "state = table(state, ".toList ++ o.classifierName.toList ++ '(' ::
      element τ "input".toList ['k'] ++ "));".toList,
    o.pad ++ "end".toList,
    o.pad ++ "matched = accepting(state);".toList,
    "end".toList,
    [],
    "function code = ".toList ++ o.classifierName.toList ++ "(value)".toList].flatMap (· ++ ['\n'])
  ++ (o.pad ++ "code = ".toList))

/-- **The text that a program is written as.** -/
def programText (o : Options) (p : Program τ.Symbol) : List Char :=
  textBeforeRows o ++ (p.table.flatMap (rowText o.pad) ++
    (textBehindRows o ++ (numbers p.flags ++
      (textBehindFlags o ++ (Decimal.digits p.start ++
        (textBehindStart τ o ++ (Decimal.digits p.otherwise ++
          (';' :: '\n' :: (chainText o.pad p.branches ++ ("end".toList ++ ['\n']))))))))))

theorem flatMap_branches (pad keyword : List Char) (code : Nat) (v : τ.Symbol)
    (vs : List τ.Symbol) :
    (branches pad keyword code (v :: vs)).flatMap (· ++ ['\n']) =
      branchText pad keyword (v, code) ++
        (branches pad "elseif".toList (code + 1) vs).flatMap (· ++ ['\n']) := by
  rw [branches, List.flatMap_append]
  simp [branchText]

theorem flatMap_laterBranches (pad : List Char) (code : Nat) (vs : List τ.Symbol) :
    (branches pad "elseif".toList code vs).flatMap (· ++ ['\n']) =
      (vs.zipIdx code).flatMap (branchText pad "elseif".toList) := by
  induction vs generalizing code with
  | nil => rfl
  | cons v vs ih => rw [flatMap_branches, ih, List.zipIdx_cons, List.flatMap_cons]

/-- **The lines of the source are the text of the program.** -/
theorem sourceText_eq_programText (m : Matcher τ.Symbol) (o : Options) :
    sourceText m o = programText o (programOf m) := by
  have hrows : (m.table.map fun row => o.pad ++ o.pad ++ numbers (row.map (· + 1))).flatMap
      (· ++ ['\n']) = (programOf m).table.flatMap (rowText o.pad) := by
    simp only [programOf, List.flatMap_map, rowText, List.append_assoc]
  have hchain : (branches o.pad "if".toList Code.firstSymbol m.symbols).flatMap (· ++ ['\n']) ++
      (if m.symbols.isEmpty then [] else [o.pad ++ "end".toList]).flatMap (· ++ ['\n']) =
      chainText o.pad (programOf m).branches := by
    unfold programOf
    cases m.symbols with
    | nil => simp [chainText, branches]
    | cons v vs =>
        rw [flatMap_branches, flatMap_laterBranches, List.zipIdx_cons, List.append_assoc]
        simp [chainText]
  unfold sourceText matcherLines classifierLines programText
  dsimp only
  rw [← hrows, ← hchain]
  unfold textBeforeRows textBehindRows textBehindFlags textBehindStart programOf
  dsimp only
  simp only [List.flatMap_append, List.flatMap_cons, List.flatMap_nil]
  simp only [List.append_assoc, List.append_nil, List.cons_append, List.nil_append]

/-! ### Programs are told apart by their texts -/

theorem separable_rowText (pad : List Char) : Separable (rowText pad) fun _ => True :=
  (separable_numbers.before ['\n'] fun _ _ => endsNumerals_cons rfl (by decide) _).after
    (pad ++ pad)

/-- **The rows of a table**, up to the bracket that closes it. -/
theorem separable_rows (hpad : ∀ c ∈ pad, c = ' ') :
    Separable (fun rows : List (List Nat) => rows.flatMap (rowText pad))
      fun rest => ∃ s, rest = pad ++ ']' :: s := by
  refine (separable_rowText pad).flatMap (fun _ _ => trivial) (fun _ _ => trivial) ?_
  rintro row _ rest' ⟨s, rfl⟩ h
  simp only [rowText, List.append_assoc] at h
  have h := List.append_cancel_left h
  cases row with
  | nil => exact cons_ne_pad_append hpad (by decide) (by decide) _ _ h
  | cons n row =>
      obtain ⟨c, cs, hcs, hc⟩ := Decimal.exists_digits_eq_cons n
      rw [numbers_cons, hcs] at h
      refine cons_ne_pad_append hpad (by decide) ?_ _ _ h
      rintro rfl
      cases hc

theorem separable_branchText (pad keyword : List Char) :
    Separable (branchText (τ := τ) pad keyword) fun _ => True := by
  have hline : Separable (fun n => Decimal.digits n ++ [';', '\n']) fun _ => True :=
    separable_digits.before [';', '\n'] fun _ _ => endsNumeral_cons rfl _
  have hcode := hline.after ('\n' :: (pad ++ pad ++ "code = ".toList))
  exact ((separable_equalityTest τ "value".toList).pair hcode fun _ _ _ => trivial).after
    (pad ++ (keyword ++ [' ']))

/-- **The branches behind the first**, up to the end of the chain. -/
theorem separable_laterBranches (pad : List Char) :
    Separable
      (fun later : List (τ.Symbol × Nat) => later.flatMap (branchText pad "elseif".toList))
      fun rest => ∃ s, rest = pad ++ 'e' :: 'n' :: s := by
  refine (separable_branchText pad _).flatMap (fun _ _ => trivial) (fun _ _ => trivial) ?_
  rintro branch _ rest' ⟨s, rfl⟩ h
  simp only [branchText, List.append_assoc] at h
  have hletter : some 'n' = some 'l' := congrArg (·[1]?) (List.append_cancel_left h)
  cases hletter

/-- **A chain of branches**, up to the end of the function. -/
theorem separable_chainText (hpad : ∀ c ∈ pad, c = ' ') :
    Separable (chainText (τ := τ) pad) fun rest => rest = "end".toList ++ ['\n'] := by
  have hne : ∀ (first : τ.Symbol × Nat) (s : List Char),
      "end".toList ++ ['\n'] ≠ branchText pad "if".toList first ++ s := by
    intro first s h
    simp only [branchText, List.append_assoc] at h
    exact cons_ne_pad_append hpad (by decide) (by decide) _ _ h
  have hchain : Separable (fun z : (τ.Symbol × Nat) × List (τ.Symbol × Nat) =>
      branchText pad "if".toList z.1 ++ (z.2.flatMap (branchText pad "elseif".toList) ++
        (pad ++ ("end".toList ++ ['\n'])))) fun _ => True :=
    (separable_branchText pad "if".toList).pair
      ((separable_laterBranches pad).before _ fun rest _ => ⟨'d' :: '\n' :: rest, by simp⟩)
      fun _ _ _ => trivial
  intro bs bs' rest rest' hrest hrest' h
  cases bs with
  | nil =>
      cases bs' with
      | nil => exact ⟨rfl, h⟩
      | cons first later =>
          rw [hrest, chainText, chainText, List.nil_append, List.append_assoc] at h
          exact absurd h (hne first _)
  | cons first later =>
      cases bs' with
      | nil =>
          rw [hrest', chainText, chainText, List.nil_append, List.append_assoc] at h
          exact absurd h.symm (hne first _)
      | cons first' later' =>
          obtain ⟨hpair, hrests⟩ := hchain (x := (first, later)) (y := (first', later'))
            trivial trivial h
          obtain ⟨rfl, rfl⟩ := Prod.mk.inj hpair
          exact ⟨rfl, hrests⟩

theorem exists_textBehindRows_append (o : Options) (rest : List Char) :
    ∃ s, textBehindRows o ++ rest = o.pad ++ ']' :: s := by
  unfold textBehindRows
  rw [List.append_assoc, List.append_assoc]
  exact ⟨_, rfl⟩

/-- **Programs with the same text are the same.** -/
theorem eq_of_programText_eq {o : Options} {p p' : Program τ.Symbol}
    (h : programText o p = programText o p') : p = p' := by
  have hpad := pad_eq_space o
  have hflagsEnd : ∀ rest, EndsNumerals (textBehindFlags o ++ rest) :=
    fun rest => endsNumerals_cons (c := ']') rfl (by decide) _
  have hstartEnd : ∀ rest, EndsNumeral (textBehindStart τ o ++ rest) :=
    fun rest => endsNumeral_cons (c := ';') rfl _
  have hcodeEnd : ∀ rest, EndsNumeral (';' :: rest) := endsNumeral_cons rfl
  unfold programText at h
  obtain ⟨htable, hrows⟩ := separable_rows hpad (exists_textBehindRows_append o _)
    (exists_textBehindRows_append o _) (List.append_cancel_left h)
  obtain ⟨hflags, hstarts⟩ := separable_numbers (hflagsEnd _) (hflagsEnd _)
    (List.append_cancel_left hrows)
  obtain ⟨hstart, hcodes⟩ := separable_digits (hstartEnd _) (hstartEnd _)
    (List.append_cancel_left hstarts)
  obtain ⟨hotherwise, hchains⟩ := separable_digits (hcodeEnd _) (hcodeEnd _)
    (List.append_cancel_left hcodes)
  obtain ⟨hbranches, -⟩ := separable_chainText hpad rfl rfl
    (List.cons.inj (List.cons.inj hchains).2).2
  cases p
  cases p'
  exact (Program.mk.injEq ..).mpr ⟨htable, hflags, hstart, hbranches, hotherwise⟩

end Programs

/-! ### Matchers are told apart by their programs -/

/-- **Well-formed matchers with the same program are the same.**  Their accepting lists are
ascending, so the flags determine them. -/
theorem eq_of_programOf_eq {α : Type} {m m' : Matcher α} (hm : m.WellFormed) (hm' : m'.WellFormed)
    (h : programOf m = programOf m') : m = m' := by
  have hrow : ∀ row row' : List Nat, row.map (· + 1) = row'.map (· + 1) → row = row' :=
    fun row row' => (List.map_inj_right fun _ _ => Nat.succ.inj).1
  have htable : m.table = m'.table := (List.map_inj_right hrow).1 (congrArg Program.table h)
  have hstates : m.numStates = m'.numStates := congrArg List.length htable
  have hstart : m.start = m'.start := Nat.succ.inj (congrArg Program.start h)
  have hsymbols : m.symbols = m'.symbols := by
    have hbranches := congrArg (fun p : Program α => p.branches.map Prod.fst) h
    simpa [programOf] using hbranches
  have htoNat : ∀ a b : Bool, a.toNat = b.toNat → a = b := by decide
  have hflag : ∀ s < m.numStates, m.isAccepting s = m'.isAccepting s := by
    intro s hs
    have hflags := congrArg (fun p : Program α => p.flags[s]?) h
    simp only [programOf, List.getElem?_map, ← hstates, List.getElem?_range hs,
      Option.map_some] at hflags
    exact htoNat _ _ (Option.some.inj hflags)
  have hmem : ∀ s < m.numStates, s ∈ m.accepting ↔ s ∈ m'.accepting := by
    intro s hs
    rw [← hm.isAccepting_iff, ← hm'.isAccepting_iff, hflag s hs]
  have haccepting : m.accepting = m'.accepting :=
    eq_of_mem_iff hm.accepting_ascending hm'.accepting_ascending fun s =>
      ⟨fun hs => (hmem s (hm.accepting_lt s hs)).1 hs,
        fun hs => (hmem s (hstates ▸ hm'.accepting_lt s hs)).2 hs⟩
  cases m
  cases m'
  exact (Matcher.mk.injEq ..).mpr ⟨hsymbols, htable, hstart, haccepting⟩

/-- **The source of a matcher determines it.**  There is one whenever it fits into a text. -/
theorem source_determines (τ : SymbolType) (o : Options) (m : Matcher τ.Symbol)
    (ho : o.validate = .ok ()) (hm : m.validate = .ok ()) :
    (Fits m o → ∃ text, source m o = .ok text) ∧
      ∀ text, source m o = .ok text →
        ∀ m' : Matcher τ.Symbol, m'.validate = .ok () → source m' o = .ok text → m' = m := by
  refine ⟨fun hfits => ⟨_, source_of_fits ho hfits⟩, fun text htext m' hm' htext' => ?_⟩
  have hsame : sourceText m' o = sourceText m o :=
    ((source_eq_ok_iff ho).1 htext').2.trans ((source_eq_ok_iff ho).1 htext).2.symm
  rw [sourceText_eq_programText, sourceText_eq_programText] at hsame
  exact eq_of_programOf_eq (Matcher.validate_eq_ok_iff.1 hm') (Matcher.validate_eq_ok_iff.1 hm)
    (eq_of_programText_eq hsame)

/-- Two matchers whose sources would be the same if quotes were not doubled: a literal of each holds
the lines that stand between two literals of the other. -/
theorem source_determines_imitation :
    let between := "')\n        code = 2;\n    elseif strcmp(value, '"
    let m : Matcher SymbolType.text.Symbol :=
      ⟨["x" ++ between ++ "y", "z"], [[0, 1, 0], [1, 1, 1]], 0, [1]⟩
    let m' : Matcher SymbolType.text.Symbol :=
      ⟨["x", "y" ++ between ++ "z"], [[0, 1, 0], [1, 1, 1]], 0, [1]⟩
    (({} : Options).validate = .ok () ∧ m.validate = .ok () ∧ m'.validate = .ok ()) ∧
      ∃ text, source m {} = .ok text ∧ source m' {} ≠ .ok text := by
  intro between m m'
  have ho : ({} : Options).validate = .ok () := Options.validate_eq_ok_iff.2
    (Options.invalidName?_eq_none_iff.2 ⟨by decide, by decide, by decide⟩)
  have hm : m.validate = .ok () := by rfl
  have hm' : m'.validate = .ok () := by rfl
  obtain ⟨hexists, hunique⟩ := source_determines .text {} m ho hm
  obtain ⟨text, htext⟩ := hexists (by decide +kernel)
  have hne : m'.symbols.head? ≠ m.symbols.head? := by decide
  exact ⟨⟨ho, hm, hm'⟩, text, htext, fun h => hne (by rw [hunique text htext m' hm' h])⟩

end Matlab
end SignatureAutomata
