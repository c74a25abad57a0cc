import SignatureAutomata.Proofs.Matlab.Source

/-! # Texts as character vectors

A character vector opens with a single quote and ends at the first quote that is not doubled; a
doubled quote inside stands for one, and no line break comes before the end (`charVector?`).

`quote` doubles the quotes of a text and leaves every other character as it is.  A text without
line breaks is thereby written as a character vector of this value, whatever its characters are
and wherever its quotes stand (`charVector?_quote`).  No character vector has a value with a line
break (`unbroken_of_charVector?`), and a line break in a text ends the line that tests for it.  So
a test is what it should be exactly if its text has no line break
(`comparesWith_equalityTest_iff`, `unbroken_testLine_iff`).
-/

namespace SignatureAutomata
namespace Matlab

/-! ### Lines of a source -/

/-- Whether a character ends a line. -/
def isLineBreak (c : Char) : Bool := c = '\n' ∨ c = '\r'

/-- A text in which no line ends. -/
def Unbroken (s : List Char) : Prop := ∀ c ∈ s, isLineBreak c = false

instance instDecidableUnbroken (s : List Char) : Decidable (Unbroken s) :=
  List.decidableBAll (fun c => isLineBreak c = false) s

/-- The lines of a source. -/
def sourceLines (text : List Char) : List (List Char) := text.splitOnP isLineBreak

section Lines
variable {s t line : List Char}

theorem unbroken_append : Unbroken (s ++ t) ↔ Unbroken s ∧ Unbroken t := List.forall_mem_append

theorem sourceLines_of_unbroken (h : Unbroken s) : sourceLines s = [s] :=
  List.splitOnP_eq_singleton h

/-- No line goes on beyond a line break. -/
theorem unbroken_of_mem_sourceLines (h : line ∈ sourceLines s) : Unbroken line := by
  unfold sourceLines at h
  induction s generalizing line with
  | nil =>
      rw [List.splitOnP_nil, List.mem_singleton] at h
      rw [h]
      exact List.forall_mem_nil _
  | cons c s ih =>
      rw [List.splitOnP_cons_eq_if_modifyHead] at h
      split at h
      · rcases List.mem_cons.1 h with rfl | h
        · exact List.forall_mem_nil _
        · exact ih h
      · rename_i hc
        cases hsplit : s.splitOnP isLineBreak with
        | nil => exact absurd hsplit (List.splitOnP_ne_nil isLineBreak s)
        | cons first rest =>
            rw [hsplit] at ih h
            rcases List.mem_cons.1 h with rfl | h
            · exact List.forall_mem_cons.2 ⟨Bool.eq_false_iff.2 hc, ih List.mem_cons_self⟩
            · exact ih (List.mem_cons_of_mem first h)

/-- What is written on lines of its own does not run into what follows. -/
theorem sourceLines_flatMap_append (lines : List (List Char)) (rest : List Char) :
    sourceLines (lines.flatMap (· ++ ['\n']) ++ rest) =
      lines.flatMap sourceLines ++ sourceLines rest := by
  induction lines with
  | nil => rfl
  | cons first lines ih =>
      rw [List.flatMap_cons, List.flatMap_cons, List.append_assoc, List.append_assoc,
        List.append_assoc, List.singleton_append, ← ih]
      exact List.splitOnP_append_cons first _ rfl

theorem mem_sourceLines_flatMap {lines : List (List Char)} (hline : line ∈ lines)
    (h : Unbroken line) : line ∈ sourceLines (lines.flatMap (· ++ ['\n'])) := by
  rw [← List.append_nil (lines.flatMap _), sourceLines_flatMap_append]
  refine List.mem_append_left _ (List.mem_flatMap.2 ⟨line, hline, ?_⟩)
  rw [sourceLines_of_unbroken h]
  exact List.mem_singleton.2 rfl

end Lines

/-! ### Reading a character vector -/

/-- What a character vector stands for from behind its opening quote on, and what follows it. -/
def charactersThen? : List Char → Option (List Char × List Char)
  | '\'' :: '\'' :: cs => (charactersThen? cs).map fun (value, rest) => ('\'' :: value, rest)
  | '\'' :: cs => some ([], cs)
  | c :: cs =>
      if isLineBreak c then none
      else (charactersThen? cs).map fun (value, rest) => (c :: value, rest)
  | [] => none

/-- **The value of the character vector at the front of a text**, and what follows it. -/
def charVector? : List Char → Option (List Char × List Char)
  | '\'' :: cs => charactersThen? cs
  | _ => none

section Reading
variable {s t value rest : List Char} {c : Char}

/-- A quote that is not doubled ends the character vector. -/
theorem charactersThen?_of_end (h : ∀ cs, rest ≠ '\'' :: cs) :
    charactersThen? ('\'' :: rest) = some ([], rest) := by
  rw [charactersThen?]
  exact h

/-- Any other character stands for itself, unless a line ends there. -/
theorem charactersThen?_of_ne (h : c ≠ '\'') (t : List Char) :
    charactersThen? (c :: t) =
      if isLineBreak c then none
      else (charactersThen? t).map fun (value, rest) => (c :: value, rest) := by
  rw [charactersThen?]
  · exact fun _ hc _ => h hc
  · exact h

/-- **No character vector has a value with a line break.** -/
theorem unbroken_of_charactersThen? (h : charactersThen? t = some (value, rest)) :
    Unbroken value := by
  induction t using charactersThen?.induct generalizing value rest with
  | case1 cs ih =>
      rw [charactersThen?, Option.map_eq_some_iff] at h
      obtain ⟨⟨inner, rest'⟩, hinner, hvalue⟩ := h
      obtain ⟨rfl, rfl⟩ := Prod.mk.inj hvalue
      exact List.forall_mem_cons.2 ⟨rfl, ih hinner⟩
  | case2 cs hend =>
      rw [charactersThen?_of_end hend] at h
      obtain ⟨rfl, rfl⟩ := Prod.mk.inj (Option.some.inj h)
      exact List.forall_mem_nil _
  | case3 c cs _ hquote hc =>
      rw [charactersThen?_of_ne hquote, if_pos hc] at h
      cases h
  | case4 c cs _ hquote hc ih =>
      rw [charactersThen?_of_ne hquote, if_neg hc, Option.map_eq_some_iff] at h
      obtain ⟨⟨inner, rest'⟩, hinner, hvalue⟩ := h
      obtain ⟨rfl, rfl⟩ := Prod.mk.inj hvalue
      exact List.forall_mem_cons.2 ⟨Bool.eq_false_iff.2 hc, ih hinner⟩
  | case5 => cases h

theorem unbroken_of_charVector? (h : charVector? t = some (value, rest)) : Unbroken value := by
  unfold charVector? at h
  split at h
  · exact unbroken_of_charactersThen? h
  · cases h

/-- **A text in quotes reads back**, if it has no line break and no quote follows. -/
theorem charVector?_quote (hs : Unbroken s) (hrest : ∀ cs, rest ≠ '\'' :: cs) :
    charVector? (quote s ++ rest) = some (s, rest) := by
  suffices key : charactersThen?
      (s.flatMap (fun c => if c = '\'' then ['\'', '\''] else [c]) ++ '\'' :: rest) =
      some (s, rest) by
    rw [quote, List.cons_append, List.cons_append, List.append_assoc]
    exact key
  induction s with
  | nil => exact charactersThen?_of_end hrest
  | cons c s ih =>
      obtain ⟨hc, hs⟩ := List.forall_mem_cons.1 hs
      rw [List.flatMap_cons, List.append_assoc]
      by_cases hquote : c = '\''
      · rw [if_pos hquote, hquote, List.cons_append, List.singleton_append, charactersThen?, ih hs]
        rfl
      · rw [if_neg hquote, List.singleton_append, charactersThen?_of_ne hquote, hc, ih hs]
        rfl

example : charVector? "'it''s')".toList = some ("it's".toList, [')']) := by decide

end Reading

/-! ### Tests of texts -/

/-- **A test compares a variable with one character vector**, which has the given value and ends
where the test goes on. -/
def ComparesWith (test var value : List Char) : Prop :=
  ∃ literal, test = "strcmp(".toList ++ var ++ [',', ' '] ++ literal ++ [')'] ∧
    charVector? (literal ++ [')']) = some (value, [')'])

theorem ComparesWith.unbroken {test var value : List Char} (h : ComparesWith test var value) :
    Unbroken value := by
  obtain ⟨literal, -, hvalue⟩ := h
  exact unbroken_of_charVector? hvalue

theorem comparesWith_equalityTest_iff (v : String) (var : List Char) :
    ComparesWith (equalityTest .text v var) var v.toList ↔ Unbroken v.toList :=
  ⟨ComparesWith.unbroken, fun h => ⟨quote v.toList, rfl, charVector?_quote h fun _ => nofun⟩⟩

/-- A text between quotes has the line breaks of the text. -/
theorem unbroken_quote {s : List Char} : Unbroken (quote s) ↔ Unbroken s := by
  unfold quote
  rw [List.cons_append, Unbroken, List.forall_mem_cons]
  constructor
  · rintro ⟨-, h⟩ c hc
    refine h c (List.mem_append_left _ (List.mem_flatMap.2 ⟨c, hc, ?_⟩))
    by_cases hquote : c = '\''
    · rw [if_pos hquote, hquote]
      exact List.mem_cons_self
    · rw [if_neg hquote]
      exact List.mem_cons_self
  · intro h
    refine ⟨rfl, List.forall_mem_append.2 ⟨fun c hc => ?_, List.forall_mem_singleton.2 rfl⟩⟩
    obtain ⟨d, hd, hc⟩ := List.mem_flatMap.1 hc
    split at hc
    · simp only [List.mem_cons, List.not_mem_nil, or_false, or_self] at hc
      rw [hc]
      rfl
    · rw [List.mem_singleton.1 hc]
      exact h d hd

variable {τ : SymbolType}

/-- The line that tests for the symbol at a given place. -/
def testLine (o : Options) (index : Nat) (v : τ.Symbol) : List Char :=
  o.pad ++ (if index = 0 then "if".toList else "elseif".toList) ++
    ' ' :: equalityTest τ v "value".toList

theorem mem_branches {pad keyword : List Char} {vs : List τ.Symbol} {i : Nat} {v : τ.Symbol}
    (h : vs[i]? = some v) (code : Nat) :
    pad ++ (if i = 0 then keyword else "elseif".toList) ++ ' ' :: equalityTest τ v "value".toList ∈
      branches pad keyword code vs := by
  induction vs generalizing keyword code i with
  | nil => cases h
  | cons w vs ih =>
      rw [branches]
      cases i with
      | zero =>
          obtain rfl := Option.some.inj h
          exact List.mem_append_left _ List.mem_cons_self
      | succ i =>
          have hlater : _ ∈ branches pad "elseif".toList (code + 1) vs := ih h (code + 1)
          rw [ite_self] at hlater
          exact List.mem_append_right _ hlater

theorem testLine_mem_classifierLines {m : Matcher τ.Symbol} (o : Options) {i : Nat}
    {v : τ.Symbol} (h : m.symbols[i]? = some v) : testLine o i v ∈ classifierLines m o :=
  List.mem_append_left _ (List.mem_append_left _ (List.mem_append_right _ (mem_branches h _)))

theorem unbroken_testLine_iff (o : Options) (i : Nat) (v : String) :
    Unbroken (testLine (τ := .text) o i v) ↔ Unbroken v.toList := by
  have hpad : Unbroken o.pad := fun c hc => by
    rw [List.eq_of_mem_replicate hc]
    rfl
  have hkeyword : Unbroken (if i = 0 then "if".toList else "elseif".toList) := by
    split <;> decide
  have htest : Unbroken (' ' :: equalityTest .text v "value".toList) ↔ Unbroken v.toList := by
    show Unbroken (" strcmp(value, ".toList ++ (quote v.toList ++ [')'])) ↔ _
    rw [unbroken_append, unbroken_append, unbroken_quote]
    exact ⟨fun h => h.2.1, fun h => ⟨by decide, h, by decide⟩⟩
  unfold testLine
  rw [unbroken_append, unbroken_append, htest]
  exact ⟨fun h => h.2, fun h => ⟨⟨hpad, hkeyword⟩, h⟩⟩

/-- **A test of a text is what it should be exactly if the text has no line break.**  For any
variable it then compares with one character vector that has the text as its value, and in the
source of a matcher it takes one line.  If there is a line break, it does neither.  There is a
source whenever it fits into a text. -/
theorem text_tests_iff (v : String) :
    (∀ var, ComparesWith (equalityTest .text v var) var v.toList ↔ Unbroken v.toList) ∧
    ∀ (m : Matcher String) (o : Options), o.validate = .ok () →
      (Fits (τ := .text) m o → ∃ text, source (τ := .text) m o = .ok text) ∧
      ∀ text, source (τ := .text) m o = .ok text → ∀ i, m.symbols[i]? = some v →
        (testLine (τ := .text) o i v ∈ sourceLines text ↔ Unbroken v.toList) := by
  refine ⟨comparesWith_equalityTest_iff v, fun m o ho => ⟨fun hfits => ⟨_, source_of_fits ho hfits⟩,
    fun text htext i hv => ?_⟩⟩
  obtain ⟨-, rfl⟩ := (source_eq_ok_iff ho).1 htext
  constructor
  · exact fun h => (unbroken_testLine_iff o i v).1 (unbroken_of_mem_sourceLines h)
  · intro h
    refine mem_sourceLines_flatMap ?_ ((unbroken_testLine_iff o i v).2 h)
    exact List.mem_append_right _ (List.mem_cons_of_mem _ (testLine_mem_classifierLines o hv))

/-- Quotes in a row at the front of a text and one inside. -/
theorem text_tests_iff_quotes :
    let m : Matcher String := ⟨["double", "''it's"], [[0, 0, 0]], 0, []⟩
    let o : Options := ⟨"match_types", "code_of", 2⟩
    o.validate = .ok () ∧
      ComparesWith "strcmp(v, '''''it''s')".toList "v".toList "''it's".toList ∧
      ∃ text, source (τ := .text) m o = .ok text ∧
        "  elseif strcmp(value, '''''it''s')".toList ∈ sourceLines text := by
  intro m o
  have ho : o.validate = .ok () := Options.validate_eq_ok_iff.2
    (Options.invalidName?_eq_none_iff.2 ⟨by decide, by decide, by decide⟩)
  have hunbroken : Unbroken "''it's".toList := by decide
  obtain ⟨hcompares, hlines⟩ := text_tests_iff "''it's"
  obtain ⟨hexists, hline⟩ := hlines m o ho
  obtain ⟨text, htext⟩ := hexists (by decide +kernel)
  exact ⟨ho, (hcompares "v".toList).2 hunbroken, text, htext, (hline text htext 1 rfl).2 hunbroken⟩

/-- **The test of a text with a line break compares with no character vector of its value.** -/
theorem not_comparesWith_line_break :
    ¬ ComparesWith (equalityTest .text "a\nb" "x".toList) "x".toList "a\nb".toList :=
  fun h => absurd h.unbroken (by decide)

end Matlab
end SignatureAutomata
