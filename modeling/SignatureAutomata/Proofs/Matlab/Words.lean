import SignatureAutomata.Proofs.Matlab.Source

/-! # The words of a source

The words of a statement are its runs of letters, digits and underscores that begin with a
letter, texts in quotes being passed over; the variable that it assigns is the last word in
front of the equals sign (`mentions`).

What the two functions of a source mention is computed once, for any matcher and any two names
(`mentions_matcherLines`, `mentions_classifierLines`).  No numeral, no literal and no indentation
adds a word, however long the table is and whatever the literals are: a statement is taken apart
at characters that no word has (`words_append_cons`), and of a text in quotes nothing is left but
its quotes (`exists_unquoted_quote`).
-/

namespace SignatureAutomata
namespace Matlab

/-! ### Words -/

/-- Whether a character may stand in a word. -/
def isWordCharacter (c : Char) : Bool := c.isAlphanum || c = '_'

/-- A line without what stands between quotes.  Of a doubled quote the first ends a text and the
second begins another. -/
def unquoted (inside : Bool) : List Char → List Char
  | [] => []
  | c :: cs =>
      if c = '\'' then c :: unquoted (!inside) cs
      else if inside then unquoted inside cs
      else c :: unquoted inside cs

/-- The words of a text without quotes. -/
def words (s : List Char) : List (List Char) :=
  (s.splitOnP fun c => !isWordCharacter c).filter fun word => word.head?.any Char.isAlpha

/-- The variable that a statement assigns: the last word in front of the equals sign. -/
def assigned? (s : List Char) : Option (List Char) :=
  if s.contains '=' then (words (s.takeWhile (· ≠ '='))).getLast? else none

/-- The words of a statement and the variable it assigns. -/
structure Mentions where
  words : List (List Char)
  assigned : Option (List Char)
  deriving DecidableEq

/-- **What a statement mentions.** -/
def mentions (statement : List Char) : Mentions :=
  ⟨words (unquoted false statement), assigned? (unquoted false statement)⟩

/-! ### Words of pieces of text -/

section Pieces
variable {s t word : List Char}

/-- **Words end at a character that no word has.** -/
theorem words_append_cons {c : Char} (hc : isWordCharacter c = false) (s t : List Char) :
    words (s ++ c :: t) = words s ++ words t := by
  unfold words
  rw [List.splitOnP_append_cons s t (by rw [hc]; rfl), List.filter_append]

/-- A piece between breaks has no other characters than the text. -/
theorem mem_of_mem_splitOnP {p : Char → Bool} {piece : List Char} {c : Char}
    (h : piece ∈ s.splitOnP p) (hc : c ∈ piece) : c ∈ s := by
  induction s generalizing piece with
  | nil =>
      rw [List.splitOnP_nil, List.mem_singleton] at h
      rwa [h] at hc
  | cons d s ih =>
      rw [List.splitOnP_cons_eq_if_modifyHead] at h
      split at h
      · rcases List.mem_cons.1 h with rfl | h
        · cases hc
        · exact List.mem_cons_of_mem d (ih h hc)
      · cases hsplit : s.splitOnP p with
        | nil => exact absurd hsplit (List.splitOnP_ne_nil p s)
        | cons first rest =>
            rw [hsplit, List.modifyHead_cons] at h
            rw [hsplit] at ih
            rcases List.mem_cons.1 h with rfl | h
            · rcases List.mem_cons.1 hc with rfl | hc
              · exact List.mem_cons_self ..
              · exact List.mem_cons_of_mem d (ih (List.mem_cons_self ..) hc)
            · exact List.mem_cons_of_mem d (ih (List.mem_cons_of_mem first h) hc)

/-- A text without letters has no words. -/
theorem words_eq_nil (h : ∀ c ∈ s, c.isAlpha = false) : words s = [] := by
  refine List.filter_eq_nil_iff.2 fun piece hpiece => ?_
  cases piece with
  | nil => exact Bool.false_ne_true
  | cons c cs =>
      have hc : c ∈ s := mem_of_mem_splitOnP hpiece (List.mem_cons_self ..)
      rw [List.head?_cons, Option.any_some, h c hc]
      exact Bool.false_ne_true

/-- A word: a letter, then characters that may stand in a word. -/
def IsWord (s : List Char) : Prop :=
  s.head?.any Char.isAlpha = true ∧ s.all isWordCharacter = true

instance instDecidableIsWord (s : List Char) : Decidable (IsWord s) :=
  inferInstanceAs (Decidable (_ ∧ _))

theorem IsWord.isWordCharacter_of_mem {c : Char} (h : IsWord word) (hc : c ∈ word) :
    isWordCharacter c = true := List.all_eq_true.1 h.2 c hc

theorem IsWord.words_eq (h : IsWord word) : words word = [word] := by
  unfold words
  rw [List.splitOnP_eq_singleton fun c hc => by rw [h.isWordCharacter_of_mem hc]; rfl]
  exact List.filter_cons_of_pos h.1

/-- The word in front of a break. -/
theorem IsWord.words_append_cons {c : Char} (h : IsWord word) (hc : isWordCharacter c = false)
    (t : List Char) : words (word ++ c :: t) = word :: words t := by
  rw [Matlab.words_append_cons hc, h.words_eq, List.singleton_append]

theorem IsWord.quote_not_mem (h : IsWord word) : '\'' ∉ word :=
  fun hmem => absurd (h.isWordCharacter_of_mem hmem) (by decide)

theorem IsWord.equals_not_mem (h : IsWord word) : '=' ∉ word :=
  fun hmem => absurd (h.isWordCharacter_of_mem hmem) (by decide)

/-- **A name is a word.** -/
theorem isWord_name {name : String} (h : isIdentifier name = true) : IsWord name.toList := by
  unfold isIdentifier at h
  split at h
  · cases h
  · rename_i c cs hname
    simp only [Bool.and_eq_true, List.all_eq_true] at h
    obtain ⟨⟨hletter, hrest⟩, -⟩ := h
    rw [hname]
    refine ⟨hletter, List.all_eq_true.2 (List.forall_mem_cons.2 ⟨?_, hrest⟩)⟩
    rw [isWordCharacter, Char.isAlphanum, hletter]
    rfl

/-- What stands in front of the first quote is left as it is. -/
theorem unquoted_append (h : '\'' ∉ s) (t : List Char) :
    unquoted false (s ++ t) = s ++ unquoted false t := by
  induction s with
  | nil => rfl
  | cons c s ih =>
      rw [List.mem_cons, not_or] at h
      rw [List.cons_append, unquoted, if_neg (Ne.symm h.1), if_neg Bool.false_ne_true, ih h.2,
        List.cons_append]

theorem unquoted_eq_self (h : '\'' ∉ s) : unquoted false s = s := by
  have happend := unquoted_append h []
  rwa [List.append_nil, unquoted, List.append_nil] at happend

/-- **Of a text in quotes only quotes are left.** -/
theorem exists_unquoted_quote (v t : List Char) :
    ∃ n, unquoted false (quote v ++ t) = List.replicate n '\'' ++ unquoted false t := by
  have inside : ∃ n, unquoted true
      (v.flatMap (fun c => if c = '\'' then ['\'', '\''] else [c]) ++ '\'' :: t) =
      List.replicate n '\'' ++ unquoted false t := by
    induction v with
    | nil => exact ⟨1, rfl⟩
    | cons c v ih =>
        obtain ⟨n, hn⟩ := ih
        rw [List.flatMap_cons, List.append_assoc]
        by_cases hc : c = '\''
        · refine ⟨n + 2, ?_⟩
          rw [if_pos hc, List.replicate_succ, List.replicate_succ, List.cons_append,
            List.cons_append, List.cons_append, List.cons_append, ← hn]
          rfl
        · refine ⟨n, ?_⟩
          rw [if_neg hc, List.singleton_append, unquoted, if_neg hc, if_pos rfl, hn]
  obtain ⟨n, hn⟩ := inside
  refine ⟨n + 1, ?_⟩
  rw [List.replicate_succ, List.cons_append, ← hn, quote, List.cons_append, List.cons_append,
    List.append_assoc]
  rfl

theorem mentions_eq_of_not_mem (h : '\'' ∉ s) : mentions s = ⟨words s, assigned? s⟩ := by
  rw [mentions, unquoted_eq_self h]

theorem assigned?_eq_none (h : '=' ∉ s) : assigned? s = none := by
  rw [assigned?, List.contains_eq_mem, decide_eq_false h]
  rfl

/-- No digit is a letter: every letter stands behind the digits. -/
theorem isAlpha_eq_false_of_isDigit {c : Char} (h : c.isDigit = true) : c.isAlpha = false := by
  have hle : c.toNat ≤ 57 := (Char.isDigit_iff_toNat.1 h).2
  have hupper : c.isUpper = false := decide_eq_false fun hc => by
    have hge : 65 ≤ c.toNat := hc.1
    omega
  have hlower : c.isLower = false := Bool.eq_false_iff.2 fun hc => by
    have hge : 97 ≤ c.toNat := of_decide_eq_true (Bool.and_eq_true_iff.1 hc).1
    omega
  show (c.isUpper || c.isLower) = false
  rw [hupper, hlower]
  rfl

/-- Digits, spaces and minus signs. -/
def IsNumeric (s : List Char) : Prop := ∀ c ∈ s, c.isDigit = true ∨ c = ' ' ∨ c = '-'

theorem isNumeric_digits (n : Nat) : IsNumeric (Decimal.digits n) :=
  fun _ hc => .inl (Decimal.isDigit_of_mem_digits hc)

theorem isNumeric_ofInt (n : Int) : IsNumeric (Decimal.ofInt n) := by
  unfold Decimal.ofInt
  split
  · exact List.forall_mem_cons.2 ⟨.inr (.inr rfl), isNumeric_digits _⟩
  · exact isNumeric_digits _

theorem isNumeric_numbers (ns : List Nat) : IsNumeric (numbers ns) := by
  cases ns with
  | nil => exact List.forall_mem_nil _
  | cons n ns =>
      rw [numbers_cons]
      refine List.forall_mem_append.2 ⟨isNumeric_digits n, fun c hc => ?_⟩
      obtain ⟨k, -, hk⟩ := List.mem_flatMap.1 hc
      rcases List.mem_cons.1 hk with rfl | hk
      · exact .inr (.inl rfl)
      · exact isNumeric_digits k c hk

theorem IsNumeric.not_mem {c : Char} (h : IsNumeric s)
    (hc : ¬ (c.isDigit = true ∨ c = ' ' ∨ c = '-')) : c ∉ s :=
  fun hmem => hc (h c hmem)

theorem IsNumeric.words_eq_nil (h : IsNumeric s) : words s = [] := by
  refine Matlab.words_eq_nil fun c hc => ?_
  rcases h c hc with hdigit | rfl | rfl
  · exact isAlpha_eq_false_of_isDigit hdigit
  · rfl
  · rfl

theorem IsNumeric.mentions_eq (h : IsNumeric s) : mentions s = ⟨[], none⟩ := by
  rw [mentions_eq_of_not_mem (h.not_mem (by decide)), h.words_eq_nil,
    assigned?_eq_none (h.not_mem (by decide))]

/-- **A statement taken apart** at a character that no word has and that is not a quote. -/
theorem words_mentions_append_cons {c : Char} (hs : '\'' ∉ s) (hc : isWordCharacter c = false)
    (hquote : c ≠ '\'') (t : List Char) :
    (mentions (s ++ c :: t)).words = words s ++ (mentions t).words := by
  show words (unquoted false (s ++ c :: t)) = words s ++ words (unquoted false t)
  rw [unquoted_append hs, unquoted, if_neg hquote, if_neg Bool.false_ne_true, words_append_cons hc]

/-- A name adds one word. -/
theorem IsWord.words_mentions {c : Char} (h : IsWord word) (hc : isWordCharacter c = false)
    (hquote : c ≠ '\'') (t : List Char) :
    (mentions (word ++ c :: t)).words = word :: (mentions t).words := by
  rw [words_mentions_append_cons h.quote_not_mem hc hquote, h.words_eq, List.singleton_append]

/-- **A numeral adds no words.** -/
theorem IsNumeric.words_mentions {c : Char} (h : IsNumeric s) (hc : isWordCharacter c = false)
    (hquote : c ≠ '\'') (t : List Char) :
    (mentions (s ++ c :: t)).words = (mentions t).words := by
  rw [words_mentions_append_cons (h.not_mem (by decide)) hc hquote, h.words_eq_nil,
    List.nil_append]

/-- Nothing after an equals sign changes what is assigned. -/
theorem assigned?_append {v : List Char} (h : assigned? s = some v) (t : List Char) :
    assigned? (s ++ t) = some v := by
  unfold assigned? at h ⊢
  split at h
  · rename_i hequals
    have hmem : '=' ∈ s := List.contains_iff_mem.1 hequals
    have hmem' : '=' ∈ s ++ t := List.mem_append_left t hmem
    have hlength : (s.takeWhile (· ≠ '=')).length ≠ s.length := fun hlength => by
      have hself := (List.takeWhile_prefix (· ≠ '=')).eq_of_length hlength
      rw [← hself] at hmem
      exact absurd (List.all_eq_true.1 List.all_takeWhile _ hmem) (by decide)
    rw [if_pos (List.contains_iff_mem.2 hmem'), List.takeWhile_append, if_neg hlength, h]
  · cases h

/-- **A statement that assigns**, taken apart behind the equals sign. -/
theorem mentions_append {ws : List (List Char)} {v : List Char} (h : mentions s = ⟨ws, some v⟩)
    (hs : '\'' ∉ s) (hbreak : s.getLast?.any (fun c => !isWordCharacter c) = true)
    (t : List Char) : mentions (s ++ t) = ⟨ws ++ (mentions t).words, some v⟩ := by
  have hassigned : (mentions (s ++ t)).assigned = some v := by
    rw [mentions_eq_of_not_mem hs, Mentions.mk.injEq] at h
    show assigned? (unquoted false (s ++ t)) = some v
    rw [unquoted_append hs]
    exact assigned?_append h.2 _
  have hwords : (mentions (s ++ t)).words = ws ++ (mentions t).words := by
    rw [mentions_eq_of_not_mem hs, Mentions.mk.injEq] at h
    obtain ⟨c, hlast, hc⟩ := (Option.any_eq_true _ _).1 hbreak
    obtain ⟨front, rfl⟩ := List.getLast?_eq_some_iff.1 hlast
    rw [Bool.not_eq_true'] at hc
    rw [List.mem_append, not_or, List.mem_singleton] at hs
    rw [List.append_assoc, List.singleton_append,
      words_mentions_append_cons hs.1 hc (Ne.symm hs.2), ← h.1, words_append_cons hc]
    exact congrArg (· ++ _) (List.append_nil _).symm
  rw [← hwords, ← hassigned]

end Pieces

/-! ### Words of statements -/

section Statements
variable {τ : SymbolType} {pad keyword : List Char}

/-- The words in the test of a value, after the keyword. -/
def testWords : SymbolType → List (List Char)
  | .integer type => ["isequal".toList, "value".toList, type.className.toList]
  | .text => ["strcmp".toList, "value".toList]

theorem isWord_className (type : IntegerType) : IsWord type.className.toList := by
  cases type <;> decide

theorem mentions_integerTest (hkeyword : IsWord keyword) {type : IntegerType} (v : type.Value) :
    mentions (keyword ++ ' ' :: equalityTest (.integer type) v "value".toList) =
      ⟨keyword :: testWords (.integer type), none⟩ := by
  have hname := isWord_className type
  have hnumeral := isNumeric_ofInt v.val
  have hquote : '\'' ∉ keyword ++ ' ' :: equalityTest (.integer type) v "value".toList := by
    simp [equalityTest_integer, hkeyword.quote_not_mem, hname.quote_not_mem, hnumeral.not_mem]
  have hequals : '=' ∉ keyword ++ ' ' :: equalityTest (.integer type) v "value".toList := by
    simp [equalityTest_integer, hkeyword.equals_not_mem, hname.equals_not_mem, hnumeral.not_mem]
  have htest : equalityTest (.integer type) v "value".toList =
      "isequal(value,".toList ++ ' ' :: (type.className.toList ++ '(' ::
        (Decimal.ofInt v.val ++ [')', ')'])) := by
    rw [equalityTest_integer]
    simp only [List.append_assoc, List.cons_append]
    rfl
  rw [mentions_eq_of_not_mem hquote, assigned?_eq_none hequals, hkeyword.words_append_cons rfl,
    htest, words_append_cons rfl, hname.words_append_cons rfl, words_append_cons rfl,
    hnumeral.words_eq_nil]
  rfl

theorem mentions_textTest (hkeyword : IsWord keyword) (v : String) :
    mentions (keyword ++ ' ' :: equalityTest .text v "value".toList) =
      ⟨keyword :: testWords .text, none⟩ := by
  obtain ⟨n, hn⟩ := exists_unquoted_quote v.toList [')']
  have hquote : '\'' ∉ keyword ++ " strcmp(value, ".toList := by
    simp [hkeyword.quote_not_mem]
  have htest : keyword ++ ' ' :: equalityTest .text v "value".toList =
      keyword ++ " strcmp(value, ".toList ++ (quote v.toList ++ [')']) := by
    unfold equalityTest
    simp only [List.append_assoc]
    rfl
  have hunquoted : unquoted false (keyword ++ ' ' :: equalityTest .text v "value".toList) =
      keyword ++ ' ' :: ("strcmp(value,".toList ++ ' ' :: (List.replicate n '\'' ++ [')'])) := by
    rw [htest, unquoted_append hquote, hn, List.append_assoc]
    rfl
  -- an equals sign in the text is gone with it
  have hequals : '=' ∉ keyword ++ ' ' :: ("strcmp(value,".toList ++ ' ' ::
      (List.replicate n '\'' ++ [')'])) := by
    simp [hkeyword.equals_not_mem, List.mem_replicate]
  have hquotes : ∀ c ∈ List.replicate n '\'' ++ [')'], c.isAlpha = false := by
    intro c hc
    rcases List.mem_append.1 hc with hc | hc
    · rw [List.eq_of_mem_replicate hc]
      rfl
    · rw [List.mem_singleton.1 hc]
      rfl
  rw [mentions, hunquoted, assigned?_eq_none hequals, hkeyword.words_append_cons rfl,
    words_append_cons rfl, words_eq_nil hquotes]
  rfl

/-- **The value in a test adds no words**, be it a numeral or a text. -/
theorem mentions_test (hkeyword : IsWord keyword) (v : τ.Symbol) :
    mentions (keyword ++ ' ' :: equalityTest τ v "value".toList) =
      ⟨keyword :: testWords τ, none⟩ := by
  cases τ with
  | integer type => exact mentions_integerTest hkeyword v
  | text => exact mentions_textTest hkeyword v

/-- What an assignment of a numeral mentions. -/
theorem mentions_numeral {front v : List Char} (n : Nat) (hfront : mentions front = ⟨[v], some v⟩)
    (hquote : '\'' ∉ front) (hbreak : front.getLast?.any (fun c => !isWordCharacter c) = true) :
    mentions (front ++ Decimal.digits n ++ [';']) = ⟨[v], some v⟩ := by
  rw [List.append_assoc, mentions_append hfront hquote hbreak,
    (isNumeric_digits n).words_mentions rfl (by decide)]
  rfl

theorem mentions_codeStatement (code : Nat) :
    mentions (codeStatement code) = ⟨["code".toList], some "code".toList⟩ :=
  mentions_numeral code (by decide) (by decide) rfl

/-- What the statements of a chain of tests mention. -/
def chainMentions (τ : SymbolType) (keyword : List Char) : (tests : Nat) → List Mentions
  | 0 => []
  | n + 1 =>
      ⟨keyword :: testWords τ, none⟩ :: ⟨["code".toList], some "code".toList⟩ ::
        chainMentions τ "elseif".toList n

/-- **A chain mentions the same whatever its values are.** -/
theorem mentions_branches (hpad : ∀ c ∈ pad, c = ' ') (hkeyword : IsWord keyword) (code : Nat)
    (vs : List τ.Symbol) :
    (statementsOn (branches pad keyword code vs)).map mentions =
      chainMentions τ keyword vs.length := by
  induction vs generalizing keyword code with
  | nil => rfl
  | cons v vs ih =>
      obtain ⟨c, hhead, hletter⟩ := (Option.any_eq_true _ _).1 hkeyword.1
      have hspace : c ≠ ' ' := by
        rintro rfl
        cases hletter
      have hcomment : c ≠ '%' := by
        rintro rfl
        cases hletter
      rw [statementsOn_branches_eq hpad hhead hspace hcomment, List.map_cons, List.map_cons,
        mentions_test hkeyword, mentions_codeStatement, ih (by decide)]
      rfl

/-- Rows of numbers mention nothing. -/
theorem exists_mentions_rows (hpad : ∀ c ∈ pad, c = ' ') (table : List (List Nat)) :
    ∃ rows, (statementsOn (table.map fun row => pad ++ numbers (row.map (· + 1)))).map mentions =
      List.replicate rows ⟨[], none⟩ := by
  refine ⟨_, List.eq_replicate_of_mem fun mention hmention => ?_⟩
  obtain ⟨statement, hstatement, rfl⟩ := List.mem_map.1 hmention
  obtain ⟨line, hline, rfl⟩ := List.mem_map.1 (List.mem_filter.1 hstatement).1
  obtain ⟨row, -, rfl⟩ := List.mem_map.1 hline
  have hnumeric : IsNumeric (unindented (numbers (row.map (· + 1)))) := fun c hc =>
    isNumeric_numbers _ c ((List.dropWhile_sublist _).subset hc)
  rw [unindented_append hpad]
  exact hnumeric.mentions_eq

/-- What the function that matches mentions. -/
def matcherMentions (functionName classifierName : List Char) (rows : Nat) : List Mentions :=
  [⟨["function".toList, "matched".toList, functionName, "input".toList], some "matched".toList⟩,
    ⟨["table".toList], some "table".toList⟩]
  ++ List.replicate rows ⟨[], none⟩
  ++ [⟨[], none⟩, ⟨["accepting".toList, "logical".toList], some "accepting".toList⟩,
    ⟨["state".toList], some "state".toList⟩,
    ⟨["for".toList, "k".toList, "numel".toList, "input".toList], some "k".toList⟩,
    ⟨["state".toList, "table".toList, "state".toList, classifierName, "input".toList, "k".toList],
      some "state".toList⟩,
    ⟨["end".toList], none⟩,
    ⟨["matched".toList, "accepting".toList, "state".toList], some "matched".toList⟩,
    ⟨["end".toList], none⟩]

/-- What the function that turns a value into its code mentions. -/
def classifierMentions (τ : SymbolType) (classifierName : List Char) (literals : Nat) :
    List Mentions :=
  [⟨["function".toList, "code".toList, classifierName, "value".toList], some "code".toList⟩,
    ⟨["code".toList], some "code".toList⟩]
  ++ chainMentions τ "if".toList literals
  ++ (if literals = 0 then [] else [⟨["end".toList], none⟩])
  ++ [⟨["end".toList], none⟩]

/-- What an assignment mentions in which a name stands in front of a bracket. -/
theorem mentions_before_bracket {front name v : List Char} {ws : List (List Char)}
    (hfront : mentions front = ⟨ws, some v⟩) (hquote : '\'' ∉ front)
    (hbreak : front.getLast?.any (fun c => !isWordCharacter c) = true) (hname : IsWord name)
    (back : List Char) :
    mentions (front ++ name ++ '(' :: back) = ⟨ws ++ name :: (mentions back).words, some v⟩ := by
  rw [List.append_assoc, mentions_append hfront hquote hbreak,
    hname.words_mentions rfl (by decide)]

theorem mentions_matcherHeader {name : List Char} (hname : IsWord name) :
    mentions ("function matched = ".toList ++ name ++ "(input)".toList) =
      ⟨["function".toList, "matched".toList, name, "input".toList], some "matched".toList⟩ := by
  have hfront : mentions "function matched = ".toList =
      ⟨["function".toList, "matched".toList], some "matched".toList⟩ := by decide
  exact mentions_before_bracket hfront (by decide) rfl hname "input)".toList

theorem mentions_classifierHeader {name : List Char} (hname : IsWord name) :
    mentions ("function code = ".toList ++ name ++ "(value)".toList) =
      ⟨["function".toList, "code".toList, name, "value".toList], some "code".toList⟩ := by
  have hfront : mentions "function code = ".toList =
      ⟨["function".toList, "code".toList], some "code".toList⟩ := by decide
  exact mentions_before_bracket hfront (by decide) rfl hname "value)".toList

/-- The flags add no words. -/
theorem mentions_flags (flags : List Nat) :
    mentions ("accepting = logical([".toList ++ numbers flags ++ "]);".toList) =
      ⟨["accepting".toList, "logical".toList], some "accepting".toList⟩ := by
  have hfront : mentions "accepting = logical([".toList =
      ⟨["accepting".toList, "logical".toList], some "accepting".toList⟩ := by decide
  have hback : (mentions (numbers flags ++ "]);".toList)).words = [] :=
    (isNumeric_numbers flags).words_mentions (c := ']') rfl (by decide) ");".toList
  rw [List.append_assoc, mentions_append hfront (by decide) rfl, hback]
  rfl

/-- The step of the loop, whichever way an element is written. -/
theorem mentions_step (τ : SymbolType) {name : List Char} (hname : IsWord name) :
    mentions ("state = table(state, ".toList ++ name ++ '(' ::
      element τ "input".toList ['k'] ++ "));".toList) =
      ⟨["state".toList, "table".toList, "state".toList, name, "input".toList, "k".toList],
        some "state".toList⟩ := by
  have hfront : mentions "state = table(state, ".toList =
      ⟨["state".toList, "table".toList, "state".toList], some "state".toList⟩ := by decide
  have hback : (mentions (element τ "input".toList ['k'] ++ "));".toList)).words =
      ["input".toList, "k".toList] := by cases τ <;> rfl
  rw [List.append_assoc _ (_ :: _), List.cons_append,
    mentions_before_bracket hfront (by decide) rfl hname, hback]
  rfl

/-- **What the function that matches mentions**, for any matcher. -/
theorem mentions_matcherLines (m : Matcher τ.Symbol) {o : Options}
    (hfunction : IsWord o.functionName.toList) (hclassifier : IsWord o.classifierName.toList) :
    ∃ rows, (statementsOn (matcherLines m o)).map mentions =
      matcherMentions o.functionName.toList o.classifierName.toList rows := by
  have hpads : ∀ c ∈ o.pad ++ o.pad, c = ' ' :=
    List.forall_mem_append.2 ⟨pad_eq_space o, pad_eq_space o⟩
  have hstart : ∀ start, mentions ("state = ".toList ++ Decimal.digits start ++ [';']) =
      ⟨["state".toList], some "state".toList⟩ :=
    fun start => mentions_numeral start (by decide) (by decide) rfl
  -- the other statements are the same for every matcher
  have htable : mentions "table = [".toList = ⟨["table".toList], some "table".toList⟩ := by decide
  have hclosing : mentions "];".toList = ⟨[], none⟩ := by decide
  have hloop : mentions "for k = 1:numel(input)".toList =
      ⟨["for".toList, "k".toList, "numel".toList, "input".toList], some "k".toList⟩ := by decide
  have hend : mentions "end".toList = ⟨["end".toList], none⟩ := by decide
  have hverdict : mentions "matched = accepting(state);".toList =
      ⟨["matched".toList, "accepting".toList, "state".toList], some "matched".toList⟩ := by decide
  obtain ⟨rows, hrows⟩ := exists_mentions_rows hpads m.table
  refine ⟨rows, ?_⟩
  simp only [statementsOn_matcherLines_eq, List.map_append, List.map_cons, List.map_nil,
    mentions_matcherHeader hfunction, htable, hrows, hclosing, mentions_flags, hstart, hloop,
    mentions_step τ hclassifier, hend, hverdict]
  rfl

/-- **What the function that turns a value into its code mentions**, for any matcher. -/
theorem mentions_classifierLines (m : Matcher τ.Symbol) {o : Options}
    (hclassifier : IsWord o.classifierName.toList) :
    (statementsOn (classifierLines m o)).map mentions =
      classifierMentions τ o.classifierName.toList m.symbols.length := by
  have hend : mentions "end".toList = ⟨["end".toList], none⟩ := by decide
  have hends : (if m.symbols.isEmpty then [] else ["end".toList]).map mentions =
      if m.symbols.length = 0 then [] else [⟨["end".toList], none⟩] := by
    cases m.symbols with
    | nil => rfl
    | cons v vs => exact congrArg (· :: []) hend
  simp only [statementsOn_classifierLines_eq, List.map_append, List.map_cons, List.map_nil,
    mentions_classifierHeader hclassifier, mentions_codeStatement,
    mentions_branches (pad_eq_space o) (by decide : IsWord "if".toList), hends, hend]
  rfl

end Statements

end Matlab
end SignatureAutomata
