import SignatureAutomata.Proofs.Matlab.Words

/-! # What the words of a source mean

Two names of a source are free to choose.  Whether they can be used where they are written is
told here from the words of the source (`meaning`): a word that is reserved is a keyword; any
other is a variable of its function if the function is given it or assigns it; otherwise it is a
function of the file, or else one from outside.

An identifier as such may be a reserved word, may be a variable of the function that calls the
classifier, and may hide a function from outside that the source calls
(`not_hygienic_end_state_numel`).  Options without such a name are `Hygienic`, and these are just
those under which every word of the source means what it means under the names that are the
default (`hygienic_iff_meanings_eq`).
-/

namespace SignatureAutomata
namespace Matlab

/-! ### Meanings -/

/-- The words that are part of the language. -/
def reservedWords : List String :=
  ["break", "case", "catch", "classdef", "continue", "else", "elseif", "end", "for", "function",
    "global", "if", "otherwise", "parfor", "persistent", "return", "spmd", "switch", "try", "while"]

/-- Whether a word is part of the language. -/
def isReserved (word : List Char) : Bool := (reservedWords.map String.toList).contains word

/-- What a word can stand for. -/
inductive Meaning where
  | keyword
  /-- The value of a variable. -/
  | value
  /-- The function of the file that matches. -/
  | matcher
  /-- The function of the file that turns a value into its code. -/
  | classifier
  /-- A function that the file does not have. -/
  | outside
  deriving DecidableEq

/-- **What a word stands for** in a function with given variables. -/
def meaning (o : Options) (scope : List (List Char)) (word : List Char) : Meaning :=
  if isReserved word then .keyword
  else if word ∈ scope then .value
  else if word = o.functionName.toList then .matcher
  else if word = o.classifierName.toList then .classifier
  else .outside

/-- The variables of a function: those in the brackets of its header
`function result = name(argument)`, and whatever it assigns. -/
def variablesOf (header : Mentions) (body : List Mentions) : List (List Char) :=
  header.words.drop 3 ++ (header :: body).filterMap Mentions.assigned

/-- What the words of a function stand for: its name, then those after the header. -/
def meaningsIn (o : Options) : List Mentions → List Meaning
  | [] => []
  | header :: body =>
      (header.words[2]?.map (meaning o [])).toList ++
        (body.flatMap Mentions.words).map (meaning o (variablesOf header body))

/-- **What the words of a function stand for**, the function being on lines of their own. -/
def meanings (o : Options) (lines : List (List Char)) : List Meaning :=
  meaningsIn o ((statementsOn lines).map mentions)

/-! ### Hygiene -/

/-- The variables of the function that matches. -/
def matcherVariables : List String := ["input", "table", "accepting", "state", "k", "matched"]

/-- The functions from outside that the test of a value calls. -/
def testCalls : SymbolType → List String
  | .integer type => ["isequal", type.className]
  | .text => ["strcmp"]

variable {τ : SymbolType} (m : Matcher τ.Symbol) (o : Options)

/-- The functions from outside that the source of a matcher calls. -/
def outsideCalls : List String :=
  ["logical", "numel"] ++ if m.symbols.isEmpty then [] else testCalls τ

/-- **Names that can be used where they are written.** -/
structure Hygienic : Prop where
  functionName_not_reserved : o.functionName ∉ reservedWords
  classifierName_not_reserved : o.classifierName ∉ reservedWords
  classifierName_not_variable : o.classifierName ∉ matcherVariables
  functionName_not_called : o.functionName ∉ outsideCalls m
  classifierName_not_called : o.classifierName ∉ outsideCalls m

/-! ### Words under free names -/

section Words
variable {o : Options} {scope ws : List (List Char)} {word : List Char}

theorem toList_mem_map {name : String} {names : List String} :
    name.toList ∈ names.map String.toList ↔ name ∈ names := by
  constructor
  · intro h
    obtain ⟨name', hmem, heq⟩ := List.mem_map.1 h
    rwa [← String.toList_inj.1 heq]
  · exact List.mem_map_of_mem

theorem isReserved_toList {name : String} :
    isReserved name.toList = true ↔ name ∈ reservedWords := by
  rw [isReserved, List.contains_iff_mem, toList_mem_map]

/-- The name of the function that matches, where it is declared. -/
theorem meaning_functionName :
    meaning o [] o.functionName.toList = .matcher ↔ o.functionName ∉ reservedWords := by
  rw [← isReserved_toList, meaning]
  split <;> simp [*]

/-- The name of the classifier, in a function with any variables. -/
theorem meaning_classifierName (hne : o.functionName ≠ o.classifierName) :
    meaning o scope o.classifierName.toList = .classifier ↔
      o.classifierName ∉ reservedWords ∧ o.classifierName.toList ∉ scope := by
  have hne' : o.classifierName.toList ≠ o.functionName.toList := fun h =>
    hne (String.toList_inj.1 h).symm
  rw [← isReserved_toList, meaning]
  split
  · simp [*]
  · split <;> simp [*]

/-- The words that name functions: they are neither reserved nor variables. -/
def called (scope ws : List (List Char)) : List (List Char) :=
  ws.filter fun word => !isReserved word && !scope.contains word

theorem mem_called :
    word ∈ called scope ws ↔ word ∈ ws ∧ isReserved word = false ∧ word ∉ scope := by
  simp [called]

/-- **A word of the source's own keeps its meaning** unless it names a function from outside and a
free name hides that. -/
theorem meaning_eq_default_iff (hfunction : word ≠ ({} : Options).functionName.toList)
    (hclassifier : word ≠ ({} : Options).classifierName.toList) :
    meaning o scope word = meaning {} scope word ↔
      (isReserved word = false → word ∉ scope →
        word ≠ o.functionName.toList ∧ word ≠ o.classifierName.toList) := by
  unfold meaning
  by_cases hreserved : isReserved word = true
  · simp [hreserved]
  by_cases hvariable : word ∈ scope
  · simp [hreserved, hvariable]
  simp only [hreserved, hvariable, hfunction, hclassifier]
  by_cases hf : word = o.functionName.toList
  · simp [hf]
  by_cases hc : word = o.classifierName.toList
  · have hne : o.classifierName.toList ≠ o.functionName.toList := hc ▸ hf
    simp [hne, hc]
  · simp [hf, hc]

/-- **The words of a function keep their meanings** unless a free name is called by it. -/
theorem map_meaning_eq_default_iff (hfunction : ({} : Options).functionName.toList ∉ ws)
    (hclassifier : ({} : Options).classifierName.toList ∉ ws) :
    ws.map (meaning o scope) = ws.map (meaning {} scope) ↔
      o.functionName.toList ∉ called scope ws ∧
        o.classifierName.toList ∉ called scope ws := by
  have hword : ∀ word ∈ ws, meaning o scope word = meaning {} scope word ↔
      (isReserved word = false → word ∉ scope →
        word ≠ o.functionName.toList ∧ word ≠ o.classifierName.toList) := fun word hmem =>
    meaning_eq_default_iff (fun h => hfunction (h ▸ hmem)) (fun h => hclassifier (h ▸ hmem))
  rw [List.map_inj_left]
  constructor
  · intro h
    constructor
    · intro hmem
      obtain ⟨hmem, hreserved, hvariable⟩ := mem_called.1 hmem
      exact ((hword _ hmem).1 (h _ hmem) hreserved hvariable).1 rfl
    · intro hmem
      obtain ⟨hmem, hreserved, hvariable⟩ := mem_called.1 hmem
      exact ((hword _ hmem).1 (h _ hmem) hreserved hvariable).2 rfl
  · rintro ⟨hf, hc⟩ word hmem
    refine (hword word hmem).2 fun hreserved hvariable => ⟨?_, ?_⟩
    · rintro rfl
      exact hf (mem_called.2 ⟨hmem, hreserved, hvariable⟩)
    · rintro rfl
      exact hc (mem_called.2 ⟨hmem, hreserved, hvariable⟩)

end Words

/-! ### Sources under free names -/

section Sources
variable {o : Options}

/-- The words of the function that matches in front of the classifier's name. -/
def wordsBeforeClassifier : List (List Char) :=
  ["table", "accepting", "logical", "state", "for", "k", "numel", "input", "state", "table",
    "state"].map String.toList

/-- The words of the function that matches behind the classifier's name. -/
def wordsAfterClassifier : List (List Char) :=
  ["input", "k", "end", "matched", "accepting", "state", "end"].map String.toList

/-- The variables of the function that matches, as often as they are assigned. -/
def matcherScope : List (List Char) :=
  ["input", "matched", "table", "accepting", "state", "k", "state", "matched"].map String.toList

theorem toList_mem_matcherScope {name : String} :
    name.toList ∈ matcherScope ↔ name ∈ matcherVariables := by
  have hsubset : ∀ word ∈ matcherScope, word ∈ matcherVariables.map String.toList := by decide
  have hsubset' : ∀ word ∈ matcherVariables.map String.toList, word ∈ matcherScope := by decide
  rw [← toList_mem_map]
  exact ⟨hsubset _, hsubset' _⟩

/-- **The words of the function that matches**, of which the rows have none. -/
theorem meaningsIn_matcherMentions (functionName classifierName : List Char) (rows : Nat) :
    meaningsIn o (matcherMentions functionName classifierName rows) =
      meaning o [] functionName ::
        (wordsBeforeClassifier.map (meaning o matcherScope) ++
          meaning o matcherScope classifierName ::
            wordsAfterClassifier.map (meaning o matcherScope)) := by
  have hwords : (List.replicate rows (⟨[], none⟩ : Mentions)).flatMap Mentions.words = [] :=
    List.flatMap_eq_nil_iff.2 fun mention hmention => by rw [List.eq_of_mem_replicate hmention]
  have hassigned : (List.replicate rows (⟨[], none⟩ : Mentions)).filterMap Mentions.assigned = [] :=
    List.filterMap_eq_nil_iff.2 fun mention hmention => by rw [List.eq_of_mem_replicate hmention]
  simp only [matcherMentions, List.cons_append, List.nil_append, meaningsIn, variablesOf,
    List.flatMap_cons, List.flatMap_append, List.filterMap_cons, List.filterMap_append, hwords,
    hassigned]
  rfl

theorem isWord_default :
    IsWord ({} : Options).functionName.toList ∧ IsWord ({} : Options).classifierName.toList := by
  decide

/-- **When the function that matches means what it should.** -/
theorem meanings_matcherLines_eq_iff (m : Matcher τ.Symbol)
    (hfunction : IsWord o.functionName.toList) (hclassifier : IsWord o.classifierName.toList)
    (hne : o.functionName ≠ o.classifierName) :
    meanings o (matcherLines m o) = meanings {} (matcherLines m {}) ↔
      o.functionName ∉ reservedWords ∧
        (o.functionName ∉ ["logical", "numel"] ∧ o.classifierName ∉ ["logical", "numel"]) ∧
        o.classifierName ∉ reservedWords ∧ o.classifierName ∉ matcherVariables := by
  obtain ⟨rows, hrows⟩ := mentions_matcherLines m hfunction hclassifier
  obtain ⟨rows', hrows'⟩ := mentions_matcherLines m (o := {}) isWord_default.1 isWord_default.2
  -- what is called in front of the classifier's name is from outside, behind it nothing is called
  have hbefore : wordsBeforeClassifier.map (meaning o matcherScope) =
      wordsBeforeClassifier.map (meaning {} matcherScope) ↔
      o.functionName ∉ ["logical", "numel"] ∧ o.classifierName ∉ ["logical", "numel"] := by
    have hcalled : called matcherScope wordsBeforeClassifier =
        ["logical", "numel"].map String.toList := by decide
    rw [map_meaning_eq_default_iff (by decide) (by decide), hcalled, toList_mem_map, toList_mem_map]
  have hafter : wordsAfterClassifier.map (meaning o matcherScope) =
      wordsAfterClassifier.map (meaning {} matcherScope) := by
    have hcalled : called matcherScope wordsAfterClassifier = [] := by decide
    rw [map_meaning_eq_default_iff (by decide) (by decide), hcalled]
    exact ⟨List.not_mem_nil, List.not_mem_nil⟩
  have hfunctionName : meaning {} [] ({} : Options).functionName.toList = .matcher := by decide
  have hclassifierName :
      meaning {} matcherScope ({} : Options).classifierName.toList = .classifier := by decide
  rw [meanings, meanings, hrows, hrows', meaningsIn_matcherMentions, meaningsIn_matcherMentions,
    hafter, hfunctionName, hclassifierName, List.cons.injEq, meaning_functionName,
    List.append_eq_append_iff_of_size_eq_left (by rw [List.length_map, List.length_map]), hbefore,
    List.cons.injEq, meaning_classifierName hne, toList_mem_matcherScope]
  simp only [and_true]

/-- The words of the classifier behind its header. -/
def classifierWords (τ : SymbolType) (literals : Nat) : List (List Char) :=
  ["code".toList] ++ (chainMentions τ "if".toList literals).flatMap Mentions.words
    ++ (if literals = 0 then [] else ["end".toList]) ++ ["end".toList]

/-- The variables of the classifier, as often as they are assigned. -/
def classifierScope (literals : Nat) : List (List Char) :=
  ["value".toList, "code".toList, "code".toList] ++ List.replicate literals "code".toList

theorem assigned_chainMentions (keyword : List Char) (n : Nat) :
    (chainMentions τ keyword n).filterMap Mentions.assigned = List.replicate n "code".toList := by
  induction n generalizing keyword with
  | zero => rfl
  | succ n ih => exact congrArg ("code".toList :: ·) (ih _)

/-- **The words of the classifier**, of which its name is the only free one. -/
theorem meaningsIn_classifierMentions (classifierName : List Char) (n : Nat) :
    meaningsIn o (classifierMentions τ classifierName n) =
      meaning o [] classifierName ::
        (classifierWords τ n).map (meaning o (classifierScope n)) := by
  have hends : (if n = 0 then [] else [(⟨["end".toList], none⟩ : Mentions)]).flatMap
      Mentions.words = if n = 0 then [] else ["end".toList] := by
    split <;> rfl
  have hassigned : (if n = 0 then [] else [(⟨["end".toList], none⟩ : Mentions)]).filterMap
      Mentions.assigned = [] := by
    split <;> rfl
  simp only [classifierMentions, List.cons_append, List.nil_append, meaningsIn, variablesOf,
    List.flatMap_cons, List.flatMap_append, List.filterMap_cons, List.filterMap_append, hends,
    hassigned, assigned_chainMentions, List.filterMap_nil, List.append_nil]
  rfl

/-- The words of a chain that are not reserved. -/
theorem mem_words_chainMentions {keyword word : List Char} (hkeyword : isReserved keyword = true)
    (hword : isReserved word = false) (n : Nat) :
    word ∈ (chainMentions τ keyword n).flatMap Mentions.words ↔
      n ≠ 0 ∧ (word ∈ testWords τ ∨ word = "code".toList) := by
  induction n generalizing keyword with
  | zero => exact ⟨fun h => absurd h List.not_mem_nil, fun h => absurd rfl h.1⟩
  | succ n ih =>
      have hne : word ≠ keyword := by
        rintro rfl
        rw [hkeyword] at hword
        cases hword
      rw [chainMentions, List.flatMap_cons, List.flatMap_cons, List.mem_append, List.mem_append,
        ih (by decide), List.mem_cons, List.mem_singleton]
      constructor
      · rintro ((h | h) | h | h)
        · exact absurd h hne
        · exact ⟨Nat.succ_ne_zero n, .inl h⟩
        · exact ⟨Nat.succ_ne_zero n, .inr h⟩
        · exact ⟨Nat.succ_ne_zero n, h.2⟩
      · rintro ⟨-, h | h⟩
        · exact .inl (.inr h)
        · exact .inr (.inl h)

theorem mem_classifierScope {word : List Char} {n : Nat} :
    word ∈ classifierScope n ↔ word = "value".toList ∨ word = "code".toList := by
  simp only [classifierScope, List.mem_append, List.mem_cons, List.not_mem_nil, or_false,
    List.mem_replicate]
  constructor
  · rintro ((h | h | h) | ⟨-, h⟩)
    · exact .inl h
    · exact .inr h
    · exact .inr h
    · exact .inr h
  · rintro (h | h)
    · exact .inl (.inl h)
    · exact .inl (.inr (.inl h))

theorem mem_testWords {word : List Char} :
    word ∈ testWords τ ↔ word = "value".toList ∨ word ∈ (testCalls τ).map String.toList := by
  cases τ with
  | integer type =>
      simp only [testWords, testCalls, List.map_cons, List.map_nil, List.mem_cons,
        List.not_mem_nil, or_false]
      exact or_left_comm
  | text =>
      simp only [testWords, testCalls, List.map_cons, List.map_nil, List.mem_cons,
        List.not_mem_nil, or_false]
      exact or_comm

/-- What the tests call is neither reserved nor a variable. -/
theorem testCalls_free {word : List Char} (h : word ∈ (testCalls τ).map String.toList) :
    isReserved word = false ∧ word ≠ "value".toList ∧ word ≠ "code".toList := by
  revert word
  cases τ with
  | integer type => cases type <;> decide
  | text => decide

/-- **What the classifier calls**: what its tests call, if it has any. -/
theorem mem_called_classifierWords {word : List Char} {n : Nat} :
    word ∈ called (classifierScope n) (classifierWords τ n) ↔
      n ≠ 0 ∧ word ∈ (testCalls τ).map String.toList := by
  rw [mem_called, mem_classifierScope, not_or]
  constructor
  · rintro ⟨hword, hreserved, hvalue, hcode⟩
    have hne : word ≠ "end".toList := by
      rintro rfl
      exact absurd hreserved (by decide)
    rw [classifierWords, List.mem_append, List.mem_append, List.mem_append, List.mem_singleton,
      List.mem_singleton, mem_words_chainMentions (by decide) hreserved, mem_testWords] at hword
    rcases hword with ((h | ⟨hn, (h | h) | h⟩) | h) | h
    · exact absurd h hcode
    · exact absurd h hvalue
    · exact ⟨hn, h⟩
    · exact absurd h hcode
    · split at h
      · cases h
      · exact absurd (List.mem_singleton.1 h) hne
    · exact absurd h hne
  · rintro ⟨hn, hcall⟩
    obtain ⟨hreserved, hvalue, hcode⟩ := testCalls_free hcall
    refine ⟨?_, hreserved, hvalue, hcode⟩
    rw [classifierWords, List.mem_append, List.mem_append, List.mem_append,
      mem_words_chainMentions (by decide) hreserved, mem_testWords]
    exact .inl (.inl (.inr ⟨hn, .inl (.inr hcall)⟩))

/-- A word that is neither the language's, a variable nor called is no word of a classifier. -/
theorem not_mem_classifierWords {word : List Char} (hreserved : isReserved word = false)
    (hvariable : word ∉ ["value".toList, "code".toList])
    (hcalls : word ∉ (testCalls τ).map String.toList) (n : Nat) : word ∉ classifierWords τ n := by
  intro hword
  have hscope : word ∉ classifierScope n := fun h => hvariable (by
    rw [List.mem_cons, List.mem_singleton]
    exact mem_classifierScope.1 h)
  exact hcalls (mem_called_classifierWords.1 (mem_called.2 ⟨hword, hreserved, hscope⟩)).2

/-- The names that are the default are called by no test. -/
theorem default_not_mem_testCalls (τ : SymbolType) :
    ({} : Options).functionName.toList ∉ (testCalls τ).map String.toList ∧
      ({} : Options).classifierName.toList ∉ (testCalls τ).map String.toList := by
  cases τ with
  | integer type => cases type <;> decide
  | text => decide

/-- **When the classifier means what it should.** -/
theorem meanings_classifierLines_eq_iff (m : Matcher τ.Symbol)
    (hclassifier : IsWord o.classifierName.toList) (hne : o.functionName ≠ o.classifierName) :
    meanings o (classifierLines m o) = meanings {} (classifierLines m {}) ↔
      o.classifierName ∉ reservedWords ∧
        (m.symbols ≠ [] → o.functionName ∉ testCalls τ ∧ o.classifierName ∉ testCalls τ) := by
  have hclassifierName : meaning {} [] ({} : Options).classifierName.toList = .classifier := by
    decide
  obtain ⟨hfunction, hclassifier'⟩ := default_not_mem_testCalls τ
  have hlength : m.symbols.length ≠ 0 ↔ m.symbols ≠ [] := not_congr List.length_eq_zero_iff
  rw [meanings, meanings, mentions_classifierLines m hclassifier,
    mentions_classifierLines m (o := {}) isWord_default.2, meaningsIn_classifierMentions,
    meaningsIn_classifierMentions, hclassifierName, List.cons.injEq, meaning_classifierName hne,
    map_meaning_eq_default_iff (not_mem_classifierWords (by decide) (by decide) hfunction _)
      (not_mem_classifierWords (by decide) (by decide) hclassifier' _),
    mem_called_classifierWords, mem_called_classifierWords, toList_mem_map, toList_mem_map, hlength]
  constructor
  · rintro ⟨⟨hreserved, -⟩, hf, hc⟩
    exact ⟨hreserved, fun hsymbols => ⟨fun h => hf ⟨hsymbols, h⟩, fun h => hc ⟨hsymbols, h⟩⟩⟩
  · rintro ⟨hreserved, h⟩
    exact ⟨⟨hreserved, List.not_mem_nil⟩, fun hf => (h hf.1).1 hf.2, fun hc => (h hc.1).2 hc.2⟩

theorem not_mem_outsideCalls {m : Matcher τ.Symbol} {name : String} :
    name ∉ outsideCalls m ↔
      name ∉ ["logical", "numel"] ∧ (m.symbols ≠ [] → name ∉ testCalls τ) := by
  unfold outsideCalls
  rw [List.mem_append, not_or]
  cases m.symbols with
  | nil => simp
  | cons v vs => simp

/-- **Options are hygienic just if every word of the source means what it means under the names
that are the default**: the keywords and variables are the same, the loop calls the classifier of
the file, and what is called from outside is not hidden by a function of the file. -/
theorem hygienic_iff_meanings_eq (m : Matcher τ.Symbol) (o : Options) (ho : o.validate = .ok ()) :
    Hygienic m o ↔
      meanings o (matcherLines m o) = meanings {} (matcherLines m {}) ∧
        meanings o (classifierLines m o) = meanings {} (classifierLines m {}) := by
  obtain ⟨hfunction, hclassifier, hne⟩ :=
    Options.invalidName?_eq_none_iff.1 (Options.validate_eq_ok_iff.1 ho)
  rw [meanings_matcherLines_eq_iff m (isWord_name hfunction) (isWord_name hclassifier) hne,
    meanings_classifierLines_eq_iff m (isWord_name hclassifier) hne]
  constructor
  · intro h
    obtain ⟨hf, hftests⟩ := not_mem_outsideCalls.1 h.functionName_not_called
    obtain ⟨hc, hctests⟩ := not_mem_outsideCalls.1 h.classifierName_not_called
    exact ⟨⟨h.functionName_not_reserved, ⟨hf, hc⟩, h.classifierName_not_reserved,
      h.classifierName_not_variable⟩, h.classifierName_not_reserved,
      fun hsymbols => ⟨hftests hsymbols, hctests hsymbols⟩⟩
  · rintro ⟨⟨hreserved, ⟨hf, hc⟩, hreserved', hvariable⟩, -, htests⟩
    exact ⟨hreserved, hreserved', hvariable,
      not_mem_outsideCalls.2 ⟨hf, fun hsymbols => (htests hsymbols).1⟩,
      not_mem_outsideCalls.2 ⟨hc, fun hsymbols => (htests hsymbols).2⟩⟩

/-- The matcher may be named after one of its variables, the classifier may not. -/
theorem hygienic_iff_meanings_eq_state :
    let m : Matcher (SymbolType.integer .int64).Symbol :=
      ⟨[⟨5, by decide⟩], [[1, 2], [1, 1], [1, 1]], 0, [2]⟩
    let o : Options := ⟨"state", "classify_symbol", 4⟩
    let o' : Options := ⟨"match_signature", "state", 4⟩
    (o.validate = .ok () ∧ meanings o (matcherLines m o) = meanings {} (matcherLines m {})) ∧
      (o'.validate = .ok () ∧
        ¬ (meanings o' (matcherLines m o') = meanings {} (matcherLines m {}) ∧
          meanings o' (classifierLines m o') = meanings {} (classifierLines m {}))) := by
  intro m o o'
  have ho : o.validate = .ok () := Options.validate_eq_ok_iff.2
    (Options.invalidName?_eq_none_iff.2 ⟨by decide, by decide, by decide⟩)
  have ho' : o'.validate = .ok () := Options.validate_eq_ok_iff.2
    (Options.invalidName?_eq_none_iff.2 ⟨by decide, by decide, by decide⟩)
  have hhygienic : Hygienic m o :=
    ⟨by decide, by decide, by decide, by decide, by decide⟩
  refine ⟨⟨ho, ((hygienic_iff_meanings_eq m o ho).1 hhygienic).1⟩, ho', fun hmeanings => ?_⟩
  exact ((hygienic_iff_meanings_eq m o' ho').2 hmeanings).classifierName_not_variable (by decide)

/-- **Options that are allowed need not be hygienic**: a name may be reserved, that of the
classifier may be a variable, and that of the matcher may hide a function that the source calls. -/
theorem not_hygienic_end_state_numel :
    let m : Matcher (SymbolType.integer .int64).Symbol :=
      ⟨[⟨5, by decide⟩], [[1, 2], [1, 1], [1, 1]], 0, [2]⟩
    let reserved : Options := ⟨"end", "classify_symbol", 4⟩
    let assigned : Options := ⟨"match_signature", "state", 4⟩
    let shadowing : Options := ⟨"numel", "classify_symbol", 4⟩
    (∀ o ∈ [reserved, assigned, shadowing], o.validate = .ok ()) ∧
      ¬ Hygienic m reserved ∧ ¬ Hygienic m assigned ∧ ¬ Hygienic m shadowing := by
  intro m reserved assigned shadowing
  have hvalid : ∀ o ∈ [reserved, assigned, shadowing], o.invalidName? = none := by decide
  exact ⟨fun o ho => Options.validate_eq_ok_iff.2 (hvalid o ho),
    fun h => h.functionName_not_reserved (by decide),
    fun h => h.classifierName_not_variable (by decide),
    fun h => h.functionName_not_called (by decide)⟩

end Sources

end Matlab
end SignatureAutomata
