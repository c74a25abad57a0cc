import SignatureAutomata.Proofs.Signature.Text

/-! # What is shown reads back

The positions of a signature are shown between parentheses, with a comma and a space between them.
Over integers no position has a comma in its text, and none has an empty text.  So cutting what
stands between the parentheses at the separators gives the texts of the positions
(`shownPositions?_text`), and each of these is a form that its position is read from
(`Token.form_text`).

Over texts every text is read: what trimming leaves of it is the star, the two dots or a literal
(`Token.parse_text`).  A position that was read is therefore shown as a text that trimming leaves
alone.  A literal made in another way may have blanks at its ends, or be a star or two dots, and
what is shown for it then stands for another position (`Token.parse_text_eq_literal_iff`).
-/

namespace SignatureAutomata

/-! ### Taking apart what is shown -/

/-- What stands between a parenthesis that opens a text and one that ends it. -/
def unparenthesized? : List Char → Option (List Char)
  | '(' :: rest => if rest.getLast? = some ')' then some rest.dropLast else none
  | _ => none

/-- **A text cut at every comma that a space follows.** -/
def cut : List Char → List (List Char)
  | [] => [[]]
  | ',' :: ' ' :: rest => [] :: cut rest
  | c :: rest => (cut rest).modifyHead (c :: ·)

/-- **The texts of the positions of a signature as it is shown.**  There are none if nothing stands
between the parentheses. -/
def shownPositions? (shown : List Char) : Option (List (List Char)) :=
  (unparenthesized? shown).map fun inside => if inside = [] then [] else cut inside

theorem unparenthesized?_parenthesized (inside : List Char) :
    unparenthesized? ('(' :: inside ++ [')']) = some inside := by
  rw [List.cons_append, unparenthesized?, List.getLast?_concat, if_pos rfl, List.dropLast_concat]

/-- Nothing is cut ahead of the first comma. -/
theorem cut_append {piece : List Char} (h : ',' ∉ piece) (rest : List Char) :
    cut (piece ++ rest) = (cut rest).modifyHead (piece ++ ·) := by
  induction piece with
  | nil => exact (congrFun List.modifyHead_id _).symm
  | cons c piece ih =>
      obtain ⟨hc, hpiece⟩ := not_or.1 (mt List.mem_cons.2 h)
      rw [List.cons_append, cut, ih hpiece, List.modifyHead_modifyHead]
      · rfl
      · rintro rest' rfl
        exact absurd rfl hc

/-- **Pieces without commas are cut from each other where they are joined.** -/
theorem cut_intercalate {pieces : List (List Char)} (hne : pieces ≠ [])
    (h : ∀ piece ∈ pieces, ',' ∉ piece) : cut (List.intercalate [',', ' '] pieces) = pieces := by
  induction pieces with
  | nil => exact absurd rfl hne
  | cons piece pieces ih =>
      rw [List.forall_mem_cons] at h
      cases pieces with
      | nil =>
          rw [List.intercalate_singleton, ← List.append_nil piece, cut_append h.1]
          rfl
      | cons next pieces =>
          rw [List.intercalate_cons_cons, List.append_assoc, cut_append h.1]
          show [piece ++ []] ++ cut (List.intercalate [',', ' '] (next :: pieces)) = _
          rw [ih (List.cons_ne_nil next pieces) h.2, List.append_nil]
          rfl

theorem intercalate_ne_nil {separator piece : List Char} {pieces : List (List Char)}
    (h : piece ≠ []) : List.intercalate separator (piece :: pieces) ≠ [] := by
  cases pieces with
  | nil => rwa [List.intercalate_singleton]
  | cons next pieces =>
      rw [List.intercalate_cons_cons, List.append_assoc]
      exact List.append_ne_nil_of_left_ne_nil h _

/-! ### Integers -/

namespace Token
variable {t : IntegerType} {token : Token (SymbolType.integer t).Symbol} {s : List Char}

theorem Form.comma_not_mem (h : Form t token s) : ',' ∉ s := by
  intro hcomma
  rcases h.character ',' hcomma with hdigit | hsign
  · cases hdigit
  · exact absurd hsign (by decide)

theorem Form.ne_nil (h : Form t token s) : s ≠ [] := by
  rintro rfl
  cases h with
  | literal h => exact Decimal.integerText_nil h

/-- **What is shown for a position is one of its forms.** -/
theorem form_text (token : Token (SymbolType.integer t).Symbol) :
    Form t token (token.text (.integer t)) := by
  cases token with
  | literal v =>
      refine .literal (Decimal.integerText_ofInt fun hv => ?_)
      rw [IntegerType.isSigned_iff]
      exact Int.lt_of_le_of_lt v.property.1 hv
  | any => exact .any
  | anySequence => exact .anySequence

end Token

/-- **What is shown is taken apart into the texts of the positions.** -/
theorem shownPositions?_text {t : IntegerType} (s : Signature (SymbolType.integer t).Symbol) :
    shownPositions? (s.text (.integer t)) = some (s.tokens.map (Token.text (.integer t))) := by
  have hform : ∀ piece ∈ s.tokens.map (Token.text (.integer t)), ∃ token,
      Token.Form t token piece := by
    intro piece hpiece
    obtain ⟨token, -, rfl⟩ := List.mem_map.1 hpiece
    exact ⟨token, token.form_text⟩
  rw [Signature.text, shownPositions?, unparenthesized?_parenthesized, Option.map_some]
  generalize s.tokens.map (Token.text (.integer t)) = pieces at hform
  congr 1
  cases pieces with
  | nil => rfl
  | cons piece pieces =>
      obtain ⟨token, htoken⟩ := hform piece List.mem_cons_self
      rw [if_neg (intercalate_ne_nil htoken.ne_nil)]
      refine cut_intercalate (List.cons_ne_nil piece pieces) fun piece hpiece => ?_
      obtain ⟨token, htoken⟩ := hform piece hpiece
      exact htoken.comma_not_mem

/-- **A signature over integers reads back from what is shown**, taken apart into the texts of its
positions, and with any blanks put around them. -/
theorem Signature.parse_shown (t : IntegerType) (s : Signature (SymbolType.integer t).Symbol) :
    ∃ pieces, shownPositions? (s.text (.integer t)) = some pieces ∧
      ∀ texts : List String,
        List.Forall₂ (fun piece text => Text.BlanksAround piece text.toList) pieces texts →
          parse (.integer t) texts = .ok s := by
  refine ⟨_, shownPositions?_text s, fun texts h => parse_eq_ok_iff.2 ?_⟩
  have hforms := (List.forall₂_map_left_iff.1 h).flip
  exact hforms.imp fun text token htext => ⟨_, htext, token.form_text⟩

/-- The least value of a type between wildcards, with a wide blank in front and a line break behind
it. -/
theorem Signature.parse_shown_least :
    let s : Signature (SymbolType.integer .int32).Symbol :=
      ⟨[.any, .literal ⟨-0x80000000, by decide⟩, .anySequence]⟩
    shownPositions? (s.text (.integer .int32)) =
        some ["*".toList, "-2147483648".toList, "..".toList] ∧
      parse (.integer .int32) ["*", "\u3000-2147483648\n", ".. "] = .ok s := by
  intro s
  obtain ⟨pieces, hpieces, hparse⟩ := parse_shown .int32 s
  have hshown : shownPositions? (s.text (.integer .int32)) =
      some ["*".toList, "-2147483648".toList, "..".toList] := by decide +kernel
  obtain rfl := Option.some.inj (hpieces.symm.trans hshown)
  have hany : Text.BlanksAround "*".toList "*".toList :=
    ⟨[], [], List.forall_mem_nil _, List.forall_mem_nil _, rfl⟩
  have hliteral : Text.BlanksAround "-2147483648".toList "\u3000-2147483648\n".toList :=
    ⟨['\u3000'], ['\n'], List.forall_mem_singleton.2 rfl, List.forall_mem_singleton.2 rfl,
      by decide +kernel⟩
  have hanySequence : Text.BlanksAround "..".toList ".. ".toList :=
    ⟨[], [' '], List.forall_mem_nil _, List.forall_mem_singleton.2 rfl, by decide +kernel⟩
  exact ⟨hshown, hparse _ (.cons hany (.cons hliteral (.cons hanySequence .nil)))⟩

/-! ### Texts -/

namespace Token

/-- The position over texts that a text without blanks at its ends stands for. -/
def ofTrimmed (s : List Char) : Token SymbolType.text.Symbol :=
  if s = ['*'] then .any else if s = ['.', '.'] then .anySequence else .literal (String.ofList s)

/-- **The texts of the literals that can be read**: there is no blank at either end, and the whole
is no wildcard. -/
structure IsLiteralText (s : String) : Prop where
  trimmed : Text.Trimmed s.toList
  ne_any : s ≠ "*"
  ne_anySequence : s ≠ ".."

variable {text s : String} {l : List Char}

/-- **Every text is read**, as the position that trimming leaves. -/
theorem parse_text (text : String) :
    parse .text text = .ok (ofTrimmed (Text.trim text.toList)) := by
  unfold parse
  split
  · rename_i hs
    rw [hs]
    rfl
  · rename_i hs
    rw [hs]
    rfl
  · rename_i hany hsequence
    rw [ofTrimmed, if_neg hany, if_neg hsequence]
    rfl

/-- A position that was read is shown as what trimming left. -/
theorem text_ofTrimmed (l : List Char) : (ofTrimmed l).text .text = l := by
  unfold ofTrimmed
  split
  · rename_i hl
    exact hl.symm
  · split
    · rename_i hl
      exact hl.symm
    · exact String.toList_ofList

theorem ofTrimmed_eq_literal_iff :
    ofTrimmed l = .literal s ↔ String.ofList l = s ∧ s ≠ "*" ∧ s ≠ ".." := by
  unfold ofTrimmed
  split
  · rename_i hl
    exact ⟨nofun, fun h => absurd (h.1.symm.trans (congrArg String.ofList hl)) h.2.1⟩
  · rename_i hany
    split
    · rename_i hl
      exact ⟨nofun, fun h => absurd (h.1.symm.trans (congrArg String.ofList hl)) h.2.2⟩
    · rename_i hsequence
      rw [Token.literal.injEq]
      constructor
      · rintro rfl
        exact ⟨rfl, mt String.ofList_inj.1 hany, mt String.ofList_inj.1 hsequence⟩
      · exact fun h => h.1

theorem parse_text_eq_literal_iff :
    parse .text text = .ok (.literal s) ↔
      Text.trim text.toList = s.toList ∧ s ≠ "*" ∧ s ≠ ".." := by
  rw [parse_text, Except.ok.injEq, ofTrimmed_eq_literal_iff, ← String.toList_inj,
    String.toList_ofList]

/-- **Reading brings a text to a form that reads as the same position.**  Every text is read as some
position, and so is what is shown for that position.  For a literal that was not read, what is
shown reads as the same literal exactly if there is no blank at either end and it is no wildcard;
and these are the literals that some text is read as. -/
theorem parse_text_shown :
    (∀ text, ∃ token, parse .text text = .ok token ∧
        parse .text (String.ofList (token.text .text)) = .ok token) ∧
      ∀ s : String,
        (parse .text (String.ofList (Token.text .text (.literal s))) = .ok (.literal s) ↔
          IsLiteralText s) ∧
        ((∃ text, parse .text text = .ok (.literal s)) ↔ IsLiteralText s) := by
  have hself : ∀ s : String, parse .text s = .ok (.literal s) ↔ IsLiteralText s := by
    intro s
    rw [parse_text_eq_literal_iff, ← Text.trimmed_iff]
    exact ⟨fun h => ⟨h.1, h.2.1, h.2.2⟩, fun h => ⟨h.trimmed, h.ne_any, h.ne_anySequence⟩⟩
  refine ⟨fun text => ⟨_, parse_text text, ?_⟩, fun s => ⟨?_, fun h => ?_, fun h => ?_⟩⟩
  · rw [text_ofTrimmed, parse_text, String.toList_ofList, Text.trim_trim]
  · have hshown : String.ofList (Token.text .text (.literal s)) = s := String.ofList_toList
    rw [hshown]
    exact hself s
  · obtain ⟨text, htext⟩ := h
    obtain ⟨htrim, hany, hsequence⟩ := parse_text_eq_literal_iff.1 htext
    refine ⟨Text.trimmed_iff.2 ?_, hany, hsequence⟩
    rw [← htrim, Text.trim_trim]
  · exact ⟨s, (hself s).2 h⟩

/-- Two dots in blanks, some of them wide, are read as the wildcard. -/
example : parse .text "\u2003..\n" = .ok .anySequence := by decide +kernel

end Token
end SignatureAutomata
