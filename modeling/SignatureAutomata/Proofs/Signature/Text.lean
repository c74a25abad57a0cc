import SignatureAutomata.Proofs.Decimal.Integer
import SignatureAutomata.Proofs.Text.Blank
import SignatureAutomata.Signature.Text

/-! # Which texts are signatures over integers

A position over integers has the forms that `Token.Form` lists: a star, two dots, or the texts of
an integer of the type.  A text stands for a position if it is one of its forms with blanks around
it (`Token.StandsFor`).  No form begins or ends with a blank, so this is the form that trimming
leaves, and a text is read as a position exactly if it stands for it (`Token.parse_eq_ok_iff`).

A list of texts is read from the front, up to the first text that stands for no position
(`Signature.exists_parse_eq_error_iff`).
-/

namespace SignatureAutomata

/-! ### Integer types -/

namespace IntegerType

/-- Whether a type has negative values. -/
def isSigned : IntegerType → Bool
  | .int32 | .int64 => true
  | .uint32 | .uint64 | .size => false

theorem isSigned_iff {t : IntegerType} : t.isSigned = true ↔ t.lower < 0 := by
  cases t <;> decide

theorem lower_le_zero (t : IntegerType) : t.lower ≤ 0 := by
  cases t <;> decide

theorem zero_le_upper (t : IntegerType) : 0 ≤ t.upper := by
  cases t <;> decide

end IntegerType

/-- **A text is read as a value exactly if it is one of the value's texts.** -/
theorem SymbolType.read_integer_eq_ok_iff {t : IntegerType} {v : t.Value} {s : List Char} :
    (SymbolType.integer t).read s = .ok v ↔ Decimal.IntegerText t.isSigned s v.val := by
  have hinteger : ∀ n, Decimal.readInteger t.lower t.upper s = .ok n ↔
      Decimal.IntegerText t.isSigned s n ∧ t.lower ≤ n ∧ n ≤ t.upper := fun n =>
    Decimal.readInteger_eq_ok_iff t.isSigned_iff t.lower_le_zero t.zero_le_upper
  simp only [SymbolType.read]
  constructor
  · intro h
    split at h
    · cases h
    · rename_i n hn
      obtain ⟨htext, hbounds⟩ := (hinteger n).1 hn
      rw [IntegerType.ofInt?, dif_pos hbounds] at h
      exact Except.ok.inj h ▸ htext
  · intro h
    rw [(hinteger v.val).2 ⟨h, v.property⟩]
    simp only [IntegerType.ofInt?_val]

/-! ### Positions -/

namespace Token
variable {t : IntegerType} {token : Token (SymbolType.integer t).Symbol} {s : List Char}

/-- **The forms of a position over the integers of a type.**  A literal has the texts of its value,
which is one of the type and so within its bounds. -/
inductive Form (t : IntegerType) : Token (SymbolType.integer t).Symbol → List Char → Prop where
  | literal {v : t.Value} {s : List Char} :
      Decimal.IntegerText t.isSigned s v.val → Form t (.literal v) s
  | any : Form t .any ['*']
  | anySequence : Form t .anySequence ['.', '.']

/-- **A text stands for a position** if it is one of its forms with blanks around it. -/
def StandsFor (t : IntegerType) (text : String) (token : Token (SymbolType.integer t).Symbol) :
    Prop :=
  ∃ s, Text.BlanksAround s text.toList ∧ Form t token s

/-- The characters of a form. -/
theorem Form.character (h : Form t token s) :
    ∀ c ∈ s, c.isDigit = true ∨ c ∈ ['+', '-', '*', '.'] := by
  cases h with
  | literal h =>
      intro c hc
      rcases h.isDigit_or_sign c hc with hdigit | rfl | rfl
      · exact .inl hdigit
      · exact .inr (by simp)
      · exact .inr (by simp)
  | any => simp
  | anySequence => simp

theorem Form.trimmed (h : Form t token s) : Text.Trimmed s := by
  refine Text.trimmed_of_forall fun c hc => ?_
  rcases h.character c hc with hdigit | hsign
  · have hbounds : 48 ≤ c.toNat ∧ c.toNat ≤ 57 := by
      simpa [Char.isDigit, UInt32.le_iff_toNat_le] using hdigit
    exact Text.isBlank_eq_false (by omega) (by omega)
  · simp only [List.mem_cons, List.not_mem_nil, or_false] at hsign
    rcases hsign with rfl | rfl | rfl | rfl <;> rfl

theorem form_star_iff : Form t token ['*'] ↔ token = .any := by
  constructor
  · intro h
    cases h with
    | literal h => exact absurd (h.isDigit_or_sign '*' (List.mem_singleton_self _)) (by decide)
    | any => rfl
  · rintro rfl
    exact .any

theorem form_dots_iff : Form t token ['.', '.'] ↔ token = .anySequence := by
  constructor
  · intro h
    cases h with
    | literal h => exact absurd (h.isDigit_or_sign '.' List.mem_cons_self) (by decide)
    | anySequence => rfl
  · rintro rfl
    exact .anySequence

/-- **A text is read as a position exactly if trimming it leaves one of the position's forms.** -/
theorem parse_eq_ok_iff_form {text : String} :
    parse (.integer t) text = .ok token ↔ Form t token (Text.trim text.toList) := by
  unfold parse
  split
  · rename_i hs
    rw [hs, form_star_iff, Except.ok.injEq, eq_comm]
  · rename_i hs
    rw [hs, form_dots_iff, Except.ok.injEq, eq_comm]
  · rename_i hstar hdots
    constructor
    · intro h
      split at h
      · rename_i v hv
        obtain rfl := Except.ok.inj h
        exact .literal (SymbolType.read_integer_eq_ok_iff.1 hv)
      · cases h
    · intro h
      generalize Text.trim text.toList = s at h hstar hdots
      cases h with
      | literal h => rw [SymbolType.read_integer_eq_ok_iff.2 h]
      | any => exact absurd rfl hstar
      | anySequence => exact absurd rfl hdots

/-- **A text is read as a position exactly if it stands for it.** -/
theorem parse_eq_ok_iff {text : String} :
    parse (.integer t) text = .ok token ↔ StandsFor t text token := by
  rw [parse_eq_ok_iff_form]
  constructor
  · exact fun h => ⟨_, Text.blanksAround_trim _, h⟩
  · rintro ⟨s, haround, h⟩
    rwa [Text.trim_eq_iff.2 ⟨haround, h.trimmed⟩]

/-- A text that is refused is reported as it was given. -/
theorem token_of_parse_eq_error {τ : SymbolType} {text : String} {e : TokenError}
    (h : parse τ text = .error e) : e.token = text := by
  unfold parse at h
  split at h
  · cases h
  · cases h
  · split at h
    · cases h
    · rw [← Except.error.inj h]

theorem exists_parse_eq_error_iff {text : String} :
    (∃ e, parse (.integer t) text = .error e) ↔ ∀ token, ¬ StandsFor t text token := by
  constructor
  · rintro ⟨e, he⟩ token htoken
    rw [parse_eq_ok_iff.2 htoken] at he
    cases he
  · intro h
    cases hparse : parse (.integer t) text with
    | ok token => exact absurd (parse_eq_ok_iff.1 hparse) (h token)
    | error e => exact ⟨e, rfl⟩

end Token

/-! ### Signatures -/

namespace Signature
variable {t : IntegerType} {texts : List String}

theorem parse_eq_ok_iff {s : Signature (SymbolType.integer t).Symbol} :
    parse (.integer t) texts = .ok s ↔ List.Forall₂ (Token.StandsFor t) texts s.tokens := by
  obtain ⟨tokens⟩ := s
  have hparse : parse (.integer t) texts = .ok ⟨tokens⟩ ↔
      texts.mapM (Token.parse (.integer t)) = .ok tokens := by
    rw [parse, map_eq_ok_iff]
    simp
  rw [hparse, mapM_eq_ok_iff]
  constructor
  · exact fun h => h.imp fun _ _ => Token.parse_eq_ok_iff.1
  · exact fun h => h.imp fun _ _ => Token.parse_eq_ok_iff.2

theorem exists_parse_eq_ok_iff :
    (∃ s, parse (.integer t) texts = .ok s) ↔
      ∀ text ∈ texts, ∃ token, Token.StandsFor t text token := by
  have hparse : (∃ s, parse (.integer t) texts = .ok s) ↔
      ∃ tokens, texts.mapM (Token.parse (.integer t)) = .ok tokens := by
    simp [parse, map_eq_ok_iff]
  rw [hparse, exists_mapM_eq_ok_iff]
  exact forall₂_congr fun text _ => exists_congr fun token => Token.parse_eq_ok_iff

/-- What is reported is the first text that stands for no position. -/
theorem exists_parse_eq_error_iff {text : String} :
    (∃ e, parse (.integer t) texts = .error e ∧ e.token = text) ↔
      ∃ before after, texts = before ++ text :: after ∧
        (∀ earlier ∈ before, ∃ token, Token.StandsFor t earlier token) ∧
        ∀ token, ¬ Token.StandsFor t text token := by
  have hbefore : ∀ before : List String,
      (∀ earlier ∈ before, ∃ token, Token.parse (.integer t) earlier = .ok token) ↔
        ∀ earlier ∈ before, ∃ token, Token.StandsFor t earlier token := fun before =>
    forall₂_congr fun earlier _ => exists_congr fun token => Token.parse_eq_ok_iff
  simp only [parse, map_eq_error_iff, mapM_eq_error_iff]
  constructor
  · rintro ⟨e, ⟨before, text', after, htexts, hread, he⟩, rfl⟩
    obtain rfl := Token.token_of_parse_eq_error he
    exact ⟨before, after, htexts, (hbefore before).1 hread,
      Token.exists_parse_eq_error_iff.1 ⟨e, he⟩⟩
  · rintro ⟨before, after, htexts, hread, h⟩
    obtain ⟨e, he⟩ := Token.exists_parse_eq_error_iff.2 h
    exact ⟨e, ⟨before, text, after, htexts, (hbefore before).2 hread, he⟩,
      Token.token_of_parse_eq_error he⟩

/-- **A list of texts is read as a signature over integers exactly if every text stands for a
position**, and its positions are then those, one by one.  Otherwise the first text that stands for
none is reported, as it was given. -/
theorem parse_forms (t : IntegerType) (texts : List String) :
    (∀ s, parse (.integer t) texts = .ok s ↔
        List.Forall₂ (Token.StandsFor t) texts s.tokens) ∧
      ((∃ s, parse (.integer t) texts = .ok s) ↔
        ∀ text ∈ texts, ∃ token, Token.StandsFor t text token) ∧
      ∀ text, (∃ e, parse (.integer t) texts = .error e ∧ e.token = text) ↔
        ∃ before after, texts = before ++ text :: after ∧
          (∀ earlier ∈ before, ∃ token, Token.StandsFor t earlier token) ∧
          ∀ token, ¬ Token.StandsFor t text token :=
  ⟨fun _ => parse_eq_ok_iff, exists_parse_eq_ok_iff, fun _ => exists_parse_eq_error_iff⟩

/-- Blanks, a sign and zeros in front do no harm, and the first integer out of bounds is reported,
not the text behind it that is none at all. -/
example : parse (.integer .int32) ["..", "\u00A0+007 ", " -2147483649", "x3"] =
    .error ⟨" -2147483649", .tooSmall⟩ := by rfl

end Signature
end SignatureAutomata
