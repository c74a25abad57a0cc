import SignatureAutomata.Text.CodePoints

/-! # Blanks

A blank is a character with the property White_Space.  `trim` removes blanks from
both ends of a text, however many there are (`trim_append`); what is left has none
there, so a text is left alone exactly if it has none (`trim_eq_self_iff`).
-/

namespace SignatureAutomata
namespace Text

/-- The code points with the property White_Space. -/
def blanks : CodePoints :=
  [(0x0009, 0x000D), (0x0020, 0x0020), (0x0085, 0x0085), (0x00A0, 0x00A0), (0x1680, 0x1680),
   (0x2000, 0x200A), (0x2028, 0x2029), (0x202F, 0x202F), (0x205F, 0x205F), (0x3000, 0x3000)]

/-- Whether a character is a blank. -/
def isBlank (c : Char) : Bool := blanks.contains c

/-- Drops the blanks at the end. -/
def trimEnd (s : List Char) : List Char := (s.reverse.dropWhile isBlank).reverse

/-- Drops the blanks at both ends. -/
def trim (s : List Char) : List Char := trimEnd (s.dropWhile isBlank)

/-- Whether a text has no blank in front. -/
def startsPlain : List Char → Bool
  | [] => true
  | c :: _ => !isBlank c

theorem dropWhile_of_startsPlain {s : List Char} (h : startsPlain s = true) :
    s.dropWhile isBlank = s := by
  cases s with
  | nil => rfl
  | cons c s => simp_all [startsPlain]

theorem startsPlain_dropWhile (s : List Char) : startsPlain (s.dropWhile isBlank) = true := by
  induction s with
  | nil => rfl
  | cons c s ih =>
      rw [List.dropWhile_cons]
      split
      · exact ih
      · rename_i h
        simp [startsPlain, h]

theorem dropWhile_append_of_blanks {b : List Char} (h : ∀ c ∈ b, isBlank c = true)
    (s : List Char) : (b ++ s).dropWhile isBlank = s.dropWhile isBlank := by
  induction b with
  | nil => rfl
  | cons c b ih =>
      rw [List.cons_append, List.dropWhile_cons_of_pos (h c (List.mem_cons_self ..))]
      exact ih fun d hd => h d (List.mem_cons_of_mem _ hd)

theorem startsPlain_of_isPrefixOf {s t : List Char} (h : s <+: t) (ht : startsPlain t = true) :
    startsPlain s = true := by
  obtain ⟨u, rfl⟩ := h
  cases s with
  | nil => rfl
  | cons c s => exact ht

theorem trimEnd_isPrefixOf (s : List Char) : trimEnd s <+: s := by
  have h := List.reverse_prefix.2 (List.dropWhile_suffix isBlank (l := s.reverse))
  rwa [List.reverse_reverse] at h

theorem startsPlain_trim (s : List Char) : startsPlain (trim s) = true :=
  startsPlain_of_isPrefixOf (trimEnd_isPrefixOf _) (startsPlain_dropWhile s)

theorem startsPlain_reverse_trim (s : List Char) : startsPlain (trim s).reverse = true := by
  rw [trim, trimEnd, List.reverse_reverse]
  exact startsPlain_dropWhile _

/-- **A text is left alone exactly if it has no blank at its ends.** -/
theorem trim_eq_self_iff {s : List Char} :
    trim s = s ↔ startsPlain s = true ∧ startsPlain s.reverse = true := by
  constructor
  · intro h
    have hfront := startsPlain_trim s
    have hback := startsPlain_reverse_trim s
    rw [h] at hfront hback
    exact ⟨hfront, hback⟩
  · rintro ⟨h, h'⟩
    rw [trim, trimEnd, dropWhile_of_startsPlain h, dropWhile_of_startsPlain h',
      List.reverse_reverse]

/-- **Blanks around a text without blanks at its ends are removed.** -/
theorem trim_append {b s e : List Char} (hb : ∀ c ∈ b, isBlank c = true)
    (he : ∀ c ∈ e, isBlank c = true) (h : trim s = s) : trim (b ++ s ++ e) = s := by
  obtain ⟨hfront, hback⟩ := trim_eq_self_iff.1 h
  have he' : ∀ c ∈ e.reverse, isBlank c = true := fun c hc => he c (List.mem_reverse.1 hc)
  rw [trim, List.append_assoc, dropWhile_append_of_blanks hb]
  cases s with
  | nil =>
      have hnil : e.dropWhile isBlank = [] := by
        rw [← List.append_nil e, dropWhile_append_of_blanks he]
        rfl
      rw [List.nil_append, hnil]
      rfl
  | cons c s =>
      have hplain : startsPlain (c :: s ++ e) = true := hfront
      rw [dropWhile_of_startsPlain hplain, trimEnd, List.reverse_append,
        dropWhile_append_of_blanks he', dropWhile_of_startsPlain hback, List.reverse_reverse]

example : blanks.isAscending = true := by decide
example : trim [' ', '\t', 'a', ' ', 'b', '\u3000'] = ['a', ' ', 'b'] := by decide

end Text
end SignatureAutomata
