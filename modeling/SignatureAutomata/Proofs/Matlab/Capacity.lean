import SignatureAutomata.Matlab.Source

/-! # Which matchers have a source

A source is a text, and there is a number of bytes that no text exceeds.  Options that are allowed
may still ask for more: the indentation may be any number, and a level of it alone may be too long.
So a matcher has a source under options that are allowed exactly if all its lines fit
(`source_eq_ok_iff`); if they do not, the failure is that of a text growing too long, not an error
about the options (`source_of_not_fits`).
-/

namespace SignatureAutomata
namespace Matlab

theorem length_le_byteCount (text : List Char) : text.length ≤ byteCount text := by
  induction text with
  | nil => exact Nat.le_refl 0
  | cons c text ih =>
      have hc : 0 < c.utf8Size := c.utf8Size_pos
      rw [byteCount, List.foldr_cons, List.length_cons]
      rw [byteCount] at ih
      omega

variable {τ : SymbolType} {m : Matcher τ.Symbol} {o : Options}

/-- **The source fits into a text.** -/
def Fits (m : Matcher τ.Symbol) (o : Options) : Prop := byteCount (sourceText m o) ≤ capacity

instance (m : Matcher τ.Symbol) (o : Options) : Decidable (Fits m o) :=
  inferInstanceAs (Decidable (_ ≤ _))

/-- There is a line with a level of indentation. -/
theorem indent_le_byteCount (m : Matcher τ.Symbol) (o : Options) :
    o.indent ≤ byteCount (sourceText m o) := by
  have hline : o.pad ++ "end".toList ∈ matcherLines m o := by simp [matcherLines]
  have hpart : (o.pad ++ "end".toList).Sublist (sourceText m o) := by
    refine (List.sublist_append_left _ ['\n']).trans (List.sublist_flatten_of_mem ?_)
    exact List.mem_map_of_mem (List.mem_append_left _ hline)
  have hlength := hpart.length_le
  rw [List.length_append, Options.pad, List.length_replicate] at hlength
  exact Nat.le_trans (Nat.le_trans (Nat.le_add_right ..) hlength) (length_le_byteCount _)

/-- An indentation that is too long for a text leaves no room for a source. -/
theorem Fits.indent_le (h : Fits m o) : o.indent ≤ capacity :=
  Nat.le_trans (indent_le_byteCount m o) h

theorem source_of_fits (ho : o.validate = .ok ()) (h : Fits m o) :
    source m o = .ok (sourceText m o) := by
  rw [source, ho]
  dsimp only
  rw [if_neg (Nat.not_lt.2 h.indent_le), if_neg (Nat.not_lt.2 h)]

/-- **What does not fit is not written.** -/
theorem source_of_not_fits (ho : o.validate = .ok ()) (h : ¬ Fits m o) :
    source m o = .error .capacityOverflow := by
  rw [source, ho]
  dsimp only
  rw [if_pos (Nat.lt_of_not_le h)]
  split <;> rfl

/-- **A matcher has a source exactly if its lines fit**, and the source is these lines. -/
theorem source_eq_ok_iff (ho : o.validate = .ok ()) {text : List Char} :
    source m o = .ok text ↔ Fits m o ∧ sourceText m o = text := by
  by_cases h : Fits m o
  · rw [source_of_fits ho h, Except.ok.injEq]
    exact ⟨fun heq => ⟨h, heq⟩, fun heq => heq.2⟩
  · rw [source_of_not_fits ho h]
    exact ⟨nofun, fun heq => absurd heq.1 h⟩

end Matlab
end SignatureAutomata
