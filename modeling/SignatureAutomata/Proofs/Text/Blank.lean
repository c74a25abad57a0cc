import Mathlib.Data.List.TakeWhile
import SignatureAutomata.Text.Blank

/-! # What trimming leaves

Trimming takes the blanks off both ends of a text, all of them and nothing else: what it leaves is
the one part of the text that has no blank at its ends and nothing but blanks around it
(`trim_eq_iff`).
-/

namespace SignatureAutomata
namespace Text

/-- **`t` is `s` with blanks around it**, any number of them at either end. -/
def BlanksAround (s t : List Char) : Prop :=
  ∃ b e, (∀ c ∈ b, isBlank c = true) ∧ (∀ c ∈ e, isBlank c = true) ∧ t = b ++ s ++ e

/-- **A text that neither begins nor ends with a blank.** -/
structure Trimmed (s : List Char) : Prop where
  front : ∀ c ∈ s.head?, isBlank c = false
  back : ∀ c ∈ s.getLast?, isBlank c = false

variable {s t : List Char}

theorem startsPlain_iff : startsPlain s = true ↔ ∀ c ∈ s.head?, isBlank c = false := by
  cases s <;> simp [startsPlain]

theorem trimmed_iff : Trimmed s ↔ trim s = s := by
  rw [trim_eq_self_iff, startsPlain_iff, startsPlain_iff, List.head?_reverse]
  exact ⟨fun h => ⟨h.front, h.back⟩, fun h => ⟨h.1, h.2⟩⟩

theorem trim_trim (s : List Char) : trim (trim s) = trim s :=
  trim_eq_self_iff.2 ⟨startsPlain_trim s, startsPlain_reverse_trim s⟩

/-- Between the space and the first blank beyond it there are none. -/
theorem isBlank_eq_false {c : Char} (h : 0x20 < c.toNat) (h' : c.toNat < 0x85) :
    isBlank c = false := by
  simp [isBlank, blanks, CodePoints.contains]
  omega

theorem trimmed_of_forall (h : ∀ c ∈ s, isBlank c = false) : Trimmed s where
  front c hc := h c (List.mem_of_mem_head? hc)
  back c hc := h c (List.mem_of_mem_getLast? hc)

theorem exists_blanks_dropWhile (s : List Char) :
    ∃ b, (∀ c ∈ b, isBlank c = true) ∧ s = b ++ s.dropWhile isBlank :=
  ⟨s.takeWhile isBlank, fun _ hc => List.mem_takeWhile_imp hc,
    (List.takeWhile_append_dropWhile ..).symm⟩

theorem blanksAround_trim (t : List Char) : BlanksAround (trim t) t := by
  obtain ⟨b, hb, hfront⟩ := exists_blanks_dropWhile t
  obtain ⟨e, he, hback⟩ := exists_blanks_dropWhile (t.dropWhile isBlank).reverse
  refine ⟨b, e.reverse, hb, fun c hc => he c (List.mem_reverse.1 hc), ?_⟩
  rw [trim, trimEnd, List.append_assoc, ← List.reverse_append, ← hback, List.reverse_reverse]
  exact hfront

/-- **What trimming leaves is the part without blanks at its ends that has only blanks around
it.** -/
theorem trim_eq_iff : trim t = s ↔ BlanksAround s t ∧ Trimmed s := by
  constructor
  · rintro rfl
    exact ⟨blanksAround_trim t, trimmed_iff.2 (trim_trim t)⟩
  · rintro ⟨⟨b, e, hb, he, rfl⟩, hs⟩
    exact trim_append hb he (trimmed_iff.1 hs)

end Text
end SignatureAutomata
