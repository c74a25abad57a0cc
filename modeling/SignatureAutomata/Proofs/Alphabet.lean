import SignatureAutomata.Alphabet

/-! # A growing alphabet

Registration appends (`symbols_isPrefix_registerAll`), so an alphabet and any later
one agree on every symbol of the earlier one (`codeOf_registerAll`).  Within one
alphabet the code of a symbol is nobody else's (`codeOf_eq_codeOf_iff`), and the codes
of the symbols are consecutive numbers from `Code.firstSymbol` on (`mem_codes_iff`).
-/

namespace SignatureAutomata
namespace Alphabet
variable {α : Type}

theorem mem_codes_iff {A : Alphabet α} {code : Nat} :
    code ∈ A.codes ↔ Code.firstSymbol ≤ code ∧ code < Code.firstSymbol + A.size :=
  List.mem_range'_1

theorem sigma_not_mem_codes (A : Alphabet α) : Code.sigma ∉ A.codes := fun h => by
  have := (mem_codes_iff.1 h).1
  simp [Code.sigma, Code.firstSymbol] at this

variable [DecidableEq α] {A : Alphabet α} {x y : α}

/-! ### Codes -/

theorem codeOf_of_mem (h : x ∈ A.symbols) :
    A.codeOf x = Code.firstSymbol + A.symbols.idxOf x := if_pos h

theorem codeOf_mem_codes_iff : A.codeOf x ∈ A.codes ↔ x ∈ A.symbols := by
  constructor
  · intro h
    refine Decidable.byContradiction fun hx => ?_
    rw [codeOf_of_not_mem hx] at h
    exact sigma_not_mem_codes A h
  · intro h
    rw [codeOf_of_mem h, mem_codes_iff]
    have hlt : A.symbols.idxOf x < A.size := List.idxOf_lt_length_of_mem h
    omega

theorem codeOf_ne_epsilon (A : Alphabet α) (x : α) : A.codeOf x ≠ Code.epsilon := by
  by_cases hx : x ∈ A.symbols
  · rw [codeOf_of_mem hx]
    exact Nat.ne_of_gt (Nat.lt_of_lt_of_le Nat.zero_lt_two (Nat.le_add_right ..))
  · rw [codeOf_of_not_mem hx]
    exact Nat.one_ne_zero

theorem codeOf_ne_sigma (hx : x ∈ A.symbols) : A.codeOf x ≠ Code.sigma := fun h =>
  sigma_not_mem_codes A (h ▸ codeOf_mem_codes_iff.2 hx)

/-- **The code of a symbol is nobody else's.** -/
theorem codeOf_eq_codeOf_iff (hx : x ∈ A.symbols) : A.codeOf y = A.codeOf x ↔ y = x := by
  refine ⟨fun h => ?_, fun h => h ▸ rfl⟩
  have hy : y ∈ A.symbols := by
    rw [← codeOf_mem_codes_iff, h]
    exact codeOf_mem_codes_iff.2 hx
  rw [codeOf_of_mem hx, codeOf_of_mem hy] at h
  have hidx : A.symbols.idxOf y = A.symbols.idxOf x := Nat.add_left_cancel h
  have hlt : A.symbols.idxOf x < A.symbols.length := List.idxOf_lt_length_of_mem hx
  have hlt' : A.symbols.idxOf y < A.symbols.length := List.idxOf_lt_length_of_mem hy
  calc y = A.symbols[A.symbols.idxOf y] := (List.getElem_idxOf hlt').symm
    _ = A.symbols[A.symbols.idxOf x] := by simp only [hidx]
    _ = x := List.getElem_idxOf hlt

/-! ### Growth -/

theorem symbols_isPrefix_register (A : Alphabet α) (x : α) :
    A.symbols <+: (A.register x).symbols := by
  by_cases hx : x ∈ A.symbols
  · simp only [register_of_mem hx, List.prefix_refl]
  · rw [symbols_register hx]
    exact List.prefix_append ..

theorem mem_symbols_register : y ∈ (A.register x).symbols ↔ y ∈ A.symbols ∨ y = x := by
  by_cases hx : x ∈ A.symbols
  · rw [register_of_mem hx]
    exact ⟨.inl, fun h => h.elim id fun h => h ▸ hx⟩
  · rw [symbols_register hx, List.mem_append, List.mem_singleton]

theorem symbols_isPrefix_registerAll (A : Alphabet α) (xs : List α) :
    A.symbols <+: (A.registerAll xs).symbols := by
  induction xs generalizing A with
  | nil => exact List.prefix_refl _
  | cons x xs ih => exact (symbols_isPrefix_register A x).trans (ih _)

theorem mem_symbols_registerAll {xs : List α} :
    y ∈ (A.registerAll xs).symbols ↔ y ∈ A.symbols ∨ y ∈ xs := by
  induction xs generalizing A with
  | nil => simp [registerAll]
  | cons x xs ih =>
      show y ∈ ((A.register x).registerAll xs).symbols ↔ _
      rw [ih, mem_symbols_register, List.mem_cons, or_assoc]

theorem codes_subset_registerAll (A : Alphabet α) (xs : List α) :
    A.codes ⊆ (A.registerAll xs).codes := by
  intro code hcode
  have hle : A.size ≤ (A.registerAll xs).size := (symbols_isPrefix_registerAll A xs).length_le
  rw [mem_codes_iff] at hcode ⊢
  omega

theorem registerAll_append (A : Alphabet α) (xs ys : List α) :
    A.registerAll (xs ++ ys) = (A.registerAll xs).registerAll ys := List.foldl_append

/-- **Codes once given stay.** -/
theorem codeOf_registerAll (hx : x ∈ A.symbols) (xs : List α) :
    (A.registerAll xs).codeOf x = A.codeOf x := by
  induction xs generalizing A with
  | nil => rfl
  | cons y xs ih =>
      exact (ih (mem_symbols_register.2 (.inl hx))).trans (codeOf_register hx y)

/-- The code of a value is that of a symbol, or no symbol of the earlier alphabet has
it. -/
theorem codeOf_registerAll_not_mem_codes (hx : x ∉ A.symbols) (xs : List α) :
    (A.registerAll xs).codeOf x ∉ A.codes := by
  intro h
  obtain ⟨t, ht⟩ := symbols_isPrefix_registerAll A xs
  -- a symbol registered since comes after all the earlier ones
  by_cases hx' : x ∈ (A.registerAll xs).symbols
  · rw [codeOf_of_mem hx', ← ht, List.idxOf_append, if_neg hx] at h
    have hlt := (mem_codes_iff.1 h).2
    unfold size at hlt
    omega
  · rw [codeOf_of_not_mem hx'] at h
    exact sigma_not_mem_codes A h

end Alphabet
end SignatureAutomata
