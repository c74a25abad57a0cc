import SignatureAutomata.Decimal.Integer
import SignatureAutomata.Proofs.Traversal

/-! # Which texts are integers

A text is read as an integer exactly if it consists of digits, with a sign in front or without one,
and the value is within the bounds (`readInteger_eq_ok_iff`).  There may be any number of zeros in
front of the other digits, and a minus sign stands only where there are negative values.

Digits are read from the left, and no further once the value is beyond the bound.  This loses
nothing, because further digits never make a value less (`readDigits_eq_ok_iff`).
-/

namespace SignatureAutomata
namespace Decimal

/-- **Digits and their value.**  There is at least one digit, and zeros may stand in front. -/
structure Numeral (ds : List Char) (n : Nat) : Prop where
  ne_nil : ds ≠ []
  isDigit : ∀ c ∈ ds, c.isDigit = true
  value_eq : Nat.ofDigitChars 10 ds 0 = n

/-- **The texts of an integer**, where a minus sign is part of a text only if values are
`signed`. -/
inductive IntegerText (signed : Bool) : List Char → Int → Prop where
  | bare {ds : List Char} {n : Nat} : Numeral ds n → IntegerText signed ds n
  | plus {ds : List Char} {n : Nat} : Numeral ds n → IntegerText signed ('+' :: ds) n
  | minus {ds : List Char} {n : Nat} : signed = true → Numeral ds n →
      IntegerText signed ('-' :: ds) (-n)

variable {bound value n : Nat} {beyond : IntegerFault} {c : Char} {cs : List Char}

/-! ### Digits -/

theorem Numeral.isDigit_head (h : Numeral (c :: cs) n) : c.isDigit = true :=
  h.isDigit c List.mem_cons_self

theorem numeral_digits (n : Nat) : Numeral (digits n) n :=
  ⟨digits_ne_nil n, fun _ => isDigit_of_mem_digits, ofDigitChars_digits n⟩

theorem isDigit_of_readDigits (h : readDigits bound beyond value cs = .ok n) :
    ∀ c ∈ cs, c.isDigit = true := by
  induction cs generalizing value with
  | nil => exact List.forall_mem_nil _
  | cons c cs ih =>
      rw [readDigits] at h
      split at h
      · rename_i hc
        dsimp only at h
        split at h
        · exact List.forall_mem_cons.2 ⟨hc, ih h⟩
        · cases h
      · cases h

/-- **Digits are read exactly if their value is within the bound**, and nothing else is read. -/
theorem readDigits_eq_ok_iff (hv : value ≤ bound) :
    readDigits bound beyond value cs = .ok n ↔
      (∀ c ∈ cs, c.isDigit = true) ∧ Nat.ofDigitChars 10 cs value = n ∧ n ≤ bound := by
  constructor
  · intro h
    have hdigits := isDigit_of_readDigits h
    rw [readDigits_eq hdigits hv] at h
    split at h
    · rename_i hle
      obtain rfl := Except.ok.inj h
      exact ⟨hdigits, rfl, hle⟩
    · cases h
  · rintro ⟨hdigits, rfl, hle⟩
    rw [readDigits_eq hdigits hv, if_pos hle]

theorem readMagnitude_eq_ok_iff :
    readMagnitude bound beyond cs = .ok n ↔ Numeral cs n ∧ n ≤ bound := by
  cases cs with
  | nil =>
      rw [readMagnitude]
      constructor
      · intro h
        cases h
      · intro h
        exact absurd rfl h.1.ne_nil
  | cons c cs =>
      rw [readMagnitude, readDigits_eq_ok_iff (Nat.zero_le bound)]
      · constructor
        · rintro ⟨hdigits, hvalue, hle⟩
          exact ⟨⟨List.cons_ne_nil c cs, hdigits, hvalue⟩, hle⟩
        · rintro ⟨h, hle⟩
          exact ⟨h.isDigit, h.value_eq, hle⟩
      · exact List.cons_ne_nil c cs

/-! ### Signs -/

section Signs
variable {signed : Bool} {lower upper k : Int} {s rest : List Char}

theorem integerText_nil : ¬ IntegerText signed [] k := by
  intro h
  cases h with
  | bare h => exact h.ne_nil rfl

/-- A text of an integer is made of digits and signs. -/
theorem IntegerText.isDigit_or_sign (h : IntegerText signed s k) :
    ∀ c ∈ s, c.isDigit = true ∨ c = '+' ∨ c = '-' := by
  cases h with
  | bare h => exact fun c hc => .inl (h.isDigit c hc)
  | plus h =>
      exact List.forall_mem_cons.2 ⟨.inr (.inl rfl), fun c hc => .inl (h.isDigit c hc)⟩
  | minus _ h =>
      exact List.forall_mem_cons.2 ⟨.inr (.inr rfl), fun c hc => .inl (h.isDigit c hc)⟩

theorem integerText_plus_iff :
    IntegerText signed ('+' :: rest) k ↔ ∃ n : Nat, Numeral rest n ∧ n = k := by
  constructor
  · intro h
    cases h with
    | bare h => exact absurd h.isDigit_head (by decide)
    | plus h => exact ⟨_, h, rfl⟩
  · rintro ⟨n, h, rfl⟩
    exact .plus h

theorem integerText_minus_iff (hsigned : signed = true) :
    IntegerText signed ('-' :: rest) k ↔ ∃ n : Nat, Numeral rest n ∧ -n = k := by
  constructor
  · intro h
    cases h with
    | bare h => exact absurd h.isDigit_head (by decide)
    | minus _ h => exact ⟨_, h, rfl⟩
  · rintro ⟨n, h, rfl⟩
    exact .minus hsigned h

/-- Without a sign that is part of the text, all of it has to be digits. -/
theorem integerText_bare_iff (hplus : c ≠ '+') (hminus : c = '-' → signed = false) :
    IntegerText signed (c :: cs) k ↔ ∃ n : Nat, Numeral (c :: cs) n ∧ n = k := by
  constructor
  · intro h
    cases h with
    | bare h => exact ⟨_, h, rfl⟩
    | plus => exact absurd rfl hplus
    | minus hsigned => exact absurd hsigned (by simp [hminus rfl])
  · rintro ⟨n, h, rfl⟩
    exact .bare h

theorem readMagnitude_map_eq_ok_iff {f : Nat → Int} :
    (readMagnitude bound beyond cs).map f = .ok k ↔
      ∃ n, (Numeral cs n ∧ f n = k) ∧ n ≤ bound := by
  rw [map_eq_ok_iff]
  refine exists_congr fun n => ?_
  rw [readMagnitude_eq_ok_iff, and_right_comm]

/-- **A text is read as an integer exactly if it is one of its texts and the integer is within the
bounds.** -/
theorem readInteger_eq_ok_iff (hsigned : signed = true ↔ lower < 0) (hl : lower ≤ 0)
    (hu : 0 ≤ upper) :
    readInteger lower upper s = .ok k ↔ IntegerText signed s k ∧ lower ≤ k ∧ k ≤ upper := by
  -- the bound of the digits is the bound of the integer, from above or from below
  have habove : ∀ n : Nat, n = k → (n ≤ upper.natAbs ↔ lower ≤ k ∧ k ≤ upper) := by omega
  have hbelow : ∀ n : Nat, -n = k → (n ≤ lower.natAbs ↔ lower ≤ k ∧ k ≤ upper) := by omega
  unfold readInteger
  split
  · exact ⟨nofun, fun h => absurd h.1 integerText_nil⟩
  · rw [readMagnitude_map_eq_ok_iff, integerText_plus_iff, ← exists_and_right]
    exact exists_congr fun n => and_congr_right fun h => habove n h.2
  · rename_i c rest hplus
    split
    · rename_i hminus
      obtain ⟨rfl, hlower⟩ := hminus
      rw [readMagnitude_map_eq_ok_iff, integerText_minus_iff (hsigned.2 hlower),
        ← exists_and_right]
      exact exists_congr fun n => and_congr_right fun h => hbelow n h.2
    · rename_i hminus
      have hbare : c = '-' → signed = false := by
        intro hc
        rw [← Bool.not_eq_true, hsigned]
        exact fun hlower => hminus ⟨hc, hlower⟩
      rw [readMagnitude_map_eq_ok_iff, integerText_bare_iff hplus hbare, ← exists_and_right]
      exact exists_congr fun n => and_congr_right fun h => habove n h.2

/-- What is written for an integer is one of its texts. -/
theorem integerText_ofInt (hsigned : k < 0 → signed = true) : IntegerText signed (ofInt k) k := by
  unfold ofInt
  split
  · rename_i hk
    have hvalue : -(k.natAbs : Int) = k := by omega
    have htext : IntegerText signed ('-' :: digits k.natAbs) (-(k.natAbs : Int)) :=
      .minus (hsigned hk) (numeral_digits k.natAbs)
    rwa [hvalue] at htext
  · rename_i hk
    have hvalue : (k.natAbs : Int) = k := by omega
    have htext : IntegerText signed (digits k.natAbs) (k.natAbs : Int) :=
      .bare (numeral_digits k.natAbs)
    rwa [hvalue] at htext

end Signs

end Decimal
end SignatureAutomata
