/-! # Integers as decimal text

An integer is written with the fewest digits, and a minus sign if it is negative.
It is read more freely: a plus sign and leading zeros are allowed, and a minus sign
where negative values are.  The digits are read from the left against bounds, so
the first character at fault decides whether a text has a wrong digit or a value
out of bounds.  What is written reads back (`readInteger_ofInt`).
-/

namespace SignatureAutomata
namespace Decimal

/-- The decimal digits of a natural number. -/
def digits (n : Nat) : List Char := Nat.toDigits 10 n

/-- The decimal text of an integer. -/
def ofInt (n : Int) : List Char :=
  if n < 0 then '-' :: digits n.natAbs else digits n.natAbs

theorem digits_ne_nil (n : Nat) : digits n ≠ [] := Nat.toDigits_ne_nil

theorem isDigit_of_mem_digits {n : Nat} {c : Char} (h : c ∈ digits n) : c.isDigit = true :=
  Nat.isDigit_of_mem_toDigits (by decide) (by decide) h

theorem exists_digits_eq_cons (n : Nat) : ∃ c cs, digits n = c :: cs ∧ c.isDigit = true := by
  cases h : digits n with
  | nil => exact absurd h (digits_ne_nil n)
  | cons c cs => exact ⟨c, cs, rfl, isDigit_of_mem_digits (h ▸ List.mem_cons_self ..)⟩

theorem ofDigitChars_digits (n : Nat) : Nat.ofDigitChars 10 (digits n) 0 = n :=
  Nat.ofDigitChars_ten_toDigits

/-- **Only zero is written with a zero in front.** -/
theorem digits_eq_cons_zero {n : Nat} {cs : List Char} (h : digits n = '0' :: cs) :
    n = 0 ∧ cs = [] := by
  induction n using Nat.strongRecOn generalizing cs with
  | _ n ih =>
    unfold digits at h ih
    by_cases hn : n < 10
    · rw [Nat.toDigits_of_lt_base hn] at h
      obtain ⟨hd, rfl⟩ := List.cons.inj h
      have hzero : ∀ k : Fin 10, k.val.digitChar = '0' → k.val = 0 := by decide
      exact ⟨hzero ⟨n, hn⟩ hd, rfl⟩
    · rw [Nat.toDigits_of_base_le (by decide) (by omega)] at h
      rcases hq : Nat.toDigits 10 (n / 10) with _ | ⟨d, ds⟩
      · exact absurd hq Nat.toDigits_ne_nil
      · rw [hq] at h
        obtain ⟨rfl, -⟩ := List.cons.inj h
        have hz := (ih (n / 10) (by omega) hq).1
        omega

/-- Further digits never make a value less. -/
theorem le_ofDigitChars (cs : List Char) (value : Nat) : value ≤ Nat.ofDigitChars 10 cs value := by
  induction cs generalizing value with
  | nil => exact Nat.le_refl _
  | cons c cs ih =>
      rw [Nat.ofDigitChars_cons]
      exact Nat.le_trans (by omega) (ih _)

/-- The value of a decimal digit. -/
def digitValue (c : Char) : Nat := c.toNat - '0'.toNat

/-- **Why a text is no integer** within the bounds. -/
inductive IntegerFault where
  | empty
  | wrongDigit
  | tooLarge
  | tooSmall
  deriving DecidableEq

/-- The wording of a fault. -/
def IntegerFault.message : IntegerFault → String
  | .empty => "cannot parse integer from empty string"
  | .wrongDigit => "invalid digit found in string"
  | .tooLarge => "number too large to fit in target type"
  | .tooSmall => "number too small to fit in target type"

/-- Reads digits after those that make `value`, as long as the value stays within
`bound`; beyond it, the fault is `beyond`. -/
def readDigits (bound : Nat) (beyond : IntegerFault) (value : Nat) :
    List Char → Except IntegerFault Nat
  | [] => .ok value
  | c :: cs =>
      if c.isDigit then
        let value' := 10 * value + digitValue c
        if value' ≤ bound then readDigits bound beyond value' cs else .error beyond
      else .error .wrongDigit

/-- Reads at least one digit. -/
def readMagnitude (bound : Nat) (beyond : IntegerFault) :
    List Char → Except IntegerFault Nat
  | [] => .error .wrongDigit
  | cs => readDigits bound beyond 0 cs

/-- **Reads an integer** from `lower` to `upper`, where `lower ≤ 0 ≤ upper`.  Only a
negative lower bound makes a minus sign part of the text. -/
def readInteger (lower upper : Int) (s : List Char) : Except IntegerFault Int :=
  match s with
  | [] => .error .empty
  | '+' :: rest => (readMagnitude upper.natAbs .tooLarge rest).map Int.ofNat
  | c :: rest =>
      if c = '-' ∧ lower < 0 then
        (readMagnitude lower.natAbs .tooSmall rest).map fun n => -Int.ofNat n
      else (readMagnitude upper.natAbs .tooLarge (c :: rest)).map Int.ofNat

/-- A text of digits is read as the value of its digits, if that is within the bound. -/
theorem readDigits_eq {bound : Nat} {beyond : IntegerFault} {cs : List Char} {value : Nat}
    (h : ∀ c ∈ cs, c.isDigit = true) (hv : value ≤ bound) :
    readDigits bound beyond value cs =
      if Nat.ofDigitChars 10 cs value ≤ bound then .ok (Nat.ofDigitChars 10 cs value)
      else .error beyond := by
  induction cs generalizing value with
  | nil => rw [Nat.ofDigitChars_nil, if_pos hv, readDigits]
  | cons c cs ih =>
      rw [readDigits, if_pos (h c (List.mem_cons_self ..)), Nat.ofDigitChars_cons]
      by_cases hle : 10 * value + digitValue c ≤ bound
      · rw [if_pos hle]
        exact ih (fun d hd => h d (List.mem_cons_of_mem _ hd)) hle
      · have hlt := le_ofDigitChars cs (10 * value + digitValue c)
        rw [if_neg hle, if_neg]
        exact fun hb => hle (Nat.le_trans hlt hb)

theorem readMagnitude_digits {bound : Nat} {beyond : IntegerFault} {n : Nat} (h : n ≤ bound) :
    readMagnitude bound beyond (digits n) = .ok n := by
  rcases hd : digits n with _ | ⟨c, cs⟩
  · exact absurd hd (digits_ne_nil n)
  · rw [readMagnitude, ← hd, readDigits_eq (fun c hc => isDigit_of_mem_digits hc) (Nat.zero_le _),
      ofDigitChars_digits, if_pos h]
    simp

/-- **An integer within the bounds reads back.** -/
theorem readInteger_ofInt {lower upper n : Int} (hl : lower ≤ n) (hu : n ≤ upper) :
    readInteger lower upper (ofInt n) = .ok n := by
  unfold ofInt
  split
  · rename_i hn
    have hb : n.natAbs ≤ lower.natAbs := by omega
    have hneg : -Int.ofNat n.natAbs = n := by
      rw [Int.ofNat_eq_natCast]
      omega
    rw [readInteger]
    · rw [if_pos ⟨rfl, by omega⟩, readMagnitude_digits hb]
      exact congrArg Except.ok hneg
    · decide
  · rename_i hn
    have hb : n.natAbs ≤ upper.natAbs := by omega
    have hpos : Int.ofNat n.natAbs = n := by
      rw [Int.ofNat_eq_natCast]
      omega
    rcases hd : digits n.natAbs with _ | ⟨c, cs⟩
    · exact absurd hd (digits_ne_nil _)
    · have hc : c.isDigit = true := isDigit_of_mem_digits (n := n.natAbs) (by rw [hd]; simp)
      rw [readInteger]
      · rw [if_neg, ← hd, readMagnitude_digits hb]
        · exact congrArg Except.ok hpos
        · rintro ⟨rfl, -⟩
          simp at hc
      · rintro rfl
        simp at hc

example : readInteger (-128) 127 ['-', '0', '1', '2', '8'] = .ok (-128) := rfl
example : readInteger (-128) 127 ['1', '2', '8', 'x'] = .error .tooLarge := rfl
example : readInteger 0 255 ['-', '0'] = .error .wrongDigit := rfl

end Decimal
end SignatureAutomata
