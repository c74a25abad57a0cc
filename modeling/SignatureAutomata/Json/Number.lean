import SignatureAutomata.Json.Reader

/-! # Numbers in JSON texts

The digits of a number are gathered into a significand of 64 bits.  A digit of the
integer part that would not fit any more is dropped with all that follow it there,
each raising the exponent by one; digits behind the point each lower it by one, up
to the first that does not fit.  A number with a point or an exponent, or one that
lost digits, is the nearest floating point number; one out of their range is refused.
-/

namespace SignatureAutomata
namespace Json

/-- Whether a digit still fits behind a significand. -/
def fits (significand : Nat) : Bool := significand ≤ 0xFFFFFFFFFFFFFFFF

/-- Gathers the digits of the integer part: the significand, how many digits were
dropped, and the rest of the text. -/
def gatherInteger (significand dropped : Nat) : List Char → Nat × Nat × List Char
  | [] => (significand, dropped, [])
  | c :: cs =>
      if c.isDigit then
        let longer := 10 * significand + Decimal.digitValue c
        if dropped = 0 ∧ fits longer then gatherInteger longer 0 cs
        else gatherInteger significand (dropped + 1) cs
      else (significand, dropped, c :: cs)

/-- Gathers the digits behind the point: the significand, its exponent, and the rest
of the text. -/
def gatherFraction (significand : Nat) (exponent : Int) : List Char → Nat × Int × List Char
  | [] => (significand, exponent, [])
  | c :: cs =>
      if c.isDigit then
        let longer := 10 * significand + Decimal.digitValue c
        if fits longer then gatherFraction longer (exponent - 1) cs
        else (significand, exponent, cs.dropWhile Char.isDigit)
      else (significand, exponent, c :: cs)

/-- The digits at the front of a text as a natural number. -/
def leadingNat (s : List Char) : Nat := Nat.ofDigitChars 10 (s.takeWhile Char.isDigit) 0

/-- Drops a sign, which says whether what follows is negative. -/
def skipSign : List Char → Bool × List Char
  | '-' :: s => (true, s)
  | '+' :: s => (false, s)
  | s => (false, s)

/-- Reads an exponent behind its letter. -/
def exponent (s : List Char) : Except Failure (Int × List Char) :=
  let (negative, s) := skipSign s
  match s with
  | [] => .error .endOfText
  | c :: cs =>
      if c.isDigit then
        let n : Int := leadingNat (c :: cs)
        .ok (if negative then -n else n, cs.dropWhile Char.isDigit)
      else .error .malformed

/-- The floating point number of a significand and an exponent. -/
def float (negative : Bool) (significand : Nat) (exponent : Int) : Except Failure Number :=
  match Decimal.Binary64.ofScientific significand exponent with
  | some magnitude => .ok (.float negative magnitude)
  | none => .error .malformed

/-- The number of a significand without point and exponent.  There is no negative
integer zero. -/
def integral (negative : Bool) (significand : Nat) : Except Failure Number :=
  if !negative then .ok (.integer significand)
  else if 0 < significand ∧ significand ≤ 0x8000000000000000 then .ok (.integer (-significand))
  else float true significand 0

/-- Reads the exponent of a number, if there is one. -/
def scaled (negative : Bool) (significand : Nat) (place : Int) : Reader Number
  | [] => do .ok (← float negative significand place, [])
  | c :: cs => do
      if c = 'e' ∨ c = 'E' then
        let (shift, rest) ← exponent cs
        .ok (← float negative significand (place + shift), rest)
      else .ok (← float negative significand place, c :: cs)

/-- Reads what follows the integer part of a number. -/
def fraction (negative : Bool) (significand dropped : Nat) : Reader Number
  | '.' :: [] => .error .endOfText
  | '.' :: c :: cs =>
      if c.isDigit then
        let (significand, place, rest) := gatherFraction significand dropped (c :: cs)
        scaled negative significand place rest
      else .error .malformed
  | 'e' :: cs => scaled negative significand dropped ('e' :: cs)
  | 'E' :: cs => scaled negative significand dropped ('E' :: cs)
  | s => do
      if dropped = 0 then .ok (← integral negative significand, s)
      else .ok (← float negative significand dropped, s)

/-- **Reads a number** behind its sign.  A zero is the only digit of its integer part. -/
def number (negative : Bool) : Reader Number
  | [] => .error .endOfText
  | c :: cs =>
      if c = '0' then
        if (cs.head?.any Char.isDigit) then .error .malformed else fraction negative 0 0 cs
      else if c.isDigit then
        let (significand, dropped, rest) := gatherInteger 0 0 (c :: cs)
        fraction negative significand dropped rest
      else .error .malformed

/-! ### Reading what is written -/

/-- Whether a number ends before a text: the text begins with nothing that would go on
with the number. -/
def endsNumber : List Char → Bool
  | [] => true
  | c :: _ => !(c.isDigit || c = '.' || c = 'e' || c = 'E')

theorem gatherInteger_append {cs rest : List Char} {value : Nat}
    (h : ∀ c ∈ cs, c.isDigit = true) (hr : endsNumber rest = true)
    (hv : fits (Nat.ofDigitChars 10 cs value) = true) :
    gatherInteger value 0 (cs ++ rest) = (Nat.ofDigitChars 10 cs value, 0, rest) := by
  induction cs generalizing value with
  | nil =>
      cases rest with
      | nil => rfl
      | cons c rest =>
          have hc : c.isDigit = false := by
            cases hc : c.isDigit
            · rfl
            · simp [endsNumber, hc] at hr
          simp [gatherInteger, hc]
  | cons c cs ih =>
      rw [Nat.ofDigitChars_cons] at hv ⊢
      have hle := Decimal.le_ofDigitChars cs (10 * value + (c.toNat - '0'.toNat))
      have hfit : fits (10 * value + (c.toNat - '0'.toNat)) = true :=
        decide_eq_true (Nat.le_trans hle (of_decide_eq_true hv))
      rw [List.cons_append, gatherInteger, if_pos (h c (List.mem_cons_self ..))]
      dsimp only
      rw [Decimal.digitValue, if_pos ⟨rfl, hfit⟩]
      exact ih (fun d hd => h d (List.mem_cons_of_mem _ hd)) hv

theorem fraction_of_endsNumber {negative : Bool} {significand : Nat} {rest : List Char}
    (h : endsNumber rest = true) :
    fraction negative significand 0 rest = (integral negative significand).map (·, rest) := by
  unfold fraction
  split
  · simp [endsNumber] at h
  · simp [endsNumber] at h
  · simp [endsNumber] at h
  · simp [endsNumber] at h
  · rw [if_pos rfl]
    cases integral negative significand <;> rfl

/-- **Digits behind a sign are read as an integer**, if they fit. -/
theorem number_digits {negative : Bool} {n : Nat} {rest : List Char} (hn : fits n = true)
    (hr : endsNumber rest = true) :
    number negative (Decimal.digits n ++ rest) = (integral negative n).map (·, rest) := by
  rcases hd : Decimal.digits n with _ | ⟨c, cs⟩
  · exact absurd hd (Decimal.digits_ne_nil n)
  · have hdigit : c.isDigit = true := Decimal.isDigit_of_mem_digits (n := n) (by rw [hd]; simp)
    rw [List.cons_append, number]
    by_cases hc : c = '0'
    · subst hc
      obtain ⟨rfl, rfl⟩ := Decimal.digits_eq_cons_zero hd
      have hhead : ¬ rest.head?.any Char.isDigit = true := by
        cases rest with
        | nil => simp
        | cons d rest =>
            intro hd'
            simp only [List.head?_cons, Option.any_some] at hd'
            simp [endsNumber, hd'] at hr
      rw [if_pos rfl, List.nil_append, if_neg hhead, fraction_of_endsNumber hr]
    · rw [if_neg hc, if_pos hdigit, ← List.cons_append, ← hd, gatherInteger_append _ hr]
      · rw [Decimal.ofDigitChars_digits]
        exact fraction_of_endsNumber hr
      · rwa [Decimal.ofDigitChars_digits]
      · exact fun d hd => Decimal.isDigit_of_mem_digits hd

/-! ### Passing over numbers -/

/-- Drops at least one digit. -/
def skipDigits : List Char → Except Failure (List Char)
  | [] => .error .malformed
  | c :: cs => if c.isDigit then .ok (cs.dropWhile Char.isDigit) else .error .malformed

/-- Drops the exponent of a number, if there is one. -/
def skipExponent : List Char → Except Failure (List Char)
  | 'e' :: s => skipDigits (skipSign s).2
  | 'E' :: s => skipDigits (skipSign s).2
  | s => .ok s

/-- Drops a number behind its sign.  Its size does not matter; where it breaks off it
is no number, even at the end of the text. -/
def skipNumber (s : List Char) : Except Failure (List Char) := do
  let rest ←
    match s with
    | '0' :: cs => if (cs.head?.any Char.isDigit) then .error .malformed else .ok cs
    | s => skipDigits s
  match rest with
  | '.' :: s => skipExponent (← skipDigits s)
  | s => skipExponent s

example : number false "18446744073709551615,".toList =
    .ok (.integer 0xFFFFFFFFFFFFFFFF, [',']) := by rfl
example : number true "0".toList = .ok (.float true .zero, []) := by rfl
example : number false "01".toList = .error .malformed := by rfl
example : number false "1.".toList = .error .endOfText := by rfl
example : skipNumber "1.".toList = .error .malformed := by rfl

end Json
end SignatureAutomata
