/-! # Signatures

A signature says which lists of values it admits, position by position: a literal
stands for one value, `any` for one value of any kind, and `anySequence` for any
number of values, none included.

`admits` is this meaning.  An `anySequence` may take any part from the front, so
what follows it has to admit some suffix of the values.
-/

namespace SignatureAutomata

/-- **One position of a signature.** -/
inductive Token (α : Type) where
  /-- Exactly this value. -/
  | literal (value : α)
  /-- One value of any kind. -/
  | any
  /-- Any number of values. -/
  | anySequence
  deriving DecidableEq

/-- **A signature**: its positions in order. -/
structure Signature (α : Type) where
  tokens : List (Token α)
  deriving DecidableEq

/-- The suffixes of a list, longest first. -/
def suffixes {α : Type} : List α → List (List α)
  | [] => [[]]
  | x :: xs => (x :: xs) :: suffixes xs

theorem mem_suffixes {α : Type} {s l : List α} : s ∈ suffixes l ↔ s <:+ l := by
  induction l with
  | nil => simp [suffixes]
  | cons x xs ih => simp [suffixes, List.suffix_cons_iff, ih]

namespace Token
variable {α : Type}

/-- The value of a literal. -/
def value? : Token α → Option α
  | .literal v => some v
  | _ => none

variable [DecidableEq α]

/-- **What a list of positions admits.** -/
def admits : List (Token α) → List α → Bool
  | [], values => values.isEmpty
  | .literal v :: tokens, values =>
      match values with
      | [] => false
      | x :: rest => x = v && admits tokens rest
  | .any :: tokens, values =>
      match values with
      | [] => false
      | _ :: rest => admits tokens rest
  | .anySequence :: tokens, values => (suffixes values).any (admits tokens)

@[simp] theorem admits_nil (values : List α) : admits [] values = values.isEmpty := rfl

theorem admits_anySequence_iff {tokens : List (Token α)} {values : List α} :
    admits (.anySequence :: tokens) values = true ↔
      ∃ rest, rest <:+ values ∧ admits tokens rest = true := by
  simp [admits, mem_suffixes]

end Token

namespace Signature
variable {α : Type}

/-- The values of the literals, in order. -/
def literals (s : Signature α) : List α := s.tokens.filterMap Token.value?

/-- Whether there are no positions. -/
def isEmpty (s : Signature α) : Bool := s.tokens.isEmpty

/-- **Whether a signature admits a list of values.** -/
def admits [DecidableEq α] (s : Signature α) (values : List α) : Bool :=
  Token.admits s.tokens values

example : (⟨[.any, .anySequence, .literal 5]⟩ : Signature Nat).admits [5, 5] = true := by decide
example : (⟨[.any, .anySequence, .literal 5]⟩ : Signature Nat).admits [5] = false := by decide

end Signature
end SignatureAutomata
