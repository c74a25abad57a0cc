/-! # Codes

Automata do not see values but codes, which are natural numbers.  Two of them are
reserved: `Code.epsilon` labels an edge that consumes nothing, and `Code.sigma` an
edge that consumes one value of any kind; it is also the code of a value that has
none of its own.  The symbols of an alphabet have the codes from
`Code.firstSymbol` on.
-/

namespace SignatureAutomata
namespace Code

/-- Labels an edge that consumes nothing. -/
def epsilon : Nat := 0

/-- Labels an edge that consumes one value of any kind. -/
def sigma : Nat := 1

/-- The code of the first symbol. -/
def firstSymbol : Nat := 2

/-- Whether a code is `epsilon` or `sigma`, and so never that of a symbol. -/
def isReserved (code : Nat) : Bool := code < firstSymbol

theorem isReserved_iff {code : Nat} :
    isReserved code = true ↔ code = epsilon ∨ code = sigma := by
  rw [isReserved, decide_eq_true_iff]
  show code < 2 ↔ code = 0 ∨ code = 1
  omega

/-- The table column that holds the transitions on a code: there is none for
`epsilon`, and `sigma` has the first. -/
def column : Nat → Option Nat
  | 0 => none
  | code + 1 => some code

@[simp] theorem column_sigma : column sigma = some 0 := rfl

end Code
end SignatureAutomata
