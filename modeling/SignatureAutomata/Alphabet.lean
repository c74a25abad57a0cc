import SignatureAutomata.Code

/-! # Alphabets

An alphabet is a list of distinct symbols that only ever grows at its end.  The
symbol at index `i` has the code `firstSymbol + i`; a value that is not registered
has the code `sigma`.  Since registration never moves a symbol, a code once given
stays (`codeOf_register`), and automata built over an alphabet keep their meaning
while it grows.
-/

namespace SignatureAutomata

/-- **An alphabet**: its symbols in the order in which they were registered. -/
structure Alphabet (α : Type) where
  symbols : List α
  /-- No symbol is registered twice. -/
  distinct : symbols.Nodup

namespace Alphabet
variable {α : Type}

/-- The alphabet without symbols. -/
def empty : Alphabet α := ⟨[], .nil⟩

/-- The number of symbols. -/
def size (A : Alphabet α) : Nat := A.symbols.length

/-- Whether no symbol is registered. -/
def isEmpty (A : Alphabet α) : Bool := A.symbols.isEmpty

/-- The codes of the symbols, ascending. -/
def codes (A : Alphabet α) : List Nat := List.range' Code.firstSymbol A.size

/-- The symbol with a given code, if there is one. -/
def symbolOf (A : Alphabet α) (code : Nat) : Option α :=
  if Code.isReserved code then none else A.symbols[code - Code.firstSymbol]?

variable [DecidableEq α]

/-- The code of a value: that of the symbol equal to it, or else `sigma`. -/
def codeOf (A : Alphabet α) (x : α) : Nat :=
  if x ∈ A.symbols then Code.firstSymbol + A.symbols.idxOf x else Code.sigma

/-- Registers a symbol at the end, unless it is registered already. -/
def register (A : Alphabet α) (x : α) : Alphabet α :=
  if h : x ∈ A.symbols then A
  else
    ⟨A.symbols ++ [x], List.nodup_append.2
      ⟨A.distinct, List.pairwise_singleton _ x, fun _ ha _ hb hab =>
        h (List.mem_singleton.1 hb ▸ hab ▸ ha)⟩⟩

/-- Registers a symbol and answers its code: the one it has already, or that of its place at the
end. -/
def enter (A : Alphabet α) (x : α) : Alphabet α × Nat :=
  if x ∈ A.symbols then (A, Code.firstSymbol + A.symbols.idxOf x)
  else (A.register x, Code.firstSymbol + A.size)

/-- Registers the symbols of a list in turn. -/
def registerAll (A : Alphabet α) (xs : List α) : Alphabet α := xs.foldl register A

/-- The alphabet of the symbols of a list. -/
def ofList (xs : List α) : Alphabet α := empty.registerAll xs

theorem register_of_mem {A : Alphabet α} {x : α} (h : x ∈ A.symbols) : A.register x = A :=
  dif_pos h

theorem symbols_register {A : Alphabet α} {x : α} (h : x ∉ A.symbols) :
    (A.register x).symbols = A.symbols ++ [x] := by
  simp [register, h]

theorem codeOf_of_not_mem {A : Alphabet α} {x : α} (h : x ∉ A.symbols) :
    A.codeOf x = Code.sigma := if_neg h

/-- **The code that is answered is the symbol's from then on.** -/
theorem enter_eq (A : Alphabet α) (x : α) :
    A.enter x = (A.register x, (A.register x).codeOf x) := by
  unfold enter
  split
  · rename_i h
    rw [register_of_mem h, codeOf, if_pos h]
  · rename_i h
    have hmem : x ∈ (A.register x).symbols := by simp [symbols_register h]
    rw [codeOf, if_pos hmem, symbols_register h]
    simp [List.idxOf_append, h, size]

/-- **A code once given stays.** -/
theorem codeOf_register {A : Alphabet α} {x : α} (h : x ∈ A.symbols) (y : α) :
    (A.register y).codeOf x = A.codeOf x := by
  by_cases hy : y ∈ A.symbols
  · rw [register_of_mem hy]
  · simp [codeOf, symbols_register hy, h, List.idxOf_append]

example : (ofList [7, 1, 7, 4]).symbols = [7, 1, 4] := by decide
example : ([1, 2, 4].map (ofList [7, 1, 7, 4]).codeOf) = [3, 1, 4] := by decide

end Alphabet
end SignatureAutomata
