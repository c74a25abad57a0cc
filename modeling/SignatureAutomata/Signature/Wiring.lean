import SignatureAutomata.Signature.Automaton

/-! # Wiring the automaton of a signature

The automaton of a signature is put together by a program of calls.  From position to position it
goes on from the state that it has come to.  It takes the numbers of new states and the codes of
literals as they are answered, and asks the alphabet for its codes wherever any value may stand.

The steps of `Signature.construction` are told beforehand: they are what this program asks for.
-/

namespace SignatureAutomata

/-- **A program that puts an automaton together** over an alphabet, and may register symbols as it
goes. -/
abbrev Wiring (α β : Type) := EStateM ConstructionError (Alphabet α × Nfa) β

namespace Wiring
variable {α β : Type}

/-- A call on the automaton. -/
def call (x : Nfa.Call β) : Wiring α β := fun (A, N) =>
  match x.run N with
  | .ok b M => .ok b (A, M)
  | .error e M => .error e (A, M)

/-- The codes that are registered by now. -/
def codes : Wiring α (List Nat) := do
  let (A, _) ← get
  pure A.codes

/-- Lays the edges that one value of any kind takes. -/
def anyValue (source target : Nat) : Wiring α Unit := do
  call (Nfa.addSigma source target)
  let codes ← codes
  codes.forM fun code => call (Nfa.addTransition source code target)

variable [DecidableEq α]

/-- Registers a symbol and answers its code. -/
def register (v : α) : Wiring α Nat := modifyGet fun (A, N) =>
  let (B, code) := A.enter v
  (code, B, N)

/-- Puts the fragment of a position behind the state come to, and answers the state that it ends
in. -/
def fragment (k : Counting) (current : Nat) : Token α → Wiring α Nat
  | .literal v => do
      let next ← call (Nfa.newState k)
      let code ← register v
      call (Nfa.addTransition current code next)
      pure next
  | .any => do
      let next ← call (Nfa.newState k)
      anyValue current next
      pure next
  | .anySequence => do
      let a ← call (Nfa.newState k)
      let b ← call (Nfa.newState k)
      let c ← call (Nfa.newState k)
      call (Nfa.addEpsilon current a)
      call (Nfa.addEpsilon a b)
      anyValue a b
      call (Nfa.addEpsilon b c)
      -- the only way back in the automaton
      call (Nfa.addEpsilon c current)
      pure c

/-- **Puts the automaton of a signature together.** -/
def signature (k : Counting) (s : Signature α) : Wiring α Unit := do
  s.literals.forM fun v => do let _ ← register v
  let last ← s.tokens.foldlM (fragment k) Nfa.initial.start
  call (Nfa.addAccepting last)
  call (modify Nfa.cacheClosures)

end Wiring
end SignatureAutomata
