import SignatureAutomata.Proofs.Alphabet
import SignatureAutomata.Proofs.Exploration
import SignatureAutomata.Proofs.Signature.Automaton

/-! # Codes number the symbols

An alphabet is filled by calls of three kinds: a symbol is registered, the literals of a
signature are, or a signature is compiled, which registers its literals too
(`Registration`).  Whatever the calls, the alphabet then has the symbols that they name, each
once and where it was named first (`symbols_registerAll`), and its codes number them: the
first symbol has the code `2`, the next one `3`, and so on (`map_codeOf_symbols`).  What a list adds
to an alphabet is its `fresh` members, which get the next codes (`map_codeOf_fresh`).

A code and a symbol determine each other (`symbolOf_eq_some_iff`).  What has no place in this
numbering is marked as such: a value that is no symbol has `Code.sigma`, and a number that is
no symbol's code, such as either reserved code, has no symbol (`symbolOf_eq_none`).
-/

namespace SignatureAutomata

/-- **A call that registers symbols.** -/
inductive Registration (α : Type) where
  /-- One symbol. -/
  | symbol (x : α)
  /-- The literals of a signature. -/
  | seed (s : Signature α)
  /-- The literals of a signature that is made into an automaton. -/
  | compile (s : Signature α)

/-- The symbols that a call names, in order. -/
def Registration.symbols {α : Type} : Registration α → List α
  | .symbol x => [x]
  | .seed s | .compile s => s.literals

/-- Nothing is dropped from a list without duplicates. -/
theorem eraseDups_eq_self {α : Type} [DecidableEq α] {l : List α} (h : l.Nodup) :
    l.eraseDups = l := by
  induction l with
  | nil => rfl
  | cons x l ih =>
      obtain ⟨hx, hl⟩ := List.nodup_cons.1 h
      have hfilter : (l.filter fun y => !y == x) = l := by
        refine List.filter_eq_self.2 fun y hy => ?_
        have hne : y ≠ x := fun hyx => hx (hyx ▸ hy)
        simpa using hne
      rw [List.eraseDups_cons, hfilter, ih hl]

namespace Alphabet
variable {α : Type} [DecidableEq α] {A : Alphabet α}

/-! ### Calls -/

/-- The alphabet after one call. -/
def after (A : Alphabet α) : Registration α → Alphabet α
  | .symbol x => A.register x
  | .seed s => s.seed A
  | .compile s =>
      match s.automaton A with
      | .ok (B, _) => B
      | .error _ => s.seed A

/-- The alphabet after calls made one after the other. -/
def afterAll (A : Alphabet α) (calls : List (Registration α)) : Alphabet α :=
  calls.foldl after A

theorem afterAll_append (A : Alphabet α) (calls later : List (Registration α)) :
    A.afterAll (calls ++ later) = (A.afterAll calls).afterAll later := List.foldl_append

/-- **Every call registers the symbols that it names in turn**: no automaton is refused. -/
theorem after_eq (A : Alphabet α) (call : Registration α) :
    A.after call = A.registerAll call.symbols := by
  cases call with
  | symbol x => rfl
  | seed s => rfl
  | compile s =>
      obtain ⟨N, hN, -⟩ := s.exists_automaton A
      rw [after, hN]
      rfl

theorem afterAll_eq (A : Alphabet α) (calls : List (Registration α)) :
    A.afterAll calls = A.registerAll (calls.flatMap Registration.symbols) := by
  induction calls generalizing A with
  | nil => rfl
  | cons call calls ih =>
      show (A.after call).afterAll calls = _
      rw [ih, after_eq, List.flatMap_cons, registerAll_append]

/-! ### Symbols -/

/-- **The symbols are those named, each where it was named first.** -/
theorem symbols_registerAll (A : Alphabet α) (xs : List α) :
    (A.registerAll xs).symbols = (A.symbols ++ xs).eraseDups := by
  induction xs generalizing A with
  | nil =>
      rw [List.append_nil, eraseDups_eq_self A.distinct]
      rfl
  | cons x xs ih =>
      show ((A.register x).registerAll xs).symbols = _
      rw [ih]
      by_cases hx : x ∈ A.symbols
      · -- the symbol stands further ahead already
        rw [register_of_mem hx, List.eraseDups_append, List.eraseDups_append, List.cons_removeAll,
          if_neg (by simpa using hx)]
      · rw [symbols_register hx, List.append_assoc]
        rfl

/-! ### Codes -/

/-- **A code and a symbol determine each other.** -/
theorem symbolOf_eq_some_iff {code : Nat} {x : α} :
    A.symbolOf code = some x ↔ x ∈ A.symbols ∧ A.codeOf x = code := by
  unfold symbolOf
  constructor
  · intro h
    split at h
    · cases h
    · rename_i hcode
      obtain ⟨hlt, rfl⟩ := List.getElem?_eq_some_iff.1 h
      have hmem : A.symbols[code - Code.firstSymbol] ∈ A.symbols := List.getElem_mem hlt
      refine ⟨hmem, ?_⟩
      have hle : Code.firstSymbol ≤ code := by simpa [Code.isReserved] using hcode
      rw [codeOf_of_mem hmem, A.distinct.idxOf_getElem _ hlt]
      omega
  · rintro ⟨hx, rfl⟩
    have hlt : A.symbols.idxOf x < A.symbols.length := List.idxOf_lt_length_of_mem hx
    have hcode : ¬ Code.isReserved (Code.firstSymbol + A.symbols.idxOf x) = true := by
      simp [Code.isReserved]
    rw [codeOf_of_mem hx, if_neg hcode, Nat.add_sub_cancel_left, List.getElem?_eq_getElem hlt,
      List.getElem_idxOf hlt]

/-- Every code of the alphabet is some symbol's. -/
theorem exists_codeOf_eq {code : Nat} (h : code ∈ A.codes) :
    ∃ x ∈ A.symbols, A.codeOf x = code := by
  obtain ⟨hle, hlt⟩ := mem_codes_iff.1 h
  have hindex : code - Code.firstSymbol < A.symbols.length := by
    show _ < A.size
    omega
  refine ⟨A.symbols[code - Code.firstSymbol], List.getElem_mem hindex, ?_⟩
  rw [codeOf_of_mem (List.getElem_mem hindex), A.distinct.idxOf_getElem _ hindex]
  omega

/-- A number that is no symbol's code has no symbol. -/
theorem symbolOf_eq_none {code : Nat} (h : code ∉ A.codes) : A.symbolOf code = none := by
  cases hx : A.symbolOf code with
  | none => rfl
  | some x =>
      obtain ⟨hmem, rfl⟩ := symbolOf_eq_some_iff.1 hx
      exact absurd (codeOf_mem_codes_iff.2 hmem) h

/-- The codes of the symbols, symbol by symbol, are the codes in order. -/
theorem map_codeOf_symbols (A : Alphabet α) : A.symbols.map A.codeOf = A.codes := by
  refine List.ext_getElem (by simp [codes, size]) fun i hi _ => ?_
  rw [List.length_map] at hi
  rw [List.getElem_map, codeOf_of_mem (List.getElem_mem hi), A.distinct.idxOf_getElem _ hi]
  simp [codes]

/-! ### New symbols -/

/-- **The members of a list that are not registered yet**, each where it comes first. -/
def fresh (A : Alphabet α) (xs : List α) : List α := (xs.filter (· ∉ A.symbols)).eraseDups

theorem fresh_cons_of_mem {x : α} (h : x ∈ A.symbols) (xs : List α) :
    A.fresh (x :: xs) = A.fresh xs := by
  rw [fresh, List.filter_cons_of_neg (by simpa using h), fresh]

/-- A new symbol is not new any more when it comes again. -/
theorem fresh_cons_of_not_mem {x : α} (h : x ∉ A.symbols) (xs : List α) :
    A.fresh (x :: xs) = x :: (A.register x).fresh xs := by
  rw [fresh, List.filter_cons_of_pos (by simpa using h), List.eraseDups_cons, List.filter_filter,
    fresh]
  congr 3
  funext y
  rw [Bool.eq_iff_iff]
  simp [mem_symbols_register, and_comm]

theorem symbols_registerAll_eq_append (A : Alphabet α) (xs : List α) :
    (A.registerAll xs).symbols = A.symbols ++ A.fresh xs := by
  have hnew : xs.removeAll A.symbols = xs.filter (· ∉ A.symbols) :=
    List.filter_congr fun x _ => by simp
  rw [symbols_registerAll, List.eraseDups_append, eraseDups_eq_self A.distinct, hnew, fresh]

/-- **New symbols get consecutive codes**, from behind those given so far. -/
theorem map_codeOf_fresh (A : Alphabet α) (xs : List α) :
    (A.fresh xs).map (A.registerAll xs).codeOf =
      List.range' (Code.firstSymbol + A.size) (A.fresh xs).length := by
  have hcodes := map_codeOf_symbols (A.registerAll xs)
  rw [codes, size, symbols_registerAll_eq_append, List.map_append, List.length_append,
    ← List.range'_append_1] at hcodes
  exact (List.append_inj hcodes (by simp)).2

/-! ### The numbering -/

/-- **The codes of `A` number the values of a list** in the order in which they come first. -/
structure Numbers (A : Alphabet α) (xs : List α) : Prop where
  symbols_eq : A.symbols = xs.eraseDups
  /-- The codes are `2, 3, …, size + 1`. -/
  codes_eq : A.codes = List.range' 2 A.size
  codes_eq_map : A.codes = A.symbols.map A.codeOf
  symbolOf_codeOf : ∀ x ∈ A.symbols, A.codeOf x ∈ A.codes ∧ A.symbolOf (A.codeOf x) = some x
  codeOf_symbolOf : ∀ code ∈ A.codes, ∃ x ∈ A.symbols,
    A.symbolOf code = some x ∧ A.codeOf x = code
  codeOf_other : ∀ x, x ∉ A.symbols → A.codeOf x = Code.sigma
  symbolOf_other : ∀ code, code ∉ A.codes → A.symbolOf code = none
  symbolOf_reserved : A.symbolOf Code.epsilon = none ∧ A.symbolOf Code.sigma = none

theorem numbers_ofList (xs : List α) : (ofList xs).Numbers xs where
  symbols_eq := symbols_registerAll empty xs
  codes_eq := rfl
  codes_eq_map := (map_codeOf_symbols _).symm
  symbolOf_codeOf x hx := ⟨codeOf_mem_codes_iff.2 hx, symbolOf_eq_some_iff.2 ⟨hx, rfl⟩⟩
  codeOf_symbolOf code hcode := by
    obtain ⟨x, hx, hcode⟩ := exists_codeOf_eq hcode
    exact ⟨x, hx, symbolOf_eq_some_iff.2 ⟨hx, hcode⟩, hcode⟩
  codeOf_other _ := codeOf_of_not_mem
  symbolOf_other _ := symbolOf_eq_none
  symbolOf_reserved := ⟨rfl, rfl⟩

/-- **However an alphabet is filled, its codes number the symbols named**, in the order in
which they were named first, **and no later call changes a code.** -/
theorem numbers_afterAll (ys : List α) (calls : List (Registration α)) :
    ((ofList ys).afterAll calls).Numbers (ys ++ calls.flatMap Registration.symbols) ∧
      ∀ (later : List (Registration α)) (x : α), x ∈ ((ofList ys).afterAll calls).symbols →
        ((ofList ys).afterAll (calls ++ later)).codeOf x =
          ((ofList ys).afterAll calls).codeOf x := by
  constructor
  · have hfilled : (ofList ys).afterAll calls =
        ofList (ys ++ calls.flatMap Registration.symbols) := by
      rw [afterAll_eq, ofList, ofList, registerAll_append]
    rw [hfilled]
    exact numbers_ofList _
  · intro later x hx
    rw [afterAll_append, afterAll_eq _ later]
    exact codeOf_registerAll hx _

end Alphabet
end SignatureAutomata
