import SignatureAutomata.Proofs.Json.Reading

/-! # Values read back from how they are written

An integer of any type lies within the 64 bits, signed or unsigned, that an integer of a JSON
text may have (`IntegerType.lower_ge`, `IntegerType.upper_le`), so it is read as an integer
and not as a floating point number (`signedNumber?_ofInt`).  A text is read back whatever its
characters are (`reads_string`).  Arrays are read back if their elements are
(`reads_array`).
-/

namespace SignatureAutomata

theorem IntegerType.lower_ge (type : IntegerType) : -0x8000000000000000 ≤ type.lower := by
  cases type <;> decide

theorem IntegerType.upper_le (type : IntegerType) : type.upper ≤ 0xFFFFFFFFFFFFFFFF := by
  cases type <;> decide

namespace Json

section Readers
variable {β γ : Type} {reader : Reader β} {text : List Char} {x : β}

theorem Reads.map (h : Reads reader text x) (f : β → γ) : Reads (reader.map f) text (f x) := by
  intro rest hrest
  obtain ⟨left, hread, hleft⟩ := h rest hrest
  refine ⟨left, ?_, hleft⟩
  simp only [Reader.map, hread, bind, Except.bind]

/-- A text without space in front is an item. -/
theorem Reads.item {c : Char} {cs : List Char} (h : Reads reader (c :: cs) x)
    (hspace : isSpace c = false) (hc : c ≠ ']') (hc' : c ≠ '\x7d') : Item reader (c :: cs) x := by
  obtain ⟨hbegins, hskip⟩ := beginsItem_cons hspace hc hc' cs
  refine ⟨hbegins, ?_⟩
  rw [hskip]
  exact h

/-- **A whole text holds what is read from it.** -/
theorem Reads.document {s : String} (h : Reads reader s.toList x) : document reader s = .ok x := by
  obtain ⟨left, hread, hleft⟩ := h [] rfl
  rw [List.append_nil] at hread
  have hempty : (skipSpace left).isEmpty = true := by
    rw [hleft]
    rfl
  simp only [Json.document, hread, bind, Except.bind, hempty, if_true]

end Readers

/-! ### Integers -/

/-- A digit opens neither space nor a bracket, nor is it a sign. -/
theorem digit_ne {c : Char} (h : c.isDigit = true) :
    isSpace c = false ∧ c ≠ ']' ∧ c ≠ '\x7d' ∧ c ≠ '-' := by
  refine ⟨?_, ?_, ?_, ?_⟩
  · cases hs : isSpace c with
    | false => rfl
    | true =>
        simp only [isSpace, Bool.or_eq_true, decide_eq_true_eq] at hs
        rcases hs with ((rfl | rfl) | rfl) | rfl <;> cases h
  all_goals
    rintro rfl
    cases h

/-- An integer begins with a sign or a digit. -/
theorem exists_ofInt_eq_cons (n : Int) :
    ∃ c cs, Decimal.ofInt n = c :: cs ∧ isSpace c = false ∧ c ≠ ']' ∧ c ≠ '\x7d' := by
  unfold Decimal.ofInt
  split
  · exact ⟨'-', _, rfl, rfl, by decide, by decide⟩
  · obtain ⟨c, cs, h, hdigit⟩ := Decimal.exists_digits_eq_cons n.natAbs
    exact ⟨c, cs, h, (digit_ne hdigit).1, (digit_ne hdigit).2.1, (digit_ne hdigit).2.2.1⟩

/-- **An integer of 64 bits, signed or unsigned, is read as that integer.** -/
theorem signedNumber?_ofInt {n : Int} {rest : List Char} (hl : -0x8000000000000000 ≤ n)
    (hu : n ≤ 0xFFFFFFFFFFFFFFFF) (hrest : endsNumber rest = true) :
    signedNumber? (Decimal.ofInt n ++ rest) = some (.ok (.integer n, rest)) := by
  have hfits : fits n.natAbs = true := decide_eq_true (by omega)
  unfold Decimal.ofInt
  split
  · rename_i hneg
    have habs : -(n.natAbs : Int) = n := by omega
    have hintegral : integral true n.natAbs = .ok (.integer n) := by
      rw [integral, if_neg (by decide), if_pos ⟨by omega, by omega⟩, habs]
    rw [List.cons_append, signedNumber?, if_pos rfl, number_digits hfits hrest, hintegral]
    rfl
  · rename_i hpos
    have habs : (n.natAbs : Int) = n := by omega
    obtain ⟨c, cs, h, hdigit⟩ := Decimal.exists_digits_eq_cons n.natAbs
    have hintegral : integral false n.natAbs = .ok (.integer n) := by
      rw [integral, Bool.not_false, if_pos rfl, habs]
    rw [h, List.cons_append, signedNumber?, if_neg (digit_ne hdigit).2.2.2, if_pos hdigit,
      ← List.cons_append, ← h, number_digits hfits hrest, hintegral]
    rfl

/-- **An integer of a type reads back.** -/
theorem reads_integer (type : IntegerType) (v : type.Value) :
    Reads (integer type) (Decimal.ofInt v.val) v := by
  intro rest hrest
  have hnumber := signedNumber?_ofInt (Int.le_trans type.lower_ge v.property.1)
    (Int.le_trans v.property.2 type.upper_le) hrest
  have hskip : skipSpace (Decimal.ofInt v.val ++ rest) = Decimal.ofInt v.val ++ rest := by
    obtain ⟨c, cs, h, hspace, hc, hc'⟩ := exists_ofInt_eq_cons v.val
    rw [h]
    exact (beginsItem_cons hspace hc hc' _).2
  refine ⟨rest, ?_, rfl⟩
  unfold integer
  rw [hskip, hnumber]
  simp only [bind, Except.bind, toInteger, IntegerType.ofInt?_val]

/-- **A natural number within the bounds of a type reads back.** -/
theorem reads_natural {type : IntegerType} {n : Nat} (hl : type.lower ≤ n) (hu : n ≤ type.upper) :
    Reads (natural type) (Decimal.digits n) n :=
  (reads_integer type ⟨n, hl, hu⟩).map (·.val.toNat)

theorem item_natural {type : IntegerType} {n : Nat} (hl : type.lower ≤ n) (hu : n ≤ type.upper) :
    Item (natural type) (Decimal.digits n) n := by
  obtain ⟨c, cs, h, hdigit⟩ := Decimal.exists_digits_eq_cons n
  have hreads := reads_natural hl hu
  rw [h] at hreads ⊢
  exact hreads.item (digit_ne hdigit).1 (digit_ne hdigit).2.1 (digit_ne hdigit).2.2.1

/-! ### Texts -/

theorem quote_append (s rest : List Char) :
    quote s ++ rest = '"' :: (s.flatMap escape ++ '"' :: rest) := by
  simp [quote]

/-- **A text reads back**, whatever its characters. -/
theorem reads_string (expected : Expected) (s : List Char) :
    Reads (string expected) (quote s) s := by
  intro rest _
  refine ⟨rest, ?_, rfl⟩
  rw [quote_append]
  exact unquoted_escape s rest

theorem reads_key (s : List Char) : Reads key (quote s) s := by
  intro rest _
  refine ⟨rest, ?_, rfl⟩
  rw [quote_append]
  exact unquoted_escape s rest

theorem item_key (s : List Char) : Item key (quote s) s :=
  (reads_key s).item rfl (by decide) (by decide)

/-! ### Symbols -/

/-- **A symbol of any type reads back.** -/
theorem item_symbol (τ : SymbolType) (v : τ.Symbol) : Item (symbol τ) (symbolText τ v) v := by
  cases τ with
  | integer type =>
      obtain ⟨c, cs, h, hspace, hc, hc'⟩ := exists_ofInt_eq_cons v.val
      have hreads := reads_integer type v
      simp only [symbolText, symbol]
      rw [h] at hreads ⊢
      exact hreads.item hspace hc hc'
  | text =>
      have hreads := (reads_string .string v.toList).map String.ofList
      rw [String.ofList_toList] at hreads
      exact hreads.item rfl (by decide) (by decide)

/-! ### Arrays -/

section Arrays
variable {β : Type} {element : Reader β} {write : β → List Char} {xs : List β}

/-- **An array reads back** if its elements do. -/
theorem reads_array (h : ∀ x ∈ xs, Item element (write x) x) :
    Reads (array element) (arrayText (xs.map write)) xs := by
  intro rest _
  refine ⟨rest, ?_, rfl⟩
  have hitems : List.Forall₂ (Item element) (xs.map write) xs :=
    List.forall₂_map_left_iff.2 (List.forall₂_same.2 h)
  rw [arrayText_append]
  exact elements_intercalate hitems rest

theorem item_array (h : ∀ x ∈ xs, Item element (write x) x) :
    Item (array element) (arrayText (xs.map write)) xs :=
  (reads_array h).item rfl (by decide) (by decide)

end Arrays
end Json
end SignatureAutomata
