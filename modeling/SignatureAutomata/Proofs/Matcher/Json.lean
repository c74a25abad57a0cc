import SignatureAutomata.Proofs.Json.Value
import SignatureAutomata.Proofs.Matcher.Run

/-! # Matchers read back

A matcher is written as an object of its four fields.  Each is new when its turn comes to be
read, so it is stored, and with the last of them the matcher is complete (`reads_json`).
The states that a matcher mentions are read as numbers of 32 bits, so they must be such
numbers (`HasStateNumbers`).

Reading restores any matcher whatever its table; loading restores it unless it has a fault
(`load_json`).
-/

namespace SignatureAutomata
namespace Matcher

/-- A number that is read as that of a state: one of 32 bits. -/
def IsStateNumber (s : Nat) : Prop := (s : Int) ≤ IntegerType.uint32.upper

instance (s : Nat) : Decidable (IsStateNumber s) :=
  inferInstanceAs (Decidable ((s : Int) ≤ IntegerType.uint32.upper))

/-- **Every state that a matcher mentions is a state number.** -/
structure HasStateNumbers {α : Type} (m : Matcher α) : Prop where
  start : IsStateNumber m.start
  target : ∀ row ∈ m.table, ∀ t ∈ row, IsStateNumber t
  accepting : ∀ s ∈ m.accepting, IsStateNumber s

variable {τ : SymbolType}

/-! ### Fields -/

theorem reads_state {s : Nat} (h : IsStateNumber s) :
    Json.Reads readState (Decimal.digits s) s :=
  Json.reads_natural (Int.natCast_nonneg s) h

theorem item_state {s : Nat} (h : IsStateNumber s) : Json.Item readState (Decimal.digits s) s :=
  Json.item_natural (Int.natCast_nonneg s) h

/-- **A member with the name of a field is read as that field.** -/
theorem members_cons {f f' final : Fields τ.Symbol} {reader : Json.Reader (Fields τ.Symbol)}
    {value : List Char} {ts : List (List Char)} (field : Field)
    (hread : f.read τ field = .ok reader) (hvalue : Json.Reads reader value f')
    (hrest : Json.Members Json.key (Fields.readMember τ) f' ts final) :
    Json.Members Json.key (Fields.readMember τ) f (Json.memberText field.name value :: ts)
      final := by
  refine .cons (Json.item_key field.name.toList) ?_ hvalue hrest
  rw [Fields.readMember, String.ofList_toList, Field.ofName?_name]
  exact hread

/-- The fields of a matcher are read one after the other. -/
theorem members_json {m : Matcher τ.Symbol} (h : m.HasStateNumbers) :
    Json.Members Json.key (Fields.readMember τ) {}
      [Json.memberText Field.symbols.name (Json.arrayText (m.symbols.map (Json.symbolText τ))),
        Json.memberText Field.table.name (Json.arrayText (m.table.map Json.naturalsText)),
        Json.memberText Field.start.name (Decimal.digits m.start),
        Json.memberText Field.accepting.name (Json.naturalsText m.accepting)]
      ⟨some m.symbols, some m.table, some m.start, some m.accepting⟩ := by
  have hsymbols : Json.Reads (readSymbols τ)
      (Json.arrayText (m.symbols.map (Json.symbolText τ))) m.symbols :=
    Json.reads_array fun x _ => Json.item_symbol τ x
  have htable : Json.Reads readTable (Json.arrayText (m.table.map Json.naturalsText)) m.table :=
    Json.reads_array fun row hrow => Json.item_array fun t ht => item_state (h.target row hrow t ht)
  have hstart : Json.Reads readState (Decimal.digits m.start) m.start := reads_state h.start
  have haccepting : Json.Reads readAccepting (Json.naturalsText m.accepting) m.accepting :=
    Json.reads_array fun s hs => item_state (h.accepting s hs)
  refine members_cons .symbols rfl (hsymbols.map _) ?_
  refine members_cons .table rfl (htable.map _) ?_
  refine members_cons .start rfl (hstart.map _) ?_
  exact members_cons .accepting rfl (haccepting.map _) (.nil _)

/-- **A matcher reads back**, whatever its table. -/
theorem reads_json {m : Matcher τ.Symbol} (h : m.HasStateNumbers) :
    Json.Reads (read τ) (m.json τ) m := by
  intro rest _
  refine ⟨rest, ?_, rfl⟩
  rw [json, Json.objectText_append]
  show readMembers τ _ = _
  rw [readMembers, Json.members_intercalate (members_json h)]
  rfl

/-- **A well-formed matcher that is written is loaded as it was**: with the same literals in
order, the same table, start and accepting list. -/
theorem load_json (τ : SymbolType) (m : Matcher τ.Symbol) (hstates : m.HasStateNumbers)
    (hvalid : m.validate = .ok ()) : load τ (String.ofList (m.json τ)) = .ok m := by
  refine load_eq_ok_iff.2 ⟨Json.Reads.document ?_, validate_eq_ok_iff.1 hvalid⟩
  rw [String.toList_ofList]
  exact reads_json hstates

/-- Literals with quotes, a backslash, control characters and characters beyond ASCII, and
the empty one. -/
theorem load_json_escapes :
    let m : Matcher SymbolType.text.Symbol :=
      ⟨["it's \"\\\n\x01é😀", ""], [[1, 0, 1], [1, 1, 0]], 1, [0]⟩
    m.HasStateNumbers ∧ m.validate = .ok () ∧
      load .text (String.ofList (m.json .text)) = .ok m := by
  intro m
  have hstates : m.HasStateNumbers := ⟨by decide, by decide, by decide⟩
  have hvalid : m.validate = .ok () := by rfl
  exact ⟨hstates, hvalid, load_json .text m hstates hvalid⟩

end Matcher
end SignatureAutomata
