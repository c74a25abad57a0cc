import Mathlib.Data.List.Count
import SignatureAutomata.Proofs.Json.Members
import SignatureAutomata.Proofs.Matcher.Json

/-! # What is read as a matcher has every field once

A member whose name is that of a field stores the value of the field, which must not be there yet;
a member of any other name stores nothing (`stored_of_read`).  So in the end each field is stored
as often as it is named (`stored_of_steps`), and a matcher is complete only with all of them
(`eachFieldOnce_of_document`).  A key that spells no text cannot be read, so there is none.
-/

namespace SignatureAutomata
namespace Matcher

variable {τ : SymbolType}

namespace Field

theorem ofName?_eq_some_iff {name : String} {f : Field} :
    ofName? name = some f ↔ name = f.name := by
  constructor
  · intro h
    have hname := List.find?_some h
    exact (beq_iff_eq.1 hname).symm
  · rintro rfl
    exact ofName?_name f

/-- The fields of a key are told by the text of the key. -/
theorem ofName?_ofList_eq_some_iff {k : List Char} {f : Field} :
    ofName? (String.ofList k) = some f ↔ k = f.name.toList := by
  rw [ofName?_eq_some_iff]
  refine ⟨fun h => ?_, fun h => ?_⟩
  · rw [← h, String.toList_ofList]
  · rw [h, String.ofList_toList]

theorem name_toList_inj {f g : Field} : f.name.toList = g.name.toList ↔ f = g := by
  cases f <;> cases g <;> decide

end Field

/-- **Every field is there exactly once**, among whatever other members. -/
def EachFieldOnce (members : List Json.AnyMember) : Prop :=
  ∀ f : Field, (members.map Json.AnyMember.name?).count (some f.name.toList) = 1

/-! ### Fields that are stored -/

namespace Fields
variable {α : Type} {x : Fields α}

/-- Whether the value of a field was read. -/
def isStored (x : Fields α) : Field → Bool
  | .symbols => x.symbols.isSome
  | .table => x.table.isSome
  | .start => x.start.isSome
  | .accepting => x.accepting.isSome

theorem once_eq_ok {β σ : Type} {f : Field} {present : Option β} {reader : Json.Reader β}
    {store : β → σ} {stored : Json.Reader σ} (h : once f present reader store = .ok stored) :
    present = none ∧ stored = reader.map store := by
  cases present with
  | some x => cases h
  | none => exact ⟨rfl, (Except.ok.inj h).symm⟩

theorem require_eq_ok {β : Type} {f : Field} {present : Option β} {v : β}
    (h : require f present = .ok v) : present = some v := by
  cases present with
  | none => cases h
  | some x => exact congrArg some (Except.ok.inj h)

/-- **A matcher is complete with every field.** -/
theorem isStored_of_toMatcher {m : Matcher α} (h : x.toMatcher = .ok m) (f : Field) :
    x.isStored f = true := by
  obtain ⟨symbols, hsymbols, h⟩ := Json.exists_of_bind_eq_ok h
  obtain ⟨table, htable, h⟩ := Json.exists_of_bind_eq_ok h
  obtain ⟨start, hstart, h⟩ := Json.exists_of_bind_eq_ok h
  obtain ⟨accepting, haccepting, -⟩ := Json.exists_of_bind_eq_ok h
  cases f with
  | symbols => exact Option.isSome_of_eq_some (require_eq_ok hsymbols)
  | table => exact Option.isSome_of_eq_some (require_eq_ok htable)
  | start => exact Option.isSome_of_eq_some (require_eq_ok hstart)
  | accepting => exact Option.isSome_of_eq_some (require_eq_ok haccepting)

end Fields

section Reading
variable {x x' final : Fields τ.Symbol} {k s left : List Char}
  {reader : Json.Reader (Fields τ.Symbol)}

/-- **One member stores the value of the field that it names**, which was not there yet. -/
theorem stored_of_read (hreader : Fields.readMember τ k x = .ok reader)
    (hread : reader s = .ok (x', left)) (f : Field) :
    (x'.isStored f).toNat = (x.isStored f).toNat + if k = f.name.toList then 1 else 0 := by
  unfold Fields.readMember at hreader
  split at hreader
  · rename_i field hfield
    obtain rfl := Field.ofName?_ofList_eq_some_iff.1 hfield
    simp only [Field.name_toList_inj]
    cases field
    all_goals
      obtain ⟨habsent, rfl⟩ := Fields.once_eq_ok hreader
      obtain ⟨value, -, rfl⟩ := Json.map_eq_ok hread
      cases f <;> simp [Fields.isStored, habsent]
  · rename_i hfield
    obtain rfl := Except.ok.inj hreader
    obtain ⟨_, -, rfl⟩ := Json.map_eq_ok hread
    have hk : k ≠ f.name.toList := by
      intro hk
      rw [Field.ofName?_ofList_eq_some_iff.2 hk] at hfield
      cases hfield
    rw [if_neg hk, Nat.add_zero]

/-- **All members store every field as often as it is named.** -/
theorem stored_of_steps {ks : List (List Char)} (h : Json.Steps (Fields.readMember τ) x ks final)
    (f : Field) :
    (final.isStored f).toNat = (x.isStored f).toNat + ks.count f.name.toList := by
  induction h with
  | nil => rw [List.count_nil, Nat.add_zero]
  | cons hreader hread _ ih =>
      rw [ih, stored_of_read hreader hread f, List.count_cons, Nat.add_assoc]
      simp only [beq_iff_eq, Nat.add_comm]

theorem takesWhole_once {β σ : Type} {f : Field} {present : Option β} {reader : Json.Reader β}
    {store : β → σ} {stored : Json.Reader σ} (h : Json.Passes reader)
    (honce : Fields.once f present reader store = .ok stored) : Json.TakesWhole stored := by
  obtain ⟨-, rfl⟩ := Fields.once_eq_ok honce
  exact h.takesWhole.map store

theorem takesWhole_readMember (hreader : Fields.readMember τ k x = .ok reader) :
    Json.TakesWhole reader := by
  have hstates : Json.Passes readState := Json.passes_natural .uint32
  unfold Fields.readMember at hreader
  split at hreader
  · rename_i field _
    cases field with
    | symbols => exact takesWhole_once (Json.passes_array (Json.passes_symbol τ)) hreader
    | table => exact takesWhole_once (Json.passes_array (Json.passes_array hstates)) hreader
    | start => exact takesWhole_once hstates hreader
    | accepting => exact takesWhole_once (Json.passes_array hstates) hreader
  · obtain rfl := Except.ok.inj hreader
    exact Json.takesWhole_skipValue.map _

/-- **An object that is read as a matcher has every field exactly once**, and all its keys spell
names. -/
theorem eachFieldOnce_of_document {text : String} {members : List Json.AnyMember}
    {m : Matcher τ.Symbol} (h : Json.Padded (Json.AnyObjectText members) text.toList)
    (hread : Json.document (read τ) text = .ok m) :
    EachFieldOnce members ∧ ∀ x ∈ members, x.name?.isSome = true := by
  have hobject : ∀ {s left}, readMembers τ s = .ok (m, left) →
      ∃ final rest, Json.members Json.key (Fields.readMember τ) {} s = .ok (final, rest) ∧
        ∃ m, final.toMatcher = .ok m := by
    intro s left h
    obtain ⟨⟨final, rest⟩, hfinal, hcomplete⟩ := Json.exists_of_bind_eq_ok h
    obtain ⟨m, hm, -⟩ := Json.exists_of_bind_eq_ok hcomplete
    exact ⟨final, rest, hfinal, m, hm⟩
  obtain ⟨ks, final, hks, hsteps, m, hm⟩ :=
    Json.exists_steps_of_document (fun _ _ _ => takesWhole_readMember) h hread hobject
  refine ⟨fun f => ?_, Json.isSome_of_map_name?_eq hks⟩
  have hcount := stored_of_steps hsteps f
  have hempty : (({} : Fields τ.Symbol).isStored f).toNat = 0 := by cases f <;> rfl
  rw [Fields.isStored_of_toMatcher hm f, hempty, Nat.zero_add] at hcount
  rw [hks, List.count_map_of_injective ks some fun _ _ => Option.some.inj]
  exact hcount.symm

end Reading

end Matcher
end SignatureAutomata
