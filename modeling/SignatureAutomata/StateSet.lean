import SignatureAutomata.Ascending

/-! # Finite sets of states

A `StateSet` is a finite set of state numbers, kept as the ascending list of its
members.  Two sets with the same members are equal (`StateSet.ext`), whatever
the operations that built them, so a set can stand for a state of a deterministic
automaton, be compared, and be listed in one way only.

Each operation is described by its members: `mem_insert`, `mem_union`,
`mem_ofList`, `intersects_iff`, `isEmpty_iff`.
-/

namespace SignatureAutomata

/-- **A finite set of states.** -/
structure StateSet where
  /-- The members, in ascending order. -/
  members : List Nat
  /-- No member is listed twice or out of order. -/
  ascending : members.Pairwise (· < ·)
  deriving DecidableEq

namespace StateSet

instance : Membership Nat StateSet := ⟨fun S s => s ∈ S.members⟩

instance (s : Nat) (S : StateSet) : Decidable (s ∈ S) :=
  inferInstanceAs (Decidable (s ∈ S.members))

theorem mem_members {s : Nat} {S : StateSet} : s ∈ S.members ↔ s ∈ S := Iff.rfl

/-- **A set is determined by its members.** -/
theorem ext {S T : StateSet} (h : ∀ s, s ∈ S ↔ s ∈ T) : S = T := by
  obtain ⟨l, hl⟩ := S
  obtain ⟨m, hm⟩ := T
  obtain rfl : l = m := eq_of_mem_iff hl hm h
  rfl

/-- The set without members. -/
def empty : StateSet := ⟨[], .nil⟩

instance : EmptyCollection StateSet := ⟨empty⟩

instance : Inhabited StateSet := ⟨empty⟩

@[simp] theorem not_mem_empty (s : Nat) : s ∉ (∅ : StateSet) := List.not_mem_nil

/-- The set with the one member `s`. -/
def singleton (s : Nat) : StateSet := ⟨[s], List.pairwise_singleton _ _⟩

@[simp] theorem mem_singleton {s t : Nat} : s ∈ singleton t ↔ s = t := List.mem_singleton

/-- Adds one state. -/
def insert (S : StateSet) (s : Nat) : StateSet :=
  ⟨insertAscending (· < ·) s S.members, pairwise_insertAscending _ s S.ascending⟩

@[simp] theorem mem_insert {s t : Nat} {S : StateSet} : s ∈ S.insert t ↔ s = t ∨ s ∈ S :=
  mem_insertAscending _ s t S.members

theorem insert_of_mem {s : Nat} {S : StateSet} (h : s ∈ S) : S.insert s = S :=
  ext fun _ => mem_insert.trans ⟨fun ht => ht.elim (· ▸ h) id, .inr⟩

/-- Adds one state and answers whether it is new. -/
def insertNew (S : StateSet) (s : Nat) : StateSet × Bool :=
  if s ∈ S then (S, false) else (S.insert s, true)

/-- **A state is new exactly if it is no member yet**, and in either case it is one then. -/
theorem insertNew_eq (S : StateSet) (s : Nat) : S.insertNew s = (S.insert s, decide (s ∉ S)) := by
  unfold insertNew
  split
  · rename_i h
    rw [insert_of_mem h, decide_eq_false (not_not_intro h)]
  · rename_i h
    rw [decide_eq_true h]

/-- Adds every state of a list. -/
def insertAll (S : StateSet) (l : List Nat) : StateSet := l.foldl insert S

@[simp] theorem mem_insertAll {s : Nat} {l : List Nat} {S : StateSet} :
    s ∈ S.insertAll l ↔ s ∈ l ∨ s ∈ S := by
  induction l generalizing S with
  | nil => simp [insertAll]
  | cons t l ih =>
      have h := ih (S := S.insert t)
      simp only [insertAll, List.foldl_cons, mem_insert] at h ⊢
      rw [h, List.mem_cons]
      constructor
      · rintro (hl | rfl | hS)
        · exact .inl (.inr hl)
        · exact .inl (.inl rfl)
        · exact .inr hS
      · rintro ((rfl | hl) | hS)
        · exact .inr (.inl rfl)
        · exact .inl hl
        · exact .inr (.inr hS)

/-- The set of the states of a list. -/
def ofList (l : List Nat) : StateSet := (∅ : StateSet).insertAll l

@[simp] theorem mem_ofList {s : Nat} {l : List Nat} : s ∈ ofList l ↔ s ∈ l := by
  simp [ofList]

/-- The states of either set. -/
def union (S T : StateSet) : StateSet := S.insertAll T.members

@[simp] theorem mem_union {s : Nat} {S T : StateSet} : s ∈ S.union T ↔ s ∈ S ∨ s ∈ T := by
  rw [union, mem_insertAll, mem_members, Or.comm]

/-- Whether the set has no members. -/
def isEmpty (S : StateSet) : Bool := S.members.isEmpty

theorem eq_empty_of_forall_not_mem {S : StateSet} (h : ∀ s, s ∉ S) : S = ∅ :=
  ext fun s => iff_of_false (h s) (not_mem_empty s)

theorem isEmpty_iff {S : StateSet} : S.isEmpty = true ↔ S = ∅ := by
  constructor
  · intro h
    refine eq_empty_of_forall_not_mem fun s hs => ?_
    rw [isEmpty, List.isEmpty_iff] at h
    rw [← mem_members, h] at hs
    exact absurd hs List.not_mem_nil
  · rintro rfl
    rfl

/-- The number of members. -/
def size (S : StateSet) : Nat := S.members.length

/-- Whether two sets share a member. -/
def intersects (S T : StateSet) : Bool := S.members.any (· ∈ T)

theorem intersects_iff {S T : StateSet} : S.intersects T = true ↔ ∃ s, s ∈ S ∧ s ∈ T := by
  simp [intersects, mem_members]

/-- The members, ascending, between braces. -/
def text (S : StateSet) : String :=
  "\x7b" ++ String.intercalate ", " (S.members.map toString) ++ "\x7d"

example : (ofList [4, 0, 4]).members = [0, 4] := by decide
example : ofList [4, 0, 4] = (singleton 0).insert 4 := by decide

end StateSet
end SignatureAutomata
