import Mathlib.Data.Finset.Card
import Mathlib.Data.Finset.Dedup
import SignatureAutomata.StateSet

/-! # What can be seen of a set of states

An `Observation` has the answers to everything that can be asked of one set.  Whether they are those
of a finite set of numbers is said without the representation (`Observation.Of`), and only one
observation is (`Observation.Of.unique`): two sets that stand for the same finite set cannot be told
apart, however they are stored and whatever made them.

What can be seen of a `StateSet` is its finite set of members (`StateSet.observe_of`), and the
operations on one are those on the other (`StateSet.toFinset_union` and its like).
-/

namespace SignatureAutomata

/-- **The answers that a set gives.** -/
@[ext] structure Observation where
  contains : Nat → Bool
  isEmpty : Bool
  size : Nat
  /-- The members, in order. -/
  list : List Nat
  /-- Whether inserting a state would change the set; `none` if that were refused. -/
  isNew : Nat → Option Bool

/-- **The answers are those of a finite set.** -/
structure Observation.Of (o : Observation) (M : Finset Nat) : Prop where
  contains_iff : ∀ s, o.contains s = true ↔ s ∈ M
  isEmpty_iff : o.isEmpty = true ↔ M = ∅
  size_eq : o.size = M.card
  list_ascending : o.list.Pairwise (· < ·)
  mem_list_iff : ∀ s, s ∈ o.list ↔ s ∈ M
  isNew_eq : ∀ s, o.isNew s = some (decide (s ∉ M))

/-- **A finite set has only one observation.** -/
theorem Observation.Of.unique {o p : Observation} {M : Finset Nat} (ho : o.Of M) (hp : p.Of M) :
    o = p := by
  ext1
  · funext s
    rw [Bool.eq_iff_iff, ho.contains_iff, hp.contains_iff]
  · rw [Bool.eq_iff_iff, ho.isEmpty_iff, hp.isEmpty_iff]
  · rw [ho.size_eq, hp.size_eq]
  · refine eq_of_mem_iff ho.list_ascending hp.list_ascending fun s => ?_
    rw [ho.mem_list_iff, hp.mem_list_iff]
  · funext s
    rw [ho.isNew_eq, hp.isNew_eq]

/-- An ascending list of the members of a finite set is as long as the set is large. -/
theorem length_eq_card {l : List Nat} {M : Finset Nat} (hl : l.Pairwise (· < ·))
    (hmem : ∀ s, s ∈ l ↔ s ∈ M) : l.length = M.card := by
  have hM : l.toFinset = M := by
    ext s
    rw [List.mem_toFinset, hmem]
  rw [← hM, List.toFinset_card_of_nodup (hl.imp Nat.ne_of_lt)]

namespace StateSet
variable {S T : StateSet}

/-- What can be seen of a set. -/
def observe (S : StateSet) : Observation where
  contains s := decide (s ∈ S)
  isEmpty := S.isEmpty
  size := S.size
  list := S.members
  isNew s := some (S.insertNew s).2

/-- The members as a finite set. -/
def toFinset (S : StateSet) : Finset Nat := S.members.toFinset

@[simp] theorem mem_toFinset {s : Nat} : s ∈ S.toFinset ↔ s ∈ S := List.mem_toFinset

theorem toFinset_inj : S.toFinset = T.toFinset ↔ S = T := by
  refine ⟨fun h => ext fun s => ?_, fun h => h ▸ rfl⟩
  rw [← mem_toFinset, h, mem_toFinset]

theorem observe_of (S : StateSet) : S.observe.Of S.toFinset where
  contains_iff _ := decide_eq_true_iff.trans mem_toFinset.symm
  isEmpty_iff := isEmpty_iff.trans (toFinset_inj (T := ∅)).symm
  size_eq := length_eq_card S.ascending fun _ => mem_toFinset.symm
  list_ascending := S.ascending
  mem_list_iff _ := mem_toFinset.symm
  isNew_eq s := by
    simp only [mem_toFinset]
    exact congrArg some (congrArg Prod.snd (S.insertNew_eq s))

theorem intersects_iff_nonempty :
    S.intersects T = true ↔ (S.toFinset ∩ T.toFinset).Nonempty := by
  rw [intersects_iff]
  simp only [Finset.Nonempty, Finset.mem_inter, mem_toFinset]

/-! ### Operations -/

@[simp] theorem toFinset_singleton (s : Nat) : (singleton s).toFinset = {s} := rfl

@[simp] theorem toFinset_insert (S : StateSet) (s : Nat) :
    (S.insert s).toFinset = Insert.insert s S.toFinset := by
  ext t
  simp

@[simp] theorem toFinset_insertAll (S : StateSet) (l : List Nat) :
    (S.insertAll l).toFinset = S.toFinset ∪ l.toFinset := by
  ext t
  simp [or_comm]

@[simp] theorem toFinset_ofList (l : List Nat) : (ofList l).toFinset = l.toFinset := by
  ext t
  simp

@[simp] theorem toFinset_union (S T : StateSet) :
    (S.union T).toFinset = S.toFinset ∪ T.toFinset := by
  ext t
  simp

end StateSet
end SignatureAutomata
