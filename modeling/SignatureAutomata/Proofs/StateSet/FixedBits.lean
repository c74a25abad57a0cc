import Mathlib.Data.List.GetD
import SignatureAutomata.Proofs.StateSet.Observation

/-! # Sets of states as bits

A set of states may be stored as a row of bits, one for each state up to some length; the number of
a state is the index of its bit.  The bits come from a library (`FixedBits`), of which no more is
asked than it promises (`FixedBits.Lawful`).  In particular a bit beyond the length cannot be
enabled, so a set makes its bits grow before it takes a state in, and before it takes in the states
of a set with more bits.

One set of states has many rows of bits, with any number of bits behind the last member.  What they
have in common is their `members`.  Every operation does to the members what it should
(`Lawful.exists_insert`, `Lawful.members_union`), whatever the lengths, and is never refused; and
what can be seen of the bits is their members (`Lawful.observe_of`, `Lawful.ones_eq_ones_iff`).
-/

namespace SignatureAutomata

/-- **Bit sets of some length each**, as a library has them.  `none` stands for a call that is
refused. -/
structure FixedBits where
  Bits : Type
  /-- No bits at all. -/
  empty : Bits
  /-- So many bits, all of them disabled. -/
  withLength : Nat → Bits
  length : Bits → Nat
  /-- Adds disabled bits up to a length. -/
  grow : Bits → Nat → Bits
  /-- Enables one bit. -/
  enable : Bits → Nat → Option Bits
  /-- Enables one bit, and says whether it was enabled before. -/
  put : Bits → Nat → Option (Bits × Bool)
  contains : Bits → Nat → Bool
  /-- Enables the bits that are enabled in another bit set. -/
  unionWith : Bits → Bits → Bits
  isDisjoint : Bits → Bits → Bool
  isClear : Bits → Bool
  /-- How many bits are enabled. -/
  count : Bits → Nat
  /-- The enabled bits, in order. -/
  ones : Bits → List Nat

namespace FixedBits

/-- **What the library promises.**  Nothing is promised of enabling a bit beyond the length, nor of
the union with a longer bit set. -/
structure Lawful (L : FixedBits) : Prop where
  length_empty : L.length L.empty = 0
  length_withLength : ∀ n, L.length (L.withLength n) = n
  contains_withLength : ∀ n i, L.contains (L.withLength n) i = false
  /-- A bit beyond the length counts as disabled. -/
  contains_of_length_le : ∀ b i, L.length b ≤ i → L.contains b i = false
  length_grow : ∀ b n, L.length (L.grow b n) = max (L.length b) n
  contains_grow : ∀ b n i, L.contains (L.grow b n) i = L.contains b i
  enable_of_lt : ∀ b i, i < L.length b → ∃ c, L.enable b i = some c ∧
    ∀ j, L.contains c j = (decide (j = i) || L.contains b j)
  put_of_lt : ∀ b i, i < L.length b → ∃ c, L.put b i = some (c, L.contains b i) ∧
    ∀ j, L.contains c j = (decide (j = i) || L.contains b j)
  contains_unionWith : ∀ b c i, L.length c ≤ L.length b →
    L.contains (L.unionWith b c) i = (L.contains b i || L.contains c i)
  isDisjoint_iff : ∀ b c, L.isDisjoint b c = true ↔
    ∀ i, ¬ (L.contains b i = true ∧ L.contains c i = true)
  isClear_iff : ∀ b, L.isClear b = true ↔ ∀ i, L.contains b i = false
  count_eq : ∀ b, L.count b = ((List.range (L.length b)).filter (L.contains b)).length
  ones_eq : ∀ b, L.ones b = (List.range (L.length b)).filter (L.contains b)

/-! ### Operations on sets -/

section Operations
variable (L : FixedBits)

/-- The set of one state, with room for `capacity`. -/
def single (s capacity : Nat) : Option L.Bits := L.enable (L.withLength (max capacity (s + 1))) s

/-- Adds one state, and says whether it is new. -/
def insert (b : L.Bits) (s : Nat) : Option (L.Bits × Bool) :=
  (L.put (L.grow b (s + 1)) s).map fun (c, enabled) => (c, !enabled)

/-- Adds the states of a list in turn. -/
def extend (b : L.Bits) (l : List Nat) : Option L.Bits :=
  l.foldlM (fun b s => (L.insert b s).map (·.1)) b

/-- The set of the states of a list. -/
def ofList (l : List Nat) : Option L.Bits := L.extend L.empty l

/-- The states of either set. -/
def union (b c : L.Bits) : L.Bits := L.unionWith (L.grow b (L.length c)) c

/-- Whether two sets share a member. -/
def intersects (b c : L.Bits) : Bool := !L.isDisjoint b c

/-- Whether two sets are equal: their members are compared in order. -/
def same (b c : L.Bits) : Bool := L.ones b == L.ones c

/-- The state of a hasher that a set is fed to, member by member. -/
def hash {H : Type} (feed : H → Nat → H) (h : H) (b : L.Bits) : H := (L.ones b).foldl feed h

/-- **The set that bits stand for.** -/
def members (b : L.Bits) : Finset Nat :=
  (Finset.range (L.length b)).filter fun s => L.contains b s = true

/-- What can be seen of bits. -/
def observe (b : L.Bits) : Observation where
  contains := L.contains b
  isEmpty := L.isClear b
  size := L.count b
  list := L.ones b
  isNew s := (L.insert b s).map (·.2)

end Operations

namespace Lawful
variable {L : FixedBits} {b c : L.Bits} {s : Nat}

theorem mem_members_iff (hL : L.Lawful) : s ∈ L.members b ↔ L.contains b s = true := by
  rw [members, Finset.mem_filter, Finset.mem_range]
  refine ⟨fun h => h.2, fun h => ⟨Nat.lt_of_not_le fun hle => ?_, h⟩⟩
  rw [hL.contains_of_length_le b s hle] at h
  cases h

theorem contains_eq_decide (hL : L.Lawful) (b : L.Bits) (s : Nat) :
    L.contains b s = decide (s ∈ L.members b) := by
  rw [Bool.eq_iff_iff, decide_eq_true_iff, hL.mem_members_iff]

theorem members_withLength (hL : L.Lawful) (n : Nat) : L.members (L.withLength n) = ∅ := by
  refine Finset.eq_empty_of_forall_notMem fun s hs => ?_
  rw [hL.mem_members_iff, hL.contains_withLength] at hs
  cases hs

theorem members_empty (hL : L.Lawful) : L.members L.empty = ∅ := by
  rw [members, hL.length_empty]
  rfl

theorem members_grow (hL : L.Lawful) (b : L.Bits) (n : Nat) :
    L.members (L.grow b n) = L.members b := by
  ext s
  rw [hL.mem_members_iff, hL.mem_members_iff, hL.contains_grow]

/-- Enabling one more bit adds one member. -/
theorem members_eq_insert (hL : L.Lawful)
    (h : ∀ j, L.contains c j = (decide (j = s) || L.contains b j)) :
    L.members c = Insert.insert s (L.members b) := by
  ext t
  rw [hL.mem_members_iff, h t, Bool.or_eq_true, decide_eq_true_iff, Finset.mem_insert,
    hL.mem_members_iff]

/-! ### What operations do -/

theorem exists_single (hL : L.Lawful) (s capacity : Nat) :
    ∃ c, L.single s capacity = some c ∧ L.members c = {s} := by
  have hlt : s < L.length (L.withLength (max capacity (s + 1))) := by
    rw [hL.length_withLength]
    omega
  obtain ⟨c, hc, hcontains⟩ := hL.enable_of_lt _ s hlt
  refine ⟨c, hc, ?_⟩
  rw [hL.members_eq_insert hcontains, hL.members_withLength]
  rfl

/-- **A state is taken in, whatever the length, and is new exactly if it was absent.** -/
theorem exists_insert (hL : L.Lawful) (b : L.Bits) (s : Nat) :
    ∃ c, L.insert b s = some (c, decide (s ∉ L.members b)) ∧
      L.members c = Insert.insert s (L.members b) := by
  have hlt : s < L.length (L.grow b (s + 1)) := by
    rw [hL.length_grow]
    omega
  obtain ⟨c, hc, hcontains⟩ := hL.put_of_lt _ s hlt
  refine ⟨c, ?_, ?_⟩
  · rw [insert, hc, Option.map_some, hL.contains_grow, hL.contains_eq_decide, decide_not]
  · rw [hL.members_eq_insert hcontains, hL.members_grow]

theorem exists_extend (hL : L.Lawful) (b : L.Bits) (l : List Nat) :
    ∃ c, L.extend b l = some c ∧ L.members c = L.members b ∪ l.toFinset := by
  induction l generalizing b with
  | nil => exact ⟨b, rfl, (Finset.union_empty _).symm⟩
  | cons s l ih =>
      obtain ⟨c, hc, hmembers⟩ := hL.exists_insert b s
      obtain ⟨d, hd, hrest⟩ := ih c
      refine ⟨d, ?_, ?_⟩
      · rw [extend, List.foldlM_cons, hc]
        exact hd
      · rw [hrest, hmembers, List.toFinset_cons, Finset.insert_union, Finset.union_insert]

theorem exists_ofList (hL : L.Lawful) (l : List Nat) :
    ∃ c, L.ofList l = some c ∧ L.members c = l.toFinset := by
  obtain ⟨c, hc, hmembers⟩ := hL.exists_extend L.empty l
  exact ⟨c, hc, by rw [hmembers, hL.members_empty, Finset.empty_union]⟩

/-- **Two sets are united, whichever has more bits.** -/
theorem members_union (hL : L.Lawful) (b c : L.Bits) :
    L.members (L.union b c) = L.members b ∪ L.members c := by
  have hlength : L.length c ≤ L.length (L.grow b (L.length c)) := by
    rw [hL.length_grow]
    exact Nat.le_max_right ..
  ext s
  rw [Finset.mem_union, hL.mem_members_iff, hL.mem_members_iff, hL.mem_members_iff, union,
    hL.contains_unionWith _ _ _ hlength, hL.contains_grow, Bool.or_eq_true]

/-! ### What can be seen -/

theorem mem_ones_iff (hL : L.Lawful) : s ∈ L.ones b ↔ s ∈ L.members b := by
  rw [hL.ones_eq, members, List.mem_filter, Finset.mem_filter, List.mem_range, Finset.mem_range]

theorem pairwise_ones (hL : L.Lawful) (b : L.Bits) : (L.ones b).Pairwise (· < ·) := by
  rw [hL.ones_eq]
  exact List.pairwise_lt_range.filter _

/-- **What can be seen of bits is their members.** -/
theorem observe_of (hL : L.Lawful) (b : L.Bits) : (L.observe b).Of (L.members b) where
  contains_iff _ := hL.mem_members_iff.symm
  isEmpty_iff := by
    rw [observe, hL.isClear_iff, Finset.eq_empty_iff_forall_notMem]
    refine forall_congr' fun s => ?_
    rw [hL.mem_members_iff, Bool.not_eq_true]
  size_eq := by
    rw [observe, hL.count_eq, ← hL.ones_eq]
    exact length_eq_card (hL.pairwise_ones b) fun _ => hL.mem_ones_iff
  list_ascending := hL.pairwise_ones b
  mem_list_iff _ := hL.mem_ones_iff
  isNew_eq s := by
    obtain ⟨c, hc, -⟩ := hL.exists_insert b s
    exact congrArg (Option.map Prod.snd) hc

/-- The members, in order, are the same list exactly if they are the same set. -/
theorem ones_eq_ones_iff (hL : L.Lawful) : L.ones b = L.ones c ↔ L.members b = L.members c := by
  constructor
  · intro h
    ext s
    rw [← hL.mem_ones_iff, h, hL.mem_ones_iff]
  · intro h
    have hc : (L.observe c).Of (L.members b) := h ▸ hL.observe_of c
    exact congrArg Observation.list ((hL.observe_of b).unique hc)

theorem intersects_iff (hL : L.Lawful) :
    L.intersects b c = true ↔ (L.members b ∩ L.members c).Nonempty := by
  rw [intersects, Bool.not_eq_true', ← Bool.not_eq_true, hL.isDisjoint_iff]
  simp only [Finset.Nonempty, Finset.mem_inter, hL.mem_members_iff]
  exact Classical.not_forall_not

/-- **Sets are equal exactly if they have the same members.** -/
theorem same_iff (hL : L.Lawful) : L.same b c = true ↔ L.members b = L.members c := by
  rw [same, beq_iff_eq, hL.ones_eq_ones_iff]

/-- **Sets with the same members feed the same to a hasher.** -/
theorem hash_eq (hL : L.Lawful) {H : Type} (h : L.members b = L.members c) (feed : H → Nat → H)
    (start : H) : L.hash feed start b = L.hash feed start c := by
  rw [hash, hash, hL.ones_eq_ones_iff.2 h]

end Lawful

/-! ### A library -/

/-- **Bit sets as lists**, in which the bits stand in order. -/
def lists : FixedBits where
  Bits := List Bool
  empty := []
  withLength n := List.replicate n false
  length := List.length
  grow b n := b ++ List.replicate (n - b.length) false
  enable b i := if i < b.length then some (b.set i true) else none
  put b i := if i < b.length then some (b.set i true, b.getD i false) else none
  contains b i := b.getD i false
  unionWith b c :=
    (List.range (max b.length c.length)).map fun i => b.getD i false || c.getD i false
  isDisjoint b c := (List.range b.length).all fun i => !(b.getD i false && c.getD i false)
  isClear b := b.all (!·)
  count b := ((List.range b.length).filter (b.getD · false)).length
  ones b := (List.range b.length).filter (b.getD · false)

theorem getD_set_true {b : List Bool} {i : Nat} (hi : i < b.length) (j : Nat) :
    (b.set i true).getD j false = (decide (j = i) || b.getD j false) := by
  by_cases hj : j = i
  · subst hj
    simp [List.getD_eq_getElem?_getD, hi]
  · simp [List.getD_eq_getElem?_getD, List.getElem?_set_ne (Ne.symm hj), hj]

theorem lawful_lists : lists.Lawful where
  length_empty := rfl
  length_withLength n := List.length_replicate
  contains_withLength n i := by
    show (List.replicate n false).getD i false = false
    rw [List.getD_eq_getElem?_getD, List.getElem?_getD_replicate_default_eq]
  contains_of_length_le (b : List Bool) i h := List.getD_eq_default b false h
  length_grow (b : List Bool) n := by
    show (b ++ List.replicate (n - b.length) false).length = max b.length n
    rw [List.length_append, List.length_replicate]
    omega
  contains_grow (b : List Bool) n i := by
    show (b ++ List.replicate (n - b.length) false).getD i false = b.getD i false
    rcases Nat.lt_or_ge i b.length with hi | hi
    · exact List.getD_append _ _ _ _ hi
    · rw [List.getD_append_right _ _ _ _ hi, List.getD_eq_default b false hi,
        List.getD_eq_getElem?_getD, List.getElem?_getD_replicate_default_eq]
  enable_of_lt (b : List Bool) i hi := ⟨b.set i true, if_pos hi, getD_set_true hi⟩
  put_of_lt (b : List Bool) i hi := ⟨b.set i true, if_pos hi, getD_set_true hi⟩
  contains_unionWith (b c : List Bool) i _ := by
    show ((List.range (max b.length c.length)).map fun i => b.getD i false || c.getD i false).getD
      i false = (b.getD i false || c.getD i false)
    rcases Nat.lt_or_ge i (max b.length c.length) with hi | hi
    · rw [List.getD_eq_getElem?_getD, List.getElem?_map, List.getElem?_range hi]
      rfl
    · rw [List.getD_eq_default _ _ (by simpa using hi), List.getD_eq_default b _ (by omega),
        List.getD_eq_default c _ (by omega)]
      rfl
  isDisjoint_iff (b c : List Bool) := by
    show ((List.range b.length).all fun i => !(b.getD i false && c.getD i false)) = true ↔
      ∀ i, ¬ (b.getD i false = true ∧ c.getD i false = true)
    rw [List.all_eq_true]
    constructor
    · rintro h i ⟨hb, hc⟩
      have hi : i < b.length := Nat.lt_of_not_le fun hle => by
        rw [List.getD_eq_default b false hle] at hb
        cases hb
      have hboth := h i (List.mem_range.2 hi)
      rw [hb, hc] at hboth
      cases hboth
    · intro h i _
      rw [Bool.not_eq_true', ← Bool.not_eq_true, Bool.and_eq_true]
      exact h i
  isClear_iff (b : List Bool) := by
    show b.all (!·) = true ↔ ∀ i, b.getD i false = false
    rw [List.all_eq_true]
    constructor
    · intro h i
      rcases Nat.lt_or_ge i b.length with hi | hi
      · rw [List.getD_eq_getElem b false hi, ← Bool.not_eq_true']
        exact h _ (List.getElem_mem hi)
      · exact List.getD_eq_default b false hi
    · intro h x hx
      obtain ⟨i, hi, rfl⟩ := List.getElem_of_mem hx
      rw [Bool.not_eq_true', ← List.getD_eq_getElem b false hi]
      exact h i
  count_eq b := rfl
  ones_eq b := rfl

end FixedBits
end SignatureAutomata
