import SignatureAutomata.StateSet

/-! # Maps of edges

The edges of an automaton are kept in a map: under each source and label that have an
edge there is one group, with the set of targets.  An edge is added to the group of its
source and label, which is made if there is none.

A map holds its groups in an order of its own.  Where an edge is looked up by its source
and label that order does not matter (`mem_targetList`), and where the groups are shown
they are sorted first (`sortedGroups`).  Only `transitions`, and what goes through them,
follow the order of the map.
-/

namespace SignatureAutomata

/-- **An edge**: from `source` to `target`, consuming what `label` says. -/
structure Edge where
  source : Nat
  label : Nat
  target : Nat
  deriving DecidableEq

/-- Edges are ordered by source, then label, then target. -/
def Edge.Before (a b : Edge) : Prop :=
  a.source < b.source ∨
    a.source = b.source ∧ (a.label < b.label ∨ a.label = b.label ∧ a.target < b.target)

instance : DecidableRel Edge.Before := fun a b => by
  unfold Edge.Before
  infer_instance

instance : StrictOrder Edge.Before where
  irrefl a h := by
    unfold Edge.Before at h
    omega
  trans a b c hab hbc := by
    unfold Edge.Before at hab hbc ⊢
    omega
  connected a b := by
    obtain ⟨s, l, t⟩ := a
    obtain ⟨s', l', t'⟩ := b
    unfold Edge.Before
    rw [Edge.mk.injEq]
    dsimp only
    omega

/-- The source and the label of an edge, under which a map keeps it. -/
def Edge.key (e : Edge) : Nat × Nat := (e.source, e.label)

theorem Edge.eq_iff {e f : Edge} : e = f ↔ e.key = f.key ∧ e.target = f.target := by
  rw [Edge.mk.injEq, Edge.key, Edge.key, Prod.mk.injEq, and_assoc]

/-- Pairs of a source and a label, by source and then by label. -/
def KeyBefore (a b : Nat × Nat) : Prop := a.1 < b.1 ∨ a.1 = b.1 ∧ a.2 < b.2

instance : DecidableRel KeyBefore := fun a b => by
  unfold KeyBefore
  infer_instance

instance : StrictOrder KeyBefore where
  irrefl a h := by
    unfold KeyBefore at h
    omega
  trans a b c hab hbc := by
    unfold KeyBefore at hab hbc ⊢
    omega
  connected a b := by
    obtain ⟨s, l⟩ := a
    obtain ⟨s', l'⟩ := b
    unfold KeyBefore
    rw [Prod.mk.injEq]
    dsimp only
    omega

/-- **A group of edges**: those with a given source and label, told by their targets. -/
structure EdgeGroup where
  source : Nat
  label : Nat
  targets : StateSet
  deriving DecidableEq

namespace EdgeGroup

/-- The source and the label of a group. -/
def key (g : EdgeGroup) : Nat × Nat := (g.source, g.label)

/-- The edges of a group, by target. -/
def edges (g : EdgeGroup) : List Edge := g.targets.members.map fun t => ⟨g.source, g.label, t⟩

theorem mem_edges {g : EdgeGroup} {e : Edge} :
    e ∈ g.edges ↔ e.key = g.key ∧ e.target ∈ g.targets := by
  simp only [edges, List.mem_map, StateSet.mem_members, Edge.key, key, Prod.mk.injEq]
  constructor
  · rintro ⟨t, ht, rfl⟩
    exact ⟨⟨rfl, rfl⟩, ht⟩
  · rintro ⟨⟨hsource, hlabel⟩, ht⟩
    exact ⟨e.target, ht, by rw [← hsource, ← hlabel]⟩

/-- Adds an edge to its group, or makes a group for it. -/
def add (e : Edge) : List EdgeGroup → List EdgeGroup
  | [] => [⟨e.source, e.label, .singleton e.target⟩]
  | g :: gs =>
      if g.key = e.key then { g with targets := g.targets.insert e.target } :: gs
      else g :: add e gs

theorem mem_keys_add {e : Edge} {gs : List EdgeGroup} {k : Nat × Nat} :
    k ∈ (add e gs).map key ↔ k = e.key ∨ k ∈ gs.map key := by
  induction gs with
  | nil => simp [add, key, Edge.key]
  | cons g gs ih =>
      rw [add]
      split
      · rename_i hkey
        have hsame : ({ g with targets := g.targets.insert e.target } : EdgeGroup).key = e.key :=
          hkey
        rw [List.map_cons, List.map_cons, hsame, hkey, List.mem_cons]
        exact ⟨fun h => h.imp_right (.inr ·) |>.elim .inl .inr, fun h => h.elim .inl id⟩
      · rw [List.map_cons, List.map_cons, List.mem_cons, List.mem_cons, ih, or_left_comm]

theorem nodup_keys_add {e : Edge} {gs : List EdgeGroup} (h : (gs.map key).Nodup) :
    ((add e gs).map key).Nodup := by
  induction gs with
  | nil => exact List.pairwise_singleton _ _
  | cons g gs ih =>
      have hg := List.nodup_cons.1 h
      rw [add]
      split
      · exact h
      · rename_i hkey
        refine List.nodup_cons.2 ⟨fun hmem => ?_, ih hg.2⟩
        exact (mem_keys_add.1 hmem).elim hkey hg.1

theorem targets_ne_empty_add {e : Edge} {gs : List EdgeGroup}
    (h : ∀ g ∈ gs, g.targets ≠ ∅) : ∀ g ∈ add e gs, g.targets ≠ ∅ := by
  have hne : ∀ (S : StateSet), e.target ∈ S → S ≠ ∅ := fun S hS hempty =>
    StateSet.not_mem_empty e.target (hempty ▸ hS)
  induction gs with
  | nil =>
      intro g hg
      rw [List.mem_singleton.1 hg]
      exact hne _ (StateSet.mem_singleton.2 rfl)
  | cons g gs ih =>
      have hg := List.forall_mem_cons.1 h
      rw [add]
      split
      · exact List.forall_mem_cons.2 ⟨hne _ (StateSet.mem_insert.2 (.inl rfl)), hg.2⟩
      · exact List.forall_mem_cons.2 ⟨hg.1, ih hg.2⟩

/-- **The edges of the groups are those there were and the one added.** -/
theorem mem_flatMap_edges_add {e f : Edge} {gs : List EdgeGroup} :
    f ∈ (add e gs).flatMap edges ↔ f = e ∨ f ∈ gs.flatMap edges := by
  induction gs with
  | nil =>
      rw [add, List.flatMap_singleton, mem_edges, StateSet.mem_singleton, Edge.eq_iff]
      exact ⟨.inl, fun h => h.resolve_right List.not_mem_nil⟩
  | cons g gs ih =>
      rw [add]
      split
      · rename_i hkey
        have hsame : ({ g with targets := g.targets.insert e.target } : EdgeGroup).key = e.key :=
          hkey
        rw [List.flatMap_cons, List.flatMap_cons, List.mem_append, List.mem_append, mem_edges,
          mem_edges, StateSet.mem_insert, hsame, hkey, and_or_left, ← Edge.eq_iff, or_assoc]
      · simp only [List.flatMap_cons, List.mem_append, ih, or_left_comm]

end EdgeGroup

/-- **A map of edges**, in an order of its own. -/
structure EdgeMap where
  groups : List EdgeGroup
  /-- There is at most one group for each source and label. -/
  distinct : (groups.map EdgeGroup.key).Nodup
  /-- There is no group without edges. -/
  inhabited : ∀ g ∈ groups, g.targets ≠ ∅
  deriving DecidableEq

namespace EdgeMap

/-- The map without edges. -/
def empty : EdgeMap := ⟨[], .nil, fun _ h => absurd h List.not_mem_nil⟩

/-- Adds an edge. -/
def insert (m : EdgeMap) (e : Edge) : EdgeMap :=
  ⟨EdgeGroup.add e m.groups, EdgeGroup.nodup_keys_add m.distinct,
    EdgeGroup.targets_ne_empty_add m.inhabited⟩

/-- **The edges one after the other**, in the order of the map. -/
def transitions (m : EdgeMap) : List Edge := m.groups.flatMap EdgeGroup.edges

@[simp] theorem mem_transitions_insert {m : EdgeMap} {e f : Edge} :
    f ∈ (m.insert e).transitions ↔ f = e ∨ f ∈ m.transitions :=
  EdgeGroup.mem_flatMap_edges_add

/-- The targets under a source and a label, if there are any. -/
def find? (m : EdgeMap) (source label : Nat) : Option StateSet :=
  (m.groups.find? fun g => g.key = (source, label)).map (·.targets)

/-- **The group of a source and a label is found**, wherever the map has it. -/
theorem find?_eq_some_iff {m : EdgeMap} {source label : Nat} {S : StateSet} :
    m.find? source label = some S ↔ ⟨source, label, S⟩ ∈ m.groups := by
  have hkeys := m.distinct
  unfold find?
  generalize m.groups = gs at hkeys
  induction gs with
  | nil => simp
  | cons g gs ih =>
      have hg := List.nodup_cons.1 hkeys
      rw [List.find?_cons, List.mem_cons]
      by_cases hkey : g.key = (source, label)
      · -- no other group has the key
        have habsent : ⟨source, label, S⟩ ∉ gs := fun hmem =>
          hg.1 (hkey ▸ List.mem_map_of_mem (f := EdgeGroup.key) hmem)
        obtain ⟨s, l, T⟩ := g
        obtain ⟨rfl, rfl⟩ := Prod.mk.inj hkey
        simp [EdgeGroup.key, habsent, eq_comm]
      · have hne : ⟨source, label, S⟩ ≠ g := fun heq => hkey (heq ▸ rfl)
        simp [hkey, hne, ih hg.2]

/-- The targets under a source and a label, in ascending order. -/
def targetList (m : EdgeMap) (source label : Nat) : List Nat :=
  match m.find? source label with
  | some S => S.members
  | none => []

theorem pairwise_targetList (m : EdgeMap) (source label : Nat) :
    (m.targetList source label).Pairwise (· < ·) := by
  unfold targetList
  split
  · exact StateSet.ascending _
  · exact .nil

theorem mem_targetList {m : EdgeMap} {source label t : Nat} :
    t ∈ m.targetList source label ↔ ⟨source, label, t⟩ ∈ m.transitions := by
  have hgroup : ⟨source, label, t⟩ ∈ m.transitions ↔
      ∃ S, ⟨source, label, S⟩ ∈ m.groups ∧ t ∈ S := by
    simp only [transitions, List.mem_flatMap, EdgeGroup.mem_edges]
    constructor
    · rintro ⟨⟨s, l, S⟩, hg, hkey, ht⟩
      obtain ⟨rfl, rfl⟩ := Prod.mk.inj hkey
      exact ⟨S, hg, ht⟩
    · rintro ⟨S, hS, ht⟩
      exact ⟨_, hS, rfl, ht⟩
  rw [hgroup, targetList]
  split
  · rename_i S hfind
    constructor
    · exact fun ht => ⟨S, find?_eq_some_iff.1 hfind, ht⟩
    · rintro ⟨T, hT, ht⟩
      rw [← find?_eq_some_iff, hfind] at hT
      obtain rfl := Option.some.inj hT
      exact ht
  · rename_i hfind
    refine iff_of_false List.not_mem_nil ?_
    rintro ⟨T, hT, -⟩
    rw [← find?_eq_some_iff, hfind] at hT
    cases hT

/-- **The groups sorted** by source and then by label. -/
def sortedGroups (m : EdgeMap) : List EdgeGroup := sortByKey KeyBefore EdgeGroup.key m.groups

/-- The edges of the sorted groups, which are in order. -/
def sortedTransitions (m : EdgeMap) : List Edge := m.sortedGroups.flatMap EdgeGroup.edges

theorem mem_sortedTransitions {m : EdgeMap} {e : Edge} :
    e ∈ m.sortedTransitions ↔ e ∈ m.transitions := by
  simp only [sortedTransitions, transitions, List.mem_flatMap, sortedGroups,
    (perm_sortByKey KeyBefore EdgeGroup.key m.groups).mem_iff]

theorem keysAscending_sortedGroups (m : EdgeMap) :
    KeysAscending KeyBefore EdgeGroup.key m.sortedGroups := keysAscending_sortByKey m.distinct

/-- **The edges of the sorted groups are in strictly ascending order.** -/
theorem pairwise_sortedTransitions (m : EdgeMap) : m.sortedTransitions.Pairwise Edge.Before := by
  rw [sortedTransitions, List.pairwise_flatMap]
  constructor
  · intro g _
    refine List.pairwise_map.2 (g.targets.ascending.imp fun hlt => ?_)
    exact .inr ⟨rfl, .inr ⟨rfl, hlt⟩⟩
  · refine m.keysAscending_sortedGroups.imp fun hbefore e he f hf => ?_
    rw [← (EdgeGroup.mem_edges.1 he).1, ← (EdgeGroup.mem_edges.1 hf).1] at hbefore
    unfold KeyBefore Edge.key at hbefore
    unfold Edge.Before
    dsimp only at hbefore
    omega

end EdgeMap
end SignatureAutomata
