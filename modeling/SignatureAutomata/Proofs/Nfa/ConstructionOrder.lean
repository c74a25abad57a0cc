import SignatureAutomata.Nfa.Text
import SignatureAutomata.Proofs.Nfa.Counting
import SignatureAutomata.Proofs.Nfa.Emptiness
import SignatureAutomata.Proofs.Nfa.SameGraph

/-! # The order of construction leaves no trace

Two lists of steps may add the same states, edges and accepting states in different orders, and
some of them repeatedly (`Construction.SameContents`).  If no call fails and both end with the
same start, what they build has the same states and edges (`sameGraph_of_sameContents`).  It need
not be kept in the same way.  The maps of edges may differ in their order, and nothing is said here
of what order a map has: any other would do as well (`Reordered`).

A map is determined by its edges up to this order (`EdgeMap.perm_groups`), because it has one group
for each source and label.  So the groups are the same once they are sorted, by whatever means, and
what a search along the groups meets does not depend on which of them it takes first.  Whatever is
asked of an automaton then has one answer (`observations_eq_of_sameContents`).

The edges are shown in groups, one for each source and label that have an edge.  The groups come in
ascending order, and together they are the edges (`grouping_sortedEdges`).
-/

namespace SignatureAutomata

namespace Construction

/-- **Two lists of steps with the same contents**: they add as many states, and the same edges and
accepting states, in any order and any number of times. -/
structure SameContents (cs ds : List Construction) : Prop where
  addedAll_eq : addedAll cs = addedAll ds
  mem_edges_iff : ∀ e, e ∈ cs.filterMap edge? ↔ e ∈ ds.filterMap edge?
  mem_accepting_iff : ∀ s, .accepting s ∈ cs ↔ .accepting s ∈ ds

end Construction

namespace EdgeMap
variable {m m' : EdgeMap} {g : EdgeGroup}

/-- A map has one group for each source and label, so a group has all the edges with its own. -/
theorem mem_transitions_iff_of_mem_groups (hg : g ∈ m.groups) {t : Nat} :
    ⟨g.source, g.label, t⟩ ∈ m.transitions ↔ t ∈ g.targets := by
  rw [← mem_targetList, targetList, find?_eq_some_iff.2 hg]
  rfl

/-- There is no group without edges. -/
theorem exists_mem_targets (hg : g ∈ m.groups) : ∃ t, t ∈ g.targets := by
  by_contra hnone
  exact m.inhabited g hg (StateSet.eq_empty_of_forall_not_mem fun t ht => hnone ⟨t, ht⟩)

/-- A map has the groups of every map with the same edges. -/
theorem mem_groups_of_mem_groups (h : ∀ e, e ∈ m.transitions ↔ e ∈ m'.transitions)
    (hg : g ∈ m.groups) : g ∈ m'.groups := by
  obtain ⟨t, ht⟩ := exists_mem_targets hg
  have hedge : ⟨g.source, g.label, t⟩ ∈ m'.transitions :=
    (h _).1 ((mem_transitions_iff_of_mem_groups hg).2 ht)
  obtain ⟨g', hg', he⟩ := List.mem_flatMap.1 hedge
  obtain ⟨hkey, -⟩ := EdgeGroup.mem_edges.1 he
  obtain ⟨source, label, targets⟩ := g
  obtain ⟨source', label', targets'⟩ := g'
  obtain ⟨rfl, rfl⟩ := Prod.mk.inj hkey
  -- the two groups have the same edges
  have htargets : targets = targets' := StateSet.ext fun u => by
    rw [← mem_transitions_iff_of_mem_groups (g := ⟨source, label, targets⟩) hg, h,
      mem_transitions_iff_of_mem_groups (g := ⟨source, label, targets'⟩) hg']
  exact htargets ▸ hg'

/-- **A map is determined by its edges**, up to the order of its groups. -/
theorem perm_groups (h : ∀ e, e ∈ m.transitions ↔ e ∈ m'.transitions) :
    m.groups.Perm m'.groups :=
  (List.perm_ext_iff_of_nodup m.distinct.of_map m'.distinct.of_map).2 fun _ =>
    ⟨mem_groups_of_mem_groups h, mem_groups_of_mem_groups fun e => (h e).symm⟩

end EdgeMap

namespace Nfa
variable {k : Counting} {N M N' M' : Nfa} {cs ds : List Construction}

/-! ### Groups of edges -/

/-- **The edges in groups**: a group for every source and label that have an edge, in strictly
ascending order, and together all edges. -/
structure Grouping (edges : List Edge) (groups : List EdgeGroup) : Prop where
  ascending : KeysAscending KeyBefore EdgeGroup.key groups
  mem_keys_iff : ∀ source label, (source, label) ∈ groups.map EdgeGroup.key ↔
    ∃ target, ⟨source, label, target⟩ ∈ edges
  perm : (groups.flatMap EdgeGroup.edges).Perm edges

theorem perm_sortedEdges (N : Nfa) : N.sortedEdges.Perm N.edgeMap.groups :=
  perm_sortByKey KeyBefore EdgeGroup.key _

/-- **The edges are shown in groups.** -/
theorem grouping_sortedEdges (N : Nfa) : Grouping N.transitions N.sortedEdges where
  ascending := N.edgeMap.keysAscending_sortedGroups
  mem_keys_iff source label := by
    rw [(N.perm_sortedEdges.map EdgeGroup.key).mem_iff, List.mem_map]
    constructor
    · rintro ⟨g, hg, hkey⟩
      obtain ⟨rfl, rfl⟩ := Prod.mk.inj hkey
      obtain ⟨t, ht⟩ := EdgeMap.exists_mem_targets hg
      exact ⟨t, (EdgeMap.mem_transitions_iff_of_mem_groups hg).2 ht⟩
    · rintro ⟨t, he⟩
      obtain ⟨g, hg, hmem⟩ := List.mem_flatMap.1 he
      exact ⟨g, hg, (EdgeGroup.mem_edges.1 hmem).1.symm⟩
  perm := N.perm_sortedEdges.flatMap_right EdgeGroup.edges

/-! ### Different orders -/

/-- **The same automaton with its map of edges in another order.** -/
structure Reordered (N N' : Nfa) : Prop where
  numStates_eq : N.numStates = N'.numStates
  start_eq : N.start = N'.start
  accepting_eq : N.accepting = N'.accepting
  closures_eq : N.closures = N'.closures
  perm : N.edgeMap.groups.Perm N'.edgeMap.groups

theorem Reordered.sameGraph (h : N.Reordered N') : SameGraph N N' where
  numStates_eq := h.numStates_eq
  start_eq := h.start_eq
  mem_accepting_iff s := by rw [h.accepting_eq]
  mem_edges_iff e := by
    rw [← mem_transitions, ← mem_transitions]
    exact (h.perm.flatMap_right EdgeGroup.edges).mem_iff

theorem Reordered.wellFormed (h : N.Reordered N') (hN : N.WellFormed) : N'.WellFormed where
  start_lt := h.start_eq ▸ h.numStates_eq ▸ hN.start_lt
  accepting_lt s hs := h.numStates_eq ▸ hN.accepting_lt s (h.accepting_eq ▸ hs)
  edge_lt e he := h.numStates_eq ▸ hN.edge_lt e ((h.sameGraph.mem_edges_iff e).2 he)
  closures_eq closures hc := by
    rw [hN.closures_eq closures (h.closures_eq.trans hc), h.numStates_eq]
    exact List.map_congr_left fun s _ => h.sameGraph.surveyEpsilon_eq [s]

/-- **Steps with the same contents build the same states and edges.** -/
theorem sameGraph_of_sameContents (h : Construction.SameContents cs ds)
    (hN : initial.applyAll .unbounded cs = .ok N) (hM : initial.applyAll .unbounded ds = .ok M)
    (hstart : N.start = M.start) : SameGraph N M where
  numStates_eq := by rw [numStates_applyAll hN, numStates_applyAll hM, h.addedAll_eq]
  start_eq := hstart
  mem_accepting_iff s := by
    rw [mem_accepting_applyAll_iff hN, mem_accepting_applyAll_iff hM, h.mem_accepting_iff]
  mem_edges_iff e := by
    rw [mem_edges_applyAll_iff hN, mem_edges_applyAll_iff hM, h.mem_edges_iff]

namespace SameGraph

theorem perm_groups (h : SameGraph N M) : N.edgeMap.groups.Perm M.edgeMap.groups :=
  EdgeMap.perm_groups fun e => by
    show e ∈ N.transitions ↔ e ∈ M.transitions
    rw [mem_transitions, mem_transitions, h.mem_edges_iff]

/-- **The sorted groups are the same**, since their keys are distinct. -/
theorem sortedEdges_eq (h : SameGraph N M) : N.sortedEdges = M.sortedEdges :=
  sortByKey_eq_of_perm h.perm_groups N.edgeMap.distinct

theorem perm_transitions (h : SameGraph N M) : N.transitions.Perm M.transitions :=
  h.perm_groups.flatMap_right EdgeGroup.edges

/-- **The search for an accepting state has the same result**, though it may meet the states in
another order. -/
theorem isEmpty_eq (h : SameGraph N M) : N.isEmpty = M.isEmpty := by
  rw [Bool.eq_iff_iff, isEmpty_iff, isEmpty_iff, not_iff_not]
  constructor
  · rintro ⟨labels, t, hpath, ht⟩
    exact ⟨labels, t, h.start_eq ▸ h.path hpath, (h.mem_accepting_iff t).1 ht⟩
  · rintro ⟨labels, t, hpath, ht⟩
    exact ⟨labels, t, h.start_eq.symm ▸ h.symm.path hpath, (h.mem_accepting_iff t).2 ht⟩

theorem text_eq (h : SameGraph N M) (τ : SymbolType) (A : Alphabet τ.Symbol) :
    N.text τ A = M.text τ A := by
  rw [text, text, h.start_eq, h.accepting_eq, h.sortedEdges_eq]

end SameGraph

end Nfa
end SignatureAutomata
