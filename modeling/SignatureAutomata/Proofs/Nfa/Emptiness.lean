import SignatureAutomata.Dfa.Determinization
import SignatureAutomata.Proofs.Alphabet.Registration
import SignatureAutomata.Proofs.Nfa.Path
import SignatureAutomata.Symbol

/-! # Automata that accept nothing

`isEmpty` looks for an accepting state along edges of any label, and meets whatever a path from
the start leads to (`isEmpty_iff`).  An input can take fewer edges than that: one with the code
of a symbol is taken only if the symbol is registered.  A label that some input can take is
`Passable`, and something is accepted exactly if a path of passable labels leads to an accepting
state (`WellFormed.exists_accepts_iff`).

So an automaton that `isEmpty` calls empty accepts nothing.  The converse holds if all labels are
passable.  An accepting state behind an edge whose code no symbol has is enough to keep `isEmpty`
from calling an automaton empty, though no input gets there.
-/

namespace SignatureAutomata
namespace Nfa
variable {N : Nfa} {s t : Nat} {codes labels : List Nat}

/-! ### The search for an accepting state -/

theorem mem_ends_iff : t ∈ N.ends s ↔ ∃ label, ⟨s, label, t⟩ ∈ N.edges := by
  simp only [ends, ← mem_transitions, transitions, EdgeMap.transitions, List.mem_flatMap,
    List.mem_filter, decide_eq_true_eq, EdgeGroup.mem_edges, StateSet.mem_members]
  constructor
  · rintro ⟨g, ⟨hg, rfl⟩, ht⟩
    exact ⟨g.label, g, hg, rfl, ht⟩
  · rintro ⟨label, g, hg, hkey, ht⟩
    exact ⟨g, ⟨hg, (Prod.mk.inj hkey).1.symm⟩, ht⟩

/-- What is behind a state on a path is reached if the state is. -/
theorem Path.reached (h : N.Path s labels t) (hs : Reached N.ends [N.start] s) :
    Reached N.ends [N.start] t := by
  induction h with
  | nil => exact hs
  | cons he _ ih => exact ih (.step hs (mem_ends_iff.2 ⟨_, he⟩))

/-- **The search meets the ends of the paths from the start.** -/
theorem reached_ends_iff : Reached N.ends [N.start] t ↔ ∃ labels, N.Path N.start labels t := by
  constructor
  · intro h
    induction h with
    | start hs =>
        rw [List.mem_singleton.1 hs]
        exact ⟨[], .nil _⟩
    | step _ ht ih =>
        obtain ⟨labels, hpath⟩ := ih
        obtain ⟨label, he⟩ := mem_ends_iff.1 ht
        exact ⟨labels ++ [label], hpath.append (.cons he (.nil _))⟩
  · rintro ⟨labels, hpath⟩
    exact hpath.reached (.start (List.mem_singleton.2 rfl))

/-- A state that is met is the start or the end of an edge. -/
theorem atMost_reached_ends (N : Nfa) :
    AtMost (1 + N.transitions.length) (Reached N.ends [N.start]) := by
  have hlength : (N.start :: N.transitions.map (·.target)).length = 1 + N.transitions.length := by
    rw [List.length_cons, List.length_map, Nat.add_comm]
  rw [← hlength]
  refine atMost_of_forall_mem fun t ht => ?_
  cases ht with
  | start hs => exact List.mem_cons.2 (.inl (List.mem_singleton.1 hs))
  | step _ ht =>
      obtain ⟨label, he⟩ := mem_ends_iff.1 ht
      exact List.mem_cons_of_mem _ (List.mem_map.2 ⟨_, mem_transitions.2 he, rfl⟩)

/-- **An automaton is called empty if no path leads from the start to an accepting state.** -/
theorem isEmpty_iff :
    N.isEmpty = true ↔ ¬ ∃ labels t, N.Path N.start labels t ∧ t ∈ N.accepting := by
  rw [isEmpty, all_reachable_iff N.atMost_reached_ends]
  simp only [decide_eq_true_eq, reached_ends_iff]
  constructor
  · rintro h ⟨labels, t, hpath, ht⟩
    exact h t ⟨labels, hpath⟩ ht
  · rintro h t ⟨labels, hpath⟩ ht
    exact h ⟨labels, t, hpath, ht⟩

/-! ### Labels that some input can take -/

/-- The labels of a path are labels of edges. -/
theorem Path.exists_edge (h : N.Path s labels t) :
    ∀ label ∈ labels, ∃ e ∈ N.edges, e.label = label := by
  induction h with
  | nil => exact fun _ h => absurd h List.not_mem_nil
  | cons he _ ih => exact List.forall_mem_cons.2 ⟨⟨_, he, rfl⟩, ih⟩

section
variable {α : Type} {A : Alphabet α}

/-- **A label that some input can take**: it consumes nothing, or any value, or a symbol that is
registered. -/
def Passable (A : Alphabet α) (label : Nat) : Prop := label = Code.epsilon ∨ label ∈ columns A

instance instDecidablePassable (A : Alphabet α) (label : Nat) : Decidable (Passable A label) :=
  inferInstanceAs (Decidable (label = Code.epsilon ∨ label ∈ columns A))

theorem forall_passable_iff :
    (∀ label ∈ labels, Passable A label) ↔ ∀ label ∈ consumed labels, label ∈ columns A := by
  unfold consumed Passable
  constructor
  · intro h label hlabel
    obtain ⟨hmem, hne⟩ := List.mem_filter.1 hlabel
    exact (h label hmem).resolve_left (of_decide_eq_true hne)
  · intro h label hlabel
    by_cases hsilent : label = Code.epsilon
    · exact .inl hsilent
    · exact .inr (h label (List.mem_filter.2 ⟨hlabel, decide_eq_true hsilent⟩))

/-- Labels fit themselves. -/
theorem fits_self (labels : List Nat) : Fits labels labels := by
  induction labels with
  | nil => trivial
  | cons label labels ih => exact ⟨.inr rfl, ih⟩

/-- What fits codes with columns has columns. -/
theorem mem_columns_of_fits (h : Fits labels codes) (hcodes : ∀ code ∈ codes, code ∈ columns A) :
    ∀ label ∈ labels, label ∈ columns A := by
  induction labels generalizing codes with
  | nil => exact fun _ h => absurd h List.not_mem_nil
  | cons label labels ih =>
      cases codes with
      | nil => cases h
      | cons code codes =>
          rw [List.forall_mem_cons] at hcodes
          refine List.forall_mem_cons.2 ⟨?_, ih h.2 hcodes.2⟩
          rcases h.1 with rfl | rfl
          · exact List.mem_cons_self ..
          · exact hcodes.1

variable [DecidableEq α] [Nonempty α]

/-- **What is read over codes with columns, some values spell.**  The code of a symbol is that
of the symbol; for `Code.sigma` any value will do, whatever its code, since the edge taken then
is one that takes all values. -/
theorem Reads.exists_input (h : N.Reads s codes t) (hcodes : ∀ code ∈ codes, code ∈ columns A) :
    ∃ input : List α, N.Reads s (input.map A.codeOf) t := by
  induction h with
  | nil s => exact ⟨[], .nil s⟩
  | silent he _ ih =>
      obtain ⟨input, hreads⟩ := ih hcodes
      exact ⟨input, .silent he hreads⟩
  | @consume _ label _ _ code codes he hlabel _ ih =>
      rw [List.forall_mem_cons] at hcodes
      obtain ⟨input, hreads⟩ := ih hcodes.2
      rcases List.mem_cons.1 hcodes.1 with hsigma | hcode
      · have hlabel : label = Code.sigma := hlabel.elim (fun h => h.trans hsigma) id
        exact ⟨Classical.arbitrary α :: input, .consume he (.inr hlabel) hreads⟩
      · obtain ⟨x, -, rfl⟩ := Alphabet.exists_codeOf_eq hcode
        exact ⟨x :: input, .consume he hlabel hreads⟩

/-- **Something is accepted exactly if a path of passable labels leads to an accepting
state.** -/
theorem WellFormed.exists_accepts_iff (hN : N.WellFormed) :
    (∃ input : List α, N.accepts A input = true) ↔
      ∃ labels t, N.Path N.start labels t ∧ t ∈ N.accepting ∧
        ∀ label ∈ labels, Passable A label := by
  constructor
  · rintro ⟨input, haccepts⟩
    obtain ⟨labels, t, hpath, ht, hfits⟩ := hN.accepts_iff_spells.1 haccepts
    refine ⟨labels, t, hpath, ht, forall_passable_iff.2 (mem_columns_of_fits hfits ?_)⟩
    exact List.forall_mem_map.2 fun x _ => codeOf_mem_columns A x
  · rintro ⟨labels, t, hpath, ht, hpassable⟩
    have hreads : N.Reads N.start (consumed labels) t := hpath.reads (fits_self _)
    obtain ⟨input, hinput⟩ := hreads.exists_input (forall_passable_iff.1 hpassable)
    exact ⟨input, hN.accepts_iff.2 ⟨t, ht, hinput⟩⟩

/-- **However an automaton is constructed, it is called empty just if no path leads from the
start to an accepting state, and it accepts nothing just if no path of passable labels does.**
The two are the same if all labels are passable: if every edge that consumes a symbol has the code
of a registered one. -/
theorem isEmpty_build_iff (cs : List Construction) (A : Alphabet α) :
    let N := build cs
    (N.isEmpty = true ↔ ¬ ∃ labels t, N.Path N.start labels t ∧ t ∈ N.accepting) ∧
      ((∀ input : List α, N.accepts A input = false) ↔
        ¬ ∃ labels t, N.Path N.start labels t ∧ t ∈ N.accepting ∧
          ∀ label ∈ labels, Passable A label) ∧
      ((∀ e ∈ N.edges, Passable A e.label) →
        (N.isEmpty = true ↔ ∀ input : List α, N.accepts A input = false)) := by
  intro N
  have hnothing : (∀ input : List α, N.accepts A input = false) ↔
      ¬ ∃ labels t, N.Path N.start labels t ∧ t ∈ N.accepting ∧
        ∀ label ∈ labels, Passable A label := by
    rw [← (wellFormed_build cs).exists_accepts_iff, not_exists]
    exact forall_congr' fun input => Bool.not_eq_true _ |>.symm.to_iff
  refine ⟨isEmpty_iff, hnothing, fun hpassable => ?_⟩
  rw [isEmpty_iff, hnothing, not_iff_not]
  constructor
  · rintro ⟨labels, t, hpath, ht⟩
    refine ⟨labels, t, hpath, ht, fun label hlabel => ?_⟩
    obtain ⟨e, he, rfl⟩ := hpath.exists_edge label hlabel
    exact hpassable e he
  · rintro ⟨labels, t, hpath, ht, -⟩
    exact ⟨labels, t, hpath, ht⟩

end

/-- An automaton with a cycle, whose accepting state is behind the edge of a symbol. -/
theorem isEmpty_build_iff_cycle :
    let N := build [.newState, .newState, .transition 0 2 1, .epsilon 1 0, .sigma 1 2, .accepting 2]
    let A : Alphabet Nat := .ofList [7]
    (∀ e ∈ N.edges, Passable A e.label) ∧ N.isEmpty = false ∧
      ¬ ∀ input : List Nat, N.accepts A input = false := by
  intro N A
  have hpassable : ∀ e ∈ N.edges, Passable A e.label := by decide
  have hempty : N.isEmpty = false := by decide
  refine ⟨hpassable, hempty, fun hnothing => ?_⟩
  have htrue : N.isEmpty = true := ((isEmpty_build_iff _ A).2.2 hpassable).2 hnothing
  rw [hempty] at htrue
  cases htrue

/-- **An automaton that accepts nothing need not be called empty**: the code on the one edge is
that of no symbol, so that no value takes it. -/
theorem not_isEmpty_build_unregistered :
    let N := build [.newState, .transition 0 2 1, .accepting 1]
    let A : Alphabet (SymbolType.integer .int64).Symbol := .empty
    ¬ (N.isEmpty = true ↔ ∀ input, N.accepts A input = false) := by
  intro N A h
  have hnothing : ∀ input, N.accepts A input = false := by
    intro input
    cases input with
    | nil => decide
    | cons x input =>
        have hstep : N.step N.startClosure Code.sigma = ∅ := by decide
        have hx : A.codeOf x = Code.sigma := Alphabet.codeOf_of_not_mem List.not_mem_nil
        rw [accepts, List.map_cons, acceptsFrom_cons, hx, hstep, acceptsFrom_empty]
  have htrue : N.isEmpty = true := h.2 hnothing
  exact absurd htrue (by decide)

end Nfa
end SignatureAutomata
