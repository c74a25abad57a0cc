import SignatureAutomata.Proofs.Alphabet
import SignatureAutomata.Proofs.Nfa.Counting
import SignatureAutomata.Proofs.Nfa.Simulation

/-! # What is accepted is spelled by a path

A run keeps a set of states and forgets how it got there.  `Reads` remembers the edges
taken but not the silent ones among them, and a `Path` is every edge with its label.
From what is read a path is laid (`Reads.exists_path`), and along a path is read whatever
its labels fit (`Path.reads`).  The first needs codes other than `Code.epsilon`, whose
edge would be dropped with the silent ones; no value has that code.

So an automaton accepts what a path from its start to an accepting state spells
(`WellFormed.accepts_iff_spells`).
-/

namespace SignatureAutomata
namespace Nfa

/-! ### Labels that fit -/

@[simp] theorem consumed_epsilon (labels : List Nat) :
    consumed (Code.epsilon :: labels) = consumed labels :=
  List.filter_cons_of_neg (by simp)

theorem consumed_of_ne {label : Nat} (h : label ≠ Code.epsilon) (labels : List Nat) :
    consumed (label :: labels) = label :: consumed labels :=
  List.filter_cons_of_pos (by simpa using h)

/-- **Labels fit the codes of an input place by place**, and there are as many of them as
values. -/
theorem fits_map_iff {α : Type} {code : α → Nat} {labels : List Nat} {input : List α} :
    Fits labels (input.map code) ↔ labels.length = input.length ∧
      ∀ (i label : Nat) (x : α), labels[i]? = some label → input[i]? = some x →
        label = Code.sigma ∨ label = code x := by
  induction labels generalizing input with
  | nil => cases input <;> simp [Fits]
  | cons label labels ih =>
      cases input with
      | nil => simp [Fits]
      | cons x input =>
          rw [List.map_cons, Fits, ih, List.length_cons, List.length_cons, Nat.succ_inj]
          constructor
          · rintro ⟨hhead, hlength, htail⟩
            refine ⟨hlength, fun i l y hl hy => ?_⟩
            cases i with
            | zero =>
                obtain rfl := Option.some.inj hl
                obtain rfl := Option.some.inj hy
                exact hhead
            | succ i => exact htail i l y hl hy
          · rintro ⟨hlength, hall⟩
            exact ⟨hall 0 label x rfl rfl, hlength, fun i l y => hall (i + 1) l y⟩

/-! ### Paths and what is read along them -/

variable {N : Nfa} {s t : Nat} {codes labels : List Nat}

/-- **What is read lays a path.** -/
theorem Reads.exists_path (h : N.Reads s codes t) (hcodes : Code.epsilon ∉ codes) :
    ∃ labels, N.Path s labels t ∧ Fits (consumed labels) codes := by
  induction h with
  | nil s => exact ⟨[], .nil s, trivial⟩
  | silent he _ ih =>
      obtain ⟨labels, hpath, hfits⟩ := ih hcodes
      refine ⟨Code.epsilon :: labels, .cons he hpath, ?_⟩
      rwa [consumed_epsilon]
  | @consume _ label _ _ code codes he hlabel _ ih =>
      rw [List.mem_cons, not_or] at hcodes
      obtain ⟨labels, hpath, hfits⟩ := ih hcodes.2
      have hne : label ≠ Code.epsilon := by
        rintro rfl
        rcases hlabel with hcode | hsigma
        · exact hcodes.1 hcode
        · cases hsigma
      refine ⟨label :: labels, .cons he hpath, ?_⟩
      rw [consumed_of_ne hne]
      exact ⟨hlabel.symm, hfits⟩

/-- **Along a path is read whatever its labels fit.** -/
theorem Path.reads (h : N.Path s labels t) (hfits : Fits (consumed labels) codes) :
    N.Reads s codes t := by
  induction h generalizing codes with
  | nil s =>
      cases codes with
      | nil => exact .nil s
      | cons => cases hfits
  | @cons _ label _ labels _ he _ ih =>
      by_cases hlabel : label = Code.epsilon
      · subst hlabel
        rw [consumed_epsilon] at hfits
        exact .silent he (ih hfits)
      · -- an edge that is not silent takes the first code
        rw [consumed_of_ne hlabel] at hfits
        cases codes with
        | nil => cases hfits
        | cons code codes => exact .consume he hfits.1.symm (ih hfits.2)

/-! ### Acceptance -/

variable {α : Type} [DecidableEq α]

/-- **An input is accepted exactly if a path spells it.** -/
theorem WellFormed.accepts_iff_spells (hN : N.WellFormed) {A : Alphabet α} {input : List α} :
    N.accepts A input = true ↔ N.Spells A input := by
  rw [hN.accepts_iff]
  constructor
  · rintro ⟨t, ht, hreads⟩
    have hcodes : Code.epsilon ∉ input.map A.codeOf := by
      intro h
      obtain ⟨x, -, hx⟩ := List.mem_map.1 h
      exact A.codeOf_ne_epsilon x hx
    obtain ⟨labels, hpath, hfits⟩ := hreads.exists_path hcodes
    exact ⟨labels, t, hpath, ht, hfits⟩
  · rintro ⟨labels, t, hpath, ht, hfits⟩
    exact ⟨t, ht, hpath.reads hfits⟩

end Nfa
end SignatureAutomata
