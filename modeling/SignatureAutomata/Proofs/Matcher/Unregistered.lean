import SignatureAutomata.Proofs.Dfa.Emptiness

/-! # Values that are not registered

A value that is not registered has the code `Code.sigma` and takes the sigma edges alone, which
take any value.  So an input stays accepted when such values in it are replaced, by other ones or
by symbols (`Alphabet.Replaced`), and two inputs that differ in nothing but such values
(`Alphabet.Alike`) get one verdict.

A run over sets of states hides this, and so does the table of a deterministic automaton: the
states met on the two inputs need not be related there.  Along edges it is plain, since what one
code consumes another one consumes if the first was `Code.sigma` (`Nfa.Reads.replaced`).  The
deterministic automaton and its matcher decide as the nondeterministic one does over the alphabet
of determinization, so for them all values registered since count as not registered.
-/

namespace SignatureAutomata

namespace Alphabet
variable {α : Type} {A : Alphabet α} {u v : List α} {verdict : List α → Bool}

/-- **`v` is `u` with values in place of some that are not registered.** -/
def Replaced (A : Alphabet α) (u v : List α) : Prop :=
  List.Forall₂ (fun x y => x = y ∨ x ∉ A.symbols) u v

/-- **`u` and `v` differ only in which values they contain that are not registered.** -/
def Alike (A : Alphabet α) (u v : List α) : Prop :=
  List.Forall₂ (fun x y => x = y ∨ x ∉ A.symbols ∧ y ∉ A.symbols) u v

theorem Alike.symm (h : A.Alike u v) : A.Alike v u :=
  h.flip.imp fun _ _ hxy => hxy.imp Eq.symm And.symm

theorem Alike.replaced (h : A.Alike u v) : A.Replaced u v :=
  h.imp fun _ _ hxy => hxy.imp_right And.left

/-- **Verdicts that admit what is not registered only where anything is admitted.** -/
structure AdmitsByWildcard (A : Alphabet α) (verdict : List α → Bool) : Prop where
  of_replaced : ∀ u v, A.Replaced u v → verdict u = true → verdict v = true
  eq_of_alike : ∀ u v, A.Alike u v → verdict u = verdict v

theorem admitsByWildcard_of_replaced
    (h : ∀ u v, A.Replaced u v → verdict u = true → verdict v = true) :
    A.AdmitsByWildcard verdict where
  of_replaced := h
  eq_of_alike u v huv := by
    rw [Bool.eq_iff_iff]
    exact ⟨h u v huv.replaced, h v u huv.symm.replaced⟩

/-- The code of a value that is replaced is `Code.sigma`. -/
theorem Replaced.codes [DecidableEq α] (h : A.Replaced u v) :
    List.Forall₂ (fun c d => c = d ∨ c = Code.sigma) (u.map A.codeOf) (v.map A.codeOf) := by
  rw [List.forall₂_map_left_iff, List.forall₂_map_right_iff]
  exact h.imp fun _ _ hxy => hxy.imp (congrArg A.codeOf) codeOf_of_not_mem

end Alphabet

namespace Nfa
variable {α : Type} [DecidableEq α] {N : Nfa}

/-- **Edges that consume `Code.sigma` consume any code.** -/
theorem Reads.replaced {s t : Nat} {k l : List Nat} (h : N.Reads s k t)
    (hkl : List.Forall₂ (fun c d => c = d ∨ c = Code.sigma) k l) : N.Reads s l t := by
  induction h generalizing l with
  | nil s =>
      cases hkl
      exact .nil s
  | silent he _ ih => exact .silent he (ih hkl)
  | consume he hlabel _ ih =>
      cases hkl with
      | cons hcode hrest =>
          refine .consume he ?_ (ih hrest)
          rcases hcode with rfl | rfl
          · exact hlabel
          · exact .inr (hlabel.elim id id)

theorem WellFormed.admitsByWildcard_accepts (hN : N.WellFormed) (A : Alphabet α) :
    A.AdmitsByWildcard (N.accepts A) := by
  refine Alphabet.admitsByWildcard_of_replaced fun u v huv haccepts => ?_
  obtain ⟨t, ht, hreads⟩ := hN.accepts_iff.1 haccepts
  exact hN.accepts_iff.2 ⟨t, ht, hreads.replaced huv.codes⟩

/-- Determinization keeps the verdicts over its own alphabet, and they stay what they were. -/
theorem WellFormed.admitsByWildcard_accepts_determinize (hN : N.WellFormed) (A : Alphabet α)
    (late : List α) :
    A.AdmitsByWildcard ((N.determinize A).accepts (A.registerAll late)) := by
  have hverdict : (N.determinize A).accepts (A.registerAll late) = N.accepts A := by
    funext input
    rw [(hN.subsetAutomaton A).accepts_registerAll]
    exact hN.accepts_determinize (fun _ hcode hnew => absurd hcode hnew) input
  rw [hverdict]
  exact hN.admitsByWildcard_accepts A

/-- **However an automaton is constructed, it accepts a value that is not registered only where it
accepts any**, over all alphabets, and so do its determinization and the matcher, whose verdict
never fails.  These two go by the alphabet of determinization, whatever was registered before the
matcher was made and is registered after it. -/
theorem admitsByWildcard_build (cs : List Construction) (A : Alphabet α)
    (before after : List α) :
    let N := build cs
    let D := N.determinize A
    let m := Matcher.ofDfa (A.registerAll before) D
    let B := (A.registerAll before).registerAll after
    (∀ C : Alphabet α, C.AdmitsByWildcard (N.accepts C)) ∧ A.AdmitsByWildcard (D.accepts B) ∧
      ∃ verdict, (∀ input, m.run? input = some (verdict input)) ∧ A.AdmitsByWildcard verdict := by
  intro N D m B
  have hN : N.WellFormed := wellFormed_build cs
  have h : SubsetAutomaton N (columns A) D := hN.subsetAutomaton A
  have hB : B = A.registerAll (before ++ after) := (A.registerAll_append before after).symm
  have hm : m = Matcher.ofDfa A D := Matcher.ofDfa_registerAll h before
  have hD : A.AdmitsByWildcard (D.accepts B) :=
    hB ▸ hN.admitsByWildcard_accepts_determinize A (before ++ after)
  refine ⟨hN.admitsByWildcard_accepts, hD, D.accepts B, fun input => ?_, hD⟩
  rw [hm, hB]
  exact Matcher.run?_ofDfa h (before ++ after) input

/-- What is not accepted may be once a symbol is in its place. -/
example :
    let N := build [.newState, .transition 0 2 1, .accepting 1]
    let A : Alphabet Nat := .ofList [7]
    A.Replaced [8] [7] ∧ N.accepts A [8] = false ∧ N.accepts A [7] = true := by
  exact ⟨.cons (.inr (by decide)) .nil, by decide, by decide⟩

end Nfa
end SignatureAutomata
