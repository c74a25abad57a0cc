import SignatureAutomata.Nfa.Simulation
import SignatureAutomata.Proofs.Nfa.Construction

/-! # A counter of states with a last number

A program counts states with a counter that has a last number.  Either it stops where it cannot
count on, and then the call for a new state fails and changes nothing, or the counter goes back to
zero, and then states that were there are owned no more.

A counter that stops is no trouble for anything that holds of every automaton built without end:
what it builds is what other steps build, namely those that did not fail.  A counter that goes round
has to be kept from doing so (`Counting.Lasts`), and then it builds the same.  So every automaton
of a program is one of those that are `build` (`exists_build_eq_buildBy`), and what is proved of all
these is proved of it.

Nothing less will do: with one state too many, an automaton that accepts the empty input accepts it
no more once its closures are kept (`accepts_gone_round`).
-/

namespace SignatureAutomata

/-- **The counter does not go round** while the states of some steps are added to one state: it is
one that does not go round at all, or has numbers enough.  A counter without end lasts always, and
so does one that stops. -/
def Counting.Lasts (k : Counting) (cs : List Construction) : Prop :=
  k = .wrapping → 1 + Construction.addedAll cs < counterSize

instance (k : Counting) (cs : List Construction) : Decidable (k.Lasts cs) :=
  inferInstanceAs (Decidable (k = .wrapping → _))

namespace Nfa
variable {k : Counting} {N M : Nfa} {cs : List Construction}

/-- A counter that does not go round counts on by one. -/
theorem next_eq_succ {n : Nat} (h : k = .wrapping → n + 1 < counterSize) : k.next n = n + 1 := by
  cases k with
  | unbounded => rfl
  | checked => rfl
  | wrapping => exact Nat.mod_eq_of_lt (h rfl)

theorem carryOut_eq_unbounded {c : Construction}
    (h : k = .wrapping → N.numStates + c.added < counterSize) :
    N.carryOut k c = N.carryOut .unbounded c := by
  cases c with
  | newState =>
      show N.withState k = N.withState .unbounded
      rw [withState, next_eq_succ h]
      rfl
  | _ => rfl

/-- A counter without end is no cause to fail. -/
theorem failure?_unbounded_of_none {n : Nat} {c : Construction} (h : c.failure? k n = none) :
    c.failure? .unbounded n = none := by
  cases c with
  | newState => rfl
  | _ => exact h

/-- **A step fails, or does what it does where states are counted without end.** -/
theorem attempt_eq_or (c : Construction)
    (h : k = .wrapping → N.numStates + c.added < counterSize) :
    N.attempt k c = N ∨ N.attempt k c = N.attempt .unbounded c := by
  cases hk : c.failure? k N.numStates with
  | some e => exact .inl (attempt_of_failure hk)
  | none =>
      right
      rw [attempt_of_no_failure hk, carryOut_eq_unbounded h,
        attempt_of_no_failure (failure?_unbounded_of_none hk)]

theorem numStates_attempt_le (N : Nfa) (c : Construction) :
    (N.attempt .unbounded c).numStates ≤ N.numStates + c.added := by
  by_cases hc : c.Allowed N.numStates
  · have hstep : N.apply .unbounded c = .ok (N.attempt .unbounded c) :=
      apply_eq_ok_iff.2 ⟨hc, (attempt_of_allowed hc).symm⟩
    exact Nat.le_of_eq (effect_of_apply hstep).numStates_eq
  · rw [attempt_of_not_allowed hc]
    exact Nat.le_add_right ..

/-- **A counter at `n` does not go round** while the states of some steps are added. -/
def LastsFrom (k : Counting) (n : Nat) (cs : List Construction) : Prop :=
  k = .wrapping → n + Construction.addedAll cs < counterSize

theorem LastsFrom.first {n : Nat} {c : Construction} (h : LastsFrom k n (c :: cs))
    (hk : k = .wrapping) : n + c.added < counterSize := by
  have hlt := h hk
  rw [Construction.addedAll] at hlt
  omega

theorem LastsFrom.rest {n m : Nat} {c : Construction} (h : LastsFrom k n (c :: cs))
    (hm : m ≤ n + c.added) : LastsFrom k m cs := by
  intro hk
  have hlt := h hk
  rw [Construction.addedAll] at hlt
  omega

/-- **Whatever the counter, what is built is built by the steps that do not fail** where states are
counted without end, as long as the counter does not go round. -/
theorem exists_build_eq_buildBy (h : k.Lasts cs) :
    ∃ ds, ds.Sublist cs ∧ buildBy k cs = build ds := by
  -- past the first step there may be any number of states
  suffices key : ∀ N : Nfa, LastsFrom k N.numStates cs →
      ∃ ds : List Construction, ds.Sublist cs ∧
        cs.foldl (attempt k) N = ds.foldl (attempt .unbounded) N from key initial h
  clear h
  induction cs with
  | nil => exact fun N _ => ⟨[], .slnil, rfl⟩
  | cons c cs ih =>
      intro N h
      rw [List.foldl_cons]
      rcases attempt_eq_or c h.first with hstep | hstep
      · obtain ⟨ds, hds, hbuild⟩ := ih N (h.rest (Nat.le_add_right ..))
        exact ⟨ds, hds.cons c, by rw [hstep, hbuild]⟩
      · obtain ⟨ds, hds, hbuild⟩ := ih _ (h.rest (numStates_attempt_le N c))
        exact ⟨c :: ds, hds.cons_cons c, by rw [hstep, hbuild, List.foldl_cons]⟩

/-- **Every automaton that a program builds is well formed**, if its counter does not go round. -/
theorem wellFormed_buildBy (h : k.Lasts cs) : (buildBy k cs).WellFormed := by
  obtain ⟨ds, -, hbuild⟩ := exists_build_eq_buildBy h
  rw [hbuild]
  exact wellFormed_build ds

/-- Steps that do not fail do what they do where states are counted without end. -/
theorem applyAll_unbounded (h : k.Lasts cs) (hN : initial.applyAll k cs = .ok N) :
    initial.applyAll .unbounded cs = .ok N := by
  suffices key : ∀ M : Nfa, LastsFrom k M.numStates cs →
      M.applyAll k cs = .ok N → M.applyAll .unbounded cs = .ok N from key initial h hN
  clear h hN
  induction cs with
  | nil => exact fun M _ hN => hN
  | cons c cs ih =>
      intro M h hN
      obtain ⟨M', hM', hN⟩ := applyAll_cons_eq_ok hN
      obtain ⟨hfailure, hM'⟩ := apply_eq_ok_iff_of_counting.1 hM'
      have hstep : M.apply .unbounded c = .ok M' := apply_eq_ok_iff_of_counting.2
        ⟨failure?_unbounded_of_none hfailure, (carryOut_eq_unbounded h.first).symm.trans hM'⟩
      rw [applyAll, hstep]
      exact ih M' (h.rest (Nat.le_of_eq (effect_of_apply hstep).numStates_eq)) hN

/-! ### A counter that went round -/

/-- New states move a counter that goes round, and change nothing else of an automaton that keeps
no closures. -/
theorem foldl_newState {numStates start : Nat} {accepting : StateSet} {edgeMap : EdgeMap} (n : Nat)
    (h : numStates < counterSize) :
    (List.replicate n .newState).foldl (attempt .wrapping)
        ⟨numStates, start, accepting, edgeMap, none⟩ =
      ⟨(numStates + n) % counterSize, start, accepting, edgeMap, none⟩ := by
  induction n generalizing numStates with
  | zero =>
      rw [Nat.add_zero, Nat.mod_eq_of_lt h]
      rfl
  | succ n ih =>
      have hstep : attempt .wrapping ⟨numStates, start, accepting, edgeMap, none⟩ .newState =
          ⟨(numStates + 1) % counterSize, start, accepting, edgeMap, none⟩ :=
        attempt_of_no_failure rfl
      have hlt : (numStates + 1) % counterSize < counterSize := Nat.mod_lt _ (by decide)
      rw [List.replicate_succ, List.foldl_cons, hstep, ih hlt, Nat.mod_add_mod, Nat.add_assoc,
        Nat.add_comm 1 n]

/-- **An automaton whose counter went round owns no state**, its start state included.  While no
closures are kept it still accepts the empty input; with closures kept it accepts nothing. -/
theorem accepts_gone_round {α : Type} [DecidableEq α] (A : Alphabet α) :
    let cs : List Construction := .accepting 0 :: List.replicate (counterSize - 1) .newState
    (buildBy .wrapping cs).numStates = 0 ∧ (buildBy .wrapping cs).accepts A [] = true ∧
      (buildBy .wrapping (cs ++ [.cacheClosures])).accepts A [] = false := by
  intro cs
  have hfirst : initial.attempt .wrapping (.accepting 0) = ⟨1, 0, .singleton 0, .empty, none⟩ :=
    attempt_of_no_failure rfl
  have hcs : buildBy .wrapping cs = ⟨0, 0, .singleton 0, .empty, none⟩ := by
    rw [buildBy, List.foldl_cons, hfirst, foldl_newState _ (by decide)]
    rfl
  rw [buildBy_concat, hcs]
  exact ⟨rfl, rfl, rfl⟩

end Nfa
end SignatureAutomata
