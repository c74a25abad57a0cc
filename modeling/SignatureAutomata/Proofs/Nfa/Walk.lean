import Mathlib.Data.List.Basic
import Mathlib.Logic.Function.Iterate
import SignatureAutomata.Proofs.Nfa.Closure

/-! # A closure by a depth-first walk

A closure may be found without keeping count of rounds: by a walk that keeps the states still to be
looked at on a stack, and that counts a state as reached when it is taken from there.  A state may
therefore be on the stack many times, and the stack may grow with every turn.

The walk ends all the same (`Walk.pending_iterate_turn`).  A turn takes one state from the stack,
and puts ends of epsilon edges there only if it takes their source for the first time.  So what is
on the stack and the epsilon edges that leave states not reached yet get fewer together with every
turn (`Walk.cost_turn_lt`).

What is reached in the end is what epsilon edges reach, because every turn keeps three things
(`Walk.Invariant`): what the walk was started from is reached or pending, so is the end of every
epsilon edge that leaves a reached state, and nothing else is.  The walk thus ends with the closure
that a survey finds (`Walk.iterate_turn_start`).
-/

namespace SignatureAutomata
namespace Nfa

/-- **A walk along epsilon edges**: the states to look at, the next one first, and those reached. -/
structure Walk where
  pending : List Nat
  reached : StateSet

namespace Walk
variable {N : Nfa} {w : Walk} {states : List Nat}

/-- The walk before its first turn.  It looks at the last state first. -/
def start (states : List Nat) : Walk := ⟨states.reverse, ∅⟩

/-- **One turn.**  A state reached before is passed over.  Any other is reached now, and the states
that its epsilon edges lead to are to be looked at next, unless they are reached. -/
def turn (N : Nfa) (w : Walk) : Walk :=
  match w.pending with
  | [] => w
  | s :: rest =>
      if s ∈ w.reached then ⟨rest, w.reached⟩
      else
        let reached := w.reached.insert s
        ⟨((N.targetList s Code.epsilon).filter (· ∉ reached)).reverse ++ rest, reached⟩

theorem turn_of_nil (h : w.pending = []) : w.turn N = w := by
  rw [turn, h]

theorem turn_of_mem {s : Nat} {rest : List Nat} (h : w.pending = s :: rest) (hs : s ∈ w.reached) :
    w.turn N = ⟨rest, w.reached⟩ := by
  rw [turn, h]
  exact if_pos hs

theorem turn_of_not_mem {s : Nat} {rest : List Nat} (h : w.pending = s :: rest)
    (hs : s ∉ w.reached) :
    w.turn N = ⟨((N.targetList s Code.epsilon).filter (· ∉ w.reached.insert s)).reverse ++ rest,
      w.reached.insert s⟩ := by
  rw [turn, h]
  exact if_neg hs

/-! ### The walk ends -/

/-- How many epsilon edges leave states outside a set. -/
def edgesOutside (N : Nfa) (S : StateSet) : Nat :=
  (N.edges.filter fun e => e.label = Code.epsilon ∧ e.source ∉ S).length

/-- How many turns a walk can take yet. -/
def cost (N : Nfa) (w : Walk) : Nat := w.pending.length + edgesOutside N w.reached

/-- The ends found in the map are those of the edges with this source and label. -/
theorem targetList_eq (N : Nfa) (state label : Nat) :
    N.targetList state label =
      (N.edges.filter fun e => e.label = label ∧ e.source = state).map (·.target) := by
  have hfiltered : ((N.edges.filter fun e => e.label = label ∧ e.source = state).map
      (·.target)).Pairwise (· < ·) := by
    refine List.pairwise_map.2 ((N.ordered.filter _).imp_of_mem fun {a b} ha hb hbefore => ?_)
    obtain ⟨-, ha⟩ := List.mem_filter.1 ha
    obtain ⟨-, hb⟩ := List.mem_filter.1 hb
    simp only [decide_eq_true_eq] at ha hb
    unfold Edge.Before at hbefore
    omega
  refine eq_of_mem_iff (N.pairwise_targetList state label) hfiltered fun t => ?_
  simp only [mem_targetList, List.mem_map, List.mem_filter, decide_eq_true_eq]
  constructor
  · exact fun he => ⟨_, ⟨he, rfl, rfl⟩, rfl⟩
  · rintro ⟨⟨s, l, _⟩, ⟨he, rfl, rfl⟩, rfl⟩
    exact he

/-- The edges that leave a new state are no longer outside. -/
theorem edgesOutside_insert {S : StateSet} {s : Nat} (hs : s ∉ S) :
    edgesOutside N S = (N.targetList s Code.epsilon).length + edgesOutside N (S.insert s) := by
  unfold edgesOutside
  rw [List.length_eq_length_filter_add (fun e => decide (e.source = s)), List.filter_filter,
    List.filter_filter, targetList_eq, List.length_map]
  congr 2
  · refine List.filter_congr fun e _ => ?_
    by_cases he : e.source = s
    · simp [he, hs]
    · simp [he]
  · refine List.filter_congr fun e _ => ?_
    simp only [StateSet.mem_insert]
    by_cases he : e.source = s
    · simp [he]
    · simp [he]

/-- **Every turn leaves less to do.** -/
theorem cost_turn_lt (h : w.pending ≠ []) : (w.turn N).cost N < w.cost N := by
  obtain ⟨s, rest, hw⟩ := List.exists_cons_of_ne_nil h
  unfold cost
  by_cases hs : s ∈ w.reached
  · rw [turn_of_mem hw hs, hw, List.length_cons]
    exact Nat.add_lt_add_right (Nat.lt_succ_self _) _
  · -- at most the ends of the edges of `s` come on the stack, and those edges are done with
    have hpushed : ((N.targetList s Code.epsilon).filter (· ∉ w.reached.insert s)).length ≤
        (N.targetList s Code.epsilon).length := List.length_filter_le ..
    have hedges : edgesOutside N w.reached =
        (N.targetList s Code.epsilon).length + edgesOutside N (w.reached.insert s) :=
      edgesOutside_insert hs
    rw [turn_of_not_mem hw hs, hw, hedges]
    dsimp only
    rw [List.length_append, List.length_reverse, List.length_cons]
    omega

/-- **The walk ends** after as many turns as it can take. -/
theorem pending_iterate_turn {n : Nat} (h : w.cost N ≤ n) : ((turn N)^[n] w).pending = [] := by
  induction n generalizing w with
  | zero =>
      have hlength : w.pending.length ≤ 0 := Nat.le_trans (Nat.le_add_right ..) h
      exact List.length_eq_zero_iff.1 (Nat.le_zero.1 hlength)
  | succ n ih =>
      rw [Function.iterate_succ_apply]
      by_cases hw : w.pending = []
      · rw [turn_of_nil hw, Function.iterate_fixed (turn_of_nil hw), hw]
      · have hlt : (w.turn N).cost N < w.cost N := cost_turn_lt hw
        exact ih (by omega)

/-- A walk can take a turn for each state that it is started from and one for each epsilon edge. -/
theorem cost_start (N : Nfa) (states : List Nat) :
    (start states).cost N =
      states.length + (N.edges.filter fun e => e.label = Code.epsilon).length := by
  have hedges : edgesOutside N ∅ = (N.edges.filter fun e => e.label = Code.epsilon).length := by
    simp [edgesOutside]
  show states.reverse.length + edgesOutside N ∅ = _
  rw [List.length_reverse, hedges]

/-! ### What the walk reaches -/

/-- A state that is reached or to be looked at. -/
def Met (w : Walk) (s : Nat) : Prop := s ∈ w.reached ∨ s ∈ w.pending

/-- A turn loses sight of no state. -/
theorem Met.turn {t : Nat} (h : w.Met t) : (w.turn N).Met t := by
  cases hw : w.pending with
  | nil => rwa [turn_of_nil hw]
  | cons s rest =>
      unfold Met at h
      rw [hw, List.mem_cons] at h
      by_cases hs : s ∈ w.reached
      · rw [turn_of_mem hw hs]
        rcases h with ht | rfl | ht
        · exact .inl ht
        · exact .inl hs
        · exact .inr ht
      · rw [turn_of_not_mem hw hs]
        rcases h with ht | rfl | ht
        · exact .inl (StateSet.mem_insert.2 (.inr ht))
        · exact .inl (StateSet.mem_insert.2 (.inl rfl))
        · exact .inr (List.mem_append_right _ ht)

/-- A state met in a turn was met before, or an edge leads to it from one that was. -/
theorem exists_of_met_turn {t : Nat} (h : (w.turn N).Met t) :
    w.Met t ∨ ∃ s, w.Met s ∧ ⟨s, Code.epsilon, t⟩ ∈ N.edges := by
  cases hw : w.pending with
  | nil =>
      rw [turn_of_nil hw] at h
      exact .inl h
  | cons s rest =>
      have hpending : ∀ q, q = s ∨ q ∈ rest → w.Met q := fun q hq =>
        .inr (hw ▸ List.mem_cons.2 hq)
      by_cases hs : s ∈ w.reached
      · rw [turn_of_mem hw hs] at h
        exact .inl (h.elim .inl fun ht => hpending t (.inr ht))
      · rw [turn_of_not_mem hw hs] at h
        rcases h with ht | ht
        · rcases StateSet.mem_insert.1 ht with rfl | ht
          · exact .inl (hpending t (.inl rfl))
          · exact .inl (.inl ht)
        · rcases List.mem_append.1 ht with ht | ht
          · have htarget := (List.mem_filter.1 (List.mem_reverse.1 ht)).1
            exact .inr ⟨s, hpending s (.inl rfl), mem_targetList.1 htarget⟩
          · exact .inl (hpending t (.inr ht))

/-- A state reached in a turn was reached before, or the turn meets what its edges lead to. -/
theorem mem_reached_turn {s : Nat} (h : s ∈ (w.turn N).reached) :
    s ∈ w.reached ∨ ∀ t, ⟨s, Code.epsilon, t⟩ ∈ N.edges → (w.turn N).Met t := by
  cases hw : w.pending with
  | nil =>
      rw [turn_of_nil hw] at h
      exact .inl h
  | cons q rest =>
      by_cases hq : q ∈ w.reached
      · rw [turn_of_mem hw hq] at h
        exact .inl h
      · rw [turn_of_not_mem hw hq] at h ⊢
        rcases StateSet.mem_insert.1 h with rfl | hs
        · refine .inr fun t he => ?_
          by_cases ht : t ∈ w.reached.insert s
          · exact .inl ht
          · -- not reached yet, so it comes on the stack
            refine .inr (List.mem_append_left _ (List.mem_reverse.2 ?_))
            exact List.mem_filter.2 ⟨mem_targetList.2 he, decide_eq_true ht⟩
        · exact .inl hs

/-- **What every turn keeps.**  It ties together the states reached, those pending, and those not
met yet. -/
structure Invariant (N : Nfa) (states : List Nat) (w : Walk) : Prop where
  started : ∀ s ∈ states, w.Met s
  followed : ∀ s ∈ w.reached, ∀ t, ⟨s, Code.epsilon, t⟩ ∈ N.edges → w.Met t
  sound : ∀ t, w.Met t → ∃ s ∈ states, N.EpsilonReach s t

theorem invariant_start (N : Nfa) (states : List Nat) : Invariant N states (start states) where
  started _ hs := .inr (List.mem_reverse.2 hs)
  followed s hs := absurd hs (StateSet.not_mem_empty s)
  sound t ht := ⟨t, List.mem_reverse.1 (ht.resolve_left (StateSet.not_mem_empty t)), .refl t⟩

/-- **Every turn keeps the invariant.** -/
theorem Invariant.turn (h : Invariant N states w) : Invariant N states (w.turn N) where
  started s hs := (h.started s hs).turn
  followed s hs t he := by
    rcases mem_reached_turn hs with hs | hfollowed
    · exact (h.followed s hs t he).turn
    · exact hfollowed t he
  sound t ht := by
    rcases exists_of_met_turn ht with ht | ⟨q, hq, he⟩
    · exact h.sound t ht
    · obtain ⟨s, hs, hsq⟩ := h.sound q hq
      exact ⟨s, hs, .step hsq he⟩

/-- **Every run of turns keeps the invariant.** -/
theorem Invariant.iterate (h : Invariant N states w) (n : Nat) :
    Invariant N states ((Walk.turn N)^[n] w) := by
  induction n generalizing w with
  | zero => exact h
  | succ n ih => exact ih h.turn

/-- **With nothing pending, what is reached is what epsilon edges reach.** -/
theorem Invariant.mem_reached_iff (h : Invariant N states w) (hw : w.pending = []) {t : Nat} :
    t ∈ w.reached ↔ ∃ s ∈ states, N.EpsilonReach s t := by
  have hmet : ∀ q, w.Met q → q ∈ w.reached := fun q hq =>
    hq.resolve_right (hw ▸ List.not_mem_nil)
  constructor
  · exact fun ht => h.sound t (.inl ht)
  · rintro ⟨s, hs, hst⟩
    induction hst with
    | refl => exact hmet s (h.started s hs)
    | step _ he ih => exact hmet _ (h.followed _ ih _ he)

/-- **The walk ends with the closure that a survey finds**, after at most one turn for each state
that it is started from and one for each epsilon edge. -/
theorem iterate_turn_start {n : Nat}
    (h : states.length + (N.edges.filter fun e => e.label = Code.epsilon).length ≤ n) :
    (turn N)^[n] (start states) = ⟨[], N.surveyEpsilon states⟩ := by
  have hpending : ((turn N)^[n] (start states)).pending = [] :=
    pending_iterate_turn (Nat.le_trans (Nat.le_of_eq (cost_start N states)) h)
  have hreached : ((turn N)^[n] (start states)).reached = N.surveyEpsilon states := by
    refine StateSet.ext fun t => ?_
    rw [((invariant_start N states).iterate n).mem_reached_iff hpending, mem_surveyEpsilon_iff]
  generalize (turn N)^[n] (start states) = w at hpending hreached
  obtain ⟨pending, reached⟩ := w
  subst hpending hreached
  rfl

end Walk
end Nfa
end SignatureAutomata
