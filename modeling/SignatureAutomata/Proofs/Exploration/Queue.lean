import Mathlib.Data.List.Basic
import Mathlib.Logic.Function.Iterate
import SignatureAutomata.Proofs.Exploration.Discovery
import SignatureAutomata.StateSet

/-! # Surveys with a queue

A survey finds the next state to expand by counting the states that it has expanded.  A program
keeps a queue instead: it takes the first state from there, and puts every state that it finds at
the end.  Two programs of this kind are told here turn by turn, and each is in step with a survey.

A `Worklist` interns the states that it finds.  Each gets a number and waits with it in the queue,
and each column that is followed lays one transition.  After every turn it has found, reported and
laid what the survey has after that round (`Worklist.Mirrors.turn`), so it ends when the survey ends
(`Worklist.Mirrors.iterate_turn`).

A search (`look`) wants to know whether there is a goal among the states that it can reach, and
stops at the first one.  It looks at the states in the order in which the survey finds them, so it
answers as the survey does that goes on to the end (`look_eq_all_reachable`).
-/

namespace SignatureAutomata

/-! ### Interning -/

section Intern
variable {σ : Type} [DecidableEq σ]

/-- The number of a state, which is put behind the others if it is not there yet, and whether it was
not. -/
def intern (found : List σ) (x : σ) : List σ × Nat × Bool :=
  if x ∈ found then (found, found.idxOf x, false) else (found ++ [x], found.length, true)

/-- **To meet a state is to intern it.** -/
theorem intern_found {ρ : Type} (report : Nat → σ → ρ) (v : Survey σ ρ) (x : σ) :
    intern v.found x =
      ((v.meet report x).found, (v.meet report x).found.idxOf x, decide (x ∉ v.found)) := by
  unfold intern Survey.meet
  split
  · rename_i hx
    simp [hx]
  · rename_i hx
    simp [hx, List.idxOf_append]

end Intern

/-- A survey that goes on has its states where they were. -/
theorem Survey.found_isPrefix_expand {σ ρ : Type} [DecidableEq σ] {succ : σ → List σ}
    {report : Nat → σ → ρ} {v : Survey σ ρ} (rounds : Nat) :
    v.found <+: (v.expand succ report rounds).found := by
  induction rounds generalizing v with
  | zero => exact List.prefix_refl _
  | succ rounds ih =>
      rw [Survey.expand]
      split
      · exact List.prefix_refl _
      · rename_i x _ _
        have hvisit : v.found <+: (v.visit report (succ x)).found := found_isPrefix_meetAll (succ x)
        exact hvisit.trans ih

/-! ### A worklist -/

/-- **A survey with a queue**: the states that wait, with their numbers, all states found, the
reports on them, and the transitions laid so far. -/
structure Worklist (σ ρ : Type) where
  queue : List (Nat × σ)
  found : List σ
  reports : List ρ
  /-- Source, column and target. -/
  laid : List (Nat × Nat × Nat)

namespace Worklist
variable {σ ρ : Type} [DecidableEq σ] {step : σ → Nat → σ} {report : Nat → σ → ρ}
  {columns : List Nat} {w : Worklist σ ρ} {v : Survey σ ρ} {source : Nat} {x : σ}

/-- The first state waits, and is not reported. -/
def start (x : σ) : Worklist σ ρ := ⟨[(0, x)], [x], [], []⟩

/-- Follows one column from a state.  Where it leads to a new state, this one waits at the end of
the queue and is reported. -/
def follow (step : σ → Nat → σ) (report : Nat → σ → ρ) (source : Nat) (x : σ)
    (w : Worklist σ ρ) (code : Nat) : Worklist σ ρ :=
  let next := step x code
  let (found, target, created) := intern w.found next
  { queue := if created then w.queue ++ [(target, next)] else w.queue
    found
    reports := if created then w.reports ++ [report target next] else w.reports
    laid := w.laid ++ [(source, code, target)] }

/-- **One turn**: the first state of the queue is taken from there, and all columns are followed
from it. -/
def turn (step : σ → Nat → σ) (report : Nat → σ → ρ) (columns : List Nat) (w : Worklist σ ρ) :
    Worklist σ ρ :=
  match w.queue with
  | [] => w
  | (source, x) :: rest => columns.foldl (follow step report source x) { w with queue := rest }

/-- The transitions of one row. -/
def transitionsOf (columns : List Nat) (source : Nat) (row : List Nat) : List (Nat × Nat × Nat) :=
  List.zipWith (fun code target => (source, code, target)) columns row

/-- **A worklist has what a survey has**: the same states and reports, the pending states with their
numbers in the queue, and the rows as transitions. -/
structure Mirrors (columns : List Nat) (w : Worklist σ ρ) (v : Survey σ ρ) : Prop where
  found_eq : w.found = v.found
  reports_eq : w.reports = v.reports
  queue_eq : w.queue = (v.found.mapIdx Prod.mk).drop v.rows.length
  laid_eq : w.laid = (v.rows.mapIdx (transitionsOf columns)).flatten

/-! ### Turn by turn -/

/-- **What a worklist has while columns are followed**, the first `k` states being expanded or being
the one whose columns are followed. -/
structure Keeps (k : Nat) (w : Worklist σ ρ) (v : Survey σ ρ) : Prop where
  le : k ≤ v.found.length
  found_eq : w.found = v.found
  reports_eq : w.reports = v.reports
  queue_eq : w.queue = (v.found.mapIdx Prod.mk).drop k

section Follow
variable (step : σ → Nat → σ) (report : Nat → σ → ρ) (source : Nat) (x : σ)

/-- **To follow a column is to meet the state that it leads to.** -/
theorem Keeps.follow {k : Nat} (h : w.Keeps k v) (code : Nat) :
    (w.follow step report source x code).Keeps k (v.meet report (step x code)) ∧
      (w.follow step report source x code).laid = w.laid ++
        [(source, code, (v.meet report (step x code)).found.idxOf (step x code))] := by
  have hintern := intern_found report v (step x code)
  rw [← h.found_eq] at hintern
  unfold Worklist.follow
  dsimp only
  rw [hintern]
  refine ⟨?_, rfl⟩
  by_cases hx : step x code ∈ v.found
  · rw [Survey.meet_of_mem hx]
    simp only [h.found_eq, hx, not_true_eq_false, decide_false, Bool.false_eq_true, if_false]
    exact ⟨h.le, rfl, h.reports_eq, h.queue_eq⟩
  · have hmeet : v.meet report (step x code) =
        { v with found := v.found ++ [step x code]
                 reports := v.reports ++ [report v.found.length (step x code)] } := if_neg hx
    have hnumber : (v.found ++ [step x code]).idxOf (step x code) = v.found.length := by
      simp [List.idxOf_append, hx]
    have hle : k ≤ (v.found.mapIdx Prod.mk).length := by
      rw [List.length_mapIdx]
      exact h.le
    simp only [hmeet, h.found_eq, hx, not_false_eq_true, decide_true, if_true, hnumber]
    refine ⟨Nat.le_trans h.le (List.prefix_append ..).length_le, rfl, ?_, ?_⟩
    · rw [h.reports_eq]
    · rw [h.queue_eq, List.mapIdx_concat, List.drop_append_of_le_length hle]

/-- **All columns of a state.**  The numbers that its transitions have are those of the states in
the end, since numbers stay. -/
theorem Keeps.foldl_follow {k : Nat} (h : w.Keeps k v) (codes : List Nat) :
    (codes.foldl (Worklist.follow step report source x) w).Keeps k
        (v.meetAll report (codes.map (step x))) ∧
      (codes.foldl (Worklist.follow step report source x) w).laid = w.laid ++
        codes.map fun code =>
          (source, code, (v.meetAll report (codes.map (step x))).found.idxOf (step x code)) := by
  induction codes generalizing w v with
  | nil => exact ⟨h, (List.append_nil _).symm⟩
  | cons code codes ih =>
      obtain ⟨hfirst, hlaid⟩ := h.follow step report source x code
      obtain ⟨hlater, hlaid'⟩ := ih hfirst
      have hmeetAll : v.meetAll report ((code :: codes).map (step x)) =
          (v.meet report (step x code)).meetAll report (codes.map (step x)) := rfl
      have hnumber : ((v.meet report (step x code)).meetAll report (codes.map (step x))).found.idxOf
          (step x code) = (v.meet report (step x code)).found.idxOf (step x code) :=
        Survey.idxOf_of_isPrefix (Survey.found_isPrefix_meetAll _)
          (Survey.mem_found_meet.2 (.inr rfl))
      rw [hmeetAll, List.foldl_cons, List.map_cons, hnumber]
      refine ⟨hlater, ?_⟩
      rw [hlaid', hlaid, List.append_assoc]
      rfl

end Follow

theorem turn_of_nil (h : w.queue = []) : w.turn step report columns = w := by
  rw [turn, h]

omit [DecidableEq σ] in
/-- **A worklist ends when the survey ends.** -/
theorem Mirrors.queue_eq_nil_iff (h : w.Mirrors columns v) : w.queue = [] ↔ v.pending = [] := by
  rw [h.queue_eq, List.drop_eq_nil_iff, List.length_mapIdx, Survey.pending_eq_nil_iff]

omit [DecidableEq σ] in
/-- The pending state with its number is first in the queue. -/
theorem Mirrors.queue_eq_cons (h : w.Mirrors columns v) {l : List σ} (hv : v.pending = x :: l) :
    w.queue = (v.rows.length, x) :: (v.found.mapIdx Prod.mk).drop (v.rows.length + 1) := by
  obtain ⟨hlt, hx⟩ := List.getElem?_eq_some_iff.1 (Survey.getElem?_found_of_pending hv)
  have hlt' : v.rows.length < (v.found.mapIdx Prod.mk).length := by
    rw [List.length_mapIdx]
    exact hlt
  rw [h.queue_eq, List.drop_eq_getElem_cons hlt', List.getElem_mapIdx, hx]

theorem transitionsOf_map (columns : List Nat) (source : Nat) (f : Nat → Nat) :
    transitionsOf columns source (columns.map f) =
      columns.map fun code => (source, code, f code) := by
  rw [transitionsOf, List.zipWith_map_right, List.zipWith_self]

/-- **A turn is a round of the survey.** -/
theorem Mirrors.turn (h : w.Mirrors columns v) {l : List σ} (hv : v.pending = x :: l) :
    (w.turn step report columns).Mirrors columns (v.visit report (columns.map (step x))) := by
  obtain ⟨hlt, -⟩ := List.getElem?_eq_some_iff.1 (Survey.getElem?_found_of_pending hv)
  have hpopped : ({ w with queue := (v.found.mapIdx Prod.mk).drop (v.rows.length + 1) } :
      Worklist σ ρ).Keeps (v.rows.length + 1) v := ⟨hlt, h.found_eq, h.reports_eq, rfl⟩
  obtain ⟨hkeeps, hlaid⟩ := hpopped.foldl_follow step report v.rows.length x columns
  rw [Worklist.turn, h.queue_eq_cons hv]
  refine ⟨hkeeps.found_eq, hkeeps.reports_eq, ?_, ?_⟩
  · rw [Survey.length_rows_visit]
    exact hkeeps.queue_eq
  · rw [Survey.rows_visit, List.mapIdx_concat, List.flatten_concat, List.map_map, transitionsOf_map,
      ← h.laid_eq]
    exact hlaid

theorem mirrors_start (columns : List Nat) (x : σ) :
    (start x : Worklist σ ρ).Mirrors columns (.start [x]) :=
  ⟨rfl, rfl, rfl, rfl⟩

variable (step report) in
/-- **After so many turns a worklist has what the survey has after so many rounds.** -/
theorem Mirrors.iterate_turn (h : w.Mirrors columns v) (n : Nat) :
    ((Worklist.turn step report columns)^[n] w).Mirrors columns
      (v.expand (fun x => columns.map (step x)) report n) := by
  induction n generalizing w v with
  | zero => exact h
  | succ n ih =>
      rw [Function.iterate_succ_apply, Survey.expand]
      cases hv : v.pending with
      | nil =>
          have hqueue : w.queue = [] := h.queue_eq_nil_iff.2 hv
          rw [turn_of_nil hqueue, Function.iterate_fixed (turn_of_nil hqueue)]
          exact h
      | cons x l => exact ih (h.turn hv)

omit [DecidableEq σ] in
/-- In the end a worklist has nothing but what the survey has. -/
theorem Mirrors.eq_of_pending (h : w.Mirrors columns v) (hv : v.pending = []) :
    w = ⟨[], v.found, v.reports, (v.rows.mapIdx (transitionsOf columns)).flatten⟩ := by
  obtain ⟨queue, found, reports, laid⟩ := w
  obtain rfl : queue = [] := h.queue_eq_nil_iff.2 hv
  obtain ⟨rfl, rfl, -, rfl⟩ := h
  rfl

end Worklist

/-! ### A search for a goal -/

/-- **A search**: the states that wait, and all states met. -/
structure Search where
  queue : List Nat
  visited : StateSet

namespace Search
variable {w : Search} {succ : Nat → List Nat} {goal : Nat → Bool}

/-- One state waits, and it is the only one met. -/
def start (s : Nat) : Search := ⟨[s], .singleton s⟩

/-- Meets a state: one that is new waits at the end of the queue. -/
def meet (w : Search) (s : Nat) : Search :=
  let (visited, new) := w.visited.insertNew s
  ⟨if new then w.queue ++ [s] else w.queue, visited⟩

/-- Looks for a goal, for so many turns: `true` if there is none, and nothing if the turns do not
do. -/
def look (succ : Nat → List Nat) (goal : Nat → Bool) : (turns : Nat) → Search → Option Bool
  | 0, _ => none
  | turns + 1, w =>
      match w.queue with
      | [] => some true
      | s :: rest =>
          if goal s then some false
          else look succ goal turns ((succ s).foldl meet { w with queue := rest })

/-- **What a search has**: all that a survey has found, and in the queue what was found behind the
first `k` states. -/
structure Keeps {ρ : Type} (k : Nat) (w : Search) (v : Survey Nat ρ) : Prop where
  le : k ≤ v.found.length
  mem_visited_iff : ∀ t, t ∈ w.visited ↔ t ∈ v.found
  queue_eq : w.queue = v.found.drop k

variable {ρ : Type} {report : Nat → Nat → ρ} {v : Survey Nat ρ} {k : Nat}

theorem keeps_start (s : Nat) :
    (start s).Keeps (Survey.start [s] : Survey Nat ρ).rows.length (.start [s] : Survey Nat ρ) where
  le := Nat.zero_le _
  mem_visited_iff _ := StateSet.mem_singleton.trans List.mem_singleton.symm
  queue_eq := rfl

variable (report) in
theorem Keeps.meet (h : w.Keeps k v) (s : Nat) : (w.meet s).Keeps k (v.meet report s) := by
  unfold Search.meet
  rw [StateSet.insertNew_eq]
  by_cases hs : s ∈ v.found
  · have hvisited : s ∈ w.visited := (h.mem_visited_iff s).2 hs
    rw [Survey.meet_of_mem hs]
    dsimp only
    rw [decide_eq_false (not_not_intro hvisited), StateSet.insert_of_mem hvisited]
    exact h
  · have hvisited : s ∉ w.visited := fun hmem => hs ((h.mem_visited_iff s).1 hmem)
    have hmeet : (v.meet report s).found = v.found ++ [s] := by
      rw [Survey.meet, if_neg hs]
    dsimp only
    rw [decide_eq_true hvisited]
    refine ⟨?_, fun t => ?_, ?_⟩
    · rw [hmeet, List.length_append]
      exact Nat.le_add_right_of_le h.le
    · rw [hmeet, StateSet.mem_insert, List.mem_append, List.mem_singleton, h.mem_visited_iff,
        or_comm]
    · rw [hmeet, List.drop_append_of_le_length h.le, ← h.queue_eq]
      rfl

variable (report) in
theorem Keeps.foldl_meet (h : w.Keeps k v) (xs : List Nat) :
    (xs.foldl Search.meet w).Keeps k (v.meetAll report xs) := by
  induction xs generalizing w v with
  | nil => exact h
  | cons x xs ih => exact ih (h.meet report x)

variable (report) in
/-- **A turn of the search is a round of the survey**: the first state of the queue is the pending
one. -/
theorem Keeps.visit (h : w.Keeps v.rows.length v) {s : Nat} {rest : List Nat}
    (hv : v.pending = s :: rest) (xs : List Nat) :
    (xs.foldl Search.meet { w with queue := rest }).Keeps (v.visit report xs).rows.length
      (v.visit report xs) := by
  obtain ⟨hlt, -⟩ := List.getElem?_eq_some_iff.1 (Survey.getElem?_found_of_pending hv)
  have hpopped : ({ w with queue := rest } : Search).Keeps (v.rows.length + 1) v := by
    refine ⟨hlt, h.mem_visited_iff, ?_⟩
    rw [← List.tail_drop]
    exact congrArg List.tail hv.symm
  have hlength : (v.visit report xs).rows.length = v.rows.length + 1 := Survey.length_rows_visit xs
  have hmet := hpopped.foldl_meet report xs
  rw [← hlength] at hmet
  exact ⟨hmet.le, hmet.mem_visited_iff, hmet.queue_eq⟩

/-- The state that is expanded next stays where it was found. -/
theorem drop_found_expand {s : Nat} {rest : List Nat} (hv : v.pending = s :: rest)
    (rounds : Nat) (xs : List Nat) :
    ((v.visit report xs).expand succ report rounds).found.drop v.rows.length =
      s :: ((v.visit report xs).expand succ report rounds).found.drop (v.rows.length + 1) := by
  have hs : v.found[v.rows.length]? = some s := Survey.getElem?_found_of_pending hv
  have hvisit : v.found <+: (v.visit report xs).found := Survey.found_isPrefix_meetAll xs
  obtain ⟨t, ht⟩ : v.found <+: ((v.visit report xs).expand succ report rounds).found :=
    hvisit.trans (Survey.found_isPrefix_expand rounds)
  have hlt : v.rows.length < v.found.length := (List.getElem?_eq_some_iff.1 hs).1
  have hlater : ((v.visit report xs).expand succ report rounds).found[v.rows.length]? = some s := by
    rw [← ht, List.getElem?_append_left hlt, hs]
  obtain ⟨hlt', hget⟩ := List.getElem?_eq_some_iff.1 hlater
  rw [List.drop_eq_getElem_cons hlt', hget]

/-- **A search looks at what the survey goes on to expand**, up to the first goal. -/
theorem look_eq (h : w.Keeps v.rows.length v) (turns : Nat)
    (hend : (v.expand succ report turns).pending = []) :
    look succ goal (turns + 1) w =
      some (((v.expand succ report turns).found.drop v.rows.length).all fun s => !goal s) := by
  have hqueue : w.queue = v.pending := h.queue_eq
  induction turns generalizing w v with
  | zero =>
      have hpending : v.pending = [] := hend
      rw [look, hqueue, hpending]
      exact (congrArg (fun l => some (l.all fun s => !goal s)) hpending).symm
  | succ turns ih =>
      rw [Survey.expand] at hend ⊢
      rw [look, hqueue]
      cases hv : v.pending with
      | nil => exact (congrArg (fun l => some (l.all fun s => !goal s)) hv).symm
      | cons s rest =>
          rw [hv] at hend
          have hvisit := h.visit report hv (succ s)
          have hlater := ih hvisit hend hvisit.queue_eq
          rw [Survey.length_rows_visit] at hlater
          dsimp only
          rw [hlater, drop_found_expand hv, List.all_cons]
          cases goal s <;> rfl

/-- **A search answers as a survey does that goes on to the end**, if it may take one turn more than
there are states to look at. -/
theorem look_eq_all_reachable {s rounds turns : Nat}
    (hbound : AtMost rounds (Reached succ [s])) (h : rounds < turns) :
    look succ goal turns (start s) =
      some ((reachable succ rounds [s]).all fun t => !goal t) := by
  obtain ⟨more, rfl⟩ := Nat.exists_eq_add_of_lt h
  have hsurvey : survey succ (fun _ _ => ()) (rounds + more) [s] =
      survey succ (fun _ _ => ()) rounds [s] := survey_eq_of_le hbound (Nat.le_add_right ..)
  have hend : (survey succ (fun _ _ => ()) (rounds + more) [s]).pending = [] := by
    rw [hsurvey]
    exact pending_survey hbound
  rw [look_eq (keeps_start s) _ hend, reachable, ← hsurvey]
  rfl

end Search
end SignatureAutomata
