/-! # Breadth-first surveys

A survey starts from a list of states and follows a successor function.  States
are numbered in the order in which they are found, and each state found after the
start is reported once, when it is found, together with its number.  States are
expanded in the order of their numbers, so the survey is breadth first and its
numbering is the order of discovery.  Expanding a state leaves a row with the
numbers of its successors.

A survey runs for a given number of rounds, each of which expands one state, or
until no state is `pending`; `reachable` is the survey's list of states alone.
Whoever starts a survey knows a bound on the states it can meet, and that bound
is the number of rounds.
-/

namespace SignatureAutomata

/-- **What a survey has found so far**: the states in the order of discovery, the
reports on those that were not there from the start, and the rows of the states
expanded so far, which are the first ones found. -/
structure Survey (σ ρ : Type) where
  found : List σ
  reports : List ρ
  /-- For each state expanded, the numbers of its successors. -/
  rows : List (List Nat)

namespace Survey
variable {σ ρ : Type} [DecidableEq σ]

/-- The survey before its first round. -/
def start (starts : List σ) : Survey σ ρ := ⟨starts.eraseDups, [], []⟩

/-- The states that are found but not expanded yet, the next one first. -/
def pending (v : Survey σ ρ) : List σ := v.found.drop v.rows.length

/-- Meets a state: one not met before gets the next number and is reported. -/
def meet (report : Nat → σ → ρ) (v : Survey σ ρ) (x : σ) : Survey σ ρ :=
  if x ∈ v.found then v
  else { v with found := v.found ++ [x], reports := v.reports ++ [report v.found.length x] }

/-- Meets the states of a list in turn. -/
def meetAll (report : Nat → σ → ρ) (v : Survey σ ρ) (xs : List σ) : Survey σ ρ :=
  xs.foldl (meet report) v

/-- Meets the successors of the state whose turn it is, and lays its row. -/
def visit (report : Nat → σ → ρ) (v : Survey σ ρ) (xs : List σ) : Survey σ ρ :=
  let w := v.meetAll report xs
  { w with rows := w.rows ++ [xs.map w.found.idxOf] }

/-- Expands the pending states one after the other, for at most `rounds` of them. -/
def expand (succ : σ → List σ) (report : Nat → σ → ρ) : (rounds : Nat) → Survey σ ρ → Survey σ ρ
  | 0, v => v
  | rounds + 1, v =>
      match v.pending with
      | [] => v
      | x :: _ => expand succ report rounds (v.visit report (succ x))

theorem meet_of_mem {report : Nat → σ → ρ} {v : Survey σ ρ} {x : σ} (h : x ∈ v.found) :
    v.meet report x = v := if_pos h

theorem mem_found_meet {report : Nat → σ → ρ} {v : Survey σ ρ} {x y : σ} :
    y ∈ (v.meet report x).found ↔ y ∈ v.found ∨ y = x := by
  unfold meet
  split
  · rename_i h
    exact ⟨.inl, fun hy => hy.elim id fun hy => hy ▸ h⟩
  · simp

/-- Meeting states only adds to what was found. -/
theorem mem_found_meetAll {report : Nat → σ → ρ} {xs : List σ} {v : Survey σ ρ} {y : σ} :
    y ∈ (v.meetAll report xs).found ↔ y ∈ v.found ∨ y ∈ xs := by
  induction xs generalizing v with
  | nil => simp [meetAll]
  | cons x xs ih =>
      have h := ih (v := v.meet report x)
      simp only [meetAll, List.foldl_cons] at h ⊢
      rw [h, mem_found_meet, List.mem_cons, or_assoc]

end Survey

section
variable {σ ρ : Type} [DecidableEq σ]

/-- **The survey of what `succ` reaches from `starts`**, in at most `rounds`
rounds. -/
def survey (succ : σ → List σ) (report : Nat → σ → ρ) (rounds : Nat) (starts : List σ) :
    Survey σ ρ :=
  Survey.expand succ report rounds (.start starts)

/-- The states a survey finds, in the order of discovery. -/
def reachable (succ : σ → List σ) (rounds : Nat) (starts : List σ) : List σ :=
  (survey succ (fun _ _ => ()) rounds starts).found

example : reachable (fun n => [n + 2, n * n % 7]) 3 [3] = [3, 5, 2, 7, 4] := by decide

end
end SignatureAutomata
