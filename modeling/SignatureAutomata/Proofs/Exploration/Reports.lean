import SignatureAutomata.Proofs.Exploration

/-! # What a survey reports

Most states that a survey meets are found already.  Still the reports are one for each state found
beyond the first ones, in the order of numbers, each with the number and the state
(`Survey.Reported`): meeting a state either changes nothing, or adds one state and one report
(`Reported.meet`).
-/

namespace SignatureAutomata

namespace Survey
variable {σ ρ : Type} {succ : σ → List σ} {report : Nat → σ → ρ} {v : Survey σ ρ} {first : Nat}

/-- **From the number `first` on, each state is reported once**, in the order of numbers. -/
structure Reported (report : Nat → σ → ρ) (first : Nat) (v : Survey σ ρ) : Prop where
  first_le : first ≤ v.found.length
  reports_eq : v.reports = (v.found.mapIdx report).drop first

variable [DecidableEq σ]

/-- **Meeting a state reports it exactly if it is new.** -/
theorem Reported.meet (h : v.Reported report first) (x : σ) :
    (v.meet report x).Reported report first := by
  unfold Survey.meet
  split
  · exact h
  · constructor
    · exact Nat.le_trans h.first_le (List.prefix_append v.found [x]).length_le
    · have hle : first ≤ (v.found.mapIdx report).length := by
        rw [List.length_mapIdx]
        exact h.first_le
      show v.reports ++ [report v.found.length x] = ((v.found ++ [x]).mapIdx report).drop first
      rw [List.mapIdx_concat, List.drop_append_of_le_length hle, h.reports_eq]

theorem Reported.meetAll (h : v.Reported report first) (xs : List σ) :
    (v.meetAll report xs).Reported report first := by
  induction xs generalizing v with
  | nil => exact h
  | cons x xs ih => exact ih (h.meet x)

/-- Laying a row reports nothing. -/
theorem Reported.visit (h : v.Reported report first) (xs : List σ) :
    (v.visit report xs).Reported report first :=
  ⟨(h.meetAll xs).first_le, (h.meetAll xs).reports_eq⟩

theorem Reported.expand (h : v.Reported report first) (rounds : Nat) :
    (v.expand succ report rounds).Reported report first := by
  induction rounds generalizing v with
  | zero => exact h
  | succ rounds ih =>
      unfold Survey.expand
      split
      · exact h
      · exact ih (h.visit _)

end Survey

/-- **A survey reports every state that was not there from the start**, in the order of
numbers. -/
theorem reports_survey {σ ρ : Type} [DecidableEq σ] (succ : σ → List σ) (report : Nat → σ → ρ)
    (rounds : Nat) (starts : List σ) :
    (survey succ report rounds starts).reports =
      ((survey succ report rounds starts).found.mapIdx report).drop starts.eraseDups.length := by
  have hstart : (Survey.start starts : Survey σ ρ).Reported report starts.eraseDups.length := by
    refine ⟨Nat.le_refl _, (List.drop_eq_nil_of_le ?_).symm⟩
    rw [List.length_mapIdx]
    exact Nat.le_refl _
  exact (hstart.expand rounds).reports_eq

end SignatureAutomata
