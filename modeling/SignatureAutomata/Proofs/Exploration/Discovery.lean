import SignatureAutomata.Proofs.Exploration

/-! # Where a state is named first

The rows of a survey name states by their numbers.  Read the rows in order, each from its first
place on: every state that was not there from the start comes up, and the states come up for the
first time in the order of their numbers (`Survey.NamedFirst`).  This is what makes the survey
breadth first.  A state is named by one with a smaller number, because its row is laid before it
is found.

One expansion keeps this (`Survey.InOrder.visit`).  It leaves the earlier rows as they are, and
they name nothing but states found by then; the row that it lays names the new states in the order
in which they are met (`Survey.exists_first_meetAll`).
-/

namespace SignatureAutomata

namespace Survey
variable {σ ρ : Type}

/-! ### Places in rows -/

/-- Place `k` of row `p` names the state with number `i`. -/
def Names (rows : List (List Nat)) (p k i : Nat) : Prop :=
  ∃ row, rows[p]? = some row ∧ row[k]? = some i

/-- Place `k` of row `p` is ahead of place `l` of row `q`. -/
def Ahead (p k q l : Nat) : Prop := p < q ∨ p = q ∧ k < l

/-- **The first place that names a state**: what is named ahead of it has a smaller number. -/
structure NamedFirst (rows : List (List Nat)) (p k i : Nat) : Prop where
  names : Names rows p k i
  lt_of_ahead : ∀ q l j, Names rows q l j → Ahead q l p k → j < i

/-- A further row leaves the earlier ones as they are. -/
theorem names_concat_iff {rows : List (List Nat)} {row : List Nat} {p k i : Nat}
    (hp : p < rows.length) : Names (rows ++ [row]) p k i ↔ Names rows p k i := by
  unfold Names
  rw [List.getElem?_append_left hp]

theorem names_concat_length_iff {rows : List (List Nat)} {row : List Nat} {k i : Nat} :
    Names (rows ++ [row]) rows.length k i ↔ row[k]? = some i := by
  simp [Names]

theorem Names.lt_length {rows : List (List Nat)} {p k i : Nat} (h : Names rows p k i) :
    p < rows.length := by
  obtain ⟨row, hrow, -⟩ := h
  exact (List.getElem?_eq_some_iff.1 hrow).1

variable [DecidableEq σ] {succ : σ → List σ} {report : Nat → σ → ρ} {starts : List σ}
  {v : Survey σ ρ} {x : σ} {i first : Nat}

/-- Rows name states that are found. -/
theorem Invariant.lt_of_names (h : Invariant succ starts v) {p k : Nat}
    (hi : Names v.rows p k i) : i < v.found.length := by
  have hp : p < v.found.length := Nat.lt_of_lt_of_le hi.lt_length h.length_rows_le
  obtain ⟨row, hrow, hk⟩ := hi
  have hnamed := h.row p row _ hrow (List.getElem?_eq_getElem hp)
  have hmem : v.found[i]? ∈ (succ v.found[p]).map some :=
    hnamed ▸ List.mem_map_of_mem (List.mem_of_getElem? hk)
  obtain ⟨y, -, hy⟩ := List.mem_map.1 hmem
  exact (List.getElem?_eq_some_iff.1 hy.symm).1

/-! ### Meeting states in turn -/

theorem idxOf_of_isPrefix {l m : List σ} (h : l <+: m) (hx : x ∈ l) :
    m.idxOf x = l.idxOf x := by
  obtain ⟨t, rfl⟩ := h
  rw [List.idxOf_append, if_pos hx]

/-- A number that is given when a state is met is the number of that state. -/
theorem idxOf_meet (hi : v.found.length ≤ i) (hlt : i < (v.meet report x).found.length) :
    (v.meet report x).found.idxOf x = i := by
  unfold meet at hlt ⊢
  split at hlt
  · omega
  · rename_i hx
    rw [if_neg hx]
    have hlt : i < (v.found ++ [x]).length := hlt
    rw [List.length_append, List.length_singleton] at hlt
    show (v.found ++ [x]).idxOf x = i
    rw [List.idxOf_append, if_neg hx]
    simp
    omega

/-- **New states are named in the order of their numbers** by a list of states to meet. -/
theorem exists_first_meetAll {xs : List σ} {v : Survey σ ρ} (hi : v.found.length ≤ i)
    (hlt : i < (v.meetAll report xs).found.length) :
    ∃ k, (xs.map (v.meetAll report xs).found.idxOf)[k]? = some i ∧
      ∀ l j : Nat, l < k → (xs.map (v.meetAll report xs).found.idxOf)[l]? = some j → j < i := by
  induction xs generalizing v with
  | nil => exact absurd hi (Nat.not_le.2 hlt)
  | cons x xs ih =>
      have hmeet : v.meetAll report (x :: xs) = (v.meet report x).meetAll report xs := rfl
      have hfound : (v.meetAll report (x :: xs)).found.idxOf x =
          (v.meet report x).found.idxOf x :=
        idxOf_of_isPrefix (hmeet ▸ found_isPrefix_meetAll xs) (mem_found_meet.2 (.inr rfl))
      rw [List.map_cons, hfound]
      rcases Nat.lt_or_ge i (v.meet report x).found.length with hnew | hold
      · -- the number is given to `x`
        exact ⟨0, congrArg some (idxOf_meet hi hnew), fun l _ hl => absurd hl (Nat.not_lt_zero l)⟩
      · -- the number is given later, and `x` has a smaller one
        obtain ⟨k, hk, hfirst⟩ := ih hold (hmeet ▸ hlt)
        refine ⟨k + 1, hk, fun l j hl hj => ?_⟩
        cases l with
        | zero =>
            obtain rfl := Option.some.inj hj
            have hx : (v.meet report x).found.idxOf x < (v.meet report x).found.length :=
              List.idxOf_lt_length_of_mem (mem_found_meet.2 (.inr rfl))
            omega
        | succ l => exact hfirst l j (Nat.lt_of_succ_lt_succ hl) hj

/-! ### The order of numbers -/

/-- **From the number `first` on, states are numbered in the order in which rows name them
first**, and each is named first by a state with a smaller number. -/
def InOrder (first : Nat) (v : Survey σ ρ) : Prop :=
  ∀ i, first ≤ i → i < v.found.length → ∃ p k, p < i ∧ NamedFirst v.rows p k i

omit [DecidableEq σ] in
theorem inOrder_of_length_le (h : v.found.length ≤ first) : v.InOrder first :=
  fun _ hi hlt => absurd (Nat.le_trans h hi) (Nat.not_le.2 hlt)

/-- **Expanding the first pending state keeps the order.** -/
theorem InOrder.visit (h : v.InOrder first) (hv : Invariant succ starts v) {l : List σ}
    (hx : v.pending = x :: l) : (v.visit report (succ x)).InOrder first := by
  intro i hi hlt
  rw [found_visit] at hlt
  rw [rows_visit]
  rcases Nat.lt_or_ge i v.found.length with hold | hnew
  · -- found before: the rows up to the first place that names it are unchanged
    obtain ⟨p, k, hp, hfirst⟩ := h i hi hold
    have hrow : p < v.rows.length := hfirst.names.lt_length
    refine ⟨p, k, hp, (names_concat_iff hrow).2 hfirst.names, fun q l j hj hahead => ?_⟩
    have hq : q < v.rows.length := by
      unfold Ahead at hahead
      omega
    exact hfirst.lt_of_ahead q l j ((names_concat_iff hq).1 hj) hahead
  · -- found now: it is named in the row just laid
    have hnext : v.rows.length < v.found.length :=
      (List.getElem?_eq_some_iff.1 (getElem?_found_of_pending hx)).1
    obtain ⟨k, hk, hfirst⟩ := exists_first_meetAll hnew hlt
    refine ⟨v.rows.length, k, Nat.lt_of_lt_of_le hnext hnew, names_concat_length_iff.2 hk,
      fun q l j hj hahead => ?_⟩
    rcases hahead with hq | ⟨rfl, hl⟩
    · exact Nat.lt_of_lt_of_le (hv.lt_of_names ((names_concat_iff hq).1 hj)) hnew
    · exact hfirst l j hl (names_concat_length_iff.1 hj)

/-- **Every run keeps the order.** -/
theorem InOrder.expand (rounds : Nat) (h : v.InOrder first) (hv : Invariant succ starts v) :
    (v.expand succ report rounds).InOrder first := by
  induction rounds generalizing v with
  | zero => exact h
  | succ rounds ih =>
      unfold Survey.expand
      split
      · exact h
      · rename_i x l hx
        exact ih (h.visit hv hx) (hv.visit hx)

end Survey

/-- **A survey numbers states in the order in which its rows name them first.** -/
theorem inOrder_survey {σ ρ : Type} [DecidableEq σ] (succ : σ → List σ) (report : Nat → σ → ρ)
    (rounds : Nat) (starts : List σ) :
    (survey succ report rounds starts).InOrder starts.eraseDups.length :=
  (Survey.inOrder_of_length_le (Nat.le_refl _)).expand rounds Survey.invariant_start

end SignatureAutomata
