import SignatureAutomata.Exploration

/-! # What a survey finds

A survey that ends with no state pending has found exactly what its successor
function reaches (`mem_found_survey_iff`), has numbered every state once, and has
laid a row for each state that names the successors by their numbers.

All of this follows from one invariant (`Survey.Invariant`): the states found are
distinct and reached, and the rows laid so far are right.  One expansion keeps it
(`Invariant.visit`), so a whole run does (`Invariant.expand`).

A survey ends when it may expand as many states as can be reached
(`pending_survey`), because every round lays one row and there are never more
rows than states.  More rounds then change nothing (`survey_eq_of_le`).

Two surveys that follow different lists find the same states in the same order, if the lists name
the same states in the same order, however often (`found_survey_congr`).
-/

namespace SignatureAutomata

/-- **What `succ` reaches from the states of a list**, those included. -/
inductive Reached {σ : Type} (succ : σ → List σ) (starts : List σ) : σ → Prop where
  | start {x : σ} : x ∈ starts → Reached succ starts x
  | step {x y : σ} : Reached succ starts x → y ∈ succ x → Reached succ starts y

/-- At most `bound` different things have a property. -/
def AtMost {σ : Type} (bound : Nat) (P : σ → Prop) : Prop :=
  ∀ l : List σ, l.Nodup → (∀ x ∈ l, P x) → l.length ≤ bound

/-- What holds of the members of a list holds of at most as many things as the list
is long. -/
theorem atMost_of_forall_mem {σ : Type} {P : σ → Prop} {l : List σ} (h : ∀ x, P x → x ∈ l) :
    AtMost l.length P :=
  fun _ hm hP => hm.length_le_of_subset fun x hx => h x (hP x hx)

/-- In a list that only repeats or goes up, each member goes up once repetitions are left out. -/
theorem pairwise_eraseDups {σ : Type} [BEq σ] [LawfulBEq σ] {before : σ → σ → Prop} :
    ∀ {l : List σ}, l.Pairwise (fun x y => before x y ∨ x = y) → l.eraseDups.Pairwise before
  | [], _ => .nil
  | x :: l, h => by
      rw [List.pairwise_cons] at h
      rw [List.eraseDups_cons, List.pairwise_cons]
      refine ⟨fun y hy => ?_, pairwise_eraseDups (h.2.filter _)⟩
      obtain ⟨hmem, hne⟩ := List.mem_filter.1 (List.mem_eraseDups.1 hy)
      have hne : y ≠ x := by simpa using hne
      exact (h.1 y hmem).resolve_right (Ne.symm hne)
termination_by l => l.length
decreasing_by exact Nat.lt_succ_of_le (List.length_filter_le ..)

theorem nodup_eraseDups {σ : Type} [DecidableEq σ] (l : List σ) : l.eraseDups.Nodup :=
  pairwise_eraseDups (List.pairwise_of_forall fun x y => (Decidable.em (x = y)).symm)

/-- If a map is `y` off `p`, then behind `y` only its values on `p` can be new. -/
theorem eraseDups_cons_map_filter {β σ : Type} [DecidableEq σ] {f : β → σ} {p : β → Bool}
    {y : σ} {l : List β} (h : ∀ x ∈ l, p x = false → f x = y) :
    (y :: l.map f).eraseDups = (y :: (l.filter p).map f).eraseDups := by
  rw [List.eraseDups_cons, List.eraseDups_cons, List.filter_map, List.filter_map,
    List.filter_filter]
  congr 3
  refine List.filter_congr fun x hx => ?_
  cases hp : p x with
  | true => simp
  | false => simp [h x hx hp]

namespace Survey
variable {σ ρ : Type} {succ : σ → List σ} {report : Nat → σ → ρ} {starts : List σ}
  {v : Survey σ ρ}

/-! ### Rows as numbers of states -/

/-- Numbers that name states of a list still name them when the list grows. -/
theorem map_getElem?_of_isPrefix {row : List Nat} {l m xs : List σ} (hlm : l <+: m)
    (h : row.map (l[·]?) = xs.map some) : row.map (m[·]?) = xs.map some := by
  obtain ⟨t, rfl⟩ := hlm
  rw [← h]
  refine List.map_congr_left fun i hi => ?_
  have hmem : l[i]? ∈ xs.map some := h ▸ List.mem_map_of_mem hi
  obtain ⟨x, -, hx⟩ := List.mem_map.1 hmem
  exact List.getElem?_append_left (List.getElem?_eq_some_iff.1 hx.symm).1

variable [DecidableEq σ]

/-- The places of the members of a list name them. -/
theorem map_getElem?_map_idxOf {l xs : List σ} (h : ∀ x ∈ xs, x ∈ l) :
    (xs.map l.idxOf).map (l[·]?) = xs.map some := by
  rw [List.map_map]
  refine List.map_congr_left fun x hx => ?_
  have hlt : l.idxOf x < l.length := List.idxOf_lt_length_of_mem (h x hx)
  exact List.getElem?_eq_some_iff.2 ⟨hlt, List.getElem_idxOf hlt⟩

/-! ### Meeting states -/

theorem rows_meet (x : σ) : (v.meet report x).rows = v.rows := by
  unfold meet
  split <;> rfl

theorem found_isPrefix_meet (x : σ) : v.found <+: (v.meet report x).found := by
  unfold meet
  split
  · exact List.prefix_refl _
  · exact List.prefix_append ..

theorem nodup_found_meet (x : σ) (h : v.found.Nodup) : (v.meet report x).found.Nodup := by
  unfold meet
  split
  · exact h
  · rename_i hx
    exact List.nodup_append.2 ⟨h, List.pairwise_singleton _ x, fun a ha b hb hab =>
      hx (List.mem_singleton.1 hb ▸ hab ▸ ha)⟩

theorem rows_meetAll (xs : List σ) : (v.meetAll report xs).rows = v.rows := by
  induction xs generalizing v with
  | nil => rfl
  | cons x xs ih => exact ih.trans (rows_meet x)

theorem found_isPrefix_meetAll (xs : List σ) : v.found <+: (v.meetAll report xs).found := by
  induction xs generalizing v with
  | nil => exact List.prefix_refl _
  | cons x xs ih => exact (found_isPrefix_meet x).trans ih

theorem nodup_found_meetAll (xs : List σ) (h : v.found.Nodup) :
    (v.meetAll report xs).found.Nodup := by
  induction xs generalizing v with
  | nil => exact h
  | cons x xs ih => exact ih (nodup_found_meet x h)

/-! ### The invariant -/

variable (succ starts) in
/-- **What holds of a survey after every round.**  The states beyond the last row
are the pending ones; nothing is asked of them but that they are reached. -/
structure Invariant (v : Survey σ ρ) : Prop where
  nodup : v.found.Nodup
  starts_isPrefix : starts.eraseDups <+: v.found
  reached : ∀ x ∈ v.found, Reached succ starts x
  length_rows_le : v.rows.length ≤ v.found.length
  /-- A row names the successors of its state. -/
  row : ∀ (i : Nat) (row : List Nat) (x : σ), v.rows[i]? = some row → v.found[i]? = some x →
    row.map (v.found[·]?) = (succ x).map some

theorem invariant_start : Invariant succ starts (start starts : Survey σ ρ) where
  nodup := nodup_eraseDups starts
  starts_isPrefix := List.prefix_refl _
  reached _ hx := .start (List.mem_eraseDups.1 hx)
  length_rows_le := Nat.zero_le _
  row _ _ _ hrow := by simp [start] at hrow

omit [DecidableEq σ] in
/-- The first pending state is the one after the last row. -/
theorem getElem?_found_of_pending {x : σ} {l : List σ} (h : v.pending = x :: l) :
    v.found[v.rows.length]? = some x := by
  rw [← List.head?_drop]
  exact congrArg List.head? h

theorem found_visit (xs : List σ) : (v.visit report xs).found = (v.meetAll report xs).found := rfl

theorem rows_visit (xs : List σ) :
    (v.visit report xs).rows = v.rows ++ [xs.map (v.meetAll report xs).found.idxOf] := by
  show (v.meetAll report xs).rows ++ _ = _
  rw [rows_meetAll]

theorem length_rows_visit (xs : List σ) :
    (v.visit report xs).rows.length = v.rows.length + 1 := by
  rw [rows_visit, List.length_append, List.length_singleton]

/-- **Expanding the first pending state keeps the invariant.** -/
theorem Invariant.visit (h : Invariant succ starts v) {x : σ} {l : List σ}
    (hx : v.pending = x :: l) : Invariant succ starts (v.visit report (succ x)) := by
  have hnext : v.found[v.rows.length]? = some x := getElem?_found_of_pending hx
  have hlt : v.rows.length < v.found.length := (List.getElem?_eq_some_iff.1 hnext).1
  have hgrow : v.found <+: (v.meetAll report (succ x)).found := found_isPrefix_meetAll _
  constructor
  · exact nodup_found_meetAll _ h.nodup
  · exact h.starts_isPrefix.trans hgrow
  · intro y hy
    rcases mem_found_meetAll.1 hy with hy | hy
    · exact h.reached y hy
    · exact .step (h.reached x (List.mem_of_getElem? hnext)) hy
  · rw [length_rows_visit, found_visit]
    exact Nat.le_trans hlt hgrow.length_le
  · intro i row y hrow hy
    rw [found_visit] at hy ⊢
    rw [rows_visit] at hrow
    rcases Nat.lt_or_ge i v.rows.length with hi | hi
    · -- an earlier row: its state, and the states it names, were found before
      rw [List.getElem?_append_left hi] at hrow
      obtain ⟨t, ht⟩ := hgrow
      rw [← ht, List.getElem?_append_left (Nat.lt_trans hi hlt)] at hy
      exact map_getElem?_of_isPrefix ⟨t, ht⟩ (h.row i row y hrow hy)
    · -- the row just laid, which names by their places states that have just been met
      have hi' : i = v.rows.length := by
        have := (List.getElem?_eq_some_iff.1 hrow).1
        rw [List.length_append, List.length_singleton] at this
        omega
      subst hi'
      rw [List.getElem?_concat_length] at hrow
      obtain rfl := Option.some.inj hrow
      obtain ⟨t, ht⟩ := hgrow
      rw [← ht, List.getElem?_append_left hlt, hnext] at hy
      obtain rfl := Option.some.inj hy
      exact map_getElem?_map_idxOf fun y hy => mem_found_meetAll.2 (.inr hy)

/-- **Every run keeps the invariant.** -/
theorem Invariant.expand (rounds : Nat) (h : Invariant succ starts v) :
    Invariant succ starts (v.expand succ report rounds) := by
  induction rounds generalizing v with
  | zero => exact h
  | succ rounds ih =>
      unfold Survey.expand
      split
      · exact h
      · rename_i x l hx
        exact ih (h.visit hx)

/-! ### The end of a run -/

omit [DecidableEq σ] in
theorem pending_eq_nil_iff : v.pending = [] ↔ v.found.length ≤ v.rows.length :=
  List.drop_eq_nil_iff

/-- A survey with nothing pending has ended. -/
theorem expand_of_pending (h : v.pending = []) (rounds : Nat) :
    v.expand succ report rounds = v := by
  cases rounds with
  | zero => rfl
  | succ rounds => rw [Survey.expand, h]

/-- **A run of as many rounds as states can be reached ends with nothing pending**:
each round lays a row. -/
theorem Invariant.pending_expand {bound : Nat} (hbound : AtMost bound (Reached succ starts))
    (rounds : Nat) (h : Invariant succ starts v) (hrounds : bound ≤ rounds + v.rows.length) :
    (v.expand succ report rounds).pending = [] := by
  induction rounds generalizing v with
  | zero =>
      -- there are no more states than `bound`, and as many rows as that
      have hfound : v.found.length ≤ bound := hbound v.found h.nodup h.reached
      have hrows : v.found.length ≤ v.rows.length := by omega
      exact pending_eq_nil_iff.2 hrows
  | succ rounds ih =>
      unfold Survey.expand
      split
      · assumption
      · rename_i x l hx
        refine ih (h.visit hx) ?_
        rw [length_rows_visit]
        omega

/-- Two runs in a row are one run. -/
theorem expand_add (m n : Nat) (v : Survey σ ρ) :
    v.expand succ report (m + n) = (v.expand succ report m).expand succ report n := by
  induction m generalizing v with
  | zero => rw [Nat.zero_add, Survey.expand]
  | succ m ih =>
      rw [Nat.succ_add, Survey.expand, Survey.expand]
      cases h : v.pending with
      | nil => exact (expand_of_pending h n).symm
      | cons x l => exact ih _

end Survey

section
variable {σ ρ : Type} [DecidableEq σ] {succ : σ → List σ} {report : Nat → σ → ρ}
  {starts : List σ} {bound rounds : Nat}

theorem invariant_survey (rounds : Nat) :
    (survey succ report rounds starts).Invariant succ starts :=
  Survey.invariant_start.expand rounds

/-- **A survey ends** if it may expand as many states as can be reached. -/
theorem pending_survey (hbound : AtMost rounds (Reached succ starts)) :
    (survey succ report rounds starts).pending = [] :=
  Survey.invariant_start.pending_expand hbound rounds (Nat.le_add_right ..)

/-- Further rounds change nothing. -/
theorem survey_eq_of_le (hbound : AtMost bound (Reached succ starts)) (h : bound ≤ rounds) :
    survey succ report rounds starts = survey succ report bound starts := by
  obtain ⟨more, rfl⟩ := Nat.exists_eq_add_of_le h
  rw [survey, Survey.expand_add]
  exact Survey.expand_of_pending (pending_survey hbound) more

/-- Once a survey has ended, every state has a row, and it names the successors. -/
theorem exists_row_survey (hbound : AtMost rounds (Reached succ starts)) {i : Nat} {x : σ}
    (hx : (survey succ report rounds starts).found[i]? = some x) :
    ∃ row, (survey succ report rounds starts).rows[i]? = some row ∧
      row.map ((survey succ report rounds starts).found[·]?) = (succ x).map some := by
  have hi : i < (survey succ report rounds starts).rows.length :=
    Nat.lt_of_lt_of_le (List.getElem?_eq_some_iff.1 hx).1
      (Survey.pending_eq_nil_iff.1 (pending_survey hbound))
  exact ⟨_, List.getElem?_eq_getElem hi,
    (invariant_survey rounds).row i _ x (List.getElem?_eq_getElem hi) hx⟩

/-- **A survey finds exactly what is reached.** -/
theorem mem_found_survey_iff (hbound : AtMost rounds (Reached succ starts)) {x : σ} :
    x ∈ (survey succ report rounds starts).found ↔ Reached succ starts x := by
  constructor
  · exact (invariant_survey rounds).reached x
  · intro hx
    induction hx with
    | start h =>
        exact (invariant_survey rounds).starts_isPrefix.subset (List.mem_eraseDups.2 h)
    | @step x y _ hy ih =>
        -- the row of `x` names `y`, and it names nothing but states found
        obtain ⟨i, hi⟩ := List.mem_iff_getElem?.1 ih
        obtain ⟨row, -, hrow⟩ := exists_row_survey hbound hi
        have hmem : some y ∈ row.map ((survey succ report rounds starts).found[·]?) :=
          hrow ▸ List.mem_map_of_mem hy
        obtain ⟨j, -, hj⟩ := List.mem_map.1 hmem
        exact List.mem_of_getElem? hj

theorem mem_reachable_iff (hbound : AtMost rounds (Reached succ starts)) {x : σ} :
    x ∈ reachable succ rounds starts ↔ Reached succ starts x :=
  mem_found_survey_iff hbound

/-- A search for a state that fails a test looks at every state reached. -/
theorem all_reachable_iff (hbound : AtMost rounds (Reached succ starts)) {p : σ → Bool} :
    (reachable succ rounds starts).all p = true ↔ ∀ x, Reached succ starts x → p x = true := by
  rw [List.all_eq_true]
  exact forall_congr' fun x => imp_congr_left (mem_reachable_iff hbound)

end

/-! ### Surveys in step -/

namespace Survey
variable {σ ρ ρ' : Type} [DecidableEq σ] {succ succ' : σ → List σ} {report : Nat → σ → ρ}
  {report' : Nat → σ → ρ'} {starts : List σ} {v : Survey σ ρ} {w : Survey σ ρ'}

/-- A state that is found already may be left out of those to meet. -/
theorem meetAll_filter_ne {x : σ} (hx : x ∈ v.found) (xs : List σ) :
    v.meetAll report (xs.filter fun y => !y == x) = v.meetAll report xs := by
  induction xs generalizing v with
  | nil => rfl
  | cons y ys ih =>
      by_cases hy : y = x
      · subst hy
        rw [List.filter_cons_of_neg (by simp), ih hx]
        show _ = (v.meet report y).meetAll report ys
        rw [meet_of_mem hx]
      · rw [List.filter_cons_of_pos (by simpa using hy)]
        exact ih (mem_found_meet.2 (.inl hx))

/-- **Meeting a state again is of no account.** -/
theorem meetAll_eraseDups (xs : List σ) (v : Survey σ ρ) :
    v.meetAll report xs.eraseDups = v.meetAll report xs := by
  match xs with
  | [] => rfl
  | x :: xs =>
      have hx : x ∈ (v.meet report x).found := mem_found_meet.2 (.inr rfl)
      rw [List.eraseDups_cons]
      exact (meetAll_eraseDups _ _).trans (meetAll_filter_ne hx xs)
termination_by xs.length
decreasing_by exact Nat.lt_succ_of_le (List.length_filter_le ..)

/-- **Two surveys in step**: they have found the same states in the same order, and have
expanded as many of them.  Their reports and rows may differ. -/
structure InStep (v : Survey σ ρ) (w : Survey σ ρ') : Prop where
  found_eq : v.found = w.found
  length_rows_eq : v.rows.length = w.rows.length

theorem InStep.meet (h : InStep v w) (x : σ) : InStep (v.meet report x) (w.meet report' x) := by
  unfold Survey.meet
  rw [h.found_eq]
  split
  · exact h
  · exact ⟨rfl, h.length_rows_eq⟩

theorem InStep.meetAll (h : InStep v w) (xs : List σ) :
    InStep (v.meetAll report xs) (w.meetAll report' xs) := by
  induction xs generalizing v w with
  | nil => exact h
  | cons x xs ih => exact ih (h.meet x)

/-- **One round in step**, over lists that name the same states in the same order. -/
theorem InStep.visit (h : InStep v w) {xs ys : List σ} (hxs : xs.eraseDups = ys.eraseDups) :
    InStep (v.visit report xs) (w.visit report' ys) := by
  constructor
  · rw [found_visit, found_visit, ← meetAll_eraseDups xs, ← meetAll_eraseDups ys, hxs]
    exact (h.meetAll _).found_eq
  · rw [length_rows_visit, length_rows_visit, h.length_rows_eq]

/-- **A whole run in step.** -/
theorem InStep.expand (hsucc : ∀ x, (succ x).eraseDups = (succ' x).eraseDups) (rounds : Nat)
    (h : InStep v w) :
    InStep (v.expand succ report rounds) (w.expand succ' report' rounds) := by
  induction rounds generalizing v w with
  | zero => exact h
  | succ rounds ih =>
      have hpending : v.pending = w.pending := by
        rw [pending, pending, h.found_eq, h.length_rows_eq]
      rw [Survey.expand, Survey.expand, hpending]
      cases w.pending with
      | nil => exact h
      | cons x l => exact ih (h.visit (hsucc x))

end Survey

section
variable {σ ρ ρ' : Type} [DecidableEq σ] {succ succ' : σ → List σ} {report : Nat → σ → ρ}
  {report' : Nat → σ → ρ'} {starts : List σ} {rounds : Nat}

/-- **The order of discovery depends only on the order in which states are named first**, not on
how often. -/
theorem found_survey_congr (hsucc : ∀ x, (succ x).eraseDups = (succ' x).eraseDups) :
    (survey succ report rounds starts).found = (survey succ' report' rounds starts).found := by
  have hstart : Survey.InStep (.start starts : Survey σ ρ) (.start starts : Survey σ ρ') :=
    ⟨rfl, rfl⟩
  exact (hstart.expand hsucc rounds).found_eq

/-- Surveys that reach the same states find as many. -/
theorem length_found_survey_eq (hbound : AtMost rounds (Reached succ starts))
    (hbound' : AtMost rounds (Reached succ' starts))
    (h : ∀ x, Reached succ starts x ↔ Reached succ' starts x) :
    (survey succ report rounds starts).found.length =
      (survey succ' report' rounds starts).found.length := by
  refine List.Perm.length_eq ((List.perm_ext_iff_of_nodup (invariant_survey rounds).nodup
    (invariant_survey rounds).nodup).2 fun x => ?_)
  rw [mem_found_survey_iff hbound, mem_found_survey_iff hbound', h]

end
end SignatureAutomata
