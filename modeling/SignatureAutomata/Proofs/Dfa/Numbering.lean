import Mathlib.Data.List.Induction
import Mathlib.Data.List.Shortlex
import SignatureAutomata.Proofs.Dfa.Determinization
import SignatureAutomata.Proofs.Exploration.Discovery

/-! # States are numbered by their least words

Words over the columns are ordered by length, and words of one length by the columns of their
codes from the first one on (`Dfa.WordBefore`).  A state of a determinized automaton has a least
word among those that lead to it, and the states have their numbers in the order of their least
words (`Nfa.numbered_by_least_words`).

The survey behind it says only that states are numbered in the order in which transitions lead to
them first, by source and column (`Dfa.BreadthFirst`).  Going back along first transitions from a
state ends in the start, since numbers get smaller, and spells a word (`Dfa.Route`).  Of two
routes the one to the smaller number comes before the other (`Route.before`): so do their ways to
the sources, or they come from one source and differ in the column.  A route is the least word of
its state (`Route.least`), because any other word comes in by a transition that is not ahead of
the first one.
-/

namespace SignatureAutomata

/-! ### Words in order -/

section Words
variable {α : Type} {before : α → α → Prop} {u v w : List α}

theorem shortlex_trans (htrans : ∀ {a b c : α}, before a b → before b c → before a c)
    (huv : List.Shortlex before u v) (hvw : List.Shortlex before v w) :
    List.Shortlex before u w := by
  rw [List.shortlex_def] at huv hvw ⊢
  rcases huv with hshort | ⟨hlength, hlex⟩
  · exact .inl (by omega)
  · rcases hvw with hshort | ⟨hlength', hlex'⟩
    · exact .inl (by omega)
    · exact .inr ⟨hlength.trans hlength', List.lex_trans htrans hlex hlex'⟩

/-- What decides between two words of one length is not what follows them. -/
theorem lex_append (h : List.Lex before u v) (hlength : u.length = v.length) (s t : List α) :
    List.Lex before (u ++ s) (v ++ t) := by
  induction h with
  | nil => cases hlength
  | rel hab => exact .rel hab
  | cons _ ih => exact .cons (ih (Nat.succ.inj hlength))

/-- The order of two words is kept when both go on by one letter, whatever the letters are. -/
theorem shortlex_concat (h : List.Shortlex before u v) (a b : α) :
    List.Shortlex before (u ++ [a]) (v ++ [b]) := by
  rw [List.shortlex_def, List.length_append, List.length_append, List.length_singleton,
    List.length_singleton]
  rcases List.shortlex_def.1 h with hshort | ⟨hlength, hlex⟩
  · exact .inl (Nat.succ_lt_succ hshort)
  · exact .inr ⟨congrArg (· + 1) hlength, lex_append hlex hlength [a] [b]⟩

end Words

namespace Dfa
variable {D : Dfa} {i j p q c d : Nat} {u w : List Nat}

/-- The column of one code comes before that of another. -/
def ColumnBefore (D : Dfa) (c d : Nat) : Prop := D.columns.idxOf c < D.columns.idxOf d

/-- **The order of words**: shorter words first, and words of one length in the order of the
columns of their codes, from the first code on. -/
def WordBefore (D : Dfa) : List Nat → List Nat → Prop := List.Shortlex D.ColumnBefore

/-- A word over the columns that leads from the start to a state. -/
def LeadsTo (D : Dfa) (word : List Nat) (s : Nat) : Prop :=
  (∀ code ∈ word, code ∈ D.columns) ∧ D.follow D.start word = some s

/-- **The least word of a state**: it leads there, and comes before all others that do. -/
structure IsLeastWord (D : Dfa) (s : Nat) (word : List Nat) : Prop where
  leadsTo : D.LeadsTo word s
  eq_or_before : ∀ other, D.LeadsTo other s → word = other ∨ D.WordBefore word other

theorem WordBefore.trans {v : List Nat} (huv : D.WordBefore u v) (hvw : D.WordBefore v w) :
    D.WordBefore u w :=
  shortlex_trans Nat.lt_trans huv hvw

instance (D : Dfa) : Std.Asymm D.ColumnBefore := ⟨fun _ _ => Nat.lt_asymm⟩

theorem WordBefore.asymm (h : D.WordBefore u w) : ¬ D.WordBefore w u :=
  List.Shortlex.asymm.asymm u w h

theorem WordBefore.concat (h : D.WordBefore u w) (c d : Nat) :
    D.WordBefore (u ++ [c]) (w ++ [d]) :=
  shortlex_concat h c d

theorem wordBefore_concat (h : D.ColumnBefore c d) (w : List Nat) :
    D.WordBefore (w ++ [c]) (w ++ [d]) :=
  List.Shortlex.append_left ((List.shortlex_singleton_iff c d).2 h) w

theorem wordBefore_nil_concat (w : List Nat) (c : Nat) : D.WordBefore [] (w ++ [c]) :=
  List.Shortlex.of_length_lt (by simp)

/-- A state has only one least word. -/
theorem IsLeastWord.unique (hu : D.IsLeastWord i u) (hw : D.IsLeastWord i w) : u = w := by
  rcases hu.eq_or_before w hw.leadsTo with heq | hbefore
  · exact heq
  · rcases hw.eq_or_before u hu.leadsTo with heq | hafter
    · exact heq.symm
    · exact absurd hafter hbefore.asymm

theorem follow_concat_eq_some_iff :
    D.follow p (w ++ [c]) = some i ↔ ∃ q, D.follow p w = some q ∧ D.transition q c = some i := by
  induction w generalizing p with
  | nil => simp [follow]
  | cons d w ih =>
      simp only [List.cons_append, follow, Option.bind_eq_some_iff, ih]
      constructor
      · rintro ⟨t, ht, q, hq, hi⟩
        exact ⟨q, ⟨t, ht, hq⟩, hi⟩
      · rintro ⟨q, ⟨t, ht, hq⟩, hi⟩
        exact ⟨t, ht, q, hq, hi⟩

/-- The last code of a word is that of a transition from where the others lead. -/
theorem leadsTo_concat_iff :
    D.LeadsTo (w ++ [c]) i ↔ ∃ q, D.LeadsTo w q ∧ D.transition q c = some i := by
  unfold LeadsTo
  rw [follow_concat_eq_some_iff, List.forall_mem_append, List.forall_mem_singleton]
  constructor
  · rintro ⟨⟨hw, -⟩, q, hq, hi⟩
    exact ⟨q, ⟨hw, hq⟩, hi⟩
  · rintro ⟨q, ⟨hw, hq⟩, hi⟩
    exact ⟨⟨hw, mem_columns_of_transition hi⟩, q, hq, hi⟩

/-- The least word of a state other than the start is one code if that code leads there, and no code
of an earlier column does. -/
theorem IsLeastWord.eq_singleton (hw : D.IsLeastWord i w) (hc : D.LeadsTo [c] i) (hi : i ≠ D.start)
    (hbefore : ∀ d ∈ D.columns, D.ColumnBefore d c → D.follow D.start [d] ≠ some i) : w = [c] := by
  rcases hw.eq_or_before [c] hc with heq | hearlier
  · exact heq
  · obtain ⟨hcolumns, hfollow⟩ := hw.leadsTo
    cases w with
    | nil => exact absurd (Option.some.inj hfollow).symm hi
    | cons d w =>
        rcases List.shortlex_def.1 hearlier with hshort | ⟨hlength, hlex⟩
        · cases Nat.lt_of_succ_lt_succ hshort
        · obtain rfl : w = [] := List.length_eq_zero_iff.1 (Nat.succ.inj hlength)
          cases hlex with
          | rel hd => exact absurd hfollow (hbefore d (hcolumns d List.mem_cons_self) hd)
          | cons hnone => cases hnone

/-! ### First transitions -/

/-- The transition from `p` on `c` is ahead of that from `q` on `d`, by source and column. -/
def Ahead (D : Dfa) (p c q d : Nat) : Prop := p < q ∨ p = q ∧ D.ColumnBefore c d

/-- **The first transition into a state**: those ahead of it lead to smaller numbers. -/
structure FirstInto (D : Dfa) (p c i : Nat) : Prop where
  transition_eq : D.transition p c = some i
  lt_of_ahead : ∀ q d j, D.transition q d = some j → D.Ahead q d p c → j < i

/-- **States are numbered in the order in which transitions lead to them first**, and the first
transition into a state comes from one with a smaller number. -/
structure BreadthFirst (D : Dfa) : Prop where
  exists_firstInto : ∀ i, 0 < i → i < D.numStates → ∃ p c, p < i ∧ D.FirstInto p c i
  source_lt : ∀ p c i, D.transition p c = some i → p < D.numStates

/-- A transition to a number that is not smaller is not ahead of the first one. -/
theorem FirstInto.ahead_or_eq (h : D.FirstInto p c i) (hj : D.transition q d = some j)
    (hij : i ≤ j) : D.Ahead p c q d ∨ p = q ∧ c = d := by
  have hnot : ¬ D.Ahead q d p c := fun hahead =>
    absurd (h.lt_of_ahead q d j hj hahead) (Nat.not_lt.2 hij)
  unfold Ahead ColumnBefore at hnot ⊢
  rcases Nat.lt_trichotomy p q with hlt | rfl | hgt
  · exact .inl (.inl hlt)
  · rcases Nat.lt_trichotomy (D.columns.idxOf c) (D.columns.idxOf d) with hlt | heq | hgt
    · exact .inl (.inr ⟨rfl, hlt⟩)
    · exact .inr ⟨rfl, (List.idxOf_inj (mem_columns_of_transition h.transition_eq)).1 heq⟩
    · exact absurd (.inr ⟨rfl, hgt⟩) hnot
  · exact absurd (.inl hgt) hnot

/-- First transitions are in the order of the numbers that they lead to. -/
theorem FirstInto.ahead_of_lt (hi : D.FirstInto p c i) (hj : D.FirstInto q d j) (hij : i < j) :
    D.Ahead p c q d := by
  refine (hi.ahead_or_eq hj.transition_eq (Nat.le_of_lt hij)).resolve_right ?_
  rintro ⟨rfl, rfl⟩
  have heq : i = j := Option.some.inj (hi.transition_eq.symm.trans hj.transition_eq)
  omega

theorem FirstInto.unique (h : D.FirstInto p c i) (h' : D.FirstInto q d i) : p = q ∧ c = d :=
  (h.ahead_or_eq h'.transition_eq (Nat.le_refl i)).resolve_left fun hahead =>
    Nat.lt_irrefl i (h'.lt_of_ahead p c i h.transition_eq hahead)

/-! ### Routes -/

/-- **The word of first transitions** from the start to a state. -/
inductive Route (D : Dfa) : Nat → List Nat → Prop where
  | start : Route D 0 []
  | step {p c i : Nat} {w : List Nat} :
      p < i → D.FirstInto p c i → Route D p w → Route D i (w ++ [c])

theorem BreadthFirst.exists_route (h : D.BreadthFirst) (hi : i < D.numStates) :
    ∃ w, D.Route i w := by
  induction i using Nat.strongRecOn with
  | ind i ih =>
      rcases Nat.eq_zero_or_pos i with rfl | hpos
      · exact ⟨[], .start⟩
      · obtain ⟨p, c, hp, hfirst⟩ := h.exists_firstInto i hpos hi
        obtain ⟨w, hw⟩ := ih p hp (Nat.lt_trans hp hi)
        exact ⟨w ++ [c], .step hp hfirst hw⟩

theorem Route.leadsTo (h : D.Route i w) : D.LeadsTo w i := by
  induction h with
  | start => exact ⟨fun _ hcode => absurd hcode List.not_mem_nil, rfl⟩
  | step _ hfirst _ ih => exact leadsTo_concat_iff.2 ⟨_, ih, hfirst.transition_eq⟩

theorem Route.unique (hu : D.Route i u) (hw : D.Route i w) : u = w := by
  induction hu generalizing w with
  | start =>
      cases hw with
      | start => rfl
      | step hp => exact absurd hp (Nat.not_lt_zero _)
  | step hp hfirst _ ih =>
      cases hw with
      | start => exact absurd hp (Nat.not_lt_zero _)
      | step _ hfirst' hw =>
          obtain ⟨rfl, rfl⟩ := hfirst.unique hfirst'
          rw [ih hw]

/-- **Routes are in the order of the numbers that they lead to.** -/
theorem Route.before (hu : D.Route i u) (hw : D.Route j w) (hij : i < j) : D.WordBefore u w := by
  induction hw generalizing i u with
  | start => exact absurd hij (Nat.not_lt_zero i)
  | @step q d j w hq hfirst hw ih =>
      cases hu with
      | start => exact wordBefore_nil_concat w d
      | step _ hfirst' hu =>
          rcases hfirst'.ahead_of_lt hfirst hij with hlt | ⟨rfl, hcolumn⟩
          · exact (ih hu hlt).concat _ d
          · -- from one source, so along one route up to it
            rw [hu.unique hw]
            exact wordBefore_concat hcolumn w

/-- **A route is a least word**: it comes before any other word that leads to its state. -/
theorem BreadthFirst.eq_or_before_of_leadsTo (h : D.BreadthFirst) (hu : D.Route i u)
    (hw : D.LeadsTo w i) : u = w ∨ D.WordBefore u w := by
  induction w using List.reverseRecOn generalizing i u with
  | nil =>
      obtain rfl : 0 = i := Option.some.inj hw.2
      exact .inl (hu.unique .start)
  | append_singleton w d ih =>
      obtain ⟨q, hq, hi⟩ := leadsTo_concat_iff.1 hw
      cases hu with
      | start => exact .inr (wordBefore_nil_concat w d)
      | @step p c _ u _ hfirst hu =>
          -- the other word comes in from `q`, which has a route of its own
          obtain ⟨v, hv⟩ := h.exists_route (h.source_lt q d i hi)
          have hvw : v = w ∨ D.WordBefore v w := ih hv hq
          rcases hfirst.ahead_or_eq hi (Nat.le_refl i) with (hlt | ⟨rfl, hcolumn⟩) | ⟨rfl, rfl⟩
          · have huv : D.WordBefore u v := hu.before hv hlt
            have huw : D.WordBefore u w := hvw.elim (fun heq => heq ▸ huv) huv.trans
            exact .inr (huw.concat c d)
          · obtain rfl := hu.unique hv
            rcases hvw with rfl | huw
            · exact .inr (wordBefore_concat hcolumn u)
            · exact .inr (huw.concat c d)
          · obtain rfl := hu.unique hv
            rcases hvw with rfl | huw
            · exact .inl rfl
            · exact .inr (huw.concat c c)

theorem BreadthFirst.isLeastWord (h : D.BreadthFirst) (hw : D.Route i w) :
    D.IsLeastWord i w :=
  ⟨hw.leadsTo, fun _ hother => h.eq_or_before_of_leadsTo hw hother⟩

end Dfa

namespace Nfa
variable {α : Type}

/-! ### Determinization -/

/-- A transition is named in the row of its source, at the place of its column. -/
theorem transition_determinize_iff {N : Nfa} {A : Alphabet α} {p c i : Nat} :
    ((N.determinize A).transition p c = some i) ↔ c ∈ columns A ∧
      Survey.Names (N.surveySubsets (columns A)).rows p ((columns A).idxOf c) i := by
  rw [Dfa.transition_eq_some_iff]
  constructor
  · rintro ⟨row, k, hrow, hk, hi⟩
    have hk : (columns A).idxOf? c = some k := hk
    have hplace : (columns A).idxOf c = k := by
      rw [List.idxOf_eq_getD_idxOf?, hk]
      rfl
    exact ⟨List.isSome_idxOf?.1 (Option.isSome_iff_exists.2 ⟨k, hk⟩), row, hrow, hplace ▸ hi⟩
  · rintro ⟨hc, row, hrow, hi⟩
    obtain ⟨k, hk⟩ := Option.isSome_iff_exists.1 (List.isSome_idxOf?.2 hc)
    rw [List.idxOf_eq_getD_idxOf?, hk] at hi
    exact ⟨row, k, hrow, hk, hi⟩

theorem nodup_columns (A : Alphabet α) : (columns A).Nodup :=
  List.nodup_cons.2 ⟨Alphabet.sigma_not_mem_codes A, List.nodup_range'⟩

/-- **Determinization numbers states breadth first.** -/
theorem breadthFirst_determinize (N : Nfa) (A : Alphabet α) : (N.determinize A).BreadthFirst where
  exists_firstInto i hpos hi := by
    have horder : (N.surveySubsets (columns A)).InOrder 1 :=
      inOrder_survey _ _ _ [N.startClosure]
    have hinvariant := invariant_surveySubsets N (columns A)
    obtain ⟨p, k, hp, hfirst⟩ := horder i hpos hi
    -- a row has one place for every column
    obtain ⟨row, hrow, hk⟩ := hfirst.names
    have hsource := List.getElem?_eq_getElem (Nat.lt_trans hp hi)
    have hlength : row.length = (columns A).length := by
      have hnamed := congrArg List.length (hinvariant.row p row _ hrow hsource)
      simpa [successors] using hnamed
    have hlt : k < (columns A).length := hlength ▸ (List.getElem?_eq_some_iff.1 hk).1
    have hplace : (columns A).idxOf (columns A)[k] = k := (nodup_columns A).idxOf_getElem k hlt
    refine ⟨p, (columns A)[k], hp, transition_determinize_iff.2 ⟨List.getElem_mem hlt, ?_⟩, ?_⟩
    · rw [hplace]
      exact hfirst.names
    · intro q d j hj hahead
      refine hfirst.lt_of_ahead q _ j (transition_determinize_iff.1 hj).2 ?_
      unfold Dfa.Ahead Dfa.ColumnBefore at hahead
      rw [columns_determinize, hplace] at hahead
      exact hahead
  source_lt p c i hi := by
    have hrow := (transition_determinize_iff.1 hi).2.lt_length
    exact Nat.lt_of_lt_of_le hrow (invariant_surveySubsets N (columns A)).length_rows_le

/-- **However an automaton is constructed, its determinization numbers the states in the order of
their least words**: every state has one, that of the start state `0` is empty, and a state with a
smaller number has a word that comes before.  Words are over the columns, ordered by length and
then by the columns of their codes. -/
theorem numbered_by_least_words (cs : List Construction) (A : Alphabet α) :
    let D := (build cs).determinize A
    (∀ i < D.numStates, ∃! word, D.IsLeastWord i word) ∧
      (0 < D.numStates ∧ D.IsLeastWord 0 []) ∧
      ∀ i j u w, i < j → j < D.numStates → D.IsLeastWord i u → D.IsLeastWord j w →
        D.WordBefore u w := by
  intro D
  have hD : D.BreadthFirst := breadthFirst_determinize (build cs) A
  have hstart : 0 < D.numStates :=
    (List.getElem?_eq_some_iff.1 (subset_determinize_start (build cs) A)).1
  refine ⟨fun i hi => ?_, ⟨hstart, hD.isLeastWord .start⟩, fun i j u w hij hj hu hw => ?_⟩
  · obtain ⟨word, hword⟩ := hD.exists_route hi
    exact ⟨word, hD.isLeastWord hword, fun other hother => hother.unique (hD.isLeastWord hword)⟩
  · obtain ⟨u', hu'⟩ := hD.exists_route (Nat.lt_trans hij hj)
    obtain ⟨w', hw'⟩ := hD.exists_route hj
    rw [hu.unique (hD.isLeastWord hu'), hw.unique (hD.isLeastWord hw')]
    exact hu'.before hw' hij

/-- The symbol with code `3` is registered after that with code `2`, so the state that only the
former leads to is numbered after the dead state, which is where a value of any other kind leads. -/
theorem numbered_by_least_words_dead :
    let D := (build [.newState, .newState, .transition 0 3 1, .transition 1 2 2]).determinize
      (.ofList [7, 5])
    D.numStates = 4 ∧ D.subset 1 = some ∅ ∧ D.subset 2 = some (.singleton 1) ∧
      D.IsLeastWord 0 [] ∧ D.IsLeastWord 1 [1] ∧ D.IsLeastWord 2 [3] ∧ D.WordBefore [1] [3] := by
  intro D
  obtain ⟨hleast, ⟨-, hstart⟩, hordered⟩ :=
    numbered_by_least_words [.newState, .newState, .transition 0 3 1, .transition 1 2 2]
      (.ofList [7, 5])
  obtain ⟨u, hu, -⟩ := hleast 1 (by decide)
  obtain ⟨w, hw, -⟩ := hleast 2 (by decide)
  have hbefore := hordered 1 2 u w (by decide) (by decide) hu hw
  obtain rfl : u = [1] := hu.eq_singleton ⟨by decide, by decide⟩ (by decide)
    (by unfold Dfa.ColumnBefore; decide)
  obtain rfl : w = [3] := hw.eq_singleton ⟨by decide, by decide⟩ (by decide)
    (by unfold Dfa.ColumnBefore; decide)
  exact ⟨by decide, by decide, by decide, hstart, hu, hw, hbefore⟩

end Nfa
end SignatureAutomata
