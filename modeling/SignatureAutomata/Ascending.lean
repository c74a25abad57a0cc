/-! # Finite sets as ascending lists

A finite set is kept as the list of its members in strictly ascending order.
The list is then a function of the set: two ascending lists with the same
members are equal (`eq_of_mem_iff`), so sets may be compared, numbered and
printed through their lists.

`insertAscending` adds one member.  It keeps the order
(`pairwise_insertAscending`) whenever the order is a strict linear one
(`StrictOrder`).  `binarySearch` looks for a member by halves, and is right because the
list is ascending (`binarySearch_iff`).

`sortByKey` sorts a list by keys of its elements.  With distinct keys there is only one way
to do that (`eq_of_perm_of_keysAscending`), so the order that the list came in leaves no trace
(`sortByKey_eq_of_perm`).
-/

namespace SignatureAutomata

/-- **A strict linear order**, as the facts that ordered insertion needs. -/
class StrictOrder {α : Type} (before : α → α → Prop) : Prop where
  irrefl : ∀ a, ¬ before a a
  trans : ∀ a b c, before a b → before b c → before a c
  connected : ∀ a b, before a b ∨ a = b ∨ before b a

instance : StrictOrder (fun a b : Nat => a < b) where
  irrefl := Nat.lt_irrefl
  trans _ _ _ := Nat.lt_trans
  connected := Nat.lt_trichotomy

section Insertion
variable {α : Type} (before : α → α → Prop) [DecidableRel before] [DecidableEq α]

/-- Adds `x` at its place in an ascending list, unless it is there already. -/
def insertAscending (x : α) : List α → List α
  | [] => [x]
  | y :: ys =>
      if x = y then y :: ys
      else if before x y then x :: y :: ys
      else y :: insertAscending x ys

@[simp] theorem mem_insertAscending (a x : α) (l : List α) :
    a ∈ insertAscending before x l ↔ a = x ∨ a ∈ l := by
  induction l with
  | nil => simp [insertAscending]
  | cons y ys ih =>
      simp only [insertAscending]
      split
      · rename_i h
        subst h
        simp
      · split
        · simp
        · simp [ih, or_left_comm]

theorem pairwise_insertAscending [StrictOrder before] (x : α) {l : List α}
    (h : l.Pairwise before) : (insertAscending before x l).Pairwise before := by
  induction l with
  | nil => simp [insertAscending]
  | cons y ys ih =>
      rw [List.pairwise_cons] at h
      simp only [insertAscending]
      split
      · exact List.pairwise_cons.2 h
      · rename_i hne
        split
        · rename_i hxy
          refine List.pairwise_cons.2 ⟨fun z hz => ?_, List.pairwise_cons.2 h⟩
          rcases List.mem_cons.1 hz with rfl | hz
          · exact hxy
          · exact StrictOrder.trans _ _ _ hxy (h.1 z hz)
        · rename_i hxy
          refine List.pairwise_cons.2 ⟨fun z hz => ?_, ih h.2⟩
          rcases (mem_insertAscending before z x ys).1 hz with rfl | hz
          · have hzy : before z y ∨ z = y ∨ before y z := StrictOrder.connected z y
            rcases hzy with hlt | heq | hgt
            · exact absurd hlt hxy
            · exact absurd heq hne
            · exact hgt
          · exact h.1 z hz

end Insertion

/-- **An ascending list is determined by its members.** -/
theorem eq_of_mem_iff {α : Type} {before : α → α → Prop} [StrictOrder before] :
    ∀ {l m : List α}, l.Pairwise before → m.Pairwise before → (∀ a, a ∈ l ↔ a ∈ m) → l = m
  | [], [], _, _, _ => rfl
  | [], b :: m, _, _, h => absurd ((h b).2 (List.mem_cons_self ..)) List.not_mem_nil
  | a :: l, [], _, _, h => absurd ((h a).1 (List.mem_cons_self ..)) List.not_mem_nil
  | a :: l, b :: m, hl, hm, h => by
      rw [List.pairwise_cons] at hl hm
      have hab : a = b := by
        rcases List.mem_cons.1 ((h a).1 (List.mem_cons_self ..)) with hab | ham
        · exact hab
        · rcases List.mem_cons.1 ((h b).2 (List.mem_cons_self ..)) with hba | hbl
          · exact hba.symm
          · exact absurd (StrictOrder.trans _ _ _ (hl.1 b hbl) (hm.1 a ham))
              (StrictOrder.irrefl a)
      subst hab
      refine congrArg (a :: ·) (eq_of_mem_iff hl.2 hm.2 fun x => ⟨fun hx => ?_, fun hx => ?_⟩)
      · rcases List.mem_cons.1 ((h x).1 (List.mem_cons_of_mem _ hx)) with rfl | hxm
        · exact absurd (hl.1 x hx) (StrictOrder.irrefl x)
        · exact hxm
      · rcases List.mem_cons.1 ((h x).2 (List.mem_cons_of_mem _ hx)) with rfl | hxl
        · exact absurd (hm.1 x hx) (StrictOrder.irrefl x)
        · exact hxl

section Sorting
variable {α κ : Type} (before : κ → κ → Prop) (key : α → κ)

/-- A list whose keys come one before the other. -/
def KeysAscending (l : List α) : Prop := l.Pairwise fun a b => before (key a) (key b)

variable {before key}

/-- **A list can be sorted by distinct keys in one way only**, whatever does the sorting. -/
theorem eq_of_perm_of_keysAscending [StrictOrder before] :
    ∀ {l m : List α}, l.Perm m → KeysAscending before key l → KeysAscending before key m → l = m
  | [], m, hlm, _, _ => hlm.nil_eq
  | a :: l, m, hlm, hl, hm => by
      obtain ⟨b, m, rfl⟩ := List.exists_cons_of_ne_nil fun hnil : m = [] =>
        List.cons_ne_nil a l (hlm.trans (hnil ▸ .refl _)).eq_nil
      have hl' := List.pairwise_cons.1 hl
      have hm' := List.pairwise_cons.1 hm
      -- each of the two first elements would come before the other
      have hab : a = b := by
        rcases List.mem_cons.1 (hlm.mem_iff.1 List.mem_cons_self) with hab | ha
        · exact hab
        · rcases List.mem_cons.1 (hlm.mem_iff.2 List.mem_cons_self) with hba | hb
          · exact hba.symm
          · exact absurd (StrictOrder.trans _ _ _ (hl'.1 b hb) (hm'.1 a ha))
              (StrictOrder.irrefl _)
      subst hab
      exact congrArg (a :: ·) (eq_of_perm_of_keysAscending hlm.cons_inv hl'.2 hm'.2)

variable (before key) [DecidableRel before]

/-- Puts an element in front of the first one whose key does not come before its own. -/
def insertByKey (x : α) : List α → List α
  | [] => [x]
  | y :: ys => if before (key y) (key x) then y :: insertByKey x ys else x :: y :: ys

/-- **Sorts a list by the keys of its elements.** -/
def sortByKey (l : List α) : List α := l.foldr (insertByKey before key) []

theorem perm_insertByKey (x : α) (l : List α) : (insertByKey before key x l).Perm (x :: l) := by
  induction l with
  | nil => exact .refl _
  | cons y ys ih =>
      rw [insertByKey]
      split
      · exact (ih.cons y).trans (.swap x y ys)
      · exact .refl _

theorem perm_sortByKey (l : List α) : (sortByKey before key l).Perm l := by
  induction l with
  | nil => exact .refl _
  | cons x l ih => exact (perm_insertByKey before key x _).trans (ih.cons x)

variable {before key}

theorem KeysAscending.insertByKey [StrictOrder before] {x : α} {l : List α}
    (h : KeysAscending before key l) (hx : key x ∉ l.map key) :
    KeysAscending before key (insertByKey before key x l) := by
  induction l with
  | nil => exact List.pairwise_singleton _ x
  | cons y ys ih =>
      rw [List.map_cons, List.mem_cons, not_or] at hx
      have hy := List.pairwise_cons.1 h
      rw [SignatureAutomata.insertByKey]
      split
      · rename_i hyx
        refine List.pairwise_cons.2 ⟨fun z hz => ?_, ih hy.2 hx.2⟩
        rcases List.mem_cons.1 ((perm_insertByKey before key x ys).mem_iff.1 hz) with rfl | hz
        · exact hyx
        · exact hy.1 z hz
      · rename_i hyx
        have hxy : before (key x) (key y) := by
          have hconnected : before (key x) (key y) ∨ key x = key y ∨ before (key y) (key x) :=
            StrictOrder.connected _ _
          rcases hconnected with hlt | heq | hgt
          · exact hlt
          · exact absurd heq hx.1
          · exact absurd hgt hyx
        refine List.pairwise_cons.2 ⟨fun z hz => ?_, h⟩
        rcases List.mem_cons.1 hz with rfl | hz
        · exact hxy
        · exact StrictOrder.trans _ _ _ hxy (hy.1 z hz)

/-- **Distinct keys are sorted strictly.** -/
theorem keysAscending_sortByKey [StrictOrder before] {l : List α} (h : (l.map key).Nodup) :
    KeysAscending before key (sortByKey before key l) := by
  induction l with
  | nil => exact .nil
  | cons x l ih =>
      rw [List.map_cons, List.nodup_cons] at h
      refine (ih h.2).insertByKey fun hx => h.1 ?_
      exact ((perm_sortByKey before key l).map key).mem_iff.1 hx

/-- **The order that a list came in leaves no trace.** -/
theorem sortByKey_eq_of_perm [StrictOrder before] {l m : List α} (h : l.Perm m)
    (hkeys : (l.map key).Nodup) : sortByKey before key l = sortByKey before key m := by
  have hkeys' : (m.map key).Nodup := (h.map key).nodup_iff.1 hkeys
  refine eq_of_perm_of_keysAscending ?_ (keysAscending_sortByKey hkeys)
    (keysAscending_sortByKey hkeys')
  exact (perm_sortByKey before key l).trans (h.trans (perm_sortByKey before key m).symm)

end Sorting

section Search
variable {α : Type} {before : α → α → Prop} {x : α} {l : List α} {k : Nat}

/-- What stands ahead of a place comes before what stands there. -/
theorem before_of_mem_take (h : l.Pairwise before) (hk : k < l.length) (hx : x ∈ l.take k) :
    before x l[k] := by
  obtain ⟨i, hi, rfl⟩ := List.mem_take_iff_getElem.1 hx
  exact List.pairwise_iff_getElem.1 h i k (by omega) hk (by omega)

/-- What stands from a place on does not come before what stands there. -/
theorem not_before_of_mem_drop [StrictOrder before] (h : l.Pairwise before) (hk : k < l.length)
    (hx : x ∈ l.drop k) : ¬ before x l[k] := by
  obtain ⟨i, hi, rfl⟩ := List.mem_drop_iff_getElem.1 hx
  intro hbefore
  rcases Nat.eq_zero_or_pos i with rfl | hpos
  · exact StrictOrder.irrefl _ hbefore
  · have hafter : before l[k] l[k + i] :=
      List.pairwise_iff_getElem.1 h k (k + i) hk (by omega) (by omega)
    exact StrictOrder.irrefl _ (StrictOrder.trans _ _ _ hbefore hafter)

variable (before) [DecidableRel before] [DecidableEq α]

/-- **Binary search**: looks at the middle of an ascending list and goes on in the half where
`x` has to be, if it is there at all. -/
def binarySearch (x : α) (l : List α) : Bool :=
  if h : l.length ≤ 1 then l.head? = some x
  else
    have hmiddle : l.length / 2 < l.length := Nat.div_lt_self (by omega) (by omega)
    if before x l[l.length / 2] then binarySearch x (l.take (l.length - l.length / 2))
    else binarySearch x (l.drop (l.length / 2))
termination_by l.length
decreasing_by
  all_goals
    simp only [List.length_take, List.length_drop]
    omega

variable {before}

/-- **Binary search finds the members of an ascending list**, and nothing else. -/
theorem binarySearch_iff [StrictOrder before] (h : l.Pairwise before) :
    binarySearch before x l = true ↔ x ∈ l := by
  fun_induction binarySearch before x l with
  | case1 l hlength =>
      rw [decide_eq_true_iff]
      match l, hlength with
      | [], _ => simp
      | [y], _ => simp [eq_comm]
  | case2 l hlength hmiddle hbefore ih =>
      rw [ih (h.sublist (List.take_sublist ..))]
      constructor
      · exact List.mem_of_mem_take
      · intro hx
        rw [← List.take_append_drop (l.length - l.length / 2) l, List.mem_append] at hx
        refine hx.resolve_right fun hdrop => ?_
        -- what is left out stands behind the middle
        have hmem : x ∈ l.drop (l.length / 2) :=
          (List.drop_sublist_drop_left l (by omega)).mem hdrop
        exact not_before_of_mem_drop h hmiddle hmem hbefore
  | case3 l hlength hmiddle hbefore ih =>
      rw [ih (h.sublist (List.drop_sublist ..))]
      constructor
      · exact List.mem_of_mem_drop
      · intro hx
        rw [← List.take_append_drop (l.length / 2) l, List.mem_append] at hx
        exact hx.resolve_left fun htake => hbefore (before_of_mem_take h hmiddle htake)

end Search

end SignatureAutomata
