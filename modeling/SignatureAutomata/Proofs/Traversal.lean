import Mathlib.Data.List.Forall2

/-! # Reading a list item by item

A list is read from the front, and reading stops at the first item that is refused.  So a list is
read exactly if each of its items is, one by one (`mapM_eq_ok_iff`), and what is reported otherwise
is the refusal of the first item that is not, whatever stands behind it (`mapM_eq_error_iff`).
-/

namespace SignatureAutomata

variable {α β γ ε : Type}

theorem map_eq_ok_iff {f : β → γ} {r : Except ε β} {y : γ} :
    r.map f = .ok y ↔ ∃ x, r = .ok x ∧ f x = y := by
  cases r <;> simp [Except.map]

theorem map_eq_error_iff {f : β → γ} {r : Except ε β} {e : ε} :
    r.map f = .error e ↔ r = .error e := by
  cases r <;> simp [Except.map]

/-- **A list is read exactly if its items are, one by one.** -/
theorem mapM_eq_ok_iff {f : α → Except ε β} {l : List α} {ys : List β} :
    l.mapM f = .ok ys ↔ List.Forall₂ (fun x y => f x = .ok y) l ys := by
  induction l generalizing ys with
  | nil =>
      rw [List.mapM_nil, List.forall₂_nil_left_iff]
      exact ⟨fun h => (Except.ok.inj h).symm, fun h => congrArg Except.ok h.symm⟩
  | cons x l ih =>
      rw [List.mapM_cons, List.forall₂_cons_left_iff]
      cases hx : f x with
      | error e => simp [bind, Except.bind]
      | ok y =>
          cases hl : l.mapM f with
          | error e => simp [bind, Except.bind, ← ih, hl]
          | ok rest => simp [bind, Except.bind, pure, Except.pure, ← ih, hl, eq_comm]

theorem mapM_cons_eq_error_iff {f : α → Except ε β} {x : α} {l : List α} {e : ε} :
    (x :: l).mapM f = .error e ↔ f x = .error e ∨ (∃ y, f x = .ok y) ∧ l.mapM f = .error e := by
  rw [List.mapM_cons]
  cases f x with
  | error e' => simp [bind, Except.bind]
  | ok y => cases l.mapM f <;> simp [bind, Except.bind, pure, Except.pure]

/-- **What is reported is the refusal of the first item that is refused.** -/
theorem mapM_eq_error_iff {f : α → Except ε β} {l : List α} {e : ε} :
    l.mapM f = .error e ↔ ∃ before x after, l = before ++ x :: after ∧
      (∀ b ∈ before, ∃ y, f b = .ok y) ∧ f x = .error e := by
  induction l with
  | nil => simp [pure, Except.pure]
  | cons x l ih =>
      rw [mapM_cons_eq_error_iff, ih]
      constructor
      · rintro (hx | ⟨hx, before, x', after, rfl, hbefore, hx'⟩)
        · exact ⟨[], x, l, rfl, List.forall_mem_nil _, hx⟩
        · exact ⟨x :: before, x', after, rfl, List.forall_mem_cons.2 ⟨hx, hbefore⟩, hx'⟩
      · rintro ⟨before, x', after, hl, hbefore, hx'⟩
        cases before with
        | nil =>
            obtain ⟨rfl, rfl⟩ := List.cons.inj hl
            exact .inl hx'
        | cons b before =>
            obtain ⟨rfl, rfl⟩ := List.cons.inj hl
            obtain ⟨hx, hbefore⟩ := List.forall_mem_cons.1 hbefore
            exact .inr ⟨hx, before, x', after, rfl, hbefore, hx'⟩

/-- **Some values are read unless an item is refused.** -/
theorem exists_mapM_eq_ok_iff {f : α → Except ε β} {l : List α} :
    (∃ ys, l.mapM f = .ok ys) ↔ ∀ x ∈ l, ∃ y, f x = .ok y := by
  constructor
  · rintro ⟨ys, hys⟩
    have hread : List.Forall₂ (fun x y => (∃ y, f x = .ok y) ∧ f x = .ok y) l ys :=
      (mapM_eq_ok_iff.1 hys).imp fun _ y h => ⟨⟨y, h⟩, h⟩
    exact ((List.forall₂_and_left _ _).1 hread).1
  · intro h
    cases hl : l.mapM f with
    | ok ys => exact ⟨ys, rfl⟩
    | error e =>
        obtain ⟨before, x, after, rfl, -, hx⟩ := mapM_eq_error_iff.1 hl
        obtain ⟨y, hy⟩ := h x (List.mem_append_right _ List.mem_cons_self)
        rw [hx] at hy
        cases hy

end SignatureAutomata
