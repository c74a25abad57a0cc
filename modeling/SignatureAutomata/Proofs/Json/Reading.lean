import Mathlib.Data.List.Forall2
import SignatureAutomata.Json.Value
import SignatureAutomata.Json.Written

/-! # What is written is read back

`Reads reader text x` says that a reader takes `x` off any text that begins with `text`, as
long as what follows does not go on with a number; it may leave some of the space that
comes next.  Whoever reads on passes over space first, so how much of it was left does not
matter.

What stands between brackets is read item by item.  An `Item` is a text that the reader
takes and that cannot be mistaken for the closing bracket.  From its items an array is
read (`elements_intercalate`), and from its members an object (`members_intercalate`),
whose members are read one after the other, each in the state that those before it
leave (`Members`).
-/

namespace SignatureAutomata
namespace Json

/-- **`reader` takes `x` off the front of `text`**, whatever follows. -/
def Reads {β : Type} (reader : Reader β) (text : List Char) (x : β) : Prop :=
  ∀ rest, endsNumber rest = true →
    ∃ left, reader (text ++ rest) = .ok (x, left) ∧ skipSpace left = skipSpace rest

/-- Whether an item may begin here: what comes first behind the space closes nothing. -/
def beginsItem (s : List Char) : Bool :=
  match skipSpace s with
  | [] => false
  | c :: _ => !(c = ']' || c = '\x7d')

/-- **A text that stands for `x` between brackets.** -/
structure Item {β : Type} (reader : Reader β) (text : List Char) (x : β) : Prop where
  begins : beginsItem text = true
  reads : Reads reader (skipSpace text) x

section Layout
variable {close : Char} {s t rest : List Char}

/-- The first character decides that a text is an item without space in front. -/
theorem beginsItem_cons {c : Char} (h : isSpace c = false) (hc : c ≠ ']') (hc' : c ≠ '\x7d')
    (s : List Char) : beginsItem (c :: s) = true ∧ skipSpace (c :: s) = c :: s := by
  have hskip : skipSpace (c :: s) = c :: s := by
    rw [skipSpace, List.dropWhile_cons_of_neg]
    rw [h]
    exact Bool.false_ne_true
  refine ⟨?_, hskip⟩
  unfold beginsItem
  rw [hskip]
  simp [hc, hc']

theorem exists_skipSpace_eq_cons (h : beginsItem t = true) :
    ∃ c cs, skipSpace t = c :: cs ∧ c ≠ ']' ∧ c ≠ '\x7d' := by
  unfold beginsItem at h
  cases hs : skipSpace t with
  | nil => simp [hs] at h
  | cons c cs =>
      rw [hs] at h
      exact ⟨c, cs, rfl, by simpa using h⟩

theorem skipSpace_append (h : beginsItem t = true) (rest : List Char) :
    skipSpace (t ++ rest) = skipSpace t ++ rest := by
  obtain ⟨c, cs, hs, -⟩ := exists_skipSpace_eq_cons h
  have hne : (t.dropWhile isSpace).isEmpty = false := by
    rw [← skipSpace, hs]
    rfl
  rw [skipSpace, List.dropWhile_append, if_neg]
  · rfl
  · rw [hne]
    exact Bool.false_ne_true

theorem length_pos_of_beginsItem (h : beginsItem t = true) : 0 < t.length := by
  cases t with
  | nil => cases h
  | cons c t => exact Nat.succ_pos _

theorem next_close (hs : skipSpace s = close :: rest) (first : Bool) :
    next close first s = .ok (.closing rest) := by
  unfold next
  rw [hs]
  exact if_pos rfl

theorem ne_close {c : Char} (hclose : close = ']' ∨ close = '\x7d') (hc : c ≠ ']')
    (hc' : c ≠ '\x7d') : c ≠ close := by
  rcases hclose with rfl | rfl
  · exact hc
  · exact hc'

theorem next_first (hclose : close = ']' ∨ close = '\x7d') (ht : beginsItem t = true)
    (rest : List Char) : next close true (t ++ rest) = .ok (.item (skipSpace t ++ rest)) := by
  obtain ⟨c, cs, hs, hc, hc'⟩ := exists_skipSpace_eq_cons ht
  unfold next
  rw [skipSpace_append ht, hs, List.cons_append]
  dsimp only
  rw [if_neg (ne_close hclose hc hc'), if_pos rfl]

theorem next_comma (hclose : close = ']' ∨ close = '\x7d') (ht : beginsItem t = true)
    (hs : skipSpace s = ',' :: (t ++ rest)) :
    next close false s = .ok (.item (skipSpace t ++ rest)) := by
  obtain ⟨c, cs, htc, hc, hc'⟩ := exists_skipSpace_eq_cons ht
  have hcomma : ',' ≠ close := ne_close hclose (by decide) (by decide)
  unfold next
  rw [hs]
  dsimp only
  rw [if_neg hcomma, if_neg Bool.false_ne_true, if_pos rfl, skipSpace_append ht, htc,
    List.cons_append]
  dsimp only
  rw [if_neg (ne_close hclose hc hc')]

/-- Items with commas between them: the first one, then a comma before every other. -/
theorem intercalate_cons (t : List Char) (ts : List (List Char)) :
    List.intercalate [','] (t :: ts) = t ++ ts.flatMap (',' :: ·) := by
  induction ts generalizing t with
  | nil => rw [List.intercalate_singleton, List.flatMap_nil, List.append_nil]
  | cons u ts ih =>
      rw [List.intercalate_cons_cons, ih, List.flatMap_cons, List.append_assoc]
      rfl

theorem length_le_flatMap_comma (ts : List (List Char)) :
    ts.length ≤ (ts.flatMap (',' :: ·)).length := by
  induction ts with
  | nil => exact Nat.le_refl _
  | cons t ts ih =>
      rw [List.flatMap_cons, List.length_append, List.length_cons, List.length_cons]
      omega

/-- No number goes on behind an item. -/
theorem endsNumber_flatMap_comma (hclose : close = ']' ∨ close = '\x7d')
    (ts : List (List Char)) (rest : List Char) :
    endsNumber (ts.flatMap (',' :: ·) ++ close :: rest) = true := by
  cases ts with
  | nil => rcases hclose with rfl | rfl <;> rfl
  | cons t ts => rfl

/-- Nor is there space behind an item. -/
theorem skipSpace_flatMap_comma (hclose : close = ']' ∨ close = '\x7d')
    (ts : List (List Char)) (rest : List Char) :
    skipSpace (ts.flatMap (',' :: ·) ++ close :: rest) =
      ts.flatMap (',' :: ·) ++ close :: rest := by
  cases ts with
  | nil => rcases hclose with rfl | rfl <;> rfl
  | cons t ts => rfl

end Layout

/-! ### Arrays -/

theorem arrayText_append (ts : List (List Char)) (rest : List Char) :
    arrayText ts ++ rest = '[' :: (List.intercalate [','] ts ++ ']' :: rest) := by
  simp [arrayText]

section Arrays
variable {β : Type} {element : Reader β} {count : Nat} {first : Bool} {s t : List Char}
  {ts : List (List Char)} {x : β} {xs : List β} {rest : List Char}

/-- One element. -/
theorem elementsUpTo_item (count : Nat)
    (hnext : next ']' first s = .ok (.item (skipSpace t ++ rest)))
    (ht : Item element t x) (hrest : endsNumber rest = true) :
    ∃ left, skipSpace left = skipSpace rest ∧ elementsUpTo element (count + 1) first s =
      (elementsUpTo element count false left).map fun (xs, rest) => (x :: xs, rest) := by
  obtain ⟨left, hread, hleft⟩ := ht.reads rest hrest
  refine ⟨left, hleft, ?_⟩
  rw [elementsUpTo, hnext]
  simp only [bind, Except.bind, hread]
  cases elementsUpTo element count false left <;> rfl

/-- All elements but the first. -/
theorem elementsUpTo_flatMap (h : List.Forall₂ (Item element) ts xs) (hcount : ts.length < count)
    (hs : skipSpace s = ts.flatMap (',' :: ·) ++ ']' :: rest) :
    elementsUpTo element count false s = .ok (xs, rest) := by
  induction h generalizing count s with
  | nil =>
      obtain ⟨n, rfl⟩ := Nat.exists_eq_succ_of_ne_zero (Nat.ne_of_gt hcount)
      rw [elementsUpTo, next_close hs]
      rfl
  | @cons t x ts xs ht _ ih =>
      obtain ⟨n, rfl⟩ := Nat.exists_eq_succ_of_ne_zero (Nat.ne_of_gt (Nat.zero_lt_of_lt hcount))
      rw [List.flatMap_cons, List.append_assoc] at hs
      obtain ⟨left, hleft, hstep⟩ := elementsUpTo_item n
        (next_comma (.inl rfl) ht.begins hs) ht (endsNumber_flatMap_comma (.inl rfl) ts rest)
      rw [skipSpace_flatMap_comma (.inl rfl)] at hleft
      rw [hstep, ih (Nat.lt_of_succ_lt_succ hcount) hleft]
      rfl

/-- **An array is read from its items.** -/
theorem elements_intercalate (h : List.Forall₂ (Item element) ts xs) (rest : List Char) :
    elements element (List.intercalate [','] ts ++ ']' :: rest) = .ok (xs, rest) := by
  unfold elements
  cases h with
  | nil =>
      show elementsUpTo element (rest.length + 1) true (']' :: rest) = _
      rw [elementsUpTo, next_close rfl]
      rfl
  | @cons t x ts xs ht hts =>
      rw [intercalate_cons, List.append_assoc, List.length_append, List.length_append,
        List.length_cons]
      -- the length of the text bounds the number of items
      have hlength := length_le_flatMap_comma ts
      obtain ⟨n, hn⟩ := Nat.exists_eq_succ_of_ne_zero
        (Nat.ne_of_gt (length_pos_of_beginsItem ht.begins))
      rw [hn, Nat.succ_add]
      obtain ⟨left, hleft, hstep⟩ :=
        elementsUpTo_item (n + ((ts.flatMap (',' :: ·)).length + (rest.length + 1)))
          (next_first (.inl rfl) ht.begins _) ht (endsNumber_flatMap_comma (.inl rfl) ts rest)
      rw [skipSpace_flatMap_comma (.inl rfl)] at hleft
      rw [hstep, elementsUpTo_flatMap hts (by omega) hleft]
      rfl

end Arrays

/-! ### Objects -/

theorem objectText_append (ts : List (List Char)) (rest : List Char) :
    objectText ts ++ rest = '\x7b' :: (List.intercalate [','] ts ++ '\x7d' :: rest) := by
  simp [objectText]

section Objects
variable {κ σ : Type} {key : Reader κ} {member : κ → σ → Except Failure (Reader σ)}
  {count : Nat} {first : Bool} {k : κ} {reader : Reader σ} {state state' final : σ}
  {s name value rest : List Char} {ts : List (List Char)}

/-- **Members that lead from one state to another**, each of them a name, a colon and a
value, read as the state before it demands. -/
inductive Members (key : Reader κ) (member : κ → σ → Except Failure (Reader σ)) :
    σ → List (List Char) → σ → Prop where
  | nil (state : σ) : Members key member state [] state
  | cons {k : κ} {reader : Reader σ} {state state' final : σ} {name value : List Char}
      {ts : List (List Char)} :
      Item key name k → member k state = .ok reader → Reads reader value state' →
        Members key member state' ts final →
          Members key member state ((name ++ ':' :: value) :: ts) final

/-- One member. -/
theorem membersUpTo_item (count : Nat)
    (hnext : next '\x7d' first s = .ok (.item (skipSpace name ++ ':' :: (value ++ rest))))
    (hname : Item key name k) (hmember : member k state = .ok reader)
    (hvalue : Reads reader value state') (hrest : endsNumber rest = true) :
    ∃ left, skipSpace left = skipSpace rest ∧
      membersUpTo key member (count + 1) first state s =
        membersUpTo key member count false state' left := by
  obtain ⟨behindName, hkey, hcolon⟩ := hname.reads (':' :: (value ++ rest)) rfl
  obtain ⟨left, hread, hleft⟩ := hvalue rest hrest
  refine ⟨left, hleft, ?_⟩
  have hskip : skipColon behindName = .ok (value ++ rest) := by
    unfold skipColon
    rw [hcolon]
    rfl
  rw [membersUpTo, hnext]
  simp only [bind, Except.bind, hkey, hmember, hskip, hread]

/-- All members but the first. -/
theorem membersUpTo_flatMap (h : Members key member state ts final) (hcount : ts.length < count)
    (hs : skipSpace s = ts.flatMap (',' :: ·) ++ '\x7d' :: rest) :
    membersUpTo key member count false state s = .ok (final, rest) := by
  induction h generalizing count s with
  | nil state =>
      obtain ⟨n, rfl⟩ := Nat.exists_eq_succ_of_ne_zero (Nat.ne_of_gt hcount)
      rw [membersUpTo, next_close hs]
      rfl
  | @cons k reader state state' final name value ts hname hmember hvalue _ ih =>
      obtain ⟨n, rfl⟩ := Nat.exists_eq_succ_of_ne_zero (Nat.ne_of_gt (Nat.zero_lt_of_lt hcount))
      have hs' : skipSpace s =
          ',' :: (name ++ ':' :: (value ++ (ts.flatMap (',' :: ·) ++ '\x7d' :: rest))) := by
        rw [hs]
        simp
      obtain ⟨left, hleft, hstep⟩ := membersUpTo_item n
        (next_comma (.inr rfl) hname.begins hs') hname hmember hvalue
        (endsNumber_flatMap_comma (.inr rfl) ts rest)
      rw [skipSpace_flatMap_comma (.inr rfl)] at hleft
      rw [hstep, ih (Nat.lt_of_succ_lt_succ hcount) hleft]

/-- **An object is read from its members.** -/
theorem members_intercalate (h : Members key member state ts final) (rest : List Char) :
    members key member state (List.intercalate [','] ts ++ '\x7d' :: rest) =
      .ok (final, rest) := by
  unfold members
  cases h with
  | nil =>
      show membersUpTo key member (rest.length + 1) true state ('\x7d' :: rest) = _
      rw [membersUpTo, next_close rfl]
      rfl
  | @cons k reader _ state' _ name value ts hname hmember hvalue hts =>
      have hlength := length_le_flatMap_comma ts
      have htext : List.intercalate [','] ((name ++ ':' :: value) :: ts) ++ '\x7d' :: rest =
          name ++ ':' :: (value ++ (ts.flatMap (',' :: ·) ++ '\x7d' :: rest)) := by
        rw [intercalate_cons]
        simp
      rw [htext, List.length_append]
      obtain ⟨n, hn⟩ := Nat.exists_eq_succ_of_ne_zero
        (Nat.ne_of_gt (length_pos_of_beginsItem hname.begins))
      rw [hn, Nat.succ_add]
      obtain ⟨left, hleft, hstep⟩ := membersUpTo_item _
        (next_first (.inr rfl) hname.begins _) hname hmember hvalue
        (endsNumber_flatMap_comma (.inr rfl) ts rest)
      rw [skipSpace_flatMap_comma (.inr rfl)] at hleft
      rw [hstep, membersUpTo_flatMap hts _ hleft]
      simp only [List.length_cons, List.length_append]
      omega

end Objects
end Json
end SignatureAutomata
