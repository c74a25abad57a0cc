import SignatureAutomata.Proofs.Json.Spelling

/-! # Reading does not depend on the layout

What the grammar allows around a value makes no difference to a reader: space in front of an item is
passed over before the item is read, and space behind it before what comes next
(`Item.padded`).  So arrays and objects are read from their parts however they are laid out
(`item_listText`, `members_bracketed`), and so are records (`Padded.document`).
-/

namespace SignatureAutomata
namespace Json

/-! ### Space -/

section Space
variable {w t : List Char}

theorem skipSpace_append_of_blank (hw : Blank w) (s : List Char) :
    skipSpace (w ++ s) = skipSpace s :=
  List.dropWhile_append_of_pos hw

theorem skipSpace_skipSpace (s : List Char) : skipSpace (skipSpace s) = skipSpace s := by
  induction s with
  | nil => rfl
  | cons c s ih =>
      by_cases hc : isSpace c = true
      · rw [skipSpace, skipSpace, List.dropWhile_cons_of_pos hc]
        exact ih
      · have hskip : skipSpace (c :: s) = c :: s := List.dropWhile_cons_of_neg hc
        rw [hskip, hskip]

theorem endsNumber_append_of_blank (hw : Blank w) {rest : List Char}
    (hrest : endsNumber rest = true) : endsNumber (w ++ rest) = true := by
  cases w with
  | nil => exact hrest
  | cons c w =>
      have hc := hw c List.mem_cons_self
      simp only [isSpace, Bool.or_eq_true, decide_eq_true_eq] at hc
      rcases hc with ((rfl | rfl) | rfl) | rfl <;> rfl

/-- A reader that passes over space in front of what it reads. -/
def SkipsSpace {β : Type} (reader : Reader β) : Prop := ∀ s, reader (skipSpace s) = reader s

variable {β γ : Type} {reader : Reader β} {x : β}

theorem beginsItem_append {s : List Char} (h : beginsItem s = true) (rest : List Char) :
    beginsItem (s ++ rest) = true := by
  obtain ⟨c, cs, hcs, hc, hc'⟩ := exists_skipSpace_eq_cons h
  unfold beginsItem
  rw [skipSpace_append h, hcs]
  simp [hc, hc']

theorem Item.padded (h : Item reader t x) {w w' : List Char} (hw : Blank w) (hw' : Blank w') :
    Item reader (w ++ (t ++ w')) x := by
  have hskip : skipSpace (w ++ (t ++ w')) = skipSpace t ++ w' := by
    rw [skipSpace_append_of_blank hw, skipSpace_append h.begins]
  refine ⟨?_, ?_⟩
  · unfold beginsItem
    rw [hskip, ← skipSpace_append h.begins]
    exact beginsItem_append h.begins _
  · intro rest hrest
    obtain ⟨left, hread, hleft⟩ := h.reads (w' ++ rest) (endsNumber_append_of_blank hw' hrest)
    refine ⟨left, ?_, ?_⟩
    · rw [hskip, List.append_assoc]
      exact hread
    · rw [hleft, skipSpace_append_of_blank hw']

/-- **Space around an item makes no difference.** -/
theorem Padded.item {P : List Char → Prop} (h : Padded P t)
    (hP : ∀ s, P s → s.length ≤ t.length → Item reader s x) : Item reader t x := by
  cases h with
  | @intro w s w' hw hs hw' =>
      refine (hP s hs ?_).padded hw hw'
      rw [List.length_append, List.length_append]
      omega

theorem Item.reads_of_skipsSpace (h : Item reader t x) (hreader : SkipsSpace reader) :
    Reads reader t x := by
  intro rest hrest
  obtain ⟨left, hread, hleft⟩ := h.reads rest hrest
  rw [← skipSpace_append h.begins, hreader] at hread
  exact ⟨left, hread, hleft⟩

theorem Item.map (h : Item reader t x) (f : β → γ) : Item (reader.map f) t (f x) :=
  ⟨h.begins, h.reads.map f⟩

theorem SkipsSpace.map (h : SkipsSpace reader) (f : β → γ) : SkipsSpace (reader.map f) := by
  intro s
  unfold Reader.map
  rw [h s]

theorem skipsSpace_opened (c : Char) (expected : Expected) (behind : Reader β) :
    SkipsSpace (opened c expected behind) := by
  intro s
  unfold opened
  rw [skipSpace_skipSpace]

theorem skipsSpace_record (name : String) (fromArray fromObject : Reader β) :
    SkipsSpace (record name fromArray fromObject) := by
  intro s
  unfold record
  rw [skipSpace_skipSpace]

theorem skipsSpace_integer (type : IntegerType) : SkipsSpace (integer type) := by
  intro s
  unfold integer
  rw [skipSpace_skipSpace]

theorem skipsSpace_natural (type : IntegerType) : SkipsSpace (natural type) :=
  (skipsSpace_integer type).map (·.val.toNat)

theorem skipsSpace_symbol (τ : SymbolType) : SkipsSpace (symbol τ) := by
  cases τ with
  | integer type => exact skipsSpace_integer type
  | text => exact SkipsSpace.map (skipsSpace_opened _ _ _) _

end Space

/-! ### Arrays -/

section Arrays
variable {β : Type} {element : Reader β} {P : β → List Char → Prop} {xs : List β} {t : List Char}
  {ts : List (List Char)}

theorem forall₂_item (h : List.Forall₂ (fun e x => Padded (P x) e) ts xs)
    (helement : ∀ x ∈ xs, ∀ s, P x s → Item element s x) : List.Forall₂ (Item element) ts xs := by
  induction h with
  | nil => exact .nil
  | cons hx _ ih =>
      obtain ⟨hfirst, hlater⟩ := List.forall_mem_cons.1 helement
      exact .cons (hx.item fun s hs _ => hfirst s hs) (ih hlater)

/-- The elements between brackets. -/
theorem elements_bracketed (hbrackets : Bracketed '[' ']' ts t)
    (h : List.Forall₂ (Item element) ts xs) :
    ∃ body, t = '[' :: body ∧ ∀ rest, elements element (body ++ rest) = .ok (xs, rest) := by
  cases hbrackets with
  | @blank w hw =>
      cases h
      refine ⟨_, rfl, fun rest => ?_⟩
      have hskip : skipSpace (w ++ ']' :: rest) = ']' :: rest := skipSpace_append_of_blank hw _
      rw [List.append_assoc, elements, List.length_append, List.singleton_append, List.length_cons,
        ← Nat.add_assoc, elementsUpTo, next_close hskip]
      rfl
  | items ts =>
      refine ⟨_, rfl, fun rest => ?_⟩
      rw [List.append_assoc]
      exact elements_intercalate h rest

/-- **An array is read from its elements**, however it is laid out. -/
theorem item_bracketed (hbrackets : Bracketed '[' ']' ts t)
    (h : List.Forall₂ (Item element) ts xs) : Item (array element) t xs := by
  obtain ⟨body, rfl, hread⟩ := elements_bracketed hbrackets h
  exact Reads.item (fun rest _ => ⟨rest, hread rest, rfl⟩) rfl (by decide) (by decide)

theorem item_listText (h : ListText P xs t)
    (helement : ∀ x ∈ xs, ∀ s, P x s → Item element s x) : Item (array element) t xs := by
  obtain ⟨ts, hts, hbrackets⟩ := h
  exact item_bracketed hbrackets (forall₂_item hts helement)

end Arrays

/-! ### Objects -/

section Objects
variable {κ σ : Type} {key : Reader κ} {member : κ → σ → Except Failure (Reader σ)}
  {state final : σ} {t : List Char} {ts : List (List Char)}

/-- Nothing stands between the brackets. -/
theorem members_blank {w : List Char} (hw : Blank w) (rest : List Char) :
    members key member state (w ++ ['\x7d'] ++ rest) = .ok (state, rest) := by
  have hskip : skipSpace (w ++ '\x7d' :: rest) = '\x7d' :: rest := skipSpace_append_of_blank hw _
  rw [List.append_assoc, members, List.length_append, List.singleton_append, List.length_cons,
    ← Nat.add_assoc, membersUpTo, next_close hskip]
  rfl

/-- **An object is read from its members**, however it is laid out. -/
theorem members_bracketed (hbrackets : Bracketed '\x7b' '\x7d' ts t)
    (h : Members key member state ts final) :
    ∃ body, t = '\x7b' :: body ∧
      ∀ rest, members key member state (body ++ rest) = .ok (final, rest) := by
  cases hbrackets with
  | @blank w hw =>
      cases h
      exact ⟨_, rfl, members_blank hw⟩
  | items ts =>
      refine ⟨_, rfl, fun rest => ?_⟩
      rw [List.append_assoc]
      exact members_intercalate h rest

end Objects

/-! ### Symbols -/

theorem item_symbolText {τ : SymbolType} {v : τ.Symbol} {t : List Char} (h : SymbolText τ v t) :
    Item (symbol τ) t v := by
  cases τ with
  | integer type =>
      obtain rfl : t = symbolText (.integer type) v := h
      exact item_symbol (.integer type) v
  | text =>
      have hitem := (item_stringText .string h).map String.ofList
      rw [String.ofList_toList] at hitem
      exact hitem

/-! ### Records -/

section Records
variable {β : Type} {name : String} {fromArray fromObject : Reader β} {x : β} {w s t : List Char}

theorem record_object (hw : Blank w) :
    record name fromArray fromObject (w ++ '\x7b' :: s) = fromObject s := by
  have hskip : skipSpace (w ++ '\x7b' :: s) = '\x7b' :: s := skipSpace_append_of_blank hw _
  unfold record
  rw [hskip]
  rfl

theorem item_record_array (h : ∀ rest, fromArray (s ++ rest) = .ok (x, rest)) :
    Item (record name fromArray fromObject) ('[' :: s) x :=
  Reads.item (fun rest _ => ⟨rest, h rest, rfl⟩) rfl (by decide) (by decide)

theorem item_record_object (h : ∀ rest, fromObject (s ++ rest) = .ok (x, rest)) :
    Item (record name fromArray fromObject) ('\x7b' :: s) x :=
  Reads.item (fun rest _ => ⟨rest, h rest, rfl⟩) rfl (by decide) (by decide)

/-- **A record fills a whole text**, however much space is around it. -/
theorem Padded.document {P : List Char → Prop} {text : String} (h : Padded P text.toList)
    (hP : ∀ s, P s → Item (record name fromArray fromObject) s x) :
    document (record name fromArray fromObject) text = .ok x :=
  Reads.document ((h.item fun s hs _ => hP s hs).reads_of_skipsSpace (skipsSpace_record _ _ _))

end Records

end Json
end SignatureAutomata
