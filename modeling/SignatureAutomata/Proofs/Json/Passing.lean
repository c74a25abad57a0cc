import Mathlib.Data.List.TakeWhile
import SignatureAutomata.Proofs.Json.Layout

/-! # Passing over values

A value of any kind is passed over as a whole, whatever stands in it (`reads_skipValue`).  The
induction is on the depth to which values are nested (`item_skipNested`); strings and numbers, in
which no other values stand, come first.
-/

namespace SignatureAutomata
namespace Json

/-! ### Strings -/

section Strings
variable {t rest : List Char} {count : Nat}

/-- One character more. -/
theorem skipUpTo_character (hcount : 0 < count) (hc : skipCharacter t = .ok rest)
    (ht : ∀ cs, t ≠ '"' :: cs) : skipUpTo count t = skipUpTo (count - 1) rest := by
  obtain ⟨n, rfl⟩ := Nat.exists_eq_succ_of_ne_zero (Nat.ne_of_gt hcount)
  rw [skipUpTo]
  · simp only [hc, bind, Except.bind, Nat.succ_sub_one]
  · exact ht

theorem skipCharacter_of_character {c : Char} (ht : ∀ cs, t ≠ '\\' :: 'u' :: cs)
    (hc : character t = .ok (c, rest)) : skipCharacter t = .ok rest := by
  rw [skipCharacter]
  · rw [hc]
    rfl
  · exact ht

theorem skipUpTo_isSpelling (h : IsSpelling t) (hcount : t.length < count) (rest : List Char) :
    skipUpTo count (t ++ '"' :: rest) = .ok ((), rest) := by
  induction h generalizing count with
  | nil =>
      obtain ⟨n, rfl⟩ := Nat.exists_eq_succ_of_ne_zero (Nat.ne_of_gt hcount)
      rfl
  | @plain c t hc hquote hbackslash _ ih =>
      simp only [List.length_cons] at hcount
      have hskip : skipCharacter (c :: (t ++ '"' :: rest)) = .ok (t ++ '"' :: rest) :=
        skipCharacter_of_character (fun cs h => hbackslash (List.cons.inj h).1)
          (character_plain hc hbackslash)
      rw [List.cons_append,
        skipUpTo_character (by omega) hskip fun cs h => hquote (List.cons.inj h).1]
      exact ih (by omega)
  | @letter l c t hl _ ih =>
      simp only [List.length_cons] at hcount
      have hu : ∀ cs, '\\' :: l :: (t ++ '"' :: rest) ≠ '\\' :: 'u' :: cs := by
        intro cs h
        rw [(List.cons.inj (List.cons.inj h).2).1] at hl
        cases hl
      have hskip : skipCharacter ('\\' :: l :: (t ++ '"' :: rest)) = .ok (t ++ '"' :: rest) :=
        skipCharacter_of_character hu (character_letter hl)
      rw [List.cons_append, List.cons_append, skipUpTo_character (by omega) hskip fun _ => nofun]
      exact ih (by omega)
  | @digits _ d₁ d₂ d₃ d₄ t hd _ ih =>
      simp only [List.length_cons] at hcount
      have hskip : skipCharacter ('\\' :: 'u' :: d₁ :: d₂ :: d₃ :: d₄ :: (t ++ '"' :: rest)) =
          .ok (t ++ '"' :: rest) := by
        show (fourHex _).map _ = _
        rw [fourHex_of_some hd]
        rfl
      show skipUpTo count ('\\' :: 'u' :: d₁ :: d₂ :: d₃ :: d₄ :: (t ++ '"' :: rest)) = _
      rw [skipUpTo_character (by omega) hskip fun _ => nofun]
      exact ih (by omega)

theorem skipUnquoted_isSpelling (h : IsSpelling t) (rest : List Char) :
    skipUnquoted (t ++ '"' :: rest) = .ok ((), rest) := by
  refine skipUpTo_isSpelling h ?_ rest
  rw [List.length_append, List.length_cons]
  omega

/-- The quote that ends a string is the first one that no escape takes. -/
theorem IsSpelling.append_inj (h : IsSpelling t) {t' rest' : List Char} (h' : IsSpelling t')
    (heq : t ++ '"' :: rest = t' ++ '"' :: rest') : t = t' ∧ rest = rest' := by
  have hskip := skipUnquoted_isSpelling h rest
  rw [heq, skipUnquoted_isSpelling h' rest'] at hskip
  obtain rfl := (Prod.mk.inj (Except.ok.inj hskip)).2
  exact ⟨List.append_cancel_right heq, rfl⟩

end Strings

/-! ### Numbers -/

section Numbers
variable {t ds rest : List Char}

/-- No digit comes first. -/
def EndsDigits (rest : List Char) : Prop := rest.head?.any Char.isDigit = false

theorem endsDigits_of_endsNumber (h : endsNumber rest = true) : EndsDigits rest := by
  cases rest with
  | nil => rfl
  | cons c rest =>
      simp only [endsNumber, Bool.not_eq_true', Bool.or_eq_false_iff] at h
      exact h.1.1.1

theorem endsDigits_dropWhile (s : List Char) : EndsDigits (s.dropWhile Char.isDigit) := by
  induction s with
  | nil => rfl
  | cons c s ih =>
      by_cases hc : c.isDigit = true
      · rw [List.dropWhile_cons_of_pos hc]
        exact ih
      · rw [List.dropWhile_cons_of_neg hc]
        exact Bool.eq_false_iff.2 hc

theorem dropWhile_digits (h : ∀ c ∈ ds, c.isDigit = true) (hrest : EndsDigits rest) :
    (ds ++ rest).dropWhile Char.isDigit = rest := by
  rw [List.dropWhile_append_of_pos h]
  cases rest with
  | nil => rfl
  | cons c rest =>
      exact List.dropWhile_cons_of_neg (Bool.eq_false_iff.1 hrest)

theorem skipDigits_append (h : IsDigits ds) (hrest : EndsDigits rest) :
    skipDigits (ds ++ rest) = .ok rest := by
  obtain ⟨hne, hds⟩ := h
  obtain ⟨c, ds, rfl⟩ := List.exists_cons_of_ne_nil hne
  obtain ⟨hc, hds⟩ := List.forall_mem_cons.1 hds
  rw [List.cons_append, skipDigits, if_pos hc, dropWhile_digits hds hrest]

theorem IsExponent.endsDigits_append (h : IsExponent t) (hrest : endsNumber rest = true) :
    EndsDigits (t ++ rest) := by
  rcases h with rfl | ⟨letter, sign, ds, rfl | rfl, -, -, rfl⟩
  · exact endsDigits_of_endsNumber hrest
  · rfl
  · rfl

theorem IsFraction.endsDigits_append (h : IsFraction t) (hrest : EndsDigits rest) :
    EndsDigits (t ++ rest) := by
  rcases h with rfl | ⟨ds, -, rfl⟩
  · exact hrest
  · rfl

theorem skipExponent_append (h : IsExponent t) (hrest : endsNumber rest = true) :
    skipExponent (t ++ rest) = .ok rest := by
  rcases h with rfl | ⟨letter, sign, ds, hletter, hsign, hds, rfl⟩
  · rw [List.nil_append]
    unfold skipExponent
    split
    · simp [endsNumber] at hrest
    · simp [endsNumber] at hrest
    · rfl
  · have hskip : skipDigits (skipSign (sign ++ (ds ++ rest))).2 = .ok rest := by
      have hdigits := skipDigits_append hds (endsDigits_of_endsNumber hrest)
      rcases hsign with rfl | rfl | rfl
      · obtain ⟨c, cs, rfl⟩ := List.exists_cons_of_ne_nil hds.1
        have hc := hds.2 c List.mem_cons_self
        rw [List.nil_append, List.cons_append] at *
        unfold skipSign
        split
        · rename_i h
          rw [(List.cons.inj h).1] at hc
          cases hc
        · rename_i h
          rw [(List.cons.inj h).1] at hc
          cases hc
        · exact hdigits
      · exact hdigits
      · exact hdigits
    rw [List.cons_append, List.append_assoc]
    rcases hletter with rfl | rfl
    · exact hskip
    · exact hskip

/-- Drops what may follow the integer part of a number. -/
def skipFraction : List Char → Except Failure (List Char)
  | '.' :: s => do skipExponent (← skipDigits s)
  | s => skipExponent s

theorem skipNumber_whole (h : IsWhole t) (hrest : EndsDigits rest) :
    skipNumber (t ++ rest) = skipFraction rest := by
  obtain ⟨hdigits, hzero⟩ := h
  obtain ⟨c, ds, rfl⟩ := List.exists_cons_of_ne_nil hdigits.1
  by_cases hc : c = '0'
  · subst hc
    obtain rfl := (List.cons.inj (hzero rfl)).2
    show skipNumber ('0' :: rest) = _
    unfold skipNumber
    split
    · rename_i cs h
      obtain rfl := (List.cons.inj h).2
      rw [if_neg (Bool.eq_false_iff.1 hrest)]
      rfl
    · rename_i h
      exact absurd rfl (h rest)
  · have hskip := skipDigits_append hdigits hrest
    rw [List.cons_append] at hskip ⊢
    unfold skipNumber
    split
    · rename_i h
      exact absurd (List.cons.inj h).1 hc
    · rw [hskip]
      rfl

theorem skipFraction_append (h : IsFraction t) {t' : List Char} (h' : IsExponent t')
    (hrest : endsNumber rest = true) : skipFraction (t ++ (t' ++ rest)) = .ok rest := by
  have hexponent := skipExponent_append h' hrest
  rcases h with rfl | ⟨ds, hds, rfl⟩
  · rw [List.nil_append]
    unfold skipFraction
    split
    · rename_i h
      rcases h' with rfl | ⟨letter, sign, ds, rfl | rfl, -, -, rfl⟩
      · rw [List.nil_append] at h
        simp [h, endsNumber] at hrest
      · cases h
      · cases h
    · exact hexponent
  · show (do skipExponent (← skipDigits (ds ++ (t' ++ rest)))) = _
    rw [skipDigits_append hds (h'.endsDigits_append hrest)]
    exact hexponent

/-- **A number is passed over**, however long it is. -/
theorem skipNumber_isUnsigned (h : IsUnsigned t) (hrest : endsNumber rest = true) :
    skipNumber (t ++ rest) = .ok rest := by
  obtain ⟨whole, fraction, exponent, hwhole, hfraction, hexponent, rfl⟩ := h
  rw [List.append_assoc, List.append_assoc, skipNumber_whole hwhole
    (hfraction.endsDigits_append (hexponent.endsDigits_append hrest)),
    skipFraction_append hfraction hexponent hrest]

end Numbers

/-! ### Values -/

section Values
variable {t s e : List Char} {ts : List (List Char)} {n depth : Nat}

theorem skipsSpace_skipNested (n : Nat) : SkipsSpace (skipNested n) := by
  intro s
  cases n with
  | zero => rfl
  | succ n =>
      unfold skipNested
      rw [skipSpace_skipSpace]

theorem skipNested_digit {c : Char} (hc : c.isDigit = true) (s : List Char) :
    skipNested (n + 1) (c :: s) = (skipNumber (c :: s)).map fun rest => ((), rest) := by
  have hskip : skipSpace (c :: s) = c :: s :=
    (beginsItem_cons (digit_ne hc).1 (digit_ne hc).2.1 (digit_ne hc).2.2.1 s).2
  have hne : ∀ d : Char, d.isDigit = false → c ≠ d := by
    rintro d hd rfl
    rw [hc] at hd
    cases hd
  unfold skipNested
  rw [hskip]
  dsimp only
  rw [if_neg (hne 'n' rfl), if_neg (hne 't' rfl), if_neg (hne 'f' rfl), if_neg (hne '"' rfl),
    if_neg (hne '[' rfl), if_neg (hne '\x7b' rfl), if_neg (hne '-' rfl), if_pos hc]
  cases skipNumber (c :: s) <;> rfl

theorem item_skipNested_number (h : IsNumber t) : Item (skipNested (n + 1)) t () := by
  rcases h with h | ⟨u, h, rfl⟩
  · have hskip : ∀ rest, endsNumber rest = true → skipNumber (t ++ rest) = .ok rest :=
      fun rest hrest => skipNumber_isUnsigned h hrest
    obtain ⟨whole, fraction, exponent, ⟨hdigits, -⟩, -, -, ht⟩ := h
    obtain ⟨c, cs, rfl⟩ := List.exists_cons_of_ne_nil hdigits.1
    have hc := hdigits.2 c List.mem_cons_self
    rw [List.cons_append] at ht
    subst ht
    refine Reads.item (fun rest hrest => ⟨rest, ?_, rfl⟩) (digit_ne hc).1 (digit_ne hc).2.1
      (digit_ne hc).2.2.1
    rw [List.cons_append, skipNested_digit hc, ← List.cons_append, hskip rest hrest]
    rfl
  · refine Reads.item (fun rest hrest => ⟨rest, ?_, rfl⟩) rfl (by decide) (by decide)
    show (do Except.ok ((), ← skipNumber (u ++ rest))) = _
    rw [skipNumber_isUnsigned h hrest]
    rfl

theorem item_skipNested_scalar (h : IsScalar t) : Item (skipNested (n + 1)) t () := by
  rcases h with rfl | rfl | rfl | h | ⟨body, h, rfl⟩
  · exact Reads.item (fun rest _ => ⟨rest, rfl, rfl⟩) rfl (by decide) (by decide)
  · exact Reads.item (fun rest _ => ⟨rest, rfl, rfl⟩) rfl (by decide) (by decide)
  · exact Reads.item (fun rest _ => ⟨rest, rfl, rfl⟩) rfl (by decide) (by decide)
  · exact item_skipNested_number h
  · refine Reads.item (fun rest _ => ⟨rest, ?_, rfl⟩) rfl (by decide) (by decide)
    rw [List.cons_append, List.append_assoc]
    exact skipUnquoted_isSpelling h rest

theorem item_skipKey (h : IsString t) : Item skipKey t () := by
  obtain ⟨body, h, rfl⟩ := h
  refine Reads.item (fun rest _ => ⟨rest, ?_, rfl⟩) rfl (by decide) (by decide)
  rw [List.cons_append, List.append_assoc]
  exact skipUnquoted_isSpelling h rest

theorem length_le_of_mem_intercalate (h : e ∈ ts) :
    e.length ≤ (List.intercalate [','] ts).length := by
  cases ts with
  | nil => cases h
  | cons t ts =>
      rw [intercalate_cons, List.length_append]
      rcases List.mem_cons.1 h with rfl | h
      · exact Nat.le_add_right ..
      · have hmem := List.mem_map_of_mem (f := (',' :: ·)) h
        have hle := (List.sublist_flatten_of_mem hmem).length_le
        rw [List.flatMap_def]
        simp only [List.length_cons] at hle
        omega

/-- An item is shorter than what it stands in. -/
theorem Bracketed.length_lt {opening closing : Char} (h : Bracketed opening closing ts t)
    (he : e ∈ ts) : e.length < t.length := by
  cases h with
  | blank => cases he
  | items ts =>
      have hle := length_le_of_mem_intercalate he
      simp only [List.length_cons, List.length_append]
      omega

theorem Bracketed.length_pos {opening closing : Char} (h : Bracketed opening closing ts t) :
    0 < t.length := by
  cases h <;> exact Nat.succ_pos _

theorem IsScalar.length_pos (h : IsScalar t) : 0 < t.length :=
  length_pos_of_beginsItem (item_skipNested_scalar (n := 0) h).begins

/-- Members that are passed over. -/
theorem members_skip {value : Reader Unit} (h : ∀ e ∈ ts, ∃ name text, Item skipKey name () ∧
    Reads value text () ∧ e = name ++ ':' :: text) :
    Members skipKey (fun _ _ => .ok value) () ts () := by
  induction ts with
  | nil => exact .nil ()
  | cons e ts ih =>
      obtain ⟨hfirst, hlater⟩ := List.forall_mem_cons.1 h
      obtain ⟨name, text, hname, htext, rfl⟩ := hfirst
      exact .cons hname rfl htext (ih hlater)

/-- **A value of any kind is passed over**, if values may be nested as deep as it is long. -/
theorem item_skipNested (h : IsNested depth t) (hn : t.length ≤ n) :
    Item (skipNested n) t () := by
  induction depth generalizing t n with
  | zero => exact h.elim
  | succ depth ih =>
      -- what stands inside is shorter, so there is depth enough left for it
      have hinside : ∀ {opening closing : Char} {ts : List (List Char)},
          Bracketed opening closing ts t → ∃ k, n = k + 1 ∧ ∀ e ∈ ts, e.length ≤ k := by
        intro opening closing ts hbrackets
        obtain ⟨k, rfl⟩ := Nat.exists_eq_succ_of_ne_zero (Nat.ne_of_gt (Nat.lt_of_lt_of_le
          hbrackets.length_pos hn))
        refine ⟨k, rfl, fun e he => ?_⟩
        have hlt := hbrackets.length_lt he
        omega
      rcases h with h | ⟨ts, hbrackets, h⟩ | ⟨ts, hbrackets, h⟩
      · obtain ⟨k, rfl⟩ := Nat.exists_eq_succ_of_ne_zero (Nat.ne_of_gt (Nat.lt_of_lt_of_le
          h.length_pos hn))
        exact item_skipNested_scalar h
      · obtain ⟨k, rfl, hle⟩ := hinside hbrackets
        have hitems : List.Forall₂ (Item (skipNested k)) ts (ts.map fun _ => ()) :=
          List.forall₂_map_right_iff.2 (List.forall₂_same.2 fun e he => (h e he).item
            fun s hs hlength => ih hs (Nat.le_trans hlength (hle e he)))
        obtain ⟨body, rfl, hread⟩ := elements_bracketed hbrackets hitems
        refine Reads.item (fun rest _ => ⟨rest, ?_, rfl⟩) rfl (by decide) (by decide)
        show (elements (skipNested k)).map (fun _ => ()) (body ++ rest) = _
        rw [Reader.map, hread]
        rfl
      · obtain ⟨k, rfl, hle⟩ := hinside hbrackets
        have hmembers : Members skipKey (fun _ _ => .ok (skipNested k)) () ts () := by
          refine members_skip fun e he => ?_
          obtain ⟨name, text, hname, htext, rfl⟩ := h e he
          have hlength := hle _ he
          simp only [List.length_append, List.length_cons] at hlength
          have hitem : Item (skipNested k) text () :=
            htext.item fun s hs hs' => ih hs (by omega)
          exact ⟨name, text, hname.item fun s hs _ => item_skipKey hs,
            hitem.reads_of_skipsSpace (skipsSpace_skipNested k), rfl⟩
        obtain ⟨body, rfl, hread⟩ := members_bracketed hbrackets hmembers
        refine Reads.item (fun rest _ => ⟨rest, ?_, rfl⟩) rfl (by decide) (by decide)
        exact hread rest

/-- **A value of any kind is passed over.** -/
theorem reads_skipValue (h : Padded IsValue t) : Reads skipValue t () := by
  intro rest hrest
  have hitem : Item (skipNested (t ++ rest).length) t () := by
    refine h.item fun s hs hlength => ?_
    obtain ⟨depth, hs⟩ := hs
    refine item_skipNested hs (Nat.le_trans hlength ?_)
    rw [List.length_append]
    exact Nat.le_add_right ..
  exact (hitem.reads_of_skipsSpace (skipsSpace_skipNested _)) rest hrest

end Values

end Json
end SignatureAutomata
