import SignatureAutomata.Proofs.Json.Grammar
import SignatureAutomata.Proofs.Json.Value

/-! # Texts are read from their spellings

A text is read from any spelling of it (`charactersUpTo_spells`), and from nothing else: what is
read as a text spells it (`exists_spelling_of_charactersUpTo`).
-/

namespace SignatureAutomata
namespace Json

/-- What comes out of two steps comes out of the second. -/
theorem exists_of_bind_eq_ok {β γ : Type} {f : β → Except Failure γ} {r : Except Failure β} {y : γ}
    (h : r.bind f = .ok y) : ∃ x, r = .ok x ∧ f x = .ok y := by
  cases r with
  | error e => cases h
  | ok x => exact ⟨x, rfl, h⟩

/-! ### From a spelling to its text -/

section Reading
variable {c d₁ d₂ d₃ d₄ e₁ e₂ e₃ e₄ : Char} {s t rest left : List Char} {n m count : Nat}

/-- One character more. -/
theorem charactersUpTo_character (hcount : 0 < count) (ht : ∀ cs, t ≠ '"' :: cs)
    (hc : character t = .ok (c, rest)) (hrest : charactersUpTo (count - 1) rest = .ok (s, left)) :
    charactersUpTo count t = .ok (c :: s, left) := by
  obtain ⟨n, rfl⟩ := Nat.exists_eq_succ_of_ne_zero (Nat.ne_of_gt hcount)
  rw [Nat.succ_sub_one] at hrest
  rw [charactersUpTo]
  · simp only [hc, hrest, bind, Except.bind]
  · exact ht

theorem character_plain (hc : 0x20 ≤ c.toNat) (hbackslash : c ≠ '\\') :
    character (c :: rest) = .ok (c, rest) := by
  unfold character
  split
  · simp_all
  · simp_all
  · simp_all
  · simp_all
  · rename_i c' rest' _ _ _ h
    obtain ⟨rfl, rfl⟩ := List.cons.inj h
    exact if_neg (Nat.not_lt.2 hc)

theorem character_letter {l : Char} (hl : simpleEscape? l = some c) :
    character ('\\' :: l :: rest) = .ok (c, rest) := by
  have hu : l ≠ 'u' := by
    rintro rfl
    cases hl
  unfold character
  split
  · simp_all
  · simp_all
  · simp_all
  · simp_all
  · rename_i hno h
    obtain ⟨rfl, rfl⟩ := List.cons.inj h
    exact absurd rfl (hno l rest rfl)

theorem fourHex_of_some (h : fourHex? d₁ d₂ d₃ d₄ = some n) :
    fourHex (d₁ :: d₂ :: d₃ :: d₄ :: rest) = .ok (n, rest) := by
  unfold fourHex
  simp only [h]

/-- The number of a character is none of half a pair. -/
theorem not_isLeading (c : Char) : isLeading c.toNat = false ∧ isTrailing c.toNat = false := by
  have hc : c.toNat < 0xD800 ∨ 0xDFFF < c.toNat ∧ c.toNat < 0x110000 := c.valid
  simp only [isLeading, isTrailing, Bool.and_eq_false_iff, decide_eq_false_iff_not]
  omega

theorem character_digits (h : fourHex? d₁ d₂ d₃ d₄ = some c.toNat) :
    character ('\\' :: 'u' :: d₁ :: d₂ :: d₃ :: d₄ :: rest) = .ok (c, rest) := by
  obtain ⟨hleading, htrailing⟩ := not_isLeading c
  show hexEscape _ = _
  simp only [hexEscape, fourHex_of_some h, bind, Except.bind, hleading, htrailing,
    Bool.false_eq_true, if_false, Char.ofNat_toNat]

theorem character_pair (hc : 0x10000 ≤ c.toNat)
    (hd : fourHex? d₁ d₂ d₃ d₄ = some (0xD800 + (c.toNat - 0x10000) / 0x400))
    (he : fourHex? e₁ e₂ e₃ e₄ = some (0xDC00 + (c.toNat - 0x10000) % 0x400)) :
    character ('\\' :: 'u' :: d₁ :: d₂ :: d₃ :: d₄ :: '\\' :: 'u' :: e₁ :: e₂ :: e₃ :: e₄ :: rest) =
      .ok (c, rest) := by
  have hlt : c.toNat < 0x110000 := by
    have hvalid : c.toNat < 0xD800 ∨ 0xDFFF < c.toNat ∧ c.toNat < 0x110000 := c.valid
    omega
  have hleading : isLeading (0xD800 + (c.toNat - 0x10000) / 0x400) = true := by
    simp only [isLeading, Bool.and_eq_true, decide_eq_true_eq]
    omega
  have hnot : isTrailing (0xD800 + (c.toNat - 0x10000) / 0x400) = false := by
    simp only [isTrailing, Bool.and_eq_false_iff, decide_eq_false_iff_not]
    omega
  have htrailing : isTrailing (0xDC00 + (c.toNat - 0x10000) % 0x400) = true := by
    simp only [isTrailing, Bool.and_eq_true, decide_eq_true_eq]
    omega
  have hsum : 0x10000 + (0xD800 + (c.toNat - 0x10000) / 0x400 - 0xD800) * 0x400 +
      (0xDC00 + (c.toNat - 0x10000) % 0x400 - 0xDC00) = c.toNat := by omega
  show hexEscape _ = _
  simp only [hexEscape, fourHex_of_some hd, fourHex_of_some he, bind, Except.bind, hleading, hnot,
    htrailing, Bool.false_eq_true, if_false, if_true, hsum, Char.ofNat_toNat]

/-- **A text is read from any spelling of it.** -/
theorem charactersUpTo_spells (h : Spells s t) (hcount : t.length < count) (rest : List Char) :
    charactersUpTo count (t ++ '"' :: rest) = .ok (s, rest) := by
  induction h generalizing count with
  | nil =>
      obtain ⟨n, rfl⟩ := Nat.exists_eq_succ_of_ne_zero (Nat.ne_of_gt hcount)
      rfl
  | plain hc hquote hbackslash _ ih =>
      simp only [List.length_cons] at hcount
      exact charactersUpTo_character (by omega) (fun cs h => hquote (List.cons.inj h).1)
        (character_plain hc hbackslash) (ih (by omega))
  | letter hl _ ih =>
      simp only [List.length_cons] at hcount
      exact charactersUpTo_character (by omega) (fun _ => nofun) (character_letter hl)
        (ih (by omega))
  | digits hd _ ih =>
      simp only [List.length_cons] at hcount
      exact charactersUpTo_character (by omega) (fun _ => nofun) (character_digits hd)
        (ih (by omega))
  | pair hc hd he _ ih =>
      simp only [List.length_cons] at hcount
      exact charactersUpTo_character (by omega) (fun _ => nofun) (character_pair hc hd he)
        (ih (by omega))

theorem unquoted_spells (h : Spells s t) (rest : List Char) :
    unquoted (t ++ '"' :: rest) = .ok (s, rest) := by
  refine charactersUpTo_spells h ?_ rest
  rw [List.length_append, List.length_cons]
  omega

theorem item_stringText (expected : Expected) (h : StringText s t) :
    Item (string expected) t s := by
  obtain ⟨body, hbody, rfl⟩ := h
  refine Reads.item (fun rest _ => ⟨rest, ?_, rfl⟩) rfl (by decide) (by decide)
  rw [List.cons_append, List.append_assoc]
  exact unquoted_spells hbody rest

theorem item_keyText (h : StringText s t) : Item key t s := by
  obtain ⟨body, hbody, rfl⟩ := h
  refine Reads.item (fun rest _ => ⟨rest, ?_, rfl⟩) rfl (by decide) (by decide)
  rw [List.cons_append, List.append_assoc]
  exact unquoted_spells hbody rest

end Reading

/-! ### From a text back to its spelling -/

section Spelling
variable {s rest left : List Char} {n count : Nat}

theorem toNat_ofNat_of_isValidChar (h : n.isValidChar) : (Char.ofNat n).toNat = n := by
  unfold Char.ofNat
  rw [dif_pos h]
  rfl

theorem hexValue?_lt {d : Char} (h : hexValue? d = some n) : n < 16 := by
  unfold hexValue? at h
  split at h
  · rename_i hd
    have hle : d.toNat ≤ 57 := by
      simp only [Char.isDigit, Bool.and_eq_true, decide_eq_true_eq] at hd
      exact hd.2
    obtain rfl := Option.some.inj h
    show d.toNat - 48 < 16
    omega
  · split at h
    · rename_i hd
      have hle : d.toNat ≤ 102 := hd.2
      obtain rfl := Option.some.inj h
      show d.toNat - 97 + 10 < 16
      omega
    · split at h
      · rename_i hd
        have hle : d.toNat ≤ 70 := hd.2
        obtain rfl := Option.some.inj h
        show d.toNat - 65 + 10 < 16
        omega
      · cases h

theorem fourHex?_lt {d₁ d₂ d₃ d₄ : Char} (h : fourHex? d₁ d₂ d₃ d₄ = some n) : n < 0x10000 := by
  unfold fourHex? at h
  obtain ⟨v₁, h₁, h⟩ := Option.bind_eq_some_iff.1 h
  obtain ⟨v₂, h₂, h⟩ := Option.bind_eq_some_iff.1 h
  obtain ⟨v₃, h₃, h⟩ := Option.bind_eq_some_iff.1 h
  obtain ⟨v₄, h₄, h⟩ := Option.bind_eq_some_iff.1 h
  obtain rfl := Option.some.inj h
  have := hexValue?_lt h₁
  have := hexValue?_lt h₂
  have := hexValue?_lt h₃
  have := hexValue?_lt h₄
  omega

theorem fourHex_eq_ok (h : fourHex s = .ok (n, rest)) :
    ∃ d₁ d₂ d₃ d₄, fourHex? d₁ d₂ d₃ d₄ = some n ∧ s = d₁ :: d₂ :: d₃ :: d₄ :: rest := by
  unfold fourHex at h
  split at h
  · split at h
    · rename_i hn
      obtain ⟨rfl, rfl⟩ := Prod.mk.inj (Except.ok.inj h)
      exact ⟨_, _, _, _, hn, rfl⟩
    · cases h
  · cases h

/-- The digits of one escape or two are taken as they spell a character. -/
theorem exists_spelling_of_hexEscape {c : Char} (h : hexEscape s = .ok (c, rest)) :
    ∃ digits, s = digits ++ rest ∧
      ∀ {cs t}, Spells cs t → Spells (c :: cs) ('\\' :: 'u' :: (digits ++ t)) := by
  unfold hexEscape at h
  obtain ⟨⟨n, behind⟩, hdigits, hn⟩ := exists_of_bind_eq_ok h
  clear h
  obtain ⟨d₁, d₂, d₃, d₄, hvalue, rfl⟩ := fourHex_eq_ok hdigits
  have hlt := fourHex?_lt hvalue
  dsimp only at hn
  split at hn
  · cases hn
  · rename_i htrailing
    simp only [isTrailing, Bool.and_eq_true, decide_eq_true_eq] at htrailing
    split at hn
    · rename_i hleading
      simp only [isLeading, Bool.and_eq_true, decide_eq_true_eq] at hleading
      split at hn
      · rename_i digits
        obtain ⟨⟨m, behind'⟩, hdigits', hm⟩ := exists_of_bind_eq_ok hn
        clear hn
        obtain ⟨e₁, e₂, e₃, e₄, hvalue', rfl⟩ := fourHex_eq_ok hdigits'
        dsimp only at hm
        split at hm
        · rename_i htrailing'
          simp only [isTrailing, Bool.and_eq_true, decide_eq_true_eq] at htrailing'
          obtain ⟨rfl, rfl⟩ := Prod.mk.inj (Except.ok.inj hm)
          have hc : (Char.ofNat (0x10000 + (n - 0xD800) * 0x400 + (m - 0xDC00))).toNat =
              0x10000 + (n - 0xD800) * 0x400 + (m - 0xDC00) :=
            toNat_ofNat_of_isValidChar (Or.inr ⟨by omega, by omega⟩)
          refine ⟨[d₁, d₂, d₃, d₄, '\\', 'u', e₁, e₂, e₃, e₄], rfl, fun hspells => ?_⟩
          refine .pair ?_ ?_ ?_ hspells
          · rw [hc]
            omega
          · rw [hvalue, hc, Option.some.injEq]
            omega
          · rw [hvalue', hc, Option.some.injEq]
            omega
        · cases hm
      · cases hn
      · cases hn
      · cases hn
    · rename_i hleading
      simp only [isLeading, Bool.and_eq_true, decide_eq_true_eq] at hleading
      obtain ⟨rfl, rfl⟩ := Prod.mk.inj (Except.ok.inj hn)
      refine ⟨[d₁, d₂, d₃, d₄], rfl, fun hspells => .digits ?_ hspells⟩
      have hvalid : n.isValidChar := by
        unfold Nat.isValidChar
        omega
      rw [hvalue, toNat_ofNat_of_isValidChar hvalid]

/-- What is read as a character spells it. -/
theorem exists_spelling_of_character {c : Char} (hs : ∀ cs, s ≠ '"' :: cs)
    (h : character s = .ok (c, rest)) :
    ∃ p, s = p ++ rest ∧ ∀ {cs t}, Spells cs t → Spells (c :: cs) (p ++ t) := by
  unfold character at h
  split at h
  · cases h
  · cases h
  · rename_i digits
    obtain ⟨p, rfl, hp⟩ := exists_spelling_of_hexEscape h
    exact ⟨'\\' :: 'u' :: p, rfl, hp⟩
  · rename_i l cs _
    split at h
    · rename_i d hd
      obtain ⟨rfl, rfl⟩ := Prod.mk.inj (Except.ok.inj h)
      exact ⟨['\\', l], rfl, .letter hd⟩
    · cases h
  · rename_i d cs hend hu hother
    split at h
    · cases h
    · rename_i hd
      obtain ⟨rfl, rfl⟩ := Prod.mk.inj (Except.ok.inj h)
      have hbackslash : d ≠ '\\' := by
        rintro rfl
        cases cs with
        | nil => exact hend rfl rfl
        | cons l cs => exact hother l cs rfl rfl
      exact ⟨[d], rfl, .plain (Nat.not_lt.1 hd) (fun hquote => hs cs (hquote ▸ rfl)) hbackslash⟩

/-- **What is read as a text spells it.** -/
theorem exists_spelling_of_charactersUpTo {cs : List Char}
    (h : charactersUpTo count s = .ok (cs, left)) :
    ∃ t, s = t ++ '"' :: left ∧ Spells cs t := by
  induction count generalizing s cs with
  | zero => cases h
  | succ count ih =>
      by_cases hs : ∃ rest, s = '"' :: rest
      · obtain ⟨rest, rfl⟩ := hs
        obtain ⟨rfl, rfl⟩ := Prod.mk.inj (Except.ok.inj h)
        exact ⟨[], rfl, .nil⟩
      · have hs : ∀ rest, s ≠ '"' :: rest := fun rest hrest => hs ⟨rest, hrest⟩
        rw [charactersUpTo] at h
        · obtain ⟨⟨c, rest⟩, hc, hrest⟩ := exists_of_bind_eq_ok h
          obtain ⟨⟨cs', left'⟩, hcs, hleft⟩ := exists_of_bind_eq_ok hrest
          obtain ⟨rfl, rfl⟩ := Prod.mk.inj (Except.ok.inj hleft)
          obtain ⟨p, rfl, hp⟩ := exists_spelling_of_character hs hc
          obtain ⟨t, rfl, ht⟩ := ih hcs
          exact ⟨p ++ t, (List.append_assoc ..).symm, hp ht⟩
        · exact hs

/-- **A key spells its text**, if it is read as one. -/
theorem exists_spelling_of_key {k : List Char} (h : key s = .ok (k, left)) :
    ∃ t, s = t ++ left ∧ StringText k t := by
  unfold key at h
  split at h
  · obtain ⟨t, rfl, ht⟩ := exists_spelling_of_charactersUpTo h
    exact ⟨_, by simp, t, ht, rfl⟩
  · cases h

end Spelling

end Json
end SignatureAutomata
