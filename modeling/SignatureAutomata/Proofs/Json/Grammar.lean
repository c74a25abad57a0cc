import Mathlib.Data.List.Forall2
import SignatureAutomata.Json.Written

/-! # The grammar of JSON

Which texts are JSON is told here without a reader.  Space may stand around every value and every
key, and inside empty brackets (`Padded`, `Bracketed`).  A text may be spelled in many ways, since
any of its characters may be written as an escape (`Spells`).

`IsValue` says that a text is a value of any kind.  There the four digits of an escape may be any,
also those of half a pair, which spell no text.  An object is told by its members in order, each by
its name, which is the text that its key spells, and by its value as it is written (`ObjectText`);
whether names repeat does not matter to the grammar.  An object with a key that spells no text has
no such list of members.  Every object has a list of members of which some may be without a name
(`isObject_iff_exists_anyObjectText`).
-/

namespace SignatureAutomata
namespace Json

/-! ### Space and brackets -/

/-- Nothing but space. -/
def Blank (w : List Char) : Prop := ∀ c ∈ w, isSpace c = true

/-- **A text with space around it.** -/
inductive Padded (P : List Char → Prop) : List Char → Prop where
  | intro {w s w' : List Char} : Blank w → P s → Blank w' → Padded P (w ++ (s ++ w'))

/-- **Items between brackets**, with commas between them. -/
inductive Bracketed (opening closing : Char) : List (List Char) → List Char → Prop where
  | blank {w : List Char} : Blank w → Bracketed opening closing [] (opening :: (w ++ [closing]))
  | items (ts : List (List Char)) :
      Bracketed opening closing ts (opening :: (List.intercalate [','] ts ++ [closing]))

/-- A key and a value, with a colon between them. -/
def KeyValue (K V : List Char → Prop) (t : List Char) : Prop :=
  ∃ key value, Padded K key ∧ Padded V value ∧ t = key ++ ':' :: value

/-! ### Texts between quotes -/

/-- **A text and how it is spelled between quotes.**  Beyond the first 65536 characters an escape
takes two groups of digits. -/
inductive Spells : List Char → List Char → Prop where
  | nil : Spells [] []
  | plain {c : Char} {s t : List Char} : 0x20 ≤ c.toNat → c ≠ '"' → c ≠ '\\' → Spells s t →
      Spells (c :: s) (c :: t)
  | letter {l c : Char} {s t : List Char} : simpleEscape? l = some c → Spells s t →
      Spells (c :: s) ('\\' :: l :: t)
  | digits {c d₁ d₂ d₃ d₄ : Char} {s t : List Char} :
      fourHex? d₁ d₂ d₃ d₄ = some c.toNat → Spells s t →
      Spells (c :: s) ('\\' :: 'u' :: d₁ :: d₂ :: d₃ :: d₄ :: t)
  | pair {c d₁ d₂ d₃ d₄ e₁ e₂ e₃ e₄ : Char} {s t : List Char} : 0x10000 ≤ c.toNat →
      fourHex? d₁ d₂ d₃ d₄ = some (0xD800 + (c.toNat - 0x10000) / 0x400) →
      fourHex? e₁ e₂ e₃ e₄ = some (0xDC00 + (c.toNat - 0x10000) % 0x400) → Spells s t →
      Spells (c :: s)
        ('\\' :: 'u' :: d₁ :: d₂ :: d₃ :: d₄ :: '\\' :: 'u' :: e₁ :: e₂ :: e₃ :: e₄ :: t)

/-- A text in quotes. -/
def StringText (s t : List Char) : Prop := ∃ body, Spells s body ∧ t = '"' :: (body ++ ['"'])

/-- What may stand between quotes, whether it spells a text or not. -/
inductive IsSpelling : List Char → Prop where
  | nil : IsSpelling []
  | plain {c : Char} {t : List Char} : 0x20 ≤ c.toNat → c ≠ '"' → c ≠ '\\' → IsSpelling t →
      IsSpelling (c :: t)
  | letter {l c : Char} {t : List Char} : simpleEscape? l = some c → IsSpelling t →
      IsSpelling ('\\' :: l :: t)
  | digits {n : Nat} {d₁ d₂ d₃ d₄ : Char} {t : List Char} :
      fourHex? d₁ d₂ d₃ d₄ = some n → IsSpelling t →
      IsSpelling ('\\' :: 'u' :: d₁ :: d₂ :: d₃ :: d₄ :: t)

/-- A string, whether it spells a text or not. -/
def IsString (t : List Char) : Prop := ∃ body, IsSpelling body ∧ t = '"' :: (body ++ ['"'])

/-! ### Numbers -/

/-- One digit or more. -/
def IsDigits (t : List Char) : Prop := t ≠ [] ∧ ∀ c ∈ t, c.isDigit = true

/-- The integer part of a number: a zero in front of other digits is not allowed. -/
def IsWhole (t : List Char) : Prop := IsDigits t ∧ (t.head? = some '0' → t = ['0'])

/-- The digits behind the point, if there are any. -/
def IsFraction (t : List Char) : Prop := t = [] ∨ ∃ ds, IsDigits ds ∧ t = '.' :: ds

/-- An exponent, if there is one. -/
def IsExponent (t : List Char) : Prop :=
  t = [] ∨ ∃ letter sign ds, (letter = 'e' ∨ letter = 'E') ∧
    (sign = [] ∨ sign = ['+'] ∨ sign = ['-']) ∧ IsDigits ds ∧ t = letter :: (sign ++ ds)

/-- A number without its sign. -/
def IsUnsigned (t : List Char) : Prop :=
  ∃ whole fraction exponent, IsWhole whole ∧ IsFraction fraction ∧ IsExponent exponent ∧
    t = whole ++ (fraction ++ exponent)

/-- **A number.** -/
def IsNumber (t : List Char) : Prop := IsUnsigned t ∨ ∃ u, IsUnsigned u ∧ t = '-' :: u

/-! ### Values -/

/-- A value with no others inside. -/
def IsScalar (t : List Char) : Prop :=
  t = ['n', 'u', 'l', 'l'] ∨ t = ['t', 'r', 'u', 'e'] ∨ t = ['f', 'a', 'l', 's', 'e'] ∨
    IsNumber t ∨ IsString t

/-- A value with no more than `depth` values inside each other. -/
def IsNested : (depth : Nat) → List Char → Prop
  | 0, _ => False
  | depth + 1, t => IsScalar t ∨
      (∃ ts, Bracketed '[' ']' ts t ∧ ∀ e ∈ ts, Padded (IsNested depth) e) ∨
      ∃ ts, Bracketed '\x7b' '\x7d' ts t ∧ ∀ e ∈ ts, KeyValue IsString (IsNested depth) e

/-- **A value of any kind.** -/
def IsValue (t : List Char) : Prop := ∃ depth, IsNested depth t

/-- An object of any members. -/
def IsObject (t : List Char) : Prop :=
  ∃ ts, Bracketed '\x7b' '\x7d' ts t ∧ ∀ e ∈ ts, KeyValue IsString IsValue e

/-- **A list as an array**, each element being written as `P` says. -/
def ListText {β : Type} (P : β → List Char → Prop) (xs : List β) (t : List Char) : Prop :=
  ∃ ts, List.Forall₂ (fun e x => Padded (P x) e) ts xs ∧ Bracketed '[' ']' ts t

/-- **A member of an object**: the text that its key spells, and its value as it is written. -/
structure Member where
  name : List Char
  value : List Char
  isValue : IsValue value

/-- How a member is written. -/
def Member.Text (x : Member) : List Char → Prop := KeyValue (StringText x.name) (· = x.value)

/-- **An object of given members**, in this order. -/
def ObjectText (members : List Member) (t : List Char) : Prop :=
  ∃ ts, List.Forall₂ (fun e x => Member.Text x e) ts members ∧ Bracketed '\x7b' '\x7d' ts t

/-- What a key names: the text that it spells, if it spells one. -/
def Names : Option (List Char) → List Char → Prop
  | some name, t => StringText name t
  | none, t => IsString t ∧ ∀ name, ¬ StringText name t

/-- **A member of an object, as the grammar has it**: its key may be one that spells no text. -/
structure AnyMember where
  name? : Option (List Char)
  value : List Char
  isValue : IsValue value

/-- How a member of any key is written. -/
def AnyMember.Text (x : AnyMember) : List Char → Prop := KeyValue (Names x.name?) (· = x.value)

/-- **An object of given members of any keys**, in this order. -/
def AnyObjectText (members : List AnyMember) (t : List Char) : Prop :=
  ∃ ts, List.Forall₂ (fun e x => AnyMember.Text x e) ts members ∧ Bracketed '\x7b' '\x7d' ts t

/-! ### Numbers and symbols -/

/-- **A natural number**, in decimal digits. -/
def NaturalText (n : Nat) (t : List Char) : Prop := t = Decimal.digits n

/-- **A symbol of a type**: an integer in decimal digits, or a text however it is spelled. -/
def SymbolText : (τ : SymbolType) → τ.Symbol → List Char → Prop
  | .integer _, v, t => t = Decimal.ofInt v.val
  | .text, v, t => StringText v.toList t

/-! ### Lemmas -/

theorem blank_nil : Blank [] := List.forall_mem_nil _

theorem blank_space : Blank [' '] := List.forall_mem_singleton.2 rfl

theorem Padded.bare {P : List Char → Prop} {t : List Char} (h : P t) : Padded P t := by
  have hpadded := Padded.intro blank_nil h blank_nil
  rwa [List.nil_append, List.append_nil] at hpadded

theorem Padded.imp {P Q : List Char → Prop} {t : List Char} (h : Padded P t)
    (hPQ : ∀ s, P s → Q s) : Padded Q t := by
  cases h with
  | intro hw hs hw' => exact .intro hw (hPQ _ hs) hw'

theorem KeyValue.imp {K K' V V' : List Char → Prop} {t : List Char} (h : KeyValue K V t)
    (hK : ∀ s, K s → K' s) (hV : ∀ s, V s → V' s) : KeyValue K' V' t := by
  obtain ⟨key, value, hkey, hvalue, ht⟩ := h
  exact ⟨key, value, hkey.imp hK, hvalue.imp hV, ht⟩

theorem IsNested.mono {depth depth' : Nat} {t : List Char} (h : IsNested depth t)
    (hdepth : depth ≤ depth') : IsNested depth' t := by
  induction depth generalizing depth' t with
  | zero => exact h.elim
  | succ depth ih =>
      cases depth' with
      | zero => cases hdepth
      | succ depth' =>
          have hinside : ∀ s, IsNested depth s → IsNested depth' s :=
            fun s hs => ih hs (Nat.le_of_succ_le_succ hdepth)
          rcases h with h | ⟨ts, hbrackets, h⟩ | ⟨ts, hbrackets, h⟩
          · exact .inl h
          · exact .inr (.inl ⟨ts, hbrackets, fun e he => (h e he).imp hinside⟩)
          · exact .inr (.inr ⟨ts, hbrackets, fun e he => (h e he).imp (fun _ hs => hs) hinside⟩)

/-- Values that stand together are nested within a depth that does for all. -/
theorem exists_isNested {ts : List (List Char)} (h : ∀ e ∈ ts, Padded IsValue e) :
    ∃ depth, ∀ e ∈ ts, Padded (IsNested depth) e := by
  induction ts with
  | nil => exact ⟨0, List.forall_mem_nil _⟩
  | cons e ts ih =>
      obtain ⟨hfirst, hlater⟩ := List.forall_mem_cons.1 h
      obtain ⟨depth, hdepth⟩ := ih hlater
      cases hfirst with
      | intro hw hs hw' =>
          obtain ⟨depth', hs⟩ := hs
          refine ⟨max depth depth', List.forall_mem_cons.2 ⟨?_, fun e he => ?_⟩⟩
          · exact .intro hw (hs.mono (Nat.le_max_right ..)) hw'
          · exact (hdepth e he).imp fun s hs => hs.mono (Nat.le_max_left ..)

/-- A list of values is a value. -/
theorem ListText.isValue {β : Type} {P : β → List Char → Prop} {xs : List β} {t : List Char}
    (h : ListText P xs t) (hP : ∀ x s, P x s → IsValue s) : IsValue t := by
  obtain ⟨ts, hts, hbrackets⟩ := h
  have hvalues := hts.imp fun e x hx => And.intro (hx.imp (hP x)) hx
  obtain ⟨depth, hdepth⟩ := exists_isNested ((List.forall₂_and_left ts xs).1 hvalues).1
  exact ⟨depth + 1, .inr (.inl ⟨ts, hbrackets, hdepth⟩)⟩

theorem Spells.isSpelling {s t : List Char} (h : Spells s t) : IsSpelling t := by
  induction h with
  | nil => exact .nil
  | plain hc hquote hbackslash _ ih => exact .plain hc hquote hbackslash ih
  | letter hl _ ih => exact .letter hl ih
  | digits hd _ ih => exact .digits hd ih
  | pair _ hd he _ ih => exact .digits hd (.digits he ih)

theorem StringText.isString {s t : List Char} (h : StringText s t) : IsString t := by
  obtain ⟨body, hbody, ht⟩ := h
  exact ⟨body, hbody.isSpelling, ht⟩

theorem IsScalar.isValue {t : List Char} (h : IsScalar t) : IsValue t := ⟨1, .inl h⟩

theorem StringText.isValue {s t : List Char} (h : StringText s t) : IsValue t :=
  IsScalar.isValue (.inr (.inr (.inr (.inr h.isString))))

theorem isUnsigned_digits (n : Nat) : IsUnsigned (Decimal.digits n) := by
  refine ⟨Decimal.digits n, [], [], ⟨⟨Decimal.digits_ne_nil n, fun c hc =>
    Decimal.isDigit_of_mem_digits hc⟩, fun hzero => ?_⟩, .inl rfl, .inl rfl, by simp⟩
  obtain ⟨c, cs, h, -⟩ := Decimal.exists_digits_eq_cons n
  rw [h] at hzero ⊢
  obtain rfl := Option.some.inj hzero
  rw [(Decimal.digits_eq_cons_zero h).2]

theorem NaturalText.isValue {n : Nat} {t : List Char} (h : NaturalText n t) : IsValue t := by
  subst h
  exact IsScalar.isValue (.inr (.inr (.inr (.inl (.inl (isUnsigned_digits n))))))

theorem SymbolText.isValue {τ : SymbolType} {v : τ.Symbol} {t : List Char}
    (h : SymbolText τ v t) : IsValue t := by
  cases τ with
  | integer type =>
      have hnumber : IsNumber (Decimal.ofInt v.val) := by
        unfold Decimal.ofInt
        split
        · exact .inr ⟨_, isUnsigned_digits _, rfl⟩
        · exact .inl (isUnsigned_digits _)
      obtain rfl : t = Decimal.ofInt v.val := h
      exact IsScalar.isValue (.inr (.inr (.inr (.inl hnumber))))
  | text => exact StringText.isValue h

/-- **What is written for a text spells it.** -/
theorem spells_flatMap_escape (s : List Char) : Spells s (s.flatMap escape) := by
  induction s with
  | nil => exact .nil
  | cons c s ih =>
      rw [List.flatMap_cons]
      unfold escape
      by_cases hquote : c = '"'
      · subst hquote
        exact .letter rfl ih
      by_cases hbackslash : c = '\\'
      · subst hbackslash
        exact .letter rfl ih
      by_cases hb : c = '\x08'
      · subst hb
        exact .letter rfl ih
      by_cases hf : c = '\x0c'
      · subst hf
        exact .letter rfl ih
      by_cases hn : c = '\n'
      · subst hn
        exact .letter rfl ih
      by_cases hr : c = '\r'
      · subst hr
        exact .letter rfl ih
      by_cases ht : c = '\t'
      · subst ht
        exact .letter rfl ih
      simp only [hquote, hbackslash, hb, hf, hn, hr, ht, if_false]
      by_cases hlt : c.toNat < 0x20
      · rw [if_pos hlt]
        refine .digits ?_ ih
        have hhigh := hexValue?_digitChar (n := c.toNat / 16) (by omega)
        have hlow := hexValue?_digitChar (n := c.toNat % 16) (by omega)
        have hzero : hexValue? '0' = some 0 := rfl
        simp only [fourHex?, hhigh, hlow, hzero, bind, Option.bind_some, Option.some.injEq]
        omega
      · rw [if_neg hlt]
        exact .plain (Nat.not_lt.1 hlt) hquote hbackslash ih

theorem stringText_quote (s : List Char) : StringText s (quote s) :=
  ⟨_, spells_flatMap_escape s, rfl⟩

theorem symbolText_text (τ : SymbolType) (v : τ.Symbol) : SymbolText τ v (symbolText τ v) := by
  cases τ with
  | integer type => rfl
  | text => exact stringText_quote v.toList

/-! ### Members of any keys -/

theorem IsString.exists_names {t : List Char} (h : IsString t) : ∃ name?, Names name? t := by
  by_cases hspelled : ∃ name, StringText name t
  · obtain ⟨name, hname⟩ := hspelled
    exact ⟨some name, hname⟩
  · exact ⟨none, h, fun name hname => hspelled ⟨name, hname⟩⟩

theorem Names.isString {name? : Option (List Char)} {t : List Char} (h : Names name? t) :
    IsString t := by
  cases name? with
  | some name => exact StringText.isString h
  | none => exact h.1

theorem AnyMember.Text.isMember {x : AnyMember} {t : List Char} (h : x.Text t) :
    KeyValue IsString IsValue t :=
  KeyValue.imp h (fun _ hs => hs.isString) fun s (hs : s = x.value) => hs ▸ x.isValue

theorem exists_anyMember {t : List Char} (h : KeyValue IsString IsValue t) :
    ∃ x : AnyMember, x.Text t := by
  obtain ⟨key, value, hkey, hvalue, rfl⟩ := h
  cases hkey with
  | intro hw hs hw' =>
      cases hvalue with
      | intro hv hvalue hv' =>
          obtain ⟨name?, hname⟩ := hs.exists_names
          exact ⟨⟨name?, _, hvalue⟩, _, _, .intro hw hname hw', .intro hv rfl hv', rfl⟩

/-- **Every object has a list of members**, some of which may be without a name. -/
theorem isObject_iff_exists_anyObjectText {t : List Char} :
    IsObject t ↔ ∃ members, AnyObjectText members t := by
  constructor
  · rintro ⟨ts, hbrackets, hts⟩
    suffices hmembers : ∃ members : List AnyMember,
        List.Forall₂ (fun e x => AnyMember.Text x e) ts members by
      obtain ⟨members, hmembers⟩ := hmembers
      exact ⟨members, ts, hmembers, hbrackets⟩
    clear hbrackets
    induction ts with
    | nil => exact ⟨[], .nil⟩
    | cons e ts ih =>
        obtain ⟨he, hts⟩ := List.forall_mem_cons.1 hts
        obtain ⟨x, hx⟩ := exists_anyMember he
        obtain ⟨members, hmembers⟩ := ih hts
        exact ⟨x :: members, .cons hx hmembers⟩
  · rintro ⟨members, ts, hmembers, hbrackets⟩
    refine ⟨ts, hbrackets, ?_⟩
    have hboth := hmembers.imp fun e x hx => And.intro (AnyMember.Text.isMember hx) hx
    exact ((List.forall₂_and_left ts members).1 hboth).1

/-- A member whose key spells its name. -/
def Member.any (x : Member) : AnyMember := ⟨some x.name, x.value, x.isValue⟩

/-- **An object whose keys all spell names is an object of named members.** -/
theorem AnyObjectText.exists_objectText {members : List AnyMember} {t : List Char}
    (h : AnyObjectText members t) (hnames : ∀ x ∈ members, x.name?.isSome = true) :
    ∃ xs : List Member, xs.map Member.any = members ∧ ObjectText xs t := by
  obtain ⟨ts, hmembers, hbrackets⟩ := h
  suffices hnamed : ∃ xs : List Member, xs.map Member.any = members ∧
      List.Forall₂ (fun e x => Member.Text x e) ts xs by
    obtain ⟨xs, hxs, htexts⟩ := hnamed
    exact ⟨xs, hxs, ts, htexts, hbrackets⟩
  clear hbrackets
  induction hmembers with
  | nil => exact ⟨[], rfl, .nil⟩
  | @cons e x ts members hx _ ih =>
      obtain ⟨hname, hnames⟩ := List.forall_mem_cons.1 hnames
      obtain ⟨xs, rfl, htexts⟩ := ih hnames
      obtain ⟨_ | name, value, hvalue⟩ := x
      · cases hname
      · exact ⟨⟨name, value, hvalue⟩ :: xs, rfl, .cons hx htexts⟩

/-- Space around an object makes no difference to its members. -/
theorem Padded.exists_anyObjectText {t : List Char} (h : Padded IsObject t) :
    ∃ members, Padded (AnyObjectText members) t := by
  cases h with
  | intro hw hs hw' =>
      obtain ⟨members, hmembers⟩ := isObject_iff_exists_anyObjectText.1 hs
      exact ⟨members, .intro hw hmembers hw'⟩

theorem Padded.exists_objectText {members : List AnyMember} {t : List Char}
    (h : Padded (AnyObjectText members) t) (hnames : ∀ x ∈ members, x.name?.isSome = true) :
    ∃ xs : List Member, xs.map Member.any = members ∧ Padded (ObjectText xs) t := by
  cases h with
  | intro hw hs hw' =>
      obtain ⟨xs, hxs, hobject⟩ := hs.exists_objectText hnames
      exact ⟨xs, hxs, .intro hw hobject hw'⟩

theorem ObjectText.any {xs : List Member} {t : List Char} (h : ObjectText xs t) :
    AnyObjectText (xs.map Member.any) t := by
  obtain ⟨ts, hxs, hbrackets⟩ := h
  exact ⟨ts, List.forall₂_map_right_iff.2 hxs, hbrackets⟩

/-- How a member is written without any space. -/
def Member.written (x : Member) : List Char := quote x.name ++ ':' :: x.value

theorem Member.text_written (x : Member) : x.Text x.written :=
  ⟨_, _, .bare (stringText_quote x.name), .bare rfl, rfl⟩

/-- **An object is written from its members.** -/
theorem objectText_written (xs : List Member) :
    ObjectText xs (objectText (xs.map Member.written)) :=
  ⟨_, List.forall₂_map_left_iff.2 (List.forall₂_same.2 fun x _ => x.text_written), .items _⟩

end Json
end SignatureAutomata
