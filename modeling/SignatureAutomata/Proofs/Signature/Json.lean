import SignatureAutomata.Proofs.Json.Layout
import SignatureAutomata.Signature.Json

/-! # Signatures are read from each of their forms

A position that is no literal has two forms: the name of its case, and an object with this name
for its key (`Token.Text`).  A literal has the second form only, so its value stands where no name
is looked for, and a text that reads like the name of a case remains a text.

Each form is an item of an array that is read as its position (`Token.item_text`); so a signature
is read from any list of forms of its positions (`Signature.ofJson_listText`), and from the list of
those that are written for it.
-/

namespace SignatureAutomata

/-! ### Cases -/

section Cases
variable {c : TokenCase} {t : List Char}

theorem TokenCase.item_read (h : Json.StringText c.name.toList t) :
    Json.Item TokenCase.read t c := by
  have hkey := Json.item_keyText h
  refine ⟨hkey.begins, fun rest hrest => ?_⟩
  obtain ⟨left, hread, hleft⟩ := hkey.reads rest hrest
  refine ⟨left, ?_, hleft⟩
  simp only [TokenCase.read, hread, bind, Except.bind, String.ofList_toList, ofName?_name]

/-- **An object whose only key is the name of a case**, with a value as `P` says. -/
def TokenCase.Tagged (c : TokenCase) (P : List Char → Prop) (t : List Char) : Prop :=
  ∃ e, Json.KeyValue (Json.StringText c.name.toList) P e ∧ Json.Bracketed '\x7b' '\x7d' [e] t

end Cases

namespace Token
variable {τ : SymbolType} {c : TokenCase} {token : Token τ.Symbol} {t : List Char}

/-- **The forms of a position.** -/
def Text (τ : SymbolType) : Token τ.Symbol → List Char → Prop
  | .literal v, t => TokenCase.literal.Tagged (Json.SymbolText τ v) t
  | .any, t => Json.StringText TokenCase.any.name.toList t ∨
      TokenCase.any.Tagged (· = "null".toList) t
  | .anySequence, t => Json.StringText TokenCase.anySequence.name.toList t ∨
      TokenCase.anySequence.Tagged (· = "null".toList) t

/-- A name alone stands for its case, which has no value. -/
theorem item_name (h : Json.StringText c.name.toList t) (hcase : ofBareCase τ c = .ok token) :
    Json.Item (read τ) t token := by
  obtain ⟨body, hbody, rfl⟩ := h
  refine Json.Reads.item (fun rest hrest => ?_) rfl (by decide) (by decide)
  obtain ⟨left, hread, hleft⟩ := (TokenCase.item_read ⟨body, hbody, rfl⟩).reads rest hrest
  refine ⟨left, ?_, hleft⟩
  have hskip : Json.skipSpace ('"' :: (body ++ ['"']) ++ rest) = '"' :: (body ++ ['"'] ++ rest) :=
    rfl
  have hread : TokenCase.read ('"' :: (body ++ ['"'] ++ rest)) = .ok (c, left) := hread
  unfold read
  rw [hskip]
  dsimp only
  rw [if_neg (by decide), if_pos rfl]
  simp only [hread, bind, Except.bind, hcase]

/-- An object is read from its only member. -/
theorem readObject_eq {name value : List Char} (hname : Json.Item TokenCase.read name c)
    (hvalue : Json.Reads (readValue τ c) value token) (rest : List Char) :
    readObject τ (name ++ ':' :: (value ++ '\x7d' :: rest)) = .ok (token, rest) := by
  obtain ⟨d, cs, hcs, -, -⟩ := Json.exists_skipSpace_eq_cons hname.begins
  obtain ⟨behindName, hread, hcolon⟩ := hname.reads (':' :: (value ++ '\x7d' :: rest)) rfl
  obtain ⟨left, htoken, hleft⟩ := hvalue ('\x7d' :: rest) rfl
  rw [hcs] at hread
  have hskip : Json.skipColon behindName = .ok (value ++ '\x7d' :: rest) := by
    unfold Json.skipColon
    rw [hcolon]
    rfl
  have hclose : Json.skipClosing '\x7d' left = .ok rest := by
    unfold Json.skipClosing
    rw [hleft]
    rfl
  unfold readObject
  rw [Json.skipSpace_append hname.begins, hcs, List.cons_append]
  dsimp only
  rw [← List.cons_append, hread]
  simp only [hskip, htoken, hclose, bind, Except.bind]

/-- A name with a value stands for its case. -/
theorem item_tagged {P : List Char → Prop} (h : c.Tagged P t)
    (hvalue : ∀ s, Json.Padded P s → Json.Reads (readValue τ c) s token) :
    Json.Item (read τ) t token := by
  obtain ⟨_, ⟨name, value, hname, htext, rfl⟩, hbrackets⟩ := h
  have hitem : Json.Item TokenCase.read name c := hname.item fun s hs _ => TokenCase.item_read hs
  cases hbrackets with
  | items =>
      refine Json.Reads.item (fun rest _ => ⟨rest, ?_, rfl⟩) rfl (by decide) (by decide)
      have hobject := readObject_eq hitem (hvalue value htext) rest
      show readObject τ (List.intercalate [','] [name ++ ':' :: value] ++ ['\x7d'] ++ rest) = _
      rw [List.intercalate_singleton, List.append_assoc, List.append_assoc]
      exact hobject

theorem item_null : Json.Item Json.null "null".toList () :=
  Json.Reads.item (fun rest _ => ⟨rest, rfl, rfl⟩) rfl (by decide) (by decide)

theorem reads_null {s : List Char} (h : Json.Padded (· = "null".toList) s) :
    Json.Reads Json.null s () :=
  (h.item fun _ hs _ => hs ▸ item_null).reads_of_skipsSpace (Json.skipsSpace_opened _ _ _)

/-- **Each form of a position is read as that position.** -/
theorem item_text (h : token.Text τ t) : Json.Item (read τ) t token := by
  cases token with
  | literal v =>
      refine item_tagged h fun s hs => ?_
      have hitem : Json.Item (Json.symbol τ) s v := hs.item fun _ hs _ => Json.item_symbolText hs
      exact (hitem.reads_of_skipsSpace (Json.skipsSpace_symbol τ)).map Token.literal
  | any =>
      rcases h with h | h
      · exact item_name h rfl
      · exact item_tagged h fun s hs => (reads_null hs).map fun _ => Token.any
  | anySequence =>
      rcases h with h | h
      · exact item_name h rfl
      · exact item_tagged h fun s hs => (reads_null hs).map fun _ => Token.anySequence

/-! ### Forms without space -/

/-- A case as an object without a value. -/
def nullText (c : TokenCase) : List Char :=
  Json.objectText [Json.memberText c.name "null".toList]

/-- **The forms of a position without space**, the first of which is the one that is written. -/
def forms (τ : SymbolType) : Token τ.Symbol → List (List Char)
  | .literal v => [json τ (.literal v)]
  | .any => [json τ .any, nullText .any]
  | .anySequence => [json τ .anySequence, nullText .anySequence]

theorem tagged_memberText {P : List Char → Prop} {value : List Char} (h : P value) :
    c.Tagged P (Json.objectText [Json.memberText c.name value]) :=
  ⟨_, ⟨_, _, .bare (Json.stringText_quote _), .bare h, rfl⟩, .items _⟩

theorem text_of_mem_forms (h : t ∈ token.forms τ) : token.Text τ t := by
  cases token with
  | literal v =>
      rw [List.mem_singleton.1 h]
      exact tagged_memberText (Json.symbolText_text τ v)
  | any =>
      rcases List.mem_pair.1 h with rfl | rfl
      · exact .inl (Json.stringText_quote _)
      · exact .inr (tagged_memberText rfl)
  | anySequence =>
      rcases List.mem_pair.1 h with rfl | rfl
      · exact .inl (Json.stringText_quote _)
      · exact .inr (tagged_memberText rfl)

theorem json_mem_forms (token : Token τ.Symbol) : token.json τ ∈ token.forms τ := by
  cases token <;> exact List.mem_cons_self

end Token

namespace Signature
variable {τ : SymbolType}

/-- **A signature is read from any forms of its positions**, however they are laid out. -/
theorem ofJson_listText {s : Signature τ.Symbol} {text : String}
    (h : Json.Padded (Json.ListText (Token.Text τ) s.tokens) text.toList) :
    ofJson τ text = .ok s := by
  have hitem := h.item fun _ ht _ =>
    Json.item_listText ht fun _ _ _ htoken => Token.item_text htoken
  have hreads := hitem.reads_of_skipsSpace (Json.skipsSpace_opened _ _ _)
  unfold ofJson
  rw [hreads.document]
  rfl

/-- **A signature reads back.**  So it does with any of its positions in the other of their forms:
the case that stands for any value, or for any number of them, as an object without a value. -/
theorem ofJson_forms (τ : SymbolType) (s : Signature τ.Symbol) :
    ofJson τ (String.ofList (s.json τ)) = .ok s ∧
      ∀ texts, List.Forall₂ (fun text token => text ∈ token.forms τ) texts s.tokens →
        ofJson τ (String.ofList (Json.arrayText texts)) = .ok s := by
  have hforms : ∀ texts, List.Forall₂ (fun text token => text ∈ token.forms τ) texts s.tokens →
      ofJson τ (String.ofList (Json.arrayText texts)) = .ok s := by
    intro texts h
    refine ofJson_listText ?_
    rw [String.toList_ofList]
    exact .bare ⟨texts, h.imp fun _ _ ht => .bare (Token.text_of_mem_forms ht), .items texts⟩
  refine ⟨hforms _ ?_, hforms⟩
  exact List.forall₂_map_left_iff.2 (List.forall₂_same.2 fun token _ => token.json_mem_forms)

/-- A literal that reads like the name of a case, beside this case as an object without a value. -/
theorem ofJson_forms_lookalike :
    let s : Signature SymbolType.text.Symbol := ⟨[.literal "Any", .any, .anySequence]⟩
    ofJson .text (String.ofList (s.json .text)) = .ok s ∧
      ofJson .text "[\x7b\"Literal\":\"Any\"\x7d,\x7b\"Any\":null\x7d,\"AnySequence\"]" =
        .ok s := by
  intro s
  have htext : "[\x7b\"Literal\":\"Any\"\x7d,\x7b\"Any\":null\x7d,\"AnySequence\"]" =
      String.ofList (Json.arrayText [Token.json .text (.literal "Any"), Token.nullText .any,
        Token.json .text .anySequence]) := by
    rw [← String.toList_inj, String.toList_ofList]
    rfl
  rw [htext]
  exact ⟨(ofJson_forms .text s).1, (ofJson_forms .text s).2 _ (.cons (Token.json_mem_forms _)
    (.cons (List.mem_cons_of_mem _ List.mem_cons_self) (.cons (Token.json_mem_forms _) .nil)))⟩

end Signature
end SignatureAutomata
