import SignatureAutomata.Loading
import SignatureAutomata.Proofs.Json.Members

/-! # Options are read over their defaults

Options are an object of any of their fields, each at most once.  Each value that is given
replaces that of its field (`Setting.apply`), in whatever order the fields stand, and a field that
is not given keeps its default.  The induction is on the fields that are given; what is read so
far are the fields that came up and the options that they make (`members_settings`).

Any other key is refused, and so is a field that came up before (`nodup_of_steps`).

Only what is read as options has its names checked, so what is refused as an object is refused
whatever its names are.
-/

namespace SignatureAutomata
namespace Matlab

/-! ### Names -/

/-- A letter of ASCII. -/
def IsLetter (c : Char) : Prop := ('A' ≤ c ∧ c ≤ 'Z') ∨ ('a' ≤ c ∧ c ≤ 'z')

/-- **A name that can be used**: a letter, then letters, digits and underscores, at most 63
characters in all. -/
def IsName (name : String) : Prop :=
  ∃ c cs, name.toList = c :: cs ∧ IsLetter c ∧
    (∀ d ∈ cs, IsLetter d ∨ ('0' ≤ d ∧ d ≤ '9') ∨ d = '_') ∧ name.length ≤ 63

theorem isAlpha_iff {c : Char} : c.isAlpha = true ↔ IsLetter c := by
  have hupper : c.isUpper = true ↔ 'A' ≤ c ∧ c ≤ 'Z' := decide_eq_true_iff
  have hlower : c.isLower = true ↔ 'a' ≤ c ∧ c ≤ 'z' :=
    Bool.and_eq_true_iff.trans (and_congr decide_eq_true_iff decide_eq_true_iff)
  exact Bool.or_eq_true_iff.trans (or_congr hupper hlower)

theorem isDigit_iff {c : Char} : c.isDigit = true ↔ '0' ≤ c ∧ c ≤ '9' :=
  Bool.and_eq_true_iff.trans (and_congr decide_eq_true_iff decide_eq_true_iff)

/-- **The test of a name decides whether it can be used.** -/
theorem isIdentifier_iff {name : String} : isIdentifier name = true ↔ IsName name := by
  unfold isIdentifier IsName
  rw [← String.length_toList]
  cases name.toList with
  | nil => exact ⟨nofun, nofun⟩
  | cons c cs =>
      simp only [Char.isAlphanum, Bool.and_eq_true, Bool.or_eq_true, List.all_eq_true,
        decide_eq_true_eq, isAlpha_iff, isDigit_iff, or_assoc]
      constructor
      · rintro ⟨⟨hc, hcs⟩, hlength⟩
        exact ⟨c, cs, rfl, hc, hcs, hlength⟩
      · rintro ⟨c', cs', h, hc, hcs, hlength⟩
        obtain ⟨rfl, rfl⟩ := List.cons.inj h
        exact ⟨⟨hc, hcs⟩, hlength⟩

instance (name : String) : Decidable (IsName name) :=
  decidable_of_iff (isIdentifier name = true) isIdentifier_iff

namespace Options

/-- **Options whose names can be used**, and are told apart. -/
def Usable (o : Options) : Prop :=
  IsName o.functionName ∧ IsName o.classifierName ∧ o.functionName ≠ o.classifierName

instance (o : Options) : Decidable o.Usable :=
  inferInstanceAs (Decidable (_ ∧ _ ∧ _))

theorem usable_iff {o : Options} : o.Usable ↔ o.invalidName? = none := by
  rw [invalidName?_eq_none_iff, isIdentifier_iff, isIdentifier_iff]
  rfl

/-- The name of the function is looked at first. -/
theorem invalidName?_of_not_isName {o : Options} (h : ¬ IsName o.functionName) :
    o.invalidName? = some ⟨o.functionName⟩ := by
  rw [invalidName?, if_neg (fun hname => h (isIdentifier_iff.1 hname))]

/-- Where the name of the function can be used, that of the classifier is what is wrong. -/
theorem invalidName?_of_isName {o : Options} (h : IsName o.functionName) (husable : ¬ o.Usable) :
    o.invalidName? = some ⟨o.classifierName⟩ := by
  rw [invalidName?, if_pos (isIdentifier_iff.2 h), if_neg]
  exact fun ⟨hclassifier, hne⟩ => husable ⟨h, isIdentifier_iff.1 hclassifier, hne⟩

/-! ### Loading -/

section Loading
variable {text : String} {o : Options}

/-- A text that cannot be read is refused as JSON. -/
theorem load_of_error {e : Json.Failure} (h : Json.document read text = .error e) :
    load text = .error (.json e) := by
  unfold load
  rw [h]
  rfl

/-- Options that can be read are refused for the first name that cannot be used. -/
theorem load_of_ok (h : Json.document read text = .ok o) :
    load text =
      match o.invalidName? with
      | some e => .error (.name e)
      | none => .ok o := by
  unfold load
  rw [h]
  show (o.validate.mapError Error.name).bind (fun _ => .ok o) = _
  unfold validate
  cases o.invalidName? <;> rfl

end Loading

/-! ### Settings -/

/-- **A field that is given**, with its value. -/
inductive Setting where
  | functionName (value : String)
  | classifierName (value : String)
  | indent (value : IntegerType.size.Value)

namespace Setting

/-- The field that is given. -/
def field : Setting → Field
  | .functionName _ => .functionName
  | .classifierName _ => .classifierName
  | .indent _ => .indent

/-- **The value replaces that of its field.** -/
def apply (o : Options) : Setting → Options
  | .functionName value => { o with functionName := value }
  | .classifierName value => { o with classifierName := value }
  | .indent value => { o with indent := value.val.toNat }

/-- How the value is written. -/
def ValueText : Setting → List Char → Prop
  | .functionName value => Json.StringText value.toList
  | .classifierName value => Json.StringText value.toList
  | .indent value => Json.SymbolText (.integer .size) value

/-- **The member of an object that gives the field.** -/
def IsMember (s : Setting) (x : Json.Member) : Prop :=
  x.name = s.field.name.toList ∧ s.ValueText x.value

end Setting

/-! ### Reading the fields in any order -/

namespace Field

theorem ofName?_eq_some_iff {name : String} {f : Field} :
    ofName? name = some f ↔ name = f.name := by
  constructor
  · intro h
    have hname := List.find?_some h
    exact (beq_iff_eq.1 hname).symm
  · rintro rfl
    exact ofName?_name f

theorem name_toList_inj {f g : Field} (h : f.name.toList = g.name.toList) : f = g := by
  have hname := String.toList_inj.1 h
  have hof := ofName?_name f
  rw [hname, ofName?_name] at hof
  exact (Option.some.inj hof).symm

end Field

theorem skipsSpace_readName : Json.SkipsSpace Field.readName :=
  Json.SkipsSpace.map (Json.skipsSpace_opened _ _ _) String.ofList

theorem item_readName {name : String} {t : List Char} (h : Json.StringText name.toList t) :
    Json.Item Field.readName t name := by
  have hitem := (Json.item_stringText .string h).map String.ofList
  rw [String.ofList_toList] at hitem
  exact hitem

/-- **The value of a field is read and replaces its default.** -/
theorem reads_setting (s : Setting) (o : Options) {t : List Char} (h : Json.Padded s.ValueText t) :
    Json.Reads (s.field.read o) t (s.apply o) := by
  cases s with
  | functionName value =>
      have hitem := h.item fun _ hs _ => item_readName hs
      exact (hitem.reads_of_skipsSpace skipsSpace_readName).map fun x =>
        { o with functionName := x }
  | classifierName value =>
      have hitem := h.item fun _ hs _ => item_readName hs
      exact (hitem.reads_of_skipsSpace skipsSpace_readName).map fun x =>
        { o with classifierName := x }
  | indent value =>
      have hitem : Json.Item (Json.symbol (.integer .size)) t value :=
        h.item fun _ hs _ => Json.item_symbolText hs
      exact ((hitem.reads_of_skipsSpace (Json.skipsSpace_integer .size)).map (·.val.toNat)).map
        fun x => { o with indent := x }

/-- A key that names a field which did not come up asks for its value. -/
theorem readMember_name {f : Field} {given : List Field} {o : Options} (hf : f ∉ given) :
    readMember f.name.toList (given, o) = .ok ((f.read o).map fun o => (f :: given, o)) := by
  unfold readMember
  rw [String.ofList_toList, Field.ofName?_name]
  exact if_neg hf

/-- **Fields are read in any order**, each replacing the value that it has. -/
theorem members_settings {ts : List (List Char)} {xs : List Json.Member} {settings : List Setting}
    (hts : List.Forall₂ (fun t x => Json.Member.Text x t) ts xs)
    (hsettings : List.Forall₂ Setting.IsMember settings xs)
    (hnodup : (settings.map Setting.field).Nodup) (given : List Field) (o : Options)
    (hgiven : ∀ s ∈ settings, s.field ∉ given) :
    ∃ given', Json.Members Json.key readMember (given, o) ts
      (given', settings.foldl Setting.apply o) := by
  induction hts generalizing settings given o with
  | nil =>
      cases hsettings
      exact ⟨given, .nil _⟩
  | @cons t x ts xs hx _ ih =>
      cases hsettings with
      | @cons s _ settings _ hs hsettings =>
          obtain ⟨hname, hvalue⟩ := hs
          obtain ⟨key, text, hkey, htext, rfl⟩ := hx
          obtain ⟨hfield, hnodup⟩ := List.nodup_cons.1 hnodup
          obtain ⟨hfresh, hgiven⟩ := List.forall_mem_cons.1 hgiven
          have hlater : ∀ s' ∈ settings, s'.field ∉ s.field :: given := by
            intro s' hs'
            rw [List.mem_cons, not_or]
            exact ⟨fun h => hfield (h ▸ List.mem_map_of_mem hs'), hgiven s' hs'⟩
          obtain ⟨given', hmembers⟩ := ih hsettings hnodup _ (s.apply o) hlater
          have hreads := reads_setting s o (htext.imp fun _ h => h ▸ hvalue)
          refine ⟨given', .cons (hkey.item fun _ h _ => Json.item_keyText h) ?_
            (hreads.map fun o => (s.field :: given, o)) hmembers⟩
          rw [hname, readMember_name hfresh]

/-- **Options are read from an object of any of their fields**, in any order. -/
theorem document_settings {text : String} {xs : List Json.Member} {settings : List Setting}
    (h : Json.Padded (Json.ObjectText xs) text.toList)
    (hsettings : List.Forall₂ Setting.IsMember settings xs)
    (hnodup : (settings.map Setting.field).Nodup) :
    Json.document read text = .ok (settings.foldl Setting.apply {}) := by
  refine h.document fun t ht => ?_
  obtain ⟨ts, hts, hbrackets⟩ := ht
  obtain ⟨given, hmembers⟩ := members_settings hts hsettings hnodup [] {}
    fun _ _ => List.not_mem_nil
  obtain ⟨body, rfl, hread⟩ := Json.members_bracketed hbrackets hmembers
  refine Json.item_record_object fun rest => ?_
  unfold readMembers Json.Reader.map
  rw [hread]
  rfl

/-! ### Keys that are refused -/

section Refusal
variable {k s left : List Char} {state state' final : List Field × Options}
  {reader : Json.Reader (List Field × Options)}

/-- **A key that is taken names a field which did not come up.** -/
theorem exists_field_of_readMember (h : readMember k state = .ok reader) :
    ∃ f, k = f.name.toList ∧ f ∉ state.1 ∧
      reader = (f.read state.2).map fun o => (f :: state.1, o) := by
  obtain ⟨given, o⟩ := state
  unfold readMember at h
  dsimp only at h
  split at h
  · cases h
  · rename_i f hf
    split at h
    · cases h
    · rename_i hfresh
      refine ⟨f, ?_, hfresh, (Except.ok.inj h).symm⟩
      rw [← Field.ofName?_eq_some_iff.1 hf, String.toList_ofList]

/-- **The keys of an object that is read are names of fields, none of them twice.** -/
theorem nodup_of_steps {ks : List (List Char)} (h : Json.Steps readMember state ks final) :
    ∃ fs : List Field, ks = fs.map (fun f => f.name.toList) ∧ fs.Nodup ∧ ∀ f ∈ fs, f ∉ state.1 := by
  induction h with
  | nil => exact ⟨[], rfl, List.nodup_nil, List.forall_mem_nil _⟩
  | cons hreader hread _ ih =>
      obtain ⟨f, rfl, hf, rfl⟩ := exists_field_of_readMember hreader
      obtain ⟨o, -, rfl⟩ := Json.map_eq_ok hread
      obtain ⟨fs, rfl, hnodup, hfs⟩ := ih
      refine ⟨f :: fs, rfl, List.nodup_cons.2 ⟨fun h => hfs f h List.mem_cons_self, hnodup⟩,
        List.forall_mem_cons.2 ⟨hf, fun g hg hmem => hfs g hg (List.mem_cons_of_mem f hmem)⟩⟩

theorem takesWhole_read (f : Field) (o : Options) : Json.TakesWhole (f.read o) := by
  have hname : Json.Passes Field.readName := (Json.passes_string .string).map String.ofList
  cases f with
  | functionName => exact hname.takesWhole.map fun x => { o with functionName := x }
  | classifierName => exact hname.takesWhole.map fun x => { o with classifierName := x }
  | indent => exact (Json.passes_natural .size).takesWhole.map fun x => { o with indent := x }

theorem takesWhole_readMember (h : readMember k state = .ok reader) : Json.TakesWhole reader := by
  obtain ⟨f, -, -, rfl⟩ := exists_field_of_readMember h
  exact (takesWhole_read f state.2).map fun o => (f :: state.1, o)

/-- **An object that is read as options has fields for its keys, none of them twice.** -/
theorem exists_fields_of_document {text : String} {o : Options}
    (h : Json.Padded Json.IsObject text.toList) (hread : Json.document read text = .ok o) :
    ∃ xs, Json.Padded (Json.ObjectText xs) text.toList ∧
      (∀ x ∈ xs, ∃ f : Field, x.name = f.name.toList) ∧ (xs.map Json.Member.name).Nodup := by
  have hobject : ∀ {s left}, readMembers s = .ok (o, left) →
      ∃ final rest, Json.members Json.key readMember ([], {}) s = .ok (final, rest) ∧
        final.2 = o := by
    intro s left h
    obtain ⟨final, hfinal, ho⟩ := Json.map_eq_ok h
    exact ⟨final, left, hfinal, ho⟩
  obtain ⟨members, hmembers⟩ := h.exists_anyObjectText
  obtain ⟨ks, final, hks, hsteps, -⟩ :=
    Json.exists_steps_of_document (fun _ _ _ => takesWhole_readMember) hmembers hread hobject
  obtain ⟨xs, rfl, hxs⟩ := hmembers.exists_objectText (Json.isSome_of_map_name?_eq hks)
  obtain ⟨fs, hfs, hnodup, -⟩ := nodup_of_steps hsteps
  have hnames := (Json.map_name_of_map_any hks).trans hfs
  refine ⟨xs, hxs, fun x hx => ?_, ?_⟩
  · have hmem := List.mem_map_of_mem (f := Json.Member.name) hx
    rw [hnames] at hmem
    obtain ⟨f, -, hf⟩ := List.mem_map.1 hmem
    exact ⟨f, hf.symm⟩
  · rw [hnames]
    exact List.Pairwise.map _ (fun f g hne hname => hne (Field.name_toList_inj hname)) hnodup

end Refusal

/-! ### Written options -/

/-- How the value of a field is written. -/
def Setting.written : Setting → List Char
  | .functionName value => Json.quote value.toList
  | .classifierName value => Json.quote value.toList
  | .indent value => Decimal.ofInt value.val

theorem Setting.valueText_written (s : Setting) : s.ValueText s.written := by
  cases s with
  | functionName value => exact Json.stringText_quote value.toList
  | classifierName value => exact Json.stringText_quote value.toList
  | indent value => rfl

theorem Setting.ValueText.isValue {s : Setting} {t : List Char} (h : s.ValueText t) :
    Json.IsValue t := by
  cases s with
  | functionName value => exact Json.StringText.isValue h
  | classifierName value => exact Json.StringText.isValue h
  | indent value =>
      have hinteger : Json.SymbolText (.integer .size) value t := h
      exact hinteger.isValue

/-- The member that is written for a field. -/
def Setting.member (s : Setting) : Json.Member :=
  ⟨s.field.name.toList, s.written, s.valueText_written.isValue⟩

theorem Setting.forall₂_member (settings : List Setting) :
    List.Forall₂ Setting.IsMember settings (settings.map Setting.member) :=
  List.forall₂_map_right_iff.2
    (List.forall₂_same.2 fun s _ => ⟨rfl, s.valueText_written⟩)

/-- **What is written for options is read as those options.** -/
theorem document_json (o : Options) (hindent : (o.indent : Int) ≤ IntegerType.size.upper) :
    Json.document read (String.ofList o.json) = .ok o := by
  let settings : List Setting := [.functionName o.functionName, .classifierName o.classifierName,
    .indent ⟨o.indent, Int.natCast_nonneg _, hindent⟩]
  have hdigits : Decimal.ofInt o.indent = Decimal.digits o.indent := by
    rw [Decimal.ofInt, if_neg (Int.not_lt.2 (Int.natCast_nonneg _)), Int.natAbs_natCast]
  have hjson :
      o.json = Json.objectText ((settings.map Setting.member).map Json.Member.written) := by
    simp only [settings, List.map_cons, List.map_nil, Setting.member, Json.Member.written,
      Setting.field, Setting.written, json, Json.memberText, hdigits]
  have hobject : Json.ObjectText (settings.map Setting.member) o.json := by
    rw [hjson]
    exact Json.objectText_written _
  have hnodup : (settings.map Setting.field).Nodup := by
    show [Field.functionName, Field.classifierName, Field.indent].Nodup
    decide
  have htext : Json.Padded (Json.ObjectText (settings.map Setting.member))
      (String.ofList o.json).toList := by
    rw [String.toList_ofList]
    exact .bare hobject
  exact document_settings htext (Setting.forall₂_member settings) hnodup

/-! ### Loading -/

/-- **Options are loaded over their defaults.**  From an object of any of the fields, in any order,
come the defaults with the given values in their places, if both names can be used and differ;
otherwise the name of the function is the error if it cannot be used, and else that of the
classifier.  An object with any other key, or with a field given twice, is always refused as JSON.
What is written for options that have no fault is loaded as it was. -/
theorem load_settings :
    (∀ (settings : List Setting) (xs : List Json.Member) (text : String),
      (settings.map Setting.field).Nodup → List.Forall₂ Setting.IsMember settings xs →
      Json.Padded (Json.ObjectText xs) text.toList →
        let o := settings.foldl Setting.apply {}
        (load text = .ok o ↔ o.Usable) ∧
          (¬ IsName o.functionName → load text = .error (.name ⟨o.functionName⟩)) ∧
          (IsName o.functionName → ¬ o.Usable → load text = .error (.name ⟨o.classifierName⟩))) ∧
    (∀ text : String, Json.Padded Json.IsObject text.toList →
      (¬ ∃ xs, Json.Padded (Json.ObjectText xs) text.toList ∧
        (∀ x ∈ xs, ∃ f : Field, x.name = f.name.toList) ∧ (xs.map Json.Member.name).Nodup) →
          ∃ e, load text = .error (.json e)) ∧
    ∀ o : Options, (o.indent : Int) ≤ IntegerType.size.upper → o.validate = .ok () →
      load (String.ofList o.json) = .ok o := by
  refine ⟨fun settings xs text hnodup hsettings h => ?_, fun text h hfields => ?_,
    fun o hindent hvalid => ?_⟩
  · have hload := load_of_ok (document_settings h hsettings hnodup)
    refine ⟨?_, fun hname => ?_, fun hname husable => ?_⟩
    · rw [hload, usable_iff]
      cases (settings.foldl Setting.apply {}).invalidName? <;> simp
    · rw [hload, invalidName?_of_not_isName hname]
    · rw [hload, invalidName?_of_isName hname husable]
  · cases hread : Json.document read text with
    | error e => exact ⟨e, load_of_error hread⟩
    | ok o => exact absurd (exists_fields_of_document h hread) hfields
  · rw [load_of_ok (document_json o hindent), validate_eq_ok_iff.1 hvalid]

/-- Two of the fields in another order, with space; a name that cannot be used; the default of the
other name given again; a key that names no field; and the defaults as they are written. -/
theorem load_settings_mixed :
    load "\x7b\"indent\" : 2,\"function_name\":\"\\u0066\"\x7d" =
        .ok ⟨"f", "classify_symbol", 2⟩ ∧
      load "\x7b\"function_name\":\"2f\"\x7d" = .error (.name ⟨"2f"⟩) ∧
      load "\x7b\"function_name\":\"classify_symbol\"\x7d" = .error (.name ⟨"classify_symbol"⟩) ∧
      (∃ e, load "\x7b\"colour\":1\x7d" = .error (.json e)) ∧
      load (String.ofList ({} : Options).json) = .ok {} := by
  have htwo : (Setting.indent ⟨2, by decide⟩).ValueText "2".toList := by
    show "2".toList = Decimal.ofInt 2
    rfl
  have hf : (Setting.functionName "f").ValueText "\"\\u0066\"".toList :=
    ⟨_, .digits (c := 'f') rfl .nil, rfl⟩
  have hmixed : Json.ObjectText [⟨Field.indent.name.toList, _, htwo.isValue⟩,
      ⟨Field.functionName.name.toList, _, hf.isValue⟩]
      "\x7b\"indent\" : 2,\"function_name\":\"\\u0066\"\x7d".toList :=
    ⟨_, .cons ⟨_, _, .intro Json.blank_nil (Json.stringText_quote _) Json.blank_space,
      .intro Json.blank_space rfl Json.blank_nil, rfl⟩
      (.cons ⟨_, _, .bare (Json.stringText_quote _), .bare rfl, rfl⟩ .nil), .items _⟩
  have hone : Json.NaturalText 1 "1".toList := rfl
  have hcolour : Json.ObjectText [⟨"colour".toList, _, hone.isValue⟩]
      "\x7b\"colour\":1\x7d".toList := Json.objectText_written _
  refine ⟨?_, ?_, ?_, load_settings.2.1 _ (.bare hcolour.isObject) ?_,
    load_settings.2.2 {} (by decide) (by rfl)⟩
  · exact (load_settings.1 _ _ _ (by decide) (.cons ⟨rfl, htwo⟩ (.cons ⟨rfl, hf⟩ .nil))
      (.bare hmixed)).1.2 (by decide)
  · exact (load_settings.1 [.functionName "2f"] _ _ (by decide) (Setting.forall₂_member _)
      (.bare (Json.objectText_written _))).2.1 (by decide)
  · exact (load_settings.1 [.functionName "classify_symbol"] _ _ (by decide)
      (Setting.forall₂_member _) (.bare (Json.objectText_written _))).2.2 (by decide) (by decide)
  · rintro ⟨xs, hxs, hfields, -⟩
    have hmem : "colour".toList ∈ xs.map Json.Member.name := by
      rw [Json.map_name_eq hxs (.bare hcolour)]
      exact List.mem_cons_self
    obtain ⟨x, hx, hname⟩ := List.mem_map.1 hmem
    obtain ⟨f, hfield⟩ := hfields x hx
    rw [hname] at hfield
    cases f <;> exact absurd hfield (by decide)

end Options
end Matlab
end SignatureAutomata
