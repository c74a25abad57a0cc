import SignatureAutomata.Proofs.Matcher.Fields

/-! # Matchers are read however they are laid out

The fields of a matcher may stand in any order, with other members between them, and with any
space.  While an object is read, the fields read so far are those whose names came up
(`Fields.ofNames`), with the values that the matcher gives them (`members_ofNames`).  At the end
all names of fields came up, so the fields are complete and make the matcher (`item_object`).
Without names, the fields are read in the order of an array (`item_arrayText`).

All keys are read as texts, also those of members that are passed over.  So no member's key may be
one that spells no text, such as half a pair of escapes (`not_load_half_pair`).
-/

namespace SignatureAutomata
namespace Matcher

variable {τ : SymbolType}

/-! ### How a matcher is written -/

/-- **How the value of a field is written.** -/
def FieldText (m : Matcher τ.Symbol) : Field → List Char → Prop
  | .symbols => Json.ListText (Json.SymbolText τ) m.symbols
  | .table => Json.ListText (Json.ListText Json.NaturalText) m.table
  | .start => Json.NaturalText m.start
  | .accepting => Json.ListText Json.NaturalText m.accepting

/-- **A matcher as an array** of its fields. -/
def ArrayText (m : Matcher τ.Symbol) (t : List Char) : Prop :=
  ∃ ts, List.Forall₂ (fun e f => Json.Padded (m.FieldText f) e) ts Field.all ∧
    Json.Bracketed '[' ']' ts t

/-- **A matcher among the members of an object**: each field exactly once, with its value, beside
any other members. -/
def IsGivenBy (m : Matcher τ.Symbol) (members : List Json.AnyMember) : Prop :=
  EachFieldOnce members ∧
    ∀ x ∈ members, ∀ f : Field, x.name? = some f.name.toList → m.FieldText f x.value

/-! ### Reading the fields in any order -/

section Reading
variable {m : Matcher τ.Symbol}

theorem item_naturalText {n : Nat} (hn : IsStateNumber n) {t : List Char}
    (h : Json.NaturalText n t) : Json.Item readState t n := by
  obtain rfl : t = Decimal.digits n := h
  exact item_state hn

theorem item_symbols {t : List Char} (h : m.FieldText .symbols t) :
    Json.Item (readSymbols τ) t m.symbols :=
  Json.item_listText h fun _ _ _ hs => Json.item_symbolText hs

theorem item_table (hm : m.HasStateNumbers) {t : List Char} (h : m.FieldText .table t) :
    Json.Item readTable t m.table :=
  Json.item_listText h fun row hrow _ hs =>
    Json.item_listText hs fun target ht _ hs => item_naturalText (hm.target row hrow target ht) hs

theorem item_start (hm : m.HasStateNumbers) {t : List Char} (h : m.FieldText .start t) :
    Json.Item readState t m.start :=
  item_naturalText hm.start h

theorem item_accepting (hm : m.HasStateNumbers) {t : List Char} (h : m.FieldText .accepting t) :
    Json.Item readAccepting t m.accepting :=
  Json.item_listText h fun s hs _ ht => item_naturalText (hm.accepting s hs) ht

/-- A value that is there if its field was named. -/
def ifNamed {β : Type} (names : List (List Char)) (f : Field) (x : β) : Option β :=
  if names.contains f.name.toList then some x else none

section Named
variable {β : Type} {names : List (List Char)} {f : Field} {x : β}

theorem ifNamed_of_mem (h : f.name.toList ∈ names) : ifNamed names f x = some x :=
  if_pos (List.contains_iff_mem.2 h)

theorem ifNamed_of_not_mem (h : f.name.toList ∉ names) : ifNamed names f x = none :=
  if_neg fun hcontains => h (List.contains_iff_mem.1 hcontains)

@[simp] theorem ifNamed_append_self : ifNamed (names ++ [f.name.toList]) f x = some x :=
  ifNamed_of_mem (List.mem_append_right _ List.mem_cons_self)

theorem ifNamed_append_of_ne {k : List Char} (hk : k ≠ f.name.toList) :
    ifNamed (names ++ [k]) f x = ifNamed names f x := by
  by_cases h : f.name.toList ∈ names
  · rw [ifNamed_of_mem h, ifNamed_of_mem (List.mem_append_left _ h)]
  · rw [ifNamed_of_not_mem h, ifNamed_of_not_mem]
    rw [List.mem_append, List.mem_singleton]
    exact fun hor => hor.elim h (Ne.symm hk)

end Named

/-- The fields of a matcher whose names came up. -/
def Fields.ofNames {α : Type} (m : Matcher α) (names : List (List Char)) : Fields α where
  symbols := ifNamed names .symbols m.symbols
  table := ifNamed names .table m.table
  start := ifNamed names .start m.start
  accepting := ifNamed names .accepting m.accepting

/-- One more of the fields of a matcher. -/
def Fields.store {α : Type} (m : Matcher α) (x : Fields α) : Field → Fields α
  | .symbols => { x with symbols := some m.symbols }
  | .table => { x with table := some m.table }
  | .start => { x with start := some m.start }
  | .accepting => { x with accepting := some m.accepting }

/-- The name of a field stores that field, and no other. -/
theorem ofNames_append_name (names : List (List Char)) (f : Field) :
    Fields.ofNames m (names ++ [f.name.toList]) = (Fields.ofNames m names).store m f := by
  cases f <;> simp [Fields.ofNames, Fields.store, ifNamed_append_of_ne, Field.name_toList_inj]

/-- The value of a field that is not there yet is read and stored. -/
theorem exists_once {β σ : Type} {f : Field} {present : Option β} (habsent : present = none)
    {reader : Json.Reader β} {store : β → σ} {x : β} {P : List Char → Prop}
    (hreader : Json.SkipsSpace reader) (hitem : ∀ {s}, P s → Json.Item reader s x) :
    ∃ stored, Fields.once f present reader store = .ok stored ∧
      ∀ t, Json.Padded P t → Json.Reads stored t (store x) := by
  rw [habsent]
  exact ⟨_, rfl,
    fun _ ht => ((ht.item fun _ hs _ => hitem hs).reads_of_skipsSpace hreader).map store⟩

/-- **The name of a field that comes up stores its value.** -/
theorem exists_read (hm : m.HasStateNumbers) {f : Field} {names : List (List Char)}
    (hf : f.name.toList ∉ names) :
    ∃ reader, (Fields.ofNames m names).read τ f = .ok reader ∧
      ∀ t, Json.Padded (m.FieldText f) t →
        Json.Reads reader t (Fields.ofNames m (names ++ [f.name.toList])) := by
  rw [ofNames_append_name]
  cases f with
  | symbols =>
      exact exists_once (ifNamed_of_not_mem hf) (Json.skipsSpace_opened _ _ _) item_symbols
  | table =>
      exact exists_once (ifNamed_of_not_mem hf) (Json.skipsSpace_opened _ _ _) (item_table hm)
  | start =>
      exact exists_once (ifNamed_of_not_mem hf) (Json.skipsSpace_natural _) (item_start hm)
  | accepting =>
      exact exists_once (ifNamed_of_not_mem hf) (Json.skipsSpace_opened _ _ _) (item_accepting hm)

/-- A name that is none of a field's stores nothing. -/
theorem ofNames_append_of_ne {names : List (List Char)} {k : List Char}
    (hk : ∀ f : Field, k ≠ f.name.toList) :
    Fields.ofNames m (names ++ [k]) = Fields.ofNames m names := by
  simp only [Fields.ofNames, ifNamed_append_of_ne (hk _)]

/-- **Members of a matcher are read in any order**: the fields whose names came up hold what the
matcher gives them. -/
theorem members_ofNames (hm : m.HasStateNumbers) {ts : List (List Char)} {xs : List Json.Member}
    (hts : List.Forall₂ (fun t x => Json.Member.Text x t) ts xs)
    (hvalues : ∀ x ∈ xs, ∀ f : Field, x.name = f.name.toList → m.FieldText f x.value)
    (names : List (List Char))
    (honce : ∀ f : Field, (names ++ xs.map Json.Member.name).count f.name.toList ≤ 1) :
    Json.Members Json.key (Fields.readMember τ) (Fields.ofNames m names) ts
      (Fields.ofNames m (names ++ xs.map Json.Member.name)) := by
  induction hts generalizing names with
  | nil =>
      rw [List.map_nil, List.append_nil]
      exact .nil _
  | @cons t x ts xs hx _ ih =>
      obtain ⟨hvalue, hvalues⟩ := List.forall_mem_cons.1 hvalues
      obtain ⟨name, text, hname, htext, rfl⟩ := hx
      have hkey : Json.Item Json.key name x.name := hname.item fun s hs _ => Json.item_keyText hs
      have hnames : names ++ (x :: xs).map Json.Member.name =
          (names ++ [x.name]) ++ xs.map Json.Member.name := by
        rw [List.map_cons, List.append_cons]
      rw [hnames] at honce ⊢
      cases hfield : Field.ofName? (String.ofList x.name) with
      | none =>
          have hne : ∀ f : Field, x.name ≠ f.name.toList := by
            intro f hf
            rw [Field.ofName?_ofList_eq_some_iff.2 hf] at hfield
            cases hfield
          have hskip : Json.Reads Json.skipValue text () :=
            Json.reads_skipValue (htext.imp fun s hs => hs ▸ x.isValue)
          refine .cons hkey ?_ (hskip.map fun _ => Fields.ofNames m names) ?_
          · rw [Fields.readMember, hfield]
          · rw [← ofNames_append_of_ne hne]
            exact ih hvalues _ honce
      | some f =>
          have hf : x.name = f.name.toList := Field.ofName?_ofList_eq_some_iff.1 hfield
          have habsent : f.name.toList ∉ names := by
            intro hmem
            have hcount := honce f
            rw [hf, List.count_append, List.count_append, List.count_singleton_self] at hcount
            have hpos := List.count_pos_iff.2 hmem
            omega
          obtain ⟨reader, hreader, hreads⟩ := exists_read hm habsent
          refine .cons hkey ?_ (hreads text (htext.imp fun s hs => hs ▸ hvalue f hf)) ?_
          · rw [Fields.readMember, hfield]
            exact hreader
          · rw [← hf]
            exact ih hvalues _ honce

/-- **A matcher is read from an object of its fields**, whatever their order, if the keys of the
other members spell names too. -/
theorem item_object (hm : m.HasStateNumbers) {members : List Json.AnyMember} {t : List Char}
    (h : Json.AnyObjectText members t) (hgiven : m.IsGivenBy members)
    (hnames : ∀ x ∈ members, x.name?.isSome = true) : Json.Item (read τ) t m := by
  obtain ⟨xs, rfl, ts, hts, hbrackets⟩ := h.exists_objectText hnames
  obtain ⟨honce, hvalues⟩ := hgiven
  have hcount : ∀ f : Field, (xs.map Json.Member.name).count f.name.toList = 1 := by
    intro f
    rw [← honce f, List.map_map,
      ← List.count_map_of_injective _ some fun _ _ => Option.some.inj, List.map_map]
    rfl
  have hmembers := members_ofNames hm hts
    (fun x hx f hf => hvalues x.any (List.mem_map_of_mem hx) f (congrArg some hf)) []
    fun f => Nat.le_of_eq (hcount f)
  obtain ⟨body, rfl, hread⟩ := Json.members_bracketed hbrackets hmembers
  refine Json.item_record_object fun rest => ?_
  have hall : ∀ f : Field, f.name.toList ∈ xs.map Json.Member.name :=
    fun f => List.count_pos_iff.1 (by rw [hcount f]; exact Nat.one_pos)
  unfold readMembers
  rw [show ({} : Fields τ.Symbol) = Fields.ofNames m [] from rfl, hread]
  simp [bind, Except.bind, Fields.ofNames, ifNamed_of_mem (hall _), Fields.toMatcher,
    Fields.require]

/-- Every field is written as a value. -/
theorem FieldText.isValue {f : Field} {t : List Char} (h : m.FieldText f t) : Json.IsValue t := by
  cases f with
  | symbols => exact Json.ListText.isValue h fun _ _ hs => Json.SymbolText.isValue hs
  | table =>
      exact Json.ListText.isValue h fun _ _ hs =>
        Json.ListText.isValue hs fun _ _ ht => Json.NaturalText.isValue ht
  | start => exact Json.NaturalText.isValue h
  | accepting => exact Json.ListText.isValue h fun _ _ hs => Json.NaturalText.isValue hs

theorem FieldText.of_name_eq {f g : Field} {v : List Char} (h : m.FieldText f v)
    (hname : some f.name.toList = some g.name.toList) : m.FieldText g v :=
  Field.name_toList_inj.1 (Option.some.inj hname) ▸ h

end Reading

/-! ### Reading an array -/

section Elements
variable {β : Type} {reader : Json.Reader β} {x : β} {s t rest : List Char}

/-- An element that is there. -/
theorem exists_readElement (index : Nat) (ht : Json.Item reader t x)
    (hnext : Json.next ']' (index == 0) s = .ok (.item (Json.skipSpace t ++ rest)))
    (hrest : Json.endsNumber rest = true) :
    ∃ left, readElement index reader s = .ok (x, left) ∧
      Json.skipSpace left = Json.skipSpace rest := by
  obtain ⟨left, hread, hleft⟩ := ht.reads rest hrest
  refine ⟨left, ?_, hleft⟩
  unfold readElement
  rw [hnext]
  exact hread

/-- An element behind a comma. -/
theorem exists_readElement_comma (index : Nat) (ht : Json.Item reader t x)
    (hs : Json.skipSpace s = ',' :: (t ++ rest)) (hrest : Json.endsNumber rest = true) :
    ∃ left, readElement (index + 1) reader s = .ok (x, left) ∧
      Json.skipSpace left = Json.skipSpace rest := by
  refine exists_readElement (index + 1) ht ?_ hrest
  exact Json.next_comma (.inl rfl) ht.begins hs

/-- **A matcher is read from an array of its fields.** -/
theorem item_arrayText {m : Matcher τ.Symbol} (hm : m.HasStateNumbers) (h : m.ArrayText t) :
    Json.Item (read τ) t m := by
  obtain ⟨ts, hts, hbrackets⟩ := h
  obtain _ | @⟨e₀, _, _, _, he₀, _ | @⟨e₁, _, _, _, he₁, _ | @⟨e₂, _, _, _, he₂,
    _ | @⟨e₃, _, _, _, he₃, _ | _⟩⟩⟩⟩ := hts
  have hsymbols := he₀.item fun s hs _ => item_symbols hs
  have htable := he₁.item fun s hs _ => item_table hm hs
  have hstart := he₂.item fun s hs _ => item_start hm hs
  have haccepting := he₃.item fun s hs _ => item_accepting hm hs
  cases hbrackets with
  | items =>
      refine Json.item_record_array fun rest => ?_
      have htext : List.intercalate [','] [e₀, e₁, e₂, e₃] ++ [']'] ++ rest =
          e₀ ++ ',' :: (e₁ ++ ',' :: (e₂ ++ ',' :: (e₃ ++ ']' :: rest))) := by
        simp
      obtain ⟨s₀, hread₀, hs₀⟩ := exists_readElement 0 hsymbols
        (Json.next_first (.inl rfl) hsymbols.begins
          (',' :: (e₁ ++ ',' :: (e₂ ++ ',' :: (e₃ ++ ']' :: rest))))) rfl
      obtain ⟨s₁, hread₁, hs₁⟩ := exists_readElement_comma 0 htable hs₀ rfl
      obtain ⟨s₂, hread₂, hs₂⟩ := exists_readElement_comma 1 hstart hs₁ rfl
      obtain ⟨s₃, hread₃, hs₃⟩ := exists_readElement_comma 2 haccepting hs₂ rfl
      have hclose : Json.skipClosing ']' s₃ = .ok rest := by
        unfold Json.skipClosing
        rw [hs₃]
        rfl
      rw [htext]
      unfold readElements
      simp only [hread₀, hread₁, hread₂, hread₃, hclose, bind, Except.bind]

end Elements

/-! ### Loading -/

/-- **Loading a matcher does not depend on the layout.**  A matcher without a fault is loaded from
any object in which each of its fields stands once, with its value, in any order and among any
members of other names, and from the array of its fields, with any space between the tokens.  An
object that does not have each field exactly once is never loaded, and neither is one with a key
that spells no text. -/
theorem load_layout (τ : SymbolType) :
    (∀ m : Matcher τ.Symbol, m.HasStateNumbers → m.validate = .ok () → ∀ text : String,
      (∀ members, Json.Padded (Json.AnyObjectText members) text.toList → m.IsGivenBy members →
        (∀ x ∈ members, x.name?.isSome = true) → load τ text = .ok m) ∧
      (Json.Padded m.ArrayText text.toList → load τ text = .ok m)) ∧
    ∀ (text : String) (members : List Json.AnyMember),
      Json.Padded (Json.AnyObjectText members) text.toList →
        (¬ EachFieldOnce members ∨ ∃ x ∈ members, x.name? = none) →
          ∃ e, load τ text = .error (.json e) := by
  refine ⟨fun m hstates hvalid text => ⟨fun members h hgiven hnames => ?_, fun h => ?_⟩,
    fun text members h hbad => ?_⟩
  · exact load_eq_ok_iff.2 ⟨h.document fun s hs => item_object hstates hs hgiven hnames,
      validate_eq_ok_iff.1 hvalid⟩
  · exact load_eq_ok_iff.2 ⟨h.document fun s hs => item_arrayText hstates hs,
      validate_eq_ok_iff.1 hvalid⟩
  · cases hread : Json.document (read τ) text with
    | error e => exact ⟨e, load_of_error hread⟩
    | ok m =>
        obtain ⟨honce, hnames⟩ := eachFieldOnce_of_document h hread
        rcases hbad with hbad | ⟨x, hx, hnone⟩
        · exact absurd honce hbad
        · have hsome := hnames x hx
          rw [hnone] at hsome
          cases hsome

/-- The fields in another order, with a member between them that is none of them, and with space;
the array of the fields; and an object with only one of the fields. -/
theorem load_layout_reordered :
    let m : Matcher SymbolType.text.Symbol := ⟨["/"], [[0, 0]], 0, [0]⟩
    let mixed :=
      "\x7b\"start\" : 0,\"\":[7],\"accepting\":[0],\"table\":[[0,0]],\"symbols\":[\"\\/\"]\x7d"
    load .text mixed = .ok m ∧ load .text "[ [\"\\/\"],[[0,0]],0,[0]]" = .ok m ∧
      ∃ e, load .text "\x7b\"start\" : 0\x7d" = .error (.json e) := by
  intro m mixed
  have hstates : m.HasStateNumbers := ⟨by decide, by decide, by decide⟩
  have hvalid : m.validate = .ok () := by rfl
  -- the values of the members
  have hsymbols : m.FieldText .symbols "[\"\\/\"]".toList :=
    ⟨_, .cons (.bare ⟨_, .letter rfl .nil, rfl⟩) .nil, .items _⟩
  have hrow : Json.ListText Json.NaturalText [0, 0] "[0,0]".toList :=
    ⟨_, .cons (.bare rfl) (.cons (.bare rfl) .nil), .items _⟩
  have htable : m.FieldText .table "[[0,0]]".toList := ⟨_, .cons (.bare hrow) .nil, .items _⟩
  have hstart : m.FieldText .start "0".toList := by
    show "0".toList = Decimal.digits 0
    rfl
  have haccepting : m.FieldText .accepting "[0]".toList := ⟨_, .cons (.bare rfl) .nil, .items _⟩
  have hseven : Json.ListText Json.NaturalText [7] "[7]".toList :=
    ⟨_, .cons (.bare rfl) .nil, .items _⟩
  have hother : Json.IsValue "[7]".toList := hseven.isValue fun _ _ h => h.isValue
  -- the members
  have hmember : ∀ (k : String) (v : List Char) (hv : Json.IsValue v),
      Json.Member.Text ⟨k.toList, v, hv⟩ (Json.memberText k v) :=
    fun k v hv => Json.Member.text_written ⟨k.toList, v, hv⟩
  have hspaced : Json.Member.Text ⟨"start".toList, _, hstart.isValue⟩ "\"start\" : 0".toList :=
    ⟨_, _, .intro Json.blank_nil (Json.stringText_quote "start".toList) Json.blank_space,
      .intro Json.blank_space rfl Json.blank_nil, rfl⟩
  have hmixed : Json.ObjectText [⟨"start".toList, _, hstart.isValue⟩, ⟨"".toList, _, hother⟩,
      ⟨"accepting".toList, _, haccepting.isValue⟩, ⟨"table".toList, _, htable.isValue⟩,
      ⟨"symbols".toList, _, hsymbols.isValue⟩]
      mixed.toList := by
    unfold mixed
    exact ⟨_, .cons hspaced (.cons (hmember "" _ hother) (.cons
      (hmember "accepting" _ haccepting.isValue) (.cons (hmember "table" _ htable.isValue) (.cons
        (hmember "symbols" _ hsymbols.isValue) .nil)))), .items _⟩
  have hempty : ∀ f : Field, some "".toList ≠ some f.name.toList := by
    intro f
    cases f <;> decide
  have hsingle : Json.ObjectText [⟨"start".toList, _, hstart.isValue⟩]
      "\x7b\"start\" : 0\x7d".toList :=
    ⟨_, .cons hspaced .nil, .items _⟩
  have harray : m.ArrayText "[ [\"\\/\"],[[0,0]],0,[0]]".toList :=
    ⟨_, .cons (.intro Json.blank_space hsymbols Json.blank_nil) (.cons (.bare htable)
      (.cons (.bare hstart) (.cons (.bare haccepting) .nil))), .items _⟩
  refine ⟨((load_layout .text).1 m hstates hvalid _).1 _ (.bare hmixed.any) ⟨fun f => ?_, ?_⟩ ?_,
    ((load_layout .text).1 m hstates hvalid _).2 (.bare harray),
    (load_layout .text).2 _ _ (.bare hsingle.any) (.inl fun honce => ?_)⟩
  · cases f <;> rfl
  · simp only [List.map_cons, List.map_nil, List.forall_mem_cons]
    exact ⟨fun f => hstart.of_name_eq, fun f hf => absurd hf (hempty f),
      fun f => haccepting.of_name_eq, fun f => htable.of_name_eq,
      fun f => hsymbols.of_name_eq, nofun⟩
  · simp only [List.map_cons, List.map_nil, List.forall_mem_cons]
    exact ⟨rfl, rfl, rfl, rfl, rfl, nofun⟩
  · cases honce .symbols

/-- **A key that spells no text.**  By the grammar the object has each field of a valid matcher
once, and one other member, whose key has half a pair of escapes; it is not loaded. -/
theorem not_load_half_pair :
    let m : Matcher (SymbolType.integer .int64).Symbol := ⟨[], [[0]], 0, []⟩
    let text :=
      "\x7b\"a\\udc00b\":null,\"symbols\":[],\"table\":[[0]],\"start\":0,\"accepting\":[]\x7d"
    m.HasStateNumbers ∧ m.validate = .ok () ∧
      (∃ members, Json.Padded (Json.AnyObjectText members) text.toList ∧ m.IsGivenBy members) ∧
      load (.integer .int64) text ≠ .ok m := by
  intro m text
  have hkey : Json.Names none "\"a\\udc00b\"".toList := by
    refine ⟨⟨_, .plain (by decide) (by decide) (by decide) (.digits (n := 0xDC00) rfl
      (.plain (by decide) (by decide) (by decide) .nil)), rfl⟩, fun name hname => ?_⟩
    -- a text in quotes would be read as a key
    obtain ⟨left, hread, -⟩ := (Json.item_keyText hname).reads [] rfl
    cases hread
  have hsymbols : m.FieldText .symbols "[]".toList := ⟨[], .nil, .items _⟩
  have hrow : Json.ListText Json.NaturalText [0] "[0]".toList :=
    ⟨_, .cons (.bare rfl) .nil, .items _⟩
  have htable : m.FieldText .table "[[0]]".toList := ⟨_, .cons (.bare hrow) .nil, .items _⟩
  have hstart : m.FieldText .start "0".toList := by
    show "0".toList = Decimal.digits 0
    rfl
  have haccepting : m.FieldText .accepting "[]".toList := ⟨[], .nil, .items _⟩
  have hnull : Json.IsValue "null".toList := Json.IsScalar.isValue (.inl rfl)
  have hmember : ∀ (k : String) (v : List Char) (hv : Json.IsValue v),
      Json.AnyMember.Text ⟨some k.toList, v, hv⟩ (Json.memberText k v) :=
    fun k v hv => Json.Member.text_written ⟨k.toList, v, hv⟩
  have hobject : Json.AnyObjectText [⟨none, _, hnull⟩, ⟨some "symbols".toList, _, hsymbols.isValue⟩,
      ⟨some "table".toList, _, htable.isValue⟩, ⟨some "start".toList, _, hstart.isValue⟩,
      ⟨some "accepting".toList, _, haccepting.isValue⟩] text.toList := by
    unfold text
    exact ⟨_, .cons ⟨_, _, .bare hkey, .bare rfl, rfl⟩ (.cons
      (hmember "symbols" _ hsymbols.isValue) (.cons (hmember "table" _ htable.isValue) (.cons
        (hmember "start" _ hstart.isValue) (.cons (hmember "accepting" _ haccepting.isValue)
          .nil)))), .items _⟩
  refine ⟨⟨by decide, by decide, by decide⟩, by rfl, ⟨_, .bare hobject, fun f => ?_, ?_⟩,
    fun hload => ?_⟩
  · cases f <;> rfl
  · simp only [List.forall_mem_cons]
    exact ⟨nofun, fun f => hsymbols.of_name_eq, fun f => htable.of_name_eq,
      fun f => hstart.of_name_eq, fun f => haccepting.of_name_eq, nofun⟩
  · cases (eachFieldOnce_of_document (.bare hobject) (load_eq_ok_iff.1 hload).1).2 _
      List.mem_cons_self

end Matcher
end SignatureAutomata
