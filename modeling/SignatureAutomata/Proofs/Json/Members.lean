import SignatureAutomata.Proofs.Json.Extent

/-! # The members of an object, one after the other

An object whose members are read to the end has a name for each of them: each of its keys spells a
text, the name decides how the value is read, and behind the value the next member is read
(`exists_steps`, and for whole texts `exists_steps_of_document`).  The induction is on the members
that are still to come; that a reader of a value takes the whole value (`TakesWhole`) brings it to
the next one.

So the names of an object are determined by its text (`map_name_eq`).
-/

namespace SignatureAutomata
namespace Json

/-! ### Keys -/

/-- A text has one spelling at most for what it names. -/
theorem StringText.name_inj {name name' t : List Char} (h : StringText name t)
    (h' : StringText name' t) : name = name' := by
  obtain ⟨left, hread, -⟩ := (item_keyText h).reads [] rfl
  obtain ⟨left', hread', -⟩ := (item_keyText h').reads [] rfl
  exact (Prod.mk.inj (Except.ok.inj (hread.symm.trans hread'))).1

theorem Names.eq_some {name? : Option (List Char)} {k t : List Char} (h : Names name? t)
    (hk : StringText k t) : name? = some k := by
  cases name? with
  | some name => exact congrArg some (StringText.name_inj h hk)
  | none => exact absurd hk (h.2 k)

/-- **A key that is read names what was read**, and the reader is behind it. -/
theorem name?_of_key {name? : Option (List Char)} {name rest k left : List Char}
    (h : Padded (Names name?) name)
    (hread : key (skipSpace name ++ ':' :: rest) = .ok (k, left)) :
    name? = some k ∧ skipSpace left = ':' :: rest := by
  cases h with
  | @intro w s w' hw hs hw' =>
      obtain ⟨body, hbody, rfl⟩ := hs.isString
      have hskip : skipSpace (w ++ ('"' :: (body ++ ['"']) ++ w')) ++ ':' :: rest =
          '"' :: (body ++ '"' :: (w' ++ ':' :: rest)) := by
        rw [skipSpace_append_of_blank hw, List.cons_append, List.append_assoc]
        show '"' :: (body ++ (['"'] ++ w')) ++ ':' :: rest = _
        simp
      rw [hskip] at hread
      obtain ⟨t, heq, t', ht', rfl⟩ := exists_spelling_of_key hread
      rw [List.cons_append, List.append_assoc] at heq
      obtain ⟨rfl, rfl⟩ := hbody.append_inj ht'.isSpelling (List.cons.inj heq).2
      refine ⟨hs.eq_some ⟨body, ht', rfl⟩, ?_⟩
      rw [skipSpace_append_of_blank hw']
      rfl

theorem KeyValue.begins {t : List Char} (h : KeyValue IsString IsValue t) :
    beginsItem t = true := by
  obtain ⟨name, text, hname, -, rfl⟩ := h
  exact beginsItem_append (hname.item fun s hs _ => item_skipKey hs).begins _

/-! ### Steps -/

section Steps
variable {σ : Type} {member : List Char → σ → Except Failure (Reader σ)}

/-- **The states that the names of an object lead through**, each by a value that was read. -/
inductive Steps (member : List Char → σ → Except Failure (Reader σ)) :
    σ → List (List Char) → σ → Prop where
  | nil (state : σ) : Steps member state [] state
  | cons {k s left : List Char} {ks : List (List Char)} {reader : Reader σ}
      {state state' final : σ} :
      member k state = .ok reader → reader s = .ok (state', left) →
        Steps member state' ks final → Steps member state (k :: ks) final

variable (htakes : ∀ k state reader, member k state = .ok reader → TakesWhole reader)
include htakes

/-- One member: its key spells a name, and its value is read by the reader that the name asks
for, to its end. -/
theorem exists_step {count : Nat} {first : Bool} {state final : σ} {s t rest left : List Char}
    {x : AnyMember} (ht : x.Text t) (hrest : endsNumber rest = true)
    (hnext : next '\x7d' first s = .ok (.item (skipSpace t ++ rest)))
    (hread : membersUpTo key member (count + 1) first state s = .ok (final, left)) :
    ∃ k, x.name? = some k ∧ ∃ reader value state' behind, member k state = .ok reader ∧
      reader value = .ok (state', behind) ∧ skipSpace behind = skipSpace rest ∧
      membersUpTo key member count false state' behind = .ok (final, left) := by
  obtain ⟨name, text, hname, htext, rfl⟩ := ht
  have hbegins : beginsItem name = true :=
    (hname.item fun s hs _ => item_skipKey hs.isString).begins
  rw [membersUpTo, hnext] at hread
  obtain ⟨item, hitem, hbehindItem⟩ := exists_of_bind_eq_ok hread
  obtain rfl := Except.ok.inj hitem
  obtain ⟨⟨k, behindName⟩, hkey, hbehindKey⟩ := exists_of_bind_eq_ok hbehindItem
  rw [skipSpace_append hbegins, List.append_assoc, List.cons_append] at hkey
  obtain ⟨hk, hcolon⟩ := name?_of_key hname hkey
  have hskip : skipColon behindName = .ok (text ++ rest) := by
    unfold skipColon
    rw [hcolon]
    rfl
  obtain ⟨reader, hreader, hbehindReader⟩ := exists_of_bind_eq_ok hbehindKey
  obtain ⟨value, hvalue, hbehindColon⟩ := exists_of_bind_eq_ok hbehindReader
  obtain rfl := Except.ok.inj (hskip.symm.trans hvalue)
  obtain ⟨⟨state', behind⟩, hstate, hlater⟩ := exists_of_bind_eq_ok hbehindColon
  have hbehind := htakes k state reader hreader
    (htext.imp fun s (hs : s = x.value) => hs ▸ x.isValue) hrest hstate
  exact ⟨k, hk, reader, _, state', behind, hreader, hstate, hbehind, hlater⟩

/-- All members but the first. -/
theorem exists_steps_of_membersUpTo {count : Nat} {state final : σ} {ts : List (List Char)}
    {xs : List AnyMember} {s rest left : List Char}
    (hts : List.Forall₂ (fun t x => AnyMember.Text x t) ts xs)
    (hs : skipSpace s = ts.flatMap (',' :: ·) ++ '\x7d' :: rest)
    (hread : membersUpTo key member count false state s = .ok (final, left)) :
    ∃ ks, xs.map AnyMember.name? = ks.map some ∧ Steps member state ks final := by
  induction hts generalizing count state s with
  | nil =>
      cases count with
      | zero => cases hread
      | succ count =>
          rw [membersUpTo, next_close hs] at hread
          obtain ⟨rfl, -⟩ := Prod.mk.inj (Except.ok.inj hread)
          exact ⟨[], rfl, .nil state⟩
  | @cons t x ts xs ht _ ih =>
      cases count with
      | zero => cases hread
      | succ count =>
          rw [List.flatMap_cons, List.append_assoc, List.cons_append] at hs
          obtain ⟨k, hk, reader, value, state', behind, hreader, hstate, hbehind, hlater⟩ :=
            exists_step htakes ht (endsNumber_flatMap_comma (.inr rfl) ts rest)
              (next_comma (.inr rfl) ht.isMember.begins hs) hread
          rw [skipSpace_flatMap_comma (.inr rfl)] at hbehind
          obtain ⟨ks, hks, hsteps⟩ := ih hbehind hlater
          exact ⟨k :: ks, congrArg₂ List.cons hk hks, .cons hreader hstate hsteps⟩

/-- **An object is read member by member**, in the order in which they stand. -/
theorem exists_steps {xs : List AnyMember} {state : σ} {t : List Char} (h : AnyObjectText xs t) :
    ∃ body, t = '\x7b' :: body ∧ ∀ {rest final left},
      members key member state (body ++ rest) = .ok (final, left) →
        ∃ ks, xs.map AnyMember.name? = ks.map some ∧ Steps member state ks final := by
  obtain ⟨ts, hts, hbrackets⟩ := h
  cases hbrackets with
  | @blank w hw =>
      cases hts
      refine ⟨_, rfl, fun {rest final left} hread => ?_⟩
      rw [members_blank hw] at hread
      obtain ⟨rfl, -⟩ := Prod.mk.inj (Except.ok.inj hread)
      exact ⟨[], rfl, .nil state⟩
  | items ts =>
      refine ⟨_, rfl, fun {rest final left} hread => ?_⟩
      rw [List.append_assoc] at hread
      cases hts with
      | nil =>
          obtain ⟨rfl, -⟩ := Prod.mk.inj (Except.ok.inj hread)
          exact ⟨[], rfl, .nil state⟩
      | @cons t x ts xs ht hts =>
          have hbegins : beginsItem t = true := ht.isMember.begins
          have hlength : t.length ≠ 0 := Nat.ne_of_gt (length_pos_of_beginsItem hbegins)
          rw [intercalate_cons, List.append_assoc, members, List.length_append] at hread
          obtain ⟨n, hn⟩ := Nat.exists_eq_succ_of_ne_zero hlength
          rw [hn, Nat.succ_add] at hread
          obtain ⟨k, hk, reader, value, state', behind, hreader, hstate, hbehind, hlater⟩ :=
            exists_step htakes ht (endsNumber_flatMap_comma (.inr rfl) ts rest)
              (next_first (.inr rfl) hbegins _) hread
          rw [skipSpace_flatMap_comma (.inr rfl)] at hbehind
          obtain ⟨ks, hks, hsteps⟩ := exists_steps_of_membersUpTo htakes hts hbehind hlater
          exact ⟨k :: ks, congrArg₂ List.cons hk hks, .cons hreader hstate hsteps⟩

/-- **A record that is read from an object was read member by member.** -/
theorem exists_steps_of_document {β : Type} {name : String} {fromArray fromObject : Reader β}
    {x : β} {text : String} {state : σ} {P : σ → Prop} {xs : List AnyMember}
    (h : Padded (AnyObjectText xs) text.toList)
    (hread : document (record name fromArray fromObject) text = .ok x)
    (hobject : ∀ {s left}, fromObject s = .ok (x, left) →
      ∃ final rest, members key member state s = .ok (final, rest) ∧ P final) :
    ∃ ks final, xs.map AnyMember.name? = ks.map some ∧ Steps member state ks final ∧ P final := by
  obtain ⟨⟨y, left⟩, hrecord, hend⟩ := exists_of_bind_eq_ok hread
  obtain rfl : y = x := by
    dsimp only at hend
    split at hend
    · exact Except.ok.inj hend
    · cases hend
  generalize text.toList = t at h hrecord
  cases h with
  | @intro w s w' hw hs hw' =>
      obtain ⟨body, rfl, hsteps⟩ := exists_steps htakes hs
      obtain ⟨final, rest, hmembers, hfinal⟩ := hobject ((record_object hw).symm.trans hrecord)
      obtain ⟨ks, hks, hsteps⟩ := hsteps hmembers
      exact ⟨ks, final, hks, hsteps, hfinal⟩

end Steps

/-! ### Names -/

theorem map_name_of_map_any {xs : List Member} {ks : List (List Char)}
    (h : (xs.map Member.any).map AnyMember.name? = ks.map some) : xs.map Member.name = ks := by
  rw [List.map_map] at h
  exact (List.map_inj_right fun _ _ => Option.some.inj).1 ((List.map_map ..).trans h)

theorem isSome_of_map_name?_eq {xs : List AnyMember} {ks : List (List Char)}
    (h : xs.map AnyMember.name? = ks.map some) : ∀ x ∈ xs, x.name?.isSome = true := by
  intro x hx
  have hmem := List.mem_map_of_mem (f := AnyMember.name?) hx
  rw [h] at hmem
  obtain ⟨k, -, hk⟩ := List.mem_map.1 hmem
  exact Option.isSome_of_eq_some hk.symm

theorem ObjectText.isObject {xs : List Member} {t : List Char} (h : ObjectText xs t) :
    IsObject t :=
  isObject_iff_exists_anyObjectText.2 ⟨_, h.any⟩

/-- The names are read from an object, its values being passed over. -/
theorem members_names {ts : List (List Char)} {xs : List Member}
    (h : List.Forall₂ (fun t x => Member.Text x t) ts xs) (names : List (List Char)) :
    Members key (fun k names => .ok (skipValue.map fun _ => names ++ [k])) names ts
      (names ++ xs.map Member.name) := by
  induction h generalizing names with
  | nil =>
      rw [List.map_nil, List.append_nil]
      exact .nil names
  | @cons t x ts xs hx _ ih =>
      obtain ⟨name, text, hname, htext, rfl⟩ := hx
      have hvalue : Reads skipValue text () :=
        reads_skipValue (htext.imp fun s hs => hs ▸ x.isValue)
      have hlater := ih (names ++ [x.name])
      rw [List.append_assoc] at hlater
      exact .cons (hname.item fun s hs _ => item_keyText hs) rfl (hvalue.map _) hlater

/-- The names of an object are read from its text, behind the space in front of it. -/
theorem exists_names {xs : List Member} {t : List Char} (h : Padded (ObjectText xs) t) :
    ∃ s rest, skipSpace t = '\x7b' :: s ∧
      members key (fun k names => .ok (skipValue.map fun _ => names ++ [k])) [] s =
        .ok (xs.map Member.name, rest) := by
  cases h with
  | @intro w s w' hw hs hw' =>
      obtain ⟨ts, hts, hbrackets⟩ := hs
      obtain ⟨body, rfl, hread⟩ := members_bracketed hbrackets (members_names hts [])
      refine ⟨body ++ w', w', ?_, hread w'⟩
      rw [skipSpace_append_of_blank hw]
      rfl

/-- **The text of an object determines its names.** -/
theorem map_name_eq {xs ys : List Member} {t : List Char} (h : Padded (ObjectText xs) t)
    (h' : Padded (ObjectText ys) t) : xs.map Member.name = ys.map Member.name := by
  obtain ⟨s, rest, hs, hread⟩ := exists_names h
  obtain ⟨s', rest', hs', hread'⟩ := exists_names h'
  obtain rfl := (List.cons.inj (hs.symm.trans hs')).2
  exact (Prod.mk.inj (Except.ok.inj (hread.symm.trans hread'))).1

end Json
end SignatureAutomata
