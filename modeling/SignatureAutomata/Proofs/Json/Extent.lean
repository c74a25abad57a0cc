import SignatureAutomata.Proofs.Json.Passing

/-! # How far a reader goes

A reader of a value takes what is passed over, no more and no less (`Passes`).  So where a value
of any kind stands and is read, the reader is behind the value (`Passes.takesWhole`).
-/

namespace SignatureAutomata
namespace Json

/-- **A reader takes what is passed over**: wherever it succeeds, passing over a value that may be
nested deep enough ends at the same place. -/
def Passes {β : Type} (reader : Reader β) : Prop :=
  ∀ ⦃s : List Char⦄ ⦃x : β⦄ ⦃left : List Char⦄, reader s = .ok (x, left) →
    ∃ depth, ∀ n, depth ≤ n → skipNested n s = .ok ((), left)

section Passes
variable {β γ : Type} {reader : Reader β} {s t rest left : List Char} {x : β} {count : Nat}

/-- **A reader that takes a whole value**, where one stands and the reader succeeds. -/
def TakesWhole {β : Type} (reader : Reader β) : Prop :=
  ∀ ⦃t rest : List Char⦄ ⦃x : β⦄ ⦃left : List Char⦄, Padded IsValue t → endsNumber rest = true →
    reader (t ++ rest) = .ok (x, left) → skipSpace left = skipSpace rest

theorem Passes.takesWhole (h : Passes reader) : TakesWhole reader := by
  intro t rest x left ht hrest hread
  obtain ⟨depth, hdepth⟩ := h hread
  have hitem : Item (skipNested (depth + t.length)) t () := by
    refine ht.item fun s hs hlength => ?_
    obtain ⟨_, hs⟩ := hs
    exact item_skipNested hs (by omega)
  obtain ⟨left', hskip, hleft⟩ :=
    hitem.reads_of_skipsSpace (skipsSpace_skipNested _) rest hrest
  rw [hdepth _ (Nat.le_add_right ..)] at hskip
  obtain ⟨-, rfl⟩ := Prod.mk.inj (Except.ok.inj hskip)
  exact hleft

theorem takesWhole_skipValue : TakesWhole skipValue := by
  intro t rest x left ht hrest hread
  obtain ⟨left', hskip, hleft⟩ := reads_skipValue ht rest hrest
  rw [hread] at hskip
  obtain ⟨-, rfl⟩ := Prod.mk.inj (Except.ok.inj hskip)
  exact hleft

theorem map_eq_ok {f : β → γ} {y : γ} (h : reader.map f s = .ok (y, left)) :
    ∃ x, reader s = .ok (x, left) ∧ f x = y := by
  obtain ⟨⟨x, rest⟩, hx, hy⟩ := exists_of_bind_eq_ok h
  obtain ⟨rfl, rfl⟩ := Prod.mk.inj (Except.ok.inj hy)
  exact ⟨x, hx, rfl⟩

theorem Passes.map (h : Passes reader) (f : β → γ) : Passes (reader.map f) := by
  intro s y left hread
  obtain ⟨x, hx, -⟩ := map_eq_ok hread
  exact h hx

theorem TakesWhole.map (h : TakesWhole reader) (f : β → γ) : TakesWhole (reader.map f) := by
  intro t rest y left ht hrest hread
  obtain ⟨x, hx, -⟩ := map_eq_ok hread
  exact h ht hrest hx

/-- Nothing is read by refusing. -/
theorem refuse_ne_ok (expected : Expected) (s : List Char) :
    refuse expected s ≠ .ok x := by
  unfold refuse
  split <;> exact nofun

theorem opened_eq_ok {c : Char} {expected : Expected} {behind : Reader β}
    (h : opened c expected behind s = .ok (x, left)) :
    ∃ rest, skipSpace s = c :: rest ∧ behind rest = .ok (x, left) := by
  unfold opened at h
  split at h
  · cases h
  · rename_i d rest hs
    split at h
    · rename_i hd
      exact ⟨rest, hd ▸ hs, h⟩
    · exact absurd h (refuse_ne_ok expected _)

/-! ### Integers -/

theorem float_ne_integer {negative : Bool} {significand : Nat} {exponent k : Int} :
    float negative significand exponent ≠ .ok (.integer k) := by
  unfold float
  split <;> exact nofun

theorem scaled_ne_integer {negative : Bool} {significand : Nat} {place k : Int} :
    scaled negative significand place s ≠ .ok (.integer k, left) := by
  intro h
  unfold scaled at h
  split at h
  · obtain ⟨_, hfloat, h⟩ := exists_of_bind_eq_ok h
    obtain ⟨rfl, -⟩ := Prod.mk.inj (Except.ok.inj h)
    exact float_ne_integer hfloat
  · split at h
    · obtain ⟨_, -, h⟩ := exists_of_bind_eq_ok h
      obtain ⟨_, hfloat, h⟩ := exists_of_bind_eq_ok h
      obtain ⟨rfl, -⟩ := Prod.mk.inj (Except.ok.inj h)
      exact float_ne_integer hfloat
    · obtain ⟨_, hfloat, h⟩ := exists_of_bind_eq_ok h
      obtain ⟨rfl, -⟩ := Prod.mk.inj (Except.ok.inj h)
      exact float_ne_integer hfloat

/-- An integer has neither a fraction nor an exponent. -/
theorem fraction_eq_integer {negative : Bool} {significand dropped : Nat} {k : Int}
    (h : fraction negative significand dropped s = .ok (.integer k, left)) :
    left = s ∧ skipFraction s = .ok s := by
  unfold fraction at h
  split at h
  · cases h
  · split at h
    · exact absurd h scaled_ne_integer
    · cases h
  · exact absurd h scaled_ne_integer
  · exact absurd h scaled_ne_integer
  · rename_i hpoint hpoints he hE
    have hskip : skipFraction s = .ok s := by
      unfold skipFraction
      split
      · rename_i cs
        cases cs with
        | nil => exact (hpoint rfl).elim
        | cons c cs => exact (hpoints c cs rfl).elim
      · unfold skipExponent
        split
        · exact (he _ rfl).elim
        · exact (hE _ rfl).elim
        · rfl
    refine ⟨?_, hskip⟩
    split at h
    · obtain ⟨_, -, h⟩ := exists_of_bind_eq_ok h
      exact (Prod.mk.inj (Except.ok.inj h)).2.symm
    · obtain ⟨_, -, h⟩ := exists_of_bind_eq_ok h
      exact (Prod.mk.inj (Except.ok.inj h)).2.symm

theorem gatherInteger_rest (significand dropped : Nat) (s : List Char) :
    (gatherInteger significand dropped s).2.2 = s.dropWhile Char.isDigit := by
  induction s generalizing significand dropped with
  | nil => rfl
  | cons c s ih =>
      unfold gatherInteger
      by_cases hc : c.isDigit = true
      · rw [if_pos hc, List.dropWhile_cons_of_pos hc]
        dsimp only
        split
        · exact ih _ _
        · exact ih _ _
      · rw [if_neg hc, List.dropWhile_cons_of_neg hc]

/-- **The digits of an integer are passed over** where the integer is read. -/
theorem skipNumber_of_number {negative : Bool} {k : Int}
    (h : number negative s = .ok (.integer k, left)) : skipNumber s = .ok left := by
  unfold number at h
  split at h
  · cases h
  · rename_i c cs
    split at h
    · rename_i hc
      subst hc
      split at h
      · cases h
      · rename_i hcs
        obtain ⟨rfl, hskip⟩ := fraction_eq_integer h
        have hwhole : IsWhole ['0'] :=
          ⟨⟨List.cons_ne_nil _ _, List.forall_mem_singleton.2 rfl⟩, fun _ => rfl⟩
        rw [← hskip]
        exact skipNumber_whole hwhole (Bool.eq_false_iff.2 hcs)
    · rename_i hzero
      split at h
      · rename_i hc
        have hrest := gatherInteger_rest 0 0 (c :: cs)
        rcases hgather : gatherInteger 0 0 (c :: cs) with ⟨significand, dropped, rest⟩
        rw [hgather] at h hrest
        obtain ⟨rfl, hskip⟩ := fraction_eq_integer h
        have hwhole : IsWhole ((c :: cs).takeWhile Char.isDigit) := by
          refine ⟨⟨?_, fun d hd => List.mem_takeWhile_imp hd⟩, ?_⟩
          · rw [List.takeWhile_cons_of_pos hc]
            exact List.cons_ne_nil _ _
          · rw [List.takeWhile_cons_of_pos hc]
            exact fun h => absurd (Option.some.inj h) hzero
        have hnumber := skipNumber_whole hwhole (endsDigits_dropWhile (c :: cs))
        rw [List.takeWhile_append_dropWhile] at hnumber
        rw [hnumber, ← hrest]
        exact hskip
      · cases h

theorem passes_integer (type : IntegerType) : Passes (integer type) := by
  intro s v left h
  unfold integer at h
  split at h
  · exact absurd h (refuse_ne_ok _ _)
  · rename_i result hresult
    obtain ⟨⟨x, rest⟩, rfl, hx⟩ := exists_of_bind_eq_ok h
    obtain ⟨v', hinteger, hv⟩ := exists_of_bind_eq_ok hx
    obtain ⟨-, rfl⟩ := Prod.mk.inj (Except.ok.inj hv)
    cases x with
    | float negative magnitude => cases hinteger
    | integer k =>
        refine ⟨1, fun n hn => ?_⟩
        obtain ⟨n, rfl⟩ := Nat.exists_eq_succ_of_ne_zero (Nat.ne_of_gt hn)
        rw [← skipsSpace_skipNested]
        cases hs : skipSpace s with
        | nil =>
            rw [hs] at hresult
            cases hresult
        | cons c cs =>
            rw [hs, signedNumber?] at hresult
            split at hresult
            · rename_i hc
              subst hc
              have hskip := skipNumber_of_number (Option.some.inj hresult)
              show (do Except.ok ((), ← skipNumber cs)) = _
              rw [hskip]
              rfl
            · split at hresult
              · rename_i hc
                rw [skipNested_digit hc, skipNumber_of_number (Option.some.inj hresult)]
                rfl
              · cases hresult

theorem passes_natural (type : IntegerType) : Passes (natural type) :=
  (passes_integer type).map (·.val.toNat)

/-! ### Texts -/

theorem passes_string (expected : Expected) : Passes (string expected) := by
  intro s x left h
  obtain ⟨rest, hs, hread⟩ := opened_eq_ok h
  obtain ⟨t, rfl, ht⟩ := exists_spelling_of_charactersUpTo hread
  refine ⟨1, fun n hn => ?_⟩
  obtain ⟨n, rfl⟩ := Nat.exists_eq_succ_of_ne_zero (Nat.ne_of_gt hn)
  rw [← skipsSpace_skipNested, hs]
  exact skipUnquoted_isSpelling ht.isSpelling left

theorem passes_symbol (τ : SymbolType) : Passes (symbol τ) := by
  cases τ with
  | integer type => exact passes_integer type
  | text => exact Passes.map (passes_string _) _

/-! ### Arrays -/

theorem elementsUpTo_passes (h : Passes reader) {first : Bool} {xs : List β}
    (hread : elementsUpTo reader count first s = .ok (xs, left)) :
    ∃ depth, ∀ n, depth ≤ n → ∃ skipped,
      elementsUpTo (skipNested n) count first s = .ok (skipped, left) := by
  induction count generalizing first s xs with
  | zero => cases hread
  | succ count ih =>
      rw [elementsUpTo] at hread
      obtain ⟨next, hnext, hitem⟩ := exists_of_bind_eq_ok hread
      cases next with
      | closing rest =>
          obtain ⟨-, rfl⟩ := Prod.mk.inj (Except.ok.inj hitem)
          refine ⟨0, fun n _ => ⟨[], ?_⟩⟩
          rw [elementsUpTo, hnext]
          rfl
      | item s' =>
          obtain ⟨⟨x, rest⟩, hx, hlater⟩ := exists_of_bind_eq_ok hitem
          obtain ⟨⟨xs', left'⟩, hxs, hleft⟩ := exists_of_bind_eq_ok hlater
          obtain ⟨-, rfl⟩ := Prod.mk.inj (Except.ok.inj hleft)
          obtain ⟨depth, hfirst⟩ := h hx
          obtain ⟨depth', hrest⟩ := ih hxs
          refine ⟨max depth depth', fun n hn => ?_⟩
          obtain ⟨skipped, hskip⟩ := hrest n (by omega)
          refine ⟨() :: skipped, ?_⟩
          rw [elementsUpTo, hnext]
          simp only [bind, Except.bind, hfirst n (by omega), hskip]

theorem passes_array (h : Passes reader) : Passes (array reader) := by
  intro s xs left hread
  obtain ⟨rest, hs, helements⟩ := opened_eq_ok hread
  obtain ⟨depth, hdepth⟩ := elementsUpTo_passes h helements
  refine ⟨depth + 1, fun n hn => ?_⟩
  obtain ⟨n, rfl⟩ := Nat.exists_eq_succ_of_ne_zero (n := n) (by omega)
  obtain ⟨skipped, hskip⟩ := hdepth n (by omega)
  rw [← skipsSpace_skipNested, hs]
  show (elements (skipNested n)).map (fun _ => ()) rest = _
  rw [Reader.map, elements, hskip]
  rfl

end Passes

end Json
end SignatureAutomata
