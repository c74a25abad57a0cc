import SignatureAutomata.Compilation
import SignatureAutomata.Proofs.Matcher.Emission
import SignatureAutomata.Proofs.Signature.Automaton

/-! # The language of a signature

The automaton of a signature accepts what the signature admits
(`Signature.IsShapeOf.accepts_eq`), and so does everything made from it.

One direction walks through the fragments (`reads_of_admits`).  For the other, every
state has a `residual`, the positions that are still to be matched there, and every edge
fits the residuals of its ends (`exists_leads`).  The back edge of an `anySequence` makes
its end as good as its beginning, so the residual of the end still has the `anySequence`
in front; and that of its beginning may have another one, from the position before.  This
does no harm, because two of them in a row admit what one does
(`admits_anySequence_anySequence_iff`).
-/

namespace SignatureAutomata

namespace Token
variable {α : Type} [DecidableEq α] {tokens : List (Token α)} {values : List α}

/-! ### Any number of values -/

theorem admits_anySequence_of_admits (h : admits tokens values = true) :
    admits (.anySequence :: tokens) values = true :=
  admits_anySequence_iff.2 ⟨values, List.suffix_refl _, h⟩

theorem admits_anySequence_cons (x : α) (h : admits (.anySequence :: tokens) values = true) :
    admits (.anySequence :: tokens) (x :: values) = true := by
  obtain ⟨rest, hrest, h⟩ := admits_anySequence_iff.1 h
  exact admits_anySequence_iff.2 ⟨rest, hrest.trans (List.suffix_cons x values), h⟩

/-- **Two in a row admit what one does.** -/
theorem admits_anySequence_anySequence_iff :
    admits (.anySequence :: .anySequence :: tokens) values = true ↔
      admits (.anySequence :: tokens) values = true := by
  refine ⟨fun h => ?_, admits_anySequence_of_admits⟩
  obtain ⟨middle, hmiddle, h⟩ := admits_anySequence_iff.1 h
  obtain ⟨rest, hrest, h⟩ := admits_anySequence_iff.1 h
  exact admits_anySequence_iff.2 ⟨rest, hrest.trans hmiddle, h⟩

/-! ### From admitted values to a run -/

variable {A : Alphabet α} {N : Nfa} {last : Nat}

theorem edges_anySequence (hedges : ∀ e ∈ edges A last (.anySequence : Token α), e ∈ N.edges) :
    ⟨last, Code.epsilon, last + 1⟩ ∈ N.edges ∧ ⟨last + 1, Code.epsilon, last + 2⟩ ∈ N.edges ∧
      ⟨last + 1, Code.sigma, last + 2⟩ ∈ N.edges ∧
      ⟨last + 2, Code.epsilon, last + 3⟩ ∈ N.edges ∧ ⟨last + 3, Code.epsilon, last⟩ ∈ N.edges := by
  refine ⟨hedges _ ?_, hedges _ ?_, hedges _ ?_, hedges _ ?_, hedges _ ?_⟩
  all_goals simp [edges, Nfa.columns]

/-- The fragment of an `anySequence` goes around once for every value. -/
theorem reads_around (hedges : ∀ e ∈ edges A last (.anySequence : Token α), e ∈ N.edges)
    (codes : List Nat) : N.Reads last codes last := by
  obtain ⟨hin, -, hsigma, hout, hback⟩ := edges_anySequence hedges
  induction codes with
  | nil => exact .nil last
  | cons code codes ih =>
      exact .silent hin (.consume hsigma (.inr rfl) (.silent hout (.silent hback ih)))

/-- It can be passed through as well. -/
theorem epsilonReach_through (hedges : ∀ e ∈ edges A last (.anySequence : Token α), e ∈ N.edges) :
    N.EpsilonReach last (last + 3) := by
  obtain ⟨hin, hskip, -, hout, -⟩ := edges_anySequence hedges
  exact .step (.step (.step (.refl last) hin) hskip) hout

/-- **What is admitted is read** from the beginning of the fragments to their end. -/
theorem reads_of_admits (hedges : ∀ e ∈ edgesAll A last tokens, e ∈ N.edges)
    (hregistered : ∀ token ∈ tokens, token.Registered A) (late : List α)
    (h : admits tokens values = true) :
    N.Reads last (values.map (A.registerAll late).codeOf) (lastState last tokens) := by
  induction tokens generalizing last values with
  | nil =>
      rw [admits_nil, List.isEmpty_iff] at h
      rw [h]
      exact .nil last
  | cons token tokens ih =>
      rw [edgesAll, List.forall_mem_append] at hedges
      rw [List.forall_mem_cons] at hregistered
      cases token with
      | literal v =>
          cases values with
          | nil => cases h
          | cons x values =>
              rw [admits, Bool.and_eq_true, decide_eq_true_iff] at h
              obtain ⟨rfl, h⟩ := h
              have hx : x ∈ A.symbols := hregistered.1 x rfl
              rw [List.map_cons, Alphabet.codeOf_registerAll hx]
              exact .consume (hedges.1 _ (List.mem_singleton.2 rfl)) (.inl rfl)
                (ih hedges.2 hregistered.2 h)
      | any =>
          cases values with
          | nil => cases h
          | cons x values =>
              exact .consume (hedges.1 _ (List.mem_map_of_mem (List.mem_cons_self ..)))
                (.inr rfl) (ih hedges.2 hregistered.2 h)
      | anySequence =>
          -- once around for every value at the front, then through to the others
          obtain ⟨rest, ⟨front, rfl⟩, hadmits⟩ := admits_anySequence_iff.1 h
          rw [List.map_append]
          exact (reads_around hedges.1 _).append
            ((epsilonReach_through hedges.1).reads (ih hedges.2 hregistered.2 hadmits))

/-! ### From a run to admitted values -/

/-- The positions left, where an `anySequence` before them may still go on. -/
def resumed (again : Bool) (tokens : List (Token α)) : List (Token α) :=
  if again then .anySequence :: tokens else tokens

/-- **What is still to be matched in a state** of the fragments of some positions, the
states being counted from the first of them; `again` if these follow an
`anySequence`. -/
def residual : (again : Bool) → List (Token α) → Nat → List (Token α)
  | again, tokens, 0 => resumed again tokens
  | _, [], _ + 1 => []
  | _, .literal _ :: tokens, n + 1 => residual false tokens n
  | _, .any :: tokens, n + 1 => residual false tokens n
  | _, .anySequence :: tokens, 1 => .anySequence :: tokens
  | _, .anySequence :: tokens, 2 => .anySequence :: tokens
  | _, .anySequence :: tokens, n + 3 => residual true tokens n

/-- An edge with the label fits a state with residual `k` and one with residual `l`: what
is admitted behind it, after the value that it consumes, is admitted before it. -/
structure Leads (B : Alphabet α) (label : Nat) (k l : List (Token α)) : Prop where
  silent : label = Code.epsilon → ∀ w, admits l w = true → admits k w = true
  consume : ∀ x w, label = B.codeOf x ∨ label = Code.sigma → admits l w = true →
    admits k (x :: w) = true

theorem admits_resumed (again : Bool) (h : admits tokens values = true) :
    admits (resumed again tokens) values = true := by
  cases again with
  | false => exact h
  | true => exact admits_anySequence_of_admits h

/-- Going on before an `anySequence` admits nothing new. -/
theorem admits_of_resumed_anySequence {again : Bool}
    (h : admits (resumed again (.anySequence :: tokens)) values = true) :
    admits (.anySequence :: tokens) values = true := by
  cases again with
  | false => exact h
  | true => exact admits_anySequence_anySequence_iff.1 h

omit [DecidableEq α] in
@[simp] theorem residual_zero (again : Bool) (tokens : List (Token α)) :
    residual again tokens 0 = resumed again tokens := by
  cases tokens with
  | nil => rfl
  | cons token tokens => cases token <;> rfl

/-- Whether the values that a position takes may go on. -/
def goesOn : Token α → Bool
  | .anySequence => true
  | _ => false

omit [DecidableEq α] in
/-- Behind the first fragment, the states are those of the rest. -/
theorem residual_width_add (again : Bool) (token : Token α) (tokens : List (Token α)) (n : Nat) :
    residual again (token :: tokens) (token.width + n) = residual token.goesOn tokens n := by
  rw [Nat.add_comm]
  cases token <;> rfl

theorem leads_of_silent {B : Alphabet α} {k l : List (Token α)}
    (h : ∀ w, admits l w = true → admits k w = true) : Leads B Code.epsilon k l where
  silent _ := h
  consume x _ hlabel _ := by
    rcases hlabel with hlabel | hlabel
    · exact absurd hlabel.symm (B.codeOf_ne_epsilon x)
    · cases hlabel

theorem leads_of_any {B : Alphabet α} {k l : List (Token α)}
    (h : ∀ x w, admits l w = true → admits k (x :: w) = true) {label : Nat}
    (hlabel : label ∈ Nfa.columns A) : Leads B label k l := by
  refine ⟨fun hsilent => ?_, fun x w _ => h x w⟩
  rw [hsilent] at hlabel
  exact absurd hlabel (Nfa.epsilon_not_mem_columns A)

/-- The edge of a literal consumes that value only, also when other symbols have been
registered since. -/
theorem leads_of_literal {v : α} (hv : v ∈ A.symbols) (late : List α) {k l : List (Token α)}
    (h : ∀ w, admits l w = true → admits k (v :: w) = true) :
    Leads (A.registerAll late) (A.codeOf v) k l := by
  -- a registered value has a code of its own, which is not reserved
  have hcode : A.codeOf v ∈ A.codes := Alphabet.codeOf_mem_codes_iff.2 hv
  refine ⟨fun hsilent => ?_, fun x w hx hw => ?_⟩
  · rw [hsilent] at hcode
    cases (Alphabet.mem_codes_iff.1 hcode).1
  · rcases hx with hx | hx
    · have hv' : v ∈ (A.registerAll late).symbols := Alphabet.mem_symbols_registerAll.2 (.inl hv)
      rw [← Alphabet.codeOf_registerAll hv late, eq_comm, Alphabet.codeOf_eq_codeOf_iff hv'] at hx
      exact hx ▸ h w hw
    · rw [hx] at hcode
      exact absurd hcode (Alphabet.sigma_not_mem_codes A)

/-- **Every edge of a fragment fits the residuals of its ends.** -/
theorem exists_leads_of_mem_edges {token : Token α} (hregistered : token.Registered A)
    (late : List α) (again : Bool) (tokens : List (Token α)) {e : Edge}
    (he : e ∈ token.edges A last) :
    ∃ i j, e.source = last + i ∧ e.target = last + j ∧ Leads (A.registerAll late) e.label
      (residual again (token :: tokens) i) (residual again (token :: tokens) j) := by
  cases token with
  | literal v =>
      rw [List.mem_singleton.1 he]
      refine ⟨0, 1, rfl, rfl, leads_of_literal (hregistered v rfl) late fun w hw => ?_⟩
      have hw : admits tokens w = true := by simpa [residual, resumed] using hw
      rw [residual_zero]
      exact admits_resumed again (by simp [admits, hw])
  | any =>
      obtain ⟨label, hlabel, rfl⟩ := List.mem_map.1 he
      refine ⟨0, 1, rfl, rfl, leads_of_any (fun x w hw => ?_) hlabel⟩
      have hw : admits tokens w = true := by simpa [residual, resumed] using hw
      rw [residual_zero]
      exact admits_resumed again hw
  | anySequence =>
      simp only [edges, List.mem_append, List.mem_cons, List.mem_map, List.not_mem_nil,
        or_false] at he
      rcases he with ((rfl | rfl) | ⟨label, hlabel, rfl⟩) | (rfl | rfl)
      · refine ⟨0, 1, rfl, rfl, leads_of_silent fun w hw => ?_⟩
        rw [residual_zero]
        exact admits_resumed again hw
      · exact ⟨1, 2, rfl, rfl, leads_of_silent fun w hw => hw⟩
      · exact ⟨1, 2, rfl, rfl, leads_of_any (fun x w hw => admits_anySequence_cons x hw) hlabel⟩
      · refine ⟨2, 3, rfl, rfl, leads_of_silent fun w hw => ?_⟩
        simpa [residual, resumed] using hw
      · -- the back edge, whose end may have an `anySequence` of its own in front
        refine ⟨3, 0, rfl, rfl, leads_of_silent fun w hw => ?_⟩
        rw [residual_zero] at hw
        simpa [residual, resumed] using admits_of_resumed_anySequence hw

theorem exists_leads (hregistered : ∀ token ∈ tokens, token.Registered A) (late : List α)
    (again : Bool) {e : Edge} (he : e ∈ edgesAll A last tokens) :
    ∃ i j, e.source = last + i ∧ e.target = last + j ∧ Leads (A.registerAll late) e.label
      (residual again tokens i) (residual again tokens j) := by
  induction tokens generalizing last again with
  | nil => cases he
  | cons token tokens ih =>
      rw [List.forall_mem_cons] at hregistered
      rcases List.mem_append.1 he with he | he
      · exact exists_leads_of_mem_edges hregistered.1 late again tokens he
      · obtain ⟨i, j, hi, hj, hleads⟩ := ih hregistered.2 token.goesOn he
        refine ⟨token.width + i, token.width + j, by omega, by omega, ?_⟩
        rw [residual_width_add, residual_width_add]
        exact hleads

/-- At the end, nothing has to follow. -/
theorem admits_residual_lastState (tokens : List (Token α)) (last : Nat) (again : Bool) :
    ∃ n, lastState last tokens = last + n ∧ admits (residual again tokens n) [] = true := by
  induction tokens generalizing last again with
  | nil => exact ⟨0, rfl, by rw [residual_zero]; exact admits_resumed again rfl⟩
  | cons token tokens ih =>
      obtain ⟨n, hn, hadmits⟩ := ih (last + token.width) token.goesOn
      refine ⟨token.width + n, by rw [lastState, hn, Nat.add_assoc], ?_⟩
      rw [residual_width_add]
      exact hadmits

/-- **What is read from a state to the end of the fragments is admitted by the state's
residual.** -/
theorem admits_residual_of_reads (hedges : ∀ e ∈ N.edges, e ∈ edgesAll A 0 tokens)
    (hregistered : ∀ token ∈ tokens, token.Registered A) (late : List α) {s : Nat}
    (h : N.Reads s (values.map (A.registerAll late).codeOf) (lastState 0 tokens)) :
    admits (residual false tokens s) values = true := by
  generalize hcodes : values.map (A.registerAll late).codeOf = codes at h
  generalize hlast : lastState 0 tokens = t at h
  -- backwards along the run: every edge fits, and at the end nothing has to follow
  induction h generalizing values with
  | nil =>
      obtain ⟨n, hn, hadmits⟩ := admits_residual_lastState tokens 0 false
      rw [List.map_eq_nil_iff.1 hcodes, ← hlast, hn, Nat.zero_add]
      exact hadmits
  | silent he _ ih =>
      obtain ⟨i, j, hi, hj, hleads⟩ := exists_leads hregistered late false (hedges _ he)
      rw [Nat.zero_add] at hi hj
      subst hi hj
      exact hleads.silent rfl _ (ih hcodes hlast)
  | consume he hlabel _ ih =>
      obtain ⟨x, w, rfl, rfl, hw⟩ := List.map_eq_cons_iff.1 hcodes
      obtain ⟨i, j, hi, hj, hleads⟩ := exists_leads hregistered late false (hedges _ he)
      rw [Nat.zero_add] at hi hj
      subst hi hj
      exact hleads.consume x w hlabel (ih hw hlast)

end Token

namespace Signature
variable {α : Type} [DecidableEq α] {s : Signature α} {A : Alphabet α} {N : Nfa}

/-- **The automaton of a signature accepts what the signature admits**, also after further
symbols were registered. -/
theorem IsShapeOf.accepts_eq (h : s.IsShapeOf A N) (late values : List α) :
    N.accepts (A.registerAll late) values = s.admits values := by
  rw [Bool.eq_iff_iff, h.wellFormed.accepts_iff, h.start_eq]
  constructor
  · rintro ⟨t, ht, hreads⟩
    rw [h.mem_accepting_iff] at ht
    subst ht
    have hadmits := Token.admits_residual_of_reads (fun e he => (h.mem_edges_iff e).1 he)
      h.registered late hreads
    rwa [Token.residual_zero] at hadmits
  · intro hadmits
    exact ⟨_, (h.mem_accepting_iff _).2 rfl,
      Token.reads_of_admits (fun e he => (h.mem_edges_iff e).2 he) h.registered late hadmits⟩

/-- No other labels than `Code.epsilon` and the codes with a column. -/
theorem IsShapeOf.unlabelled (h : s.IsShapeOf A N) {code : Nat} (hsilent : code ≠ Code.epsilon)
    (hcode : code ∉ Nfa.columns A) : N.Unlabelled code := by
  rintro e he rfl
  rcases Token.label_of_mem_edgesAll ((h.mem_edges_iff e).1 he) with hlabel | hlabel
  · exact hsilent hlabel
  · exact hcode hlabel

/-- The same for the automaton determinized at any later time. -/
theorem IsShapeOf.accepts_determinize_eq (h : s.IsShapeOf A N) (early late values : List α) :
    (N.determinize (A.registerAll early)).accepts ((A.registerAll early).registerAll late) values =
      s.admits values := by
  rw [h.wellFormed.accepts_determinize (fun code hcode hnew => ?_), ← A.registerAll_append,
    h.accepts_eq]
  -- a new code is not reserved, and is none of those that the edges name
  have hle := (Alphabet.mem_codes_iff.1 hcode).1
  refine h.unlabelled (fun hsilent => ?_) fun hcolumn => ?_
  · rw [hsilent] at hle
    cases hle
  · rcases List.mem_cons.1 hcolumn with hsigma | hold
    · rw [hsigma] at hle
      cases hle with
      | step hle => cases hle
    · exact hnew (A.codes_subset_registerAll early hold)

/-- The same for the matcher of that automaton, made later still. -/
theorem IsShapeOf.run?_eq (h : s.IsShapeOf A N) (early middle values : List α) :
    (Matcher.ofDfa ((A.registerAll early).registerAll middle)
      (N.determinize (A.registerAll early))).run? values = some (s.admits values) := by
  have hsubset := h.wellFormed.subsetAutomaton (A.registerAll early)
  rw [Matcher.ofDfa_registerAll hsubset, Matcher.run?_ofDfa hsubset [],
    h.accepts_determinize_eq]

/-- **All verdicts on a signature are its meaning.**  Whatever the alphabet it is compiled
over, and whatever is registered before determinization, before the matcher is made and
after that, the automaton at each of these times, the deterministic automaton at each of
the times it lives in, the matcher, and the decision over an alphabet of its own all say
whether the signature admits the values. -/
theorem verdicts_eq_admits (s : Signature α) (A : Alphabet α)
    (early middle late values : List α) :
    ∃ N, s.automaton A = .ok (s.seed A, N) ∧
      let A₁ := (s.seed A).registerAll early
      let A₂ := A₁.registerAll middle
      let A₃ := A₂.registerAll late
      let D := N.determinize A₁
      (∀ B ∈ [s.seed A, A₁, A₂, A₃], N.accepts B values = s.admits values) ∧
        (∀ B ∈ [A₁, A₂, A₃], D.accepts B values = s.admits values) ∧
        (Matcher.ofDfa A₂ D).run? values = some (s.admits values) ∧
        s.accepts values = .ok (s.admits values) := by
  obtain ⟨N, hN, hshape⟩ := s.exists_automaton A
  refine ⟨N, hN, ?_, ?_, hshape.run?_eq early middle values, ?_⟩
  · have hgrown := hshape.accepts_eq
    simp only [List.forall_mem_cons, ← Alphabet.registerAll_append]
    exact ⟨hgrown [] values, hgrown _ values, hgrown _ values, hgrown _ values, nofun⟩
  · have hgrown := hshape.accepts_determinize_eq early
    simp only [List.forall_mem_cons]
    refine ⟨hgrown [] values, hgrown middle values, ?_, nofun⟩
    rw [← Alphabet.registerAll_append _ middle late]
    exact hgrown (middle ++ late) values
  · obtain ⟨M, hM, hshape'⟩ := s.exists_automaton .empty
    rw [accepts, hM]
    exact congrArg Except.ok (hshape'.accepts_determinize_eq [] [] values)

end Signature
end SignatureAutomata
