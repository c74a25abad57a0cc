import SignatureAutomata.Signature.Wiring
import SignatureAutomata.Proofs.Nfa.Counting
import SignatureAutomata.Proofs.Signature.Automaton

/-! # The wiring of a signature carries out its construction

A program for a part of the automaton comes to the state that some steps make, whatever came before
it (`CarriesOut`).  Parts that come one after the other carry out their steps one after the other
(`CarriesOut.bind`); there the first part decides how many states the second one finds, and so which
numbers its new states have.

The alphabet has all literals before the first position (`run_register_all`).  So to register a
literal again where it stands changes nothing, and answers the code that it has.
-/

namespace SignatureAutomata
namespace Wiring

open Construction

variable {α β γ : Type} {k : Counting} {A : Alphabet α} {N M : Nfa}

/-! ### Running programs -/

theorem run_call_of_ok {x : Nfa.Call β} {b : β} (h : x.run N = .ok b M) :
    (call x).run (A, N) = .ok b (A, M) := by
  show call x (A, N) = _
  simp only [call, h]

/-- **A program carries out steps and answers `b`**, if none of the steps is refused and the counter
has numbers enough. -/
def CarriesOut (k : Counting) (A : Alphabet α) (N : Nfa) (x : Wiring α β)
    (cs : List Construction) (b : β) : Prop :=
  (k ≠ .unbounded → N.numStates + addedAll cs < counterSize) →
    ∀ M, N.applyAll .unbounded cs = .ok M → x.run (A, N) = .ok b (A, M)

theorem carriesOut_pure (b : β) : CarriesOut k A N (pure b) [] b := by
  intro _ M hM
  cases hM
  rfl

/-- **One part after the other.** -/
theorem CarriesOut.bind {x : Wiring α β} {f : β → Wiring α γ} {cs ds : List Construction} {b : β}
    {c : γ} (hx : CarriesOut k A N x cs b)
    (hf : ∀ N', N'.numStates = N.numStates + addedAll cs → CarriesOut k A N' (f b) ds c) :
    CarriesOut k A N (x >>= f) (cs ++ ds) c := by
  intro hbound M hM
  obtain ⟨N', hN', hM⟩ := Nfa.applyAll_append_eq_ok hM
  have hcount := Nfa.numStates_applyAll hN'
  rw [addedAll_append] at hbound
  have hfirst : k ≠ .unbounded → N.numStates + addedAll cs < counterSize := by
    intro hk
    have := hbound hk
    omega
  have hlater : k ≠ .unbounded → N'.numStates + addedAll ds < counterSize := by
    intro hk
    have := hbound hk
    omega
  rw [run_bind_of_ok (hx hfirst N' hN')]
  exact hf N' hcount hlater M hM

theorem CarriesOut.bind_pure {x : Wiring α β} {cs : List Construction} {b : β}
    (hx : CarriesOut k A N x cs b) (c : γ) : CarriesOut k A N (x >>= fun _ => pure c) cs c := by
  have hboth : CarriesOut k A N (x >>= fun _ => pure c) (cs ++ []) c :=
    hx.bind fun _ _ => carriesOut_pure c
  rwa [List.append_nil] at hboth

/-- **A new state is answered by its number.** -/
theorem carriesOut_newState {n : Nat} (hn : N.numStates = n) :
    CarriesOut k A N (call (Nfa.newState k)) [.newState] n := by
  subst hn
  intro hbound M hM
  cases hM
  have hnext : k.overflows N.numStates = false ∧ N.withState k = N.withState .unbounded := by
    cases k with
    | unbounded => exact ⟨rfl, rfl⟩
    | checked => exact ⟨decide_eq_false (Nat.not_le.2 (hbound (by decide))), rfl⟩
    | wrapping =>
        refine ⟨rfl, ?_⟩
        rw [Nfa.withState, Nfa.next_eq_succ fun _ => hbound (by decide)]
        rfl
  refine run_call_of_ok ((Nfa.run_newState k N).trans ?_)
  rw [hnext.1, hnext.2]
  rfl

/-- A step that adds no state is one call. -/
theorem carriesOut_step {c : Construction} (hc : c.added = 0) :
    CarriesOut k A N (call (c.call k)) [c] () := by
  intro _ M hM
  obtain ⟨N', hN', hM⟩ := Nfa.applyAll_cons_eq_ok hM
  cases hM
  obtain ⟨hfailure, rfl⟩ := Nfa.apply_eq_ok_iff_of_counting.1 hN'
  refine run_call_of_ok ((Nfa.run_call k N c).trans ?_)
  cases c with
  | newState => cases hc
  | _ => exact congrArg (Nfa.outcome · N _) hfailure

/-! ### Fragments -/

theorem carriesOut_transitions (codes : List Nat) (source target : Nat) :
    CarriesOut k A N (codes.forM fun code => call (Nfa.addTransition source code target))
      (codes.map (.transition source · target)) () := by
  induction codes generalizing N with
  | nil => exact carriesOut_pure ()
  | cons code codes ih =>
      exact (carriesOut_step (c := .transition source code target) rfl).bind fun _ _ => ih

theorem carriesOut_codes : CarriesOut k A N codes [] A.codes := by
  intro _ M hM
  cases hM
  rfl

theorem carriesOut_anyValue (source target : Nat) :
    CarriesOut k A N (anyValue source target) (anyValueEdges A.codes source target) () :=
  (carriesOut_step (c := .sigma source target) rfl).bind fun _ _ =>
    carriesOut_codes.bind fun _ _ => carriesOut_transitions A.codes source target

variable [DecidableEq α]

/-- A symbol that is registered already is not registered again. -/
theorem carriesOut_register {v : α} (hv : v ∈ A.symbols) :
    CarriesOut k A N (register v) [] (A.codeOf v) := by
  intro _ M hM
  cases hM
  show EStateM.Result.ok (A.enter v).2 ((A.enter v).1, N) = _
  rw [A.enter_eq v, Alphabet.register_of_mem hv]

/-- **The fragment of a position is laid from the state come to**, which is the last one. -/
theorem carriesOut_fragment {last : Nat} {token : Token α} (htoken : token.Registered A)
    (hN : N.numStates = last + 1) :
    CarriesOut k A N (fragment k last token) (token.fragment A last) (last + token.width) := by
  cases token with
  | literal v =>
      exact (carriesOut_newState hN).bind fun _ _ =>
        (carriesOut_register (htoken v rfl)).bind fun _ _ =>
          (carriesOut_step (c := .transition last (A.codeOf v) (last + 1)) rfl).bind_pure _
  | any =>
      exact (carriesOut_newState hN).bind fun _ _ =>
        (carriesOut_anyValue last (last + 1)).bind_pure _
  | anySequence =>
      rw [Token.fragment, List.append_assoc]
      refine (carriesOut_newState hN).bind fun N₁ h₁ => ?_
      rw [hN] at h₁
      refine (carriesOut_newState h₁).bind fun N₂ h₂ => ?_
      rw [h₁] at h₂
      refine (carriesOut_newState h₂).bind fun _ _ => ?_
      refine (carriesOut_step (c := .epsilon last (last + 1)) rfl).bind fun _ _ => ?_
      refine (carriesOut_step (c := .epsilon (last + 1) (last + 2)) rfl).bind fun _ _ => ?_
      refine (carriesOut_anyValue (last + 1) (last + 2)).bind fun _ _ => ?_
      refine (carriesOut_step (c := .epsilon (last + 2) (last + 3)) rfl).bind fun _ _ => ?_
      exact (carriesOut_step (c := .epsilon (last + 3) last) rfl).bind_pure _

/-! ### Signatures -/

/-- **The fragments of all positions are laid one behind the other**, and the end is accepting. -/
theorem carriesOut_fragments {last : Nat} {tokens : List (Token α)}
    (htokens : ∀ token ∈ tokens, token.Registered A) (hN : N.numStates = last + 1) :
    CarriesOut k A N (tokens.foldlM (fragment k) last >>= fun last => call (Nfa.addAccepting last))
      (Token.fragments A last tokens) () := by
  induction tokens generalizing last N with
  | nil => exact carriesOut_step (c := .accepting last) rfl
  | cons token tokens ih =>
      obtain ⟨htoken, htokens⟩ := List.forall_mem_cons.1 htokens
      rw [List.foldlM_cons, bind_assoc]
      refine (carriesOut_fragment htoken hN).bind fun N' hN' => ih htokens ?_
      rw [hN', hN, Token.addedAll_fragment, Nat.add_right_comm]

/-- Registering symbols leaves the automaton as it is. -/
theorem run_register_all (vs : List α) (A : Alphabet α) (N : Nfa) :
    (vs.forM fun v => do let _ ← register v : Wiring α Unit).run (A, N) =
      .ok () (A.registerAll vs, N) := by
  induction vs generalizing A with
  | nil => rfl
  | cons v vs ih =>
      have hfirst : (register v >>= fun _ => pure () : Wiring α Unit).run (A, N) =
          .ok () (A.register v, N) := by
        show EStateM.Result.ok () ((A.enter v).1, N) = _
        rw [A.enter_eq v]
      exact (run_bind_of_ok hfirst).trans (ih (A.register v))

/-- **The program puts the automaton of the signature together**, and leaves the alphabet with its
literals: it does what the construction says beforehand, however states are counted, as long as the
counter has numbers enough. -/
theorem run_signature (k : Counting) (s : Signature α) (A : Alphabet α)
    (hk : k ≠ .unbounded → Token.lastState 0 s.tokens + 1 < counterSize) :
    ∃ N, s.automaton A = .ok (s.seed A, N) ∧ N = Nfa.build (s.construction (s.seed A)) ∧
      (signature k s).run (A, Nfa.initial) = .ok () (s.seed A, N) := by
  obtain ⟨N, hN, -⟩ := s.exists_automaton A
  refine ⟨N, hN, Signature.eq_build_of_automaton hN,
    (run_bind_of_ok (run_register_all s.literals A Nfa.initial)).trans ?_⟩
  have hfragments : CarriesOut k (s.seed A) Nfa.initial
      (s.tokens.foldlM (fragment k) 0 >>= fun last => call (Nfa.addAccepting last))
      (Token.fragments (s.seed A) 0 s.tokens) () :=
    carriesOut_fragments (s.registered_seed A) rfl
  have hwhole := hfragments.bind (f := fun _ => call (modify Nfa.cacheClosures))
    fun _ _ => carriesOut_step (c := .cacheClosures) rfl
  rw [bind_assoc] at hwhole
  refine hwhole (fun hcounter => ?_) N (Signature.applyAll_of_automaton hN)
  have hcount := Token.add_addedAll_fragments (s.seed A) 0 s.tokens
  have hlt := hk hcounter
  rw [addedAll_append]
  simp only [Nfa.initial, addedAll, added]
  omega

end Wiring
end SignatureAutomata
