import SignatureAutomata.Proofs.Nfa.Call
import SignatureAutomata.Proofs.Nfa.Closure

/-! # Every constructed automaton is well formed

A step is carried out exactly if it is `Allowed` (`apply_eq_ok_iff`), and `carryOut` says
what it makes.  No allowed step lets a foreign state in, and none leaves a kept closure
that has become wrong: a step that could change a closure drops all of them.  So whatever
the steps, refused ones included, what they build is well formed (`wellFormed_build`).
States are counted without end here; other ways of counting come down to this one.

What a list of steps makes can be read off the list, if no step is refused: its states
(`numStates_applyAll`), its edges (`mem_edges_applyAll_iff`) and its accepting states
(`mem_accepting_applyAll_iff`).  No step is refused if each is `Allowed` when its turn
comes (`exists_applyAll`).
-/

namespace SignatureAutomata

namespace Construction

/-- The edge that a step adds. -/
def edge? : Construction → Option Edge
  | .transition source code target => some ⟨source, code, target⟩
  | .epsilon source target => some ⟨source, Code.epsilon, target⟩
  | .sigma source target => some ⟨source, Code.sigma, target⟩
  | _ => none

/-- How many states a step adds. -/
def added : Construction → Nat
  | .newState => 1
  | _ => 0

/-- **A step that an automaton with `n` states does not refuse.** -/
def Allowed (n : Nat) : Construction → Prop
  | .transition source code target => Code.isReserved code = false ∧ source < n ∧ target < n
  | .epsilon source target | .sigma source target => source < n ∧ target < n
  | .start state | .accepting state => state < n
  | .newState | .cacheClosures => True

/-- Steps each of which is allowed after those before it. -/
def AllowedAll : Nat → List Construction → Prop
  | _, [] => True
  | n, c :: cs => c.Allowed n ∧ AllowedAll (n + c.added) cs

/-- How many states some steps add. -/
def addedAll : List Construction → Nat
  | [] => 0
  | c :: cs => c.added + addedAll cs

theorem addedAll_append (cs ds : List Construction) :
    addedAll (cs ++ ds) = addedAll cs + addedAll ds := by
  induction cs with
  | nil => exact (Nat.zero_add _).symm
  | cons c cs ih => rw [List.cons_append, addedAll, addedAll, ih, Nat.add_assoc]

theorem allowedAll_append_iff {n : Nat} {cs ds : List Construction} :
    AllowedAll n (cs ++ ds) ↔ AllowedAll n cs ∧ AllowedAll (n + addedAll cs) ds := by
  induction cs generalizing n with
  | nil => simp [AllowedAll, addedAll]
  | cons c cs ih =>
      rw [List.cons_append, AllowedAll, AllowedAll, ih, addedAll, Nat.add_assoc, and_assoc]

end Construction

namespace Nfa
variable {N N' : Nfa}

@[simp] theorem edges_initial : initial.edges = [] := rfl

theorem wellFormed_initial : initial.WellFormed where
  start_lt := Nat.zero_lt_one
  accepting_lt s hs := absurd hs (StateSet.not_mem_empty s)
  edge_lt _ he := absurd he List.not_mem_nil
  closures_eq _ hc := by cases hc

theorem WellFormed.withState (hN : N.WellFormed) : (N.withState .unbounded).WellFormed where
  start_lt := Nat.lt_succ_of_lt hN.start_lt
  accepting_lt s hs := Nat.lt_succ_of_lt (hN.accepting_lt s hs)
  edge_lt e he := ⟨Nat.lt_succ_of_lt (hN.edge_lt e he).1, Nat.lt_succ_of_lt (hN.edge_lt e he).2⟩
  closures_eq _ hc := by cases hc

/-- An edge that consumes a value changes no closure. -/
theorem surveyEpsilon_withEdge {e : Edge} (he : e.label ≠ Code.epsilon) (states : List Nat) :
    (N.withEdge e).surveyEpsilon states = N.surveyEpsilon states := by
  refine surveyEpsilon_congr (fun s t => ?_) states
  rw [mem_edges_withEdge]
  constructor
  · rintro (rfl | h)
    · exact absurd rfl he
    · exact h
  · exact .inr

theorem WellFormed.withEdge (hN : N.WellFormed) {e : Edge} (hs : e.source < N.numStates)
    (ht : e.target < N.numStates) : (N.withEdge e).WellFormed where
  start_lt := hN.start_lt
  accepting_lt := hN.accepting_lt
  edge_lt f hf := by
    rcases mem_edges_withEdge.1 hf with rfl | hf
    · exact ⟨hs, ht⟩
    · exact hN.edge_lt f hf
  closures_eq closures hc := by
    -- an epsilon edge drops the closures, and they stay right under any other edge
    by_cases he : e.label = Code.epsilon
    · rw [Nfa.withEdge, if_pos he] at hc
      cases hc
    · rw [Nfa.withEdge, if_neg he] at hc
      rw [hN.closures_eq closures hc]
      exact List.map_congr_left fun s _ => (surveyEpsilon_withEdge he [s]).symm

theorem WellFormed.setStart (hN : N.WellFormed) {state : Nat} (h : state < N.numStates) :
    { N with start := state }.WellFormed :=
  ⟨h, hN.accepting_lt, hN.edge_lt, hN.closures_eq⟩

theorem WellFormed.addAccepting (hN : N.WellFormed) {state : Nat} (h : state < N.numStates) :
    { N with accepting := N.accepting.insert state }.WellFormed := by
  refine ⟨hN.start_lt, fun s hs => ?_, hN.edge_lt, hN.closures_eq⟩
  rcases StateSet.mem_insert.1 hs with rfl | hs
  · exact h
  · exact hN.accepting_lt s hs

theorem WellFormed.cacheClosures (hN : N.WellFormed) : N.cacheClosures.WellFormed := by
  unfold Nfa.cacheClosures
  split
  · exact hN
  · refine ⟨hN.start_lt, hN.accepting_lt, hN.edge_lt, fun closures hc => ?_⟩
    cases hc
    rfl

/-- **No cause to fail is what it means to be allowed.** -/
theorem refusal?_eq_none_iff {n : Nat} {c : Construction} :
    c.refusal? n = none ↔ c.Allowed n := by
  have hforeign : ∀ states : List Nat,
      firstForeign? n states = none ↔ ∀ s ∈ states, s < n := by
    intro states
    rw [firstForeign?, Option.map_eq_none_iff, List.find?_eq_none]
    simp only [decide_eq_true_eq, Nat.not_le]
  have hpair : ∀ source target : Nat,
      firstForeign? n [source, target] = none ↔ source < n ∧ target < n := by
    intro source target
    rw [hforeign, List.forall_mem_cons, List.forall_mem_singleton]
  cases c with
  | newState => exact iff_of_true rfl trivial
  | transition source code target =>
      unfold Construction.refusal? Construction.Allowed
      cases hcode : Code.isReserved code with
      | true => simp [Construction.reserved?_transition_of_isReserved hcode, hcode]
      | false =>
          rw [Construction.reserved?_transition_eq_none hcode]
          exact (hpair source target).trans ⟨fun h => ⟨hcode, h⟩, fun h => h.2⟩
  | epsilon source target => exact hpair source target
  | sigma source target => exact hpair source target
  | start state => exact (hforeign [state]).trans List.forall_mem_singleton
  | accepting state => exact (hforeign [state]).trans List.forall_mem_singleton
  | cacheClosures => exact iff_of_true rfl trivial

/-- **A step is carried out exactly if it is allowed.** -/
theorem apply_eq_ok_iff {c : Construction} :
    N.apply .unbounded c = .ok N' ↔ c.Allowed N.numStates ∧ N.carryOut .unbounded c = N' := by
  rw [apply_eq_ok_iff_of_counting, Construction.failure?_unbounded, refusal?_eq_none_iff]

theorem attempt_of_allowed {c : Construction} (h : c.Allowed N.numStates) :
    N.attempt .unbounded c = N.carryOut .unbounded c :=
  attempt_of_no_failure (by rw [Construction.failure?_unbounded, refusal?_eq_none_iff.2 h])

theorem attempt_of_not_allowed {c : Construction} (h : ¬ c.Allowed N.numStates) :
    N.attempt .unbounded c = N := by
  rw [← refusal?_eq_none_iff, ← ne_eq, Option.ne_none_iff_exists'] at h
  obtain ⟨e, he⟩ := h
  exact attempt_of_failure (by rw [Construction.failure?_unbounded, he])

/-- **A step that is not refused keeps the automaton well formed.** -/
theorem WellFormed.apply (hN : N.WellFormed) {c : Construction}
    (h : N.apply .unbounded c = .ok N') : N'.WellFormed := by
  obtain ⟨hc, rfl⟩ := apply_eq_ok_iff.1 h
  cases c with
  | newState => exact hN.withState
  | transition source code target => exact hN.withEdge hc.2.1 hc.2.2
  | epsilon source target => exact hN.withEdge hc.1 hc.2
  | sigma source target => exact hN.withEdge hc.1 hc.2
  | start state => exact hN.setStart hc
  | accepting state => exact hN.addAccepting hc
  | cacheClosures => exact hN.cacheClosures

theorem WellFormed.attempt (hN : N.WellFormed) (c : Construction) :
    (N.attempt .unbounded c).WellFormed := by
  by_cases hc : c.Allowed N.numStates
  · exact hN.apply (apply_eq_ok_iff.2 ⟨hc, (attempt_of_allowed hc).symm⟩)
  · rwa [attempt_of_not_allowed hc]

/-- The first step and those after it. -/
theorem applyAll_cons_eq_ok {k : Counting} {c : Construction} {cs : List Construction}
    (h : N.applyAll k (c :: cs) = .ok N') :
    ∃ M, N.apply k c = .ok M ∧ M.applyAll k cs = .ok N' := by
  rw [Nfa.applyAll] at h
  split at h
  · rename_i M hM
    exact ⟨M, hM, h⟩
  · cases h

theorem applyAll_append_eq_ok {k : Counting} {cs ds : List Construction}
    (h : N.applyAll k (cs ++ ds) = .ok N') :
    ∃ M, N.applyAll k cs = .ok M ∧ M.applyAll k ds = .ok N' := by
  induction cs generalizing N with
  | nil => exact ⟨N, rfl, h⟩
  | cons c cs ih =>
      obtain ⟨M, hM, h⟩ := applyAll_cons_eq_ok h
      obtain ⟨M', hM', h⟩ := ih h
      exact ⟨M', by rw [applyAll, hM]; exact hM', h⟩

/-- Where no step fails, the steps build the same as where failures are passed over. -/
theorem foldl_attempt_of_applyAll {k : Counting} {cs : List Construction}
    (h : N.applyAll k cs = .ok N') : cs.foldl (attempt k) N = N' := by
  induction cs generalizing N with
  | nil => exact Except.ok.inj h
  | cons c cs ih =>
      obtain ⟨M, hM, h⟩ := applyAll_cons_eq_ok h
      obtain ⟨hfailure, hcarry⟩ := apply_eq_ok_iff_of_counting.1 hM
      rw [List.foldl_cons, attempt_of_no_failure hfailure, hcarry]
      exact ih h

/-- Steps of which none is refused keep the automaton well formed. -/
theorem WellFormed.applyAll (hN : N.WellFormed) {cs : List Construction}
    (h : N.applyAll .unbounded cs = .ok N') : N'.WellFormed := by
  induction cs generalizing N with
  | nil => exact Except.ok.inj h ▸ hN
  | cons c cs ih =>
      obtain ⟨M, hM, h⟩ := applyAll_cons_eq_ok h
      exact ih (hN.apply hM) h

/-- **Every automaton that construction steps build is well formed.** -/
theorem wellFormed_build (cs : List Construction) : (build cs).WellFormed := by
  -- the steps after the first do not start from `initial`
  suffices key : ∀ N : Nfa, N.WellFormed → (cs.foldl (attempt .unbounded) N).WellFormed from
    key initial wellFormed_initial
  induction cs with
  | nil => exact fun _ hN => hN
  | cons c cs ih => exact fun N hN => ih _ (hN.attempt c)

/-! ### What steps add -/

/-- **What a step does when it is not refused**: to the states, the edges, the accepting
states and the start. -/
structure Effect (c : Construction) (N N' : Nfa) : Prop where
  numStates_eq : N'.numStates = N.numStates + c.added
  mem_edges_iff : ∀ e, e ∈ N'.edges ↔ c.edge? = some e ∨ e ∈ N.edges
  mem_accepting_iff : ∀ s, s ∈ N'.accepting ↔ c = .accepting s ∨ s ∈ N.accepting
  start_eq : (∀ s, c ≠ .start s) → N'.start = N.start

theorem effect_withEdge {c : Construction} {e : Edge} (he : c.edge? = some e)
    (hadded : c.added = 0) (hacc : ∀ s, c ≠ .accepting s) : Effect c N (N.withEdge e) where
  numStates_eq := by rw [hadded]; rfl
  mem_edges_iff f := by rw [mem_edges_withEdge, he, Option.some.injEq, eq_comm]
  mem_accepting_iff s := ⟨.inr, fun h => h.resolve_left (hacc s)⟩
  start_eq _ := rfl

theorem effect_cacheClosures (N : Nfa) : Effect .cacheClosures N N.cacheClosures where
  numStates_eq := numStates_cacheClosures N
  mem_edges_iff e := by simp [Construction.edge?]
  mem_accepting_iff s := by
    unfold Nfa.cacheClosures
    split <;> simp
  start_eq _ := by
    unfold Nfa.cacheClosures
    split <;> rfl

theorem effect_of_apply {c : Construction} (h : N.apply .unbounded c = .ok N') : Effect c N N' := by
  obtain ⟨-, rfl⟩ := apply_eq_ok_iff.1 h
  cases c with
  | newState =>
      exact ⟨rfl, fun e => by simp [Construction.edge?, carryOut, withState, edges],
        fun s => by simp [carryOut, withState], fun _ => rfl⟩
  | transition source code target => exact effect_withEdge rfl rfl nofun
  | epsilon source target => exact effect_withEdge rfl rfl nofun
  | sigma source target => exact effect_withEdge rfl rfl nofun
  | start state =>
      exact ⟨rfl, fun e => by simp [Construction.edge?, carryOut, edges],
        fun s => by simp [carryOut], fun hs => absurd rfl (hs state)⟩
  | accepting state =>
      refine ⟨rfl, fun e => by simp [Construction.edge?, carryOut, edges], fun s => ?_,
        fun _ => rfl⟩
      rw [carryOut, StateSet.mem_insert, Construction.accepting.injEq, eq_comm]
  | cacheClosures => exact effect_cacheClosures N

/-- **Allowed steps are carried out.** -/
theorem exists_applyAll {cs : List Construction} (h : Construction.AllowedAll N.numStates cs) :
    ∃ N', N.applyAll .unbounded cs = .ok N' := by
  induction cs generalizing N with
  | nil => exact ⟨N, rfl⟩
  | cons c cs ih =>
      have hM : N.apply .unbounded c = .ok (N.carryOut .unbounded c) := apply_eq_ok_iff.2 ⟨h.1, rfl⟩
      rw [Nfa.applyAll, hM]
      refine ih ?_
      rw [(effect_of_apply hM).numStates_eq]
      exact h.2

theorem numStates_applyAll {cs : List Construction} (h : N.applyAll .unbounded cs = .ok N') :
    N'.numStates = N.numStates + Construction.addedAll cs := by
  induction cs generalizing N with
  | nil => exact congrArg Nfa.numStates (Except.ok.inj h).symm
  | cons c cs ih =>
      obtain ⟨M, hM, h⟩ := applyAll_cons_eq_ok h
      rw [ih h, (effect_of_apply hM).numStates_eq, Construction.addedAll, Nat.add_assoc]

theorem mem_edges_applyAll_iff {cs : List Construction} (h : N.applyAll .unbounded cs = .ok N')
    {e : Edge} :
    e ∈ N'.edges ↔ e ∈ cs.filterMap Construction.edge? ∨ e ∈ N.edges := by
  induction cs generalizing N with
  | nil =>
      cases h
      simp
  | cons c cs ih =>
      obtain ⟨M, hM, h⟩ := applyAll_cons_eq_ok h
      rw [ih h, (effect_of_apply hM).mem_edges_iff]
      simp only [List.mem_filterMap, List.mem_cons, exists_eq_or_imp]
      rw [or_left_comm, or_assoc]

theorem mem_accepting_applyAll_iff {cs : List Construction} (h : N.applyAll .unbounded cs = .ok N')
    {s : Nat} : s ∈ N'.accepting ↔ .accepting s ∈ cs ∨ s ∈ N.accepting := by
  induction cs generalizing N with
  | nil =>
      cases h
      simp
  | cons c cs ih =>
      obtain ⟨M, hM, h⟩ := applyAll_cons_eq_ok h
      rw [ih h, (effect_of_apply hM).mem_accepting_iff, List.mem_cons, or_left_comm, or_assoc,
        eq_comm]

/-- Only a start step moves the start. -/
theorem start_applyAll {cs : List Construction} (h : N.applyAll .unbounded cs = .ok N')
    (hstart : ∀ s, .start s ∉ cs) : N'.start = N.start := by
  induction cs generalizing N with
  | nil => exact congrArg Nfa.start (Except.ok.inj h).symm
  | cons c cs ih =>
      obtain ⟨M, hM, h⟩ := applyAll_cons_eq_ok h
      have hc : ∀ s, c ≠ .start s := fun s hs => hstart s (hs ▸ List.mem_cons_self ..)
      rw [ih h fun s hs => hstart s (List.mem_cons_of_mem _ hs), (effect_of_apply hM).start_eq hc]

end Nfa
end SignatureAutomata
