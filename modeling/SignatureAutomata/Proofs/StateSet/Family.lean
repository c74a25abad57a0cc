import Mathlib.Logic.Function.Basic
import SignatureAutomata.Proofs.StateSet.FixedBits
import SignatureAutomata.StateSet.Family

/-! # What becomes of named sets

Each command means something for finite sets of numbers (`Family.Command.meaning`), and a history of
commands leaves a finite set under each name (`Family.meanings`).  Capacities have no part in it.

A `Family` and bits kept under the same names both follow: one command does to what they show what
it means (`Family.view_apply`, `FixedBits.Lawful.exists_apply`), and so do all of a history, by
induction on it (`Family.view_run`, `FixedBits.Lawful.exists_run`).  So whatever can be seen of a
set is that of a finite set which its history determines, and is the same for a `StateSet` as for
bits of any lengths (`FixedBits.observations_run`).
-/

namespace SignatureAutomata
namespace Family

/-- What a command means for the finite sets under all names: the set that it leaves under
`name`. -/
def Command.meaning (M : String → Finset Nat) (name : String) : Command → Finset Nat
  | .reserve _ => ∅
  | .single s _ => {s}
  | .ofList l => l.toFinset
  | .insert s => Insert.insert s (M name)
  | .extend l => M name ∪ l.toFinset
  | .union other => M name ∪ M other
  | .copy other => M other

/-- The finite sets after one more command. -/
def amend (M : String → Finset Nat) (call : String × Command) : String → Finset Nat :=
  Function.update M call.1 (call.2.meaning M call.1)

/-- **The finite sets that a history of commands leaves under the names.** -/
def meanings (calls : List (String × Command)) : String → Finset Nat :=
  calls.foldl amend fun _ => ∅

/-! ### A family -/

/-- Carries out commands in turn. -/
def run (f : Family) (calls : List (String × Command)) : Family :=
  calls.foldl (fun f call => f.apply call.1 call.2) f

/-- The finite sets under the names. -/
def view (f : Family) (name : String) : Finset Nat := (f.get name).toFinset

theorem lookup_cons (e : String × StateSet) (l : List (String × StateSet)) (name : String) :
    (e :: l).lookup name = if name = e.1 then some e.2 else l.lookup name := by
  obtain ⟨key, S⟩ := e
  rw [List.lookup_cons]
  by_cases h : name = key
  · rw [beq_iff_eq.2 h, if_pos h]
  · rw [beq_false_of_ne h, if_neg h]

/-- Every entry under a name is replaced. -/
theorem lookup_replace (l : List (String × StateSet)) (name other : String) (S : StateSet) :
    (l.map fun e => if e.1 == name then (name, S) else e).lookup other =
      if other = name then (l.lookup name).map fun _ => S else l.lookup other := by
  induction l with
  | nil => simp
  | cons e l ih =>
      rw [List.map_cons, lookup_cons, lookup_cons, lookup_cons, ih]
      by_cases he : e.1 = name
      · subst he
        by_cases ho : other = e.1 <;> simp [ho]
      · by_cases ho : other = name
        · subst ho
          simp [he, Ne.symm he]
        · simp [he, ho]

/-- Storing a set changes what is under its name and nothing else. -/
theorem get_put (f : Family) (name other : String) (S : StateSet) :
    (f.put name S).get other = if other = name then S else f.get other := by
  have hany : f.sets.any (·.1 == name) = (f.sets.lookup name).isSome := by
    rw [Bool.eq_iff_iff, List.any_eq_true, List.lookup_isSome_iff]
    simp only [BEq.comm]
  rw [get, put, hany]
  cases hname : f.sets.lookup name with
  | none =>
      show ((f.sets ++ [(name, S)]).lookup other).getD ∅ = _
      rw [List.lookup_append, lookup_cons]
      split
      case isTrue h => rw [h, hname]; rfl
      case isFalse => rw [List.lookup_nil, Option.or_none, get]
  | some T =>
      show ((f.sets.map fun e => if e.1 == name then (name, S) else e).lookup other).getD ∅ = _
      rw [lookup_replace, hname]
      split
      · rfl
      · rw [get]

theorem toFinset_result (f : Family) (name : String) (c : Command) :
    (f.result name c).toFinset = c.meaning f.view name := by
  cases c with
  | reserve n => rfl
  | single s n => exact StateSet.toFinset_singleton s
  | ofList l => exact StateSet.toFinset_ofList l
  | insert s => exact StateSet.toFinset_insert _ s
  | extend l => exact StateSet.toFinset_insertAll _ l
  | union other => exact StateSet.toFinset_union _ _
  | copy other => rfl

/-- **A command does to a family what it means.** -/
theorem view_apply (f : Family) (call : String × Command) :
    (f.apply call.1 call.2).view = amend f.view call := by
  funext other
  rw [view, apply, get_put, amend, Function.update_apply, ← toFinset_result, apply_ite
    StateSet.toFinset, view]

theorem view_run (f : Family) (calls : List (String × Command)) :
    (f.run calls).view = calls.foldl amend f.view := by
  induction calls generalizing f with
  | nil => rfl
  | cons call calls ih =>
      show ((f.apply call.1 call.2).run calls).view = _
      rw [ih, view_apply, List.foldl_cons]

/-- A family follows the finite sets. -/
theorem toFinset_get_run (calls : List (String × Command)) (name : String) :
    ((empty.run calls).get name).toFinset = meanings calls name :=
  congrFun (view_run empty calls) name

end Family

namespace FixedBits
variable {L : FixedBits}

/-! ### Bits under names -/

/-- The bits that a command leaves under `name`. -/
def result (L : FixedBits) (F : String → L.Bits) (name : String) : Family.Command → Option L.Bits
  | .reserve n => some (L.withLength n)
  | .single s n => L.single s n
  | .ofList l => L.ofList l
  | .insert s => (L.insert (F name) s).map (·.1)
  | .extend l => L.extend (F name) l
  | .union other => some (L.union (F name) (F other))
  | .copy other => some (F other)

/-- Carries out a command on the bits under a name. -/
def apply (L : FixedBits) (F : String → L.Bits) (call : String × Family.Command) :
    Option (String → L.Bits) :=
  (L.result F call.1 call.2).map (Function.update F call.1)

/-- Carries out commands in turn, from no bits at all under each name. -/
def run (L : FixedBits) (calls : List (String × Family.Command)) : Option (String → L.Bits) :=
  calls.foldlM L.apply fun _ => L.empty

/-- The finite sets under the names. -/
def view (L : FixedBits) (F : String → L.Bits) (name : String) : Finset Nat := L.members (F name)

namespace Lawful

theorem exists_result (hL : L.Lawful) (F : String → L.Bits) (name : String)
    (c : Family.Command) :
    ∃ b, L.result F name c = some b ∧ L.members b = c.meaning (L.view F) name := by
  cases c with
  | reserve n => exact ⟨_, rfl, hL.members_withLength n⟩
  | single s n => exact hL.exists_single s n
  | ofList l => exact hL.exists_ofList l
  | insert s =>
      obtain ⟨b, hb, hmembers⟩ := hL.exists_insert (F name) s
      exact ⟨b, congrArg (Option.map Prod.fst) hb, hmembers⟩
  | extend l => exact hL.exists_extend (F name) l
  | union other => exact ⟨_, rfl, hL.members_union _ _⟩
  | copy other => exact ⟨_, rfl, rfl⟩

/-- **A command is carried out on bits, and does what it means.** -/
theorem exists_apply (hL : L.Lawful) (F : String → L.Bits) (call : String × Family.Command) :
    ∃ G, L.apply F call = some G ∧ L.view G = Family.amend (L.view F) call := by
  obtain ⟨b, hb, hmembers⟩ := hL.exists_result F call.1 call.2
  refine ⟨Function.update F call.1 b, by rw [apply, hb, Option.map_some], ?_⟩
  funext other
  rw [view, Family.amend, Function.update_apply, Function.update_apply, ← hmembers, apply_ite
    L.members, view]

theorem exists_foldlM (hL : L.Lawful) (F : String → L.Bits)
    (calls : List (String × Family.Command)) :
    ∃ G, calls.foldlM L.apply F = some G ∧ L.view G = calls.foldl Family.amend (L.view F) := by
  induction calls generalizing F with
  | nil => exact ⟨F, rfl, rfl⟩
  | cons call calls ih =>
      obtain ⟨G, hG, hview⟩ := hL.exists_apply F call
      obtain ⟨H, hH, hrest⟩ := ih G
      refine ⟨H, ?_, by rw [hrest, hview, List.foldl_cons]⟩
      rw [List.foldlM_cons, hG]
      exact hH

/-- Bits follow the finite sets, and no command of a history is refused. -/
theorem exists_run (hL : L.Lawful) (calls : List (String × Family.Command)) :
    ∃ F, L.run calls = some F ∧ ∀ name, L.members (F name) = Family.meanings calls name := by
  obtain ⟨F, hF, hview⟩ := hL.exists_foldlM (fun _ => L.empty) calls
  have hempty : (L.view fun _ => L.empty) = fun _ => ∅ := funext fun _ => hL.members_empty
  refine ⟨F, hF, fun name => ?_⟩
  rw [← view, hview, hempty, Family.meanings]

end Lawful

/-- **Whatever can be seen of a set is that of a finite set, which its history determines.**  Of two
sets, each with a history of its own, equality, a common member and what is fed to a hasher are as
for the finite sets; a `StateSet` and bits agree on all of it. -/
theorem observations_run (hL : L.Lawful) (calls calls' : List (String × Family.Command)) :
    ∃ F G, L.run calls = some F ∧ L.run calls' = some G ∧ ∀ name other,
      let M := Family.meanings calls name
      let K := Family.meanings calls' other
      let S := (Family.empty.run calls).get name
      let T := (Family.empty.run calls').get other
      (L.observe (F name)).Of M ∧ S.observe = L.observe (F name) ∧
      (L.intersects (F name) (G other) = true ↔ (M ∩ K).Nonempty) ∧
      S.intersects T = L.intersects (F name) (G other) ∧
      (L.same (F name) (G other) = true ↔ M = K) ∧ (S = T ↔ M = K) ∧
      (M = K → L.observe (F name) = L.observe (G other) ∧
        ∀ {H : Type} (feed : H → Nat → H) (start : H),
          L.hash feed start (F name) = L.hash feed start (G other)) := by
  obtain ⟨F, hF, hcalls⟩ := hL.exists_run calls
  obtain ⟨G, hG, hcalls'⟩ := hL.exists_run calls'
  refine ⟨F, G, hF, hG, fun name other => ?_⟩
  intro M K S T
  have hS : S.toFinset = M := Family.toFinset_get_run calls name
  have hT : T.toFinset = K := Family.toFinset_get_run calls' other
  have hF : L.members (F name) = M := hcalls name
  have hG : L.members (G other) = K := hcalls' other
  have hobserve : (L.observe (F name)).Of M := hF ▸ hL.observe_of (F name)
  have hintersects : L.intersects (F name) (G other) = true ↔ (M ∩ K).Nonempty := by
    rw [hL.intersects_iff, hF, hG]
  refine ⟨hobserve, ?_, hintersects, ?_, ?_, ?_, fun hMK => ⟨?_, ?_⟩⟩
  · exact (hS ▸ S.observe_of).unique hobserve
  · rw [Bool.eq_iff_iff, hintersects, StateSet.intersects_iff_nonempty, hS, hT]
  · rw [hL.same_iff, hF, hG]
  · rw [← StateSet.toFinset_inj, hS, hT]
  · exact hobserve.unique ((hG.trans hMK.symm) ▸ hL.observe_of (G other))
  · exact hL.hash_eq (hF.trans (hMK.trans hG.symm))

/-- One set united with another that has more bits, and one made with room to spare: as many bits
as one has the other has not, and still nobody can tell them apart. -/
theorem observations_run_uneven :
    let calls : List (String × Family.Command) :=
      [("narrow", .single 5 6), ("far", .single 33 4), ("narrow", .union "far")]
    let calls' : List (String × Family.Command) :=
      [("wide", .reserve 40), ("wide", .insert 5), ("wide", .extend [33, 5])]
    lists.Lawful ∧ ∃ F G, lists.run calls = some F ∧ lists.run calls' = some G ∧
      lists.length (F "narrow") = 34 ∧ lists.length (G "wide") = 40 ∧
      lists.same (F "narrow") (G "wide") = true ∧
      lists.observe (F "narrow") = lists.observe (G "wide") ∧
      (lists.observe (G "wide")).list = [5, 33] ∧
      ∀ feed : Nat → Nat → Nat, lists.hash feed 0 (F "narrow") = lists.hash feed 0 (G "wide") := by
  intro calls calls'
  obtain ⟨F, G, hF, hG, hrun⟩ := observations_run lawful_lists calls calls'
  obtain ⟨-, -, -, -, hsame, -, halike⟩ := hrun "narrow" "wide"
  have hmeanings : Family.meanings calls "narrow" = Family.meanings calls' "wide" := by decide
  obtain ⟨hobserve, hhash⟩ := halike hmeanings
  have hnarrow : (lists.run calls).map (fun F => lists.length (F "narrow")) = some 34 := by decide
  have hwide : (lists.run calls').map (fun G => (lists.length (G "wide"), lists.ones (G "wide"))) =
      some (40, [5, 33]) := by decide
  rw [hF, Option.map_some, Option.some_inj] at hnarrow
  rw [hG, Option.map_some, Option.some_inj, Prod.mk.injEq] at hwide
  exact ⟨lawful_lists, F, G, hF, hG, hnarrow, hwide.1, hsame.2 hmeanings, hobserve, hwide.2,
    fun feed => hhash feed 0⟩

end FixedBits
end SignatureAutomata
