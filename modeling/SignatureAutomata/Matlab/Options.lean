/-! # Options for MATLAB source

What may be chosen about the source of a matcher: the names of its two functions and
the indentation.  A name has to be an identifier: a letter, then letters, digits and
underscores, at most 63 characters in all.  The two names have to differ.
-/

namespace SignatureAutomata
namespace Matlab

/-- **The choices to be made about the source of a matcher.** -/
structure Options where
  /-- The name of the function that matches. -/
  functionName : String := "match_signature"
  /-- The name of the function that turns a value into its code. -/
  classifierName : String := "classify_symbol"
  /-- How many spaces make one level of indentation. -/
  indent : Nat := 4
  deriving DecidableEq

/-- A name that cannot be used. -/
structure InvalidName where
  name : String
  deriving DecidableEq

/-- The wording of the refusal. -/
def InvalidName.message (e : InvalidName) : String :=
  "`" ++ e.name ++ "` is not a valid MATLAB identifier"

/-- The greatest length of an identifier. -/
def greatestLength : Nat := 63

/-- Whether a text is an identifier.  Letters and digits are those of ASCII. -/
def isIdentifier (name : String) : Bool :=
  match name.toList with
  | [] => false
  | c :: cs =>
      c.isAlpha && cs.all (fun d => d.isAlphanum || d = '_') && decide (cs.length < greatestLength)

namespace Options

/-- **The first name that cannot be used.**  Where both names are identifiers but
equal, it is the classifier's. -/
def invalidName? (o : Options) : Option InvalidName :=
  if isIdentifier o.functionName then
    if isIdentifier o.classifierName ∧ o.functionName ≠ o.classifierName then none
    else some ⟨o.classifierName⟩
  else some ⟨o.functionName⟩

/-- Refuses options with a name that cannot be used. -/
def validate (o : Options) : Except InvalidName Unit :=
  match o.invalidName? with
  | some e => .error e
  | none => .ok ()

theorem invalidName?_eq_none_iff {o : Options} :
    o.invalidName? = none ↔
      isIdentifier o.functionName = true ∧ isIdentifier o.classifierName = true ∧
        o.functionName ≠ o.classifierName := by
  unfold invalidName?
  split
  · rename_i h
    split <;> rename_i h'
    · exact ⟨fun _ => ⟨h, h'⟩, fun _ => rfl⟩
    · exact ⟨fun e => (Option.some_ne_none _ e).elim, fun e => (h' e.2).elim⟩
  · rename_i h
    exact ⟨fun e => (Option.some_ne_none _ e).elim, fun e => (h e.1).elim⟩

theorem validate_eq_ok_iff {o : Options} : o.validate = .ok () ↔ o.invalidName? = none := by
  rw [validate]
  cases o.invalidName? <;> simp

/-- The spaces of one level of indentation. -/
def pad (o : Options) : List Char := List.replicate o.indent ' '

end Options
end Matlab
end SignatureAutomata
