import CheckedCalls.Violation.Markers

/-!
# Violations and their reports

A violation records which rule a call broke, the signature with the ranges to mark, the values
that broke it and a closing sentence. Its report is a text of sections between blank lines: the
title, the signature with its markers, one line per value, and the sentence.
-/

namespace CheckedCalls

/-- The rule that a call violated. -/
inductive ViolationKind
  | typeClass | typeVariable | invalidValue | arity
  deriving DecidableEq, Repr, Inhabited

namespace ViolationKind

/-- The title of a report. -/
def title : ViolationKind → String
  | .typeClass => "Type-class constraint violation"
  | .typeVariable => "Type-variable constraint violation"
  | .invalidValue => "Invalid value"
  | .arity => "Arity violation"

def code : ViolationKind → String
  | .typeClass => "V0101"
  | .typeVariable => "V0102"
  | .invalidValue => "V0103"
  | .arity => "V0104"

/-- The rule in a few words. -/
def description : ViolationKind → String
  | .typeClass => "type-class constraint violation"
  | .typeVariable => "type-variable constraint violation"
  | .invalidValue => "invalid value"
  | .arity => "wrong number of arguments"

end ViolationKind

/-- A numbered value of a report, with the types it belongs to. -/
structure OffendingValue where
  number : Int
  text : String
  types : List String
  deriving DecidableEq, Repr, Inhabited

namespace OffendingValue

/-- The line of a report that shows the value. -/
def line (v : OffendingValue) : String :=
  toString v.number ++ ")  " ++ v.text ++ " :: " ++ ", ".intercalate v.types

end OffendingValue

/-- A violated signature. -/
structure Violation where
  kind : ViolationKind
  functionName : String
  signature : String
  underlines : List Underline
  values : List OffendingValue
  explanation : String
  positions : List Int
  deriving DecidableEq, Repr, Inhabited

namespace Violation

/-- The lines of the signature section: the signature, then carets if something is marked, then
labels if there are any. -/
def signatureLines? (v : Violation) : Option (List String) :=
  if v.underlines.isEmpty then some [v.signature]
  else do
    let (carets, labels) ← Markers.lines? v.underlines
    return [v.signature, carets] ++ (if labels.isEmpty then [] else [labels])

/-- The sections of a report. -/
def sections? (v : Violation) : Option (List String) := do
  let block ← v.signatureLines?
  return [v.kind.title, "\n".intercalate block] ++ v.values.map OffendingValue.line ++
    (if v.explanation.isEmpty then [] else [v.explanation])

/-- The report: its sections between blank lines, and a line end. -/
def report? (v : Violation) : Option String := do
  return "\n\n".intercalate (← v.sections?) ++ "\n"

/-- The report of a violation whose underlines start inside the line. -/
def report (v : Violation) : String := v.report?.getD ""

end Violation

/-! ## Closing sentences -/

namespace Explanation

/-- A value fails a type class that its variable is constrained by. -/
def typeClass (function variable_ typeClass : String) (number : Int) : String :=
  "‘" ++ function ++ "’ requires ‘" ++ variable_ ++ "’ to satisfy the " ++ typeClass ++
    " type-class constraint; the value at position " ++ toString number ++ " does not."

/-- The values seen for one variable share no type. -/
def typeVariable : String :=
  "Since there is no type of which all the above values are members, " ++
    "the type-variable constraint has been violated."

/-- A value is not a member of the type of its slot. -/
def invalidValue (type : String) (number : Int) : String :=
  "The value at position " ++ toString number ++ " is not a member of ‘" ++ type ++ "’."

/-- A call has too few or too many arguments. -/
def arity (function : String) (expected received : Int) (variadic : Bool) : String :=
  let quantity := if variadic then "at least " ++ toString expected else toString expected
  let noun := if expected = 1 then "argument" else "arguments"
  "‘" ++ function ++ "’ expects " ++ quantity ++ " " ++ noun ++ " but received " ++
    toString received ++ "."

end Explanation

end CheckedCalls
