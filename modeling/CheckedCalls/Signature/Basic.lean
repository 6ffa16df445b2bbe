import CheckedCalls.Types.Class
import CheckedCalls.Types.Expr

/-!
# Signatures

A signature gives a checked function its name, the type-class constraints on its variables, one slot
for each parameter and the type of its result. `Signature.build` makes one from a mapping of
constraints and a list of types of which the last is the result, and refuses what is malformed.
-/

namespace CheckedCalls

/-- A type class that the values of a variable must satisfy. -/
structure Constraint where
  typeClass : String
  variableName : String
  deriving DecidableEq, Repr, Inhabited

namespace Constraint

/-- The constraint as a signature shows it. -/
def text (c : Constraint) : String := c.typeClass ++ " " ++ c.variableName

end Constraint

/-- One parameter; a variadic one takes all further arguments. -/
structure Slot where
  type : TypeExpr
  variadic : Bool
  deriving Inhabited

/-- The name, constraints, slots and result of a checked function. -/
structure Signature where
  name : String
  constraints : List Constraint
  slots : List Slot
  returns : TypeExpr
  deriving Inhabited

/-- An entry of the list of types that a signature is built from. -/
inductive TypeEntry
  | type (t : TypeLike)
  | slot (s : Slot)

/-- The type classes demanded of each variable. -/
abbrev ConstraintMap := List (String × List String)

namespace ConstraintMap

/-- Sets the classes of a variable: one that is there keeps its place. -/
def set (name : String) (classes : List String) : ConstraintMap → ConstraintMap
  | [] => [(name, classes)]
  | (n, cs) :: rest => if n = name then (n, classes) :: rest else (n, cs) :: set name classes rest

/-- The mapping of a list of pairs, of which a later one replaces an earlier one. -/
def ofList (pairs : List (String × List String)) : ConstraintMap :=
  pairs.foldl (fun m p => set p.1 p.2 m) []

/-- The constraints in the order of the mapping. -/
def flatten (m : ConstraintMap) : List Constraint :=
  m.flatMap fun p => p.2.map fun c => ⟨c, p.1⟩

end ConstraintMap

namespace Signature

/-! ## Building -/

/-- The words for what is wrong with the signature of a function. -/
def malformed (name problem : String) : Fault :=
  .signature (if name.isEmpty then problem
    else "Invalid signature for ‘" ++ name ++ "’: " ++ problem)

/-- A slot for an entry. -/
def toSlot : TypeEntry → Except Fault Slot
  | .slot s => .ok s
  | .type t => do return ⟨← t.toExpr, false⟩

/-- The variables that a signature uses. -/
def variableNames (s : Signature) : List String :=
  s.slots.flatMap (fun slot => slot.type.variableNames) ++ s.returns.variableNames

/-- Only the last slot may be variadic, and each constraint must name a variable that is used. -/
def validate (s : Signature) : Except Fault Signature := do
  if s.slots.dropLast.any Slot.variadic then
    throw (malformed s.name "only the last parameter may be variadic")
  match s.constraints.find? fun c => !s.variableNames.contains c.variableName with
  | some c => throw (malformed s.name
      ("constraint " ++ c.text ++ " names a type variable that is not used"))
  | none => return s

/-- Builds a signature; the last entry of `types` is the result. -/
def build (name : String) (constraints : ConstraintMap) (types : List TypeEntry)
    (registry : Registry) : Except Fault Signature := do
  match types.getLast? with
  | none => throw (malformed name "at least a result type is required")
  | some result =>
    match constraints.flatten.find? fun c => !registry.knows c.typeClass with
    | some c => throw (malformed name ("unknown type class ‘" ++ c.typeClass ++ "’"))
    | none =>
      match result with
      | .slot _ => throw (malformed name "the result type cannot be variadic")
      | .type result =>
        let slots ← types.dropLast.mapM toSlot
        validate ⟨name, constraints.flatten, slots, ← result.toExpr⟩

/-! ## Arity -/

/-- The last slot takes any number of arguments. -/
def isVariadic (s : Signature) : Bool :=
  match s.slots.getLast? with
  | some slot => slot.variadic
  | none => false

/-- The least number of arguments. -/
def minArity (s : Signature) : Nat :=
  if s.isVariadic then s.slots.length - 1 else s.slots.length

/-- The greatest number of arguments, if there is one. -/
def maxArity? (s : Signature) : Option Nat :=
  if s.isVariadic then none else some s.slots.length

/-- The slot that checks the argument at a place. -/
def slotFor (s : Signature) (index : Nat) : Nat :=
  if s.isVariadic && decide (s.slots.length - 1 ≤ index) then s.slots.length - 1 else index

/-- The number of arguments fits. -/
def accepts (s : Signature) (count : Nat) : Bool :=
  if s.isVariadic then decide (s.minArity ≤ count) else decide (count = s.minArity)

/-- The type classes that the values of a variable must satisfy. -/
def constraintsOn (s : Signature) (name : String) : List String :=
  (s.constraints.filter fun c => c.variableName == name).map Constraint.typeClass

end Signature

end CheckedCalls
