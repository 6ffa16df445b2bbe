import CheckedCalls.Sorting
import CheckedCalls.Value.Attribute

/-!
# Named types

A named type is a set of values with a name: the vocabulary of signatures and of the descriptors
of values. Two named types are the same if name, arity and specificity agree, whatever their
tests. A parameterised type can extract the values that each of its parameters describes.
-/

namespace CheckedCalls

/-- The sets of values that the library names. -/
inductive StandardType
  | function | array | boolean | date | error | null | number | object | regexp | string
  | validNumber | finiteNumber | nonZeroFiniteNumber | integer | nonNegativeInteger
  | either | maybe | any | typeRep
  deriving DecidableEq, Repr, Inhabited

/-- How membership of a named type is decided. -/
inductive Membership
  | standard (t : StandardType)
  /-- The values of one class or type identifier. -/
  | nominal (name : String)
  /-- The values for which a function answers something true. -/
  | custom (test : Value)

/-- How the values described by each parameter of a type are found. -/
inductive Extraction
  | array
  | maybe
  | either
  /-- A function answers a sequence with the values of each parameter. -/
  | custom (extract : Value)

/-- A named set of values. -/
structure NamedType where
  name : String
  arity : Int
  specificity : Int
  membership : Membership
  extraction : Option Extraction

namespace NamedType

/-- Sameness of named types looks at name, arity and specificity only. -/
def same (s t : NamedType) : Bool :=
  s.name == t.name && s.arity == t.arity && s.specificity == t.specificity

instance : BEq NamedType := ⟨same⟩

instance : Inhabited NamedType := ⟨"", 0, 0, .standard .any, none⟩

end NamedType

/-! ## The library's own types -/

namespace Number

/-- The number is finite; a fraction too large for a binary64 number has no answer. -/
def finite (n : Number) : Except Fault Bool :=
  match n.isFinite? with
  | some b => .ok b
  | none => .error .overflow

/-- The number is finite and whole. -/
def wholeNumber : Number → Except Fault Bool
  | .int _ => .ok true
  | n => do if ← n.finite then return n.isWhole else return false

end Number

namespace StandardType

/-- Membership of a set of numbers; values of other kinds are no members. -/
def ofNumber (test : Number → Except Fault Bool) (v : Value) : Except Fault Bool :=
  match v.number? with
  | some n => test n
  | none => .ok false

/-- Membership of the sets that the library names. -/
def test (t : StandardType) (v : Value) : Except Fault Bool :=
  match t, v with
  | .function, v => .ok v.isCallable
  | .array, .seq _ _ _ => .ok true
  | .boolean, .bool _ => .ok true
  | .date, .date _ _ => .ok true
  | .date, .moment _ _ => .ok true
  | .error, .error _ _ _ => .ok true
  | .null, .null => .ok true
  | .number, v => .ok v.isNumber
  | .object, .dict _ _ => .ok true
  | .regexp, .pattern _ => .ok true
  | .string, .text _ _ => .ok true
  | .validNumber, v => ofNumber (fun n => .ok !n.isNaN) v
  | .finiteNumber, v => ofNumber Number.finite v
  | .nonZeroFiniteNumber, v =>
    ofNumber (fun n => do if ← n.finite then return !n.isZero else return false) v
  | .integer, v => ofNumber Number.wholeNumber v
  | .nonNegativeInteger, v =>
    ofNumber (fun n => do if ← n.wholeNumber then return n.isNonNegative else return false) v
  | .either, v => .ok (v.isA .either)
  | .maybe, v => .ok (v.isA .maybe)
  | .any, _ => .ok true
  | .typeRep, .type _ => .ok true
  | _, _ => .ok false

def name : StandardType → String
  | .function => "Function" | .array => "Array" | .boolean => "Boolean" | .date => "Date"
  | .error => "Error" | .null => "Null" | .number => "Number" | .object => "Object"
  | .regexp => "RegExp" | .string => "String" | .validNumber => "ValidNumber"
  | .finiteNumber => "FiniteNumber" | .nonZeroFiniteNumber => "NonZeroFiniteNumber"
  | .integer => "Integer" | .nonNegativeInteger => "NonNegativeInteger"
  | .either => "Either" | .maybe => "Maybe" | .any => "Any" | .typeRep => "TypeRep"

/-- The number of parameters. -/
def arity : StandardType → Int
  | .array | .maybe | .typeRep => 1
  | .either => 2
  | _ => 0

/-- How narrow the set is: a set of numbers outranks those that contain it. -/
def specificity : StandardType → Int
  | .validNumber => 1
  | .finiteNumber => 2
  | .nonZeroFiniteNumber => 3
  | .integer => 4
  | .nonNegativeInteger => 5
  | _ => 0

def extraction : StandardType → Option Extraction
  | .array => some .array
  | .maybe => some .maybe
  | .either => some .either
  | _ => none

/-- The set as a named type. -/
def named (t : StandardType) : NamedType :=
  ⟨t.name, t.arity, t.specificity, .standard t, t.extraction⟩

/-- Every set that the library names. -/
def all : List StandardType :=
  [.function, .array, .boolean, .date, .error, .null, .number, .object, .regexp, .string,
    .finiteNumber, .nonZeroFiniteNumber, .either, .integer, .maybe, .validNumber,
    .nonNegativeInteger, .any, .typeRep]

/-- The types that describe values unless others are given. -/
def defaultEnv : List NamedType :=
  [.function, .array, .boolean, .date, .error, .null, .number, .object, .regexp, .string,
    .finiteNumber, .nonZeroFiniteNumber, .either, .integer, .maybe, .validNumber].map
    StandardType.named

end StandardType

/-! ## Nominal types -/

/-- The part of an identifier after its last slash. -/
def lastSegment (s : String) : String :=
  String.ofList (s.toList.reverse.takeWhile (· != '/')).reverse

namespace Value

/-- The name of the type that a value has if no other type contains it: the end of its type
identifier, or else the name of its class. -/
def nominalName (v : Value) : String :=
  match v.layers.find .identifier with
  | some (.data (.text _ s)) => lastSegment s
  | _ => v.typeName

end Value

/-- The type of the values of one nominal name. -/
def NamedType.nominal (name : String) : NamedType := ⟨name, 0, 0, .nominal name, none⟩

/-! ## Membership and contents -/

namespace NamedType

/-- The answer to the question whether the value belongs to the type: a truth value, unless a
function was given that answers otherwise. -/
def verdict (call : Apply) (t : NamedType) (v : Value) : Run Value :=
  match t.membership with
  | .standard s => do return .bool (← s.test v)
  | .nominal name => Run.answer (v.nominalName == name)
  | .custom f => call f [v]

/-- The value belongs to the type. -/
def contains (call : Apply) (t : NamedType) (v : Value) : Run Bool := do
  (← t.verdict call v).truth call

end NamedType

namespace Extraction

/-- The values that a given value holds for each parameter, one container for each. -/
def run (call : Apply) (e : Extraction) (v : Value) : Run (List Value) :=
  match e with
  | .array => do return [.tuple (← v.elements)]
  | .maybe => pure [.tuple (v.heldBy? .just).toList]
  | .either => pure [.tuple (v.heldBy? .left).toList,
      .tuple (if v.isA .left then [] else v.payload?.toList)]
  | .custom f => do
    match ← call f [v] with
    | .seq _ _ xs => return xs
    | .text _ s => return s.toList.map fun c => .str c.toString
    | .bytes _ bs => return bs.map fun b => .int b.toNat
    | _ => throw .notIterable

end Extraction

/-! ## Descriptors -/

/-- The types of an environment that a value belongs to, in the order of the environment; a value
that belongs to none has its nominal type. -/
def describe (call : Apply) (env : List NamedType) (v : Value) : Run (List NamedType) := do
  let types ← env.filterM fun t => t.contains call v
  return if types.isEmpty then [.nominal v.nominalName] else types

/-- The types narrowest first; those of one specificity keep their order. -/
def rank (types : List NamedType) : List NamedType :=
  sortStable (fun s t => decide (t.specificity ≤ s.specificity)) types

/-- The names of the types that a value belongs to. -/
def typeNames (call : Apply) (env : List NamedType) (v : Value) : Run (List String) := do
  return (← describe call env v).map NamedType.name

end CheckedCalls
