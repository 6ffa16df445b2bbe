import CheckedCalls.Value
import CheckedCalls.Violation.Basic

/-!
# Causes of failure

What can go wrong while values are compared, combined, called and checked. Each constructor is a
cause; `Fault.message?` gives the words of those that are reported in words.
-/

namespace CheckedCalls

/-- A cause of failure. -/
inductive Fault
  /-- The order has no answer for values of these classes. -/
  | notComparable (x y : String)
  /-- Values of these classes do not combine. -/
  | notConcatenable (x y : String)
  /-- The subject is no member of the interface. -/
  | notMember (subject : String) (i : Interface)
  /-- An elementary function got an operand of another kind. -/
  | operand (function : String)
  /-- An error value was raised. -/
  | raised (k : ErrorKind) (message : String)
  /-- A sum type itself was called. -/
  | notInstantiable (name : String)
  /-- A signature or a type expression is malformed. -/
  | signature (message : String)
  /-- A checked call violated its signature. -/
  | violation (v : Violation)
  /-- A function got too few or too many arguments. -/
  | argumentCount
  /-- The value called is no function. -/
  | notCallable
  /-- The value has no elements to run through. -/
  | notIterable
  /-- The value has no elements to pick by place. -/
  | notIndexable
  /-- The value has no hash. -/
  | notHashable
  /-- The keys have no order. -/
  | notOrdered
  /-- The operands do not add. -/
  | notAddable
  /-- The value is of a kind that does not convert. -/
  | notConvertible
  /-- The class has methods without a body. -/
  | abstractClass
  /-- The bases of a class have no common linear order. -/
  | inconsistentBases
  /-- The value has no such attribute. -/
  | missingAttribute
  /-- A text was wanted, and what was given is none. -/
  | notText
  /-- A truth value was wanted, and what was given is none. -/
  | notTruth
  /-- The attribute cannot be set. -/
  | frozen
  /-- A built-in class cannot be changed. -/
  | immutableClass
  /-- There is no copy of an instance of a class made while the program runs. -/
  | notCopyable
  /-- The key or the name is unknown. -/
  | unknownKey
  /-- The result is too large for its type. -/
  | overflow
  /-- The denominator is zero. -/
  | zeroDenominator
  /-- There is no encoding of this name. -/
  | unknownEncoding
  /-- The bytes stand for no text in the encoding. -/
  | undecodable
  /-- The encoding has no bytes for the text. -/
  | unencodable
  /-- The method has no implementation. -/
  | notImplemented
  /-- A place lies outside. -/
  | badIndex
  /-- The value is no valid argument of its constructor, or it is too long to be written. -/
  | badValue
  /-- The reference has no object. -/
  | missingReference
  /-- Calls are nested too deeply. -/
  | tooDeep
  deriving Inhabited, DecidableEq

namespace Fault

/-- The words of a failure, for the causes that have any. -/
def message? : Fault → Option String
  | .notComparable x y => some ("Cannot compare " ++ x ++ " with " ++ y)
  | .notConcatenable x y => some ("Cannot concatenate " ++ x ++ " with " ++ y)
  | .notMember s i => some (s ++ " is not " ++ i.article ++ " " ++ i.name)
  | .operand f => some f
  | .raised _ m => some m
  | .notInstantiable n => some ("Cannot instantiate " ++ n)
  | .signature m => some m
  | .violation v => some v.report
  | _ => none

/-- A value was of a kind that does not suit, or had no such operation. -/
def isKindError : Fault → Bool
  | .notComparable _ _ | .notConcatenable _ _ | .notMember _ _ | .operand _
  | .argumentCount | .notCallable | .notIterable | .notIndexable | .notHashable | .notOrdered
  | .notAddable | .notConvertible | .notText | .notTruth | .immutableClass | .abstractClass
  | .inconsistentBases => true
  | .raised k _ => k == .typeError
  | _ => false

end Fault

end CheckedCalls
