import CheckedCalls.Signature.Rendered

/-!
# Candidates and observations

While a call is checked, each type variable keeps the types that all values seen for it so far have
in common, narrowest first, and the values themselves. What the values of a variable hold is kept
apart, under a key of its own for each parameter.
-/

namespace CheckedCalls

/-- A type variable, or what the values of one hold for a parameter. -/
inductive VarKey
  | named (name : String)
  | inner (outer : VarKey) (parameter : Nat)
  deriving DecidableEq, Repr, Inhabited

/-- A value seen for a variable: the place of its argument, and the part of the signature that it
was checked against. -/
structure Observation where
  position : Nat
  value : Value
  key : SpanKey
  deriving Inhabited

/-- What is known of the variables. -/
structure CheckState where
  candidates : List (VarKey × List NamedType)
  observations : List (VarKey × List Observation)
  deriving Inhabited

namespace CheckState

/-- Nothing has been seen. -/
def initial : CheckState := ⟨[], []⟩

/-- Sets what a key is bound to: a key that is there keeps its place. -/
def setKey {α : Type} (key : VarKey) (a : α) : List (VarKey × α) → List (VarKey × α)
  | [] => [(key, a)]
  | (k, b) :: rest => if k = key then (k, a) :: rest else (k, b) :: setKey key a rest

/-- The types that the values seen for a key have in common, if any value was seen. -/
def candidates? (s : CheckState) (key : VarKey) : Option (List NamedType) :=
  s.candidates.lookup key

/-- The values seen for a key. -/
def observed (s : CheckState) (key : VarKey) : List Observation :=
  (s.observations.lookup key).getD []

/-- One more value was seen for a key. -/
def observe (s : CheckState) (key : VarKey) (o : Observation) : CheckState :=
  { s with observations := setKey key (s.observed key ++ [o]) s.observations }

/-- The types that the values of a key have in common were narrowed. -/
def narrow (s : CheckState) (key : VarKey) (types : List NamedType) : CheckState :=
  { s with candidates := setKey key types s.candidates }

/-- The candidates after a value with the given types: the first value's types, narrowest first,
and of these the ones that each further value has too. -/
def candidatesAfter (s : CheckState) (key : VarKey) (ranked : List NamedType) : List NamedType :=
  match s.candidates? key with
  | none => ranked
  | some current => current.filter ranked.contains

/-- The first candidate of each named variable. -/
def bindings (s : CheckState) : List (String × NamedType) :=
  s.candidates.filterMap fun entry =>
    match entry with
    | (.named name, t :: _) => some (name, t)
    | _ => none

end CheckState

/-- The first type that has as many parameters as are named and can show what they hold. -/
def extractor? (types : List NamedType) (named : Nat) : Option Extraction :=
  (types.find? fun t => t.extraction.isSome && decide ((named : Int) ≤ t.arity)).bind
    NamedType.extraction

end CheckedCalls
