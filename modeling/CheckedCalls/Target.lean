import CheckedCalls.Interface

/-!
# Names of operations

The things that a call can name: the generic operations, the laws, the checked combinators, a
method of the first argument, and ways to look at a value from outside.
-/

namespace CheckedCalls

/-- The operations that dispatch on the kind of their operand, and the tests on numbers. -/
inductive Operation
  | equals | lte | toText | concat | empty | of | map | ap | alt | chain | reduce | traverse
  | sequence | extend | isNumber | isNaN | isNegativeZero
  deriving DecidableEq, Repr, Inhabited

/-- The laws of the interfaces, and the composition of two functors that they are stated with. -/
inductive Law
  | setoidReflexivity | setoidSymmetry | setoidTransitivity
  | semigroupAssociativity | monoidLeftIdentity | monoidRightIdentity
  | functorIdentity | functorComposition
  | applyComposition
  | applicativeIdentity | applicativeHomomorphism | applicativeInterchange
  | chainAssociativity | monadLeftIdentity | monadRightIdentity
  | foldableAssociativity
  | traversableNaturality | traversableIdentity | traversableComposition
  | extendAssociativity
  deriving DecidableEq, Repr, Inhabited

/-- The checked combinators. -/
inductive Combinator
  | identity | constant | thrush | compose | inc
  | equals | lt | lte | gt | gte | min | max | minimum | maximum
  | concat | empty | of | map | ap | alt | chain | reduce | extend | traverse | sequence
  | head | last | fromMaybe | maybe | either | toMaybe | isJust | isNothing | isLeft | isRight
  deriving DecidableEq, Repr, Inhabited

namespace Combinator

/-- The name shown in the combinator's signature. -/
def name : Combinator → String
  | .identity => "I" | .constant => "K" | .thrush => "T" | .compose => "compose" | .inc => "inc"
  | .equals => "equals" | .lt => "lt" | .lte => "lte" | .gt => "gt" | .gte => "gte"
  | .min => "min" | .max => "max" | .minimum => "minimum" | .maximum => "maximum"
  | .concat => "concat" | .empty => "empty" | .of => "of" | .map => "map" | .ap => "ap"
  | .alt => "alt" | .chain => "chain" | .reduce => "reduce" | .extend => "extend"
  | .traverse => "traverse" | .sequence => "sequence" | .head => "head" | .last => "last"
  | .fromMaybe => "from_maybe" | .maybe => "maybe" | .either => "either"
  | .toMaybe => "to_maybe" | .isJust => "is_just" | .isNothing => "is_nothing"
  | .isLeft => "is_left" | .isRight => "is_right"

/-- Every combinator. -/
def all : List Combinator :=
  [.identity, .constant, .thrush, .compose, .inc, .equals, .lt, .lte, .gt, .gte, .min, .max,
    .minimum, .maximum, .concat, .empty, .of, .map, .ap, .alt, .chain, .reduce, .extend,
    .traverse, .sequence, .head, .last, .fromMaybe, .maybe, .either, .toMaybe, .isJust,
    .isNothing, .isLeft, .isRight]

end Combinator

/-- Ways to make, call and look at values from outside the algebra. -/
inductive Inspection
  | create | call | same | differ | identical | truth | text | literal
  | hashable | sameHash | distinct | copy | has | get | set | alias
  deriving DecidableEq, Repr, Inhabited

/-- What a call can name. -/
inductive Target
  | operation (o : Operation)
  | law (l : Law)
  | composition
  | identityFunctor
  | combinator (checked : Bool) (c : Combinator)
  | method (a : Attribute)
  | inspection (i : Inspection)
  | unknown
  deriving DecidableEq, Repr, Inhabited

end CheckedCalls
