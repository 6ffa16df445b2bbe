import CheckedCalls.Algebra.Fold

/-!
# Laws

The laws of the algebraic interfaces as tests: each takes the values to try and answers whether
both sides of the law are equal. `composeFunctors` makes the composition of two functors, in which
the law of composition for traversals is stated.
-/

namespace CheckedCalls

/-- The composition of the functors that two type representatives stand for. -/
def composeFunctors (call : Apply) (t : Tag) (outer inner : Value) : Run Class := do
  return .composed t
    ("Compose(" ++ (← outer.givenName call) ++ ", " ++ (← inner.givenName call) ++ ")") outer inner

namespace Law

/-- The identity functor as a type representative. -/
private def identityRep : Value := .type (.builtin .identity)

/-- Tries a law on some values. -/
def run (call : Apply) (l : Law) (args : List Value) : Run Value :=
  let agree := Value.equals call
  match l, args with
  | .setoidReflexivity, [a] => agree a a
  | .setoidSymmetry, [a, b] => do Value.same call (← agree a b) (← agree b a)
  | .setoidTransitivity, [a, b, c] => do
    if ← Value.areEqual call a b then
      if ← Value.areEqual call b c then agree a c else return .bool true
    else return .bool true
  | .semigroupAssociativity, [a, b, c] => do
    agree (← concat call (← concat call a b) c) (← concat call a (← concat call b c))
  | .monoidLeftIdentity, [rep, m] => do agree (← concat call (← empty call rep) m) m
  | .monoidRightIdentity, [rep, m] => do agree (← concat call m (← empty call rep)) m
  | .functorIdentity, [u] => do agree (← map call (.function .echo) u) u
  | .functorComposition, [u, f, g] => do
    let once ← map call (.function (.after f g)) u
    agree once (← map call f (← map call g u))
  | .applyComposition, [a, u, v] => do
    let composing ← map call (.function .composing) a
    let left ← ap call (← ap call composing u) v
    agree left (← ap call a (← ap call u v))
  | .applicativeIdentity, [rep, v] => do
    agree (← ap call (← of call rep (.function .echo)) v) v
  | .applicativeHomomorphism, [rep, f, x] => do
    let fs ← of call rep f
    let left ← ap call fs (← of call rep x)
    agree left (← of call rep (← call f [x]))
  | .applicativeInterchange, [rep, u, y] => do
    let left ← ap call u (← of call rep y)
    agree left (← ap call (← of call rep (.function (.applyAt y))) u)
  | .chainAssociativity, [m, f, g] => do
    let left ← chain call g (← chain call f m)
    agree left (← chain call (.function (.chainAfter g f)) m)
  | .monadLeftIdentity, [rep, f, a] => do
    let left ← chain call f (← of call rep a)
    agree left (← call f [a])
  | .monadRightIdentity, [rep, m] => do agree (← chain call (.function (.lift rep)) m) m
  | .foldableAssociativity, [f, initial, u] => do
    let items ← reduce call (.function .push) (.list []) u
    let left ← reduce call f initial u
    agree left (← foldList call f initial (← items.elements))
  | .traversableNaturality, [outer, inner, t, u] => do
    let left ← call t [← sequence call (.function (.lift outer)) u]
    agree left (← traverse call (.function (.lift inner)) t u)
  | .traversableIdentity, [u] => do
    agree (← traverse call (.function (.lift identityRep)) identityRep u) (.identity .fresh u)
  | .traversableComposition, [outer, inner, u] => do
    let c ← composeFunctors call .shared outer inner
    let rep := Value.type (.declared c)
    let left ← traverse call (.function (.lift rep)) rep u
    let swapped ← sequence call (.function (.lift outer)) u
    agree left (.object .fresh c (← map call (.function (.sequenceWith inner)) swapped))
  | .extendAssociativity, [w, f, g] => do
    let left ← extend call f (← extend call g w)
    agree left (← extend call (.function (.extendThen f g)) w)
  | _, _ => throw .argumentCount

end Law

end CheckedCalls
