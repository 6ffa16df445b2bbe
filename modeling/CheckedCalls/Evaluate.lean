import CheckedCalls.Algebra.Method
import CheckedCalls.Combinators
import CheckedCalls.Construct
import CheckedCalls.Laws

/-!
# Calling functions

`step` says what a call does, given the meaning of the calls made inside it. `apply` ties the knot:
calls may be nested up to a limit, beyond which there is no answer. Everything else in the library
is defined for any meaning of a call; here the meaning is fixed.
-/

namespace CheckedCalls

/-! ## Elementary functions -/

namespace Value

/-- The sum of two numbers, or two strings, lists or tuples joined. -/
def plus (x y : Value) : Except Fault Value :=
  match x, y with
  | .number _ m, .number _ n => match m.add? n with
    | some s => .ok (.number .fresh s)
    | none => .error .overflow
  | .text s a, .text t b => .ok (.joinText s a t b)
  | .seq k s xs, .seq l t ys =>
    if k = l then .ok (.joinSeq k s xs t ys) else .error (.operand "plus")
  | _, _ => .error (.operand "plus")

/-- The number of elements of a string, a sequence or a dictionary. -/
def length? : Value → Option Nat
  | .text _ s => some s.length
  | .seq _ _ xs => some xs.length
  | .dict _ es => some es.length
  | _ => none

/-- The text that folds show of what they have so far. -/
def shownSoFar (call : Apply) (acc : Value) : Run String :=
  match acc with
  | .text _ s => pure s
  | v => do asText (← v.textValue call)

end Value

namespace Primitive

/-- An operation on a number; other operands are refused under the function's name. -/
private def onNumber (name : String) (v : Value) (f : Number → Value) : Run Value :=
  match v.number? with
  | some n => pure (f n)
  | none => throw (.operand name)

/-- One more than a number. -/
private def successor (n : Number) : Value := .number .fresh ((n.add? (.int 1)).getD n)

/-- The elementary functions. -/
def run (call : Apply) (p : Primitive) (args : List Value) : Run Value :=
  match p, args with
  | .identity, [x] => pure x
  | .increment, [x] => onNumber p.name x successor
  | .double, [x] => onNumber p.name x fun n => .number .fresh n.double
  | .negate, [x] => onNumber p.name x fun n => .number .fresh n.neg
  | .invert, [x] => pure (.bool (match x with | .bool false => true | _ => false))
  | .just, [x] => pure (.just .fresh x)
  | .left, [x] => pure (.left .fresh x)
  | .right, [x] => pure (.right .fresh x)
  | .nothing, [_] => pure .nothing
  | .box, [x] => pure (.list [x])
  | .duplicate, [x] => pure (.list [x, x])
  | .pair, [x] => pure (.tuple [x, x])
  | .length, [x] => match x.length? with
    | some n => pure (.int n)
    | none => throw (.operand p.name)
  | .toText, [x] => x.textValue call
  | .value, [x] => x.get call .payload
  | .positive, [x] => onNumber p.name x fun n => if n.isPositive then .just .fresh x else .nothing
  | .positiveEither, [x] =>
    onNumber p.name x fun n => if n.isPositive then .right .fresh x else .left .fresh x
  | .eitherToMaybe, [x] => do
    if ← (← x.get call .isRight).truth call then return .just .fresh (← x.get call .payload)
    else return .nothing
  | .maybeToList, [x] => do
    if ← (← x.get call .isJust).truth call then return .list [← x.get call .payload]
    else return .list []
  | .isNone, [x] => pure (.bool (match x with | .null => true | _ => false))
  | .isDict, [x] => pure (.bool (match x with | .dict _ _ => true | _ => false))
  | .isStr, [x] => pure (.bool (match x with | .text _ _ => true | _ => false))
  | .isList, [x] => pure (.bool (match x with | .seq .list _ _ => true | _ => false))
  | .isNumber, [x] => pure (.bool x.isNumber)
  | .isPositive, [x] => pure (.bool (match x.number? with | some n => n.isPositive | none => false))
  | .dictParts, [x] => match x with
    | .dict _ es => pure (.tuple [.tuple (es.map Prod.fst), .tuple (es.map Prod.snd)])
    | _ => throw .missingAttribute
  | .plus, [x, y] => liftM (x.plus y)
  | .append, [acc, x] => match acc with
    | .seq .list _ xs => pure (.list (xs ++ [x]))
    | _ => throw (.operand p.name)
  | .showFold, [acc, x] => do
    let left ← acc.shownSoFar call
    let right ← Value.asText (← x.textValue call)
    return .str ("(" ++ left ++ "+" ++ right ++ ")")
  | .count, [acc, _] => onNumber p.name acc successor
  | .first, [x, _] => pure x
  | .second, [_, y] => pure y
  | .arguments, args => pure (.list args)
  | _, _ => throw .argumentCount

end Primitive

/-! ## Function terms -/

/-- One more element at the end of a sequence of the given kind. -/
def appendElement (k : SeqKind) (xs y : Value) : Except Fault Value :=
  match xs with
  | .seq l _ items => if k = l then .ok (.seq k .fresh (items ++ [y])) else .error .notAddable
  | _ => .error .notAddable

/-- What calling a function does, given the meaning of the calls inside it and of targets. -/
def Func.run (call : Apply) (target : Target → List Value → Run Value) (f : Func)
    (args : List Value) : Run Value :=
  match f, args with
  | .primitive p, args => p.run call args
  | .const v, _ => pure v
  | .add v, [x] => liftM (x.plus v)
  | .compose f g, args => do call f [← call g args]
  | .curry f, [x] => pure (.function (.curried f x))
  | .curried f x, [y] => call f [x, y]
  | .branch test yes no, [x] => do
    match ← call test [x] with
    | .bool true => call yes [x]
    | _ => call no [x]
  | .partial_ t front, args => target t (front ++ args)
  | .raise k message, _ => throw (.raised k message)
  | .echo, [x] => pure x
  | .after f g, args => do call f [← call g args]
  | .mapWith f, [g] => map call f g
  | .applying, [fs] => pure (.function (.applyingTo fs))
  | .applyingTo fs, [xs] => ap call fs xs
  | .appending k, [xs] => pure (.function (.appendingTo k xs))
  | .appendingTo k xs, [y] => liftM (appendElement k xs y)
  | .lift rep, [x] => of call rep x
  | .composing, [f] => pure (.function (.composingAfter f))
  | .composingAfter f, [g] => pure (.function (.after f g))
  | .applyAt x, [f] => call f [x]
  | .chainAfter g f, [x] => do chain call g (← call f [x])
  | .sequenceWith rep, [x] => sequence call (.function (.lift rep)) x
  | .extendThen f g, [w] => do call f [← extend call g w]
  | .push, [acc, x] => liftM (appendElement .list acc x)
  | .bound receiver b a, args => a.run call b receiver args
  | .boundTo receiver f, args => call f (receiver :: args)
  | .unbound b a, self :: args => a.run call b self args
  | _, _ => throw .argumentCount

/-! ## Targets -/

/-- The generic operations. -/
def Operation.run (call : Apply) (o : Operation) (args : List Value) : Run Value :=
  match o, args with
  | .equals, [x, y] => Value.equals call x y
  | .lte, [x, y] => Value.lte call x y
  | .toText, [x] => x.textValue call
  | .concat, [x, y] => CheckedCalls.concat call x y
  | .empty, [rep] => CheckedCalls.empty call rep
  | .of, [rep, x] => CheckedCalls.of call rep x
  | .map, [f, functor] => CheckedCalls.map call f functor
  | .ap, [fs, xs] => CheckedCalls.ap call fs xs
  | .alt, [x, y] => CheckedCalls.alt call x y
  | .chain, [f, m] => CheckedCalls.chain call f m
  | .reduce, [f, initial, foldable] => CheckedCalls.reduce call f initial foldable
  | .traverse, [lift, f, t] => CheckedCalls.traverse call lift f t
  | .sequence, [lift, t] => CheckedCalls.sequence call lift t
  | .extend, [f, w] => CheckedCalls.extend call f w
  | .isNumber, [x] => Run.answer x.isNumber
  | .isNaN, [x] => Run.answer x.isNaN
  | .isNegativeZero, [x] =>
    Run.answer (match x.number? with | some n => n.isNegativeZero | none => false)
  | _, _ => throw .argumentCount

/-- The elements of a list that are not the same as an earlier one. -/
def Value.firstOccurrences (call : Apply) : List Value → List Value → Run (List Value)
  | seen, [] => pure seen
  | seen, x :: xs => do
    let _ ← x.hashKey call
    let isKnown := Value.keyMatches call x (Value.same call x)
    match ← Value.findEntry isKnown (seen.map fun v => (v, .null)) with
    | some _ => firstOccurrences call seen xs
    | none => firstOccurrences call (seen ++ [x]) xs

/-- Ways to look at values. -/
def Inspection.run (call : Apply) (i : Inspection) (args : List Value) : Run Value :=
  match i, args with
  | .create, c :: args => call c args
  | .call, f :: args => call f args
  | .same, [x, y] => Value.same call x y
  | .differ, [x, y] => do return .bool !(← Value.areSame call x y)
  | .identical, [x, y] => Run.answer (x.identical y)
  | .truth, [x] => do return .bool (← x.truth call)
  | .text, [.text t s] => pure (.text t s)
  | .text, [x] => do return .str (← x.display call)
  | .literal, [x] => do return .str (← x.literal call)
  | .hashable, [x] => do
    let _ ← x.hashKey call
    return .bool true
  | .sameHash, [x, y] => do return .bool (← x.hashesAgree call y)
  | .distinct, [xs] => do
    return .int (← Value.firstOccurrences call [] (← xs.elements)).length
  | .copy, [x] => Run.copy x
  | .has, [x, .text _ name] => do return .bool (← x.hasAttribute call (.ofName name))
  | .get, [x, .text _ name] => x.get call (.ofName name)
  | .set, [x, .text _ name, v] => x.setAttribute (.ofName name) v
  | .alias, [x, .text _ name] => do return .bool (← x.aliases call name)
  | _, _ => throw .argumentCount

/-- What calling a target does, given the meaning of the calls inside it. -/
def Target.run (call : Apply) (t : Target) (args : List Value) : Run Value :=
  match t, args with
  | .operation o, args => o.run call args
  | .law l, args => l.run call args
  | .composition, [outer, inner] => do
    return .type (.declared (← composeFunctors call .fresh outer inner))
  | .identityFunctor, args => call (.type (.builtin .identity)) args
  | .combinator true c, args => c.checked call args
  | .combinator false c, args => c.run call args
  | .method a, self :: args => do call (← self.get call a) args
  | .inspection i, args => i.run call args
  | .unknown, _ => throw .missingAttribute
  | _, _ => throw .argumentCount

/-! ## Calls -/

/-- What a call does, given the meaning of the calls inside it. -/
def step (call : Apply) (f : Value) (args : List Value) : Run Value :=
  match f with
  | .func _ g => g.run call (Target.run call) args
  | .type r => r.construct call args
  | _ => throw .notCallable

/-- Calls nested at most `depth` deep. What passes into a call and out of it is settled, so that
an object is the same one on both sides. -/
def apply : Nat → Apply
  | 0 => fun _ _ => throw .tooDeep
  | depth + 1 => fun f args => do
    -- objects get their numbers on the way in, and what was made inside gets them on the way out
    let f ← Run.settle f
    let args ← Run.settleAll args
    Run.settle (← step (apply depth) f args)

/-- The greatest depth of nested calls. -/
def callDepth : Nat := 10000

/-- The meaning of a call. -/
def applyFunction : Apply := apply callDepth

/-- Runs a target on values from outside. -/
def Target.answer (t : Target) (args : List Value) : Run Value := do
  let args ← Run.settleAll args
  Run.settle (← t.run applyFunction args)

end CheckedCalls
