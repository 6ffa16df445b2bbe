import CheckedCalls.Algebra.Fold
import CheckedCalls.Check.Define

/-!
# Checked combinators

A small library of functions over the algebra, each with a signature that its calls are checked
against. `Combinator.run` is the function itself; `Combinator.checked` checks first.
-/

namespace CheckedCalls

namespace Combinator

/-! ## Signatures -/

private def a : TypeExpr := .var "a" []
private def b : TypeExpr := .var "b" []
private def c : TypeExpr := .var "c" []

/-- A variable applied to one type. -/
private def app (name : String) (e : TypeExpr) : TypeExpr := .var name [e]

/-- A named type applied to types. -/
private def con (t : StandardType) (args : List TypeExpr) : TypeExpr := .concrete t.named args

/-- The type of a function of one argument. -/
private def fn (x y : TypeExpr) : TypeExpr := .fn [x] y

private def boolean : TypeExpr := con .boolean []

/-- The constraints and types of a combinator: the parameters, and the result. -/
private def types : Combinator → List Constraint × List TypeExpr × TypeExpr
  | .identity => ([], [a], a)
  | .constant => ([], [a, b], a)
  | .thrush => ([], [a, fn a b], b)
  | .compose => ([], [fn b c, fn a b, a], c)
  | .inc => ([], [con .finiteNumber []], con .finiteNumber [])
  | .equals => ([⟨"Setoid", "a"⟩], [a, a], boolean)
  | .lt | .lte | .gt | .gte => ([⟨"Ord", "a"⟩], [a, a], boolean)
  | .min | .max => ([⟨"Ord", "a"⟩], [a, a], a)
  | .minimum | .maximum => ([⟨"Ord", "a"⟩], [a, a], a)
  | .concat => ([⟨"Semigroup", "a"⟩], [a, a], a)
  | .empty => ([⟨"Monoid", "a"⟩], [con .typeRep [a]], a)
  | .of => ([⟨"Applicative", "f"⟩], [con .typeRep [.var "f" []], a], app "f" a)
  | .map => ([⟨"Functor", "f"⟩], [fn a b, app "f" a], app "f" b)
  | .ap => ([⟨"Apply", "f"⟩], [app "f" (fn a b), app "f" a], app "f" b)
  | .alt => ([⟨"Alt", "f"⟩], [app "f" a, app "f" a], app "f" a)
  | .chain => ([⟨"Chain", "m"⟩], [fn a (app "m" b), app "m" a], app "m" b)
  | .reduce => ([⟨"Foldable", "f"⟩], [.fn [b, a] b, b, app "f" a], b)
  | .extend => ([⟨"Extend", "w"⟩], [fn (app "w" a) b, app "w" a], app "w" b)
  | .traverse => ([⟨"Applicative", "f"⟩, ⟨"Traversable", "t"⟩],
      [con .typeRep [.var "f" []], fn a (app "f" b), app "t" a], app "f" (app "t" b))
  | .sequence => ([⟨"Applicative", "f"⟩, ⟨"Traversable", "t"⟩],
      [con .typeRep [.var "f" []], app "t" (app "f" a)], app "f" (app "t" a))
  | .head | .last => ([], [con .array [a]], con .maybe [a])
  | .fromMaybe => ([], [a, con .maybe [a]], a)
  | .maybe => ([], [b, fn a b, con .maybe [a]], b)
  | .either => ([], [fn a c, fn b c, con .either [a, b]], c)
  | .toMaybe => ([], [con .any []], con .maybe [a])
  | .isJust | .isNothing => ([], [con .maybe [a]], boolean)
  | .isLeft | .isRight => ([], [con .either [a, b]], boolean)

/-- The combinator takes any number of arguments after its first. -/
def isVariadic : Combinator → Bool
  | .minimum | .maximum => true
  | _ => false

/-- The signature of a combinator. -/
def signature (k : Combinator) : Signature :=
  let (constraints, params, result) := k.types
  let slots := params.zipIdx.map fun p => ⟨p.1, k.isVariadic && p.2 + 1 == params.length⟩
  ⟨k.name, constraints, slots, result⟩

/-! ## Functions -/

/-- One more than a numeric value; truth values count as numbers here. -/
def increment : Value → Except Fault Value
  | .bool b => .ok (.int (if b then 2 else 1))
  | .number _ n => match n.add? (.int 1) with
    | some m => .ok (.number .fresh m)
    | none => .error .overflow
  | .complex _ re im => .ok (.complex .fresh (re.add (.ofInt 1)) (im.add .zero))
  | _ => .error .notAddable

/-- The element at one end of a value: the first, or the last. A dictionary is asked for a key. -/
def endOf (call : Apply) (pick : List Value → Option Value) (key : Int) (v : Value) :
    Run Value := do
  if !(← v.truth call) then return .nothing
  else
    match v with
    -- a dictionary is asked for the place as for a key
    | .dict _ es =>
      let isKey := Value.keyMatches call (.int key) (Value.same call (.int key))
      match ← Value.findEntry isKey es with
      | some w => return .just .fresh w
      | none => throw .unknownKey
    | .seq _ _ _ | .text _ _ | .bytes _ _ =>
      match pick (← v.elements) with
      | some x => return .just .fresh x
      | none => return .nothing
    | _ => throw .notIndexable

/-- What an optional value holds, if it holds something. -/
def heldByJust? (call : Apply) (m : Value) : Run (Option Value) := do
  if ← (← m.get call .isJust).truth call then return some (← m.get call .payload) else return none

/-- The least of some values: an earlier one stays unless it is above a later one. -/
def least (call : Apply) (x : Value) (rest : List Value) : Run Value :=
  rest.foldlM (fun m y => do return if ← Value.isLte call m y then m else y) x

/-- The greatest of some values: a later one at or above an earlier one replaces it. -/
def greatest (call : Apply) (x : Value) (rest : List Value) : Run Value :=
  rest.foldlM (fun m y => do return if ← Value.isLte call m y then y else m) x

/-- The combinators as functions. -/
def run (call : Apply) (k : Combinator) (args : List Value) : Run Value :=
  match k, args with
  | .identity, [x] => pure x
  | .constant, [x, _] => pure x
  | .thrush, [x, g] => call g [x]
  | .compose, [g, h, x] => do call g [← call h [x]]
  | .inc, [x] => liftM (increment x)
  | .equals, [x, y] => Value.equals call x y
  | .lt, [x, y] => do return .bool !(← Value.isLte call y x)
  | .lte, [x, y] => Value.lte call x y
  | .gt, [x, y] => do return .bool !(← Value.isLte call x y)
  | .gte, [x, y] => Value.lte call y x
  | .min, [x, y] => do return if ← Value.isLte call x y then x else y
  | .max, [x, y] => do return if ← Value.isLte call x y then y else x
  | .minimum, x :: rest => least call x rest
  | .maximum, x :: rest => greatest call x rest
  | .concat, [x, y] => CheckedCalls.concat call x y
  | .empty, [rep] => CheckedCalls.empty call rep
  | .of, [rep, x] => CheckedCalls.of call rep x
  | .map, [g, functor] => CheckedCalls.map call g functor
  | .ap, [fs, xs] => CheckedCalls.ap call fs xs
  | .alt, [x, y] => CheckedCalls.alt call x y
  | .chain, [g, m] => CheckedCalls.chain call g m
  | .reduce, [g, initial, foldable] => CheckedCalls.reduce call g initial foldable
  | .extend, [g, w] => CheckedCalls.extend call g w
  | .traverse, [rep, g, t] => CheckedCalls.traverse call (.function (.lift rep)) g t
  | .sequence, [rep, t] => CheckedCalls.sequence call (.function (.lift rep)) t
  | .head, [xs] => endOf call List.head? 0 xs
  | .last, [xs] => endOf call List.getLast? (-1) xs
  | .fromMaybe, [d, m] => do return (← heldByJust? call m).getD d
  | .maybe, [d, g, m] => do
    match ← heldByJust? call m with
    | some x => call g [x]
    | none => return d
  | .either, [onLeft, onRight, e] => do
    if ← (← e.get call .isLeft).truth call then call onLeft [← e.get call .payload]
    else call onRight [← e.get call .payload]
  | .toMaybe, [.null] => pure .nothing
  | .toMaybe, [x] => pure (.just .fresh x)
  | .isJust, [m] => m.get call .isJust
  | .isNothing, [m] => m.get call .isNothing
  | .isLeft, [e] => e.get call .isLeft
  | .isRight, [e] => e.get call .isRight
  | _, _ => throw .argumentCount

/-- The combinators with their calls checked. -/
def checked (call : Apply) (k : Combinator) (args : List Value) : Run Value :=
  enforce call .standard k.signature args (k.run call args)

end Combinator

end CheckedCalls
