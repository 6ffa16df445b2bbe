import CheckedCalls.Value.Equality

/-!
# Order

`Value.lte` compares numbers with numbers, truth values with truth values, strings with strings,
dates and moments with each other as instants, and sequences of one kind place by place: the first
place where they are not equal decides. NaN is below every number. Instances of classes outside the
library are compared by their own method. All else is not comparable.
-/

namespace CheckedCalls

/-- NaN is below every number. -/
def Number.lte (x y : Number) : Bool := x.isNaN || x.le y

namespace Value

/-- The two values have no order. -/
def incomparable (x y : Value) : Run Value :=
  throw (.notComparable x.typeName y.typeName)

mutual

/-- The first value is at or below the second. The answer is a truth value, unless a foreign class
answers otherwise. -/
def lte (call : Apply) : Value → Value → Run Value
  | .number _ m, .number _ n => Run.answer (m.lte n)
  | .bool a, .bool b => Run.answer (!a || b)
  | .text _ a, .text _ b => Run.answer (decide (a ≤ b))
  | .date _ a, .date _ b => Run.answer (decide (a.instant ≤ b.instant))
  | .date _ a, .moment _ n => do return .bool (decide (a.instant ≤ (← n.instant)))
  | .moment _ m, .date _ b => do return .bool (decide ((← m.instant) ≤ b.instant))
  | .moment _ m, .moment _ n => do return .bool (decide ((← m.instant) ≤ (← n.instant)))
  | .seq k s xs, .seq l t ys =>
    if k = l then lteSeq call xs ys else incomparable (.seq k s xs) (.seq l t ys)
  -- only instances of one class compare
  | .object s c v, .object t d w =>
    if c.layers.isMember .ord && c.same d then
      invoke call (.object s c v) (.method .lte) [.object t d w] fun _ => lte call v w
    else incomparable (.object s c v) (.object t d w)
  | x, y => incomparable x y

/-- The order of sequences: the first place where they are not equal decides; of two that agree as
far as both go, the shorter is below. -/
def lteSeq (call : Apply) : List Value → List Value → Run Value
  | [], _ => Run.answer true
  | _ :: _, [] => Run.answer false
  | x :: xs, y :: ys => do if ← areEqual call x y then lteSeq call xs ys else lte call x y

end

/-- The first value counts as being at or below the second. -/
def isLte (call : Apply) (x y : Value) : Run Bool := do (← lte call x y).truth call

/-! ## Native order of keys -/

mutual

/-- The native strict order, by which keys are sorted. -/
def precedes (call : Apply) : Value → Value → Run Bool
  | .text _ a, .text _ b => pure (decide (a < b))
  | .bytes _ a, .bytes _ b => pure (decide (a.map UInt8.toNat < b.map UInt8.toNat))
  | .date _ a, .date _ b => pure (decide (a.instant < b.instant))
  | .moment _ m, .moment _ n => match m.before? n with
    | some b => pure b
    | none => throw .notOrdered
  | .seq k _ xs, .seq l _ ys => if k = l then precedesSeq call xs ys else throw .notOrdered
  | .bool a, .bool b => pure (!a && b)
  -- truth values count as zero and one beside numbers
  | .bool a, .number _ n => pure ((Number.int (if a then 1 else 0)).lt n)
  | .number _ m, .bool b => pure (m.lt (.int (if b then 1 else 0)))
  | .number _ m, .number _ n => pure (m.lt n)
  | _, _ => throw .notOrdered

/-- The native strict order of sequences. -/
def precedesSeq (call : Apply) : List Value → List Value → Run Bool
  | [], [] => pure false
  | [], _ :: _ => pure true
  | _ :: _, [] => pure false
  | x :: xs, y :: ys => do
    if x.identical y then precedesSeq call xs ys
    else if ← areSame call x y then precedesSeq call xs ys else precedes call x y

end

/-- Inserts an entry into entries in ascending order of their keys, after those whose keys its own
does not precede: its place is found by halving the entries at most `steps` times. -/
def insertWithin (call : Apply) (entry : Value × Value) : Nat → List (Value × Value) →
    Run (List (Value × Value))
  | 0, es => pure (entry :: es)
  | steps + 1, es =>
    match es.drop (es.length / 2) with
    | [] => pure [entry]
    | middle :: above => do
      -- the place is behind the middle unless the entry precedes it
      let below := es.take (es.length / 2)
      if ← precedes call entry.1 middle.1 then
        return (← insertWithin call entry steps below) ++ middle :: above
      else return below ++ middle :: (← insertWithin call entry steps above)

/-- Inserts an entry into entries in ascending order of their keys. Each halving leaves fewer
entries, so there are at most as many as there are entries. -/
def insertEntry (call : Apply) (entry : Value × Value) (es : List (Value × Value)) :
    Run (List (Value × Value)) :=
  insertWithin call entry es.length es

/-- Inserts entries one by one into entries in ascending order of their keys. -/
def insertEntries (call : Apply) : List (Value × Value) → List (Value × Value) →
    Run (List (Value × Value))
  | ascending, [] => pure ascending
  | ascending, e :: es => do insertEntries call (← insertEntry call e ascending) es

/-- The entries at the front that go on, after `last`, in the direction taken, and the others. -/
def splitRun (call : Apply) (descending : Bool) (last : Value × Value) : List (Value × Value) →
    Run (List (Value × Value) × List (Value × Value))
  | [] => pure ([], [])
  | e :: es => do
    if (← precedes call e.1 last.1) == descending then
      let (run, rest) ← splitRun call descending e es
      return (e :: run, rest)
    else return ([], e :: es)

/-- Entries in ascending order of their keys: the run at the front is turned round if it descends,
and the others are inserted into it. Entries with keys that no order tells apart stay in order. -/
def sortEntries (call : Apply) : List (Value × Value) → Run (List (Value × Value))
  | e :: f :: es => do
    let descending ← precedes call f.1 e.1
    let (run, rest) ← splitRun call descending f es
    let front := e :: f :: run
    insertEntries call (if descending then front.reverse else front) rest
  | es => pure es

end Value

end CheckedCalls
