import CheckedCalls.Value.HashKey

/-!
# Equality

There are two equalities. `Value.equals` is the law-abiding one: NaN equals NaN, the two zeros
differ, and values of different kinds are never equal. `Value.same` is the native one, by which
dictionary keys are found: it compares numbers of all kinds and truth values by the point they
denote, so NaN differs from itself, and it hands variants over to `Value.equals`. The two call
each other: `equals` finds the keys of dictionaries by `same`, and `same` compares what variants
hold by `equals`.

Inside containers and for keys, an object is always the same as itself. Instances of foreign classes
are compared by a method of their own, which may answer anything.
-/

namespace CheckedCalls

namespace Number

/-- Law-abiding equality of numbers. -/
def equals (x y : Number) : Bool :=
  if x.isNaN || y.isNaN then x.isNaN && y.isNaN
  else if x.isZero && y.isZero then x.isNegativeZero == y.isNegativeZero
  else x.same y

end Number

/-- The instant of a moment; a shift out of the calendar fails. -/
def Moment.instant (m : Moment) : Run Instant :=
  match m.instant? with
  | some i => pure i
  | none => throw .overflow

namespace Value

/-! ## Numeric values on the complex plane -/

/-- The point of the complex plane that a numeric value denotes, if it denotes one; truth values
count as zero and one. Values of other kinds give nothing. -/
def plane? : Value → Option (Option (Point × Point))
  | .bool b => some (some (.at (if b then 1 else 0), .at 0))
  | .number _ n => some (n.point?.map fun p => (p, .at 0))
  | .complex _ re im => some <| do
    return (← (Number.float re).point?, ← (Number.float im).point?)
  | _ => none

/-- Two numeric values denote one point. -/
def samePoint (x y : Value) : Bool :=
  match x.plane?, y.plane? with
  | some (some p), some (some q) => p == q
  | _, _ => false

/-! ## Keys -/

/-- The value under the first key that the test accepts. -/
def findEntry (test : Value → Run Bool) : List (Value × Value) → Run (Option Value)
  | [] => pure none
  | (k, v) :: es => do if ← test k then return some v else findEntry test es

/-- A key of a dictionary answers to `key` if it is that very object, or hashes like it and is
the same. -/
def keyMatches (call : Apply) (key : Value) (sameAsKey : Value → Run Value) (other : Value) :
    Run Bool := do
  if other.identical key then return true
  else if ← key.hashesAgree call other then (← sameAsKey other).truth call
  else return false

/-! ## Comparisons that a class makes -/

/-- Methods read off one object are equal. -/
def sameMethod : Func → Func → Bool
  | .bound r b a, .bound q c d => r.identical q && b == c && a == d
  | .boundTo r f, .boundTo q g => r.identical q && f.identical g
  | _, _ => false

/-- Two functions are equal: one object, or one method of one object. -/
def sameFunc (s : Tag) (f : Func) (t : Tag) (g : Func) : Bool :=
  (Value.func s f).identical (.func t g) || sameMethod f g

/-- The comparison that the class of `self` makes with another value, given the comparison with
what that value holds. -/
def compareBy (call : Apply) (self : Value) (held : Value → Run Value) (other : Value) :
    Run Value :=
  self.invoke call (.method .equals) [other] fun b =>
    match b with
    | none => do held (← other.payload)
    | some b => match other.heldBy? b with
      | some w => held w
      | none => Run.answer false

/-- The answer of `other` where the first operand has none: an instance of a class that descends
from a sum type compares itself with what the first operand holds. -/
def reflected (call : Apply) (self : Value) (held? : Option (Value → Run Value)) (other : Value) :
    Run Value :=
  match other with
  | .object t (.declared u n ls) w =>
    if Ancestry.isVariant ls then
      invoke call (.object t (.declared u n ls) w) (.method .equals) [self] fun b =>
        match b, held? with
        | none, some held => held w
        | none, none => throw .missingAttribute
        | some _, _ => Run.answer false
    else Run.answer false
  | _ => Run.answer false

/-- The comparison of a built-in variant with another value, given the comparison of what they
hold. An instance of a class that descends from the variant compares itself. -/
def variantSame (call : Apply) (b : Base) (self : Value) (held : Value → Run Value)
    (other : Value) : Run Value :=
  match other.heldBy? b with
  | some w => match other with
    | .object t c u => compareBy call (.object t c u) (fun _ => held w) self
    | _ => held w
  | none => Run.answer false

/-- The class of `other` descends from another class, whose ancestry is given. -/
def overrides (ls : Ancestry) (other : Value) : Bool :=
  match other, ls with
  | .object _ (.declared _ _ (own :: ms)) _, l :: _ => !l.same own && ms.any l.same
  | _, _ => false

/-! ## The two equalities -/

mutual

/-- Law-abiding equality. The answer is a truth value, unless a foreign class answers otherwise. -/
def equals (call : Apply) : Value → Value → Run Value
  | .null, .null => Run.answer true
  | .bool a, .bool b => Run.answer (a == b)
  | .number _ m, .number _ n => Run.answer (m.equals n)
  | .complex s a b, .complex t c d =>
    Run.answer (s.same t || samePoint (.complex s a b) (.complex t c d))
  | .text _ a, .text _ b => Run.answer (a == b)
  | .bytes _ a, .bytes _ b => Run.answer (a == b)
  | .seq k _ xs, .seq l _ ys =>
    if k = l ∧ xs.length = ys.length then do return .bool (← equalsAll call xs ys)
    else Run.answer false
  -- keys are found by native equality, and what stands under them is compared by law
  | .dict _ xs, .dict _ ys => do
    if xs.length = ys.length then
      if ← keysWithin call xs ys then return .bool (← equalsEntries call xs ys)
      else return .bool false
    else return .bool false
  -- dates and moments are compared as instants
  | .date _ a, .date _ b => Run.answer (a.instant == b.instant)
  | .date _ a, .moment _ n => do return .bool (a.instant == (← n.instant))
  | .moment _ m, .date _ b => do return .bool ((← m.instant) == b.instant)
  | .moment _ m, .moment _ n => do return .bool ((← m.instant) == (← n.instant))
  | .pattern a, .pattern b => Run.answer (a == b)
  | .plain s, .plain t => Run.answer (s.same t)
  | .error s _ _, .error t _ _ => Run.answer (s.same t)
  | .nothing, .nothing => Run.answer true
  | .just _ v, .just _ w => equals call v w
  | .left _ v, .left _ w => equals call v w
  | .right _ v, .right _ w => equals call v w
  | .identity _ v, .identity _ w => equals call v w
  | .func s f, .func t g => Run.answer (sameFunc s f t g)
  | .type r, .type q => Run.answer (r.same q)
  | .object s c v, .object t d w =>
    if c.layers.isMember .setoid then
      if c.same d then
        match c with
        | .composed _ _ _ _ => equals call v w
        | c => compareBy call (.object s c v) (equals call v) (.object t d w)
      else Run.answer false
    else Run.answer (s.same t)
  | _, _ => Run.answer false
termination_by structural x => x

/-- The values are equal place by place. -/
def equalsAll (call : Apply) : List Value → List Value → Run Bool
  | x :: xs, y :: ys => do
    if ← (← equals call x y).truth call then equalsAll call xs ys else return false
  | _, _ => pure true
termination_by structural x => x

/-- The values under each key of the first dictionary are equal. -/
def equalsEntries (call : Apply) : List (Value × Value) → List (Value × Value) → Run Bool
  | [], _ => pure true
  | (k, v) :: es, ys => do
    match ← findEntry (keyMatches call k (same call k)) ys with
    | some w =>
      if ← (← equals call v w).truth call then equalsEntries call es ys else return false
    | none => return false
termination_by structural x => x

/-- Native equality. The answer is a truth value, unless a foreign class answers otherwise. -/
def same (call : Apply) : Value → Value → Run Value
  | .null, .null => Run.answer true
  | .text _ a, .text _ b => Run.answer (a == b)
  | .bytes _ a, .bytes _ b => Run.answer (a == b)
  | .seq k _ xs, .seq l _ ys =>
    if k = l ∧ xs.length = ys.length then do return .bool (← sameAll call xs ys)
    else Run.answer false
  | .dict _ xs, .dict _ ys =>
    if xs.length = ys.length then do return .bool (← sameEntries call xs ys)
    else Run.answer false
  | .date _ a, .date _ b => Run.answer (a == b)
  | .moment _ m, .moment _ n => Run.answer (m.same n)
  | .pattern a, .pattern b => Run.answer (a == b)
  | .plain s, .plain t => Run.answer (s.same t)
  | .error s _ _, .error t _ _ => Run.answer (s.same t)
  | .func s f, .func t g => Run.answer (sameFunc s f t g)
  | .type r, .type q => Run.answer (r.same q)
  -- variants hand over to the law-abiding equality of what they hold
  | .nothing, y => Run.answer (Value.nothing.identical y)
  | .just t v, y => variantSame call .just (.just t v) (equals call v) y
  | .left t v, y => variantSame call .left (.left t v) (equals call v) y
  | .right t v, y => variantSame call .right (.right t v) (equals call v) y
  | .identity t v, y => variantSame call .identity (.identity t v) (equals call v) y
  | .object s c v, y =>
    match c with
    | .composed _ _ _ _ => match y with
      | .object _ d w => if c.same d then equals call v w else Run.answer false
      | _ => Run.answer false
    | .declared u n ls =>
      let self := Value.object s (.declared u n ls) v
      -- the class further down in one line of descent makes the comparison
      if Ancestry.isVariant ls then
        if overrides ls y then compareBy call y (fun _ => y.payload >>= equals call v) self
        else compareBy call self (equals call v) y
      else match y with
        | .object t _ _ =>
          if s.same t then Run.answer true else reflected call self (some (equals call v)) y
        | _ => Run.answer false
  -- numbers of all kinds and truth values are left, and values of different kinds
  | x, y =>
    if samePoint x y then Run.answer true else reflected call x none y
termination_by structural x => x

/-- The values are one object or the same, place by place. -/
def sameAll (call : Apply) : List Value → List Value → Run Bool
  | x :: xs, y :: ys => do
    if x.identical y then sameAll call xs ys
    else if ← (← same call x y).truth call then sameAll call xs ys else return false
  | _, _ => pure true
termination_by structural x => x

/-- Each key of the first dictionary is in the second, above one object or the same value. -/
def sameEntries (call : Apply) : List (Value × Value) → List (Value × Value) → Run Bool
  | [], _ => pure true
  | (k, v) :: es, ys => do
    match ← findEntry (keyMatches call k (same call k)) ys with
    | some w =>
      if v.identical w then sameEntries call es ys
      else if ← (← same call v w).truth call then sameEntries call es ys else return false
    | none => return false
termination_by structural x => x

/-- Each key of the first dictionary is in the second. -/
def keysWithin (call : Apply) : List (Value × Value) → List (Value × Value) → Run Bool
  | [], _ => pure true
  | (k, _) :: es, ys => do
    match ← findEntry (keyMatches call k (same call k)) ys with
    | some _ => keysWithin call es ys
    | none => return false
termination_by structural x => x

end

/-- The values count as equal. -/
def areEqual (call : Apply) (x y : Value) : Run Bool := do (← equals call x y).truth call

/-- The values count as natively equal. -/
def areSame (call : Apply) (x y : Value) : Run Bool := do (← same call x y).truth call

/-! ## Dictionaries -/

/-- Sets the value under a key: a key that is there keeps its place and its form. -/
def setEntry (call : Apply) (key value : Value) :
    List (Value × Value) → Run (List (Value × Value))
  | [] => pure [(key, value)]
  | (k, v) :: es => do
    if ← keyMatches call key (same call key) k then return (k, value) :: es
    else return (k, v) :: (← setEntry call key value es)

/-- Sets several entries in turn; every key must be hashable. -/
def setEntries (call : Apply) (es : List (Value × Value)) :
    List (Value × Value) → Run (List (Value × Value))
  | [] => pure es
  | (k, v) :: rest => do
    let _ ← k.hashKey call
    setEntries call (← setEntry call k v es) rest

end Value

end CheckedCalls
