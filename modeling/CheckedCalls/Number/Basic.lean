import CheckedCalls.Number.Decimal

/-!
# Numbers

A real number is an integer of any size, a binary64 number or an exact fraction. The three kinds
share one order: each number but NaN is a `Point` of the rational line with two ends, and numbers
are compared as points, exactly, whatever their kinds. Only arithmetic and the test for finiteness
go through binary64, where a number too large for it is an overflow. An integer of any size is a
number, but it has a text only up to a number of digits.
-/

namespace CheckedCalls

/-! ## Points of the extended line -/

/-- A point of the rational line extended by its two ends. -/
inductive Point
  | bottom
  | at (q : Rat)
  | top
  deriving DecidableEq, Repr, Inhabited

namespace Point

/-- The order of the extended line. -/
def le : Point → Point → Bool
  | .bottom, _ => true
  | _, .top => true
  | .at p, .at q => decide (p ≤ q)
  | _, _ => false

/-- The strict order of the extended line. -/
def lt (x y : Point) : Bool := !le y x

end Point

/-! ## The three kinds -/

/-- A real number. -/
inductive Number
  | int (n : Int)
  | float (x : Binary64)
  | fraction (q : Rat)
  deriving DecidableEq, Inhabited

namespace Number

/-- The point that a number denotes; NaN denotes none. -/
def point? : Number → Option Point
  | .int n => some (.at n)
  | .float .nan => none
  | .float (.inf s) => some (if s then .bottom else .top)
  | .float (.finite s u) => some (.at (Binary64.ratOfUnits s u))
  | .fraction q => some (.at q)

def isNaN : Number → Bool
  | .float x => x.isNaN
  | _ => false

def isNegativeZero : Number → Bool
  | .float x => x.isNegativeZero
  | _ => false

/-- Numeric equality: the same point. -/
def same (x y : Number) : Bool :=
  match x.point?, y.point? with
  | some p, some q => p == q
  | _, _ => false

/-- Numeric order; NaN is related to nothing. -/
def le (x y : Number) : Bool :=
  match x.point?, y.point? with
  | some p, some q => p.le q
  | _, _ => false

/-- Numeric strict order; NaN is related to nothing. -/
def lt (x y : Number) : Bool :=
  match x.point?, y.point? with
  | some p, some q => p.lt q
  | _, _ => false

/-- The integer zero. -/
def zero : Number := .int 0

/-- The number is above zero. -/
def isPositive (x : Number) : Bool := lt zero x

/-- The number is at or above zero. -/
def isNonNegative (x : Number) : Bool := le zero x

/-- The number is zero, of either sign. -/
def isZero (x : Number) : Bool := same x zero

/-! ## Binary64 as the common ground -/

/-- The nearest binary64 number, or nothing if the number is too large for the format. -/
def toBinary64? : Number → Option Binary64
  | .float x => some x
  | .int n => let x := Binary64.ofInt n; if x.isFinite then some x else none
  | .fraction q => let x := Binary64.ofRat q; if x.isFinite then some x else none

/-- A number is finite; a fraction is judged by its binary64 neighbour, so that nothing is
answered for one too large. -/
def isFinite? : Number → Option Bool
  | .int _ => some true
  | .float x => some x.isFinite
  | .fraction q => (toBinary64? (.fraction q)).map Binary64.isFinite

/-- A finite number has no fractional part. -/
def isWhole : Number → Bool
  | .int _ => true
  | .float x => x.isWhole
  | .fraction q => q.den == 1

/-! ## Arithmetic -/

/-- The sum. Integers and fractions add exactly; beside a binary64 number the other operand is
rounded first, and nothing is answered if it is too large for that. -/
def add? : Number → Number → Option Number
  | .int m, .int n => some (.int (m + n))
  | .int m, .fraction q => some (.fraction (m + q))
  | .fraction p, .int n => some (.fraction (p + n))
  | .fraction p, .fraction q => some (.fraction (p + q))
  | x, y => do return .float (Binary64.add (← x.toBinary64?) (← y.toBinary64?))

/-- The opposite number. -/
def neg : Number → Number
  | .int n => .int (-n)
  | .float x => .float x.neg
  | .fraction q => .fraction (-q)

/-- Twice the number. -/
def double : Number → Number
  | .int n => .int (2 * n)
  | .float x => .float (Binary64.add x x)
  | .fraction q => .fraction (2 * q)

/-! ## Texts -/

/-- The text of an integer; one with too many digits has none. -/
def numeral? (n : Int) : Option String :=
  if Decimal.digitCount n.natAbs ≤ Decimal.maxDigits then some (toString n) else none

/-- The literal text of a number, if each of its integers has a text. -/
def literal? : Number → Option String
  | .int n => numeral? n
  | .float x => some x.literal
  | .fraction q => do
    return "Fraction(" ++ (← numeral? q.num) ++ ", " ++ (← numeral? q.den) ++ ")"

/-- A number as it is shown: a fraction by its two integers, a whole one by one. -/
def display? : Number → Option String
  | .fraction q =>
    if q.den = 1 then numeral? q.num
    else do return (← numeral? q.num) ++ "/" ++ (← numeral? q.den)
  | n => n.literal?

end Number

end CheckedCalls
