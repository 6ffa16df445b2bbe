/-!
# Binary64 numbers

A finite number is a whole count of steps of `2 ^ -1074`, the distance between the two smallest
magnitudes, with a sign of its own so that zero has two forms. Every operation is carried out
exactly on counts and rounded once, to the nearest representable count, a half going to the even
neighbour. Nothing here uses machine floating point, so each definition can be unfolded.
-/

namespace CheckedCalls

/-- A binary64 number; `units` counts steps of `2 ^ -1074`. -/
inductive Binary64
  | nan
  | inf (negative : Bool)
  | finite (negative : Bool) (units : Nat)
  deriving DecidableEq, Repr, Inhabited

namespace Binary64

/-- One is this many units. -/
def unitsPerOne : Nat := Nat.pow 2 1074

/-- The first count too large for the format: the units of `2 ^ 1024`. -/
def overflowUnits : Nat := Nat.pow 2 2098

/-! ## Rounding -/

/-- The whole number nearest to `num / den`, a half going to the even neighbour. -/
def roundHalfEven (num den : Nat) : Nat :=
  let q := num / den
  let r := num % den
  if 2 * r < den then q
  else if den < 2 * r then q + 1
  else if q % 2 = 0 then q else q + 1

/-- The distance between neighbouring counts near `units`: 53 significant bits are kept. -/
def spacing (units : Nat) : Nat := Nat.pow 2 (units.log2 - 52)

/-- The representable count nearest to `num / den`, overflow left aside. -/
def nearestUnits (num den : Nat) : Nat :=
  let s := spacing (num / den)
  s * roundHalfEven num (den * s)

/-- The number nearest to `num / den` units; what is too large becomes infinite. -/
def ofUnits (negative : Bool) (num den : Nat) : Binary64 :=
  let u := nearestUnits num den
  if u < overflowUnits then .finite negative u else .inf negative

/-- The number nearest to the quotient `num / den`. -/
def ofQuotient (negative : Bool) (num den : Nat) : Binary64 :=
  ofUnits negative (num * unitsPerOne) den

/-- The number nearest to a rational. -/
def ofRat (q : Rat) : Binary64 := ofQuotient (decide (q < 0)) q.num.natAbs q.den

/-- The number nearest to an integer. -/
def ofInt (n : Int) : Binary64 := ofQuotient (decide (n < 0)) n.natAbs 1

/-- Positive zero. -/
def zero : Binary64 := .finite false 0

/-! ## Reading a number -/

def isNaN : Binary64 → Bool
  | .nan => true
  | _ => false

def isFinite : Binary64 → Bool
  | .finite _ _ => true
  | _ => false

/-- Zero carries its sign. -/
def isNegativeZero : Binary64 → Bool
  | .finite true 0 => true
  | _ => false

/-- The signed count of units of a finite number. -/
def signedUnits (negative : Bool) (units : Nat) : Int :=
  if negative then -(units : Int) else units

/-- The rational that a count of units stands for. -/
def ratOfUnits (negative : Bool) (units : Nat) : Rat :=
  mkRat (signedUnits negative units) unitsPerOne

/-- A finite number has no fractional part. -/
def isWhole : Binary64 → Bool
  | .finite _ u => u % unitsPerOne == 0
  | _ => false

/-- The whole part of a finite number, toward zero. -/
def truncate? : Binary64 → Option Int
  | .finite s u => some (signedUnits s (u / unitsPerOne))
  | _ => none

/-! ## Arithmetic -/

def neg : Binary64 → Binary64
  | .nan => .nan
  | .inf s => .inf (!s)
  | .finite s u => .finite (!s) u

/-- The sum, rounded once. A sum that cancels is positive zero; two negative zeros stay negative. -/
def add : Binary64 → Binary64 → Binary64
  | .nan, _ => .nan
  | _, .nan => .nan
  | .inf s, .inf t => if s = t then .inf s else .nan
  | .inf s, .finite _ _ => .inf s
  | .finite _ _, .inf t => .inf t
  | .finite s u, .finite t v =>
    let sum := signedUnits s u + signedUnits t v
    if sum = 0 then .finite (s && t) 0
    else ofUnits (decide (sum < 0)) sum.natAbs 1

end Binary64

end CheckedCalls
