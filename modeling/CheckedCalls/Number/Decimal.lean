import CheckedCalls.Number.Binary64

/-!
# Decimal text of binary64 numbers

`shortest` finds the fewest decimal digits that read back as the same number: on the grid of one
digit, then two, up to seventeen, it tries the two neighbours of the value, and the first grid on
which one of them reads back wins, the nearer of the two if both do. `Binary64.literal` lays the
digits out, and `Binary64.parse?` reads a text back.
-/

namespace CheckedCalls

/-- The decimal `digits * 10 ^ exponent`. -/
structure Decimal where
  digits : Nat
  exponent : Int
  deriving DecidableEq, Repr, Inhabited

namespace Decimal

/-- Numerator and denominator of a decimal, as a quotient of natural numbers. -/
def quotient (d : Decimal) : Nat × Nat :=
  (d.digits * Nat.pow 10 d.exponent.toNat, Nat.pow 10 (-d.exponent).toNat)

/-- The count of units that a decimal reads back as. -/
def units (d : Decimal) : Nat :=
  Binary64.nearestUnits (d.quotient.1 * Binary64.unitsPerOne) d.quotient.2

/-- The number of decimal digits of a natural number. -/
def digitCount (n : Nat) : Nat := (Nat.toDigits 10 n).length

/-- The most decimal digits with which an integer is written or read. -/
def maxDigits : Nat := 4300

/-- The power of ten at the leading digit of a positive count of units. -/
def leadingExponent (units : Nat) : Int :=
  (digitCount (units * Nat.pow 10 330 / Binary64.unitsPerOne) : Int) - 331

/-- The decimal next below a count of units on the grid of step `10 ^ exponent`, and whether the
count lies in the lower half of its cell or at the middle beside an even digit. -/
def below (units : Nat) (exponent : Int) : Decimal × Bool :=
  let num := units * Nat.pow 10 (-exponent).toNat
  let den := Binary64.unitsPerOne * Nat.pow 10 exponent.toNat
  let q := num / den
  let r := num % den
  (⟨q, exponent⟩, decide (2 * r < den) || (decide (2 * r = den) && q % 2 == 0))

/-- The neighbour of a count on one grid that reads back as that count, the nearer if both do. -/
def onGrid? (units : Nat) (exponent : Int) : Option Decimal :=
  let (lo, lowerHalf) := below units exponent
  let hi : Decimal := { lo with digits := lo.digits + 1 }
  let (near, far) := if lowerHalf then (lo, hi) else (hi, lo)
  if near.units = units then some near else if far.units = units then some far else none

/-- The decimal with the fewest digits that reads back as a positive count of units. -/
def shortest (units : Nat) : Decimal :=
  let top := leadingExponent units
  let grids := (List.range 17).map fun (k : Nat) => top - k
  (grids.findSome? (onGrid? units)).getD (below units (top - 16)).1

/-- The digits of a decimal without trailing zeros, and the place of its point counted from
the front of the digits. -/
def significant (d : Decimal) : List Char × Int :=
  let all := Nat.toDigits 10 d.digits
  let kept := (all.reverse.dropWhile (· == '0')).reverse
  (kept, (all.length : Int) + d.exponent)

/-- Digits with the point after the first `place` of them; a whole number ends in `.0` if
`keepZero` is set. -/
def positional (keepZero : Bool) (digits : List Char) (place : Int) : List Char :=
  if place ≤ 0 then '0' :: '.' :: (List.replicate (-place).toNat '0' ++ digits)
  else if (digits.length : Int) ≤ place then
    digits ++ List.replicate (place.toNat - digits.length) '0' ++
      (if keepZero then ['.', '0'] else [])
  else digits.take place.toNat ++ '.' :: digits.drop place.toNat

/-- One digit, the point, the other digits, and an exponent of two digits at least. -/
def scientific (digits : List Char) (place : Int) : List Char :=
  let e := place - 1
  let mantissa := match digits with
    | [d] => [d]
    | d :: ds => d :: '.' :: ds
    | [] => ['0']
  let size := Nat.toDigits 10 e.natAbs
  mantissa ++ 'e' :: (if e < 0 then '-' else '+') ::
    (if size.length < 2 then '0' :: size else size)

/-- Numbers from `10 ^ -4` up to `10 ^ 16` are written with a plain point, others with an
exponent. -/
def layout (keepZero : Bool) (d : Decimal) : String :=
  let (digits, place) := d.significant
  String.ofList <|
    if -4 < place ∧ place ≤ 16 then positional keepZero digits place else scientific digits place

end Decimal

namespace Binary64

/-- The text of a magnitude. -/
def magnitudeText (keepZero : Bool) (units : Nat) : String :=
  if units = 0 then (if keepZero then "0.0" else "0") else (Decimal.shortest units).layout keepZero

/-- The text of a number; a whole one ends in `.0` if `keepZero` is set. -/
def render (keepZero : Bool) : Binary64 → String
  | .nan => "nan"
  | .inf s => if s then "-inf" else "inf"
  | .finite s u => (if s then "-" else "") ++ magnitudeText keepZero u

/-- The literal text of a number. -/
def literal (x : Binary64) : String := x.render true

/-- The number is written with a minus sign. -/
def isSigned : Binary64 → Bool
  | .nan => false
  | .inf s => s
  | .finite s _ => s

/-- The literal text of a complex number: the real part is left out only if it is positive zero,
and then so are the brackets. -/
def complexLiteral (re im : Binary64) : String :=
  if re = zero then im.render false ++ "j"
  else
    let sign := if im.isSigned then "" else "+"
    "(" ++ re.render false ++ sign ++ im.render false ++ "j)"

/-! ## Reading decimal text -/

/-- The value of a run of decimal digits; nothing else may stand in it. -/
def digits? (cs : List Char) : Option Nat :=
  if cs.all Char.isDigit then some (cs.foldl (fun n c => 10 * n + (c.toNat - 48)) 0) else none

/-- The integer that digits with an optional sign stand for. -/
def signed? : List Char → Option Int
  | '-' :: cs => if cs.isEmpty then none else (digits? cs).map fun n => -(n : Int)
  | '+' :: cs => if cs.isEmpty then none else (digits? cs).map fun n => (n : Int)
  | cs => if cs.isEmpty then none else (digits? cs).map fun n => (n : Int)

/-- The decimal that digits with an optional point and an optional exponent stand for. -/
def decimal? (cs : List Char) : Option Decimal := do
  let mantissa := cs.takeWhile (· != 'e')
  let exponent ← match cs.dropWhile (· != 'e') with
    | [] => some 0
    | _ :: e => signed? e
  let whole := mantissa.takeWhile (· != '.')
  let part := (mantissa.dropWhile (· != '.')).drop 1
  if whole.isEmpty && part.isEmpty then none
  else
    let n ← digits? (whole ++ part)
    some ⟨n, exponent - part.length⟩

/-- The number nearest to a decimal. -/
def ofDecimal (negative : Bool) (d : Decimal) : Binary64 :=
  ofQuotient negative d.quotient.1 d.quotient.2

/-- The number that an unsigned text stands for. -/
def magnitude? (negative : Bool) (cs : List Char) : Option Binary64 :=
  if cs = "inf".toList ∨ cs = "infinity".toList then some (.inf negative)
  else if cs = "nan".toList then some .nan
  else (decimal? cs).map (ofDecimal negative)

/-- The number that a text with an optional sign stands for. -/
def ofChars? : List Char → Option Binary64
  | '-' :: cs => magnitude? true cs
  | '+' :: cs => magnitude? false cs
  | cs => magnitude? false cs

/-- Reads the literal text of a number. -/
def parse? (s : String) : Option Binary64 := ofChars? s.toList

end Binary64

end CheckedCalls
