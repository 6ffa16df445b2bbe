import CheckedCalls.Number.Numeral
import CheckedCalls.Text.Encoding
import CheckedCalls.Value.Equality

/-!
# Conversions

Values made from values of other kinds: numbers from numbers of another kind and from numerals,
bytes from a size or from numbers, text from bytes and back, entries from pairs, dates and moments
from their parts. A value of a kind that does not convert, and one that does but has no counterpart,
are different failures.
-/

namespace CheckedCalls

namespace Number

/-- The whole part of a number, toward zero. -/
def whole (n : Number) : Except Fault Int :=
  match n with
  | .int n => .ok n
  | .float x => match x.truncate? with
    | some n => .ok n
    | none => .error (if x.isNaN then .badValue else .overflow)
  | .fraction q => .ok (q.num.tdiv q.den)

/-- The nearest binary64 number. -/
def rounded (n : Number) : Except Fault Binary64 :=
  match n.toBinary64? with
  | some x => .ok x
  | none => .error .overflow

/-- The exact quotient that a number denotes. -/
def quotient (n : Number) : Except Fault Rat :=
  match n.point? with
  | some (.at q) => .ok q
  | some _ => .error .overflow
  | none => .error .badValue

end Number

/-- What was found, or else a value without a counterpart. -/
def orBadValue {α : Type} : Option α → Except Fault α
  | some a => .ok a
  | none => .error .badValue

/-- The quotient of two numbers, of which the second may be zero. -/
def divide (p q : Rat) : Except Fault Rat :=
  if q = 0 then .error .zeroDenominator else .ok (p / q)

namespace Value

/-! ## Numbers -/

/-- The number that a value stands for in a conversion; true is one and false is zero. -/
def quantity? : Value → Option Number
  | .bool b => some (.int (if b then 1 else 0))
  | .number _ n => some n
  | _ => none

/-- The integer that a value is. -/
def index (v : Value) : Except Fault Int :=
  match v.quantity? with
  | some (.int n) => .ok n
  | _ => .error .notConvertible

/-- The characters of a value that numerals can be read from. -/
def numeral? : Value → Option (List Char)
  | .text _ s => some (Numeral.plain s)
  | .bytes _ bs => some (bs.map fun b => Char.ofNat b.toNat)
  | _ => none

/-- An integer from a number or from a decimal numeral. -/
def toWhole (v : Value) : Except Fault Int :=
  match v.quantity?, v.numeral? with
  | some n, _ => n.whole
  | none, some cs => orBadValue (Numeral.integer? 10 cs)
  | none, none => .error .notConvertible

/-- An integer from a numeral in a base from two to thirty-six, or in an open one. -/
def toWholeIn (v base : Value) : Except Fault Int := do
  let b ← base.index
  if b = 0 ∨ 2 ≤ b ∧ b ≤ 36 then
    match v.numeral? with
    | some cs => orBadValue (Numeral.integer? b.toNat cs)
    | none => throw .notConvertible
  else throw .badValue

/-- A binary64 number from a number or from a numeral. -/
def toRounded (v : Value) : Except Fault Binary64 :=
  match v.quantity?, v.numeral? with
  | some n, _ => n.rounded
  | none, some cs => orBadValue (Numeral.binary64? cs)
  | none, none => .error .notConvertible

/-- A quotient from a number or from a numeral. -/
def toQuotient (v : Value) : Except Fault Rat :=
  match v.quantity?, v with
  | some n, _ => n.quotient
  | none, .text _ s => do
    let (p, q) ← orBadValue (Numeral.quotient? (Numeral.plain s))
    divide p q
  | none, _ => .error .notConvertible

/-- A numerator or a denominator: a number that is a quotient as it stands. -/
def toTerm (v : Value) : Except Fault Rat :=
  match v.quantity? with
  | some (.int n) => .ok n
  | some (.fraction q) => .ok q
  | _ => .error .notConvertible

/-- A quotient from its numerator and its denominator, which may be left open. -/
def toRatio (v w : Value) : Except Fault Rat :=
  match w with
  | .null => v.toQuotient
  | w => do divide (← v.toTerm) (← w.toTerm)

/-- The two binary64 parts of a complex number; a real number has none of the second. -/
def toComplex (v : Value) : Except Fault (Binary64 × Binary64) :=
  match v with
  | .complex _ re im => .ok (re, im)
  | .text _ s => orBadValue (Numeral.complex? (Numeral.plain s))
  | .bytes _ _ => .error .notConvertible
  | v => do return (← v.toRounded, .zero)

/-- The value is a number of any kind, or a truth value. -/
def isNumeric : Value → Bool
  | .bool _ | .number _ _ | .complex _ _ _ => true
  | _ => false

/-- The sum of the first number and the second one times the imaginary unit, as two parts. -/
def combine (v w : Value) : Except Fault (Binary64 × Binary64) :=
  if !v.isNumeric || !w.isNumeric then .error .notConvertible
  else match v, w with
    | .complex _ re im, .complex _ re' im' => .ok (re.add im'.neg, re'.add im)
    | .complex _ re im, w => do return (re, (← w.toRounded).add im)
    | v, .complex _ re im => do return ((← v.toRounded).add im.neg, re)
    | v, w => do return (← v.toRounded, ← w.toRounded)

/-- The complex number of two numbers. A fraction in front counts as a complex number, and is
rounded before the kind of the second number is looked at. -/
def toComplexOf (v w : Value) : Except Fault (Binary64 × Binary64) :=
  match v, w with
  | _, .text _ _ => .error .notConvertible
  | .number _ (.fraction q), w => do
    combine (.complex .fresh (← (Number.fraction q).rounded) .zero) w
  | v, w => combine v w

/-! ## Bytes and text -/

/-- A byte from a small number. -/
def toByte (v : Value) : Except Fault UInt8 := do
  let n ← v.index
  if 0 ≤ n ∧ n < 256 then return UInt8.ofNat n.toNat else throw .badValue

/-- So many bytes of zero. -/
def zeros (n : Int) : Except Fault (List UInt8) :=
  if n < 0 then .error .badValue
  else if 0x8000000000000000 ≤ n then .error .overflow
  else .ok (List.replicate n.toNat 0)

/-- The encoding that a value names. -/
def encoding (v : Value) : Except Fault Text.Encoding :=
  match v with
  | .text _ name => match Text.Encoding.ofName? name with
    | some e => .ok e
    | none => .error .unknownEncoding
  | _ => .error .notConvertible

/-- The text that bytes stand for in an encoding; no bytes stand for no text in any. -/
def decoded (v name : Value) : Except Fault String :=
  match v, name with
  | .bytes _ [], .text _ _ => .ok ""
  | .bytes _ bs, name => do
    match (← name.encoding).decode? bs with
    | some s => return s
    | none => throw .undecodable
  | _, _ => .error .notConvertible

/-- The bytes of a text in an encoding. -/
def encoded (v name : Value) : Except Fault (List UInt8) :=
  match v with
  | .text _ s => do
    match (← name.encoding).encode? s with
    | some bs => return bs
    | none => throw .unencodable
  | _ => .error .notConvertible

/-! ## Elements and entries -/

/-- The elements that a value runs through. -/
def elements : Value → Run (List Value)
  | .seq _ _ xs => pure xs
  | .dict _ es => pure (es.map Prod.fst)
  | .text _ s => pure (s.toList.map fun c => str c.toString)
  | .bytes _ bs => pure (bs.map fun b => int b.toNat)
  | _ => throw .notIterable

/-- The key and the value that a pair of elements stands for. -/
def toEntry (v : Value) : Run (Value × Value) := do
  match ← v.elements with
  | [k, w] => return (k, w)
  | _ => throw .badValue

/-- Entries with one more, which a pair stands for. -/
def addEntry (call : Apply) (es : List (Value × Value)) (pair : Value) :
    Run (List (Value × Value)) := do
  Value.setEntries call es [← pair.toEntry]

/-! ## Dates -/

/-- A part of a date or a time, which fits a word of thirty-two bits. -/
def toPart (v : Value) : Except Fault Int := do
  let n ← v.index
  if -0x80000000 ≤ n ∧ n < 0x80000000 then return n else throw .overflow

end Value

/-- A date of the calendar from its year, month and day. -/
def Date.ofParts (parts : List Value) : Except Fault Date := do
  if 3 < parts.length then throw .argumentCount
  match ← parts.mapM Value.toPart with
  | [y, m, d] =>
    let date : Date := ⟨y.toNat, m.toNat, d.toNat⟩
    if 0 ≤ min y (min m d) ∧ date.isValid then return date else throw .badValue
  | _ => throw .argumentCount

/-- A moment without a zone from its date and as many parts of its time as are given. A zone may be
left open. -/
def Moment.ofParts (parts : List Value) : Except Fault Moment := do
  if 9 < parts.length then throw .argumentCount
  match ← (parts.take 7).mapM Value.toPart with
  | y :: m :: d :: time =>
    if 8 < parts.length then throw .argumentCount
    let part (i : Nat) : Nat := (time.getD i 0).toNat
    let moment : Moment :=
      ⟨⟨y.toNat, m.toNat, d.toNat⟩, part 0, part 1, part 2, part 3, none⟩
    if (y :: m :: d :: time).any (· < 0) || !moment.isValid then throw .badValue
    match parts.drop 7 with
    | [] | [.null] => return moment
    | _ => throw .notConvertible
  | _ => throw .argumentCount

end CheckedCalls
