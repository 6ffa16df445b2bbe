import CheckedCalls.Number.Decimal
import CheckedCalls.Text.Digits

/-!
# Numerals

Reading a number from text that someone wrote. Blanks may stand around a numeral, digits may be of
any script, letters of either case, and single low lines may group digits. An integer may be in any
base up to thirty-six. A fraction is two runs of digits around a bar, or a decimal. A complex number
may stand in brackets, and its imaginary part ends in the letter of the imaginary unit.
-/

namespace CheckedCalls.Numeral

/-! ## Characters -/

/-- The plain character that a character beyond ASCII counts as: a digit as the digit of its value,
and a blank as a space. -/
def plainChar (c : Char) : Char :=
  if c.toNat < 128 then c
  else if Text.isBlank c then ' '
  else match Text.decimalDigit? c with
    | some d => Char.ofNat (48 + d)
    | none => c

/-- The characters of a text as numerals are read from them. -/
def plain (s : String) : List Char := s.toList.map plainChar

/-- The plain characters that may stand around a numeral. -/
def isSpace (c : Char) : Bool := c == ' ' || decide (9 ≤ c.toNat ∧ c.toNat ≤ 13)

/-- Drops the spaces at both ends. -/
def trim (cs : List Char) : List Char :=
  ((cs.dropWhile isSpace).reverse.dropWhile isSpace).reverse

/-- Drops the low lines between two digits; none may stand elsewhere. -/
def ungroup (afterDigit : Bool) : List Char → Option (List Char)
  | [] => some []
  | '_' :: cs =>
    if afterDigit && (cs.head?.map Char.isDigit).getD false then ungroup false cs else none
  | c :: cs => (ungroup c.isDigit cs).map (c :: ·)

/-- The characters of a numeral in lower case, without the low lines. -/
def bare? (cs : List Char) : Option (List Char) := (ungroup false cs).map (·.map Char.toLower)

/-- What a text stands for, given what it stands for without its sign. -/
def signed? {α : Type} (magnitude? : Bool → List Char → Option α) : List Char → Option α
  | '-' :: cs => magnitude? true cs
  | '+' :: cs => magnitude? false cs
  | cs => magnitude? false cs

/-! ## Integers -/

/-- The value of a digit, or of a letter that stands for one beyond nine. -/
def digit? (c : Char) : Option Nat :=
  if c.isDigit then some (c.toNat - 48)
  else if 'a' ≤ c ∧ c ≤ 'z' then some (c.toNat - 87)
  else none

/-- The value of digits in a base, of which those worth `n` were read already. A low line may stand
behind a digit, and the last character is a digit. -/
def digitsIn? (base n : Nat) (afterDigit : Bool) : List Char → Option Nat
  | [] => if afterDigit then some n else none
  | '_' :: cs => if afterDigit then digitsIn? base n false cs else none
  | c :: cs => do
    let d ← digit? c
    if d < base then digitsIn? base (base * n + d) true cs else none

/-- The base that a letter behind a leading zero stands for. -/
def markedBase? : Char → Option Nat
  | 'x' => some 16
  | 'o' => some 8
  | 'b' => some 2
  | _ => none

/-- The value of digits in a base. Too many of them are not read, unless the base is a power of
two. -/
def bounded? (base : Nat) (cs : List Char) : Option Nat :=
  if base &&& (base - 1) = 0 ∨ cs.countP (· != '_') ≤ Decimal.maxDigits then
    digitsIn? base 0 false cs
  else none

/-- The value of digits without a mark. In an open base they are decimal, and only zero itself may
lead with a zero. -/
def unmarked? (base : Nat) (cs : List Char) : Option Nat :=
  if base = 0 then do
    let n ← bounded? 10 cs
    if n ≠ 0 ∧ cs.head? = some '0' then none else some n
  else bounded? base cs

/-- The value of digits in a base, or in an open one, which is given as zero and is what the mark in
front of the digits says. A mark may stand in front of digits of its own base too. -/
def whole? (base : Nat) (cs : List Char) : Option Nat :=
  match cs with
  | '0' :: mark :: rest =>
    match markedBase? mark with
    | some b =>
      if base = b ∨ base = 0 then
        digitsIn? b 0 false (if rest.head? = some '_' then rest.drop 1 else rest)
      else unmarked? base cs
    | none => unmarked? base cs
  | cs => unmarked? base cs

/-- The integer that a text stands for in a base. -/
def integer? (base : Nat) (cs : List Char) : Option Int :=
  signed? (fun negative cs => (whole? base cs).map fun n => if negative then -(n : Int) else n)
    ((trim cs).map Char.toLower)

/-! ## Real numbers -/

/-- The binary64 number nearest to what a text stands for. -/
def binary64? (cs : List Char) : Option Binary64 := (bare? (trim cs)).bind Binary64.ofChars?

/-- Numerator and denominator, which are two runs of digits around a bar, or those of a decimal. -/
def ratio? (cs : List Char) : Option (Nat × Nat) :=
  match cs.dropWhile (· != '/') with
  | [] => (Binary64.decimal? cs).map Decimal.quotient
  | _ :: below => do
    let above := cs.takeWhile (· != '/')
    if above.isEmpty || below.isEmpty then none
    else some (← Binary64.digits? above, ← Binary64.digits? below)

/-- The length of the longest run of digits, of which the first has `n` more digits in front. -/
def longestRun (n : Nat) : List Char → Nat
  | [] => n
  | c :: cs => if c.isDigit then longestRun (n + 1) cs else max n (longestRun 0 cs)

/-- Numerator and denominator of the fraction that a text stands for. Every blank may stand around
it, and no run of its digits may be too long. -/
def quotient? (cs : List Char) : Option (Int × Nat) := do
  let cs ← bare? (Text.trim cs)
  if Decimal.maxDigits < longestRun 0 cs then none
  else signed? (fun negative cs =>
    (ratio? cs).map fun q => (if negative then -(q.1 : Int) else q.1, q.2)) cs

/-! ## Complex numbers -/

/-- The factor in front of the imaginary unit; without digits it is one. -/
def factor? : List Char → Option Binary64
  | [] | ['+'] => some (.ofInt 1)
  | ['-'] => some (.ofInt (-1))
  | cs => Binary64.ofChars? cs

/-- The real and the imaginary part of a text given backwards, of which `tail` was read already: the
imaginary part starts at the last sign that does not belong to an exponent. -/
def parts (tail : List Char) : List Char → List Char × List Char
  | [] => ([], tail)
  | c :: front =>
    if (c == '+' || c == '-') && front.head? != some 'e' then (front.reverse, c :: tail)
    else parts (c :: tail) front

/-- The text without brackets around it. -/
def unbracket (cs : List Char) : List Char :=
  match cs, cs.getLast? with
  | '(' :: rest, some ')' => trim rest.dropLast
  | cs, _ => cs

/-- The two parts of the complex number that a text stands for. -/
def complex? (cs : List Char) : Option (Binary64 × Binary64) := do
  let cs := unbracket (← bare? (trim cs))
  match cs.reverse with
  | 'j' :: front => do
    let (re, im) := parts [] front
    some (← if re.isEmpty then some Binary64.zero else Binary64.ofChars? re, ← factor? im)
  | _ => (Binary64.ofChars? cs).map fun x => (x, .zero)

end CheckedCalls.Numeral
