import CheckedCalls.Signature.Basic

/-!
# Signatures as text

The text of a signature, with the columns of every constraint and of every part of every slot and
of the result, so that a report can point at them. The result counts as the slot after the last.
-/

namespace CheckedCalls

namespace Signature

open TypeExpr (Columns)

/-! ## Text -/

/-- The text between the name and the constraints. -/
def headChars (s : Signature) : List Char := s.name.toList ++ " :: ".toList

/-- Constraints with commas between them. -/
def constraintListChars : List Constraint → List Char
  | [] => []
  | [c] => c.text.toList
  | c :: cs => c.text.toList ++ [',', ' '] ++ constraintListChars cs

/-- The constraints with their arrow: several stand in brackets, none take no place. -/
def contextChars (cs : List Constraint) : List Char :=
  if cs.isEmpty then []
  else bracketed cs ++ " => ".toList
where
  bracketed (cs : List Constraint) : List Char :=
    TypeExpr.bracket (decide (1 < cs.length)) (constraintListChars cs)

/-- The mark of a variadic slot. -/
def ellipsis (slot : Slot) : List Char := if slot.variadic then ['.', '.', '.'] else []

/-- The slots, each before an arrow. -/
def slotChars : List Slot → List Char
  | [] => []
  | slot :: rest =>
    ellipsis slot ++ slot.type.chars false ++ TypeExpr.arrow ++ slotChars rest

/-- The text of a signature. -/
def chars (s : Signature) : List Char :=
  s.headChars ++ contextChars s.constraints ++ slotChars s.slots ++ s.returns.chars false

/-- The text of a signature. -/
def text (s : Signature) : String := String.ofList s.chars

/-! ## Columns -/

/-- The columns of constraints that follow each other from `start` on. -/
def constraintColumns (start : Nat) : List Constraint → List (Constraint × Columns)
  | [] => []
  | c :: cs =>
    (c, start, start + c.text.length) :: constraintColumns (start + c.text.length + 2) cs

/-- The columns of every constraint. -/
def constraintSpans (s : Signature) : List (Constraint × Columns) :=
  let start := s.headChars.length + (if 1 < s.constraints.length then 1 else 0)
  constraintColumns start s.constraints

/-- The columns of the slots from place `i` on and of their parts. -/
def slotSpans (start i : Nat) : List Slot → List (SpanKey × Columns)
  | [] => []
  | slot :: rest =>
    let first := start + (ellipsis slot).length
    slot.type.spans false first [i] ++
      slotSpans (first + (slot.type.chars false).length + TypeExpr.arrow.length) (i + 1) rest

/-- The columns of every part of every slot and of the result. -/
def spans (s : Signature) : List (SpanKey × Columns) :=
  let start := (s.headChars ++ contextChars s.constraints).length
  slotSpans start 0 s.slots ++
    s.returns.spans false (start + (slotChars s.slots).length) [s.slots.length]

/-- The columns of a part, as a range to mark. -/
def toSpan (c : Columns) : Int × Int := (c.1, c.2)

/-- The range of the part that a key names. -/
def span? (s : Signature) (key : SpanKey) : Option (Int × Int) :=
  (s.spans.lookup key).map toSpan

/-- The range of a constraint; of one stated twice, the last. -/
def constraintSpan? (s : Signature) (c : Constraint) : Option (Int × Int) :=
  (s.constraintSpans.reverse.lookup c).map toSpan

end Signature

end CheckedCalls
