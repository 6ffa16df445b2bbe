import CheckedCalls.Violation.Basic

/-!
# Building violations step by step

A builder takes marks, values and an explanation in any order. Values are numbered in the order
they are added. A value may come with the range of the signature that it was checked against;
values with the same range share one underline, labelled with all their numbers.
-/

namespace CheckedCalls

/-- A range of columns. -/
abbrev Span := Int × Int

/-- A violation in the making. -/
structure ViolationBuilder where
  kind : ViolationKind
  functionName : String
  signature : String
  marks : List Underline := []
  labelled : List (Span × List Nat) := []
  values : List OffendingValue := []
  positions : List Int := []
  explanation : String := ""
  deriving Inhabited

namespace ViolationBuilder

/-- Marks a range without a value. -/
def underline (b : ViolationBuilder) (start stop : Int) (label : String) : ViolationBuilder :=
  { b with marks := b.marks ++ [⟨start, stop, label⟩] }

/-- Adds a number to the group of its range, or a new group after the others. -/
def addLabel (groups : List (Span × List Nat)) (span : Span) (number : Nat) :
    List (Span × List Nat) :=
  match groups with
  | [] => [(span, [number])]
  | (s, ns) :: rest =>
    if s = span then (s, ns ++ [number]) :: rest else (s, ns) :: addLabel rest span number

/-- Adds a value, with the argument position it came from and the range it was checked against. -/
def value (b : ViolationBuilder) (position : Int) (text : String) (types : List String)
    (span : Option Span) : ViolationBuilder :=
  let number := b.values.length + 1
  { b with
    values := b.values ++ [⟨number, text, types⟩]
    positions := if b.positions.contains position then b.positions else b.positions ++ [position]
    labelled := match span with
      | none => b.labelled
      | some s => addLabel b.labelled s number }

/-- Sets the closing sentence. -/
def explain (b : ViolationBuilder) (text : String) : ViolationBuilder :=
  { b with explanation := text }

/-- The underline of a group of values. -/
def groupUnderline (group : Span × List Nat) : Underline :=
  ⟨group.1.1, group.1.2, ",".intercalate (group.2.map toString)⟩

/-- The order of the underlines of a violation. -/
def underlineLe (u v : Underline) : Bool :=
  decide (u.start < v.start) || (decide (u.start = v.start) && decide (u.stop ≤ v.stop))

/-- The violation of the steps so far. -/
def build (b : ViolationBuilder) : Violation where
  kind := b.kind
  functionName := b.functionName
  signature := b.signature
  underlines := sortStable underlineLe (b.marks ++ b.labelled.map groupUnderline)
  values := b.values
  explanation := b.explanation
  positions := b.positions

end ViolationBuilder

end CheckedCalls
