import CheckedCalls.Sorting
import CheckedCalls.Text.Ranges

/-!
# Marker lines

An underline marks a range of columns of a line of text and may carry a label. `Markers.lines`
draws any number of underlines as a line of carets and a line of labels: a caret stands in every
column that some underline covers, labels are centred beneath their carets, and a label that
would touch the one before it is pushed to the right.
-/

namespace CheckedCalls

/-- A marked range of columns: `stop` is the first column after it. -/
structure Underline where
  start : Int
  stop : Int
  label : String
  deriving DecidableEq, Repr, Inhabited

namespace Underline

/-- The number of columns marked: at least one, also for an empty or reversed range. -/
def width (u : Underline) : Int := max 1 (u.stop - u.start)

/-- The column at which the label would be centred. -/
def centre (u : Underline) : Int := u.start + (u.width - u.label.length).fdiv 2

end Underline

namespace Markers

/-- Underlines in order of their first column; those that start together keep their order. -/
def sorted (us : List Underline) : List Underline :=
  sortStable (fun u v => decide (u.start ≤ v.start)) us

/-- A line with spaces at its end up to a length. -/
def padTo (n : Nat) (line : List Char) : List Char :=
  line ++ List.replicate (n - line.length) ' '

/-- Puts carets into the columns of an underline that starts at `start`. -/
def paint (line : List Char) (start width : Nat) : List Char :=
  (padTo start line).take start ++ List.replicate width '^' ++ line.drop (start + width)

/-- The line of carets, each underline painted over the ones before. -/
def carets (us : List Underline) : List Char :=
  us.foldl (fun line u => paint line u.start.toNat u.width.toNat) []

/-- Sets a label after a line: centred, or one column after the end of the line. -/
def place (line : List Char) (u : Underline) : List Char :=
  if u.label.isEmpty then line
  else
    let column := if line.isEmpty then u.centre else max u.centre (line.length + 1)
    padTo column.toNat line ++ u.label.toList

/-- The line of labels. -/
def labels (us : List Underline) : List Char := us.foldl place []

/-- The carets and the labels beneath them, without blanks at the end; there is no column before
the first, so an underline cannot start there. -/
def lines? (us : List Underline) : Option (String × String) :=
  if us.any fun u => decide (u.start < 0) then none
  else
    let us := sorted us
    some (String.ofList (Text.trimEnd (carets us)), String.ofList (Text.trimEnd (labels us)))

end Markers

end CheckedCalls
