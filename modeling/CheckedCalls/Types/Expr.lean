import CheckedCalls.Text.Identifier
import CheckedCalls.Text.Quoted
import CheckedCalls.Types.Named

/-!
# Type expressions

The types of the slots of a signature: a variable, possibly applied to arguments, a named type with
arguments, or a function type. The text of an expression and the columns at which each of its parts
stands are two functions that follow the expression in step; a part is named by the path of argument
places that leads to it.
-/

namespace CheckedCalls

/-- The path to a part of a signature: the slot, then the argument places. -/
abbrev SpanKey := List Nat

/-- The type of a slot. -/
inductive TypeExpr
  /-- A type variable, applied to what its values hold. -/
  | var (name : String) (args : List TypeExpr)
  /-- A named type, applied to what its values hold. -/
  | concrete (t : NamedType) (args : List TypeExpr)
  /-- A function type. -/
  | fn (params : List TypeExpr) (result : TypeExpr)
  /-- An expression of a kind that the library does not know. -/
  | foreign

namespace TypeExpr

instance : Inhabited TypeExpr := ⟨.foreign⟩

/-- The text of a foreign expression. -/
def foreignText : List Char := ['O', 'p', 'a', 'q', 'u', 'e']

/-- The arrow between the types of a function or of a signature. -/
def arrow : List Char := [' ', '-', '>', ' ']

/-- Brackets around a text, if wanted. -/
def bracket (wanted : Bool) (text : List Char) : List Char :=
  if wanted then '(' :: text ++ [')'] else text

/-! ## Variables -/

mutual

/-- The names of the variables used, outermost first. -/
def variableNames : TypeExpr → List String
  | .var name args => name :: namesOfAll args
  | .concrete _ args => namesOfAll args
  | .fn params result => namesOfAll params ++ variableNames result
  | .foreign => []

/-- The names of the variables used by several expressions. -/
def namesOfAll : List TypeExpr → List String
  | [] => []
  | e :: es => variableNames e ++ namesOfAll es

end

/-! ## Text -/

mutual

/-- The text of an expression; as an argument, one with arguments of its own stands in brackets. -/
def chars (nested : Bool) : TypeExpr → List Char
  | .var name args => bracket (nested && !args.isEmpty) (name.toList ++ argumentChars args)
  | .concrete t args => bracket (nested && !args.isEmpty) (t.name.toList ++ argumentChars args)
  | .fn params result => '(' :: paramChars params ++ chars false result ++ [')']
  | .foreign => foreignText

/-- The text of arguments, each after a space. -/
def argumentChars : List TypeExpr → List Char
  | [] => []
  | e :: es => ' ' :: chars true e ++ argumentChars es

/-- The text of parameters, each before an arrow. -/
def paramChars : List TypeExpr → List Char
  | [] => []
  | e :: es => chars false e ++ arrow ++ paramChars es

end

/-- The text of an expression. -/
def text (e : TypeExpr) : String := String.ofList (e.chars false)

/-! ## Spans -/

/-- The columns of a part: the first one and the first one after it. -/
abbrev Columns := Nat × Nat

mutual

/-- The columns of an expression and of its parts, if its text starts at `start`. Brackets around
an argument do not belong to it; those of a function type do. -/
def spans (nested : Bool) (start : Nat) (key : SpanKey) : TypeExpr → List (SpanKey × Columns)
  | .var name args =>
    let start := if nested && !args.isEmpty then start + 1 else start
    argumentSpans (start + name.length) key 0 args ++
      [(key, start, start + name.length + (argumentChars args).length)]
  | .concrete t args =>
    let start := if nested && !args.isEmpty then start + 1 else start
    argumentSpans (start + t.name.length) key 0 args ++
      [(key, start, start + t.name.length + (argumentChars args).length)]
  | .fn params result =>
    let after := start + 1 + (paramChars params).length
    paramSpans (start + 1) key 0 params ++
      spans false after (key ++ [params.length]) result ++
      [(key, start, after + (chars false result).length + 1)]
  | .foreign => [(key, start, start + foreignText.length)]

/-- The columns of arguments from place `i` on. -/
def argumentSpans (start : Nat) (key : SpanKey) (i : Nat) :
    List TypeExpr → List (SpanKey × Columns)
  | [] => []
  | e :: es =>
    spans true (start + 1) (key ++ [i]) e ++
      argumentSpans (start + 1 + (chars true e).length) key (i + 1) es

/-- The columns of parameters from place `i` on. -/
def paramSpans (start : Nat) (key : SpanKey) (i : Nat) :
    List TypeExpr → List (SpanKey × Columns)
  | [] => []
  | e :: es =>
    spans false start (key ++ [i]) e ++
      paramSpans (start + (chars false e).length + arrow.length) key (i + 1) es

end

end TypeExpr

/-! ## Reading types -/

/-- What may stand for a type where a signature is built. -/
inductive TypeLike
  | expr (e : TypeExpr)
  | named (t : NamedType)
  | name (s : String)
  /-- A value that is neither, by its literal text, if it has one. -/
  | other (literal : Except Fault String)

namespace TypeLike

/-- A value that stands for no type. -/
def noType (literal : String) : Except Fault TypeExpr :=
  throw (.signature (literal ++ " is not a type"))

/-- The type expression that is meant: a named type without arguments, or a variable with the
name of an identifier. -/
def toExpr : TypeLike → Except Fault TypeExpr
  | .expr e => .ok e
  | .named t => .ok (.concrete t [])
  | .name s => if Text.isIdentifier s then .ok (.var s []) else noType (Text.literal s)
  | .other literal => do noType (← literal)

end TypeLike

namespace NamedType

/-- Applies a parameterised type to as many arguments as it takes. -/
def apply (t : NamedType) (args : List TypeLike) : Except Fault TypeExpr := do
  if (args.length : Int) ≠ t.arity then
    throw (.signature (t.name ++ " takes " ++ toString t.arity ++ " type argument(s), got " ++
      toString args.length))
  return .concrete t (← args.mapM TypeLike.toExpr)

end NamedType

namespace TypeExpr

/-- A function type; the last type is the result. -/
def function (types : List TypeLike) : Except Fault TypeExpr := do
  let exprs ← types.mapM TypeLike.toExpr
  match exprs.getLast? with
  | none => throw (.signature "a function type needs a result type")
  | some result => return .fn exprs.dropLast result

end TypeExpr

end CheckedCalls
