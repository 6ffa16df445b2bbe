import CheckedCalls.Conversion
import CheckedCalls.Value.Order

/-!
# Boxes and joining

What the algebra needs of single values: making another box of the kind of a given one, and joining
strings and sequences.
-/

namespace CheckedCalls

/-- The box that a base makes around a value. -/
def Base.wrap (b : Base) (v : Value) : Value :=
  match b with
  | .just => .just .fresh v
  | .left => .left .fresh v
  | .right => .right .fresh v
  | .identity => .identity .fresh v
  | _ => v

/-- The type representative that makes the boxes of a base. -/
def Base.rep (b : Base) : Value :=
  match b with
  | .just => .type (.builtin .just)
  | .left => .type (.builtin .left)
  | .right => .type (.builtin .right)
  | _ => .type (.builtin .identity)

namespace Value

/-- Another instance of the value's own class. -/
def rebuild (v held : Value) : Run Value :=
  match v with
  | .object _ c _ => c.instantiate held
  | .just _ _ => pure (.just .fresh held)
  | .left _ _ => pure (.left .fresh held)
  | .right _ _ => pure (.right .fresh held)
  | .identity _ _ => pure (.identity .fresh held)
  | _ => throw .argumentCount

/-- The class of the value as a function that makes instances. -/
def maker (v : Value) : Value := .type v.typeRep

/-- The value is not a member of an interface that an operation needs. -/
def notMember (v : Value) (i : Interface) : Run Value := throw (.notMember v.typeName i)

/-! ## Joining -/

/-- Two strings joined; nothing new is made if one of them is empty. -/
def joinText (s : Tag) (a : String) (t : Tag) (b : String) : Value :=
  if a.isEmpty then .text t b else if b.isEmpty then .text s a else str (a ++ b)

/-- Two sequences of one kind joined; no new tuple is made if one of them is empty. -/
def joinSeq (k : SeqKind) (s : Tag) (xs : List Value) (t : Tag) (ys : List Value) : Value :=
  if k == .tuple && xs.isEmpty then .seq k t ys
  else if k == .tuple && ys.isEmpty then .seq k s xs
  else .seq k .fresh (xs ++ ys)

end Value

end CheckedCalls
