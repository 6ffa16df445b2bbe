import CheckedCalls.Algebra.Basic
import CheckedCalls.Value.Label

/-!
# Attributes

Reading an attribute of a value: what a box holds, the flags of the variants, and the methods bound
to their receiver. A class shows its methods without a receiver, except those that belong to the
class itself. An attribute that was assigned to an object comes before those of its class. A list
has a method of its own, by which it grows.
-/

namespace CheckedCalls

namespace Value

/-- A member found along the ancestry of the receiver's class. -/
def boundMember (call : Apply) (receiver : Value) (a : Attribute) : Member → Run Value
  | .data (.func t f) =>
    pure (if f.takesReceiver then .function (.boundTo receiver (.func t f)) else .func t f)
  | .data v => pure v
  | .abstract => pure (.function (.const .null))
  | .body by_ b =>
    match b with
    | .isJust | .isRight => flag receiver.layers a
    | .isNothing => do return .bool !(← (← flag receiver.layers .isJust).truth call)
    | .isLeft => do return .bool !(← (← flag receiver.layers .isRight).truth call)
    | b => pure (.function (.bound receiver by_ b))

/-- A member found along the ancestry of a class, asked of the class itself. -/
def classMember (rep : Value) : Member → Run Value
  | .data v => pure v
  | .abstract => pure (.function (.const .null))
  | .body by_ (.method m) =>
    pure (.function
      (if m.isClassLevel then .bound rep by_ (.method m) else .unbound by_ (.method m)))
  | .body by_ a => pure (.function (.unbound by_ a))

/-- A part of a number, a date, a pattern or an error, by its name. -/
def part? (v : Value) (name : String) : Option Value :=
  let parts : List (String × Value) := match v with
    | .bool b =>
      let n : Value := .int (if b then 1 else 0)
      [("real", n), ("imag", .int 0), ("numerator", n), ("denominator", .int 1)]
    | .number t (.int n) =>
      let self : Value := .number t (.int n)
      [("real", self), ("imag", .int 0), ("numerator", self), ("denominator", .int 1)]
    | .number t (.float x) =>
      [("real", .number t (.float x)), ("imag", .number .fresh (.float .zero))]
    | .number _ (.fraction q) =>
      [("real", .number .fresh (.fraction q)), ("imag", .int 0), ("numerator", .int q.num),
        ("denominator", .int q.den)]
    | .complex _ re im =>
      [("real", .number .fresh (.float re)), ("imag", .number .fresh (.float im))]
    | .date _ d => [("year", .int d.year), ("month", .int d.month), ("day", .int d.day)]
    | .moment _ m =>
      [("year", .int m.date.year), ("month", .int m.date.month), ("day", .int m.date.day),
        ("hour", .int m.hour), ("minute", .int m.minute), ("second", .int m.second),
        ("microsecond", .int m.microsecond)]
    | .pattern s => [("pattern", .str s)]
    | .error _ _ m => [("args", .tuple [.str m])]
    | _ => []
  parts.lookup name

/-- Reads an attribute that was not assigned to the value itself. -/
def getInherited (call : Apply) (v : Value) (a : Attribute) : Run Value :=
  match v, a with
  | .type r, .className => pure (.text v.textTag r.name)
  | v, .other "__class__" => pure (.type v.typeRep)
  | .func _ f, .className => pure (.text .fresh f.name)
  | .seq .list _ _, .legacy .extend => pure (.function (.bound v none (.legacy .extend)))
  | .type (.builtin .list), .legacy .extend => pure (.function (.unbound none (.legacy .extend)))
  | .type r, a =>
    match r.layers.find a with
    | some member => classMember v member
    | none => throw .missingAttribute
  | v, a =>
    match v.payload?, a with
    | some w, .payload => pure w
    | _, a =>
      match v.layers.find a, a with
      | some member, a => boundMember call v a member
      | none, .other name => match v.part? name with
        | some w => pure w
        | none => throw .missingAttribute
      | none, _ => throw .missingAttribute

/-- Reads an attribute. -/
def get (call : Apply) (v : Value) (a : Attribute) : Run Value := do
  match (← MonadState.get).assigned? v.tag a with
  | some w => return w
  | none => getInherited call v a

/-- The value has the attribute; one that fails in another way counts as there only if it does not
fail at all, and then its failure is passed on. -/
def hasAttribute (call : Apply) (v : Value) (a : Attribute) : Run Bool :=
  Run.rescue (do let _ ← v.get call a; return true) (· == .missingAttribute) (pure false)

/-- The bare name of a method is bound to the same body as the method. -/
def aliases (call : Apply) (v : Value) (name : String) : Run Bool := do
  let bare ← v.get call (.ofName name)
  let full ← v.get call (.ofName ("fl_" ++ name))
  return bare.identical full

/-! ## Assigning -/

/-- The attribute is calculated, so nothing can be assigned to it. -/
def isCalculated (ls : Ancestry) (a : Attribute) : Bool :=
  match a, ls.find a with
  | .isJust, some (.body _ _) | .isNothing, some (.body _ _) => true
  | .isRight, some (.body _ _) | .isLeft, some (.body _ _) => true
  | _, _ => false

/-- Assigns an attribute to an object. -/
def assign (t : Tag) (a : Attribute) (w : Value) : Run Value := do
  match t with
  | .numbered n => modify fun world => world.assign n a w
  | _ => pure ()
  return .null

/-- Puts the elements of another value behind those of a list, which stays the same object. -/
def growList (v other : Value) : Run Value :=
  match v with
  | .seq .list t xs => do assign t .payload (.seq .list t (xs ++ (← other.elements)))
  | _ => throw .argumentCount

/-- Setting an attribute: variants and boxes are frozen, instances that descend from one keep what
they hold, and built-in values and classes have no place for attributes. -/
def setAttribute (v : Value) (a : Attribute) (w : Value) : Run Value :=
  match v with
  | .just _ _ | .left _ _ | .right _ _ | .identity _ _ => throw .frozen
  | .object _ (.composed _ _ _ _) _ => throw .frozen
  | .object t (.declared _ _ ls) _ =>
    if a = .payload ∧
        (Ancestry.derives ls .just ∨ Ancestry.derives ls .right ∨ Ancestry.derives ls .left) then
      throw .frozen
    else if isCalculated ls a then throw .missingAttribute
    else assign t a w
  | .func t _ | .error t _ _ => assign t a w
  | .type (.declared c) => match a, w with
    | .className, .text _ _ => assign c.tag a w
    | .className, _ => throw .notText
    | a, w => assign c.tag a w
  | .type (.builtin b) => if b.base?.isSome then pure .null else throw .immutableClass
  | _ => throw .missingAttribute

end Value

end CheckedCalls
