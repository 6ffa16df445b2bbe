import CheckedCalls.Algebra.Fold
import CheckedCalls.Value.Attribute

/-!
# Methods

Calling a method of a value by name runs the body that the value's class binds it to, without
asking for membership of the interface first. `b` is the base that supplies the body; a class made
outside the library supplies its own.
-/

namespace CheckedCalls

namespace Value

/-- What a method works on: the value held, or nothing in particular for the empty variant. -/
def inner (b : Option Base) (v : Value) : Run Value :=
  match b with
  | some .nothing => pure .null
  | _ => v.payload

/-- The comparison that a base supplies. -/
def equalsBody (call : Apply) (b : Option Base) (self other : Value) : Run Value := do
  match b with
  | some .nothing => return .bool (other.identical self)
  | none => equals call (← self.payload) (← other.payload)
  | some .composed =>
    if other.typeRep.same self.typeRep then equals call (← self.payload) (← other.payload)
    else return .bool false
  | some b =>
    match other.heldBy? b with
    | some w => equals call (← self.payload) w
    | none => return .bool false

end Value

/-- The class that a lifting method makes its value in. -/
def ofBody (call : Apply) (b : Option Base) (self v : Value) : Run Value :=
  match b with
  | some .maybe => pure (.just .fresh v)
  | some .either => pure (.right .fresh v)
  | some .identity => pure (.identity .fresh v)
  | _ => match self.declaredClass? with
    | some (.composed t n outer inner) => of call (.type (.declared (.composed t n outer inner))) v
    | some c => c.instantiate v
    | none => throw .missingAttribute

/-- Runs the body of a method on a receiver. -/
def Method.run (call : Apply) (b : Option Base) (m : Method) (self : Value) (args : List Value) :
    Run Value :=
  match m, args with
  | .equals, [other] => Value.equalsBody call b self other
  | .lte, [other] => do Value.lte call (← self.payload) (← other.payload)
  | .concat, [other] => do concatBody b self (CheckedCalls.concat call (← self.inner b)) other
  | .empty, [] => emptyBody b self.declaredClass?
  | .of, [v] => ofBody call b self v
  | .map, [f] => do
    let v ← self.inner b
    if b = some .composed then self.rebuild (← CheckedCalls.map call (.function (.mapWith f)) v)
    else mapBody call b self v f
  | .ap, [fs] => do
    let v ← self.inner b
    if b = some .composed then
      let lifted ← CheckedCalls.map call (.function .applying) (← fs.payload)
      self.rebuild (← CheckedCalls.ap call lifted v)
    else apBody call b self v fs
  | .alt, [other] => pure (altBody b self other)
  | .chain, [f] => do chainBody call b self (← self.inner b) f
  | .reduce, [f, initial] => do reduceBody call b (← self.inner b) f initial
  | .traverse, [f, lift] => do traverseBody call b self (← self.inner b) lift f
  | .extend, [f] => extendBody call b self f
  | _, _ => throw .argumentCount

/-- The text of a value by the body that its class supplies. -/
def Value.ownTextValue (call : Apply) (v : Value) : Run Value := do
  return .text v.textTag (← v.toText call)

/-- Runs the body of an attribute on a receiver. -/
def Attribute.run (call : Apply) (b : Option Base) (a : Attribute) (self : Value)
    (args : List Value) : Run Value :=
  match a, args with
  | .method m, args => m.run call b self args
  | .text, [] => self.ownTextValue call
  | .inspect, [] => self.invoke call .text [] fun _ => self.ownTextValue call
  | .sequence, [lift] => do
    call (← self.get call (.method .traverse)) [.function .echo, lift]
  | .truth, [] => self.get call .isJust
  | .legacy .extend, [more] => self.growList more
  | _, _ => throw .argumentCount

end CheckedCalls
