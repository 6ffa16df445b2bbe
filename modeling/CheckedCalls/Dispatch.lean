import CheckedCalls.Ancestry
import CheckedCalls.Run

/-!
# Calling what a class binds

A method of a value is found on the value itself, if it was assigned there, or along the ancestry
of its class. It is a body, which the library knows, or a value, which is called as it is: only a
plain function that the library made takes the receiver in front of its arguments.
-/

namespace CheckedCalls

namespace Func

/-- The function takes the receiver that it is reached through as its first argument. -/
def takesReceiver : Func → Bool
  | .primitive _ | .const _ | .add _ | .compose _ _ | .curry _ | .curried _ _ | .branch _ _ _
  | .partial_ _ _ | .raise _ _ | .bound _ _ _ | .boundTo _ _ => false
  | _ => true

end Func

/-- The tag under which attributes of a class may be assigned. -/
def TypeRep.tag : TypeRep → Tag
  | .declared c => c.tag
  | .builtin _ => .fresh

namespace Value

/-- The tag under which attributes of the value may be assigned. -/
def tag : Value → Tag
  | .object t _ _ => t
  | .func t _ => t
  | .error t _ _ => t
  | .type r => r.tag
  | _ => .fresh

/-- The ancestry in which the attributes of a value are looked up: a class has those it gives its
instances. -/
def scope : Value → Ancestry
  | .type r => r.layers
  | v => v.layers

/-- The value is a class, which hands its methods out without a receiver. -/
def isClass : Value → Bool
  | .type _ => true
  | _ => false

/-- Calls a value that the class of `self` binds. -/
def callBound (call : Apply) (self member : Value) (args : List Value) : Run Value :=
  match member with
  | .func t f =>
    call (.func t f) (if f.takesReceiver && !self.isClass then self :: args else args)
  | v => call v args

/-- Calls a method of a value. A method without a body answers null. -/
def invoke (call : Apply) (self : Value) (a : Attribute) (args : List Value)
    (body : Option Base → Run Value) : Run Value := do
  match (← get).assigned? self.tag a with
  -- what was assigned to the value itself comes before its class and gets no receiver
  | some f => call f args
  | none =>
    match self.scope.find a with
    | some (.body b _) => body b
    | some .abstract => pure .null
    | some (.data v) => self.callBound call v args
    | none => throw .missingAttribute

/-- What the value holds; a value that is no box has no such attribute. -/
def payload {m : Type → Type} [Monad m] [MonadExceptOf Fault m] (v : Value) : m Value :=
  match v.payload? with
  | some w => pure w
  | none => throw .missingAttribute

/-! ## Truth -/

/-- The value counts as true, variants and foreign instances aside. -/
def plainTruth : Value → Bool
  | .null => false
  | .bool b => b
  | .number _ n => !n.isZero
  | .complex _ re im => !((Number.float re).isZero && (Number.float im).isZero)
  | .text _ s => !s.isEmpty
  | .bytes _ bs => !bs.isEmpty
  | .seq _ _ xs => !xs.isEmpty
  | .dict _ es => !es.isEmpty
  | .nothing => false
  | _ => true

/-- What the flag of success is bound to, by the ancestry that it is looked up in. -/
def flag (ls : Ancestry) (a : Attribute) : Run Value :=
  match ls.find a with
  | some (.body (some .nothing) _) | some (.body (some .left) _) => pure (.bool false)
  | some (.body (some .just) _) | some (.body (some .right) _) => pure (.bool true)
  | some (.body _ _) => throw .notImplemented
  | some (.data v) => pure v
  | some .abstract => pure .null
  | none => throw .missingAttribute

/-- The value counts as true: an optional value if it holds something, a container if it is not
empty, a number if it is not zero. -/
def truth (call : Apply) (v : Value) : Run Bool :=
  match v with
  | .object _ (.declared _ _ ls) _ =>
    if Ancestry.derives ls .maybe then do
      match ← v.invoke call .truth [] fun _ => flag ls .isJust with
      | .bool b => return b
      | _ => throw .notTruth
    else pure true
  | v => pure v.plainTruth

end Value

/-! ## Instances -/

/-- An instance of a class that holds the value; a class with methods left open has none. -/
def Class.instantiate {m : Type → Type} [Monad m] [MonadExceptOf Fault m] (c : Class)
    (v : Value) : m Value :=
  if c.layers.isAbstract then throw .abstractClass else pure (.object .fresh c v)

end CheckedCalls
