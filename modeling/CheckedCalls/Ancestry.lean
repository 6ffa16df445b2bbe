import CheckedCalls.Fault

/-!
# Ancestry and membership

An attribute of a class is looked up along its linearised ancestry, and the first class that binds
it decides. A class is a member of an interface if every required method is bound to something
other than null, or if the interface is among its ancestors. `ofBases` merges the ancestries of
several bases, keeping each of them in order.
-/

namespace CheckedCalls

/-! ## Looking attributes up -/

/-- The name by which a sum type is known across programs. -/
def Base.identifier? : Base → Option String
  | .maybe => some "covenant/Maybe"
  | .either => some "covenant/Either"
  | _ => none

namespace Layer

/-- The layer is the given base. -/
def isBase (b : Base) : Layer → Bool
  | .base c => b == c
  | .declared _ _ => false

/-- The layer comes with the library. -/
def isSomeBase : Layer → Bool
  | .base _ => true
  | .declared _ _ => false

/-- Two layers are the same class. -/
def same : Layer → Layer → Bool
  | .base b, .base c => b == c
  | .declared s _, .declared t _ => s.same t
  | _, _ => false

/-- What a base binds an attribute to. -/
def findInBase (b : Base) : Attribute → Option Member
  | .method m =>
    if b.methods.contains m then some (.body (some b) (.method m))
    else if b.abstractMethods.contains m then some .abstract
    else none
  | .legacy m =>
    if b.hasLegacyNames && b.methods.contains m then some (.body (some b) (.method m)) else none
  | .identifier => b.identifier?.map fun s => .data (.text .shared s)
  | a => if b.extras.contains a then some (.body (some b) a) else none

/-- What one class binds an attribute to. -/
def find (a : Attribute) : Layer → Option Member
  | .base b => findInBase b a
  | .declared _ members => members.lookup a

end Layer

/-- A linearised ancestry: a class, then its ancestors. -/
abbrev Ancestry := List Layer

namespace Ancestry

/-- The ancestry of a base. -/
def ofBase (b : Base) : Ancestry := b.ancestry.map .base

/-- What the first class that binds the attribute binds it to. -/
def find (ls : Ancestry) (a : Attribute) : Option Member := ls.findSome? (Layer.find a)

/-- The base is among the ancestors. -/
def derives (ls : Ancestry) (b : Base) : Bool := ls.any (Layer.isBase b)

/-- The member is bound to something other than null. -/
def isProvided : Option Member → Bool
  | none => false
  | some (.data .null) => false
  | some _ => true

/-- Every required method is bound to something other than null. -/
def provides (ls : Ancestry) (i : Interface) : Bool :=
  i.required.all fun m => isProvided (find ls (.method m))

/-- Membership of an interface: by providing its methods or by descent. -/
def isMember (ls : Ancestry) (i : Interface) : Bool :=
  ls.provides i || ls.derives (.interface i)

/-- Membership of some interface, or descent from their common ancestor. -/
def isCapable (ls : Ancestry) : Bool :=
  Interface.all.any ls.isMember || ls.derives .capability

/-- Some method is left without a body, so the class has no instances. -/
def isAbstract (ls : Ancestry) : Bool :=
  Method.all.any fun m => match find ls (.method m) with
    | some .abstract => true
    | _ => false

/-- The class descends from a sum type. -/
def isVariant (ls : Ancestry) : Bool := ls.derives .maybe || ls.derives .either

/-! ## Merging ancestries -/

/-- The class stands in a line behind its head. -/
def isBehind (l : Layer) : Ancestry → Bool
  | [] => false
  | _ :: tail => tail.any l.same

/-- The first head that stands behind no other head. -/
def nextHead? (lines : List Ancestry) : Option Layer :=
  (lines.filterMap List.head?).find? fun l => !lines.any (isBehind l)

/-- Removes a class from the front of a line. -/
def dropHead (l : Layer) : Ancestry → Ancestry
  | [] => []
  | h :: tail => if h.same l then tail else h :: tail

/-- Merges lines that keep their own orders; at most `fuel` classes are taken. -/
def merge (fuel : Nat) (lines : List Ancestry) : Option Ancestry :=
  let lines := lines.filter fun line => !line.isEmpty
  if lines.isEmpty then some []
  else
    match fuel with
    | 0 => none
    | fuel + 1 => do
      let l ← nextHead? lines
      return l :: (← merge fuel (lines.map (dropHead l)))

/-- The ancestry below a class with the given bases: each base's own ancestry and the order of
the bases are kept. -/
def ofBases (bases : List Ancestry) : Option Ancestry :=
  let lines := bases ++ [bases.filterMap List.head?]
  merge lines.flatten.length lines

end Ancestry

/-! ## Classes -/

namespace Class

def layers : Class → Ancestry
  | .composed _ _ _ _ => .ofBase .composed
  | .declared _ _ ls => ls

def tag : Class → Tag
  | .composed t _ _ _ => t
  | .declared t _ _ => t

def name : Class → String
  | .composed _ n _ _ => n
  | .declared _ n _ => n

/-- The two classes are one. -/
def same (c d : Class) : Bool := c.tag.same d.tag

/-- Binds the bare names of the methods to what the methods are bound to. -/
def bindLegacy (ls : Ancestry) (members : List (Attribute × Member)) :
    Except Fault (List (Attribute × Member)) := do
  let aliases ← Method.legacy.mapM fun m =>
    match Ancestry.find ls (.method m) with
    | some member => .ok (Attribute.legacy m, member)
    | none => .error .missingAttribute
  return aliases ++ members

/-- Declares a class. -/
def declare (t : Tag) (name : String) (bases : List Ancestry)
    (members : List (Attribute × Member)) (legacy : Bool) : Except Fault Class := do
  let ancestors ← match Ancestry.ofBases bases with
    | some ls => .ok ls
    | none => .error .inconsistentBases
  let members ← if legacy then bindLegacy (.declared t members :: ancestors) members
    else .ok members
  return .declared t name (.declared t members :: ancestors)

end Class

/-! ## Type representatives -/

namespace TypeRep

def layers : TypeRep → Ancestry
  | .builtin b => match b.base? with
    | some base => .ofBase base
    | none => []
  | .declared c => c.layers

def name : TypeRep → String
  | .builtin b => b.name
  | .declared c => c.name

/-- The two representatives are one class. -/
def same : TypeRep → TypeRep → Bool
  | .builtin b, .builtin c => b == c
  | .declared c, .declared d => c.same d
  | _, _ => false

/-- The class of a class: one that descends from a base of the library is of another class than
a plain one. -/
def metaclass (r : TypeRep) : Builtin :=
  if r.layers.any Layer.isSomeBase then .interfaceType else .type

end TypeRep

namespace Value

/-- The class of a value. -/
def typeRep : Value → TypeRep
  | .null => .builtin .null
  | .bool _ => .builtin .bool
  | .number _ (.int _) => .builtin .int
  | .number _ (.float _) => .builtin .float
  | .number _ (.fraction _) => .builtin .fraction
  | .complex _ _ _ => .builtin .complex
  | .text _ _ => .builtin .str
  | .bytes _ _ => .builtin .bytes
  | .seq .list _ _ => .builtin .list
  | .seq .tuple _ _ => .builtin .tuple
  | .dict _ _ => .builtin .dict
  | .date _ _ => .builtin .date
  | .moment _ _ => .builtin .moment
  | .pattern _ => .builtin .pattern
  | .error _ k _ => .builtin (.error k)
  | .plain _ => .builtin .object
  | .nothing => .builtin .nothing
  | .just _ _ => .builtin .just
  | .left _ _ => .builtin .left
  | .right _ _ => .builtin .right
  | .identity _ _ => .builtin .identity
  | .func _ _ => .builtin .function
  | .type r => .builtin r.metaclass
  | .object _ c _ => .declared c

/-- The name of a value's class. -/
def typeName (v : Value) : String := v.typeRep.name

/-- The ancestry of a value's class. -/
def layers (v : Value) : Ancestry := v.typeRep.layers

/-- The value's class is a member of the interface. -/
def isMember (i : Interface) (v : Value) : Bool := v.layers.isMember i

/-- The value is an instance of the base or of a class that descends from it. -/
def isA (b : Base) (v : Value) : Bool := v.layers.derives b

/-- What the value holds, if it is a box of one value. -/
def payload? : Value → Option Value
  | .just _ v | .left _ v | .right _ v | .identity _ v | .object _ _ v => some v
  | _ => none

/-- What the value holds, if it is an instance of the base. -/
def heldBy? (b : Base) (v : Value) : Option Value := if v.isA b then v.payload? else none

/-- The values held by a variant of a sum type; nothing for any other value. -/
def variantContents? (v : Value) : Option (List Value) :=
  if v.isA .just || v.isA .either then v.payload?.map fun x => [x]
  else if v.isA .maybe then some []
  else none

/-- The value can be called. -/
def isCallable : Value → Bool
  | .func _ _ | .type _ => true
  | _ => false

/-- The real number that the value is; truth values are none. -/
def number? : Value → Option Number
  | .number _ n => some n
  | _ => none

def isNumber (v : Value) : Bool := v.number?.isSome

/-- The value is NaN itself. -/
def isNaN : Value → Bool
  | .number _ n => n.isNaN
  | _ => false

/-- A new string. -/
def str (s : String) : Value := .text .fresh s

/-- A new list. -/
def list (xs : List Value) : Value := .seq .list .fresh xs

/-- A new tuple. -/
def tuple (xs : List Value) : Value := .seq .tuple .fresh xs

/-- A new integer. -/
def int (n : Int) : Value := .number .fresh (.int n)

/-- A new function. -/
def function (f : Func) : Value := .func .fresh f

end Value

/-! ## Identity -/

/-- There is one string with this content, wherever it comes from: the empty one, and those of a
single character with a small code. -/
def isInternedText (s : String) : Bool :=
  match s.toList with
  | [] => true
  | [c] => decide (c.toNat < 256)
  | _ => false

/-- There is one integer of this value, wherever it comes from. -/
def isInternedInt (n : Int) : Bool := decide (-5 ≤ n ∧ n ≤ 256)

namespace Number

/-- The numbers are one object, given whether their tags are. -/
def identical (sameTag : Bool) : Number → Number → Bool
  | .int m, .int n => m == n && (sameTag || isInternedInt m)
  | .float _, .float _ => sameTag
  | .fraction _, .fraction _ => sameTag
  | _, _ => false

end Number

namespace Func

/-- The function is a method without its receiver, which is one object however often it is read. -/
def isUnbound : Func → Bool
  | .unbound _ _ => true
  | _ => false

/-- Both are one method without its receiver. -/
def isSameMethod : Func → Func → Bool
  | .unbound b a, .unbound c d => b == c && a == d
  | _, _ => false

end Func

namespace Value

/-- There is one empty tuple, wherever it comes from. -/
def isEmptyTuple (k : SeqKind) (xs : List Value) : Bool := k == .tuple && xs.isEmpty

/-- Two values are one object. Empty and very small texts, small integers and the empty tuple are
single objects; of other contents there may be many. -/
def identical : Value → Value → Bool
  | .null, .null => true
  | .bool a, .bool b => a == b
  | .number s m, .number t n => m.identical (s.same t) n
  | .complex s _ _, .complex t _ _ => s.same t
  | .text s a, .text t b => a == b && (s.same t || isInternedText a)
  | .bytes s a, .bytes t b => a == b && (s.same t || decide (a.length ≤ 1))
  | .seq k s xs, .seq l t ys =>
    if isEmptyTuple k xs || isEmptyTuple l ys then isEmptyTuple k xs && isEmptyTuple l ys
    else s.same t
  | .dict s _, .dict t _ => s.same t
  | .date s _, .date t _ => s.same t
  | .moment s _, .moment t _ => s.same t
  | .pattern a, .pattern b => a == b
  | .plain s, .plain t => s.same t
  | .error s _ _, .error t _ _ => s.same t
  | .nothing, .nothing => true
  | .just s _, .just t _ => s.same t
  | .left s _, .left t _ => s.same t
  | .right s _, .right t _ => s.same t
  | .identity s _, .identity t _ => s.same t
  | .func s f, .func t g => if f.isUnbound || g.isUnbound then f.isSameMethod g else s.same t
  | .type r, .type q => r.same q
  | .object s _ _, .object t _ _ => s.same t
  | _, _ => false

end Value

end CheckedCalls
