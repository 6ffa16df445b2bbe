import CheckedCalls.Types.Named

/-!
# Type classes

A type class is a named contract on values. A value is a member if its class is a member of the
interface behind it, or if a rule admits it; a variant of a sum type has to be a member by its
class and, beyond that, what it holds has to pass a rule of its own. Type representatives are
members by their class or by a list. A registry is a list of type classes with different names.
-/

namespace CheckedCalls

/-! ## Rules -/

mutual

/-- Values with a law-abiding equality, down to what they hold. -/
def Value.isSetoid : Value → Bool
  | .null | .bool _ | .number _ _ | .complex _ _ _ | .text _ _ | .bytes _ _ => true
  | .date _ _ | .moment _ _ | .pattern _ | .nothing => true
  | .just _ v | .left _ v | .right _ v => Value.isSetoid v
  | .identity _ _ => true
  | .seq _ _ xs => Value.areSetoids xs
  | .dict _ es => Value.areSetoidEntries es
  | .object _ c v =>
    if c.layers.derives .just || c.layers.derives .either then Value.isSetoid v
    else c.layers.derives .maybe || c.layers.isMember .setoid
  | .plain _ | .error _ _ _ | .func _ _ | .type _ => false

/-- All the values are setoids. -/
def Value.areSetoids : List Value → Bool
  | [] => true
  | x :: xs => Value.isSetoid x && Value.areSetoids xs

/-- All the values under keys are setoids. -/
def Value.areSetoidEntries : List (Value × Value) → Bool
  | [] => true
  | (_, v) :: es => Value.isSetoid v && Value.areSetoidEntries es

end

mutual

/-- Values with an order, down to the elements of sequences. -/
def Value.isOrd : Value → Bool
  | .bool _ | .number _ _ | .text _ _ | .date _ _ | .moment _ _ => true
  | .seq _ _ xs => Value.areOrds xs
  | .object _ c _ => c.layers.isMember .ord
  | _ => false

/-- All the values have an order. -/
def Value.areOrds : List Value → Bool
  | [] => true
  | x :: xs => Value.isOrd x && Value.areOrds xs

end

/-- Values that combine, down to what variants hold. -/
def Value.isSemigroup : Value → Bool
  | .text _ _ | .seq _ _ _ | .dict _ _ | .nothing => true
  | .just _ v | .left _ v | .right _ v => Value.isSemigroup v
  | .object _ c v =>
    if c.layers.derives .just || c.layers.derives .either then Value.isSemigroup v
    else c.layers.derives .maybe || c.layers.isMember .semigroup
  | _ => false

/-- How a type class admits values. -/
inductive Rule
  | never
  | always
  | setoid
  | ord
  | semigroup
  | mappable
  | sequence
  | collection
  /-- The values for which a function answers something true. -/
  | custom (test : Value)

namespace Rule

/-- The answer of the rule for a value: a truth value, unless a function was given that answers
otherwise. -/
def verdict (call : Apply) (r : Rule) (v : Value) : Run Value :=
  match r, v with
  | .never, _ => Run.answer false
  | .always, _ => Run.answer true
  | .setoid, v => Run.answer v.isSetoid
  | .ord, v => Run.answer v.isOrd
  | .semigroup, v => Run.answer v.isSemigroup
  | .mappable, .seq _ _ _ => Run.answer true
  | .mappable, .dict _ _ => Run.answer true
  | .mappable, .func _ _ => Run.answer true
  | .sequence, .seq _ _ _ => Run.answer true
  | .collection, .seq _ _ _ => Run.answer true
  | .collection, .dict _ _ => Run.answer true
  | .custom f, v => call f [v]
  | _, _ => Run.answer false

/-- The value passes the rule. -/
def admits (call : Apply) (r : Rule) (v : Value) : Run Bool := do
  (← r.verdict call v).truth call

end Rule

/-! ## Type classes -/

/-- A named contract; without an interface, membership of any interface will do. -/
structure TypeClass where
  name : String
  interface : Option Interface
  builtin : Rule
  contents : Rule
  superclasses : List String
  reps : List Value

namespace TypeClass

/-- The ancestry belongs to a member of the interface. -/
def covers (c : TypeClass) (ls : Ancestry) : Bool :=
  match c.interface with
  | some i => ls.isMember i
  | none => ls.isCapable

/-- The methods that the interface requires. -/
def required (c : TypeClass) : List Method :=
  match c.interface with
  | some i => i.required
  | none => []

/-- All the values pass the rule. -/
def admitsAll (call : Apply) (r : Rule) : List Value → Run Bool
  | [] => pure true
  | v :: vs => do if ← r.admits call v then admitsAll call r vs else return false

/-- The answer to the question whether the value is a member of the type class: a truth value,
unless the rule of the class answers otherwise. -/
def verdict (call : Apply) (c : TypeClass) (v : Value) : Run Value :=
  match v.variantContents? with
  | some held => do
    return .bool (← if c.covers v.layers then admitsAll call c.contents held else pure false)
  | none => if c.covers v.layers then Run.answer true else c.builtin.verdict call v

/-- The value is a member of the type class. -/
def contains (call : Apply) (c : TypeClass) (v : Value) : Run Bool := do
  (← c.verdict call v).truth call

/-- The type representative is a member of the type class. -/
def containsRep (c : TypeClass) (v : Value) : Bool :=
  match v with
  | .type r => c.covers r.layers || c.reps.any v.identical
  | _ => false

end TypeClass

/-- A type class of the library. -/
private def standardClass (i : Interface) (builtin : Rule) (reps : List Builtin)
    (superclasses : List Interface) (contents : Rule) : TypeClass :=
  ⟨i.name, some i, builtin, contents, superclasses.map Interface.name,
    reps.map fun b => .type (.builtin b)⟩

namespace Interface

/-- The type class of an interface. -/
def typeClass (i : Interface) : TypeClass :=
  let sequences : List Builtin := [.list, .tuple]
  let semigroups : List Builtin := [.str, .list, .tuple, .dict]
  match i with
  | .setoid => standardClass i .setoid
      [.null, .bool, .int, .float, .complex, .str, .bytes, .list, .tuple, .dict, .date, .moment]
      [] .setoid
  | .ord => standardClass i .ord
      [.bool, .int, .float, .str, .list, .tuple, .date, .moment] [.setoid] .always
  | .semigroup => standardClass i .semigroup semigroups [] .semigroup
  | .monoid => standardClass i .semigroup semigroups [.semigroup] .semigroup
  | .functor => standardClass i .mappable [.list, .tuple, .dict] [] .always
  | .apply => standardClass i .sequence sequences [.functor] .always
  | .applicative => standardClass i .sequence sequences [.apply] .always
  | .alt => standardClass i .sequence sequences [.functor] .always
  | .chain => standardClass i .sequence sequences [.apply] .always
  | .monad => standardClass i .sequence sequences [.applicative, .chain] .always
  | .foldable => standardClass i .collection [.list, .tuple, .dict] [] .always
  | .traversable => standardClass i .sequence sequences [.functor, .foldable] .always
  | .extend => standardClass i .sequence sequences [.functor] .always

end Interface

/-! ## Registries -/

/-- Type classes with different names, in a fixed order. -/
abbrev Registry := List TypeClass

namespace Registry

/-- Adds a type class: one of the same name gives way to it and leaves it its place. -/
def insert (c : TypeClass) : Registry → Registry
  | [] => [c]
  | d :: rest => if d.name = c.name then c :: rest else d :: insert c rest

/-- The registry of a list of type classes, of which a later one replaces an earlier one of the
same name. -/
def ofList (cs : List TypeClass) : Registry := cs.foldl (fun r c => r.insert c) []

/-- The type classes of the library. -/
def standard : Registry := Interface.all.map Interface.typeClass

/-- The type class of a name. -/
def find? (r : Registry) (name : String) : Option TypeClass := List.find? (·.name == name) r

/-- The registry knows the name. -/
def knows (r : Registry) (name : String) : Bool := (r.find? name).isSome

def names (r : Registry) : List String := r.map TypeClass.name

/-- The type class of a name that has to be known. -/
def get (r : Registry) (name : String) : Except Fault TypeClass :=
  match r.find? name with
  | some c => .ok c
  | none => .error .unknownKey

/-- The answer to the question whether the value is a member of the named type class. -/
def verdict (call : Apply) (r : Registry) (name : String) (v : Value) : Run Value := do
  (← r.get name).verdict call v

/-- The value is a member of the named type class. -/
def satisfies (call : Apply) (r : Registry) (name : String) (v : Value) : Run Bool := do
  (← r.verdict call name v).truth call

/-- The type representative is a member of the named type class. -/
def satisfiesRep (r : Registry) (name : String) (v : Value) : Except Fault Bool := do
  return (← r.get name).containsRep v

/-- The names of the type classes that the value is a member of. -/
def classesOf (call : Apply) (r : Registry) (v : Value) : Run (List String) := do
  return (← r.filterM fun c => c.contains call v).map TypeClass.name

end Registry

end CheckedCalls
