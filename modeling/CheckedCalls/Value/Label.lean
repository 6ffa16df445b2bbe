import CheckedCalls.Run

/-!
# Objects and their numbers

What a step makes is fresh. Where a value passes into a call or out of one its fresh objects are
numbered, so that from then on two values can be told to be one object; an object that has a number
holds only objects that have one, so numbering stops there. At the same points the attributes that
were assigned meanwhile are filled in. A copy is made of new objects throughout, and what was one
object twice is one object twice in the copy.
-/

namespace CheckedCalls

/-- The next number for an object. -/
abbrev Labelling := StateM Nat

namespace Tag

/-- Numbers a fresh tag. -/
def label : Tag → Labelling Tag
  | .fresh => modifyGet fun n => (.numbered n, n + 1)
  | t => pure t

/-- The tag of the copy of an object, if no number from `shift` on is in use. -/
def copied (shift : Nat) : Tag → Labelling Tag
  | .numbered n => pure (.numbered (n + shift))
  | _ => label .fresh

end Tag

namespace Class

/-- Numbers a class that was made by the step. -/
def label : Class → Labelling Class
  | .composed t n outer inner => do return .composed (← t.label) n outer inner
  | .declared t n ls => pure (.declared t n ls)

end Class

namespace Value

/-! ## Numbering -/

mutual

/-- Numbers the fresh objects of a value. -/
def label : Value → Labelling Value
  | .number t n => do return .number (← t.label) n
  | .complex t re im => do return .complex (← t.label) re im
  | .text t s => do return .text (← t.label) s
  | .bytes t bs => do return .bytes (← t.label) bs
  | .date t d => do return .date (← t.label) d
  | .moment t m => do return .moment (← t.label) m
  | .plain t => do return .plain (← t.label)
  | .error t k m => do return .error (← t.label) k m
  | .func t f => do return .func (← t.label) f
  | .type (.declared c) => do return .type (.declared (← c.label))
  | .seq k .fresh xs => do
    let xs ← labelAll xs
    return .seq k (← Tag.label .fresh) xs
  | .dict .fresh es => do
    let es ← labelEntries es
    return .dict (← Tag.label .fresh) es
  | .just .fresh v => do
    let v ← label v
    return .just (← Tag.label .fresh) v
  | .left .fresh v => do
    let v ← label v
    return .left (← Tag.label .fresh) v
  | .right .fresh v => do
    let v ← label v
    return .right (← Tag.label .fresh) v
  | .identity .fresh v => do
    let v ← label v
    return .identity (← Tag.label .fresh) v
  | .object .fresh c v => do
    let v ← label v
    return .object (← Tag.label .fresh) c v
  | v => pure v

/-- Numbers the fresh objects of several values. -/
def labelAll : List Value → Labelling (List Value)
  | [] => pure []
  | x :: xs => do
    let x ← label x
    return x :: (← labelAll xs)

/-- Numbers the fresh objects of keys and values. -/
def labelEntries : List (Value × Value) → Labelling (List (Value × Value))
  | [] => pure []
  | (k, v) :: es => do
    let k ← label k
    let v ← label v
    return (k, v) :: (← labelEntries es)

end

/-! ## Copying -/

mutual

/-- A copy of a value; classes and functions that have a name stay what they are. Each occurrence of
a number is copied by itself. -/
def copied (shift : Nat) : Value → Labelling Value
  | .number t (.fraction q) => do return .number (← t.copied shift) (.fraction q)
  | .number _ n => do return .number (← Tag.label .fresh) n
  | .complex t re im => do return .complex (← t.copied shift) re im
  | .text t s => do return .text (← t.copied shift) s
  | .bytes t bs => do return .bytes (← t.copied shift) bs
  | .date t d => do return .date (← t.copied shift) d
  | .moment t m => do return .moment (← t.copied shift) m
  | .plain t => do return .plain (← t.copied shift)
  | .error t k m => do return .error (← t.copied shift) k m
  | .seq k t xs => do
    let xs ← copiedAll shift xs
    return .seq k (← t.copied shift) xs
  | .dict t es => do
    let es ← copiedEntries shift es
    return .dict (← t.copied shift) es
  | .just t v => do
    let v ← copied shift v
    return .just (← t.copied shift) v
  | .left t v => do
    let v ← copied shift v
    return .left (← t.copied shift) v
  | .right t v => do
    let v ← copied shift v
    return .right (← t.copied shift) v
  | .identity t v => do
    let v ← copied shift v
    return .identity (← t.copied shift) v
  | .func t (.bound receiver b a) => do
    let receiver ← copied shift receiver
    return .func (← t.copied shift) (.bound receiver b a)
  | v => pure v

/-- Copies of several values. -/
def copiedAll (shift : Nat) : List Value → Labelling (List Value)
  | [] => pure []
  | x :: xs => do
    let x ← copied shift x
    return x :: (← copiedAll shift xs)

/-- Copies of keys and values. -/
def copiedEntries (shift : Nat) : List (Value × Value) → Labelling (List (Value × Value))
  | [] => pure []
  | (k, v) :: es => do
    let k ← copied shift k
    let v ← copied shift v
    return (k, v) :: (← copiedEntries shift es)

end

mutual

/-- Why there is no copy of a value, if there is none. Classes and functions are copied by the names
they are known under, and those made while the program runs have none. -/
def copyFault? : Value → Option Fault
  | .seq _ _ xs => copyFaultOf? xs
  | .dict _ es => copyFaultWithin? es
  | .just _ v | .left _ v | .right _ v | .identity _ v => copyFault? v
  | .object _ _ _ | .type (.declared _) => some .notCopyable
  | .func _ (.unbound _ _) => none
  | .func _ (.bound receiver _ _) => copyFault? receiver
  | .func _ _ => some .missingAttribute
  | _ => none

/-- Why there is no copy of the first of several values that has none. -/
def copyFaultOf? : List Value → Option Fault
  | [] => none
  | x :: xs => (copyFault? x).or (copyFaultOf? xs)

/-- Why there is no copy of the first key or value that has none. -/
def copyFaultWithin? : List (Value × Value) → Option Fault
  | [] => none
  | (k, v) :: es => ((copyFault? k).or (copyFault? v)).or (copyFaultWithin? es)

end

end Value

/-! ## Filling assigned attributes in -/

namespace World

/-- What was assigned to an object, latest first. -/
def assignedTo (w : World) (t : Tag) : List (Attribute × Member) :=
  match t with
  | .numbered n => (w.assigned.filter fun s => s.object == n).map fun s => (s.name, .data s.value)
  | _ => []

/-- The name of a class that was made under the given one. -/
def nameOf (w : World) (t : Tag) (name : String) : String :=
  match w.assigned? t .className with
  | some (.text _ s) => s
  | _ => name

end World

namespace Layer

/-- A class with the attributes that were assigned to it in front of its own. -/
def refresh (w : World) : Layer → Layer
  | .base b => .base b
  | .declared t members =>
    let assigned := w.assignedTo t
    let kept := members.filter fun m => !assigned.any fun s => s.1 == m.1
    .declared t (assigned ++ kept)

end Layer

mutual

/-- A value with what was assigned to the objects in it. -/
def Value.refresh (w : World) : Value → Value
  | .seq k t xs => match w.assigned? t .payload with
    | some (.seq _ _ ys) => .seq k t ys
    | _ => .seq k t (Value.refreshAll w xs)
  | .dict t es => .dict t (Value.refreshEntries w es)
  | .just t v => .just t (Value.refresh w v)
  | .left t v => .left t (Value.refresh w v)
  | .right t v => .right t (Value.refresh w v)
  | .identity t v => .identity t (Value.refresh w v)
  | .func t f => .func t (Func.refresh w f)
  | .type r => .type (TypeRep.refresh w r)
  | .object t c v =>
    .object t (Class.refresh w c) ((w.assigned? t .payload).getD (Value.refresh w v))
  | v => v

/-- Values with what was assigned to the objects in them. -/
def Value.refreshAll (w : World) : List Value → List Value
  | [] => []
  | x :: xs => Value.refresh w x :: Value.refreshAll w xs

/-- Keys and values with what was assigned to the objects in them. -/
def Value.refreshEntries (w : World) : List (Value × Value) → List (Value × Value)
  | [] => []
  | (k, v) :: es => (Value.refresh w k, Value.refresh w v) :: Value.refreshEntries w es

/-- A function with what was assigned to the objects in it. -/
def Func.refresh (w : World) : Func → Func
  | .const v => .const (Value.refresh w v)
  | .add v => .add (Value.refresh w v)
  | .compose f g => .compose (Value.refresh w f) (Value.refresh w g)
  | .curry f => .curry (Value.refresh w f)
  | .curried f x => .curried (Value.refresh w f) (Value.refresh w x)
  | .branch p f g => .branch (Value.refresh w p) (Value.refresh w f) (Value.refresh w g)
  | .partial_ t front => .partial_ t (Value.refreshAll w front)
  | .after f g => .after (Value.refresh w f) (Value.refresh w g)
  | .mapWith f => .mapWith (Value.refresh w f)
  | .applyingTo fs => .applyingTo (Value.refresh w fs)
  | .appendingTo k xs => .appendingTo k (Value.refresh w xs)
  | .lift rep => .lift (Value.refresh w rep)
  | .composingAfter f => .composingAfter (Value.refresh w f)
  | .applyAt x => .applyAt (Value.refresh w x)
  | .chainAfter g f => .chainAfter (Value.refresh w g) (Value.refresh w f)
  | .sequenceWith rep => .sequenceWith (Value.refresh w rep)
  | .extendThen f g => .extendThen (Value.refresh w f) (Value.refresh w g)
  | .bound self b a => .bound (Value.refresh w self) b a
  | .boundTo self f => .boundTo (Value.refresh w self) (Value.refresh w f)
  | f => f

/-- A type representative with what was assigned to its class. -/
def TypeRep.refresh (w : World) : TypeRep → TypeRep
  | .builtin b => .builtin b
  | .declared c => .declared (Class.refresh w c)

/-- A class with what was assigned to it and to its ancestors. -/
def Class.refresh (w : World) : Class → Class
  | .composed t n outer inner =>
    .composed t (w.nameOf t n) (Value.refresh w outer) (Value.refresh w inner)
  | .declared t n ls => .declared t (w.nameOf t n) (ls.map (Layer.refresh w))

end

/-! ## Settling -/

namespace World

/-- Assigns an attribute to an object. -/
def assign (w : World) (n : Nat) (a : Attribute) (v : Value) : World :=
  let latest : Assignment := ⟨n, a, v⟩
  let alone : World := { w with assigned := [latest] }
  { w with assigned :=
      latest :: w.assigned.map fun s => { s with value := s.value.refresh alone } }

end World

namespace Run

/-- Runs a labelling from the next number on. -/
def labelling {α : Type} (l : Labelling α) : Run α :=
  modifyGet fun w =>
    let (a, next) := StateT.run l w.next
    (a, { w with next })

/-- The value as it passes into a call or out of one: what was assigned is filled in, and what is
fresh is numbered. -/
def settle (v : Value) : Run Value := do
  let w ← get
  labelling (if w.assigned.isEmpty then v else v.refresh w).label

/-- Several values as they pass into a call. -/
def settleAll (vs : List Value) : Run (List Value) := vs.mapM settle

/-- A copy of a value, of new objects. -/
def copy (v : Value) : Run Value := do
  if let some fault := v.copyFault? then throw fault
  let shift := (← get).next
  modify fun w => { w with next := 2 * shift }
  labelling (v.copied shift)

end Run

end CheckedCalls
