import CheckedCalls.Evaluate

/-!
# Scripts

A term describes a value as it is written down: literals, functions, classes, calls that make a
value, and references to values made before. Each term that stands for an object makes a new one,
so only a reference shares. A script is a list of calls whose results later calls can refer to; a
call that fails has no result to refer to, but what it assigned on the way stays.
-/

namespace CheckedCalls

/-! ## Terms -/

/-- A type representative as it is written down. -/
inductive TypeTerm
  | builtin (b : Builtin)
  | declared (id : String)
  | composed (outer inner : TypeTerm)
  deriving Inhabited

/-- How a function is put together from values. -/
inductive FuncHead
  | const | add | compose | curry | branch
  | partial_ (t : Target)
  deriving Inhabited

namespace FuncHead

/-- The function that a head makes of its arguments. -/
def build (h : FuncHead) (args : List Value) : Except Fault Func :=
  match h, args with
  | .const, [v] => .ok (.const v)
  | .add, [v] => .ok (.add v)
  | .compose, [f, g] => .ok (.compose f g)
  | .curry, [f] => .ok (.curry f)
  | .branch, [p, a, b] => .ok (.branch p a b)
  | .partial_ t, vs => .ok (.partial_ t vs)
  | _, _ => .error .argumentCount

end FuncHead

/-- A value as it is written down. -/
inductive Term
  /-- A value without parts. -/
  | scalar (v : Value)
  | seq (k : SeqKind) (items : List Term)
  | dict (entries : List (Term × Term))
  /-- A box of a base around a value. -/
  | box (b : Base) (content : Term)
  /-- A function put together from values. -/
  | func (h : FuncHead) (args : List Term)
  | type (t : TypeTerm)
  /-- A call that makes a value. -/
  | call (f : Term) (args : List Term)
  /-- The object made before under a name. -/
  | ref (name : String)

instance : Inhabited Term := ⟨.ref ""⟩

/-- A class as it is written down: what it binds itself, and what it descends from. -/
structure ClassTerm where
  name : String
  methods : List Attribute
  cleared : List Attribute
  bases : List (String ⊕ Base)
  data : List (Attribute × Term)
  legacy : Bool
  deriving Inhabited

/-! ## Sessions -/

/-- What has been made so far: the world of the runs, and classes and values by name. -/
structure Session where
  world : World
  classes : List (String × Class)
  names : List (String × Value)
  deriving Inhabited

/-- A computation that makes objects. What it has made stays also where it fails. -/
abbrev Making := ExceptT Fault (StateM Session)

namespace Making

/-- A run in the world of the session. -/
def ofRun {α : Type} (r : Run α) : Making α := do
  let outcome ← modifyGet fun s =>
    let (outcome, world) := r.outcome s.world
    (outcome, { s with world })
  liftM outcome

/-- The outcome of a run in the world of the session, and the log that it wrote. -/
def logged {α : Type} (r : Run α) : Making (Except Fault α × Log) :=
  modifyGet fun s =>
    let (outcome, world) := r.outcome { s.world with log := [] }
    ((outcome, world.log), { s with world })

/-- The outcome of a computation, which does not fail itself. -/
def attempt {α : Type} (m : Making α) : Making (Except Fault α) := ExceptT.lift (ExceptT.run m)

/-- Numbers what is fresh in the result of a labelling. -/
def labelling {α : Type} (l : Labelling α) : Making α := ofRun (Run.labelling l)

/-- The identity of a new object. -/
def newTag : Making Tag := labelling (Tag.label .fresh)

/-- The class made before under a name. -/
def classNamed (id : String) : Making Class := do
  match (← get).classes.lookup id with
  | some c => return c
  | none => throw .unknownKey

/-- Keeps a value under a name. -/
def bind (name : String) (v : Value) : Making Unit :=
  modify fun s => { s with names := (name, v) :: s.names }

end Making

namespace TypeTerm

/-- The type representative that is written down; a composition is a new class each time. -/
def eval : TypeTerm → Making Value
  | .builtin b => return .type (.builtin b)
  | .declared id => do return .type (.declared (← Making.classNamed id))
  | .composed outer inner => do
    let f ← eval outer
    let g ← eval inner
    let t ← Making.newTag
    return .type (.declared (← Making.ofRun (composeFunctors applyFunction t f g)))

end TypeTerm

namespace Value

/-- Dates and moments lie in the calendar. -/
def isWellFormed : Value → Bool
  | .date _ d => d.isValid
  | .moment _ m => m.isValid
  | _ => true

end Value

namespace Term

mutual

/-- The value that is written down. -/
def eval : Term → Making Value
  | .scalar v => if v.isWellFormed then Making.labelling v.label else throw .badValue
  | .seq k items => do
    let xs ← evalAll items
    return .seq k (← Making.newTag) xs
  | .dict entries => do
    let entries ← evalEntries entries
    let es ← Making.ofRun (Value.setEntries applyFunction [] entries)
    return .dict (← Making.newTag) es
  | .box b content => do
    let v ← eval content
    Making.labelling (b.wrap v).label
  | .func h args => do
    let vs ← evalAll args
    let f ← h.build vs
    return .func (← Making.newTag) f
  | .type t => t.eval
  | .call f args => do
    let g ← eval f
    let vs ← evalAll args
    Making.ofRun (applyFunction g vs)
  | .ref name => do
    match (← get).names.lookup name with
    | some v => Making.ofRun (Run.settle v)
    | none => throw .missingReference

/-- The values that are written down, from left to right. -/
def evalAll : List Term → Making (List Value)
  | [] => return []
  | t :: ts => do
    let v ← eval t
    return v :: (← evalAll ts)

/-- The keys and values that are written down, each key before its value. -/
def evalEntries : List (Term × Term) → Making (List (Value × Value))
  | [] => return []
  | (k, v) :: es => do
    let key ← eval k
    let value ← eval v
    return (key, value) :: (← evalEntries es)

end

end Term

namespace ClassTerm

/-- The ancestry of something that a class descends from. -/
def baseLayers : String ⊕ Base → Making Ancestry
  | .inl id => do return (← Making.classNamed id).layers
  | .inr b => return .ofBase b

/-- The class that is written down. -/
def eval (c : ClassTerm) : Making Class := do
  let data ← c.data.mapM fun p => do return (p.1, Member.data (← p.2.eval))
  let bases ← c.bases.mapM baseLayers
  let own := c.methods.map fun a => (a, Member.body none a)
  let cleared := c.cleared.map fun a => (a, Member.data .null)
  let t ← Making.newTag
  Class.declare t c.name bases (data.reverse ++ cleared ++ own) c.legacy

end ClassTerm

namespace Session

/-- Nothing has been made. -/
def empty : Session := ⟨.initial, [], []⟩

end Session

namespace Making

/-- Makes classes in order, each under its name. -/
def declareAll (classes : List (String × ClassTerm)) : Making Unit :=
  classes.forM fun p => do
    let c ← p.2.eval
    modify fun s => { s with classes := (p.1, c) :: s.classes }

/-- Makes values in order, each under its name. -/
def bindAll (definitions : List (String × Term)) : Making Unit :=
  definitions.forM fun p => do bind p.1 (← p.2.eval)

end Making

/-! ## Scripts -/

/-- A call: what is called, and its arguments. -/
structure CallTerm where
  target : Target
  args : List Term
  deriving Inhabited

namespace CallTerm

/-- Makes the arguments and calls the target. -/
def eval (c : CallTerm) : Making Value := do
  let vs ← Term.evalAll c.args
  Making.ofRun (c.target.answer vs)

end CallTerm

namespace Script

/-- Runs the calls from place `i` on. The result of a call is kept under its place; a call that
fails leaves no result. -/
def run (i : Nat) : List CallTerm → Making (List (Except Fault Value))
  | [] => return []
  | c :: cs => do
    let outcome ← Making.attempt c.eval
    if let .ok v := outcome then Making.bind (toString i) v
    return outcome :: (← run (i + 1) cs)

end Script

end CheckedCalls
