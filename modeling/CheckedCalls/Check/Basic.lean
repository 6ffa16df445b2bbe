import CheckedCalls.Check.Candidates
import CheckedCalls.Violation.Builder

/-!
# Checking a call

`check` validates the arguments of a call against a signature. The number of arguments must fit;
each argument must then fit the type of its slot, from left to right:

* a named type must contain the value, and what the value holds must fit the type's arguments;
* a function type takes anything that can be called;
* the value of a variable must be a member of every type class the variable is constrained by,
  and all values seen for a variable, and what they hold, must have a type in common;
* a type representative must name members of every type class on the variables it is applied to.

The first thing that does not fit ends the check with a violation.
-/

namespace CheckedCalls

/-- The types that describe values, and the type classes that constraints may name. -/
structure Vocabulary where
  env : List NamedType
  registry : Registry
  deriving Inhabited

/-- The vocabulary of the library. -/
def Vocabulary.standard : Vocabulary := ⟨StandardType.defaultEnv, .standard⟩

/-- A step of a check: it ends in a violation or goes on. -/
abbrev Checking := ExceptT Violation Run

/-- A step that fails, and so ends the check without an answer. -/
def Checking.fail {α : Type} (f : Fault) : Checking α := ExceptT.lift (throw f)

/-- The outcome of a check. -/
inductive CheckResult
  /-- The arguments fit, with the type that each variable was bound to. -/
  | passed (bindings : List (String × NamedType))
  | violated (v : Violation)
  deriving Inhabited

/-! ## Depth -/

mutual

/-- How deeply containers are nested in a value. -/
def Value.depth : Value → Nat
  | .seq _ _ xs => Value.depthOfAll xs + 1
  | .dict _ es => Value.depthOfEntries es + 1
  | .just _ v | .left _ v | .right _ v | .identity _ v => Value.depth v + 1
  | .object _ _ v => Value.depth v + 1
  | _ => 0

/-- The greatest depth of several values. -/
def Value.depthOfAll : List Value → Nat
  | [] => 0
  | x :: xs => max (Value.depth x) (Value.depthOfAll xs)

/-- The greatest depth of keys and values. -/
def Value.depthOfEntries : List (Value × Value) → Nat
  | [] => 0
  | (k, v) :: es => max (max (Value.depth k) (Value.depth v)) (Value.depthOfEntries es)

end

/-- How deep the contents of a value are followed: beyond its own depth only contents that a
function made up can be found. -/
def Value.reach (v : Value) : Nat := v.depth + 1000

namespace Check

variable (call : Apply) (vocabulary : Vocabulary) (signature : Signature)

/-! ## Violations -/

/-- A report in the making. -/
def report (kind : ViolationKind) : ViolationBuilder :=
  { kind := kind, functionName := signature.name, signature := signature.text }

/-- Adds a value to a report, marked where it was checked. -/
def addValue (b : ViolationBuilder) (position : Nat) (v : Value) (key : SpanKey) :
    Run ViolationBuilder := do
  let text ← v.toText call
  let types ← typeNames call vocabulary.env v
  return b.value position text types (signature.span? key)

/-- A value does not belong to the type of its slot. -/
def invalidValue (expr : TypeExpr) (v : Value) (position : Nat) (key : SpanKey) :
    Checking CheckState := do
  let b ← addValue call vocabulary signature (report signature .invalidValue) position v key
  throw (b.explain (Explanation.invalidValue expr.text 1)).build

/-- The place of a constraint in the text of the signature; only constraints of its own have one. -/
def constraintPlace (name typeClass : String) : Checking Span :=
  match signature.constraintSpan? ⟨typeClass, name⟩ with
  | some span => pure span
  | none => Checking.fail .unknownKey

/-- A value does not satisfy a type class. -/
def unsatisfied (name typeClass : String) (v : Value) (position : Nat) (key : SpanKey) :
    Checking CheckState := do
  let span ← constraintPlace signature name typeClass
  let b := (report signature .typeClass).underline span.1 span.2 ""
  let b ← addValue call vocabulary signature b position v key
  throw (b.explain (Explanation.typeClass signature.name name typeClass 1)).build

/-- The values seen for a variable have no type in common. -/
def nothingInCommon (seen : List Observation) : Checking CheckState := do
  let b ← seen.foldlM (fun b o => addValue call vocabulary signature b o.position o.value o.key)
    (report signature .typeVariable)
  throw (b.explain Explanation.typeVariable).build

/-- The number of arguments does not fit. -/
def wrongArity (received : Nat) : Violation :=
  ((report signature .arity).explain
    (Explanation.arity signature.name signature.minArity received signature.isVariadic)).build

/-! ## Variables -/

/-- Does something for each value that a container runs through. -/
def forEach (container : Value) (step : CheckState → Value → Checking CheckState)
    (s : CheckState) : Checking CheckState := do
  let items ← container.elements
  items.foldlM step s

/-- The parameters in front of the last `named` ones. -/
def unnamed {α : Type} (named : Nat) (params : List α) : List α :=
  params.take (if named ≤ params.length then params.length - named
    else 2 * params.length - named)

/-- The last `named` parameters. -/
def trailing {α : Type} (named : Nat) (params : List α) : List α :=
  params.drop (if named ≤ params.length then params.length - named
    else 2 * params.length - named)

/-- Does something for each of some things with their places, from place `i` on. -/
def forPlaces {α : Type} (step : Nat → CheckState → α → Checking CheckState) (i : Nat) :
    List α → CheckState → Checking CheckState
  | [], s => pure s
  | a :: rest, s => do forPlaces step (i + 1) rest (← step i s a)

/-- Narrows the types that the values of a key have in common by one more value, and what the
values hold with it. The last `named` parameters are left to the arguments of the variable. -/
def unify (position : Nat) (spanKey : SpanKey) :
    Nat → VarKey → Nat → Value → CheckState → Checking CheckState
  | 0, _, _, _, _ => Checking.fail .tooDeep
  | fuel + 1, key, named, v, s => do
    let ranked := rank (← describe call vocabulary.env v)
    let types := s.candidatesAfter key ranked
    -- the value joins those seen before it is known to fit, so that a violation shows it too
    let s := s.observe key ⟨position, v, spanKey⟩
    if types.isEmpty then
      nothingInCommon call vocabulary signature (s.observed key)
    else
      let s := s.narrow key types
      match extractor? types named with
      | none => return s
      | some e =>
        -- the values held for each parameter have a key of their own
        let params ← e.run call v
        forPlaces (fun i s items =>
          forEach items (fun s item => unify position spanKey fuel (.inner key i) 0 item s) s)
          0 (unnamed named params) s

/-- The value of a variable satisfies the type classes of the variable. -/
def satisfyAll (name : String) (v : Value) (position : Nat) (key : SpanKey) :
    List String → CheckState → Checking CheckState
  | [], s => pure s
  | c :: cs, s => do
    if ← vocabulary.registry.satisfies call c v then satisfyAll name v position key cs s
    else unsatisfied call vocabulary signature name c v position key

/-- A type representative satisfies the type classes of a variable. -/
def representAll (name : String) (rep : Value) (position : Nat) (key : SpanKey) :
    List String → CheckState → Checking CheckState
  | [], s => pure s
  | c :: cs, s => do
    if ← vocabulary.registry.satisfiesRep c rep then
      representAll name rep position key cs s
    else unsatisfied call vocabulary signature name c rep position key

/-- A type representative satisfies the type classes of the variables it is applied to. -/
def checkRep (rep : Value) (position : Nat) (key : SpanKey) :
    List TypeExpr → CheckState → Checking CheckState
  | [], s => pure s
  | .var name _ :: rest, s => do
    let s ← representAll call vocabulary signature name rep position key
      (signature.constraintsOn name) s
    checkRep rep position key rest s
  | _ :: rest, s => checkRep rep position key rest s

/-! ## Values -/

mutual

/-- Checks a value against a type. -/
def checkValue (position : Nat) : TypeExpr → SpanKey → Value → CheckState → Checking CheckState
  -- the type classes come first, then the types in common, then what the variable is applied to
  | .var name args, key, v, s => do
    let s ← satisfyAll call vocabulary signature name v position key
      (signature.constraintsOn name) s
    let s ← unify call vocabulary signature position key v.reach (.named name) args.length v s
    if args.isEmpty then return s
    else
      match extractor? ((s.candidates? (.named name)).getD []) args.length with
      | none => return s
      | some e => checkContents position key 0 args (trailing args.length (← e.run call v)) s
  | .fn params result, key, v, s =>
    if v.isCallable then pure s
    else invalidValue call vocabulary signature (.fn params result) v position key
  | .concrete t args, key, v, s => do
    if !(← t.contains call v) then
      invalidValue call vocabulary signature (.concrete t args) v position key
    else if t == StandardType.named .typeRep then
      checkRep call vocabulary signature v position key args s
    else if args.isEmpty then return s
    else
      match t.extraction with
      | none => return s
      | some e => checkContents position key 0 args (trailing args.length (← e.run call v)) s
  | .foreign, _, _, _ =>
    Checking.fail (Signature.malformed signature.name "unsupported type expression Opaque")

/-- Checks what a value holds for each parameter against the type arguments from place `i` on. -/
def checkContents (position : Nat) (key : SpanKey) (i : Nat) :
    List TypeExpr → List Value → CheckState → Checking CheckState
  | arg :: args, items :: rest, s => do
    let s ← forEach items (fun s item => checkValue position arg (key ++ [i]) item s) s
    checkContents position key (i + 1) args rest s
  | _, _, s => pure s

end

/-- Checks the arguments from place `index` on, each against its slot. A violation is logged. -/
def checkArguments (index : Nat) : List Value → CheckState → Run (Except Violation CheckState)
  | [], s => pure (.ok s)
  | v :: vs, s => do
    let place := signature.slotFor index
    let type := (signature.slots[place]?.map Slot.type).getD .foreign
    match ← (checkValue call vocabulary signature (index + 1) type [place] v s).run with
    | .error violation => do
      Run.note (signature.name ++ ": " ++ violation.kind.title ++ " at position " ++
        toString (index + 1))
      return .error violation
    | .ok s => checkArguments (index + 1) vs s

/-- The bindings as the log shows them. -/
def bindingText (bindings : List (String × NamedType)) : String :=
  ", ".intercalate (bindings.map fun b => b.1 ++ " = " ++ b.2.name)

end Check

open Check in
/-- Checks the arguments of a call against a signature. -/
def check (call : Apply) (vocabulary : Vocabulary) (signature : Signature) (args : List Value) :
    Run CheckResult := do
  if !signature.accepts args.length then
    return .violated (wrongArity signature args.length)
  else
    match ← checkArguments call vocabulary signature 0 args .initial with
    | .error violation => return .violated violation
    | .ok s => do
      let bindings := s.bindings
      if !bindings.isEmpty then
        Run.note (signature.name ++ ": bound " ++ bindingText bindings)
      return .passed bindings

end CheckedCalls
