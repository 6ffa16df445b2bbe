import CheckedCalls.Check.Basic

/-!
# Checked functions

A function can be defined with a signature: every call of it is then checked before it runs, and a
violation takes the place of the call. With checking turned off the function is left as it is, but
its signature is still validated. A setting of the environment turns checking off.
-/

namespace CheckedCalls

/-! ## Settings -/

/-- How functions are defined. -/
structure Settings where
  checkTypes : Bool
  vocabulary : Vocabulary
  deriving Inhabited

namespace Settings

/-- The setting that turns checking off. -/
def switchName : String := "COVENANT_CHECK_TYPES"

/-- The values of the switch that turn checking off, in lower case and without blanks around. -/
def offWords : List (List Char) := ["0".toList, "false".toList, "no".toList, "off".toList]

/-- The settings of an environment, in which a later entry replaces an earlier one of its name. -/
def ofEnvironment (environment : List (String × String)) : Settings :=
  let raw := (environment.reverse.lookup switchName).getD ""
  ⟨!offWords.contains ((Text.trim raw.toList).map Char.toLower), .standard⟩

end Settings

/-! ## Definitions -/

/-- Runs a body if the arguments fit the signature. -/
def enforce (call : Apply) (vocabulary : Vocabulary) (signature : Signature) (args : List Value)
    (body : Run Value) : Run Value := do
  match ← check call vocabulary signature args with
  | .violated v => throw (.violation v)
  | .passed _ => body

/-- A function with or without a signature before it. -/
inductive Definition
  | checked (signature : Signature) (vocabulary : Vocabulary) (impl : Value)
  | bare (impl : Value)
  deriving Inhabited

namespace Definition

/-- Calls a defined function. -/
def run (call : Apply) (d : Definition) (args : List Value) : Run Value :=
  match d with
  | .checked signature vocabulary impl =>
    enforce call vocabulary signature args (call impl args)
  | .bare impl => call impl args

/-- The signature that calls are checked against. -/
def signature? : Definition → Option Signature
  | .checked s _ _ => some s
  | .bare _ => none

/-- The name of a defined function: that of its implementation. -/
def name (call : Apply) (d : Definition) : Run Value :=
  match d with
  | .bare impl => impl.get call .className
  | .checked _ _ impl =>
    Run.rescue (impl.get call .className) (fun _ => true) (pure (.str "wrapper"))

end Definition

/-- Defines a function; its signature has to be well formed also if calls are not checked. -/
def define (settings : Settings) (name : String) (constraints : ConstraintMap)
    (types : List TypeEntry) (impl : Value) : Except Fault Definition := do
  let signature ← Signature.build name constraints types settings.vocabulary.registry
  return if settings.checkTypes then .checked signature settings.vocabulary impl else .bare impl

/-- Defines a function under the name that it has, unless another name is given. -/
def defineNamed (call : Apply) (settings : Settings) (name : Option String)
    (constraints : ConstraintMap) (types : List TypeEntry) (impl : Value) : Run Definition := do
  let given := name.getD ""
  if given.isEmpty then
    match ← impl.get call .className with
    | .text _ own => liftM (define settings own constraints types impl)
    | _ => throw .missingAttribute
  else liftM (define settings given constraints types impl)

end CheckedCalls
