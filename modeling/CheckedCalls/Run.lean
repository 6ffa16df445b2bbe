import CheckedCalls.Fault

/-!
# Runs

A run calculates a value or fails. On the way it writes to the log, numbers the objects that it
makes and assigns attributes to objects; all three stay behind also where the run fails.

An operation that calls functions is given the meaning of a call: an `Apply` takes a function value
and its arguments. So the operations are defined, and their laws can be stated, for any meaning of
a call.
-/

namespace CheckedCalls

/-- The lines written by checks, oldest first. -/
abbrev Log := List String

/-- A value assigned to an attribute of a numbered object. -/
structure Assignment where
  object : Nat
  name : Attribute
  value : Value

/-- What runs leave behind: the log, the number of the next object, and the attributes assigned so
far, latest first. -/
structure World where
  log : Log
  next : Nat
  assigned : List Assignment

namespace World

/-- Nothing has been made. -/
def initial : World := ⟨[], 0, []⟩

instance : Inhabited World := ⟨initial⟩

/-- The value assigned last to an attribute of an object. -/
def assigned? (w : World) (t : Tag) (a : Attribute) : Option Value :=
  match t with
  | .numbered n =>
    (w.assigned.find? fun s => s.object == n && s.name == a).map Assignment.value
  | _ => none

end World

/-- A computation that may fail and that changes the world. -/
abbrev Run := ExceptT Fault (StateM World)

/-- The meaning of a call. -/
abbrev Apply := Value → List Value → Run Value

namespace Run

/-- Writes a line to the log. -/
def note (line : String) : Run Unit :=
  modify fun w => { w with log := w.log ++ [line] }

/-- The outcome of a run from a given world, and the world that it leaves. -/
def outcome {α : Type} (r : Run α) (w : World) : Except Fault α × World :=
  StateT.run (ExceptT.run r) w

/-- Goes on as `other` says if the run fails for a cause that passes the test. -/
def rescue {α : Type} (r : Run α) (test : Fault → Bool) (other : Run α) : Run α :=
  tryCatch r fun e => if test e then other else throw e

/-- The answer to a question. -/
def answer (b : Bool) : Run Value := pure (.bool b)

end Run

end CheckedCalls
