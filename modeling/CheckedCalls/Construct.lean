import CheckedCalls.Conversion
import CheckedCalls.Value.Attribute

/-!
# Calling a class

A class is called with the content of a new value. The classes of built-in values convert what they
are given; a value that is of the class already may be the answer itself. A declared class makes an
instance that holds its argument.
-/

namespace CheckedCalls

namespace Builtin

/-- Calls a class of numbers. -/
def number (b : Builtin) (args : List Value) : Except Fault Value :=
  match b, args with
  | .int, [] => .ok (.int 0)
  | .int, [.number t (.int n)] => .ok (.number t (.int n))
  | .int, [v] => do return .int (← v.toWhole)
  | .int, [v, base] => do return .int (← v.toWholeIn base)
  | .float, [] => .ok (.number .fresh (.float .zero))
  | .float, [.number t (.float x)] => .ok (.number t (.float x))
  | .float, [v] => do return .number .fresh (.float (← v.toRounded))
  | .fraction, [] => .ok (.number .fresh (.fraction 0))
  | .fraction, [v] => do return .number .fresh (.fraction (← v.toQuotient))
  | .fraction, [v, w] => do return .number .fresh (.fraction (← v.toRatio w))
  | .complex, [] => .ok (.complex .fresh .zero .zero)
  | .complex, [.complex t re im] => .ok (.complex t re im)
  | .complex, [v] => do
    let (re, im) ← v.toComplex
    return .complex .fresh re im
  | .complex, [v, w] => do
    let (re, im) ← v.toComplexOf w
    return .complex .fresh re im
  | _, _ => .error .argumentCount

/-- Calls a class of sequences or dictionaries. -/
def container (call : Apply) (b : Builtin) (args : List Value) : Run Value :=
  match b, args with
  | .list, [] => pure (.list [])
  | .list, [v] => do return .list (← v.elements)
  | .tuple, [] => pure (.tuple [])
  | .tuple, [.seq .tuple t xs] => pure (.seq .tuple t xs)
  | .tuple, [v] => do return .tuple (← v.elements)
  | .dict, [] => pure (.dict .fresh [])
  | .dict, [.dict _ es] => pure (.dict .fresh es)
  | .dict, [v] => do return .dict .fresh (← (← v.elements).foldlM (Value.addEntry call) [])
  | .bytes, [] => pure (.bytes .fresh [])
  | .bytes, [.bytes t bs] => pure (.bytes t bs)
  | .bytes, [.text _ _] => throw .notConvertible
  | .bytes, [v] => match v.index with
    | .ok n => do return .bytes .fresh (← Value.zeros n)
    | .error _ => do return .bytes .fresh (← (← v.elements).mapM fun x => liftM x.toByte)
  | .bytes, [v, name] => do return .bytes .fresh (← v.encoded name)
  | _, _ => throw .argumentCount

/-- Calls a class of the library or of built-in values. -/
def construct (call : Apply) (b : Builtin) (args : List Value) : Run Value :=
  match b, args with
  | .just, [v] => pure (.just .fresh v)
  | .left, [v] => pure (.left .fresh v)
  | .right, [v] => pure (.right .fresh v)
  | .identity, [v] => pure (.identity .fresh v)
  | .nothing, [] => pure .nothing
  | .maybe, _ => throw (.notInstantiable "Maybe")
  | .either, _ => throw (.notInstantiable "Either")
  | .bool, [] => pure (.bool false)
  | .bool, [v] => do return .bool (← v.truth call)
  | .str, [] => pure (.str "")
  | .str, [.text t s] => pure (.text t s)
  | .str, [v] => do return .str (← v.display call)
  | .str, [v, name] => do return .str (← v.decoded name)
  | .date, parts => do return .date .fresh (← Date.ofParts parts)
  | .moment, parts => do return .moment .fresh (← Moment.ofParts parts)
  | .null, [] => pure .null
  | .object, [] => pure (.plain .fresh)
  | .type, [v] => pure (.type v.typeRep)
  | .int, args | .float, args | .fraction, args | .complex, args => liftM (b.number args)
  | .list, args | .tuple, args | .dict, args | .bytes, args => b.container call args
  | _, _ => throw .argumentCount

end Builtin

/-- Calls a class. An instance of a declared class holds its argument, or null without one. -/
def TypeRep.construct (call : Apply) (r : TypeRep) (args : List Value) : Run Value :=
  match r, args with
  | .builtin b, args => b.construct call args
  | .declared (.composed t n outer inner), [v] =>
    pure (.object .fresh (.composed t n outer inner) v)
  | .declared (.declared t n ls), [] => (Class.declared t n ls).instantiate .null
  | .declared (.declared t n ls), [v] => (Class.declared t n ls).instantiate v
  | _, _ => throw .argumentCount

end CheckedCalls
