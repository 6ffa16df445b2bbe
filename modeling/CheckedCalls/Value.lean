import CheckedCalls.Calendar
import CheckedCalls.Number.Basic
import CheckedCalls.Target

/-!
# Values

One type of values on which every operation of the library works: scalars, sequences and
dictionaries, the variants of Maybe and Either, the identity functor, functions, classes and
instances of classes declared outside the library.

Functions are terms and not Lean functions, so that values can be compared, printed and reasoned
about by structural recursion; `Evaluate` says what it means to call one. Values that are objects
in their own right carry a `Tag`, which tells two objects with the same content apart.
-/

namespace CheckedCalls

/-! ## Identity of objects -/

/-- The identity of an object. A fresh object was made by the step that is being taken: it has no
number yet and is identical to no other. A shared one is a constant, the same wherever it is met. -/
inductive Tag
  | fresh
  | shared
  | numbered (n : Nat)
  deriving DecidableEq, Repr, Inhabited

namespace Tag

/-- The two tags belong to one object. -/
def same : Tag → Tag → Bool
  | .fresh, _ => false
  | s, t => s == t

end Tag

/-! ## Enumerations -/

/-- The two kinds of sequence. -/
inductive SeqKind
  | list | tuple
  deriving DecidableEq, Repr, Inhabited

/-- The kinds of error values. -/
inductive ErrorKind
  | baseException | exception | valueError | typeError | keyError | zeroDivision
  deriving DecidableEq, Repr, Inhabited

namespace ErrorKind

def name : ErrorKind → String
  | .baseException => "BaseException" | .exception => "Exception" | .valueError => "ValueError"
  | .typeError => "TypeError" | .keyError => "KeyError" | .zeroDivision => "ZeroDivisionError"

end ErrorKind

/-- The classes of built-in values. -/
inductive Builtin
  | object | bool | int | float | complex | str | bytes | list | tuple | dict | null | fraction
  | date | moment | pattern | function | type | interfaceType
  | error (k : ErrorKind)
  | maybe | nothing | just | either | left | right | identity
  deriving DecidableEq, Repr, Inhabited

namespace Builtin

def name : Builtin → String
  | .object => "object" | .bool => "bool" | .int => "int" | .float => "float"
  | .complex => "complex" | .str => "str" | .bytes => "bytes" | .list => "list"
  | .tuple => "tuple" | .dict => "dict" | .null => "NoneType" | .fraction => "Fraction"
  | .date => "date" | .moment => "datetime" | .pattern => "Pattern" | .function => "function"
  | .type => "type" | .interfaceType => "ABCMeta" | .error k => k.name
  | .maybe => "Maybe" | .nothing => "_Nothing" | .just => "Just" | .either => "Either"
  | .left => "Left" | .right => "Right" | .identity => "Identity"

/-- The base behind a class of the library. -/
def base? : Builtin → Option Base
  | .maybe => some .maybe | .nothing => some .nothing | .just => some .just
  | .either => some .either | .left => some .left | .right => some .right
  | .identity => some .identity
  | _ => none

end Builtin

/-- The elementary functions. -/
inductive Primitive
  | identity | increment | double | negate | invert | just | left | right | nothing | box
  | duplicate | pair | length | toText | value | positive | positiveEither | eitherToMaybe
  | maybeToList | isNone | isDict | isStr | isList | isNumber | isPositive | dictParts
  | plus | append | showFold | count | first | second | arguments
  deriving DecidableEq, Repr, Inhabited

namespace Primitive

def name : Primitive → String
  | .identity => "id" | .increment => "inc" | .double => "double" | .negate => "neg"
  | .invert => "not" | .just => "just" | .left => "left" | .right => "right"
  | .nothing => "nothing" | .box => "box" | .duplicate => "dup" | .pair => "pair"
  | .length => "len" | .toText => "to_string" | .value => "value" | .positive => "positive"
  | .positiveEither => "positive_e" | .eitherToMaybe => "either_to_maybe"
  | .maybeToList => "maybe_to_list" | .isNone => "is_none" | .isDict => "is_dict"
  | .isStr => "is_str" | .isList => "is_list" | .isNumber => "is_number"
  | .isPositive => "is_positive" | .dictParts => "dict_parts" | .plus => "plus"
  | .append => "append" | .showFold => "show" | .count => "count" | .first => "fst"
  | .second => "snd" | .arguments => "args"

/-- Every elementary function. -/
def all : List Primitive :=
  [.identity, .increment, .double, .negate, .invert, .just, .left, .right, .nothing, .box,
    .duplicate, .pair, .length, .toText, .value, .positive, .positiveEither, .eitherToMaybe,
    .maybeToList, .isNone, .isDict, .isStr, .isList, .isNumber, .isPositive, .dictParts,
    .plus, .append, .showFold, .count, .first, .second, .arguments]

end Primitive

/-! ## Values, functions and classes -/

mutual

/-- A value. -/
inductive Value
  | null
  | bool (b : Bool)
  | number (t : Tag) (n : Number)
  | complex (t : Tag) (re im : Binary64)
  | text (t : Tag) (s : String)
  | bytes (t : Tag) (bs : List UInt8)
  | seq (k : SeqKind) (t : Tag) (xs : List Value)
  | dict (t : Tag) (entries : List (Value × Value))
  | date (t : Tag) (d : Date)
  | moment (t : Tag) (m : Moment)
  | pattern (s : String)
  | error (t : Tag) (k : ErrorKind) (message : String)
  /-- An object that is nothing but itself. -/
  | plain (t : Tag)
  | nothing
  | just (t : Tag) (v : Value)
  | left (t : Tag) (v : Value)
  | right (t : Tag) (v : Value)
  | identity (t : Tag) (v : Value)
  | func (t : Tag) (f : Func)
  | type (c : TypeRep)
  | object (t : Tag) (c : Class) (v : Value)

/-- A function, by what it does to its arguments. -/
inductive Func
  /-- An elementary function. -/
  | primitive (p : Primitive)
  /-- Always answers `v`. -/
  | const (v : Value)
  /-- Adds `v` to its argument. -/
  | add (v : Value)
  /-- Applies `f` to what `g` answers. -/
  | compose (f g : Value)
  /-- Takes the two arguments of `f` one at a time. -/
  | curry (f : Value)
  /-- Waits for the second argument of `f`. -/
  | curried (f x : Value)
  /-- Goes on with `yes` if `test` answers true, else with `no`. -/
  | branch (test yes no : Value)
  /-- Calls a target with some arguments in front of its own. -/
  | partial_ (target : Target) (front : List Value)
  /-- Fails with an error value. -/
  | raise (k : ErrorKind) (message : String)
  /-- Answers its argument. -/
  | echo
  /-- Applies `f` to what `g` answers, as made by mapping `f` over a function. -/
  | after (f g : Value)
  /-- Maps `f` over its argument. -/
  | mapWith (f : Value)
  /-- Awaits a container of functions, then one of arguments, and applies one to the other. -/
  | applying
  /-- Applies the functions held by `fs` to what its argument holds. -/
  | applyingTo (fs : Value)
  /-- Awaits a sequence of one kind, then one more element for it. -/
  | appending (k : SeqKind)
  /-- Appends its argument to `xs`. -/
  | appendingTo (k : SeqKind) (xs : Value)
  /-- Lifts its argument into the applicative that `rep` stands for. -/
  | lift (rep : Value)
  /-- Awaits `f`, `g` and `x` and answers `f (g x)`. -/
  | composing
  /-- Awaits `g` and `x` and answers `f (g x)`. -/
  | composingAfter (f : Value)
  /-- Applies its argument to `x`. -/
  | applyAt (x : Value)
  /-- Chains `g` after `f`. -/
  | chainAfter (g f : Value)
  /-- Swaps a traversable of members of the applicative that `rep` stands for. -/
  | sequenceWith (rep : Value)
  /-- Applies `f` to its argument extended by `g`. -/
  | extendThen (f g : Value)
  /-- Appends its second argument to its first, a list. -/
  | push
  /-- An attribute of `receiver` that is called with the receiver in front. -/
  | bound (receiver : Value) (by_ : Option Base) (a : Attribute)
  /-- A function found as an attribute, called with the receiver in front. -/
  | boundTo (receiver f : Value)
  /-- A method without its receiver, which is its first argument. -/
  | unbound (by_ : Option Base) (a : Attribute)

/-- A type representative. -/
inductive TypeRep
  | builtin (b : Builtin)
  | declared (c : Class)

/-- A class that is made while the program runs. -/
inductive Class
  /-- The composition of the functors that `outer` and `inner` stand for. -/
  | composed (t : Tag) (name : String) (outer inner : Value)
  /-- A class with its linearised ancestry. -/
  | declared (t : Tag) (name : String) (layers : List Layer)

/-- One class in a linearised ancestry. -/
inductive Layer
  | base (b : Base)
  | declared (t : Tag) (members : List (Attribute × Member))

/-- What a class binds an attribute to. -/
inductive Member
  /-- A body: the class's own, or one supplied by a base. -/
  | body (by_ : Option Base) (a : Attribute)
  /-- A name without a body. -/
  | abstract
  /-- A value. -/
  | data (v : Value)

end

instance : Inhabited Value := ⟨.null⟩
instance : Inhabited Func := ⟨.echo⟩
instance : Inhabited Class := ⟨.declared .fresh "" []⟩

end CheckedCalls
