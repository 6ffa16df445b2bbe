/-!
# Interfaces, attributes and built-in bases

An interface names the methods that a member must provide. A built-in base is a class that comes
with the library: the interfaces themselves, the two sum types with their variants, the identity
functor and the composition of two functors. Each base declares attributes of its own and has a
fixed linearised ancestry, in which attributes are looked up from the front.
-/

namespace CheckedCalls

/-! ## Methods and interfaces -/

/-- The methods of the algebraic interfaces. -/
inductive Method
  | equals | lte | concat | empty | of | map | ap | alt | chain | reduce | traverse | extend
  deriving DecidableEq, Repr, Inhabited

namespace Method

/-- The name without its marker. -/
def bareName : Method → String
  | .equals => "equals" | .lte => "lte" | .concat => "concat" | .empty => "empty" | .of => "of"
  | .map => "map" | .ap => "ap" | .alt => "alt" | .chain => "chain" | .reduce => "reduce"
  | .traverse => "traverse" | .extend => "extend"

/-- The name under which members provide the method. -/
def name (m : Method) : String := "fl_" ++ m.bareName

/-- Every method. -/
def all : List Method :=
  [.equals, .lte, .concat, .empty, .of, .map, .ap, .alt, .chain, .reduce, .traverse, .extend]

/-- The methods that also go by their bare names. -/
def legacy : List Method := [.ap, .chain, .concat, .equals, .extend, .map, .reduce]

/-- The method belongs to the class and not to its instances. -/
def isClassLevel : Method → Bool
  | .empty | .of => true
  | _ => false

end Method

/-- The algebraic interfaces. -/
inductive Interface
  | setoid | ord | semigroup | monoid | functor | apply | applicative | alt | chain | monad
  | foldable | traversable | extend
  deriving DecidableEq, Repr, Inhabited

namespace Interface

def name : Interface → String
  | .setoid => "Setoid" | .ord => "Ord" | .semigroup => "Semigroup" | .monoid => "Monoid"
  | .functor => "Functor" | .apply => "Apply" | .applicative => "Applicative" | .alt => "Alt"
  | .chain => "Chain" | .monad => "Monad" | .foldable => "Foldable"
  | .traversable => "Traversable" | .extend => "Extend"

/-- Every interface, in the order of the catalogue. -/
def all : List Interface :=
  [.setoid, .ord, .semigroup, .monoid, .functor, .apply, .applicative, .alt, .chain, .monad,
    .foldable, .traversable, .extend]

/-- The methods that a member must provide. -/
def required : Interface → List Method
  | .setoid => [.equals]
  | .ord => [.equals, .lte]
  | .semigroup => [.concat]
  | .monoid => [.concat, .empty]
  | .functor => [.map]
  | .apply => [.map, .ap]
  | .applicative => [.map, .ap, .of]
  | .alt => [.map, .alt]
  | .chain => [.map, .ap, .chain]
  | .monad => [.map, .ap, .of, .chain]
  | .foldable => [.reduce]
  | .traversable => [.map, .reduce, .traverse]
  | .extend => [.map, .extend]

/-- The methods that the interface itself declares without a body. -/
def declared : Interface → List Method
  | .setoid => [.equals]
  | .ord => [.lte]
  | .semigroup => [.concat]
  | .monoid => [.empty]
  | .functor => [.map]
  | .apply => [.ap]
  | .applicative => [.of]
  | .alt => [.alt]
  | .chain => [.chain]
  | .monad => []
  | .foldable => [.reduce]
  | .traversable => [.traverse]
  | .extend => [.extend]

/-- The indefinite article before the interface's name. -/
def article : Interface → String
  | .ord | .apply | .applicative | .alt | .extend => "an"
  | _ => "a"

end Interface

/-! ## Attributes -/

/-- The attributes that the library gives a meaning to, and all others by name. -/
inductive Attribute
  | method (m : Method)
  | legacy (m : Method)
  | payload
  | text
  | inspect
  | sequence
  | truth
  | isNothing
  | isJust
  | isLeft
  | isRight
  | identifier
  | className
  | other (name : String)
  deriving DecidableEq, Repr, Inhabited

namespace Attribute

/-- The attributes with a fixed name, the methods apart. -/
def named : List (String × Attribute) :=
  [("value", .payload), ("to_string", .text), ("inspect", .inspect), ("sequence", .sequence),
    ("to_boolean", .truth), ("is_nothing", .isNothing), ("is_just", .isJust),
    ("is_left", .isLeft), ("is_right", .isRight), ("type_identifier", .identifier),
    ("__name__", .className)]

/-- The attribute of a name. -/
def ofName (s : String) : Attribute :=
  match Method.all.find? (·.name == s) with
  | some m => .method m
  | none =>
    match Method.legacy.find? (·.bareName == s) with
    | some m => .legacy m
    | none => (named.lookup s).getD (.other s)

end Attribute

/-! ## Built-in bases -/

/-- The classes that come with the library. -/
inductive Base
  | capability
  | interface (i : Interface)
  | maybe | nothing | just
  | either | left | right
  | identity
  | composed
  deriving DecidableEq, Repr, Inhabited

namespace Base

/-- The methods that a base gives a body to. -/
def methods : Base → List Method
  | .capability | .interface _ => []
  | .maybe => [.of, .empty]
  | .nothing | .just => [.equals, .concat, .map, .ap, .alt, .chain, .reduce, .traverse, .extend]
  | .either => [.of]
  | .left | .right => [.equals, .concat, .map, .ap, .alt, .chain, .reduce, .traverse, .extend]
  | .identity => [.of, .equals, .map, .ap, .chain, .reduce, .traverse, .extend]
  | .composed => [.of, .equals, .map, .ap]

/-- The methods that a base declares without a body. -/
def abstractMethods : Base → List Method
  | .interface i => i.declared
  | _ => []

/-- The further attributes that a base gives a body to. -/
def extras : Base → List Attribute
  | .maybe => [.isNothing, .isJust, .truth, .inspect, .text, .sequence, .identifier]
  | .nothing | .just => [.isJust, .text]
  | .either => [.isLeft, .isRight, .inspect, .text, .sequence, .identifier]
  | .left | .right => [.isRight, .text]
  | _ => []

/-- The base binds the bare names of its methods too. -/
def hasLegacyNames : Base → Bool
  | .nothing | .just | .left | .right => true
  | _ => false

/-- The direct ancestors of a base. -/
def parents : Base → List Base
  | .capability => []
  | .interface .setoid => [.capability]
  | .interface .ord => [.interface .setoid]
  | .interface .semigroup => [.capability]
  | .interface .monoid => [.interface .semigroup]
  | .interface .functor => [.capability]
  | .interface .apply => [.interface .functor]
  | .interface .applicative => [.interface .apply]
  | .interface .alt => [.interface .functor]
  | .interface .chain => [.interface .apply]
  | .interface .monad => [.interface .applicative, .interface .chain]
  | .interface .foldable => [.capability]
  | .interface .traversable => [.interface .functor, .interface .foldable]
  | .interface .extend => [.interface .functor]
  | .maybe => [.interface .setoid, .interface .monoid, .interface .monad, .interface .alt,
      .interface .traversable, .interface .extend]
  | .either => [.interface .setoid, .interface .semigroup, .interface .monad, .interface .alt,
      .interface .traversable, .interface .extend]
  | .nothing | .just => [.maybe]
  | .left | .right => [.either]
  | .identity => [.interface .setoid, .interface .monad, .interface .traversable,
      .interface .extend]
  | .composed => [.interface .setoid, .interface .applicative]

/-- The interfaces of a monad in order of look-up. -/
private def monadLine : List Base :=
  [.interface .monad, .interface .applicative, .interface .chain, .interface .apply]

/-- A base with all its ancestors, each class before its own ancestors. -/
def ancestry : Base → List Base
  | .capability => [.capability]
  | .interface .setoid => [.interface .setoid, .capability]
  | .interface .ord => [.interface .ord, .interface .setoid, .capability]
  | .interface .semigroup => [.interface .semigroup, .capability]
  | .interface .monoid => [.interface .monoid, .interface .semigroup, .capability]
  | .interface .functor => [.interface .functor, .capability]
  | .interface .apply => [.interface .apply, .interface .functor, .capability]
  | .interface .applicative =>
    [.interface .applicative, .interface .apply, .interface .functor, .capability]
  | .interface .alt => [.interface .alt, .interface .functor, .capability]
  | .interface .chain => [.interface .chain, .interface .apply, .interface .functor, .capability]
  | .interface .monad => monadLine ++ [.interface .functor, .capability]
  | .interface .foldable => [.interface .foldable, .capability]
  | .interface .traversable =>
    [.interface .traversable, .interface .functor, .interface .foldable, .capability]
  | .interface .extend => [.interface .extend, .interface .functor, .capability]
  | .maybe => maybeLine
  | .nothing => .nothing :: maybeLine
  | .just => .just :: maybeLine
  | .either => eitherLine
  | .left => .left :: eitherLine
  | .right => .right :: eitherLine
  | .identity => [.identity, .interface .setoid] ++ monadLine ++
      [.interface .traversable, .interface .extend, .interface .functor, .interface .foldable,
        .capability]
  | .composed => [.composed, .interface .setoid, .interface .applicative, .interface .apply,
      .interface .functor, .capability]
where
  maybeLine : List Base :=
    [.maybe, .interface .setoid, .interface .monoid, .interface .semigroup] ++ monadLine ++
      [.interface .alt, .interface .traversable, .interface .extend, .interface .functor,
        .interface .foldable, .capability]
  eitherLine : List Base :=
    [.either, .interface .setoid, .interface .semigroup] ++ monadLine ++
      [.interface .alt, .interface .traversable, .interface .extend, .interface .functor,
        .interface .foldable, .capability]

end Base

end CheckedCalls
