import CheckedCalls.Algebra.Basic

/-!
# Combining values

Strings and sequences of one kind are joined, and dictionaries are merged, the second one winning.
Two variants of one kind combine what they hold; of a success and a failure the success wins, and
`nothing` gives way to anything. `empty` is the value that changes nothing when combined.
-/

namespace CheckedCalls

/-- How an instance combines with another value, by the base that supplies the method: `self`
holds `v`, and `held` combines `v` with what the other value holds. -/
def concatBody (b : Option Base) (self : Value) (held : Value → Run Value) (other : Value) :
    Run Value :=
  match b with
  | none => do self.rebuild (← held (← other.payload))
  | some .nothing => pure other
  -- two failures combine, but a success wins over a failure
  | some .left => match other.heldBy? .left with
    | some w => do return .left .fresh (← held w)
    | none => pure other
  | some b => match other.heldBy? b with
    | some w => do return b.wrap (← held w)
    | none => pure self

/-- The two values do not combine. -/
def notConcatenable (x y : Value) : Run Value := throw (.notConcatenable x.typeName y.typeName)

/-- Combines two members of one semigroup. -/
def concat (call : Apply) : Value → Value → Run Value
  | .text s a, y => match y with
    | .text t b => pure (Value.joinText s a t b)
    | y => notConcatenable (.text s a) y
  | .seq k s xs, y => match y with
    | .seq l t ys =>
      if k = l then pure (Value.joinSeq k s xs t ys)
      else notConcatenable (.seq k s xs) (.seq l t ys)
    | y => notConcatenable (.seq k s xs) y
  | .dict s xs, y => match y with
    | .dict _ ys => do return .dict .fresh (← Value.setEntries call xs ys)
    | y => notConcatenable (.dict s xs) y
  | .nothing, y => concatBody (some .nothing) .nothing pure y
  | .just t v, y => concatBody (some .just) (.just t v) (concat call v) y
  | .left t v, y => concatBody (some .left) (.left t v) (concat call v) y
  | .right t v, y => concatBody (some .right) (.right t v) (concat call v) y
  | .object t c v, y =>
    if c.layers.isMember .semigroup then
      Value.invoke call (.object t c v) (.method .concat) [y] fun b =>
        concatBody b (.object t c v) (concat call v) y
    else notConcatenable (.object t c v) y
  | x, y => notConcatenable x y

/-- The identity element by the base that supplies it; `c` is the class it is asked of. -/
def emptyBody (b : Option Base) (c : Option Class) : Run Value :=
  match b, c with
  | none, some c => c.instantiate (.str "")
  | _, _ => pure .nothing

/-- The class that a type representative or an instance gives. -/
def Value.declaredClass? : Value → Option Class
  | .type (.declared c) => some c
  | .object _ c _ => some c
  | _ => none

/-- The value has a method of its own. -/
def Value.hasMethod (v : Value) (m : Method) : Run Bool := do
  return ((← get).assigned? v.tag (.method m)).isSome || (v.scope.find (.method m)).isSome

/-- The identity element of a monoid, by its type representative. -/
def empty (call : Apply) (rep : Value) : Run Value := do
  if ← rep.hasMethod .empty then
    rep.invoke call (.method .empty) [] fun b => emptyBody b rep.declaredClass?
  else
    match rep with
    | .type (.builtin .str) => return .str ""
    | .type (.builtin .list) => return .list []
    | .type (.builtin .tuple) => return .tuple []
    | .type (.builtin .dict) => return .dict .fresh []
    | rep => do
      let _ ← rep.hashKey call
      throw (.notMember (← rep.givenName call) .monoid)

end CheckedCalls
