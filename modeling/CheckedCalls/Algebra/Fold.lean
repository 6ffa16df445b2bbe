import CheckedCalls.Algebra.Functor

/-!
# Folding, traversing and extending

`reduce` folds from the left: over a sequence in order, over a dictionary in ascending order of its
keys. `traverse` runs an action for each element and collects the answers inside the actions'
applicative; `sequence` does so where the elements are the actions. `extend` applies a function to
a whole container, for a sequence to each of its suffixes.
-/

namespace CheckedCalls

/-! ## Folding -/

/-- How an instance that holds `v` is folded, by the base that supplies the method. -/
def reduceBody (call : Apply) (b : Option Base) (v f initial : Value) : Run Value :=
  match b with
  | some .nothing | some .left => pure initial
  | _ => call f [initial, v]

/-- Folds a list from the left. -/
def foldList (call : Apply) (f initial : Value) (xs : List Value) : Run Value :=
  xs.foldlM (fun acc x => call f [acc, x]) initial

/-- Folds from the left. -/
def reduce (call : Apply) (f initial foldable : Value) : Run Value :=
  match foldable with
  | .seq _ _ xs => foldList call f initial xs
  | .dict _ es => do foldList call f initial ((← Value.sortEntries call es).map Prod.snd)
  | .nothing => reduceBody call (some .nothing) .null f initial
  | .just _ v => reduceBody call (some .just) v f initial
  | .left _ v => reduceBody call (some .left) v f initial
  | .right _ v => reduceBody call (some .right) v f initial
  | .identity _ v => reduceBody call (some .identity) v f initial
  | .object _ c v =>
    if c.layers.isMember .foldable then
      foldable.invoke call (.method .reduce) [f, initial] fun b => reduceBody call b v f initial
    else foldable.notMember .foldable
  | x => x.notMember .foldable

/-! ## Traversing -/

/-- How an instance that holds `v` is traversed, by the base that supplies the method. -/
def traverseBody (call : Apply) (b : Option Base) (self v lift f : Value) : Run Value :=
  match b with
  | none => do map call self.maker (← call f [v])
  | some .nothing | some .left => call lift [self]
  | some b => do map call b.rep (← call f [v])

/-- One step over a sequence: the answers so far, held in `acc`, and one more. -/
def traverseStep (call : Apply) (k : SeqKind) (f acc x : Value) : Run Value := do
  let awaiting ← map call (.function (.appending k)) acc
  ap call awaiting (← call f [x])

/-- Maps each element to an action and collects the answers; `lift` makes an action of a value. -/
def traverse (call : Apply) (lift f traversable : Value) : Run Value :=
  match traversable with
  | .seq k _ xs => do
    let start ← call lift [.seq k .fresh []]
    xs.foldlM (traverseStep call k f) start
  | .nothing => traverseBody call (some .nothing) traversable .null lift f
  | .just _ v => traverseBody call (some .just) traversable v lift f
  | .left _ v => traverseBody call (some .left) traversable v lift f
  | .right _ v => traverseBody call (some .right) traversable v lift f
  | .identity _ v => traverseBody call (some .identity) traversable v lift f
  | .object _ c v =>
    if c.layers.isMember .traversable then
      traversable.invoke call (.method .traverse) [f, lift] fun b =>
        traverseBody call b traversable v lift f
    else traversable.notMember .traversable
  | x => x.notMember .traversable

/-- Swaps a traversable of actions into an action of a traversable. -/
def sequence (call : Apply) (lift traversable : Value) : Run Value :=
  traverse call lift (.function .echo) traversable

/-! ## Extending -/

/-- How an instance is extended, by the base that supplies the method. -/
def extendBody (call : Apply) (b : Option Base) (self f : Value) : Run Value :=
  match b with
  | none => do self.rebuild (← call f [self])
  | some .nothing | some .left => pure self
  | some b => do return b.wrap (← call f [self])

/-- The suffixes of a list that are not empty, longest first. -/
def suffixes : List Value → List (List Value)
  | [] => []
  | x :: xs => (x :: xs) :: suffixes xs

/-- A suffix of a sequence as a sequence: a tuple is the longest suffix of itself. -/
def Value.suffix (k : SeqKind) (t : Tag) (size : Nat) (ys : List Value) : Value :=
  .seq k (if k == .tuple && ys.length == size then t else .fresh) ys

/-- Applies a function to the whole of a container, and to each suffix of a sequence. -/
def extend (call : Apply) (f w : Value) : Run Value :=
  match w with
  | .seq k t xs => do
    return .seq k .fresh
      (← (suffixes xs).mapM fun ys => call f [Value.suffix k t xs.length ys])
  | .nothing => extendBody call (some .nothing) w f
  | .just _ _ => extendBody call (some .just) w f
  | .left _ _ => extendBody call (some .left) w f
  | .right _ _ => extendBody call (some .right) w f
  | .identity _ _ => extendBody call (some .identity) w f
  | .object _ c _ =>
    if c.layers.isMember .extend then
      w.invoke call (.method .extend) [f] fun b => extendBody call b w f
    else w.notMember .extend
  | w => w.notMember .extend

end CheckedCalls
