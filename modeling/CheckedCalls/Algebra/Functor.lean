import CheckedCalls.Algebra.Semigroup

/-!
# Mapping, lifting and applying

`map` applies a function inside a container, `of` lifts a value into one, `ap` applies the functions
that one container holds to the values that another holds, `alt` chooses between two containers
and `chain` flattens the containers that a function answers. Failures pass through all of them: a
failure in function position comes before one in argument position.
-/

namespace CheckedCalls

/-! ## Mapping -/

/-- How an instance that holds `v` maps a function, by the base that supplies the method. -/
def mapBody (call : Apply) (b : Option Base) (self v f : Value) : Run Value :=
  match b with
  | none => do self.rebuild (← call f [v])
  | some .nothing | some .left => pure self
  | some b => do return b.wrap (← call f [v])

/-- Applies a function inside a functor. -/
def map (call : Apply) (f : Value) : Value → Run Value
  | .seq k _ xs => do return .seq k .fresh (← xs.mapM fun x => call f [x])
  | .dict _ es => do return .dict .fresh (← es.mapM fun e => do return (e.1, ← call f [e.2]))
  | .nothing => mapBody call (some .nothing) .nothing .null f
  | .just t v => mapBody call (some .just) (.just t v) v f
  | .left t v => mapBody call (some .left) (.left t v) v f
  | .right t v => mapBody call (some .right) (.right t v) v f
  | .identity t v => mapBody call (some .identity) (.identity t v) v f
  | .object t c v => match c with
    | .composed s n outer inner => do
      return .object .fresh (.composed s n outer inner) (← map call (.function (.mapWith f)) v)
    | c =>
      if c.layers.isMember .functor then
        Value.invoke call (.object t c v) (.method .map) [f] fun b =>
          mapBody call b (.object t c v) v f
      else Value.notMember (.object t c v) .functor
  | .func t g => pure (.function (.after f (.func t g)))
  | .type r => pure (.function (.after f (.type r)))
  | x => x.notMember .functor

/-! ## Lifting -/

mutual

/-- Lifts a value into an applicative, by its type representative. -/
def of (call : Apply) : Value → Value → Run Value
  | .type r, v => ofTypeRep call r v
  | .object t c w, v => ofClass call (.object t c w) c v
  | rep, v =>
    if rep.isA .maybe then pure (.just .fresh v)
    else if rep.isA .either then pure (.right .fresh v)
    else if rep.isA .identity then pure (.identity .fresh v)
    else do throw (.notMember (← rep.givenName call) .applicative)
termination_by structural rep => rep

/-- Lifts a value into an applicative, by its class. -/
def ofTypeRep (call : Apply) : TypeRep → Value → Run Value
  | .builtin .list, v => pure (.list [v])
  | .builtin .tuple, v => pure (.tuple [v])
  | .builtin .maybe, v => pure (.just .fresh v)
  | .builtin .nothing, v => pure (.just .fresh v)
  | .builtin .just, v => pure (.just .fresh v)
  | .builtin .either, v => pure (.right .fresh v)
  | .builtin .left, v => pure (.right .fresh v)
  | .builtin .right, v => pure (.right .fresh v)
  | .builtin .identity, v => pure (.identity .fresh v)
  | .builtin b, _ => throw (.notMember b.name .applicative)
  | .declared c, v => ofClass call (.type (.declared c)) c v
termination_by structural r => r

/-- Lifts a value by a class made while the program runs, which `self` is or belongs to. -/
def ofClass (call : Apply) (self : Value) : Class → Value → Run Value
  | .composed t n outer inner, v => do
    return .object .fresh (.composed t n outer inner) (← of call outer (← of call inner v))
  | .declared t n ls, v => do
    if ← self.hasMethod .of then
      self.invoke call (.method .of) [v] fun b =>
        match b with
        | some .maybe => pure (.just .fresh v)
        | some .either => pure (.right .fresh v)
        | some .identity => pure (.identity .fresh v)
        | _ => (Class.declared t n ls).instantiate v
    else throw (.notMember (← self.givenName call) .applicative)
termination_by structural c => c

end

/-! ## Applying -/

/-- How an instance that holds `v` is applied to, by the base that supplies the method: `fs` stands
in function position. -/
def apBody (call : Apply) (b : Option Base) (self v fs : Value) : Run Value :=
  match b with
  | none => do self.rebuild (← call (← fs.payload) [v])
  | some .nothing => pure self
  | some .left => pure (if fs.isA .left then fs else self)
  | some .identity => do return .identity .fresh (← call (← fs.payload) [v])
  | some b => match fs.heldBy? b with
    | some g => do return b.wrap (← call g [v])
    | none => pure fs

/-- Each function applied to each value, function by function. -/
def applyEach (call : Apply) (fs xs : List Value) : Run (List Value) := do
  return (← fs.mapM fun f => xs.mapM fun x => call f [x]).flatten

/-- Applies what the first value holds to what the second holds. -/
def ap (call : Apply) : Value → Value → Run Value
  | fs, .seq k t xs => match fs with
    | .seq _ _ gs => do return .seq k .fresh (← applyEach call gs xs)
    | _ => Value.notMember (.seq k t xs) .apply
  | fs, .nothing => apBody call (some .nothing) .nothing .null fs
  | fs, .just t v => apBody call (some .just) (.just t v) v fs
  | fs, .left t v => apBody call (some .left) (.left t v) v fs
  | fs, .right t v => apBody call (some .right) (.right t v) v fs
  | fs, .identity t v => apBody call (some .identity) (.identity t v) v fs
  | fs, .object t c v => match c with
    | .composed s n outer inner => do
      let lifted ← map call (.function .applying) (← fs.payload)
      return .object .fresh (.composed s n outer inner) (← ap call lifted v)
    | c =>
      if c.layers.isMember .apply then
        Value.invoke call (.object t c v) (.method .ap) [fs] fun b =>
          apBody call b (.object t c v) v fs
      else Value.notMember (.object t c v) .apply
  | _, x => x.notMember .apply

/-! ## Choosing -/

/-- How an instance chooses between itself and another value, by the base that supplies the
method. -/
def altBody (b : Option Base) (self other : Value) : Value :=
  match b with
  | none | some .nothing | some .left => other
  | some _ => self

/-- Chooses between two alternatives. -/
def alt (call : Apply) (x y : Value) : Run Value :=
  match x with
  | .seq k s xs => match y with
    | .seq l t ys => if k = l then pure (Value.joinSeq k s xs t ys) else x.notMember .alt
    | _ => x.notMember .alt
  | .nothing => pure (altBody (some .nothing) x y)
  | .just _ _ => pure (altBody (some .just) x y)
  | .left _ _ => pure (altBody (some .left) x y)
  | .right _ _ => pure (altBody (some .right) x y)
  | .object _ c _ =>
    if c.layers.isMember .alt then
      x.invoke call (.method .alt) [y] fun b => pure (altBody b x y)
    else x.notMember .alt
  | x => x.notMember .alt

/-! ## Chaining -/

/-- How an instance that holds `v` goes on with a function, by the base that supplies the method. -/
def chainBody (call : Apply) (b : Option Base) (self v f : Value) : Run Value :=
  match b with
  | some .nothing | some .left => pure self
  | _ => call f [v]

/-- Applies a function that answers containers, and flattens. -/
def chain (call : Apply) (f m : Value) : Run Value :=
  match m with
  | .seq k _ xs => do
    let parts ← xs.mapM fun x => do
      let part ← (← call f [x]).elements
      return part
    return .seq k .fresh parts.flatten
  | .nothing => chainBody call (some .nothing) m .null f
  | .just _ v => chainBody call (some .just) m v f
  | .left _ v => chainBody call (some .left) m v f
  | .right _ v => chainBody call (some .right) m v f
  | .identity _ v => chainBody call (some .identity) m v f
  | .object _ c v =>
    if c.layers.isMember .chain then
      m.invoke call (.method .chain) [f] fun b => chainBody call b m v f
    else m.notMember .chain
  | m => m.notMember .chain

end CheckedCalls
