import CheckedCalls.Value.Printer

/-!
# Hash keys

The hash of a value is a function of its hash key, so two values hash alike if their keys are the
same. Numbers that denote the same point share a key whatever their kind. A variant of a sum type
is keyed by its name beside the key of what it holds, or by its name alone if that has no key.
Lists, dictionaries and compositions have no key.
-/

namespace CheckedCalls

/-- What a hash is computed from. -/
inductive HashKey
  | null
  | point (p : Point)
  | complex (re im : Point)
  | text (s : String)
  | bytes (bs : List UInt8)
  | tuple (ks : List HashKey)
  | date (d : Date)
  | moment (zoned : Bool) (i : Instant)
  | pattern (s : String)
  | builtin (b : Builtin)
  | object (t : Tag)
  /-- A method without its receiver. -/
  | method (by_ : Option Base) (a : Attribute)
  /-- A method read off an object. -/
  | bound (self : Value) (by_ : Option Base) (a : Attribute)
  /-- A function found as an attribute of an object. -/
  | boundTo (self f : Value)

namespace HashKey

mutual

/-- The two keys give the same hash. -/
def same : HashKey → HashKey → Bool
  | .null, .null => true
  | .point p, .point q => p == q
  | .complex a b, .complex c d => a == c && b == d
  | .text a, .text b => a == b
  | .bytes a, .bytes b => a == b
  | .tuple as, .tuple bs => sameAll as bs
  | .date a, .date b => a == b
  | .moment z i, .moment y j => z == y && i == j
  | .pattern a, .pattern b => a == b
  | .builtin a, .builtin b => a == b
  | .object s, .object t => s.same t
  | .method b a, .method c d => b == c && a == d
  | .bound r b a, .bound q c d => r.identical q && b == c && a == d
  | .boundTo r f, .boundTo q g => r.identical q && f.identical g
  | _, _ => false

/-- The keys are the same place by place. -/
def sameAll : List HashKey → List HashKey → Bool
  | [], [] => true
  | a :: as, b :: bs => same a b && sameAll as bs
  | _, _ => false

end

/-- The key of a complex number: with no imaginary part it is keyed as a real number. -/
def ofComplex (t : Tag) (re im : Binary64) : HashKey :=
  match (Number.float re).point?, (Number.float im).point? with
  | some p, some q => if q = .at 0 then .point p else .complex p q
  | _, _ => .object t

/-- The key of a variant by its name and the key of what it holds. -/
def ofVariant (name : String) (held : Value) (key : Run HashKey) : Run HashKey :=
  if held.isNaN then pure (.tuple [.text name, .text "NaN"])
  else Run.rescue (do return .tuple [.text name, ← key]) Fault.isKindError (pure (.text name))

/-- The key of a function: that of a method read off an object is the object beside its name. -/
def ofFunc (t : Tag) (f : Func) : HashKey :=
  match f with
  | .unbound b a => .method b a
  | .bound self b a => .bound self b a
  | .boundTo self f => .boundTo self f
  | _ => .object t

end HashKey

namespace Value

mutual

/-- The hash key of a value, if it can be hashed. -/
def hashKey (call : Apply) : Value → Run HashKey
  | .null => pure .null
  | .bool b => pure (.point (.at (if b then 1 else 0)))
  | .number t n => pure (match n.point? with
    | some p => .point p
    | none => .object t)
  | .complex t re im => pure (.ofComplex t re im)
  | .text _ s => pure (.text s)
  | .bytes _ bs => pure (.bytes bs)
  | .seq .tuple _ xs => do return .tuple (← hashKeys call xs)
  -- what can change in place has no key
  | .seq .list _ _ => throw .notHashable
  | .dict _ _ => throw .notHashable
  | .date _ d => pure (.date d)
  | .moment _ m => pure (.moment m.offset.isSome m.universalInstant)
  | .pattern s => pure (.pattern s)
  | .plain t => pure (.object t)
  | .error t _ _ => pure (.object t)
  | .nothing => pure (.text "covenant/Maybe")
  | .just _ v => HashKey.ofVariant "covenant/Maybe" v (hashKey call v)
  | .left _ v => HashKey.ofVariant "Left" v (hashKey call v)
  | .right _ v => HashKey.ofVariant "Right" v (hashKey call v)
  | .identity _ v => do return .tuple [.text "Identity", .text (← v.literal call)]
  | .func t f => pure (.ofFunc t f)
  | .type (.builtin b) => pure (.builtin b)
  | .type (.declared c) => pure (.object c.tag)
  | .object _ (.composed _ _ _ _) _ => throw .notHashable
  | .object t (.declared _ _ _) _ => pure (.object t)

/-- The hash keys of several values. -/
def hashKeys (call : Apply) : List Value → Run (List HashKey)
  | [] => pure []
  | x :: xs => do
    let key ← hashKey call x
    return key :: (← hashKeys call xs)

end

/-- The values hash alike. -/
def hashesAgree (call : Apply) (x y : Value) : Run Bool := do
  let key ← x.hashKey call
  return key.same (← y.hashKey call)

end Value

end CheckedCalls
