import CheckedCalls.Proofs.Outcome
import CheckedCalls.Types.Class

/-!
# Membership of the library's type classes

The rules of the library ask no function of anybody else, so whether a value is a member of one of
its type classes is a plain answer: `TypeClass.admits` for a class, and `satisfies_standard` for the
registry.
-/

namespace CheckedCalls

/-! ## Plain rules -/

namespace Rule

/-- The rule asks no function. -/
def isPlain : Rule → Bool
  | .custom _ => false
  | _ => true

/-- The values that a plain rule admits. -/
def holds : Rule → Value → Bool
  | .always, _ => true
  | .setoid, v => v.isSetoid
  | .ord, v => v.isOrd
  | .semigroup, v => v.isSemigroup
  | .mappable, .seq _ _ _ | .mappable, .dict _ _ | .mappable, .func _ _ => true
  | .sequence, .seq _ _ _ => true
  | .collection, .seq _ _ _ | .collection, .dict _ _ => true
  | _, _ => false

/-- A plain rule gives its verdict at once. -/
theorem verdict_of_isPlain (call : Apply) {r : Rule} (hr : r.isPlain = true) (v : Value) :
    r.verdict call v = Run.answer (r.holds v) := by
  cases r with
  | custom f => cases hr
  | mappable | sequence | collection => cases v <;> rfl
  | _ => rfl

/-- A plain rule admits a value exactly if the rule holds of it. -/
theorem admits_of_isPlain (call : Apply) {r : Rule} (hr : r.isPlain = true) (v : Value) :
    r.admits call v = pure (r.holds v) := by
  rw [admits, verdict_of_isPlain call hr]
  rfl

end Rule

/-! ## Plain type classes -/

namespace TypeClass

/-- Both rules of the class are plain. -/
def isPlain (c : TypeClass) : Bool := c.builtin.isPlain && c.contents.isPlain

/-- The members of a plain type class. -/
def admits (c : TypeClass) (v : Value) : Bool :=
  match v.variantContents? with
  | some held => c.covers v.layers && held.all c.contents.holds
  | none => c.covers v.layers || c.builtin.holds v

/-- A plain rule admits all values exactly if it holds of each. -/
theorem admitsAll_of_isPlain (call : Apply) {r : Rule} (hr : r.isPlain = true) (vs : List Value) :
    admitsAll call r vs = pure (vs.all r.holds) := by
  induction vs with
  | nil => rfl
  | cons v vs ih =>
    rw [admitsAll, Rule.admits_of_isPlain call hr, pure_bind, ih, List.all_cons]
    cases r.holds v <;> rfl

/-- A plain class gives its verdict at once. -/
theorem verdict_of_isPlain (call : Apply) {c : TypeClass} (hc : c.isPlain = true) (v : Value) :
    c.verdict call v = Run.answer (c.admits v) := by
  rw [isPlain, Bool.and_eq_true] at hc
  rw [verdict, admits]
  -- a variant has to be a member by its class, any other value by its class or by a rule
  rcases v.variantContents? with _ | held
  · dsimp only
    rw [Rule.verdict_of_isPlain call hc.1]
    cases c.covers v.layers <;> rfl
  · dsimp only
    rw [admitsAll_of_isPlain call hc.2]
    cases c.covers v.layers <;> rfl

end TypeClass

/-! ## The type classes of the library -/

/-- A type representative is no instance of a class made at run time. -/
theorem Value.layers_type (r : TypeRep) : (Value.type r).layers = [] := by
  rw [layers, typeRep, TypeRep.metaclass]
  split <;> rfl

theorem Value.variantContents?_type (r : TypeRep) : (Value.type r).variantContents? = none := by
  simp [variantContents?, isA, layers_type, Ancestry.derives]

/-- Whatever has an order by its class has one by the rule. -/
theorem isOrd_of_admits {v : Value} (h : Interface.ord.typeClass.admits v = true) : v.isOrd = true := by
  cases v with
  | object t c v =>
    rw [TypeClass.admits] at h
    split at h
    · rw [Bool.and_eq_true] at h
      exact h.1
    · rw [Bool.or_eq_true] at h
      exact h.elim id id
  | bool | number | text | date | moment => rfl
  | seq k t xs => cases k <;> exact h
  | type r =>
    rw [TypeClass.admits, Value.variantContents?_type, Value.layers_type] at h
    cases h
  | _ => cases h

/-! ## The registry of the library -/

theorem Interface.isPlain_typeClass (i : Interface) : i.typeClass.isPlain = true := by
  cases i <;> rfl

namespace Registry

/-- The standard classes are plain. -/
theorem isPlain_of_get {name : String} {c : TypeClass} (h : standard.get name = .ok c) :
    c.isPlain = true := by
  rw [get] at h
  rcases hfind : standard.find? name with _ | d
  · rw [hfind] at h
    cases h
  · rw [hfind] at h
    cases h
    obtain ⟨i, -, rfl⟩ := List.mem_map.1 (List.mem_of_find?_eq_some hfind)
    exact i.isPlain_typeClass

/-- Membership of a class of the library is a plain answer; an unknown name has none. -/
theorem satisfies_standard (call : Apply) (name : String) (v : Value) :
    standard.satisfies call name v =
      (liftM ((standard.get name).map fun c => c.admits v) : Run Bool) := by
  rw [satisfies, verdict]
  rcases h : standard.get name with f | c
  · rfl
  · have hverdict := c.verdict_of_isPlain call (isPlain_of_get h) v
    show (c.verdict call v >>= fun x => x.truth call) = _
    rw [hverdict]
    rfl

/-- Membership of a class of the library is asked for by the name of its interface. -/
theorem satisfies_name (call : Apply) (i : Interface) (v : Value) :
    standard.satisfies call i.name v = pure (i.typeClass.admits v) := by
  rw [satisfies_standard]
  cases i <;> rfl

theorem steady_satisfies (call : Apply) (name : String) (v : Value) :
    (standard.satisfies call name v).Steady := by
  rw [satisfies_standard]
  exact .liftM _

end Registry

end CheckedCalls
