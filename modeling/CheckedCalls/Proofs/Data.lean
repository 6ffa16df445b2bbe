import CheckedCalls.Proofs.Descriptor
import CheckedCalls.Proofs.Membership
import CheckedCalls.Proofs.Printing

/-!
# Data

The values that the library brings itself, and what the checks see of them. Data that runs through
a container has one of three shapes, which is its only type; data of no shape has types without
parameters only. Data is native, and of native values too only those of a shape belong to a type
that shows what its values hold.
-/

namespace CheckedCalls

/-! ## Data values -/

mutual

/-- Scalars, functions, and sequences, dictionaries and variants of data, nested to any depth. -/
def Value.isData : Value → Bool
  | .null | .bool _ | .number _ _ | .complex _ _ _ | .text _ _ | .bytes _ _ => true
  | .date _ _ | .moment _ _ | .pattern _ | .func _ _ | .nothing => true
  | .seq _ _ xs => Value.areData xs
  | .dict _ es => Value.areDataEntries es
  | .just _ v | .left _ v | .right _ v => Value.isData v
  | .error _ _ _ | .plain _ | .identity _ _ | .type _ | .object _ _ _ => false

/-- All the values are data. -/
def Value.areData : List Value → Bool
  | [] => true
  | x :: xs => Value.isData x && Value.areData xs

/-- All the keys and values are data. -/
def Value.areDataEntries : List (Value × Value) → Bool
  | [] => true
  | (k, v) :: es => Value.isData k && Value.isData v && Value.areDataEntries es

end

namespace Value

theorem areData_iff {xs : List Value} : areData xs = true ↔ ∀ x ∈ xs, x.isData = true := by
  induction xs with
  | nil => simp [areData]
  | cons x xs ih => simp [areData, ih]

mutual

/-- Data holds no instance of a declared class. -/
theorem isNative_of_isData : ∀ {v : Value}, v.isData = true → v.isNative = true
  | .seq _ _ _, h => areNative_of_areData h
  | .dict _ _, h => areNativeEntries_of_areDataEntries h
  | .just _ v, h | .left _ v, h | .right _ v, h => isNative_of_isData (v := v) h
  | .null, _ | .bool _, _ | .number _ _, _ | .complex _ _ _, _ | .text _ _, _ | .bytes _ _, _ => rfl
  | .date _ _, _ | .moment _ _, _ | .pattern _, _ | .func _ _, _ | .nothing, _ => rfl

/-- Lists of data are native. -/
theorem areNative_of_areData : ∀ {xs : List Value}, areData xs = true → areNative xs = true
  | [], _ => rfl
  | x :: xs, h => by
    rw [areData, Bool.and_eq_true] at h
    rw [areNative, isNative_of_isData h.1, areNative_of_areData h.2]
    rfl

theorem areNativeEntries_of_areDataEntries :
    ∀ {es : List (Value × Value)}, areDataEntries es = true → areNativeEntries es = true
  | [], _ => rfl
  | (k, v) :: es, h => by
    rw [areDataEntries, Bool.and_eq_true, Bool.and_eq_true] at h
    rw [areNativeEntries, isNative_of_isData h.1.1, isNative_of_isData h.1.2,
      areNativeEntries_of_areDataEntries h.2]
    rfl

end

/-! ## Shapes -/

/-- The parameterised type of a value that holds others, or could. -/
def shape? : Value → Option StandardType
  | .seq _ _ _ => some .array
  | .nothing | .just _ _ => some .maybe
  | .left _ _ | .right _ _ => some .either
  | _ => none

/-- The values held for each parameter of the shape. -/
def held : Value → List (List Value)
  | .seq _ _ xs => [xs]
  | .nothing => [[]]
  | .just _ v => [[v]]
  | .left _ v => [[v], []]
  | .right _ v => [[], [v]]
  | _ => []

/-- The value holds another for some parameter of its shape. -/
def Holds (v x : Value) : Prop := ∃ items ∈ v.held, x ∈ items

/-- A sequence holds its elements, and a variant the one value in it. -/
theorem Holds.cases {v x : Value} (h : v.Holds x) :
    (∃ k t xs, v = .seq k t xs ∧ x ∈ xs) ∨ ∃ t, v = .just t x ∨ v = .left t x ∨ v = .right t x := by
  obtain ⟨items, hitems, hx⟩ := h
  cases v with
  | seq k t xs =>
    cases List.mem_singleton.1 hitems
    exact .inl ⟨k, t, items, rfl, hx⟩
  | just t v =>
    cases List.mem_singleton.1 hitems
    cases List.mem_singleton.1 hx
    exact .inr ⟨t, .inl rfl⟩
  | left t v | right t v =>
    simp only [held, List.mem_cons, List.not_mem_nil, or_false] at hitems
    rcases hitems with rfl | rfl <;> simp at hx
    simp [hx]
  | nothing =>
    cases List.mem_singleton.1 hitems
    cases hx
  | _ => cases hitems

/-- What is held by data is data. -/
theorem isData_of_mem_held {v : Value} (hv : v.isData = true) {items : List Value}
    (hitems : items ∈ v.held) {x : Value} (hx : x ∈ items) : x.isData = true := by
  rcases Holds.cases ⟨items, hitems, hx⟩ with ⟨k, t, xs, rfl, hmem⟩ | ⟨t, rfl | rfl | rfl⟩
  · exact areData_iff.1 hv x hmem
  all_goals exact hv

theorem isNative_of_holds {v x : Value} (hv : v.isNative = true) (hx : v.Holds x) :
    x.isNative = true := by
  rcases hx.cases with ⟨k, t, xs, rfl, hmem⟩ | ⟨t, rfl | rfl | rfl⟩
  · exact areNative_iff.1 hv x hmem
  all_goals exact hv

/-- A value of a shape has the type of the shape only. -/
theorem types_of_shape {v : Value} {t : StandardType} (h : v.shape? = some t) :
    v.types StandardType.standing = [t.named] := by
  cases v with
  | seq k => cases k <;> cases h <;> rfl
  | nothing | just | left | right =>
    cases h
    rfl
  | _ => cases h

/-- The class of data of no shape has no ancestry. -/
theorem layers_of_shape {v : Value} (hv : v.isData = true) (h : v.shape? = none) :
    v.layers = [] := by
  cases v with
  | seq | nothing | just | left | right => cases h
  | error | plain | identity | type | object => cases hv
  | number t n => cases n <;> rfl
  | _ => rfl

/-- The types of data of no shape have no parameters. -/
theorem arity_of_mem_types {v : Value} (hv : v.isData = true) (h : v.shape? = none)
    {t : NamedType} (ht : t ∈ v.types StandardType.standing) : t.arity = 0 := by
  rcases mem_types ht with ⟨u, hu, huv, rfl⟩ | ⟨-, rfl⟩
  · have hlayers := layers_of_shape hv h
    -- the types with parameters are those of the shapes
    cases u with
    | array =>
      cases v with
      | seq => cases h
      | _ => cases huv
    | maybe | either =>
      simp [StandardType.has, StandardType.test, isA, hlayers, Ancestry.derives] at huv
    | typeRep => simp [StandardType.standing] at hu
    | _ => rfl
  · rfl

end Value

/-- A type that shows what its values hold takes native values of its shape only. -/
theorem StandardType.shape_of_has {t : StandardType} {v : Value}
    (ht : t.extraction.isSome = true) (hv : v.isNative = true) (h : t.has v = true) :
    v.shape? = some t := by
  cases t with
  | array => cases v <;> first | rfl | cases h
  | maybe | either =>
    cases v with
    | object => cases hv
    | number t n => cases n <;> cases h
    | seq k => cases k <;> cases h
    | type r => simp [has, test, Value.isA, Value.layers_type, Ancestry.derives] at h
    | _ => first | rfl | cases h
  | _ => cases ht

end CheckedCalls
