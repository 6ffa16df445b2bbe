import CheckedCalls.Types.Class

/-!
# Descriptors

The descriptor of a value over an environment of the library's own types, as a plain answer:
`Value.descriptor` follows the tests of the types, and `describe_named` says that the run which
describes a value answers just that. Sameness of named types is an equivalence that looks at names
only, so it tells the library's types apart but not a nominal type from a type of its name.
-/

namespace CheckedCalls

/-! ## Sorting keeps the elements -/

section Sorting

variable {α : Type}

/-- Inserting into a list adds one element. -/
theorem perm_insertSorted (le : α → α → Bool) (a : α) (bs : List α) :
    (insertSorted le a bs).Perm (a :: bs) := by
  fun_induction insertSorted le a bs with
  | case1 => rfl
  | case2 => rfl
  | case3 b bs h ih => exact (ih.cons b).trans (List.Perm.swap a b bs)

/-- Sorting keeps the elements of a list, each as often as it was there. -/
theorem perm_sortStable (le : α → α → Bool) (as : List α) : (sortStable le as).Perm as := by
  induction as with
  | nil => rfl
  | cons a as ih => exact (perm_insertSorted le a _).trans (ih.cons a)

end Sorting

theorem perm_rank (types : List NamedType) : (rank types).Perm types := perm_sortStable _ types

@[simp] theorem mem_rank {types : List NamedType} {t : NamedType} : t ∈ rank types ↔ t ∈ types :=
  (perm_rank types).mem_iff

@[simp] theorem contains_rank (types : List NamedType) (t : NamedType) :
    (rank types).contains t = types.contains t := (perm_rank types).contains_eq

/-! ## Sameness of named types -/

namespace NamedType

/-- Two types are equal exactly if name, arity and specificity are. -/
theorem beq_iff {s t : NamedType} :
    (s == t) = true ↔ s.name = t.name ∧ s.arity = t.arity ∧ s.specificity = t.specificity := by
  show same s t = true ↔ _
  simp [same, and_assoc]

instance : EquivBEq NamedType where
  rfl := beq_iff.2 ⟨rfl, rfl, rfl⟩
  symm h := by
    obtain ⟨hn, ha, hs⟩ := beq_iff.1 h
    exact beq_iff.2 ⟨hn.symm, ha.symm, hs.symm⟩
  trans h h' := by
    obtain ⟨hn, ha, hs⟩ := beq_iff.1 h
    obtain ⟨hn', ha', hs'⟩ := beq_iff.1 h'
    exact beq_iff.2 ⟨hn.trans hn', ha.trans ha', hs.trans hs'⟩

/-- The candidates that stay are those on both sides. -/
theorem contains_filter_contains (types other : List NamedType) (t : NamedType) :
    (types.filter other.contains).contains t = (types.contains t && other.contains t) := by
  rw [Bool.eq_iff_iff]
  simp only [Bool.and_eq_true, List.contains_iff_exists_mem_beq, List.mem_filter]
  constructor
  · rintro ⟨s, ⟨hs, u, hu, hsu⟩, hts⟩
    exact ⟨⟨s, hs, hts⟩, u, hu, BEq.trans hts hsu⟩
  · rintro ⟨⟨s, hs, hts⟩, u, hu, htu⟩
    exact ⟨s, ⟨hs, u, hu, BEq.trans (BEq.symm hts) htu⟩, hts⟩

end NamedType

namespace StandardType

/-- A type of the library is found again by its name. -/
theorem find?_name (t : StandardType) : all.find? (·.name == t.name) = some t := by
  cases t <;> rfl

/-- The standard types are told apart by their names. -/
theorem name_inj {t u : StandardType} : t.name = u.name ↔ t = u := by
  constructor
  · intro h
    have ht := find?_name t
    rw [h, find?_name u] at ht
    exact (Option.some.inj ht).symm
  · rintro rfl
    rfl

/-- The named forms of two standard types are equal exactly if the types are. -/
@[simp] theorem named_beq_named {t u : StandardType} : (t.named == u.named) = true ↔ t = u := by
  rw [NamedType.beq_iff]
  constructor
  · rintro ⟨hn, -, -⟩
    exact name_inj.1 hn
  · rintro rfl
    exact ⟨rfl, rfl, rfl⟩

/-- A type of the library is the same as a nominal type of its name if nothing else is known of
it. -/
theorem named_beq_nominal {t : StandardType} {n : String} :
    (t.named == NamedType.nominal n) = true ↔ t.name = n ∧ t.arity = 0 ∧ t.specificity = 0 :=
  NamedType.beq_iff

/-- The value passes the test of the type. -/
def has (t : StandardType) (v : Value) : Bool :=
  match t.test v with
  | .ok b => b
  | .error _ => false

/-- What a standard type's test answers is what the type has. -/
theorem has_of_test {t : StandardType} {v : Value} {b : Bool} (h : t.test v = .ok b) :
    t.has v = b := by
  rw [has, h]

/-- A standard type contains what its test says it does. -/
theorem contains_named (call : Apply) (t : StandardType) (v : Value) :
    t.named.contains call v = liftM (t.test v) := by
  show (do (← (do return .bool (← (liftM (t.test v) : Run Bool)) : Run Value)).truth call) = _
  cases t.test v <;> rfl

end StandardType

theorem NamedType.nominal_beq_nominal {m n : String} :
    (NamedType.nominal m == NamedType.nominal n) = true ↔ m = n := by
  simp [NamedType.beq_iff, NamedType.nominal]

theorem NamedType.contains_nominal (call : Apply) (n : String) (v : Value) :
    (NamedType.nominal n).contains call v = pure (v.nominalName == n) := rfl

/-! ## The plain descriptor -/

namespace Value

/-- The descriptor of a value over some types of the library; a test without an answer leaves the
value without one. -/
def descriptor (ts : List StandardType) (v : Value) : Except Fault (List NamedType) := do
  let types ← ts.filterM fun t => t.test v
  return if types.isEmpty then [.nominal v.nominalName] else types.map StandardType.named

end Value

/-- Filtering named types by a value is filtering the standard types by their tests. -/
private theorem filterAuxM_contains (call : Apply) (v : Value) (ts acc : List StandardType) :
    List.filterAuxM (fun t : NamedType => t.contains call v) (ts.map StandardType.named)
        (acc.map StandardType.named) =
      (liftM ((List.filterAuxM (fun t : StandardType => t.test v) ts acc).map
        (List.map StandardType.named)) : Run (List NamedType)) := by
  induction ts generalizing acc with
  | nil => rfl
  | cons t ts ih =>
    simp only [List.map_cons, List.filterAuxM, StandardType.contains_named]
    rcases t.test v with f | _ | _
    · rfl
    · exact ih acc
    · exact ih (t :: acc)

/-- Describing a value by types of the library looks at nothing but the value. -/
theorem describe_named (call : Apply) (ts : List StandardType) (v : Value) :
    describe call (ts.map StandardType.named) v = liftM (v.descriptor ts) := by
  rw [describe, List.filterM, show ([] : List NamedType) = [].map StandardType.named from rfl,
    filterAuxM_contains, Value.descriptor, List.filterM]
  rcases List.filterAuxM (fun t : StandardType => t.test v) ts [] with f | us
  · rfl
  · show (pure _ : Run (List NamedType)) = pure _
    simp only [← List.map_reverse, List.isEmpty_map, List.map_nil]

/-- A filter that gets through has tested every type and kept those that passed. -/
private theorem filterAuxM_test {v : Value} {ts acc us : List StandardType}
    (h : List.filterAuxM (fun t : StandardType => t.test v) ts acc = .ok us) :
    (∀ t ∈ ts, t.test v = .ok (t.has v)) ∧
      us = (ts.filter fun t => t.has v).reverse ++ acc := by
  induction ts generalizing acc with
  | nil =>
    cases h
    exact ⟨by simp, rfl⟩
  | cons t ts ih =>
    simp only [List.filterAuxM] at h
    rcases ht : t.test v with f | b
    · rw [ht] at h
      cases h
    · rw [ht] at h
      obtain ⟨htests, rfl⟩ := ih h
      have hb := StandardType.has_of_test ht
      refine ⟨List.forall_mem_cons.2 ⟨by rw [ht, hb], htests⟩, ?_⟩
      cases b <;> simp [hb]

namespace Value

variable {ts : List StandardType} {v : Value} {d : List NamedType}

/-- A value with a descriptor has an answer from each test. -/
theorem test_of_descriptor (h : v.descriptor ts = .ok d) {t : StandardType} (ht : t ∈ ts) :
    t.test v = .ok (t.has v) := by
  rw [descriptor, List.filterM] at h
  rcases hus : List.filterAuxM (fun t : StandardType => t.test v) ts [] with f | us
  · rw [hus] at h
    cases h
  · exact (filterAuxM_test hus).1 t ht

/-- The descriptor holds the types that the value belongs to, or its nominal type. -/
theorem descriptor_eq (h : v.descriptor ts = .ok d) :
    d = if ∀ t ∈ ts, t.has v = false then [.nominal v.nominalName]
      else (ts.filter fun t => t.has v).map StandardType.named := by
  rw [descriptor, List.filterM] at h
  rcases hus : List.filterAuxM (fun t : StandardType => t.test v) ts [] with f | us
  · rw [hus] at h
    cases h
  · obtain ⟨-, rfl⟩ := filterAuxM_test hus
    rw [hus] at h
    cases h
    simp

/-- A type in a descriptor is one of the environment that the value belongs to, or the nominal type
of a value that belongs to none. -/
theorem mem_descriptor (h : v.descriptor ts = .ok d) {t : NamedType} :
    t ∈ d ↔ (∃ u ∈ ts, u.has v = true ∧ t = u.named) ∨
      ((∀ u ∈ ts, u.has v = false) ∧ t = .nominal v.nominalName) := by
  rw [descriptor_eq h]
  split
  · rename_i hnone
    simp only [List.mem_singleton]
    constructor
    · intro ht
      exact .inr ⟨hnone, ht⟩
    · rintro (⟨u, hu, huv, -⟩ | ⟨-, ht⟩)
      · rw [hnone u hu] at huv
        cases huv
      · exact ht
  · rename_i hsome
    simp only [List.mem_map, List.mem_filter]
    constructor
    · rintro ⟨u, ⟨hu, huv⟩, rfl⟩
      exact .inl ⟨u, hu, huv, rfl⟩
    · rintro (⟨u, hu, huv, rfl⟩ | ⟨hnone, -⟩)
      · exact ⟨u, ⟨hu, huv⟩, rfl⟩
      · exact absurd hnone hsome

/-! ## The types of a value -/

/-- The types that describe a value; there are none if some test has no answer. -/
def types (ts : List StandardType) (v : Value) : List NamedType :=
  match v.descriptor ts with
  | .ok d => d
  | .error _ => []

/-- The value belongs to no type of the environment, so that only its class names it. -/
def isForeign (ts : List StandardType) (v : Value) : Bool := ts.all fun t => !t.has v

theorem types_of_descriptor (h : v.descriptor ts = .ok d) : v.types ts = d := by
  rw [types, h]

/-- A value with types has an answer from each test. -/
theorem test_of_mem_types {s : NamedType} (hs : s ∈ v.types ts) {t : StandardType} (ht : t ∈ ts) :
    t.test v = .ok (t.has v) := by
  rcases h : v.descriptor ts with f | d
  · rw [types, h] at hs
    cases hs
  · exact test_of_descriptor h ht

/-- The types of a value are those that it belongs to, or its nominal type if there are none. -/
theorem mem_types {s : NamedType} (hs : s ∈ v.types ts) :
    (∃ u ∈ ts, u.has v = true ∧ s = u.named) ∨
      (v.isForeign ts = true ∧ s = .nominal v.nominalName) := by
  rcases h : v.descriptor ts with f | d
  · rw [types, h] at hs
    cases hs
  · rw [types_of_descriptor h] at hs
    simpa [isForeign] using (mem_descriptor h).1 hs

end Value

/-! ## The standing environment -/

/-- The types by which values are described unless others are given. -/
def StandardType.standing : List StandardType :=
  [.function, .array, .boolean, .date, .error, .null, .number, .object, .regexp, .string,
    .finiteNumber, .nonZeroFiniteNumber, .either, .integer, .maybe, .validNumber]

theorem StandardType.defaultEnv_eq : defaultEnv = standing.map named := rfl

end CheckedCalls
