import CheckedCalls.Proofs.Course
import CheckedCalls.Proofs.Overflow

/-!
# Signatures that are refused

A list of types and a mapping of constraints make a signature, unless they are malformed
(`Signature.Malformed`). The conditions are checked one after another, and the entries are read on
the way, so which of several defects is reported depends on their order; that one is reported does
not. What is reported is a signature error, but for one case: the message shows the first entry
that is no type, and where this entry has no text, its failure is passed on.
-/

namespace CheckedCalls

/-- Either all elements have a property, or there is a first one that has not. -/
theorem forall_or_reaches {α : Type} {T : α → Prop} (as : List α) :
    (∀ a ∈ as, T a) ∨ Reaches T (fun a => ¬T a) as := by
  induction as with
  | nil => exact .inl nofun
  | cons a as ih =>
    rw [List.forall_mem_cons, reaches_cons]
    by_cases ha : T a
    · exact ih.imp (fun h => ⟨ha, h⟩) fun h => .inr ⟨ha, h⟩
    · exact .inr (.inl ha)

/-! ## Entries -/

namespace TypeLike

/-- Type expressions, named types and identifiers stand for types. -/
def isType : TypeLike → Bool
  | .expr _ | .named _ => true
  | .name s => Text.isIdentifier s
  | .other _ => false

/-- The variables of the type that is meant. -/
def variableNames : TypeLike → List String
  | .expr e => e.variableNames
  | .name s => [s]
  | .named _ | .other _ => []

theorem exists_toExpr {t : TypeLike} (h : t.isType = true) :
    ∃ e, t.toExpr = .ok e ∧ e.variableNames = t.variableNames := by
  cases t with
  | expr e => exact ⟨e, rfl, rfl⟩
  | named t => exact ⟨_, rfl, rfl⟩
  | name s => exact ⟨.var s [], if_pos h, rfl⟩
  | other => cases h

/-- What is no type is refused by its text, if it has one. -/
theorem toExpr_eq_error {t : TypeLike} (h : t.isType = false) :
    (∃ message, t.toExpr = .error (.signature message)) ∨
      ∃ f, t = .other (.error f) ∧ t.toExpr = .error f := by
  cases t with
  | expr | named => cases h
  | name s => exact .inl ⟨_, if_neg (by rw [show Text.isIdentifier s = false from h]; simp)⟩
  | other literal =>
    cases literal with
    | ok s => exact .inl ⟨_, rfl⟩
    | error f => exact .inr ⟨f, rfl, rfl⟩

end TypeLike

namespace TypeEntry

/-- Slots hold types. -/
def isType : TypeEntry → Bool
  | .type t => t.isType
  | .slot _ => true

/-- The variables of the type of an entry. -/
def variableNames : TypeEntry → List String
  | .type t => t.variableNames
  | .slot s => s.type.variableNames

/-- The entry takes all further arguments. -/
def isVariadic : TypeEntry → Bool
  | .type _ => false
  | .slot s => s.variadic

/-- The slot has the type of the entry and takes as many arguments. -/
def Makes (t : TypeEntry) (slot : Slot) : Prop :=
  Signature.toSlot t = .ok slot ∧ slot.type.variableNames = t.variableNames ∧
    slot.variadic = t.isVariadic

theorem exists_makes {t : TypeEntry} (h : t.isType = true) : ∃ slot, t.Makes slot := by
  cases t with
  | slot s => exact ⟨s, rfl, rfl, rfl⟩
  | type t =>
    obtain ⟨e, he, hnames⟩ := t.exists_toExpr h
    exact ⟨⟨e, false⟩, by rw [Signature.toSlot, he]; rfl, hnames, rfl⟩

/-- An entry that is no type is refused with a signature error, or with the fault of its text. -/
theorem toSlot_eq_error {t : TypeEntry} (h : t.isType = false) :
    (∃ message, Signature.toSlot t = .error (.signature message)) ∨
      ∃ f, t = .type (.other (.error f)) ∧ Signature.toSlot t = .error f := by
  cases t with
  | slot s => cases h
  | type t =>
    rcases t.toExpr_eq_error h with ⟨message, he⟩ | ⟨f, rfl, he⟩
    · exact .inl ⟨message, by rw [Signature.toSlot, he]; rfl⟩
    · exact .inr ⟨f, rfl, by rw [Signature.toSlot, he]; rfl⟩

end TypeEntry

/-- The registry has all classes that are demanded. -/
def ConstraintMap.Known (constraints : ConstraintMap) (registry : Registry) : Prop :=
  ∀ p ∈ constraints, ∀ c ∈ p.2, ∃ k ∈ registry, k.name = c

namespace Signature

/-! ## Malformed signatures -/

/-- What is wrong with constraints and a list of types. -/
inductive Malformed (constraints : ConstraintMap) (types : List TypeEntry) (registry : Registry) :
    Prop
  | empty (h : types = [])
  | unknownClass {name : String} {classes : List String} {c : String}
    (h : (name, classes) ∈ constraints) (hc : c ∈ classes) (hunknown : ∀ k ∈ registry, k.name ≠ c)
  | slotLast {slot : Slot} (h : types.getLast? = some (.slot slot))
  | noType {t : TypeEntry} (h : t ∈ types) (hno : t.isType = false)
  | variadicInFront {t : TypeEntry} (h : t ∈ types.dropLast.dropLast)
    (hvariadic : t.isVariadic = true)
  | unusedVariable {name : String} {classes : List String} (h : (name, classes) ∈ constraints)
    (hsome : classes ≠ []) (hunused : ∀ t ∈ types, name ∉ t.variableNames)

/-- The first entry that is no type is met, since nothing was wrong before, and its text fails. -/
structure TextFails (constraints : ConstraintMap) (types : List TypeEntry) (registry : Registry)
    (f : Fault) : Prop where
  known : constraints.Known registry
  result : ∀ slot, types.getLast? ≠ some (.slot slot)
  text : Reaches (fun t => t.isType = true) (fun t => t = .type (.other (.error f))) types

section Build

variable {name : String} {constraints : ConstraintMap} {types params : List TypeEntry}
variable {registry : Registry} {result : TypeLike}

theorem mem_flatten {c : Constraint} : c ∈ constraints.flatten ↔
    ∃ classes, (c.variableName, classes) ∈ constraints ∧ c.typeClass ∈ classes := by
  simp only [ConstraintMap.flatten, List.mem_flatMap, List.mem_map]
  constructor
  · rintro ⟨⟨v, classes⟩, hp, d, hd, rfl⟩
    exact ⟨classes, hp, hd⟩
  · rintro ⟨classes, hp, hc⟩
    exact ⟨(c.variableName, classes), hp, c.typeClass, hc, rfl⟩

theorem knows_iff {c : String} : registry.knows c = true ↔ ∃ k ∈ registry, k.name = c := by
  simp [Registry.knows, Registry.find?]

/-- With known classes and a type for the result, the entries are read one by one. -/
theorem build_eq (name : String) (params : List TypeEntry) (result : TypeLike)
    (hknown : constraints.Known registry) :
    build name constraints (params ++ [.type result]) registry = (do
      let slots ← params.mapM toSlot
      validate ⟨name, constraints.flatten, slots, ← result.toExpr⟩) := by
  have hnone : (constraints.flatten.find? fun c => !registry.knows c.typeClass) = none := by
    rw [List.find?_eq_none]
    intro c hc
    obtain ⟨classes, hp, hc⟩ := mem_flatten.1 hc
    simp [knows_iff.2 (hknown _ hp _ hc)]
  rw [build, List.getLast?_concat, List.dropLast_concat]
  simp only [hnone]

theorem find?_of_not_known (h : ¬constraints.Known registry) :
    ∃ c, (constraints.flatten.find? fun c => !registry.knows c.typeClass) = some c := by
  rw [← Option.isSome_iff_exists, List.find?_isSome]
  simp only [ConstraintMap.Known, not_forall] at h
  obtain ⟨⟨v, classes⟩, hp, c, hc, hunknown⟩ := h
  refine ⟨⟨c, v⟩, mem_flatten.2 ⟨classes, hp, hc⟩, ?_⟩
  rw [Bool.not_eq_true', ← Bool.not_eq_true, knows_iff]
  exact hunknown

/-- Well-formed entries make the slots of a signature. -/
theorem mapM_toSlot (h : ∀ t ∈ params, t.isType = true) :
    ∃ slots, params.mapM toSlot = .ok slots ∧ params.Forall₂ TypeEntry.Makes slots := by
  induction params with
  | nil => exact ⟨[], rfl, .nil⟩
  | cons t params ih =>
    rw [List.forall_mem_cons] at h
    obtain ⟨slot, hslot⟩ := t.exists_makes h.1
    obtain ⟨slots, hslots, hmakes⟩ := ih h.2
    exact ⟨slot :: slots, by rw [List.mapM_cons, hslot.1, hslots]; rfl, .cons hslot hmakes⟩

/-- The first entry that is refused is what is reported. -/
theorem mapM_toSlot_eq_error {f : Fault}
    (h : Reaches (fun t => t.isType = true) (fun t => toSlot t = .error f) params) :
    params.mapM toSlot = .error f := by
  induction params with
  | nil => exact absurd h not_reaches_nil
  | cons t params ih =>
    rw [List.mapM_cons]
    rcases reaches_cons.1 h with ht | ⟨ht, hrest⟩
    · rw [ht]
      rfl
    · obtain ⟨slot, hslot, -⟩ := t.exists_makes ht
      rw [hslot, ih hrest]
      rfl

/-- A build fails with the fault of the first entry that makes no slot. -/
theorem build_eq_error {f : Fault} (name : String) (hknown : constraints.Known registry)
    (h : Reaches (fun t => t.isType = true) (fun t => toSlot t = .error f)
      (params ++ [.type result])) :
    build name constraints (params ++ [.type result]) registry = .error f := by
  have hread := mapM_toSlot_eq_error h
  rw [List.mapM_append] at hread
  rw [build_eq name params result hknown]
  cases hslots : params.mapM toSlot with
  | error f' =>
    rw [hslots] at hread
    cases hread
    rfl
  | ok slots =>
    rw [hslots] at hread
    cases hresult : result.toExpr with
    | error f' =>
      rw [List.mapM_cons, toSlot, hresult] at hread
      cases hread
      rfl
    | ok e =>
      rw [List.mapM_cons, toSlot, hresult] at hread
      cases hread

/-! ## Validation -/

section Validate

variable {s : Signature}

theorem validate_eq_ok (hvariadic : ∀ slot ∈ s.slots.dropLast, slot.variadic = false)
    (hused : ∀ c ∈ s.constraints, c.variableName ∈ s.variableNames) : s.validate = .ok s := by
  have hnone : (s.constraints.find? fun c => !s.variableNames.contains c.variableName) = none := by
    rw [List.find?_eq_none]
    intro c hc
    simp [hused c hc]
  rw [validate, if_neg (by simpa using hvariadic)]
  simp only [hnone]
  rfl

/-- A signature with an early variadic slot, or with an unused constraint, is refused. -/
theorem validate_eq_error (h : (∃ slot ∈ s.slots.dropLast, slot.variadic = true) ∨
    ∃ c ∈ s.constraints, c.variableName ∉ s.variableNames) :
    ∃ message, s.validate = .error (.signature message) := by
  rw [validate]
  split
  · exact ⟨_, rfl⟩
  · rename_i hvariadic
    rw [List.any_eq_true] at hvariadic
    obtain ⟨c, hc, hunused⟩ := h.resolve_left hvariadic
    cases hfind : s.constraints.find? fun c => !s.variableNames.contains c.variableName with
    | some d => exact ⟨_, rfl⟩
    | none =>
      have hall := List.find?_eq_none.1 hfind c hc
      exact absurd (by simpa using hall) hunused

end Validate

section Slots

variable {slots : List Slot}

/-- A slot before the last is variadic exactly if its entry is. -/
theorem exists_variadic_iff (h : params.Forall₂ TypeEntry.Makes slots) :
    (∃ slot ∈ slots.dropLast, slot.variadic = true) ↔
      ∃ t ∈ params.dropLast, t.isVariadic = true := by
  have hmap : slots.map Slot.variadic = params.map TypeEntry.isVariadic := by
    induction h with
    | nil => rfl
    | cons hslot _ ih => rw [List.map_cons, List.map_cons, hslot.2.2, ih]
  have hdrop : slots.dropLast.map Slot.variadic = params.dropLast.map TypeEntry.isVariadic := by
    rw [List.map_dropLast, List.map_dropLast, hmap]
  rw [← List.mem_map, ← List.mem_map, hdrop]

/-- The variables of a signature are those of the entries. -/
theorem mem_variableNames_iff (h : params.Forall₂ TypeEntry.Makes slots) {e : TypeExpr}
    (he : e.variableNames = result.variableNames) (cs : List Constraint) {v : String} :
    v ∈ (Signature.mk name cs slots e).variableNames ↔
      ∃ t ∈ params ++ [.type result], v ∈ t.variableNames := by
  have hslots : slots.flatMap (fun slot => slot.type.variableNames) =
      params.flatMap TypeEntry.variableNames := by
    induction h with
    | nil => rfl
    | cons hslot _ ih => rw [List.flatMap_cons, List.flatMap_cons, hslot.2.1, ih]
  rw [variableNames, hslots, he]
  simp [TypeEntry.variableNames, or_and_right, exists_or]

/-- Where all entries are types, what is left is to validate the signature that they make. -/
theorem build_eq_validate (name : String) (hknown : constraints.Known registry)
    (hall : ∀ t ∈ params ++ [.type result], t.isType = true) :
    ∃ slots e, params.Forall₂ TypeEntry.Makes slots ∧ result.toExpr = .ok e ∧
      e.variableNames = result.variableNames ∧
      build name constraints (params ++ [.type result]) registry =
        validate ⟨name, constraints.flatten, slots, e⟩ := by
  rw [List.forall_mem_append, List.forall_mem_singleton] at hall
  obtain ⟨slots, hslots, hmakes⟩ := mapM_toSlot hall.1
  obtain ⟨e, he, hnames⟩ := result.exists_toExpr hall.2
  refine ⟨slots, e, hmakes, he, hnames, ?_⟩
  rw [build_eq name params result hknown, hslots, he]
  rfl

end Slots

end Build

/-! ## Building -/

/-- The signature has the constraints in the order of the mapping and a slot for each entry but the
last, which is its result. Only the last slot may be variadic, and what is looked up later for a
constraint is there: its class in the registry and its place in the text. -/
structure Follows (name : String) (constraints : ConstraintMap) (types : List TypeEntry)
    (registry : Registry) (s : Signature) : Prop where
  name : s.name = name
  constraints : s.constraints = constraints.flatten
  slots : types.dropLast.Forall₂ TypeEntry.Makes s.slots
  result : ∃ t, types.getLast? = some (.type t) ∧ t.toExpr = .ok s.returns
  variadic : ∀ slot ∈ s.slots.dropLast, slot.variadic = false
  known : ∀ v, ∀ c ∈ s.constraintsOn v, ∃ k, registry.get c = .ok k ∧ k.name = c
  placed : ∀ c ∈ s.constraints, ∃ span, s.constraintSpan? c = some span

section Main

variable (name : String) (constraints : ConstraintMap) (types : List TypeEntry)
variable (registry : Registry)

/-- A build fails with the fault of the first text that cannot be written. -/
theorem build_of_textFails {f : Fault} (h : TextFails constraints types registry f) :
    build name constraints types registry = .error f := by
  rcases types.eq_nil_or_concat' with rfl | ⟨params, last, rfl⟩
  · exact absurd h.text not_reaches_nil
  cases last with
  | slot s => exact absurd (List.getLast?_concat ..) (h.result s)
  | type result =>
    refine build_eq_error name h.known ?_
    obtain ⟨front, t, back, htypes, hfront, rfl⟩ := h.text
    exact ⟨front, _, back, htypes, hfront, rfl⟩

/-- Malformed signatures are refused by a signature error, if no text fails on the way. -/
theorem build_of_malformed (hno : ∀ f, ¬TextFails constraints types registry f)
    (h : Malformed constraints types registry) :
    ∃ message, build name constraints types registry = .error (.signature message) := by
  rcases types.eq_nil_or_concat' with rfl | ⟨params, last, rfl⟩
  · exact ⟨_, rfl⟩
  by_cases hknown : constraints.Known registry
  swap
  · obtain ⟨c, hfind⟩ := find?_of_not_known hknown
    rw [build, List.getLast?_concat]
    simp only [hfind]
    exact ⟨_, rfl⟩
  cases last with
  | slot s =>
    rw [build, List.getLast?_concat]
    dsimp only
    split <;> exact ⟨_, rfl⟩
  | type result =>
    rcases forall_or_reaches (T := fun t : TypeEntry => t.isType = true) (params ++ [.type result])
      with hall | ⟨front, t, back, htypes, hfront, ht⟩
    -- the entries are types, so what is wrong is seen when the signature is validated
    · obtain ⟨slots, e, hmakes, -, he, hbuild⟩ := build_eq_validate name hknown hall
      rw [hbuild]
      refine validate_eq_error ?_
      cases h with
      | empty h => simp at h
      | unknownClass h hc hunknown =>
        obtain ⟨k, hk, hkc⟩ := hknown _ h _ hc
        exact absurd hkc (hunknown k hk)
      | slotLast h => simp at h
      | noType h hno =>
        rw [hall _ h] at hno
        cases hno
      | variadicInFront h hvariadic =>
        rw [List.dropLast_concat] at h
        exact .inl ((exists_variadic_iff hmakes).2 ⟨_, h, hvariadic⟩)
      | @unusedVariable v classes h hsome hunused =>
        obtain ⟨c, hc⟩ := List.exists_mem_of_ne_nil classes hsome
        refine .inr ⟨⟨c, v⟩, mem_flatten.2 ⟨classes, h, hc⟩, ?_⟩
        rw [mem_variableNames_iff hmakes he]
        rintro ⟨t, ht, hv⟩
        exact hunused t ht hv
    · rcases t.toSlot_eq_error (Bool.not_eq_true _ ▸ ht) with ⟨message, hslot⟩ | ⟨f, rfl, hslot⟩
      · exact ⟨message, build_eq_error name hknown ⟨front, t, back, htypes, hfront, hslot⟩⟩
      · refine absurd ⟨hknown, ?_, front, _, back, htypes, hfront, rfl⟩ (hno f)
        rw [List.getLast?_concat]
        intro s hs
        cases hs

/-- What is not malformed makes a signature. -/
theorem build_of_not_malformed (h : ¬Malformed constraints types registry) :
    ∃ s, build name constraints types registry = .ok s ∧
      Follows name constraints types registry s := by
  rcases types.eq_nil_or_concat' with rfl | ⟨params, last, rfl⟩
  · exact absurd (.empty rfl) h
  cases last with
  | slot s => exact absurd (.slotLast (List.getLast?_concat ..)) h
  | type result =>
    have hknown : constraints.Known registry := by
      rintro ⟨v, classes⟩ hp c hc
      by_contra hunknown
      exact h (.unknownClass hp hc fun k hk hkc => hunknown ⟨k, hk, hkc⟩)
    have hall : ∀ t ∈ params ++ [.type result], t.isType = true := by
      intro t ht
      by_contra hno
      exact h (.noType ht (Bool.not_eq_true _ ▸ hno))
    obtain ⟨slots, e, hmakes, he, hnames, hbuild⟩ := build_eq_validate name hknown hall
    have hvariadic : ∀ slot ∈ slots.dropLast, slot.variadic = false := by
      intro slot hslot
      by_contra hyes
      obtain ⟨t, ht, hvariadic⟩ :=
        (exists_variadic_iff hmakes).1 ⟨slot, hslot, by simpa using hyes⟩
      refine h (.variadicInFront ?_ hvariadic)
      rw [List.dropLast_concat]
      exact ht
    have hused : ∀ c ∈ constraints.flatten, c.variableName ∈
        (Signature.mk name constraints.flatten slots e).variableNames := by
      intro c hc
      obtain ⟨classes, hp, hc⟩ := mem_flatten.1 hc
      rw [mem_variableNames_iff hmakes hnames]
      by_contra hunused
      refine h (.unusedVariable hp (List.ne_nil_of_mem hc) fun t ht hv => hunused ⟨t, ht, hv⟩)
    refine ⟨_, hbuild.trans (validate_eq_ok hvariadic hused), rfl, rfl, ?_, ?_, hvariadic, ?_,
      fun c hc => exists_constraintSpan hc⟩
    · rw [List.dropLast_concat]
      exact hmakes
    · exact ⟨result, List.getLast?_concat .., he⟩
    · intro v c hc
      obtain ⟨classes, hp, hmem⟩ := mem_flatten.1 (mem_constraints hc)
      obtain ⟨k, hfind⟩ := Option.isSome_iff_exists.1 (knows_iff.2 (hknown _ hp _ hmem))
      exact ⟨k, by rw [Registry.get, hfind], by simpa using List.find?_some hfind⟩

/-- Building a signature refuses what is malformed, and only that: by a signature error, unless the
message is to show an entry that is no type and its text fails, which is then what fails. What is
not malformed makes a signature that follows the constraints and the types. -/
theorem build_refuses_malformed :
    ((∀ f, ¬TextFails constraints types registry f) →
      (Malformed constraints types registry ↔
        ∃ message, build name constraints types registry = .error (.signature message))) ∧
    (∀ f, TextFails constraints types registry f →
      Malformed constraints types registry ∧ build name constraints types registry = .error f) ∧
    (¬Malformed constraints types registry → ∃ s, build name constraints types registry = .ok s ∧
      Follows name constraints types registry s) := by
  refine ⟨fun hno => ⟨build_of_malformed name constraints types registry hno, ?_⟩, ?_,
    build_of_not_malformed name constraints types registry⟩
  · rintro ⟨message, hfails⟩
    by_contra h
    obtain ⟨s, hbuild, -⟩ := build_of_not_malformed name constraints types registry h
    cases hbuild.symm.trans hfails
  · intro f hf
    obtain ⟨front, t, back, rfl, -, rfl⟩ := hf.text
    exact ⟨.noType (List.mem_append_right front List.mem_cons_self) rfl,
      build_of_textFails name constraints _ registry hf⟩

end Main

/-- An instance of a class whose text fails stands where a type should: its failure is passed on. -/
theorem build_passes_failure_on :
    let unprintable : Value := .object (.numbered 1)
      (.declared (.numbered 0) "Unprintable" [.declared (.numbered 0)
        [(.text, .data (.func (.numbered 2) (.raise .valueError "no text")))]]) .null
    let literal := (Value.literal (apply 2) (.just (.numbered 3) unprintable)).result
    let types := [.type (.other literal), .type (.name "a")]
    Malformed [] types .standard ∧
      build "f" [] types .standard = .error (.raised .valueError "no text") := by
  intro unprintable literal types
  exact ⟨.noType List.mem_cons_self rfl, rfl⟩

end Signature

end CheckedCalls
