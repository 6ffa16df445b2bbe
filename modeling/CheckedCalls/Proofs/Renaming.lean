import CheckedCalls.Proofs.Course
import CheckedCalls.Proofs.Tandem

/-!
# What a check does not look at

A check asks of two variables whether they are the same one, and uses the part of the signature that
it is at to mark it in a report. So the names of variables may be exchanged, and the parts may be
numbered in another way: the check goes on as before, in one world, up to the same end
(`tandem_checkArguments`). The two signatures that are compared so are related by `Renames`, the
states by `CheckState.Renamed` and the violations by `Violation.Renamed`.
-/

namespace CheckedCalls

open CheckState Checking Check

variable {ρ : String → String}

/-! ## Other names -/

namespace TypeExpr

mutual

/-- The expression with other names for its variables. -/
def rename (ρ : String → String) : TypeExpr → TypeExpr
  | .var name args => .var (ρ name) (renameAll ρ args)
  | .concrete t args => .concrete t (renameAll ρ args)
  | .fn params result => .fn (renameAll ρ params) (rename ρ result)
  | .foreign => .foreign

/-- The expressions with other names for their variables. -/
def renameAll (ρ : String → String) : List TypeExpr → List TypeExpr
  | [] => []
  | e :: es => rename ρ e :: renameAll ρ es

end

/-- A renaming keeps the number of the arguments. -/
@[simp] theorem length_renameAll (es : List TypeExpr) :
    (renameAll ρ es).length = es.length := by
  induction es with
  | nil => rfl
  | cons e es ih => rw [renameAll, List.length_cons, ih, List.length_cons]

@[simp] theorem isEmpty_renameAll (es : List TypeExpr) :
    (renameAll ρ es).isEmpty = es.isEmpty := by
  cases es <;> rfl

mutual

theorem rename_id : ∀ e : TypeExpr, e.rename id = e
  | .var name args => by rw [rename, renameAll_id args, id]
  | .concrete t args => by rw [rename, renameAll_id args]
  | .fn params result => by rw [rename, renameAll_id params, rename_id result]
  | .foreign => rfl

theorem renameAll_id : ∀ es : List TypeExpr, renameAll id es = es
  | [] => rfl
  | e :: es => by rw [renameAll, rename_id e, renameAll_id es]

end

end TypeExpr

/-- The key with another name for its variable. -/
def VarKey.rename (ρ : String → String) : VarKey → VarKey
  | .named name => .named (ρ name)
  | .inner outer parameter => .inner (outer.rename ρ) parameter

/-- An injective renaming keeps the keys of two variables apart. -/
theorem VarKey.rename_inj (hρ : ρ.Injective) {k k' : VarKey} :
    k.rename ρ = k'.rename ρ ↔ k = k' := by
  refine ⟨fun h => ?_, fun h => by rw [h]⟩
  induction k generalizing k' with
  | named name =>
    cases k' with
    | named name' => rw [hρ (VarKey.named.inj h)]
    | inner outer' i' => cases h
  | inner outer i ih =>
    cases k' with
    | named name' => cases h
    | inner outer' i' =>
      obtain ⟨houter, hi⟩ := VarKey.inner.inj h
      rw [ih houter, hi]

/-- The constraint with another name for its variable. -/
def Constraint.rename (ρ : String → String) (c : Constraint) : Constraint :=
  ⟨c.typeClass, ρ c.variableName⟩

/-- The second signature has the name and the constraints of the first, which are on variables of
other names; no two variables become one. -/
structure Signature.Renames (ρ : String → String) (s t : Signature) : Prop where
  injective : ρ.Injective
  name : t.name = s.name
  constraints : t.constraints = s.constraints.map (Constraint.rename ρ)

/-- A renamed variable has the constraints of the variable it comes from, in their order. -/
theorem Signature.Renames.constraintsOn {s t : Signature} (h : Renames ρ s t) (name : String) :
    t.constraintsOn (ρ name) = s.constraintsOn name := by
  have hsame (c : Constraint) :
      ((c.rename ρ).variableName == ρ name) = (c.variableName == name) := by
    rw [Bool.eq_iff_iff, beq_iff_eq, beq_iff_eq]
    exact h.injective.eq_iff
  rw [Signature.constraintsOn, Signature.constraintsOn, h.constraints, List.filter_map,
    List.map_map]
  exact congrArg (List.map Constraint.typeClass) (List.filter_congr fun c _ => hsame c)

/-! ## Violations -/

/-- The violations are of one rule, at the same positions, by the same numbered values with the same
types. The variable that an explanation may name has another name. -/
structure Violation.Renamed (ρ : String → String) (v u : Violation) : Prop where
  kind : v.kind = u.kind
  positions : v.positions = u.positions
  values : v.values = u.values
  explanation : ρ = id → v.explanation = u.explanation

/-- The reports are of one rule, by the same values so far. -/
structure ViolationBuilder.Same (b c : ViolationBuilder) : Prop where
  kind : b.kind = c.kind
  positions : b.positions = c.positions
  values : b.values = c.values

theorem ViolationBuilder.Same.renamed {b c : ViolationBuilder} (h : b.Same c) {text text' : String}
    (htext : ρ = id → text = text') :
    (b.explain text).build.Renamed ρ (c.explain text').build :=
  ⟨h.kind, h.positions, h.values, htext⟩

theorem same_report (s t : Signature) (kind : ViolationKind) :
    (report s kind).Same (report t kind) := ⟨rfl, rfl, rfl⟩

section Reports

variable {call : Apply} {vocabulary : Vocabulary} {s t : Signature} {position : Nat}
variable {key key' : SpanKey} {P : CheckState → CheckState → Prop}

/-- A value is described with the same underline in both reports. -/
theorem tandem_addValue {b c : ViolationBuilder} (h : b.Same c) (position : Nat) (v : Value)
    (key key' : SpanKey) :
    Run.Tandem (addValue call vocabulary s b position v key)
      (addValue call vocabulary t c position v key') ViolationBuilder.Same := by
  refine Run.tandem_bind_self _ fun text => Run.tandem_bind_self _ fun types =>
    Run.tandem_pure ⟨h.kind, ?_, ?_⟩
  · show (if _ then _ else _) = (if _ then _ else _)
    rw [h.positions]
  · show b.values ++ [⟨(b.values.length + 1 : Nat), text, types⟩] = _
    rw [h.values]
    rfl

/-- The reports of an invalid value differ in the names of variables only. -/
theorem tandem_invalidValue (e e' : TypeExpr) (he : ρ = id → e = e') (v : Value) :
    Tandem (invalidValue call vocabulary s e v position key)
      (invalidValue call vocabulary t e' v position key') P (Violation.Renamed ρ) := by
  refine tandem_run_bind (tandem_addValue (same_report s t _) position v key key') fun b c hbc =>
    tandem_throw (hbc.renamed fun hid => ?_)
  rw [he hid]

/-- The reports of a constraint that fails differ in the names of variables only. -/
theorem tandem_unsatisfied (hst : Signature.Renames ρ s t) {name typeClass : String} (v : Value)
    (hmem : ⟨typeClass, name⟩ ∈ s.constraints) :
    Tandem (unsatisfied call vocabulary s name typeClass v position key)
      (unsatisfied call vocabulary t (ρ name) typeClass v position key') P
      (Violation.Renamed ρ) := by
  have hmem' : ⟨typeClass, ρ name⟩ ∈ t.constraints := by
    rw [hst.constraints]
    exact List.mem_map_of_mem hmem
  obtain ⟨span, hspan⟩ := Signature.exists_constraintSpan hmem
  obtain ⟨span', hspan'⟩ := Signature.exists_constraintSpan hmem'
  rw [unsatisfied, unsatisfied, constraintPlace, constraintPlace, hspan, hspan']
  have hmarked : ((report s .typeClass).underline span.1 span.2 "").Same
      ((report t .typeClass).underline span'.1 span'.2 "") := ⟨rfl, rfl, rfl⟩
  refine tandem_run_bind (tandem_addValue hmarked position v key key') fun b c hbc =>
    tandem_throw (hbc.renamed fun hid => ?_)
  rw [hst.name, hid, id]

/-- The observations are of the same values, at the same positions. -/
def SameSights (os ps : List Observation) : Prop :=
  List.Forall₂ (fun o p => o.position = p.position ∧ o.value = p.value) os ps

/-- The reports that values have no type in common differ in the names of variables only. -/
theorem tandem_nothingInCommon {os ps : List Observation} (h : SameSights os ps) :
    Tandem (nothingInCommon call vocabulary s os) (nothingInCommon call vocabulary t ps) P
      (Violation.Renamed ρ) := by
  refine tandem_bind (P := ViolationBuilder.Same) ?_ fun b c hbc =>
    tandem_throw (hbc.renamed fun _ => rfl)
  refine tandem_foldlM (fun b c o p hbc hop => ?_) h (same_report s t _)
  rw [hop.1, hop.2, ← bind_pure (liftM _), ← bind_pure (liftM (addValue _ _ t c _ _ _))]
  exact tandem_run_bind (tandem_addValue hbc _ _ _ _) fun _ _ h => tandem_pure h

end Reports

/-! ## States -/

/-- What is kept under the key of a variable is found under the key of the renamed one. -/
theorem lookup_map_rename {α : Type} (hρ : ρ.Injective) (key : VarKey) (l : List (VarKey × α)) :
    (l.map (Prod.map (VarKey.rename ρ) id)).lookup (key.rename ρ) = l.lookup key := by
  induction l with
  | nil => rfl
  | cons p l ih =>
    show ((p.1.rename ρ, p.2) :: l.map (Prod.map (VarKey.rename ρ) id)).lookup (key.rename ρ) =
      ((p.1, p.2) :: l).lookup key
    rw [lookup_cons_ite, lookup_cons_ite, ih]
    simp only [VarKey.rename_inj hρ]

/-- Setting the entry of a key and renaming the keys may be done in either order. -/
theorem map_rename_setKey {α : Type} (hρ : ρ.Injective) (key : VarKey) (a : α)
    (l : List (VarKey × α)) :
    (setKey key a l).map (Prod.map (VarKey.rename ρ) id) =
      setKey (key.rename ρ) a (l.map (Prod.map (VarKey.rename ρ) id)) := by
  fun_induction setKey key a l with
  | case1 => rfl
  | case2 b rest =>
    show _ = setKey (key.rename ρ) a ((key.rename ρ, b) :: rest.map (Prod.map (VarKey.rename ρ) id))
    rw [setKey, if_pos rfl]
    rfl
  | case3 k b rest hne ih =>
    show _ = setKey (key.rename ρ) a ((k.rename ρ, b) :: rest.map (Prod.map (VarKey.rename ρ) id))
    rw [setKey, if_neg fun h => hne ((VarKey.rename_inj hρ).1 h), List.map_cons, ih]
    rfl

/-- The states have the same candidates, for the same values at the same positions, under keys of
other names. -/
structure CheckState.Renamed (ρ : String → String) (s t : CheckState) : Prop where
  candidates : t.candidates = s.candidates.map (Prod.map (VarKey.rename ρ) id)
  sights : ∀ key, SameSights (s.observed key) (t.observed (key.rename ρ))

namespace CheckState.Renamed

variable {s t : CheckState}

theorem initial : Renamed ρ .initial .initial := ⟨rfl, fun _ => .nil⟩

theorem candidates?_eq (h : Renamed ρ s t) (hρ : ρ.Injective) (key : VarKey) :
    t.candidates? (key.rename ρ) = s.candidates? key := by
  rw [candidates?, candidates?, h.candidates, lookup_map_rename hρ]

theorem candidatesAfter_eq (h : Renamed ρ s t) (hρ : ρ.Injective) (key : VarKey)
    (ranked : List NamedType) :
    t.candidatesAfter (key.rename ρ) ranked = s.candidatesAfter key ranked := by
  rw [candidatesAfter, candidatesAfter, h.candidates?_eq hρ]

/-- The variables are bound to the same types, under their other names. -/
theorem bindings_eq (h : Renamed ρ s t) : t.bindings = s.bindings.map (Prod.map ρ id) := by
  rw [bindings, bindings, h.candidates, List.filterMap_map, List.map_filterMap]
  refine List.filterMap_congr fun entry _ => ?_
  obtain ⟨key | key, _ | _⟩ := entry <;> rfl

/-- A value met in both checks keeps the states equal up to the names. -/
theorem observe (h : Renamed ρ s t) (hρ : ρ.Injective) (key : VarKey) (position : Nat) (v : Value)
    (place place' : SpanKey) :
    Renamed ρ (s.observe key ⟨position, v, place⟩)
      (t.observe (key.rename ρ) ⟨position, v, place'⟩) := by
  refine ⟨h.candidates, fun k => ?_⟩
  rw [observed_observe_ite, observed_observe_ite]
  simp only [VarKey.rename_inj hρ]
  split
  · exact List.rel_append (h.sights key) (.cons ⟨rfl, rfl⟩ .nil)
  · exact h.sights k

/-- Narrowing the candidates in both checks keeps the states equal up to the names. -/
theorem narrow (h : Renamed ρ s t) (hρ : ρ.Injective) (key : VarKey) (types : List NamedType) :
    Renamed ρ (s.narrow key types) (t.narrow (key.rename ρ) types) := by
  refine ⟨?_, h.sights⟩
  show setKey (key.rename ρ) types t.candidates =
    (setKey key types s.candidates).map (Prod.map (VarKey.rename ρ) id)
  rw [map_rename_setKey hρ, h.candidates]

end CheckState.Renamed

/-! ## Loops -/

section Loops

variable {α : Type} {P : CheckState → CheckState → Prop} {R : Violation → Violation → Prop}
variable {s t : CheckState}

/-- Two checks of all values of a container go in tandem if their steps do. -/
theorem tandem_forEach {step step' : CheckState → Value → Checking CheckState}
    (hstep : ∀ s t x, P s t → Tandem (step s x) (step' t x) P R) (container : Value) (hst : P s t) :
    Tandem (forEach container step s) (forEach container step' t) P R := by
  refine tandem_run_bind_self _ fun items => ?_
  refine tandem_foldlM (S := Eq) ?_ (List.forall₂_refl items) hst
  rintro s t x _ hst rfl
  exact hstep s t x hst

/-- Two checks of all parts of a value go in tandem if their steps do. -/
theorem tandem_forPlaces {step step' : Nat → CheckState → α → Checking CheckState}
    (hstep : ∀ i s t a, P s t → Tandem (step i s a) (step' i t a) P R) (i : Nat) (as : List α)
    (hst : P s t) : Tandem (forPlaces step i as s) (forPlaces step' i as t) P R := by
  induction as generalizing i s t with
  | nil => exact tandem_pure hst
  | cons a as ih => exact tandem_bind (hstep i s t a hst) fun s t hst => ih (i + 1) hst

end Loops

/-! ## Values -/

section Walk

variable {call : Apply} {vocabulary : Vocabulary} {σ τ : Signature} {position : Nat}
variable {place place' : SpanKey} {s t : CheckState}

/-- The two checks unify a variable with a value in tandem. -/
theorem tandem_unify (hρ : ρ.Injective) (fuel : Nat) (key : VarKey) (named : Nat) (v : Value)
    (hst : s.Renamed ρ t) :
    Tandem (unify call vocabulary σ position place fuel key named v s)
      (unify call vocabulary τ position place' fuel (key.rename ρ) named v t)
      (CheckState.Renamed ρ) (Violation.Renamed ρ) := by
  induction fuel generalizing key named v s t with
  | zero => exact tandem_fail _
  | succ fuel ih =>
    rw [unify, unify]
    refine tandem_run_bind_self _ fun described => ?_
    dsimp only
    have hobserve := hst.observe hρ key position v place place'
    rw [hst.candidatesAfter_eq hρ]
    split
    · exact tandem_nothingInCommon (hobserve.sights key)
    have hnarrow := hobserve.narrow hρ key (s.candidatesAfter key (rank described))
    split
    · exact tandem_pure hnarrow
    refine tandem_run_bind_self _ fun params => ?_
    refine tandem_forPlaces (fun i s t items hst => ?_) 0 _ hnarrow
    exact tandem_forEach (fun s t item hst => ih (.inner key i) 0 item hst) items hst

/-- The two checks test the constraints of a variable on a value in tandem. -/
theorem tandem_satisfyAll (hστ : Signature.Renames ρ σ τ) (name : String) (v : Value)
    (classes : List String) (hclasses : ∀ c ∈ classes, ⟨c, name⟩ ∈ σ.constraints)
    (hst : s.Renamed ρ t) :
    Tandem (satisfyAll call vocabulary σ name v position place classes s)
      (satisfyAll call vocabulary τ (ρ name) v position place' classes t)
      (CheckState.Renamed ρ) (Violation.Renamed ρ) := by
  induction classes with
  | nil => exact tandem_pure hst
  | cons c cs ih =>
    rw [List.forall_mem_cons] at hclasses
    rw [satisfyAll, satisfyAll]
    refine tandem_run_bind_self _ fun b => ?_
    split
    · exact ih hclasses.2
    · exact tandem_unsatisfied hστ v hclasses.1

/-- The two checks test the constraints on a representative in tandem. -/
theorem tandem_representAll (hστ : Signature.Renames ρ σ τ) (name : String) (rep : Value)
    (classes : List String) (hclasses : ∀ c ∈ classes, ⟨c, name⟩ ∈ σ.constraints)
    (hst : s.Renamed ρ t) :
    Tandem (representAll call vocabulary σ name rep position place classes s)
      (representAll call vocabulary τ (ρ name) rep position place' classes t)
      (CheckState.Renamed ρ) (Violation.Renamed ρ) := by
  induction classes with
  | nil => exact tandem_pure hst
  | cons c cs ih =>
    rw [List.forall_mem_cons] at hclasses
    rw [representAll, representAll]
    refine tandem_except_bind_self _ fun b => ?_
    split
    · exact ih hclasses.2
    · exact tandem_unsatisfied hστ rep hclasses.1

/-- The two checks read a representative in tandem. -/
theorem tandem_checkRep (hστ : Signature.Renames ρ σ τ) (rep : Value) (args : List TypeExpr)
    (hst : s.Renamed ρ t) :
    Tandem (checkRep call vocabulary σ rep position place args s)
      (checkRep call vocabulary τ rep position place' (TypeExpr.renameAll ρ args) t)
      (CheckState.Renamed ρ) (Violation.Renamed ρ) := by
  induction args generalizing s t with
  | nil =>
    rw [TypeExpr.renameAll, checkRep, checkRep]
    exact tandem_pure hst
  | cons e args ih =>
    cases e with
    | var name targs =>
      rw [TypeExpr.renameAll, TypeExpr.rename, checkRep, checkRep, hστ.constraintsOn]
      exact tandem_bind (tandem_representAll hστ name rep _ (fun c hc => mem_constraints hc) hst)
        fun s t hst => ih hst
    | _ =>
      rw [TypeExpr.renameAll, TypeExpr.rename, checkRep, checkRep]
      · exact ih hst
      all_goals simp

mutual

/-- A value is checked against an expression as it is against the expression with other names. -/
theorem tandem_checkValue (hστ : Signature.Renames ρ σ τ) : ∀ (e : TypeExpr)
    (place place' : SpanKey) (v : Value) {s t : CheckState}, s.Renamed ρ t →
      Tandem (checkValue call vocabulary σ position e place v s)
        (checkValue call vocabulary τ position (e.rename ρ) place' v t)
        (CheckState.Renamed ρ) (Violation.Renamed ρ)
  | .var name args, place, place', v, s, t, hst => by
    rw [TypeExpr.rename, checkValue, checkValue, hστ.constraintsOn, TypeExpr.length_renameAll,
      TypeExpr.isEmpty_renameAll]
    refine tandem_bind (tandem_satisfyAll hστ name v _ (fun c hc => mem_constraints hc) hst)
      fun s t hst => ?_
    refine tandem_bind (tandem_unify hστ.injective v.reach (.named name) args.length v hst)
      fun s t hst => ?_
    split
    · exact tandem_pure hst
    have hcandidates := hst.candidates?_eq hστ.injective (.named name)
    rw [VarKey.rename] at hcandidates
    rw [hcandidates]
    split
    · exact tandem_pure hst
    refine tandem_run_bind_self _ fun params => ?_
    exact tandem_checkContents hστ place place' 0 args _ hst
  | .fn params result, place, place', v, s, t, hst => by
    rw [TypeExpr.rename, checkValue, checkValue]
    split
    · exact tandem_pure hst
    · exact tandem_invalidValue _ _ (fun hid => by
        rw [hid, TypeExpr.renameAll_id, TypeExpr.rename_id]) v
  | .concrete u args, place, place', v, s, t, hst => by
    rw [TypeExpr.rename, checkValue, checkValue, TypeExpr.length_renameAll,
      TypeExpr.isEmpty_renameAll]
    refine tandem_run_bind_self _ fun b => ?_
    split
    · exact tandem_invalidValue _ _ (fun hid => by rw [hid, TypeExpr.renameAll_id]) v
    split
    · exact tandem_checkRep hστ v args hst
    split
    · exact tandem_pure hst
    split
    · exact tandem_pure hst
    refine tandem_run_bind_self _ fun params => ?_
    exact tandem_checkContents hστ place place' 0 args _ hst
  | .foreign, place, place', v, s, t, hst => by
    rw [TypeExpr.rename, checkValue, checkValue, hστ.name]
    exact tandem_fail _

/-- What a value holds for each parameter is checked against the arguments from a place on. -/
theorem tandem_checkContents (hστ : Signature.Renames ρ σ τ) (place place' : SpanKey)
    (i : Nat) : ∀ (args : List TypeExpr) (params : List Value) {s t : CheckState}, s.Renamed ρ t →
      Tandem (checkContents call vocabulary σ position place i args params s)
        (checkContents call vocabulary τ position place' i (TypeExpr.renameAll ρ args) params t)
        (CheckState.Renamed ρ) (Violation.Renamed ρ)
  | arg :: args, items :: params, s, t, hst => by
    rw [TypeExpr.renameAll, checkContents, checkContents]
    refine tandem_bind (tandem_forEach (fun s t x hst => ?_) items hst) fun s t hst => ?_
    · exact tandem_checkValue hστ arg (place ++ [i]) (place' ++ [i]) x hst
    · exact tandem_checkContents hστ place place' (i + 1) args params hst
  | [], _, s, t, hst => by
    rw [TypeExpr.renameAll, checkContents, checkContents]
    · exact tandem_pure hst
    all_goals simp
  | _ :: _, [], s, t, hst => by
    rw [TypeExpr.renameAll, checkContents, checkContents]
    · exact tandem_pure hst
    all_goals simp

end

/-! ## Arguments -/

/-- Arguments are checked from a place on as they are against slots whose types have other names. A
violation is noted in the same words. -/
theorem tandem_checkArguments (hστ : Signature.Renames ρ σ τ) (index : Nat)
    (args : List Value) (htypes : ∀ i, i < args.length →
      τ.typeAt (index + i) = (σ.typeAt (index + i)).rename ρ) (hst : s.Renamed ρ t) :
    Tandem (ExceptT.mk (checkArguments call vocabulary σ index args s))
      (ExceptT.mk (checkArguments call vocabulary τ index args t))
      (CheckState.Renamed ρ) (Violation.Renamed ρ) := by
  induction args generalizing index s t with
  | nil => exact tandem_pure hst
  | cons v args ih =>
    have hvalue : Tandem (checkValue call vocabulary σ (index + 1) (σ.typeAt index)
        [σ.slotFor index] v s) (checkValue call vocabulary τ (index + 1) (τ.typeAt index)
          [τ.slotFor index] v t) (CheckState.Renamed ρ) (Violation.Renamed ρ) := by
      rw [show τ.typeAt index = (σ.typeAt index).rename ρ from htypes 0 (by simp)]
      exact tandem_checkValue hστ _ _ _ v hst
    refine Run.tandem_bind hvalue fun e d hed => ?_
    cases e with
    | ok s' =>
      cases d with
      | ok t' =>
        refine ih (index + 1) (fun i hi => ?_) hed
        rw [Nat.add_assoc, Nat.add_comm 1]
        exact htypes (i + 1) (Nat.succ_lt_succ hi)
      | error u => exact hed.elim
    | error v =>
      cases d with
      | ok t' => exact hed.elim
      | error u =>
        dsimp only
        rw [hστ.name, hed.kind]
        exact Run.tandem_bind_self _ fun _ => Run.tandem_pure hed

end Walk

end CheckedCalls
