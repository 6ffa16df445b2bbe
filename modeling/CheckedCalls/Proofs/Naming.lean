import CheckedCalls.Evaluate
import CheckedCalls.Proofs.Encounters
import CheckedCalls.Proofs.Renaming
import Mathlib.SetTheory.Cardinal.Arithmetic

/-!
# Names of variables

What the variables of a signature are called does not matter to a check, as long as no two of them
become one (`check_rename`). Names that are told apart within the signature can be told apart
everywhere, by a permutation of all names (`exists_equiv_of_injOn`), and for that the two checks go
side by side. No name from outside the signature is bound, since it could be exchanged for another
one (`mem_typeVariables_of_passed`). What the values of a variable hold is unified under keys of its
own, and that touches no other key (`ends_unify_agreesOutside`).
-/

namespace CheckedCalls

open CheckState Checking Check

variable {ρ σ : String → String}

/-! ## Signatures with other names -/

namespace TypeExpr

mutual

/-- Names that do not occur in an expression do not matter to it. -/
theorem rename_congr : ∀ e : TypeExpr, (∀ n ∈ e.variableNames, ρ n = σ n) →
    e.rename ρ = e.rename σ
  | .var name args, h => by
    rw [variableNames, List.forall_mem_cons] at h
    rw [rename, rename, h.1, renameAll_congr args h.2]
  | .concrete t args, h => by
    rw [rename, rename, renameAll_congr args h]
  | .fn params result, h => by
    rw [variableNames, List.forall_mem_append] at h
    rw [rename, rename, renameAll_congr params h.1, rename_congr result h.2]
  | .foreign, _ => rfl

/-- Renamings that agree on the names of a list of expressions rename it alike. -/
theorem renameAll_congr : ∀ es : List TypeExpr, (∀ n ∈ namesOfAll es, ρ n = σ n) →
    renameAll ρ es = renameAll σ es
  | [], _ => rfl
  | e :: es, h => by
    rw [namesOfAll, List.forall_mem_append] at h
    rw [renameAll, renameAll, rename_congr e h.1, renameAll_congr es h.2]

end

end TypeExpr

/-- The slot with other names for the variables of its type. -/
def Slot.rename (ρ : String → String) (slot : Slot) : Slot := ⟨slot.type.rename ρ, slot.variadic⟩

namespace Signature

/-- The names of the type variables: those in the types, and those that are constrained. -/
def typeVariables (s : Signature) : List String :=
  s.variableNames ++ s.constraints.map Constraint.variableName

/-- The signature with other names for its variables. -/
def rename (ρ : String → String) (s : Signature) : Signature :=
  ⟨s.name, s.constraints.map (Constraint.rename ρ), s.slots.map (Slot.rename ρ),
    s.returns.rename ρ⟩

/-- Names that do not occur in a signature do not matter to it. -/
theorem rename_congr {s : Signature} (h : ∀ n ∈ s.typeVariables, ρ n = σ n) :
    s.rename ρ = s.rename σ := by
  rw [typeVariables, variableNames, List.forall_mem_append, List.forall_mem_append] at h
  obtain ⟨⟨hslots, hreturns⟩, hconstraints⟩ := h
  have hconstraint : ∀ c ∈ s.constraints, c.rename ρ = c.rename σ := by
    intro c hc
    rw [Constraint.rename, Constraint.rename, hconstraints _ (List.mem_map_of_mem hc)]
  have hslot : ∀ slot ∈ s.slots, slot.rename ρ = slot.rename σ := by
    intro slot hmem
    rw [Slot.rename, Slot.rename, TypeExpr.rename_congr slot.type fun n hn =>
      hslots n (List.mem_flatMap.2 ⟨slot, hmem, hn⟩)]
  rw [rename, rename, List.map_congr_left hconstraint, List.map_congr_left hslot,
    TypeExpr.rename_congr s.returns hreturns]

/-- Renaming every variable to itself changes no signature. -/
theorem rename_id (s : Signature) : s.rename id = s := by
  have hslot : Slot.rename id = id := funext fun slot => by
    rw [Slot.rename, TypeExpr.rename_id, id]
  rw [rename, show Constraint.rename id = id from rfl, hslot, List.map_id, List.map_id,
    TypeExpr.rename_id]

variable (ρ) (s : Signature)

theorem isVariadic_rename : (s.rename ρ).isVariadic = s.isVariadic := by
  rw [isVariadic, isVariadic, rename, List.getLast?_map]
  cases s.slots.getLast? <;> rfl

theorem minArity_rename : (s.rename ρ).minArity = s.minArity := by
  rw [minArity, minArity, isVariadic_rename, rename, List.length_map]

theorem accepts_rename (count : Nat) : (s.rename ρ).accepts count = s.accepts count := by
  rw [accepts, accepts, isVariadic_rename, minArity_rename]

theorem slotFor_rename (index : Nat) : (s.rename ρ).slotFor index = s.slotFor index := by
  rw [slotFor, slotFor, isVariadic_rename, rename, List.length_map]

/-- An argument is checked against the same type, with other names. -/
theorem typeAt_rename (index : Nat) : (s.rename ρ).typeAt index = (s.typeAt index).rename ρ := by
  rw [typeAt, typeAt, slotFor_rename, rename, List.getElem?_map]
  cases s.slots[s.slotFor index]? <;> rfl

theorem renames_rename (hρ : ρ.Injective) : Renames ρ s (s.rename ρ) := ⟨hρ, rfl, rfl⟩

end Signature

/-! ## Results -/

/-- The same result but for the names of the variables: the types that they were bound to, or a
violation of the same kind, at the same positions, by the same numbered values with the same
types. -/
def CheckResult.IsRenamed (ρ : String → String) : CheckResult → CheckResult → Prop
  | .passed bindings, .passed bindings' => bindings' = bindings.map (Prod.map ρ id)
  | .violated v, .violated u => u.kind = v.kind ∧ u.positions = v.positions ∧ u.values = v.values
  | _, _ => False

/-- From each world the runs lead to worlds that differ in their logs only, and there both answer,
with answers that are related, or both fail for one cause. -/
def Run.TandemButForLog {α β : Type} (r : Run α) (q : Run β) (P : α → β → Prop) : Prop :=
  ∀ w, ∃ w₁ w₂, w₂ = { w₁ with log := w₂.log } ∧
    ((∃ a b, r.outcome w = (.ok a, w₁) ∧ q.outcome w = (.ok b, w₂) ∧ P a b) ∨
      ∃ c, r.outcome w = (.error c, w₁) ∧ q.outcome w = (.error c, w₂))

section Checks

variable {call : Apply} {vocabulary : Vocabulary} {s : Signature} {args : List Value}

/-- If different names stay different everywhere, the checks go side by side up to the end, where
the log names the variables that were bound. -/
theorem check_rename_of_injective (hρ : ρ.Injective) :
    Run.TandemButForLog (check call vocabulary s args) (check call vocabulary (s.rename ρ) args)
      (CheckResult.IsRenamed ρ) := by
  intro w
  rw [check, check, Signature.accepts_rename]
  split
  · exact ⟨w, w, rfl, .inl ⟨_, _, rfl, rfl, rfl, rfl, rfl⟩⟩
  have hall : Run.Tandem (checkArguments call vocabulary s 0 args .initial)
      (checkArguments call vocabulary (s.rename ρ) 0 args .initial)
      (Meet (CheckState.Renamed ρ) (Violation.Renamed ρ)) :=
    tandem_checkArguments (s.renames_rename ρ hρ) 0 args (fun i _ => s.typeAt_rename ρ _) .initial
  obtain ⟨w', ⟨e, d, hr, hq, hed⟩ | ⟨c, hr, hq⟩⟩ := hall w
  · rw [Run.outcome_bind, Run.outcome_bind, hr, hq]
    cases e with
    | ok st =>
      cases d with
      | ok st' =>
        dsimp only
        rw [CheckState.Renamed.bindings_eq hed, List.isEmpty_map]
        split
        · exact ⟨_, _, rfl, .inl ⟨_, _, rfl, rfl, rfl⟩⟩
        · exact ⟨_, _, rfl, .inl ⟨_, _, rfl, rfl, rfl⟩⟩
      | error u => exact hed.elim
    | error v =>
      cases d with
      | ok st' => exact hed.elim
      | error u =>
        exact ⟨w', w', rfl, .inl ⟨_, _, rfl, rfl, hed.kind.symm, hed.positions.symm,
          hed.values.symm⟩⟩
  · rw [Run.outcome_bind, Run.outcome_bind, hr, hq]
    exact ⟨w', w', rfl, .inr ⟨c, rfl, rfl⟩⟩

/-- Only variables of the signature are bound: another name could be exchanged for one that occurs
nowhere, and the check is the same. -/
theorem mem_typeVariables_of_passed {bindings : List (String × NamedType)} {w w' : World}
    (h : (check call vocabulary s args).outcome w = (.ok (.passed bindings), w')) :
    ∀ b ∈ bindings, b.1 ∈ s.typeVariables := by
  intro b hb
  by_contra hout
  obtain ⟨fresh, hfresh⟩ := Infinite.exists_notMem_finset (insert b.1 s.typeVariables.toFinset)
  rw [Finset.mem_insert, List.mem_toFinset, not_or] at hfresh
  have hfixed : ∀ n ∈ s.typeVariables, Equiv.swap b.1 fresh n = id n := by
    intro n hn
    exact Equiv.swap_apply_of_ne_of_ne (fun h => hout (h ▸ hn)) fun h => hfresh.2 (h ▸ hn)
  have hsame : s.rename (Equiv.swap b.1 fresh) = s :=
    (Signature.rename_congr hfixed).trans s.rename_id
  have hside : Run.TandemButForLog (check call vocabulary s args)
      (check call vocabulary (s.rename (Equiv.swap b.1 fresh)) args)
      (CheckResult.IsRenamed (Equiv.swap b.1 fresh)) :=
    check_rename_of_injective (Equiv.injective _)
  rw [hsame] at hside
  obtain ⟨w₁, w₂, -, ⟨r, q, hr, hq, hrq⟩ | ⟨c, hc, -⟩⟩ := hside w
  · cases h.symm.trans hr
    cases h.symm.trans hq
    have hmap : bindings.map (Prod.map (Equiv.swap b.1 fresh) id) = bindings.map id := by
      rw [List.map_id]
      exact hrq.symm
    have hname : Equiv.swap b.1 fresh b.1 = b.1 :=
      congrArg Prod.fst (List.map_inj_left.1 hmap b hb)
    rw [Equiv.swap_apply_left] at hname
    exact hfresh.1 hname
  · cases h.symm.trans hc

/-- Names that are told apart within a list can be told apart everywhere. -/
theorem exists_equiv_of_injOn {names : List String} (h : Set.InjOn ρ {n | n ∈ names}) :
    ∃ τ : String ≃ String, ∀ n ∈ names, τ n = ρ n := by
  have hfew : Cardinal.mk {n | n ∈ names} < Cardinal.mk String :=
    (List.finite_toSet names).lt_aleph0.trans_le (Cardinal.aleph0_le_mk String)
  obtain ⟨τ, hτ⟩ := Cardinal.extend_function_of_lt ⟨_, h.injective⟩ hfew ⟨Equiv.refl String⟩
  exact ⟨τ, fun n hn => hτ ⟨n, hn⟩⟩

end Checks

/-! ## What the values of a variable hold -/

/-- The key is the given one, or belongs to what its values hold, at any depth. -/
def VarKey.IsWithin (key : VarKey) : VarKey → Prop
  | .named name => .named name = key
  | .inner outer i => .inner outer i = key ∨ key.IsWithin outer

namespace VarKey

variable {key k : VarKey}

/-- A key lies within itself. -/
theorem isWithin_self (key : VarKey) : key.IsWithin key := by
  cases key with
  | named => rfl
  | inner => exact .inl rfl

/-- What lies within an inner key lies within the key it is inner to. -/
theorem IsWithin.of_inner {i : Nat} (h : (key.inner i).IsWithin k) : key.IsWithin k := by
  induction k with
  | named name => cases h
  | inner outer j ih =>
    rcases h with h | h
    · cases h
      exact .inr (isWithin_self _)
    · exact .inr (ih h)

/-- No declared variable is among what the values of a variable hold. -/
theorem not_isWithin_inner (name : String) (i : Nat) : ¬ (key.inner i).IsWithin (.named name) := by
  intro h
  cases h

end VarKey

namespace CheckState

/-- The states know the same of all keys that are not within the given one. -/
def AgreesOutside (key : VarKey) (s s' : CheckState) : Prop :=
  ∀ k, ¬ key.IsWithin k → s'.candidates? k = s.candidates? k ∧ s'.observed k = s.observed k

/-- States that agree outside a key, one after the other, agree outside it. -/
theorem AgreesOutside.trans {key : VarKey} {s s₁ s₂ : CheckState} (h : s.AgreesOutside key s₁)
    (h' : s₁.AgreesOutside key s₂) : s.AgreesOutside key s₂ := by
  intro k hk
  exact ⟨(h' k hk).1.trans (h k hk).1, (h' k hk).2.trans (h k hk).2⟩

/-- What belongs to a parameter belongs to the key. -/
theorem AgreesOutside.of_inner {key : VarKey} {i : Nat} {s s' : CheckState}
    (h : s.AgreesOutside (key.inner i) s') : s.AgreesOutside key s' :=
  fun k hk => h k fun hin => hk hin.of_inner

/-- Recording a value for a key changes nothing outside the key. -/
theorem agreesOutside_observe_narrow (s : CheckState) (key : VarKey) (o : Observation)
    (types : List NamedType) : s.AgreesOutside key ((s.observe key o).narrow key types) := by
  intro k hk
  have hne : k ≠ key := by
    rintro rfl
    exact hk k.isWithin_self
  constructor
  · show (setKey key types s.candidates).lookup k = _
    rw [lookup_setKey, if_neg hne]
    rfl
  · show (s.observe key o).observed k = _
    rw [observed_observe_ite, if_neg hne]

end CheckState

/-- Unifying a value under a key touches no key but those within it. -/
theorem ends_unify_agreesOutside (call : Apply) (vocabulary : Vocabulary) (signature : Signature)
    (position : Nat) (place : SpanKey) (fuel : Nat) (key : VarKey) (named : Nat) (v : Value)
    (s : CheckState) :
    Ends (unify call vocabulary signature position place fuel key named v s)
      (s.AgreesOutside key) fun _ => True := by
  induction fuel generalizing key named v s with
  | zero => exact ends_fail _
  | succ fuel ih =>
    rw [unify]
    refine ends_run_bind (Run.ensures_of_forall fun _ => trivial) fun described _ => ?_
    dsimp only
    split
    · exact ends_nothingInCommon (fun _ => trivial) _
    have hnarrow := s.agreesOutside_observe_narrow key ⟨position, v, place⟩
      (s.candidatesAfter key (rank described))
    split
    · exact ends_pure hnarrow
    refine ends_run_bind (Run.ensures_of_forall fun _ => trivial) fun params _ => ?_
    refine ends_forPlaces_of 0 _ (fun j x s₁ _ hs₁ => ?_) hnarrow
    exact (ih (key.inner (0 + j)) 0 x s₁).mono (fun _ h => hs₁.trans h.of_inner) fun _ h => h

/-! ## Checks -/

/-- The names of variables do not matter. The variables of the signature get other names, and no two
of them become one. Then from each world the two checks pass, with the types bound to the variables
under their other names, or they end in violations of the same kind, at the same positions, by the
same numbered values with the same types, or they fail for one cause; but for the names in their
logs they leave the same world. And what is unified for the contents of a container leaves what is
known of the variables that have names as it is. -/
theorem check_rename (call : Apply) (vocabulary : Vocabulary) (s : Signature) (args : List Value)
    (hρ : Set.InjOn ρ {n | n ∈ s.typeVariables}) :
    Run.TandemButForLog (check call vocabulary s args) (check call vocabulary (s.rename ρ) args)
      (CheckResult.IsRenamed ρ) ∧
    ∀ position place fuel outer i v st,
      Ends (unify call vocabulary s position place fuel (.inner outer i) 0 v st)
        (fun st' => ∀ name, st'.candidates? (.named name) = st.candidates? (.named name) ∧
          st'.observed (.named name) = st.observed (.named name)) fun _ => True := by
  refine ⟨fun w => ?_, fun position place fuel outer i v st => ?_⟩
  · obtain ⟨τ, hτ⟩ := exists_equiv_of_injOn hρ
    have hside : Run.TandemButForLog (check call vocabulary s args)
        (check call vocabulary (s.rename τ) args) (CheckResult.IsRenamed τ) :=
      check_rename_of_injective τ.injective
    rw [Signature.rename_congr hτ] at hside
    obtain ⟨w₁, w₂, hw, ⟨r, q, hr, hq, hrq⟩ | hfails⟩ := hside w
    · refine ⟨w₁, w₂, hw, .inl ⟨r, q, hr, hq, ?_⟩⟩
      cases r with
      | violated v =>
        cases q with
        | passed bindings => exact hrq.elim
        | violated u => exact hrq
      | passed bindings =>
        cases q with
        | violated u => exact hrq.elim
        | passed bindings' =>
          -- the bound names are among those for which both namings are the same
          refine Eq.trans hrq (List.map_congr_left fun b hb => ?_)
          rw [Prod.map, Prod.map, hτ _ (mem_typeVariables_of_passed hr b hb)]
    · exact ⟨w₁, w₂, hw, .inr hfails⟩
  · exact (ends_unify_agreesOutside call vocabulary s position place fuel _ 0 v st).mono
      (fun _ h name => h _ (VarKey.not_isWithin_inner name i)) fun _ h => h

/-- The signature of a function of a value and of an array, of values of another type. -/
def taggedArray : Signature :=
  ⟨"tag", [⟨"Ord", "a"⟩], [⟨.var "a" [], false⟩,
    ⟨.concrete StandardType.array.named [.var "b" []], false⟩],
    .concrete StandardType.boolean.named []⟩

/-- Exchanges two names, and does not tell apart any others. -/
def exchange (name : String) : String := if name = "a" then "b" else "a"

theorem check_rename_taggedArray : ∃ w₁ w₂,
    (check applyFunction .standard taggedArray [.str "x", .list [.bool true]]).outcome .initial =
      (.ok (.passed [("a", StandardType.string.named), ("b", StandardType.boolean.named)]), w₁) ∧
    (check applyFunction .standard (taggedArray.rename exchange)
        [.str "x", .list [.bool true]]).outcome .initial = (.ok (.passed
      [("b", StandardType.string.named), ("a", StandardType.boolean.named)]), w₂) := by
  have hpassed : ∃ w, (check applyFunction .standard taggedArray
      [.str "x", .list [.bool true]]).outcome .initial =
        (.ok (.passed [("a", StandardType.string.named), ("b", StandardType.boolean.named)]), w) :=
    ⟨_, rfl⟩
  obtain ⟨w, hpassed⟩ := hpassed
  have hdiffer : ∀ m ∈ taggedArray.typeVariables, ∀ n ∈ taggedArray.typeVariables,
      exchange m = exchange n → m = n := by decide
  have hnames : Set.InjOn exchange {n | n ∈ taggedArray.typeVariables} :=
    fun m hm n hn h => hdiffer m hm n hn h
  obtain ⟨w₁, w₂, -, ⟨r, q, hr, hq, hrq⟩ | ⟨c, hc, -⟩⟩ := (check_rename applyFunction .standard
    taggedArray [.str "x", .list [.bool true]] hnames).1 .initial
  · cases hpassed.symm.trans hr
    cases q with
    | passed bindings =>
      cases (show bindings = _ from hrq)
      exact ⟨_, w₂, hpassed, hq⟩
    | violated u => exact hrq.elim
  · cases hpassed.symm.trans hc

end CheckedCalls
