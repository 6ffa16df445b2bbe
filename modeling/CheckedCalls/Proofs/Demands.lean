import CheckedCalls.Proofs.Binding
import CheckedCalls.Proofs.Data
import CheckedCalls.Proofs.Membership

/-!
# What a check demands of data

Under the vocabulary of the library a check of data comes down to two things that do not depend on
its course: conditions on single values, and a list of values to be recorded under the keys of the
variables. `Settles` ties a step of a check to such a pair, and `passed_iff_demands` does so for
the whole check.
-/

namespace CheckedCalls

open CheckState Checking Check
open StandardType (standing)

/-! ## Settling -/

/-- The step passes exactly if the condition holds and the values can be recorded, and it leaves
the state in which they are. -/
def Settles (m : Checking CheckState) (F : Prop) (s : CheckState)
    (seen : List (VarKey × Observation)) : Prop :=
  Ends m (fun s' => F ∧ s.recordAll standing seen = some s')
    fun _ => F → s.recordAll standing seen = none

namespace Settles

variable {α : Type} {m : Checking CheckState} {f : CheckState → Checking CheckState}
variable {F G : Prop} {s : CheckState} {seen more : List (VarKey × Observation)}

theorem pure (hF : F) : Settles (Pure.pure s) F s [] := ends_pure ⟨hF, rfl⟩

theorem congr (hm : Settles m F s seen) (h : F ↔ G) (hseen : seen = more) :
    Settles m G s more := by
  rwa [propext h, hseen] at hm

theorem of_iff (hm : Settles m F s seen) (h : F ↔ G) : Settles m G s seen := hm.congr h rfl

/-- A step that can only end in a violation settles what does not hold. -/
theorem of_not (hF : ¬F) (hm : Ends m (fun _ => False) fun _ => True) : Settles m F s seen :=
  hm.mono (fun _ h => h.elim) fun _ _ h => absurd h hF

/-- Two checks in sequence settle both demands and meet the values of both in turn. -/
theorem bind (hm : Settles m F s seen)
    (hf : ∀ s', s.recordAll standing seen = some s' → Settles (f s') G s' more) :
    Settles (m >>= f) (F ∧ G) s (seen ++ more) := by
  refine ends_bind (hm.mono (fun _ h => h) fun _ h hFG => ?_) fun s' ⟨hF, hs'⟩ => ?_
  · rw [recordAll_append, h hFG.1]
    rfl
  · rw [recordAll_append, hs']
    exact (hf s' hs').mono (fun _ h => ⟨⟨hF, h.1⟩, h.2⟩) fun _ h hFG => h hFG.2

/-- A question in front of a step is settled if the step is, whatever is answered. -/
theorem answered_bind {r : Run α} {f : α → Checking CheckState}
    (hf : ∀ a, r.CanAnswer a → Settles (f a) F s seen) :
    Settles (liftM r >>= f) F s seen :=
  ends_run_bind r.ensures_canAnswer hf

/-- A steady question in front of a step is answered once and for all. -/
theorem run_bind {r : Run α} {f : α → Checking CheckState} (hr : r.Steady)
    (hf : ∀ a, r.result = .ok a → Settles (f a) F s seen) : Settles (liftM r >>= f) F s seen :=
  answered_bind fun a ⟨w, ha⟩ => hf a ((hr w).symm.trans ha)

/-- A fold of checks settles the demands of all its steps. -/
theorem foldlM {step : CheckState → α → Checking CheckState} {F : α → Prop}
    {seen : α → List (VarKey × Observation)} {as : List α} (hs : Faithful standing s)
    (hstep : ∀ a ∈ as, ∀ s, Faithful standing s → Settles (step s a) (F a) s (seen a)) :
    Settles (as.foldlM step s) (∀ a ∈ as, F a) s (as.flatMap seen) := by
  induction as generalizing s with
  | nil => exact .pure (by simp)
  | cons a as ih =>
    rw [List.foldlM_cons, List.flatMap_cons]
    have hfirst := hstep a List.mem_cons_self s hs
    refine (hfirst.bind fun s' hs' => ih (hs.recordAll hs') ?_).of_iff List.forall_mem_cons.symm
    intro b hb
    exact hstep b (List.mem_cons_of_mem _ hb)

/-- A check of every value of a container settles the demand on each. -/
theorem forEach {container : Value} {step : CheckState → Value → Checking CheckState}
    {F : Value → Prop} {seen : Value → List (VarKey × Observation)} {items : List Value}
    (hcontainer : container.elements = Pure.pure items) (hs : Faithful standing s)
    (hstep : ∀ a ∈ items, ∀ s, Faithful standing s → Settles (step s a) (F a) s (seen a)) :
    Settles (forEach container step s) (∀ a ∈ items, F a) s (items.flatMap seen) := by
  rw [Check.forEach, hcontainer]
  exact foldlM hs hstep

end Settles

/-! ## Unifying data -/

mutual

/-- The records that unifying a value with a key makes: the value, and below it what it holds. -/
def Value.observations (position : Nat) (spanKey : SpanKey) :
    VarKey → Value → List (VarKey × Observation)
  | key, .seq k t xs => (key, ⟨position, .seq k t xs, spanKey⟩) ::
      Value.observationsOfAll position spanKey (.inner key 0) xs
  | key, .just t v => (key, ⟨position, .just t v, spanKey⟩) ::
      Value.observations position spanKey (.inner key 0) v
  | key, .left t v => (key, ⟨position, .left t v, spanKey⟩) ::
      Value.observations position spanKey (.inner key 0) v
  | key, .right t v => (key, ⟨position, .right t v, spanKey⟩) ::
      Value.observations position spanKey (.inner key 1) v
  | key, v => [(key, ⟨position, v, spanKey⟩)]

/-- The records for several values of one key. -/
def Value.observationsOfAll (position : Nat) (spanKey : SpanKey) :
    VarKey → List Value → List (VarKey × Observation)
  | _, [] => []
  | key, x :: xs => Value.observations position spanKey key x ++
      Value.observationsOfAll position spanKey key xs

end

/-- The values of a list are met in their order. -/
theorem Value.observationsOfAll_eq (position : Nat) (spanKey : SpanKey) (key : VarKey)
    (xs : List Value) :
    observationsOfAll position spanKey key xs = xs.flatMap (observations position spanKey key) := by
  induction xs with
  | nil => rfl
  | cons x xs ih => rw [observationsOfAll, ih, List.flatMap_cons]

/-- The records for what a value holds for each parameter from place `i` on. -/
def observationsOfHeld (position : Nat) (spanKey : SpanKey) (key : VarKey) (i : Nat) :
    List (List Value) → List (VarKey × Observation)
  | [] => []
  | items :: rest => items.flatMap (Value.observations position spanKey (.inner key i)) ++
      observationsOfHeld position spanKey key (i + 1) rest

/-- The values held in two groups of parameters are met in turn. -/
theorem observationsOfHeld_append (position : Nat) (spanKey : SpanKey) (key : VarKey)
    (held more : List (List Value)) (i : Nat) :
    observationsOfHeld position spanKey key i (held ++ more) =
      observationsOfHeld position spanKey key i held ++
        observationsOfHeld position spanKey key (i + held.length) more := by
  induction held generalizing i with
  | nil => rfl
  | cons items held ih =>
    rw [List.cons_append, observationsOfHeld, observationsOfHeld, ih, List.append_assoc,
      List.length_cons, Nat.add_right_comm, Nat.add_assoc]

/-- The records for a value are its own and those for what it holds. -/
theorem Value.observations_eq (position : Nat) (spanKey : SpanKey) (key : VarKey) (v : Value) :
    v.observations position spanKey key =
      (key, ⟨position, v, spanKey⟩) :: observationsOfHeld position spanKey key 0 v.held := by
  cases v <;> simp [observations, observationsOfHeld, held, observationsOfAll_eq]

/-! ## Extractions -/

section Candidates

variable {ts : List StandardType} {u v : Value}

/-- A candidate that a native value leaves shows what the value holds only if the value has the
shape of the candidate. -/
theorem shape_of_candidate {c : NamedType} (hu : c ∈ u.types ts)
    (hc : (v.types ts).contains c = true) (hv : v.isNative = true) {e : Extraction}
    (he : c.extraction = some e) : ∃ t, v.shape? = some t ∧ t.extraction = some e := by
  obtain ⟨c', hc', hsame⟩ := List.contains_iff_exists_mem_beq.1 hc
  rcases Value.mem_types hu with ⟨a, -, -, rfl⟩ | ⟨-, rfl⟩
  · have ha : a.extraction.isSome = true := Option.isSome_iff_exists.2 ⟨e, he⟩
    rcases Value.mem_types hc' with ⟨b, -, hb, rfl⟩ | ⟨-, rfl⟩
    · cases StandardType.named_beq_named.1 hsame
      exact ⟨a, StandardType.shape_of_has ha hv hb, he⟩
    · have harity := (StandardType.named_beq_nominal.1 hsame).2.1
      cases a with
      | array | maybe | either => cases harity
      | _ => cases ha
  · cases he

theorem exists_of_extractor? {types : List NamedType} {named : Nat} {e : Extraction}
    (h : extractor? types named = some e) : ∃ c ∈ types, c.extraction = some e := by
  obtain ⟨c, hc, he⟩ := Option.bind_eq_some_iff.1 h
  exact ⟨c, List.mem_of_find?_eq_some hc, he⟩

/-- The types left for a key show what a native value holds, which was seen for the key, only if
they have its shape. -/
theorem CheckState.Faithful.shape_of_seen {s : CheckState} {key : VarKey} {cs : List NamedType}
    {named : Nat} {e : Extraction} (hs : s.Faithful ts) (hcs : s.candidates? key = some cs)
    (hv : v.isNative = true) (hseen : ∃ o ∈ s.observed key, o.value = v)
    (he : extractor? cs named = some e) : ∃ t, v.shape? = some t ∧ t.extraction = some e := by
  obtain ⟨c, hmem, hce⟩ := exists_of_extractor? he
  obtain ⟨u, hu⟩ := hs.described key cs hcs
  obtain ⟨o, ho, rfl⟩ := hseen
  have hcommon : (o.value.types ts).contains c = true :=
    (hs.common key cs hcs c).1 (List.contains_iff_exists_mem_beq.2 ⟨c, hmem, BEq.rfl⟩) o ho
  exact shape_of_candidate (hu hmem) hcommon hv hce

end Candidates

/-- A candidate that a value of a shape leaves is the type of the shape. -/
theorem eq_named_of_shape {c : NamedType} {u v : Value} {t : StandardType}
    (hu : c ∈ u.types standing) (hv : v.shape? = some t)
    (hcommon : (v.types standing).contains c = true) : c = t.named := by
  rw [Value.types_of_shape hv, List.contains_iff_exists_mem_beq] at hcommon
  obtain ⟨t', ht', hsame⟩ := hcommon
  cases List.mem_singleton.1 ht'
  rcases Value.mem_types hu with ⟨a, -, -, rfl⟩ | ⟨-, rfl⟩
  · rw [StandardType.named_beq_named.1 hsame]
  · obtain ⟨-, harity, -⟩ := StandardType.named_beq_nominal.1 (BEq.symm hsame)
    cases v <;> cases hv <;> cases harity

theorem shape_cases {v : Value} {t : StandardType} (h : v.shape? = some t) :
    t = .array ∨ t = .maybe ∨ t = .either := by
  cases v <;> cases h <;> simp

/-- What a value of a shape holds is found by the extraction of the shape. -/
theorem run_extraction_of_shape (call : Apply) {v : Value} {t : StandardType} {e : Extraction}
    (hv : v.shape? = some t) (he : t.extraction = some e) :
    e.run call v = pure (v.held.map Value.tuple) := by
  cases v <;> cases hv <;> cases he <;> rfl

theorem held_of_no_shape {v : Value} (h : v.shape? = none) : v.held = [] := by
  cases v <;> first | rfl | cases h

theorem length_held {u : StandardType} {v : Value} (h : v.shape? = some u) :
    (v.held.length : Int) = u.arity := by
  cases v <;> cases h <;> rfl

/-- What a value shows to a variable with some arguments: what it holds, if there are as many
parameters. -/
def Value.heldFor (named : Nat) (v : Value) : List (List Value) :=
  if named ≤ v.held.length then v.held else []

/-- What a native value shows to a variable is native. -/
theorem Value.isNative_of_mem_heldFor {named : Nat} {v x : Value} {items : List Value}
    (hv : v.isNative = true) (hitems : items ∈ v.heldFor named) (hx : x ∈ items) :
    x.isNative = true := by
  rw [heldFor] at hitems
  split at hitems
  · exact isNative_of_holds hv ⟨items, hitems, hx⟩
  · cases hitems

theorem Value.heldFor_zero (v : Value) : v.heldFor 0 = v.held := if_pos (Nat.zero_le _)

theorem unnamed_zero {α : Type} (params : List α) : unnamed 0 params = params := by
  simp [unnamed, List.take_of_length_le]

/-- The types left for a key show what a native value holds, which was seen for the key, just as its
own shape does. -/
theorem CheckState.Faithful.extractor?_of_seen {s : CheckState} {key : VarKey}
    {cs : List NamedType} {v : Value} (hs : s.Faithful standing) (hcs : s.candidates? key = some cs)
    (hseen : ∃ o ∈ s.observed key, o.value = v) (hv : v.isNative = true) (named : Nat) :
    extractor? cs named =
      v.shape?.bind fun t => if (named : Int) ≤ t.arity then t.extraction else none := by
  rcases hshape : v.shape? with _ | t
  · rcases he : extractor? cs named with _ | e
    · rfl
    · obtain ⟨t, ht, -⟩ := hs.shape_of_seen hcs hv hseen he
      cases hshape.symm.trans ht
  -- a value of a shape has one type, which is then the only candidate
  · obtain ⟨u, hu⟩ := hs.described key cs hcs
    obtain ⟨o, ho, rfl⟩ := hseen
    have hall : ∀ c ∈ cs, c = t.named := fun c hc =>
      eq_named_of_shape (hu hc) hshape
        ((hs.common key cs hcs c).1 (List.contains_iff_exists_mem_beq.2 ⟨c, hc, BEq.rfl⟩) o ho)
    obtain ⟨c, cs, rfl⟩ := List.exists_cons_of_ne_nil (hs.bound key cs hcs)
    obtain ⟨e, he⟩ : ∃ e, t.extraction = some e := by
      rcases shape_cases hshape with rfl | rfl | rfl <;> exact ⟨_, rfl⟩
    have hextraction : t.named.extraction = some e := he
    rw [Option.bind_some, extractor?]
    by_cases hnamed : (named : Int) ≤ t.arity
    · have harity : (named : Int) ≤ t.named.arity := hnamed
      rw [hall c List.mem_cons_self, List.find?_cons_of_pos (by simp [hextraction, harity]),
        if_pos hnamed]
      rfl
    · have harity : ¬(named : Int) ≤ t.named.arity := hnamed
      rw [List.find?_eq_none.2, if_neg hnamed]
      · rfl
      · intro c hc
        rw [hall c hc]
        simp [harity]

/-! ## Unifying -/

section Unify

variable {call : Apply} {registry : Registry} {signature : Signature} {s : CheckState}

/-- What the types left for a key extract from a native value, which was seen for the key, is what
the value shows. -/
theorem settles_extractor {key : VarKey} {cs : List NamedType} {v : Value} {named : Nat}
    {f : List Value → Checking CheckState} {F : Prop} {seen : List (VarKey × Observation)}
    (hs : Faithful standing s) (hcs : s.candidates? key = some cs)
    (hseen : ∃ o ∈ s.observed key, o.value = v) (hv : v.isNative = true)
    (hnil : f [] = pure s) (hf : Settles (f ((v.heldFor named).map Value.tuple)) F s seen) :
    Settles (match extractor? cs named with
      | none => return s
      | some e => do
        let params ← e.run call v
        f params) F s seen := by
  rw [hs.extractor?_of_seen hcs hseen hv named]
  rcases hshape : v.shape? with _ | t
  · rwa [Value.heldFor, held_of_no_shape hshape, ite_self, List.map_nil, hnil] at hf
  have hlength := length_held hshape
  rw [Option.bind_some]
  by_cases hnamed : (named : Int) ≤ t.arity
  · obtain ⟨e, he⟩ : ∃ e, t.extraction = some e := by
      rcases shape_cases hshape with rfl | rfl | rfl <;> exact ⟨_, rfl⟩
    rw [Value.heldFor, if_pos (by omega)] at hf
    simp only [if_pos hnamed, he, run_extraction_of_shape call hshape he]
    refine .run_bind (.pure _) fun params hparams => ?_
    cases hparams
    exact hf
  · rw [Value.heldFor, if_neg (by omega), List.map_nil, hnil] at hf
    rwa [if_neg hnamed]

/-- What stands in the places of a container is unified place by place. -/
theorem settles_forPlaces {position : Nat} {spanKey : SpanKey} {key : VarKey}
    {step : Nat → CheckState → Value → Checking CheckState} {held : List (List Value)}
    (hs : Faithful standing s)
    (hstep : ∀ i s, Faithful standing s → ∀ items ∈ held, ∀ x ∈ items,
      Settles (step i s x) True s (x.observations position spanKey (.inner key i))) (i : Nat) :
    Settles (forPlaces (fun i s items => forEach items (step i) s) i (held.map Value.tuple) s) True
      s (observationsOfHeld position spanKey key i held) := by
  induction held generalizing i s with
  | nil => exact .pure trivial
  | cons items held ih =>
    have hitems : Settles (forEach (.tuple items) (step i) s) (∀ x ∈ items, True) s
        (items.flatMap fun x => x.observations position spanKey (.inner key i)) :=
      Settles.forEach rfl hs fun x hx s hs => hstep i s hs items List.mem_cons_self x hx
    refine (hitems.bind fun s' hs' => ih (hs.recordAll hs') ?_ (i + 1)).of_iff (by simp)
    intro i s hs items hitems
    exact hstep i s hs items (List.mem_cons_of_mem _ hitems)

/-- Unifying a native value settles nothing but records, of the value and of what it shows for the
parameters that no argument of the variable is for. -/
theorem settles_unify (position : Nat) (spanKey : SpanKey) (fuel : Nat) (key : VarKey)
    (named : Nat) {v : Value} (hs : Faithful standing s) (hv : v.isNative = true) :
    Settles (unify call ⟨standing.map StandardType.named, registry⟩ signature position spanKey fuel
      key named v s) True s ((key, ⟨position, v, spanKey⟩) ::
        observationsOfHeld position spanKey key 0 (unnamed named (v.heldFor named))) := by
  induction fuel generalizing key named v s with
  | zero => exact ends_fail _
  | succ fuel ih =>
    rw [unify_succ]
    refine ends_except_bind fun d _ => ?_
    rcases hrec : s.record standing key ⟨position, v, spanKey⟩ with _ | s₁
    · refine ends_nothingInCommon (fun _ _ => ?_) _
      rw [recordAll_cons, hrec]
      rfl
    have hheld : Settles (unifyHeld call ⟨standing.map StandardType.named, registry⟩ signature
        position spanKey fuel key named (s.candidatesAfter key (rank (v.types standing))) v s₁) True
        s₁ (observationsOfHeld position spanKey key 0 (unnamed named (v.heldFor named))) := by
      refine settles_extractor (hs.record hrec) (candidates?_record_self hrec)
        ⟨_, mem_observed_of_record hrec, rfl⟩ hv ?_ ?_
      · simp [unnamed, forPlaces]
      rw [unnamed, List.length_map, ← List.map_take]
      refine settles_forPlaces (hs.record hrec) (fun i s hs items hitems x hx => ?_) 0
      have hinner := ih (.inner key i) 0 hs
        (Value.isNative_of_mem_heldFor hv (List.mem_of_mem_take hitems) hx)
      rwa [Value.heldFor_zero, unnamed_zero, ← Value.observations_eq] at hinner
    refine hheld.mono (fun s' h => ?_) fun _ h hF => ?_
    · rw [recordAll_cons, hrec]
      exact h
    · rw [recordAll_cons, hrec]
      exact h hF

end Unify

/-! ## Slots -/

mutual

/-- Unapplied variables, bare types with a steady test, functions, and the types that show what
their values hold, fully applied to such. -/
def TypeExpr.IsPlain (call : Apply) : TypeExpr → Prop
  | .var _ args => args = []
  | .concrete t args =>
    args = [] ∧ (t == StandardType.typeRep.named) = false ∧ (∀ v, (t.contains call v).Steady) ∨
      (∃ u : StandardType, u.extraction.isSome = true ∧ t = u.named ∧ (args.length : Int) = u.arity) ∧
        TypeExpr.ArePlain call args
  | .fn _ _ => True
  | .foreign => False

/-- All the expressions are plain. -/
def TypeExpr.ArePlain (call : Apply) : List TypeExpr → Prop
  | [] => True
  | e :: es => TypeExpr.IsPlain call e ∧ TypeExpr.ArePlain call es

end

mutual

/-- The value fits the expression, given what is asked of the values of each variable. -/
def TypeExpr.Fits (call : Apply) (P : String → Value → Prop) : TypeExpr → Value → Prop
  | .var name _, v => P name v
  | .concrete t args, v => (t.contains call v).result = .ok true ∧ TypeExpr.FitAll call P args v.held
  | .fn _ _, v => v.isCallable = true
  | .foreign, _ => False

/-- What is held for each parameter fits the argument for it. -/
def TypeExpr.FitAll (call : Apply) (P : String → Value → Prop) :
    List TypeExpr → List (List Value) → Prop
  | arg :: args, items :: rest => (∀ x ∈ items, TypeExpr.Fits call P arg x) ∧
      TypeExpr.FitAll call P args rest
  | _, _ => True

end

/-- A value met by a variable, at a part of the signature. -/
structure Meeting where
  name : String
  key : SpanKey
  value : Value

mutual

/-- The values that the variables of an expression meet in a value. -/
def TypeExpr.meetings : TypeExpr → SpanKey → Value → List Meeting
  | .var name _, key, v => [⟨name, key, v⟩]
  | .concrete _ args, key, v => TypeExpr.meetingsOfAll key 0 args v.held
  | .fn _ _, _, _ | .foreign, _, _ => []

/-- The values that the variables of type arguments from place `i` on meet. -/
def TypeExpr.meetingsOfAll (key : SpanKey) (i : Nat) :
    List TypeExpr → List (List Value) → List Meeting
  | arg :: args, items :: rest => items.flatMap (TypeExpr.meetings arg (key ++ [i])) ++
      TypeExpr.meetingsOfAll key (i + 1) args rest
  | _, _ => []

end

/-- The records for a meeting. -/
def Meeting.observations (position : Nat) (m : Meeting) : List (VarKey × Observation) :=
  m.value.observations position m.key (.named m.name)

/-- The value satisfies every type class that the variable is constrained by. -/
def Signature.Admits (call : Apply) (signature : Signature) (name : String) (v : Value) : Prop :=
  ∀ c ∈ signature.constraintsOn name, (Registry.standard.satisfies call c v).result = .ok true

/-! ## Checking data -/

section CheckData

variable {call : Apply} {signature : Signature} {s : CheckState}

/-- Testing the constraints of a variable settles that every class admits the value. -/
theorem settles_satisfyAll (name : String) (v : Value) (position : Nat) (key : SpanKey)
    (classes : List String) :
    Settles (satisfyAll call .standard signature name v position key classes s)
      (∀ c ∈ classes, (Registry.standard.satisfies call c v).result = .ok true) s [] := by
  induction classes with
  | nil => exact .pure (by simp)
  | cons c cs ih =>
    refine .run_bind (Registry.steady_satisfies call c v) fun b hb => ?_
    cases b with
    | true =>
      refine ih.of_iff ?_
      rw [List.forall_mem_cons]
      exact ⟨fun h => ⟨hb, h⟩, And.right⟩
    | false =>
      refine .of_not (fun h => ?_) (ends_unsatisfied (fun _ => trivial) name c v position key)
      cases hb.symm.trans (h c List.mem_cons_self)

/-- A type that shows what its values hold takes data of its shape only. -/
theorem shape_of_contains {u : StandardType} {v : Value} (hu : u.extraction.isSome = true)
    (hv : v.isData = true) (h : (u.named.contains call v).result = .ok true) :
    v.shape? = some u := by
  rw [StandardType.contains_named] at h
  exact StandardType.shape_of_has hu (Value.isNative_of_isData hv) (StandardType.has_of_test h)

theorem steady_contains_named (call : Apply) (u : StandardType) (v : Value) :
    (u.named.contains call v).Steady := by
  rw [StandardType.contains_named]
  exact .liftM _

mutual

/-- Checking data against a plain expression settles that it fits, and that what the variables meet
can be recorded. -/
theorem settles_checkValue (position : Nat) : ∀ (e : TypeExpr) (key : SpanKey) {v : Value}
    {s : CheckState}, e.IsPlain call → v.isData = true → Faithful standing s →
      Settles (checkValue call .standard signature position e key v s)
        (e.Fits call (signature.Admits call) v) s
        ((e.meetings key v).flatMap (Meeting.observations position))
  | .var name args, key, v, s, hplain, hv, hs => by
    cases (show args = [] from hplain)
    rw [checkValue]
    have hclasses : Settles (satisfyAll call .standard signature name v position key
        (signature.constraintsOn name) s) (signature.Admits call name v) s [] :=
      settles_satisfyAll name v position key (signature.constraintsOn name)
    have hunify : ∀ s', Faithful standing s' → Settles (unify call .standard signature position key
        v.reach (.named name) 0 v s' >>= Pure.pure) True s'
        (v.observations position key (.named name)) := by
      intro s' hs'
      rw [bind_pure, Value.observations_eq, ← unnamed_zero v.held, ← Value.heldFor_zero]
      exact settles_unify position key v.reach (.named name) 0 hs' (Value.isNative_of_isData hv)
    refine (hclasses.bind fun s' hs' => hunify s' (hs.recordAll hs')).congr ?_ ?_
    · rw [and_true, TypeExpr.Fits]
    · simp [TypeExpr.meetings, Meeting.observations]
  | .fn params result, key, v, s, hplain, hv, hs => by
    rw [checkValue]
    split
    · exact .pure ‹_›
    · exact .of_not ‹_› (ends_invalidValue (fun _ => trivial) _ v position key)
  | .concrete t args, key, v, s, hplain, hv, hs => by
    rw [checkValue]
    rcases hplain with ⟨rfl, hrep, hsteady⟩ | ⟨⟨u, hu, rfl, hlength⟩, hargs⟩
    -- a bare type: its test decides, and there is nothing to record
    · refine .run_bind (hsteady v) fun b hb => ?_
      rw [hrep]
      cases b with
      | true => exact .pure ⟨hb, trivial⟩
      | false =>
        refine .of_not (fun h => ?_) (ends_invalidValue (fun _ => trivial) _ v position key)
        cases hb.symm.trans h.1
    -- a type that shows what its values hold: the test decides on the value, the arguments on
    -- what it holds
    · refine .run_bind (steady_contains_named call u v) fun b hb => ?_
      have hrep : (u.named == StandardType.typeRep.named) = false := by
        cases u <;> first | rfl | cases hu
      rw [hrep]
      cases b with
      | true =>
        have hshape := shape_of_contains hu hv hb
        have hheld : args.length = v.held.length := by
          exact_mod_cast hlength.trans (length_held hshape).symm
        obtain ⟨e, he⟩ := Option.isSome_iff_exists.1 hu
        have hcontents : Settles (do
            let held ← e.run call v
            checkContents call .standard signature position key 0 args (trailing args.length held) s)
            (TypeExpr.FitAll call (signature.Admits call) args v.held) s
            ((TypeExpr.meetingsOfAll key 0 args v.held).flatMap (Meeting.observations position)) := by
          rw [run_extraction_of_shape call hshape he]
          refine .run_bind (.pure _) fun held hrun => ?_
          cases hrun
          -- the type is fully applied, so no parameter is left out
          have hall : trailing args.length (v.held.map Value.tuple) = v.held.map Value.tuple := by
            simp [trailing, hheld]
          rw [hall]
          exact settles_checkContents position key 0 args v.held hargs
            (fun items hitems x hx => Value.isData_of_mem_held hv hitems hx) hs
        have hne : args.isEmpty = false := by
          rcases shape_cases hshape with rfl | rfl | rfl <;> cases args <;> first | rfl | cases hlength
        have hextraction : u.named.extraction = some e := he
        simp only [hne, hextraction]
        exact hcontents.of_iff ⟨fun h => ⟨hb, h⟩, And.right⟩
      | false =>
        refine .of_not (fun h => ?_) (ends_invalidValue (fun _ => trivial) _ v position key)
        cases hb.symm.trans h.1
  | .foreign, key, v, s, hplain, hv, hs => hplain.elim

/-- Checking the contents of a value settles the demands of the arguments on what is held. -/
theorem settles_checkContents (position : Nat) (key : SpanKey) (i : Nat) :
    ∀ (args : List TypeExpr) (held : List (List Value)) {s : CheckState},
      TypeExpr.ArePlain call args → (∀ items ∈ held, ∀ x ∈ items, x.isData = true) →
        Faithful standing s →
          Settles (checkContents call .standard signature position key i args
              (held.map Value.tuple) s)
            (TypeExpr.FitAll call (signature.Admits call) args held) s
            ((TypeExpr.meetingsOfAll key i args held).flatMap (Meeting.observations position))
  | arg :: args, items :: rest, s, hplain, hheld, hs => by
    rw [List.map_cons, checkContents]
    have hitems : Settles (forEach (.tuple items) (fun s item => checkValue call .standard signature
          position arg (key ++ [i]) item s) s)
        (∀ x ∈ items, arg.Fits call (signature.Admits call) x) s
        (items.flatMap fun x => (arg.meetings (key ++ [i]) x).flatMap
          (Meeting.observations position)) :=
      Settles.forEach rfl hs fun x hx s hs => settles_checkValue position arg (key ++ [i]) hplain.1
        (hheld items List.mem_cons_self x hx) hs
    refine (hitems.bind fun s' hs' => settles_checkContents position key (i + 1) args rest hplain.2
      (fun items hitems => hheld items (List.mem_cons_of_mem _ hitems)) (hs.recordAll hs')).congr
        ?_ ?_
    · rw [TypeExpr.FitAll]
    · simp [TypeExpr.meetingsOfAll, List.flatMap_assoc]
  | [], _, s, _, _, _ => by
    rw [checkContents]
    · exact .pure trivial
    · simp
  | _ :: _, [], s, _, _, _ => by
    rw [List.map_nil, checkContents]
    · exact .pure trivial
    · simp

end

/-! ## Checking arguments -/

/-- What checks of single arguments settle, each with its place, the check of all settles. -/
theorem settles_checkArguments {F : Value × Nat → Prop}
    {seen : Value × Nat → List (VarKey × Observation)} (index : Nat) {args : List Value}
    (hs : Faithful standing s)
    (hvalue : ∀ p ∈ args.zipIdx index, ∀ s, Faithful standing s →
      Settles (checkValue call .standard signature (p.2 + 1) (signature.typeAt p.2)
        [signature.slotFor p.2] p.1 s) (F p) s (seen p)) :
    Settles (ExceptT.mk (checkArguments call .standard signature index args s))
      (∀ p ∈ args.zipIdx index, F p) s ((args.zipIdx index).flatMap seen) := by
  induction args generalizing index s with
  | nil => exact .pure (by simp)
  | cons v args ih =>
    rw [List.zipIdx_cons, List.forall_mem_cons] at hvalue
    rw [List.zipIdx_cons, List.flatMap_cons]
    simp only [List.forall_mem_cons]
    refine ends_checkArguments_cons ((hvalue.1 s hs).mono (fun _ h => h) fun _ h hall => ?_)
      fun s' ⟨hfirst, hs'⟩ => ?_
    · rw [recordAll_append, h hall.1]
      rfl
    · rw [recordAll_append, hs']
      exact (ih (index + 1) (hs.recordAll hs') hvalue.2).mono (fun _ h => ⟨⟨hfirst, h.1⟩, h.2⟩)
        fun _ h hall => h hall.2

/-- A check passes, with the bindings of the state in which all values are recorded, exactly if what
its arguments settle holds. -/
theorem passed_iff_of_settles {args : List Value} {F : Prop} {seen : List (VarKey × Observation)}
    {r : CheckResult} {w w' : World}
    (hsettles : signature.accepts args.length = true →
      Settles (ExceptT.mk (checkArguments call .standard signature 0 args .initial)) F .initial
        seen)
    (h : (check call .standard signature args).outcome w = (.ok r, w'))
    (bindings : List (String × NamedType)) :
    r = .passed bindings ↔ signature.accepts args.length = true ∧ F ∧
      ∃ s, CheckState.initial.recordAll standing seen = some s ∧ bindings = s.bindings := by
  rcases check_outcome_cases h with ⟨harity, rfl⟩ | ⟨harity, e, w'', hargs, hr⟩
  · simp [harity]
  have hends := hsettles harity w e (congrArg Prod.fst hargs)
  cases e with
  | ok s =>
    dsimp only at hr
    subst hr
    rw [CheckResult.passed.injEq]
    constructor
    · rintro rfl
      exact ⟨harity, hends.1, s, hends.2, rfl⟩
    · rintro ⟨-, -, s', hs', rfl⟩
      cases hends.2.symm.trans hs'
      rfl
  | error v =>
    constructor
    · rintro rfl
      cases hr
    · rintro ⟨-, hF, s, hs, -⟩
      rw [hends hF] at hs
      cases hs

/-- A slot is there for each argument, if the number of arguments fits. -/
theorem slotFor_lt {count i : Nat} (h : signature.accepts count = true) (hi : i < count) :
    signature.slotFor i < signature.slots.length := by
  rw [Signature.accepts, Signature.minArity] at h
  rw [Signature.slotFor]
  by_cases hvar : signature.isVariadic = true
  · have hne : signature.slots ≠ [] := by
      rintro hnil
      rw [Signature.isVariadic, hnil] at hvar
      cases hvar
    have hpos := List.length_pos_iff.2 hne
    simp only [hvar, Bool.true_and, decide_eq_true_eq]
    split <;> omega
  · simp only [hvar, Bool.false_eq_true, if_false, decide_eq_true_eq] at h
    simp only [hvar, Bool.false_and, Bool.false_eq_true, if_false]
    omega

/-- What holds of the types of all slots holds of the type that checks an argument. -/
theorem forall_typeAt {P : TypeExpr → Prop} {count i : Nat}
    (hslots : ∀ slot ∈ signature.slots, P slot.type) (h : signature.accepts count = true)
    (hi : i < count) : P (signature.typeAt i) := by
  have hlt := slotFor_lt h hi
  rw [Signature.typeAt, List.getElem?_eq_getElem hlt]
  exact hslots _ (List.getElem_mem hlt)

/-- The records for the arguments from place `i` on. -/
def Signature.observations (signature : Signature) (i : Nat) :
    List Value → List (VarKey × Observation)
  | [] => []
  | v :: vs => ((signature.typeAt i).meetings [signature.slotFor i] v).flatMap
      (Meeting.observations (i + 1)) ++ signature.observations (i + 1) vs

/-- The values met in the arguments are those met in each of them, in their order. -/
theorem Signature.observations_eq (i : Nat) (args : List Value) :
    signature.observations i args = (args.zipIdx i).flatMap fun p =>
      ((signature.typeAt p.2).meetings [signature.slotFor p.2] p.1).flatMap
        (Meeting.observations (p.2 + 1)) := by
  induction args generalizing i with
  | nil => rfl
  | cons v vs ih => rw [observations, ih, List.zipIdx_cons, List.flatMap_cons]

/-- Data passes a check exactly if each argument fits its slot and what the variables meet can be
recorded. -/
theorem passed_iff_demands {args : List Value} {r : CheckResult} {w w' : World}
    (hplain : ∀ slot ∈ signature.slots, slot.type.IsPlain call)
    (hdata : ∀ v ∈ args, v.isData = true)
    (h : (check call .standard signature args).outcome w = (.ok r, w')) :
    (∃ bindings, r = .passed bindings) ↔
      signature.accepts args.length = true ∧
        (∀ i v, args[i]? = some v → (signature.typeAt i).Fits call (signature.Admits call) v) ∧
          ∃ s, CheckState.recordAll standing .initial (signature.observations 0 args) = some s := by
  have hsettles : signature.accepts args.length = true →
      Settles (ExceptT.mk (checkArguments call .standard signature 0 args .initial))
        (∀ i v, args[i]? = some v → (signature.typeAt i).Fits call (signature.Admits call) v)
        .initial (signature.observations 0 args) := by
    intro haccepts
    have hall := settles_checkArguments 0 Faithful.initial fun p hp s hs => by
      rw [List.mem_zipIdx_iff_getElem?] at hp
      obtain ⟨hlt, -⟩ := List.getElem?_eq_some_iff.1 hp
      exact settles_checkValue (p.2 + 1) (signature.typeAt p.2) [signature.slotFor p.2]
        (forall_typeAt hplain haccepts hlt) (hdata p.1 (List.mem_of_getElem? hp)) hs
    refine hall.congr ?_ (Signature.observations_eq 0 args).symm
    simp only [List.mem_zipIdx_iff_getElem?, Prod.forall]
    exact forall_comm
  have hpassed := passed_iff_of_settles hsettles h
  constructor
  · rintro ⟨bindings, hr⟩
    obtain ⟨harity, hfits, s, hs, -⟩ := (hpassed bindings).1 hr
    exact ⟨harity, hfits, s, hs⟩
  · rintro ⟨harity, hfits, s, hs⟩
    exact ⟨_, (hpassed _).2 ⟨harity, hfits, s, hs, rfl⟩⟩

end CheckData

end CheckedCalls
