import CheckedCalls.Evaluate
import CheckedCalls.Proofs.Likeness
import CheckedCalls.Proofs.Lockstep

/-!
# Checks of equal arguments

A check does not tell equal arguments apart. If the types that a signature brings itself do not do
so either (`NamedType.Respects`; the types of the library do not), then two checks whose arguments
are equal place by place go in lockstep: both pass with one binding of the variables, or both end in
a violation of one rule by arguments at the same places (`check_congr`).
-/

namespace CheckedCalls

open CheckState Checking Check
open StandardType (standing)

variable {call : Apply} {signature : Signature} {w : World} {store : Nat → Value}

/-! ## Reports in the making -/

/-- The reports are of one rule, by values from the same places so far. -/
def ViolationBuilder.Parallel (b c : ViolationBuilder) : Prop :=
  b.kind = c.kind ∧ b.positions = c.positions

section Reports

variable {vocabulary : Vocabulary} {P : CheckState → CheckState → Prop}

/-- Values at the same position are described in lockstep. -/
theorem lockstep_addValue {b c : ViolationBuilder} (h : b.Parallel c) (position : Nat)
    (x y : Value) (key key' : SpanKey) :
    Run.Lockstep (addValue call vocabulary signature b position x key)
      (addValue call vocabulary signature c position y key') ViolationBuilder.Parallel := by
  refine Run.lockstep_bind (P := fun _ _ => True) (Run.lockstep_of_forall fun _ _ => trivial)
    fun text text' _ => Run.lockstep_bind (P := fun _ _ => True)
      (Run.lockstep_of_forall fun _ _ => trivial) fun types types' _ => Run.lockstep_pure ?_
  refine ⟨h.1, ?_⟩
  show (if _ then _ else _) = (if _ then _ else _)
  rw [h.2]

theorem lockstep_invalidValue (expr : TypeExpr) (position : Nat) (x y : Value) (key : SpanKey) :
    Lockstep (invalidValue call vocabulary signature expr x position key)
      (invalidValue call vocabulary signature expr y position key) P :=
  lockstep_run_bind (lockstep_addValue ⟨rfl, rfl⟩ position x y key key) fun _ _ h =>
    lockstep_throw h

/-- A constraint that fails is reported in lockstep, whichever of two values fails it. -/
theorem lockstep_unsatisfied (name typeClass : String) (position : Nat) (x y : Value)
    (key : SpanKey) :
    Lockstep (unsatisfied call vocabulary signature name typeClass x position key)
      (unsatisfied call vocabulary signature name typeClass y position key) P := by
  rw [unsatisfied, unsatisfied, constraintPlace]
  cases signature.constraintSpan? ⟨typeClass, name⟩ with
  | none => exact lockstep_fail_left _
  | some span =>
    exact lockstep_run_bind (lockstep_addValue ⟨rfl, rfl⟩ position x y key key) fun _ _ h =>
      lockstep_throw h

/-- The observations come from the same places. -/
def SamePlaces (os ps : List Observation) : Prop :=
  List.Forall₂ (fun o p => o.position = p.position) os ps

theorem lockstep_nothingInCommon {os ps : List Observation} (h : SamePlaces os ps) :
    Lockstep (nothingInCommon call vocabulary signature os)
      (nothingInCommon call vocabulary signature ps) P := by
  refine lockstep_bind (P := ViolationBuilder.Parallel) ?_ fun b c hbc => lockstep_throw hbc
  refine lockstep_foldlM (fun b c o p hbc hop => ?_) h ⟨rfl, rfl⟩
  rw [hop, ← bind_pure (liftM _), ← bind_pure (liftM (addValue _ _ _ c _ _ _))]
  exact lockstep_run_bind (lockstep_addValue hbc _ _ _ _ _) fun _ _ h => lockstep_pure h

end Reports

/-! ## States -/

/-- The states have the same candidates, for values from the same places. -/
structure CheckState.Parallel (s t : CheckState) : Prop where
  faithful : s.Faithful standing
  candidates : s.candidates = t.candidates
  places : ∀ key, SamePlaces (s.observed key) (t.observed key)

namespace CheckState.Parallel

variable {s t : CheckState} {key : VarKey} {o p : Observation}

theorem initial : Parallel .initial .initial := ⟨.initial, rfl, fun _ => .nil⟩

theorem candidates?_eq (h : s.Parallel t) (key : VarKey) :
    s.candidates? key = t.candidates? key := by
  rw [candidates?, candidates?, h.candidates]

theorem bindings_eq (h : s.Parallel t) : s.bindings = t.bindings := by
  rw [bindings, bindings, h.candidates]

/-- One more value from the same place. -/
theorem places_append (h : s.Parallel t) (hplace : o.position = p.position) :
    SamePlaces (s.observed key ++ [o]) (t.observed key ++ [p]) :=
  List.rel_append (h.places key) (.cons hplace .nil)

theorem candidatesAfter_eq (h : s.Parallel t) (key : VarKey) {u v : Value}
    (htypes : u.types standing = v.types standing) :
    s.candidatesAfter key (rank (u.types standing)) =
      t.candidatesAfter key (rank (v.types standing)) := by
  rw [candidatesAfter, candidatesAfter, h.candidates?_eq, htypes]

/-- Values with the same types are recorded or not, and leave the same candidates. -/
theorem record (h : s.Parallel t) (key : VarKey) (hplace : o.position = p.position)
    (htypes : o.value.types standing = p.value.types standing) :
    (s.record standing key o = none ∧ t.record standing key p = none) ∨
      ∃ s' t', s.record standing key o = some s' ∧ t.record standing key p = some t' ∧
        s'.Parallel t' := by
  have hafter := h.candidatesAfter_eq key htypes
  rcases hs : s.record standing key o with _ | s' <;>
    rcases ht : t.record standing key p with _ | t'
  · exact .inl ⟨rfl, rfl⟩
  · exact absurd (hafter ▸ record_eq_none.1 hs) (record_eq_some.1 ht).1
  · exact absurd (hafter ▸ record_eq_none.1 ht) (record_eq_some.1 hs).1
  · refine .inr ⟨s', t', rfl, rfl, h.faithful.record hs, ?_, fun k => ?_⟩
    · obtain ⟨-, rfl⟩ := record_eq_some.1 hs
      obtain ⟨-, rfl⟩ := record_eq_some.1 ht
      show setKey key _ s.candidates = setKey key _ t.candidates
      rw [hafter, h.candidates]
    · rw [observed_record hs, observed_record ht]
      split
      · exact h.places_append hplace
      · exact h.places k

end CheckState.Parallel

/-! ## Loops -/

/-- The values that the containers run through are related one after the other. -/
def OfferSame (R : Value → Value → Prop) (p q : Value) : Prop :=
  Run.Lockstep p.elements q.elements (List.Forall₂ R)

section Loops

variable {R : Value → Value → Prop} {s t : CheckState}

theorem lockstep_forEach {step step' : CheckState → Value → Checking CheckState}
    (hstep : ∀ s t x y, s.Parallel t → R x y →
      Lockstep (step s x) (step' t y) CheckState.Parallel)
    {p q : Value} (hpq : OfferSame R p q) (hst : s.Parallel t) :
    Lockstep (forEach p step s) (forEach q step' t) CheckState.Parallel :=
  lockstep_run_bind hpq fun _ _ hitems => lockstep_foldlM hstep hitems hst

/-- Parts that offer related values are checked in lockstep if their steps are. -/
theorem lockstep_forPlaces {step step' : Nat → CheckState → Value → Checking CheckState}
    (hstep : ∀ i s t p q, s.Parallel t → OfferSame R p q →
      Lockstep (step i s p) (step' i t q) CheckState.Parallel)
    {ps qs : List Value} (h : List.Forall₂ (OfferSame R) ps qs) (i : Nat) (hst : s.Parallel t) :
    Lockstep (forPlaces step i ps s) (forPlaces step' i qs t) CheckState.Parallel := by
  induction h generalizing i s t with
  | nil => exact lockstep_pure hst
  | cons hpq _ ih => exact lockstep_bind (hstep i s t _ _ hst hpq) fun s t hst => ih (i + 1) hst

end Loops

/-! ## Equal values -/

/-- The extraction of a shape hands out the same for equal values. -/
theorem lockstep_extraction {x y : Value} (h : Value.Equated call w store x y) {u : StandardType}
    (hx : x.shape? = some u) {e : Extraction} (he : u.extraction = some e) :
    Run.Lockstep (e.run call x) (e.run call y)
      (List.Forall₂ (OfferSame (Value.Equated call w store))) := by
  have hy : y.shape? = some u := h.looks.shape?_eq.symm.trans hx
  rw [run_extraction_of_shape call hx he, run_extraction_of_shape call hy he]
  refine Run.lockstep_pure ?_
  rw [List.forall₂_map_left_iff, List.forall₂_map_right_iff]
  exact h.held.imp fun _ _ hitems => Run.lockstep_pure hitems

/-! ## Unifying -/

section Steps

variable {s t : CheckState} {x y : Value}

/-- What is left of the candidates of a key for a value that was seen shows what the value holds as
it does for an equal one. -/
theorem lockstep_extractor {key : VarKey} {cs : List NamedType} {named : Nat} {e : Extraction}
    (hs : s.Faithful standing) (hcs : s.candidates? key = some cs)
    (hseen : ∃ o ∈ s.observed key, o.value = x) (hxy : x.Equated call w store y)
    (he : extractor? cs named = some e) :
    Run.Lockstep (e.run call x) (e.run call y)
      (List.Forall₂ (OfferSame (Value.Equated call w store))) := by
  obtain ⟨u, hu, hue⟩ := hs.shape_of_seen hcs hxy.looks.isNative hseen he
  exact lockstep_extraction hxy hu hue

/-- A variable is unified in lockstep with values that are equated. -/
theorem lockstep_unify (position : Nat) (spanKey : SpanKey) (fuel fuel' : Nat) (key : VarKey)
    (named : Nat) (hst : s.Parallel t) (hxy : x.Equated call w store y) :
    Lockstep (unify call .standard signature position spanKey fuel key named x s)
      (unify call .standard signature position spanKey fuel' key named y t)
      CheckState.Parallel := by
  induction fuel generalizing fuel' key named s t x y with
  | zero => exact lockstep_fail_left _
  | succ fuel ih =>
    cases fuel' with
    | zero => exact lockstep_fail_right _
    | succ fuel' =>
      rw [Vocabulary.standard, StandardType.defaultEnv_eq, unify_succ, unify_succ]
      refine lockstep_except_bind fun d e hd he => ?_
      have htypes := hxy.looks.types_eq hd he
      have hafter := hst.candidatesAfter_eq key htypes
      have hrecord := hst.record key (o := ⟨position, x, spanKey⟩) (p := ⟨position, y, spanKey⟩)
        rfl htypes
      rcases hrecord with ⟨hs, ht⟩ | ⟨s', t', hs, ht, hst'⟩
      · rw [hs, ht]
        refine lockstep_nothingInCommon ?_
        rw [observed_observe, observed_observe]
        exact hst.places_append rfl
      rw [hs, ht]
      dsimp only
      rw [unifyHeld, unifyHeld, ← hafter]
      rcases he : extractor? (s.candidatesAfter key (rank (x.types standing))) named with _ | e
      · exact lockstep_pure hst'
      -- the value is among those seen for its key now
      refine lockstep_run_bind (lockstep_extractor hst'.faithful (candidates?_record_self hs)
        ⟨_, mem_observed_of_record hs, rfl⟩ hxy he) fun ps qs hparams => ?_
      refine lockstep_forPlaces (fun i s t p q hst hpq => ?_) (forall₂_unnamed hparams named) 0 hst'
      exact lockstep_forEach (R := Value.Equated call w store)
        (fun s t x y hst hxy => ih fuel' (.inner key i) 0 hst hxy) hpq hst

/-! ## Type classes -/

/-- The constraints of a variable are tested in lockstep on values that look alike. -/
theorem lockstep_satisfyAll (name : String) (position : Nat) (key : SpanKey)
    (classes : List String) (hst : s.Parallel t) (hxy : x.Looks y) :
    Lockstep (satisfyAll call .standard signature name x position key classes s)
      (satisfyAll call .standard signature name y position key classes t)
      CheckState.Parallel := by
  induction classes with
  | nil => exact lockstep_pure hst
  | cons c cs ih =>
    have hsatisfies : Run.Lockstep (Registry.standard.satisfies call c x)
        (Registry.standard.satisfies call c y) (· = ·) := by
      rw [Registry.satisfies_standard, Registry.satisfies_standard]
      simp only [hxy.admits_eq]
      exact Run.lockstep_liftM fun a b ha hb => Except.ok.inj (ha.symm.trans hb)
    rw [satisfyAll, satisfyAll]
    refine lockstep_run_bind hsatisfies fun b _ hb => ?_
    subst hb
    cases b with
    | true => exact ih
    | false => exact lockstep_unsatisfied name c position x y key

/-- The constraints on a representative are tested in lockstep on values that look alike. -/
theorem lockstep_representAll (name : String) (position : Nat) (key : SpanKey)
    (classes : List String) (hst : s.Parallel t) (hxy : x.Looks y) :
    Lockstep (representAll call .standard signature name x position key classes s)
      (representAll call .standard signature name y position key classes t)
      CheckState.Parallel := by
  induction classes with
  | nil => exact lockstep_pure hst
  | cons c cs ih =>
    have hsame : Vocabulary.standard.registry.satisfiesRep c x =
        Vocabulary.standard.registry.satisfiesRep c y := by
      simp only [Registry.satisfiesRep, hxy.containsRep_eq]
    rw [representAll, representAll, ← hsame]
    refine lockstep_except_bind fun b b' hb hb' => ?_
    cases hb.symm.trans hb'
    cases b with
    | true => exact ih
    | false => exact lockstep_unsatisfied name c position x y key

/-- Representatives that look alike are read in lockstep. -/
theorem lockstep_checkRep (position : Nat) (key : SpanKey) (args : List TypeExpr)
    (hst : s.Parallel t) (hxy : x.Looks y) :
    Lockstep (checkRep call .standard signature x position key args s)
      (checkRep call .standard signature y position key args t) CheckState.Parallel := by
  induction args generalizing s t with
  | nil =>
    rw [checkRep, checkRep]
    exact lockstep_pure hst
  | cons e args ih =>
    cases e with
    | var name targs =>
      rw [checkRep, checkRep]
      exact lockstep_bind (lockstep_representAll name position key _ hst hxy) fun _ _ h => ih h
    | _ =>
      rw [checkRep, checkRep]
      · exact ih hst
      all_goals simp

end Steps

/-! ## Types that respect equality -/

/-- The type answers alike for related values, and hands out related values for those that it
contains. -/
def NamedType.Respects (call : Apply) (R : Value → Value → Prop) (t : NamedType) : Prop :=
  ∀ x y, R x y → Run.Lockstep (t.contains call x) (t.contains call y) fun b c =>
    b = c ∧ (b = true → ∀ e, t.extraction = some e →
      Run.Lockstep (e.run call x) (e.run call y) (List.Forall₂ (OfferSame R)))

/-- The types of the library respect equality. -/
theorem StandardType.respects (t : StandardType) :
    t.named.Respects call (Value.Equated call w store) := by
  intro x y hxy
  rw [contains_named, contains_named]
  refine Run.lockstep_liftM fun b c hb hc => ⟨hxy.looks.test_eq hb hc, fun htrue e he => ?_⟩
  have hshape := shape_of_has (Option.isSome_iff_exists.2 ⟨e, he⟩) hxy.looks.isNative
    ((has_of_test hb).trans htrue)
  exact lockstep_extraction hxy hshape he

/-! ## Values -/

section Values

variable {s t : CheckState}

mutual

/-- Equal values are checked alike. -/
theorem lockstep_checkValue (position : Nat) : ∀ (e : TypeExpr) (key : SpanKey) {x y : Value}
    {s t : CheckState}, e.OfTypes (NamedType.Respects call (Value.Equated call w store)) →
      s.Parallel t →
      x.Equated call w store y →
      Lockstep (checkValue call .standard signature position e key x s)
        (checkValue call .standard signature position e key y t) CheckState.Parallel
  | .var name args, key, x, y, s, t, he, hst, hxy => by
    rw [checkValue, checkValue]
    refine lockstep_bind (lockstep_satisfyAll name position key _ hst hxy.looks) fun s t hst => ?_
    refine lockstep_bind ((lockstep_unify position key x.reach y.reach (.named name) args.length hst
      hxy).and_ends (unify_records_first position key x.reach (.named name) args.length x s))
        fun s' t' ⟨hst', s₁, hrecord, hreaches⟩ => ?_
    split
    · exact lockstep_pure hst'
    rw [← hst'.candidates?_eq]
    rcases hcs : s'.candidates? (.named name) with _ | cs
    · exact lockstep_pure hst'
    rcases hextractor : extractor? cs args.length with _ | e
    · simp only [Option.getD_some, hextractor]
      exact lockstep_pure hst'
    -- the value was seen for the variable, so what was left for the variable shows what it holds
    have hseen : ∃ o ∈ s'.observed (.named name), o.value = x :=
      ⟨_, hreaches.observed_subset _ (mem_observed_of_record hrecord), rfl⟩
    simp only [Option.getD_some, hextractor]
    refine lockstep_run_bind (lockstep_extractor hst'.faithful hcs hseen hxy hextractor)
      fun ps qs hparams => ?_
    exact lockstep_checkContents position key 0 args he (forall₂_trailing hparams _) hst'
  | .fn params result, key, x, y, s, t, he, hst, hxy => by
    rw [checkValue, checkValue, hxy.looks.isCallable_eq]
    split
    · exact lockstep_pure hst
    · exact lockstep_invalidValue _ position x y key
  | .concrete u args, key, x, y, s, t, he, hst, hxy => by
    rw [checkValue, checkValue]
    refine lockstep_run_bind (he.1 x y hxy) fun b c ⟨hbc, hextract⟩ => ?_
    subst hbc
    cases b with
    | false => exact lockstep_invalidValue _ position x y key
    | true =>
      rw [Bool.not_true, if_neg Bool.false_ne_true, if_neg Bool.false_ne_true]
      split
      · exact lockstep_checkRep position key args hst hxy.looks
      split
      · exact lockstep_pure hst
      rcases hextraction : u.extraction with _ | e
      · exact lockstep_pure hst
      exact lockstep_run_bind (hextract rfl e hextraction) fun ps qs hparams =>
        lockstep_checkContents position key 0 args he.2 (forall₂_trailing hparams _) hst
  | .foreign, key, x, y, s, t, he, hst, hxy => by
    rw [checkValue]
    exact lockstep_fail_left _

/-- Contents that are equated are checked in lockstep. -/
theorem lockstep_checkContents (position : Nat) (key : SpanKey) (i : Nat) :
    ∀ (args : List TypeExpr) {ps qs : List Value} {s t : CheckState},
      TypeExpr.AllOfTypes (NamedType.Respects call (Value.Equated call w store)) args →
      List.Forall₂ (OfferSame (Value.Equated call w store)) ps qs → s.Parallel t →
        Lockstep (checkContents call .standard signature position key i args ps s)
          (checkContents call .standard signature position key i args qs t) CheckState.Parallel
  | arg :: args, p :: ps, q :: qs, s, t, hargs, hparams, hst => by
    rw [List.forall₂_cons] at hparams
    rw [checkContents, checkContents]
    refine lockstep_bind (lockstep_forEach (fun s t x y hst hxy => ?_) hparams.1 hst)
      fun s t hst => ?_
    · exact lockstep_checkValue position arg (key ++ [i]) hargs.1 hst hxy
    · exact lockstep_checkContents position key (i + 1) args hargs.2 hparams.2 hst
  | [], _, _, s, t, _, _, hst => by
    rw [checkContents, checkContents]
    · exact lockstep_pure hst
    all_goals simp
  | _ :: _, [], [], s, t, _, _, hst => by
    rw [checkContents, checkContents]
    · exact lockstep_pure hst
    all_goals simp

end

/-! ## Arguments -/

/-- Arguments that are equated are checked in lockstep. -/
theorem lockstep_checkArguments (index : Nat) {args args' : List Value}
    (hargs : List.Forall₂ (Value.Equated call w store) args args')
    (htypes : ∀ i, i < args.length →
      (signature.typeAt (index + i)).OfTypes (NamedType.Respects call (Value.Equated call w store)))
    (hst : s.Parallel t) :
    Lockstep (ExceptT.mk (checkArguments call .standard signature index args s))
      (ExceptT.mk (checkArguments call .standard signature index args' t))
      CheckState.Parallel := by
  induction hargs generalizing index s t with
  | nil => exact lockstep_pure hst
  | @cons x y xs ys hxy hrest ih =>
    have hvalue : Lockstep (checkValue call .standard signature (index + 1)
        (signature.typeAt index) [signature.slotFor index] x s) (checkValue call .standard signature
          (index + 1) (signature.typeAt index) [signature.slotFor index] y t)
            CheckState.Parallel :=
      lockstep_checkValue (index + 1) _ _ (htypes 0 (by simp)) hst hxy
    refine Run.lockstep_bind hvalue fun e d hed => ?_
    cases e with
    | ok s' =>
      cases d with
      | ok t' =>
        refine ih (index + 1) (fun i hi => ?_) hed
        rw [Nat.add_assoc, Nat.add_comm 1]
        exact htypes (i + 1) (Nat.succ_lt_succ hi)
      | error u => exact hed.elim
    | error v =>
      cases d with
      | ok t' => exact hed.elim
      -- both violations are noted
      | error u =>
        exact Run.lockstep_bind (P := fun _ _ => True) (Run.lockstep_of_forall fun _ _ => trivial)
          fun _ _ _ => Run.lockstep_pure hed

end Values

/-- Both checks pass with the same bindings, or both end in parallel violations. -/
def CheckResult.Agrees : CheckResult → CheckResult → Prop
  | .passed bindings, .passed bindings' => bindings = bindings'
  | .violated v, .violated u => v.Parallel u
  | _, _ => False

/-- Checks of equal arguments agree, if the types of the signature respect equality. -/
theorem check_congr {args args' : List Value}
    (htypes : ∀ slot ∈ signature.slots,
      slot.type.OfTypes (NamedType.Respects call (Value.Equated call w store)))
    (hargs : List.Forall₂ (Value.Equated call w store) args args') :
    Run.Lockstep (check call .standard signature args) (check call .standard signature args')
      CheckResult.Agrees := by
  rw [check, check, ← hargs.length_eq]
  split
  · exact Run.lockstep_pure ⟨rfl, rfl⟩
  rename_i harity
  have haccepts : signature.accepts args.length = true := by simpa using harity
  have hall := lockstep_checkArguments 0 hargs (fun i hi => by
    rw [Nat.zero_add]
    exact forall_typeAt htypes haccepts hi) CheckState.Parallel.initial
  refine Run.lockstep_bind hall fun e d hed => ?_
  cases e with
  | ok s =>
    cases d with
    -- the bindings are noted if there are any, and the checks pass either way
    | ok t =>
      dsimp only
      rw [← hed.bindings_eq]
      split
      · exact Run.lockstep_bind (P := fun _ _ => True) (Run.lockstep_of_forall fun _ _ => trivial)
          fun _ _ _ => Run.lockstep_pure rfl
      · exact Run.lockstep_pure rfl
    | error u => exact hed.elim
  | error v =>
    cases d with
    | ok t => exact hed.elim
    | error u => exact Run.lockstep_pure hed

/-- One number of two kinds, by itself and in an array. -/
def unitStore : Nat → Value
  | 0 => .number (.numbered 0) (.int 1)
  | 1 => .number (.numbered 1) (.fraction 1)
  | 2 => .seq .list (.numbered 2) [.number (.numbered 0) (.int 1)]
  | 3 => .seq .list (.numbered 3) [.number (.numbered 1) (.fraction 1)]
  | _ => .null

/-- A check of a number and an array of it goes as with the number of the other kind. -/
theorem check_congr_units :
    (∃ w, (check applyFunction .standard elementOf [unitStore 0, unitStore 2]).outcome .initial =
      (.ok (.passed [("a", StandardType.integer.named)]), w)) ∧
    ∀ r, ((check applyFunction .standard elementOf [unitStore 1, unitStore 3]).outcome
      .initial).1 = .ok r → r = .passed [("a", StandardType.integer.named)] := by
  have hone : (unitStore 0).Sound applyFunction .initial unitStore := .number rfl
  have hunit : (unitStore 1).Sound applyFunction .initial unitStore := .number rfl
  have hlist : (unitStore 2).Sound applyFunction .initial unitStore :=
    .seq rfl (List.forall_mem_singleton.2 hone)
  have hlist' : (unitStore 3).Sound applyFunction .initial unitStore :=
    .seq rfl (List.forall_mem_singleton.2 hunit)
  have htypes : ∀ slot ∈ elementOf.slots,
      slot.type.OfTypes (NamedType.Respects applyFunction
        (Value.Equated applyFunction .initial unitStore)) := by
    intro slot hslot
    simp only [elementOf, List.mem_cons, List.not_mem_nil, or_false] at hslot
    rcases hslot with rfl | rfl
    · exact trivial
    · exact ⟨StandardType.respects .array, trivial, trivial⟩
  have hargs : List.Forall₂ (Value.Equated applyFunction .initial unitStore)
      [unitStore 0, unitStore 2] [unitStore 1, unitStore 3] :=
    .cons (.of_equal hone hunit rfl) (.cons (.of_equal hlist hlist' rfl) .nil)
  refine ⟨⟨_, rfl⟩, fun r hr => ?_⟩
  have hagrees := check_congr htypes hargs .initial .initial
    (.passed [("a", StandardType.integer.named)]) r rfl hr
  cases r with
  | passed bindings => exact congrArg CheckResult.passed hagrees.symm
  | violated v => exact hagrees.elim

/-- The type of the values that are written like one day. -/
def writtenDay : NamedType :=
  ⟨"Day", 0, 0, .custom (.function (.compose
    (.function (.partial_ (.inspection .same) [.str "datetime.date(2020, 2, 29)"]))
    (.function (.primitive .toText)))), none⟩

/-- A type of one's own can tell a day from its midnight, and so can a check against it. -/
theorem writtenDay_not_congr :
    (Value.equals applyFunction (Value.dayStore 1) (Value.dayStore 3)).Answers .initial
      (.bool true) ∧
    (∃ w, (check applyFunction .standard ⟨"same", [], [⟨.concrete writtenDay [], false⟩],
      .concrete StandardType.boolean.named []⟩ [Value.dayStore 1]).outcome .initial =
        (.ok (.passed []), w)) ∧
    ∃ v w, (check applyFunction .standard ⟨"same", [], [⟨.concrete writtenDay [], false⟩],
      .concrete StandardType.boolean.named []⟩ [Value.dayStore 3]).outcome .initial =
        (.ok (.violated v), w) :=
  ⟨rfl, ⟨_, rfl⟩, ⟨_, _, rfl⟩⟩

end CheckedCalls
