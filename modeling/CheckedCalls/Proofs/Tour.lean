import CheckedCalls.Proofs.Lockstep
import CheckedCalls.Proofs.Visits

/-!
# The tour of a check

What a check demands of native values, whatever parts of a signature they meet. A check that passes
makes the visits of a tour (`TypeExpr.tour`), each of which is accepted, and records what the visits
record; a check that does not pass finds a visit that is not accepted, or a record that cannot be
made (`settles_tour`). The types that a signature brings itself must answer the same whenever they
are asked (`NamedType.Consistent`), as the types of the library do.
-/

namespace CheckedCalls

open CheckState Checking Check
open StandardType (standing)

variable {call : Apply} {signature : Signature} {custom : Value → Value → List (List Value)}
variable {s : CheckState} {v : Value}

/-! ## Types that answer the same again -/

/-- Asked again about a native value the type answers the same, and for a value that it contains it
hands out what it is said to; that is native. -/
structure NamedType.Consistent (call : Apply) (custom : Value → Value → List (List Value))
    (t : NamedType) : Prop where
  answer : ∀ v, v.isNative = true → Run.Lockstep (t.contains call v) (t.contains call v) Eq
  extraction : ∀ v, v.isNative = true → (∃ w, ((t.contains call v).outcome w).1 = .ok true) →
    ∀ e, t.extraction = some e →
      Run.Ensures (e.run call v)
        fun params => List.Forall₂ Value.RunsThrough params (e.hands custom v)
  contents : ∀ v, v.isNative = true →
    ∀ items ∈ t.contents custom v, ∀ x ∈ items, x.isNative = true

/-- The types of the library answer the same again. -/
theorem StandardType.consistent (t : StandardType) : t.named.Consistent call custom where
  answer v _ := by
    rw [contains_named]
    exact Run.lockstep_liftM fun b c hb hc => Except.ok.inj (hb.symm.trans hc)
  extraction := by
    rintro v hv ⟨w, htrue⟩ e he
    rw [contains_named] at htrue
    have hshape := shape_of_has (Option.isSome_iff_exists.2 ⟨e, he⟩) hv (has_of_test htrue)
    have hhands : e.hands custom v = v.held := by
      cases t <;> cases he <;> rfl
    rw [hhands, run_extraction_of_shape call hshape he]
    refine Run.ensures_pure ?_
    rw [List.forall₂_map_left_iff]
    exact List.forall₂_same.2 fun _ _ => rfl
  contents v hv items hitems x hx := by
    refine Value.isNative_of_holds hv ⟨items, ?_, hx⟩
    cases t <;> first | exact hitems | cases hitems

/-! ## What a check visits if nothing is refused -/

mutual

/-- The visits that a check of a value against a type makes, if it passes. -/
def TypeExpr.tour (custom : Value → Value → List (List Value)) :
    TypeExpr → SpanKey → Value → List Visit
  | .var name args, key, v => ⟨.var name args, key, v⟩ ::
      TypeExpr.tourOfAll custom key 0 args (trailing args.length (v.heldFor args.length))
  | .concrete t args, key, v => ⟨.concrete t args, key, v⟩ ::
      if t == StandardType.typeRep.named then []
      else TypeExpr.tourOfAll custom key 0 args (trailing args.length (t.contents custom v))
  | .fn params result, key, v => [⟨.fn params result, key, v⟩]
  | .foreign, key, v => [⟨.foreign, key, v⟩]

/-- The visits of what is handed out for the type arguments from place `i` on. -/
def TypeExpr.tourOfAll (custom : Value → Value → List (List Value)) (key : SpanKey) (i : Nat) :
    List TypeExpr → List (List Value) → List Visit
  | arg :: args, items :: rest => items.flatMap (TypeExpr.tour custom arg (key ++ [i])) ++
      TypeExpr.tourOfAll custom key (i + 1) args rest
  | _, _ => []

end

/-- The type representative is a member of every type class that a variable among the type arguments
is constrained by. -/
def Signature.Represents (signature : Signature) (args : List TypeExpr) (rep : Value) : Prop :=
  ∀ name targs, .var name targs ∈ args →
    ∀ c ∈ signature.constraintsOn name, Registry.standard.satisfiesRep c rep = .ok true

/-- The part of the signature takes the value, whatever was seen of the variables. -/
def Visit.IsAccepted (call : Apply) (signature : Signature) (visit : Visit) : Prop :=
  match visit.expr with
  | .var name _ => signature.Admits call name visit.value
  | .concrete t args => (∃ w, ((t.contains call visit.value).outcome w).1 = .ok true) ∧
      ((t == StandardType.typeRep.named) = true → signature.Represents args visit.value)
  | .fn _ _ => visit.value.isCallable = true
  | .foreign => False

/-- The records that a visit makes: those of a variable for the value, and for what it holds for the
parameters that no argument of the variable is for. -/
def Visit.records (position : Nat) (visit : Visit) : List (VarKey × Observation) :=
  match visit.expr with
  | .var name args => (.named name, ⟨position, visit.value, visit.key⟩) ::
      observationsOfHeld position visit.key (.named name) 0
        (unnamed args.length (visit.value.heldFor args.length))
  | _ => []

/-! ## What a check settles -/

/-- Testing the constraints on a representative settles that every class admits it. -/
theorem settles_representAll (name : String) (rep : Value) (position : Nat) (key : SpanKey)
    (classes : List String) :
    Settles (representAll call .standard signature name rep position key classes s)
      (∀ c ∈ classes, Registry.standard.satisfiesRep c rep = .ok true) s [] := by
  induction classes with
  | nil => exact .pure (by simp)
  | cons c cs ih =>
    rw [representAll]
    refine ends_except_bind fun b hb => ?_
    cases b with
    | true =>
      refine Settles.of_iff ih ?_
      rw [List.forall_mem_cons]
      exact ⟨fun h => ⟨hb, h⟩, And.right⟩
    | false =>
      refine Settles.of_not (fun h => ?_)
        (ends_unsatisfied (fun _ => trivial) name c rep position key)
      cases hb.symm.trans (h c List.mem_cons_self)

/-- Reading a representative settles what its arguments demand of it. -/
theorem settles_checkRep (rep : Value) (position : Nat) (key : SpanKey) (args : List TypeExpr) :
    Settles (checkRep call .standard signature rep position key args s)
      (signature.Represents args rep) s [] := by
  induction args generalizing s with
  | nil => exact .pure fun _ _ h => by cases h
  | cons e args ih =>
    cases e with
    | var name targs =>
      rw [checkRep]
      refine ((settles_representAll name rep position key _).bind fun s' _ => ih).of_iff ?_
      constructor
      · rintro ⟨hfirst, hrest⟩ n ts hmem
        rcases List.mem_cons.1 hmem with heq | hmem
        · cases heq
          exact hfirst
        · exact hrest n ts hmem
      · intro h
        exact ⟨h name targs List.mem_cons_self,
          fun n ts hmem => h n ts (List.mem_cons_of_mem _ hmem)⟩
    | concrete | fn | foreign =>
      rw [checkRep]
      · exact ih.of_iff ⟨fun h n ts hmem => h n ts (by simpa using hmem),
          fun h n ts hmem => h n ts (List.mem_cons_of_mem _ hmem)⟩
      · simp

theorem checkContents_nil (position : Nat) (key : SpanKey) (i : Nat) (args : List TypeExpr)
    (s : CheckState) :
    checkContents call .standard signature position key i args [] s = pure s := by
  cases args <;> rw [checkContents] <;> simp

theorem tourOfAll_nil (key : SpanKey) (i : Nat) (args : List TypeExpr) :
    TypeExpr.tourOfAll custom key i args [] = [] := by
  cases args <;> rw [TypeExpr.tourOfAll] <;> simp

theorem trailing_nil {α : Type} (named : Nat) : trailing named ([] : List α) = [] := by
  simp [trailing]

mutual

/-- A check of a native value settles that each visit of its tour is accepted, and the records of
the visits. -/
theorem settles_tour (position : Nat) : ∀ (e : TypeExpr) (key : SpanKey) {v : Value}
    {s : CheckState}, e.OfTypes (NamedType.Consistent call custom) → v.isNative = true →
      Faithful standing s →
      Settles (checkValue call .standard signature position e key v s)
        (∀ visit ∈ e.tour custom key v, visit.IsAccepted call signature) s
        ((e.tour custom key v).flatMap (Visit.records position))
  | .var name args, key, v, s, he, hv, hs => by
    rw [checkValue, TypeExpr.tour, List.flatMap_cons, List.forall_mem_cons]
    have hfirst : Settles (satisfyAll call .standard signature name v position key
          (signature.constraintsOn name) s >>= fun s => unify call .standard signature position key
            v.reach (.named name) args.length v s)
        (signature.Admits call name v) s
        (Visit.records position ⟨.var name args, key, v⟩) :=
      ((settles_satisfyAll name v position key _).bind fun s' hs' =>
        settles_unify position key v.reach (.named name) args.length (hs.recordAll hs') hv).congr
          (iff_of_eq (and_true _)) rfl
    rw [← bind_assoc]
    refine hfirst.bind fun s' hs' => ?_
    have hs'' : Faithful standing s' := hs.recordAll hs'
    -- the value was seen for the variable, so what was left for the variable shows what it holds
    have hseen : ∃ o ∈ s'.observed (.named name), o.value = v := by
      rw [Visit.records, recordAll_cons, Option.bind_eq_some_iff] at hs'
      obtain ⟨s₁, hrecord, hrest⟩ := hs'
      have hreaches : s₁.Reaches standing s' := ⟨_, hrest⟩
      exact ⟨_, hreaches.observed_subset _ (mem_observed_of_record hrecord), rfl⟩
    obtain ⟨cs, hcs⟩ : ∃ cs, s'.candidates? (.named name) = some cs := by
      rw [← Option.ne_none_iff_exists']
      intro hnone
      obtain ⟨o, ho, -⟩ := hseen
      rw [hs''.unseen _ hnone] at ho
      cases ho
    rcases args with _ | ⟨arg, args⟩
    · exact .pure (by simp [TypeExpr.tourOfAll])
    simp only [hcs, Option.getD_some, List.isEmpty_cons, Bool.false_eq_true, if_false]
    refine settles_extractor hs'' hcs hseen hv ?_ ?_
    · rw [trailing_nil, checkContents_nil]
    refine settles_tourOfAll position key 0 (arg :: args) (forall₂_trailing ?_ _) he ?_ hs''
    · rw [List.forall₂_map_left_iff]
      exact List.forall₂_same.2 fun _ _ => rfl
    · exact fun items hitems x hx =>
        Value.isNative_of_mem_heldFor hv (List.mem_of_mem_drop hitems) hx
  | .fn params result, key, v, s, he, hv, hs => by
    rw [checkValue, TypeExpr.tour]
    split
    · exact .pure (by simpa [Visit.IsAccepted])
    · refine .of_not (fun h => ?_) (ends_invalidValue (fun _ => trivial) _ v position key)
      exact absurd (h _ (List.mem_singleton_self _)) ‹_›
  | .concrete t args, key, v, s, he, hv, hs => by
    rw [checkValue, TypeExpr.tour]
    refine .answered_bind fun b hb => ?_
    have hsame : ∀ c, (∃ w, ((t.contains call v).outcome w).1 = .ok c) → b = c := by
      obtain ⟨w, hb⟩ := hb
      rintro c ⟨w', hc⟩
      exact he.1.answer v hv w w' b c hb hc
    cases b with
    | false =>
      refine .of_not (fun h => ?_) (ends_invalidValue (fun _ => trivial) _ v position key)
      cases hsame true (h _ List.mem_cons_self).1
    | true =>
      by_cases hrep : (t == StandardType.typeRep.named) = true
      · simp only [hrep, Bool.not_true, Bool.false_eq_true, if_false, if_true]
        refine (settles_checkRep v position key args).congr ?_ rfl
        have hanswer : ∃ w, ((t.contains call v).outcome w).1 = .ok true := hb
        simp [Visit.IsAccepted, hanswer, hrep]
      rw [Bool.not_true, if_neg Bool.false_ne_true, if_neg hrep, if_neg hrep]
      have haccepted : ∀ rest : List Visit,
          (∀ visit ∈ ⟨.concrete t args, key, v⟩ :: rest, visit.IsAccepted call signature) ↔
            ∀ visit ∈ rest, visit.IsAccepted call signature := by
        intro rest
        rw [List.forall_mem_cons]
        exact and_iff_right ⟨hb, fun h => absurd h hrep⟩
      rw [haccepted, List.flatMap_cons]
      rcases args with _ | ⟨arg, args⟩
      · exact .pure (by simp [TypeExpr.tourOfAll])
      rw [List.isEmpty_cons, if_neg Bool.false_ne_true]
      have hnative := he.1.contents v hv
      rw [NamedType.contents] at hnative ⊢
      rcases hextraction : t.extraction with _ | e
      · rw [trailing_nil, tourOfAll_nil]
        exact .pure (by simp)
      rw [hextraction] at hnative
      refine ends_run_bind (he.1.extraction v hv hb e hextraction) fun params hparams => ?_
      exact settles_tourOfAll position key 0 (arg :: args) (forall₂_trailing hparams _) he.2
        (fun items hitems => hnative items (List.mem_of_mem_drop hitems)) hs
  | .foreign, key, v, s, he, hv, hs => by
    rw [checkValue]
    exact ends_fail _

/-- Checking contents of a value settles the demands on every visit of the tour through them. -/
theorem settles_tourOfAll (position : Nat) (key : SpanKey) (i : Nat) :
    ∀ (args : List TypeExpr) {params : List Value} {held : List (List Value)} {s : CheckState},
      List.Forall₂ Value.RunsThrough params held →
      TypeExpr.AllOfTypes (NamedType.Consistent call custom) args →
      (∀ items ∈ held, ∀ x ∈ items, x.isNative = true) → Faithful standing s →
      Settles (checkContents call .standard signature position key i args params s)
        (∀ visit ∈ TypeExpr.tourOfAll custom key i args held, visit.IsAccepted call signature) s
        ((TypeExpr.tourOfAll custom key i args held).flatMap (Visit.records position))
  | arg :: args, p :: ps, items :: held, s, hparams, hargs, hnative, hs => by
    rw [List.forall₂_cons] at hparams
    rw [List.forall_mem_cons] at hnative
    rw [checkContents, TypeExpr.tourOfAll]
    have hitems : Settles (forEach p (fun s item => checkValue call .standard signature position arg
          (key ++ [i]) item s) s)
        (∀ x ∈ items, ∀ visit ∈ arg.tour custom (key ++ [i]) x, visit.IsAccepted call signature) s
        (items.flatMap fun x =>
          (arg.tour custom (key ++ [i]) x).flatMap (Visit.records position)) :=
      Settles.forEach hparams.1 hs fun x hx s hs =>
        settles_tour position arg (key ++ [i]) hargs.1 (hnative.1 x hx) hs
    refine (hitems.bind fun s' hs' => settles_tourOfAll position key (i + 1) args hparams.2 hargs.2
      hnative.2 (hs.recordAll hs')).congr ?_ ?_
    · rw [List.forall_mem_append, List.forall_mem_flatMap]
    · rw [List.flatMap_append, List.flatMap_assoc]
  | [], _, _, s, _, _, _, _ => by
    rw [checkContents, TypeExpr.tourOfAll]
    · exact .pure (by simp)
    all_goals simp
  | _ :: _, [], held, s, hparams, _, _, _ => by
    rw [List.forall₂_nil_left_iff] at hparams
    rw [hparams, checkContents_nil, tourOfAll_nil]
    exact .pure (by simp)

end

/-! ## What is recorded is native -/

section Native

variable {position : Nat} {spanKey : SpanKey} {key : VarKey}

/-- What is met below a native value is native. -/
theorem isNative_of_mem_observationsOfHeld {held : List (List Value)}
    (h : ∀ items ∈ held, ∀ x ∈ items, ∀ k, ∀ p ∈ x.observations position spanKey k,
      p.2.value.isNative = true) (i : Nat) :
    ∀ p ∈ observationsOfHeld position spanKey key i held, p.2.value.isNative = true := by
  induction held generalizing i with
  | nil => exact fun p hp => by cases hp
  | cons items held ih =>
    rw [List.forall_mem_cons] at h
    rw [observationsOfHeld, List.forall_mem_append, List.forall_mem_flatMap]
    exact ⟨fun x hx => h.1 x hx _, ih h.2 (i + 1)⟩

/-- What is met in unifying a native value is native. -/
theorem isNative_of_mem_observations (hv : v.isNative = true) :
    ∀ p ∈ v.observations position spanKey key, p.2.value.isNative = true := by
  induction hn : v.depth using Nat.strongRecOn generalizing v key with
  | ind n ih =>
    rw [Value.observations_eq, List.forall_mem_cons]
    refine ⟨hv, isNative_of_mem_observationsOfHeld (fun items hitems x hx k => ?_) 0⟩
    exact ih x.depth (hn ▸ depth_lt_of_mem_held hitems hx)
      (Value.isNative_of_holds hv ⟨items, hitems, hx⟩) rfl

/-- The records of a visit to a native value are of native values. -/
theorem isNative_of_mem_records {visit : Visit} (hv : visit.value.isNative = true) :
    ∀ p ∈ visit.records position, p.2.value.isNative = true := by
  rw [Visit.records]
  split
  · rw [List.forall_mem_cons]
    refine ⟨hv, isNative_of_mem_observationsOfHeld (fun items hitems x hx k => ?_) 0⟩
    exact isNative_of_mem_observations
      (Value.isNative_of_mem_heldFor hv (List.mem_of_mem_take hitems) hx)
  · exact fun p hp => by cases hp

mutual

/-- A tour through a native value visits native values only. -/
theorem isNative_of_mem_tour : ∀ (e : TypeExpr) (key : SpanKey) {v : Value},
    e.OfTypes (NamedType.Consistent call custom) → v.isNative = true →
      ∀ visit ∈ e.tour custom key v, visit.value.isNative = true
  | .var name args, key, v, he, hv => by
    rw [TypeExpr.tour, List.forall_mem_cons]
    exact ⟨hv, isNative_of_mem_tourOfAll args key 0 he fun items hitems x hx =>
      Value.isNative_of_mem_heldFor hv (List.mem_of_mem_drop hitems) hx⟩
  | .concrete t args, key, v, he, hv => by
    rw [TypeExpr.tour, List.forall_mem_cons]
    refine ⟨hv, ?_⟩
    split
    · exact fun visit hvisit => by cases hvisit
    · exact isNative_of_mem_tourOfAll args key 0 he.2 fun items hitems =>
        he.1.contents v hv items (List.mem_of_mem_drop hitems)
  | .fn _ _, _, _, _, hv | .foreign, _, _, _, hv => by
    rw [TypeExpr.tour, List.forall_mem_singleton]
    exact hv

/-- A tour through native contents visits native values only. -/
theorem isNative_of_mem_tourOfAll : ∀ (args : List TypeExpr) (key : SpanKey) (i : Nat)
    {held : List (List Value)}, TypeExpr.AllOfTypes (NamedType.Consistent call custom) args →
      (∀ items ∈ held, ∀ x ∈ items, x.isNative = true) →
      ∀ visit ∈ TypeExpr.tourOfAll custom key i args held, visit.value.isNative = true
  | arg :: args, key, i, items :: held, hargs, hheld => by
    rw [List.forall_mem_cons] at hheld
    rw [TypeExpr.tourOfAll, List.forall_mem_append, List.forall_mem_flatMap]
    exact ⟨fun x hx => isNative_of_mem_tour arg _ hargs.1 (hheld.1 x hx),
      isNative_of_mem_tourOfAll args key (i + 1) hargs.2 hheld.2⟩
  | [], _, _, _, _, _ => by
    rw [TypeExpr.tourOfAll]
    · exact fun visit hvisit => by cases hvisit
    · simp
  | _ :: _, _, _, [], _, _ => by
    rw [tourOfAll_nil]
    exact fun visit hvisit => by cases hvisit

end

end Native

end CheckedCalls
