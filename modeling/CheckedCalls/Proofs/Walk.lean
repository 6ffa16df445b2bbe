import CheckedCalls.Proofs.Course

/-!
# The walk of a check

In surroundings as `Course` asks for, each step of a check keeps the state as `Before` says, or it
ends in a violation that is compiled from what was met (`Compiled`). A check by and large takes its
steps from left to right and from a value to what the value holds; so the walk is by recursion on
the expressions of the signature, and where values are unified on their depth. All that is said of
reports, and that checks have an end, is read off the conclusion (`concludes_check`).
-/

namespace CheckedCalls

open CheckState Checking Check

/-! ## Loops -/

section Loops

variable {I : World → Prop} {E : Fault → Prop} {R : Address → CheckState → Prop}
variable {P : Value → Prop} {Q : Violation → Prop} {s : CheckState}

/-- A loop over the items of a container meets them one after the other. -/
theorem concludes_forEach {step : CheckState → Value → Checking CheckState} {container : Value}
    (p : Address) (hstep : ∀ xs n x s, container.RunsThrough xs → xs[n]? = some x → P x →
      R (p ++ [n]) s → Concludes I E (step s x) (R (p ++ [n + 1])) Q)
    (hcontainer : Run.Concludes I E container.elements fun xs => ∀ x ∈ xs, P x)
    (hs : R (p ++ [0]) s) :
    Concludes I E (forEach container step s) (fun s' => ∃ n, R (p ++ [n]) s') Q := by
  refine concludes_run_bind (hcontainer.and_ensures container.ensures_elements) fun xs hxs => ?_
  obtain ⟨hP, hruns⟩ := hxs
  let L : List Value → CheckState → Prop := fun rest s =>
    ∃ done, done ++ rest = xs ∧ R (p ++ [done.length]) s
  have hround : ∀ x rest s, L (x :: rest) s → Concludes I E (step s x) (L rest) Q := by
    rintro x rest s ⟨done, rfl, hs⟩
    have hx : P x := hP x (List.mem_append_right _ List.mem_cons_self)
    refine (hstep _ done.length x s hruns (by simp) hx hs).mono fun s' hs' => ?_
    exact ⟨done ++ [x], by simp, by rwa [List.length_append, List.length_singleton]⟩
  have hfirst : L xs s := ⟨[], rfl, hs⟩
  exact (concludes_foldlM hround hfirst).mono fun _ ⟨done, _, h⟩ => ⟨done.length, h⟩

variable (hmono : ∀ {a b s}, a < b → R a s → R b s)
include hmono

/-- A loop over parameters meets their items one after the other. -/
theorem concludes_forPlaces {step : Nat → CheckState → Value → Checking CheckState} (p : Address)
    {next : Address} (hnext : ∀ j d, p ++ j :: d < next) (k : Nat) {params : List Value}
    (hstep : ∀ j n x s, HeldAt params j n x → P x → R (p ++ [k + j, n]) s →
      Concludes I E (step (k + j) s x) (R (p ++ [k + j, n + 1])) Q)
    (hparams : Handed I E P params) (hs : R (p ++ [k, 0]) s) :
    Concludes I E (forPlaces (fun i s items => forEach items (step i) s) k params s) (R next)
      Q := by
  induction params generalizing k s with
  | nil => exact concludes_pure (hmono (hnext _ _) hs)
  | cons items params ih =>
    have hfirst : Concludes I E (forEach items (step k) s) (fun s' => ∃ n, R (p ++ [k] ++ [n]) s')
        Q := by
      refine concludes_forEach (P := P) (p ++ [k]) (fun xs n x s hruns hx hP hs => ?_)
        (hparams items List.mem_cons_self) (by simpa using hs)
      rw [List.append_assoc] at hs ⊢
      exact hstep 0 n x s ⟨items, xs, rfl, hruns, hx⟩ hP hs
    refine concludes_bind hfirst fun s' ⟨n, hs'⟩ => ih (k + 1) (fun j n x s hheld hP hs => ?_)
      (fun items hitems => hparams items (List.mem_cons_of_mem _ hitems)) ?_
    · rw [Nat.succ_add_eq_add_succ] at hs ⊢
      exact hstep (j + 1) n x s hheld hP hs
    · rw [List.append_assoc] at hs'
      exact hmono (Address.append_lt_append (Nat.lt_succ_self k) p _ _) hs'

end Loops

section Course

variable {I : World → Prop} {E : Fault → Prop} {call : Apply} {vocabulary : Vocabulary}
variable {signature : Signature} {args : List Value} {S : Value → Prop} {K : CheckState → Prop}
variable {s : CheckState} {key : VarKey} {i : Nat} {e : TypeExpr} {spanKey : SpanKey} {v : Value}
variable {address next : Address} {o : Observation} {P : CheckState → Prop}

theorem Handed.unnamed {Q : Value → Prop} {params : List Value} (h : Handed I E Q params)
    (named : Nat) : Handed I E Q (unnamed named params) :=
  fun items hitems => h items (List.take_subset _ _ hitems)

theorem Handed.trailing {Q : Value → Prop} {params : List Value} (h : Handed I E Q params)
    (named : Nat) : Handed I E Q (trailing named params) :=
  fun items hitems => h items (List.drop_subset _ _ hitems)

theorem concludes_fail {f : Fault} (hf : E f) {Q : Violation → Prop} :
    Concludes I E (Checking.fail f : Checking CheckState) P Q :=
  fun _ _ => hf

/-- Unifying a value keeps what was seen, and sees the value. -/
theorem ends_unify_observed (call : Apply) (vocabulary : Vocabulary) (signature : Signature)
    (position : Nat) (spanKey : SpanKey) (fuel : Nat) (key : VarKey) (named : Nat) (v : Value)
    (s : CheckState) :
    Ends (unify call vocabulary signature position spanKey fuel key named v s)
      (fun s' => (∀ k, s.observed k ⊆ s'.observed k) ∧ ∃ o ∈ s'.observed key, o.value = v)
      fun _ => True := by
  induction fuel generalizing key named v s with
  | zero => exact ends_fail _
  | succ fuel ih =>
    rw [unify]
    refine ends_run_bind (Run.ensures_of_forall fun _ => trivial) fun d _ => ?_
    dsimp only
    split
    · exact ends_nothingInCommon (fun _ => trivial) _
    have hgrows : ∀ k, s.observed k ⊆ (s.observe key ⟨position, v, spanKey⟩).observed k := by
      intro k
      rw [observed_observe_ite]
      split
      · rename_i heq
        rw [heq]
        exact List.subset_append_left _ _
      · exact List.Subset.refl _
    have hseen := mem_observed_observe s key ⟨position, v, spanKey⟩
    split
    · exact ends_pure ⟨hgrows, _, hseen, rfl⟩
    refine ends_run_bind (Run.ensures_of_forall fun _ => trivial) fun params _ => ?_
    let R : CheckState → Prop := fun s' =>
      ∀ k, (s.observe key ⟨position, v, spanKey⟩).observed k ⊆ s'.observed k
    have hfirst : R ((s.observe key ⟨position, v, spanKey⟩).narrow key
        (s.candidatesAfter key (rank d))) := fun k => List.Subset.refl _
    refine (ends_forPlaces_of (P := R) 0 _ (fun j x s₁ _ hs₁ => ?_) hfirst).mono
      (fun s' hs' => ⟨fun k => List.Subset.trans (hgrows k) (hs' k), _, hs' key hseen, rfl⟩)
      fun _ h => h
    exact (ih (.inner key (0 + j)) 0 x s₁).mono
      (fun s₂ h k => List.Subset.trans (hs₁ k) (h.1 k)) fun _ h => h

section Surroundings

variable (hc : Course I E call vocabulary signature args S K)
include hc

/-! ## Violations -/

/-- Adding a value to a report adds a line that shows it. -/
theorem concludes_addValue (b : ViolationBuilder) (ho : S o.value) :
    Run.Concludes I E (addValue call vocabulary signature b o.position o.value o.key) fun b' =>
      ∃ text types, OffendingValue.PrintsIn I call vocabulary.env
          ⟨(b.values.length + 1 : Nat), text, types⟩ o.value ∧
        b' = b.value o.position text types (signature.span? o.key) := by
  rw [addValue]
  refine Run.concludes_bind (hc.text _ ho).answersIn fun text htext => ?_
  have hnames : Run.Concludes I E (typeNames call vocabulary.env o.value) fun types =>
      ∃ d, (describe call vocabulary.env o.value).AnswersIn I d ∧
        types = d.map NamedType.name :=
    Run.concludes_bind (hc.described _ ho).answersIn fun d hd => Run.concludes_pure ⟨d, hd.2, rfl⟩
  exact Run.concludes_bind hnames fun types htypes =>
    Run.concludes_pure ⟨text, types, ⟨htext.2, htypes⟩, rfl⟩

theorem concludes_invalidValue
    (hmeets : signature.MeetsAt call vocabulary.env args i address ⟨e, spanKey, v⟩) (hv : S v)
    (hrejects : e.Rejects call v) :
    Concludes I E (invalidValue call vocabulary signature e v (i + 1) spanKey) P
      (Compiled call vocabulary signature args S K I i) := by
  refine concludes_run_bind (concludes_addValue hc _ (o := ⟨i + 1, v, spanKey⟩) hv) ?_
  rintro _ ⟨text, types, hprints, rfl⟩
  have hlines := (tabulates_report I call vocabulary signature .invalidValue).value hprints
  exact concludes_throw ⟨_, _, _, rfl, hlines, address, ⟨e, spanKey, v⟩, hmeets, hv, hrejects, rfl,
    rfl, rfl⟩

theorem concludes_unsatisfied {name typeClass : String}
    (hmeets : signature.MeetsAt call vocabulary.env args i address ⟨e, spanKey, v⟩) (hv : S v)
    (hconstraint : ⟨typeClass, name⟩ ∈ signature.constraints)
    (hfails : Visit.Fails call vocabulary.registry name typeClass ⟨e, spanKey, v⟩) :
    Concludes I E (unsatisfied call vocabulary signature name typeClass v (i + 1) spanKey) P
      (Compiled call vocabulary signature args S K I i) := by
  obtain ⟨span, hspan⟩ := Signature.exists_constraintSpan hconstraint
  rw [unsatisfied, constraintPlace, hspan]
  refine concludes_run_bind (concludes_addValue hc _ (o := ⟨i + 1, v, spanKey⟩) hv) ?_
  rintro _ ⟨text, types, hprints, rfl⟩
  have hmarked := (tabulates_report I call vocabulary signature .typeClass).underline
    span.1 span.2 ""
  exact concludes_throw ⟨_, _, _, rfl, hmarked.value hprints, address, ⟨e, spanKey, v⟩, name,
    typeClass, span, hmeets, hv, hconstraint, hfails, rfl, hspan, rfl, rfl⟩

/-- The value that is met now has no type in common with those seen before it. -/
theorem concludes_nothingInCommon {d : List NamedType}
    (hs : Before call vocabulary signature args S K address s)
    (ho : o.StandsAt call vocabulary.env signature args key address) (hvalue : S o.value)
    (hposition : o.position = i + 1)
    (hd : (describe call vocabulary.env o.value).AnswersIn I d)
    (hempty : s.candidatesAfter key (rank d) = []) :
    Concludes I E (nothingInCommon call vocabulary signature ((s.observe key o).observed key)) P
      (Compiled call vocabulary signature args S K I i) := by
  have hclass : ∀ p ∈ s.observed key ++ [o], S p.value := by
    intro p hp
    have hseen := (hs.seen key).snoc ho hvalue (Address.lt_append address 0 [])
    obtain ⟨_, -, hp⟩ := hseen.exists_standsAt hp
    exact hp
  rw [observed_observe, nothingInCommon]
  -- in each round the report lists the values that are done
  let R : List Observation → ViolationBuilder → Prop := fun rest b =>
    b.kind = .typeVariable ∧ b.marks = [] ∧ ∃ done, done ++ rest = s.observed key ++ [o] ∧
      Tabulates I call vocabulary signature b done
  have hround : ∀ p rest b, R (p :: rest) b →
      Concludes I E (liftM (addValue call vocabulary signature b p.position p.value p.key)) (R rest)
        (Compiled call vocabulary signature args S K I i) := by
    rintro p rest b ⟨hkind, hmarks, done, hdone, hlines⟩
    have hp : p ∈ s.observed key ++ [o] := by
      rw [← hdone]
      simp
    rw [← bind_pure (liftM _)]
    refine concludes_run_bind (concludes_addValue hc b (hclass p hp)) ?_
    rintro _ ⟨text, types, hprints, rfl⟩
    refine concludes_pure ⟨hkind, hmarks, done ++ [p], ?_, hlines.value hprints⟩
    rw [List.append_assoc]
    exact hdone
  have hfirst : R (s.observed key ++ [o]) (report signature .typeVariable) :=
    ⟨rfl, rfl, [], rfl, tabulates_report _ _ _ _ _⟩
  refine concludes_bind (concludes_foldlM hround hfirst) ?_
  rintro b ⟨hkind, hmarks, done, hdone, hlines⟩
  rw [List.append_nil] at hdone
  rw [hdone] at hlines
  refine concludes_throw ⟨b, _, _, rfl, hlines, ?_⟩
  rw [Closes, hkind]
  exact ⟨key, s, address, o, d, hs, ho, hvalue, hposition, hd, hempty, rfl, hmarks, rfl⟩

/-! ## Unifying -/

/-- Unifying a value meets it, and then what it holds under keys of its own. -/
theorem concludes_unify (spanKey : SpanKey) (fuel named : Nat)
    (hs : Before call vocabulary signature args S K address s)
    (ho : Observation.StandsAt call vocabulary.env signature args key address
      ⟨i + 1, v, spanKey⟩) (hv : S v) (hfuel : E .tooDeep ∨ v.depth < fuel)
    (hnext : ∀ d, address ++ 0 :: d < next) :
    Concludes I E (unify call vocabulary signature (i + 1) spanKey fuel key named v s)
      (Before call vocabulary signature args S K next)
      (Compiled call vocabulary signature args S K I i) := by
  induction fuel generalizing key named v s address next with
  | zero => exact concludes_fail (hfuel.resolve_right (Nat.not_lt_zero _))
  | succ fuel ih =>
    rw [unify]
    refine concludes_run_bind ((hc.described v hv).answersIn.and_ensures
      (ensures_describe call vocabulary.env v)) fun d hdescribed => ?_
    obtain ⟨⟨-, hd⟩, hopens⟩ := hdescribed
    have htypes := hs.opensFrom_candidatesAfter key hopens
    dsimp only
    split
    · rename_i hempty
      exact concludes_nothingInCommon hc hs ho hv rfl hd (List.isEmpty_iff.1 hempty)
    rename_i hnonempty
    have hkept := hc.kept s key ⟨i + 1, v, spanKey⟩ d hs.kept hv hd (by simpa using hnonempty)
    have hrecorded := hs.record ho hv htypes hkept (Address.lt_append address 0 [0, 0])
    split
    · exact concludes_pure (hrecorded.mono (hnext _))
    rename_i extraction he
    obtain ⟨t, ht, hte⟩ := htypes.exists_of_extractor? he
    have hcandidates : extractor? ((((s.observe key ⟨i + 1, v, spanKey⟩).narrow key
        (s.candidatesAfter key (rank d))).candidates? key).getD []) named = some extraction := by
      rw [candidates?_narrow, if_pos rfl]
      exact he
    refine concludes_run_bind (hc.unfolded _ key named extraction v hkept hv
      ⟨_, mem_observed_observe s key _, rfl⟩ ⟨t, ht, hte⟩ hcandidates).answered
      fun params hparams => ?_
    obtain ⟨hheld, hrun⟩ := hparams
    refine concludes_forPlaces (fun hlt h => h.mono hlt) (address ++ [0]) (fun j d => ?_) 0
      (fun j n x s₁ hx hP hs₁ => ?_) (hheld.unnamed named) (by simpa using hrecorded)
    · rw [List.append_assoc]
      exact hnext (j :: d)
    · rw [Nat.zero_add, List.append_assoc] at hs₁ ⊢
      -- what is held is less deep, so the fuel suffices for it
      have hdepth : E .tooDeep ∨ x.depth < fuel := by
        rcases hfuel with hdeep | hfuel
        · exact .inl hdeep
        · exact hP.2.imp_right fun hless => Nat.lt_of_lt_of_le hless (Nat.le_of_lt_succ hfuel)
      refine ih 0 hs₁ (ho.inside ht hte hrun (heldAt_of_unnamed hx)) hP.1 hdepth fun d => ?_
      have hlater := Address.append_lt_append (Nat.lt_succ_self n) (address ++ [0, j]) (0 :: d) []
      simpa using hlater

/-! ## Type classes -/

/-- Testing the constraints of a variable keeps the state or reports one that fails. -/
theorem concludes_satisfyAll {name : String} {targs : List TypeExpr}
    (hmeets : signature.MeetsAt call vocabulary.env args i address ⟨.var name targs, spanKey, v⟩)
    (hv : S v) {classes : List String} (hclasses : classes ⊆ signature.constraintsOn name)
    (hs : P s) :
    Concludes I E (satisfyAll call vocabulary signature name v (i + 1) spanKey classes s) P
      (Compiled call vocabulary signature args S K I i) := by
  induction classes with
  | nil => exact concludes_pure hs
  | cons c cs ih =>
    rw [List.cons_subset] at hclasses
    have hconstraint := mem_constraints hclasses.1
    refine concludes_run_bind (hc.satisfied _ hconstraint v hv).answered fun b ⟨_, hb⟩ => ?_
    cases b with
    | true => exact ih hclasses.2
    | false => exact concludes_unsatisfied hc hmeets hv hconstraint ⟨rfl, hb⟩

section Representative

variable {t : NamedType} {targs : List TypeExpr}
variable (hmeets : signature.MeetsAt call vocabulary.env args i address
  ⟨.concrete t targs, spanKey, v⟩)
variable (hv : S v) (ht : (t == StandardType.typeRep.named) = true)
variable (hcontains : (t.contains call v).CanAnswer true)
include hmeets hv ht hcontains

/-- Testing the constraints on a representative keeps the state or reports one that fails. -/
theorem concludes_representAll {name : String} {uargs : List TypeExpr}
    (hname : .var name uargs ∈ targs) {classes : List String}
    (hclasses : classes ⊆ signature.constraintsOn name) (hs : P s) :
    Concludes I E (representAll call vocabulary signature name v (i + 1) spanKey classes s) P
      (Compiled call vocabulary signature args S K I i) := by
  induction classes with
  | nil => exact concludes_pure hs
  | cons c cs ih =>
    rw [List.cons_subset] at hclasses
    have hconstraint := mem_constraints hclasses.1
    refine concludes_except_bind (hc.represented _ hconstraint v) fun b hb => ?_
    cases b with
    | true => exact ih hclasses.2
    | false =>
      exact concludes_unsatisfied hc hmeets hv hconstraint ⟨ht, hcontains, ⟨uargs, hname⟩, hb⟩

/-- Reading a representative keeps the state or reports a constraint that fails. -/
theorem concludes_checkRep {reps : List TypeExpr} (hreps : reps ⊆ targs) (hs : P s) :
    Concludes I E (checkRep call vocabulary signature v (i + 1) spanKey reps s) P
      (Compiled call vocabulary signature args S K I i) := by
  induction reps generalizing s with
  | nil =>
    rw [checkRep]
    exact concludes_pure hs
  | cons e reps ih =>
    rw [List.cons_subset] at hreps
    cases e with
    | var name uargs =>
      rw [checkRep]
      exact concludes_bind (concludes_representAll hc hmeets hv ht hcontains hreps.1
        (List.Subset.refl _) hs) fun s' hs' => ih hreps.2 hs'
    | _ =>
      rw [checkRep]
      · exact ih hreps.2 hs
      · simp

end Representative

end Surroundings

/-! ## Values -/

mutual

/-- Checking a value that is met meets what it holds, before whatever comes after it. -/
theorem concludes_checkValue (hc : Course I E call vocabulary signature args S K) :
    ∀ (e : TypeExpr) (spanKey : SpanKey) {v : Value} {address next : Address} {s : CheckState},
      signature.MeetsAt call vocabulary.env args i address ⟨e, spanKey, v⟩ → S v →
      (∀ d, i :: (address ++ d) < next) →
      Before call vocabulary signature args S K (i :: address) s →
      Concludes I E (checkValue call vocabulary signature (i + 1) e spanKey v s)
        (Before call vocabulary signature args S K next)
        (Compiled call vocabulary signature args S K I i)
  | .var name targs, spanKey, v, address, next, s, hmeets, hv, hnext, hs => by
    have hdone : i :: address < next := by simpa using hnext []
    rw [checkValue]
    refine concludes_bind (concludes_satisfyAll hc hmeets hv (List.Subset.refl _) hs)
      fun s₁ hs₁ => ?_
    have hreach : v.depth < v.reach := Nat.lt_add_of_pos_right (by decide)
    have hunify : Concludes I E (unify call vocabulary signature (i + 1) spanKey v.reach
        (.named name) targs.length v s₁)
        (Before call vocabulary signature args S K (i :: (address ++ [1, 0, 0])))
        (Compiled call vocabulary signature args S K I i) :=
      concludes_unify hc spanKey v.reach targs.length hs₁ hmeets.standsAt hv (.inr hreach)
        fun d => Address.append_lt_append Nat.zero_lt_one (i :: address) d [0, 0]
    refine concludes_bind (hunify.and_ends (ends_unify_observed call vocabulary signature (i + 1)
      spanKey v.reach (.named name) targs.length v s₁)) fun s₂ ⟨hs₂, _, hseen⟩ => ?_
    split
    · exact concludes_pure (hs₂.mono (hnext _))
    split
    · exact concludes_pure (hs₂.mono (hnext _))
    rename_i extraction he
    -- what is left of the candidates of the variable opens the value, not the value's own types
    obtain ⟨t, ht, hte⟩ := (hs₂.opening (.named name)).exists_of_extractor? he
    refine concludes_run_bind (hc.unfolded s₂ _ _ extraction v hs₂.kept hv hseen ⟨t, ht, hte⟩
      he).answered fun params ⟨hheld, hrun⟩ => ?_
    refine concludes_checkContents hc spanKey 0 targs _ (fun j n arg y harg hy => ?_)
      (fun items hitems => ?_) (fun d => hnext (1 :: d)) hs₂
    · rw [Nat.zero_add]
      exact hmeets.inside ⟨t, ht, hte⟩ hrun harg hy
    · exact (hheld.trailing _ items hitems).mono fun xs hxs x hx => (hxs x hx).1
  | .fn params result, spanKey, v, address, next, s, hmeets, hv, hnext, hs => by
    rw [checkValue]
    split
    · exact concludes_pure (hs.mono (by simpa using hnext []))
    · rename_i hcallable
      exact concludes_invalidValue hc hmeets hv (Bool.eq_false_iff.2 hcallable)
  | .concrete t targs, spanKey, v, address, next, s, hmeets, hv, hnext, hs => by
    have hdone : i :: address < next := by simpa using hnext []
    rw [checkValue]
    refine concludes_run_bind (hc.contained i _ t targs _ v hv hmeets).answered
      fun b ⟨hextract, hb⟩ => ?_
    cases b with
    | false => exact concludes_invalidValue hc hmeets hv hb
    | true =>
      rw [Bool.not_true, if_neg Bool.false_ne_true]
      split
      · rename_i hrep
        exact concludes_checkRep hc hmeets hv hrep hb (List.Subset.refl _) (hs.mono hdone)
      split
      · exact concludes_pure (hs.mono hdone)
      split
      · exact concludes_pure (hs.mono hdone)
      rename_i extraction he
      refine concludes_run_bind (hextract rfl extraction he).answered
        fun params ⟨hheld, hrun⟩ => ?_
      refine concludes_checkContents hc spanKey 0 targs _ (fun j n arg y harg hy => ?_)
        (hheld.trailing _) (fun d => hnext (1 :: d))
        (hs.mono (Address.lt_append (i :: address) 1 [0, 0]))
      rw [Nat.zero_add]
      exact hmeets.inside ⟨hb, he⟩ hrun harg hy
  | .foreign, spanKey, v, address, next, s, hmeets, hv, hnext, hs => by
    rw [checkValue]
    exact concludes_fail (hc.foreign i _ _ _ hmeets)

/-- Checking what is met for the type arguments from a place on meets it in its order. -/
theorem concludes_checkContents (hc : Course I E call vocabulary signature args S K)
    (spanKey : SpanKey) (k : Nat) : ∀ (targs : List TypeExpr) (params : List Value)
      {address next : Address} {s : CheckState},
      (∀ j n arg y, targs[j]? = some arg → HeldAt params j n y →
        signature.MeetsAt call vocabulary.env args i (address ++ [1, k + j, n])
          ⟨arg, spanKey ++ [k + j], y⟩) →
      Handed I E S params → (∀ d, i :: (address ++ 1 :: d) < next) →
      Before call vocabulary signature args S K (i :: (address ++ [1, k, 0])) s →
      Concludes I E (checkContents call vocabulary signature (i + 1) spanKey k targs params s)
        (Before call vocabulary signature args S K next)
        (Compiled call vocabulary signature args S K I i)
  | arg :: targs, items :: params, address, next, s, hmeets, hheld, hnext, hs => by
    rw [checkContents]
    have hitems : Concludes I E (forEach items (fun s item => checkValue call vocabulary signature
        (i + 1) arg (spanKey ++ [k]) item s) s)
        (fun s' => ∃ n, Before call vocabulary signature args S K
          (i :: (address ++ [1, k]) ++ [n]) s')
        (Compiled call vocabulary signature args S K I i) := by
      refine concludes_forEach _ (fun xs n x s hruns hx hv hs => ?_)
        (hheld items List.mem_cons_self) (by simpa using hs)
      refine concludes_checkValue hc arg (spanKey ++ [k])
        (hmeets 0 n arg x rfl ⟨items, xs, rfl, hruns, hx⟩) hv (fun d => ?_) (by simpa using hs)
      have hlater := Address.append_lt_append (Nat.lt_succ_self n) (i :: (address ++ [1, k])) d []
      simpa using hlater
    refine concludes_bind hitems fun s' ⟨n, hs'⟩ => ?_
    have hrest : Handed I E S params := fun items hitems =>
      hheld items (List.mem_cons_of_mem _ hitems)
    refine concludes_checkContents hc spanKey (k + 1) targs params (fun j n arg y harg hy => ?_)
      hrest hnext (hs'.mono ?_)
    · rw [Nat.succ_add_eq_add_succ]
      exact hmeets (j + 1) n arg y harg hy
    · have hlater := Address.append_lt_append (Nat.lt_succ_self k) (i :: (address ++ [1])) [n] [0]
      simpa using hlater
  | [], _, address, next, s, _, _, hnext, hs => by
    rw [checkContents]
    · exact concludes_pure (hs.mono (hnext _))
    · simp
  | _ :: _, [], address, next, s, _, _, hnext, hs => by
    rw [checkContents]
    · exact concludes_pure (hs.mono (hnext _))
    · simp

end

/-! ## Arguments -/

/-- Checking an argument by itself. -/
theorem concludes_checkArgument (hc : Course I E call vocabulary signature args S K)
    (hv : args[i]? = some v) (hclass : S v)
    (hs : Before call vocabulary signature args S K [i] s) :
    Concludes I E (checkValue call vocabulary signature (i + 1) (signature.typeAt i)
        [signature.slotFor i] v s)
      (Before call vocabulary signature args S K [i + 1])
      (Compiled call vocabulary signature args S K I i) :=
  concludes_checkValue hc _ _ ⟨v, [], hv, rfl, .here⟩ hclass
    (fun _ => .rel (Nat.lt_succ_self i)) hs

/-- The arguments from a place on are checked one after the other. A violation is noted. -/
theorem concludes_checkArguments (hc : Course I E call vocabulary signature args S K) (index : Nat)
    (vs : List Value) (hvs : ∀ j v, vs[j]? = some v → args[index + j]? = some v ∧ S v)
    (hs : Before call vocabulary signature args S K [index] s) :
    Concludes I E (ExceptT.mk (checkArguments call vocabulary signature index vs s))
      (fun _ => True) fun violation => ∃ i, Compiled call vocabulary signature args S K I i
        violation := by
  induction vs generalizing index s with
  | nil => exact concludes_pure trivial
  | cons v vs ih =>
    obtain ⟨⟨ha, hv⟩, hrest⟩ :=
      (forall_getElem?_cons (fun i v => args[i]? = some v ∧ S v) index v vs).1 hvs
    refine Run.concludes_bind (concludes_checkArgument hc ha hv hs) fun e he => ?_
    cases e with
    | ok s' => exact ih (index + 1) hrest he
    | error violation =>
      exact Run.concludes_bind (hc.noted _) fun _ _ => Run.concludes_pure ⟨index, he⟩

/-- The check concludes. A violation is about the number of arguments if that does not fit, and
otherwise it was compiled from what the check had met. -/
theorem concludes_check (hc : signature.accepts args.length = true →
      Course I E call vocabulary signature args S K) (hargs : ∀ v ∈ args, S v) :
    Run.Concludes I E (check call vocabulary signature args) fun r => ∀ v, r = .violated v →
      signature.accepts args.length = false ∧ v = wrongArity signature args.length ∨
      signature.accepts args.length = true ∧
        ∃ i, Compiled call vocabulary signature args S K I i v := by
  rw [check]
  split
  · rename_i harity
    refine Run.concludes_pure fun v hv => .inl ⟨by simpa using harity, ?_⟩
    cases hv
    rfl
  rename_i harity
  have haccepts : signature.accepts args.length = true := by simpa using harity
  have hplaces : ∀ j v, args[j]? = some v → args[0 + j]? = some v ∧ S v := by
    intro j v hv
    exact ⟨by rwa [Nat.zero_add], hargs v (List.mem_of_getElem? hv)⟩
  have hc := hc haccepts
  refine Run.concludes_bind (concludes_checkArguments hc 0 args hplaces (.initial hc.start))
    fun e he => ?_
  cases e with
  | error violation =>
    refine Run.concludes_pure fun v hv => .inr ⟨haccepts, ?_⟩
    cases hv
    exact he
  | ok s =>
    -- the bindings are noted if there are any, and the check passes either way
    dsimp only
    split
    · exact Run.concludes_bind (hc.noted _) fun _ _ => Run.concludes_pure (by simp)
    · exact Run.concludes_pure (by simp)

end Course

end CheckedCalls
