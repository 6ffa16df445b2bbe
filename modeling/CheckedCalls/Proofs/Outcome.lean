import CheckedCalls.Check.Basic

/-!
# Outcomes of runs and of checks

What can be said of a run without following the worlds that it passes through. `Run.Ensures` is
partial: it speaks of the answers only, and a run that fails ensures anything. `Run.Answers` is
total, for one world that the run leaves as it is; so is `Run.Fares`, which also says for which
cause a run fails, and `Run.Tells` speaks of a run that decides something. `Checking.Ends` says the
same as `Run.Ensures` of a step of a check, with a condition for each of its two ends, and has one
rule for each way in which steps are put together.
-/

namespace CheckedCalls

variable {α β : Type}

/-- The type of the slot that checks the argument at a place. -/
def Signature.typeAt (s : Signature) (index : Nat) : TypeExpr :=
  (s.slots[s.slotFor index]?.map Slot.type).getD .foreign

/-- What holds of each element and its place holds of the first and of the others. -/
theorem forall_getElem?_cons (P : Nat → α → Prop) (index : Nat) (a : α) (as : List α) :
    (∀ i b, (a :: as)[i]? = some b → P (index + i) b) ↔
      P index a ∧ ∀ i b, as[i]? = some b → P (index + 1 + i) b := by
  constructor
  · intro h
    refine ⟨h 0 a rfl, ?_⟩
    intro i b hb
    rw [Nat.add_assoc, Nat.add_comm 1]
    exact h (i + 1) b hb
  · rintro ⟨hfirst, hrest⟩ i b hb
    cases i with
    | zero =>
      cases hb
      exact hfirst
    | succ i =>
      rw [← Nat.add_assoc, Nat.add_right_comm]
      exact hrest i b hb

namespace Run

/-! ## Outcomes -/

/-- What a run answers in the world in which nothing was made. -/
def result (r : Run α) : Except Fault α := (r.outcome .initial).1

/-- The run answers the same in every world. -/
def Steady (r : Run α) : Prop := ∀ w, (r.outcome w).1 = r.result

/-- Each answer of the run has the property, whatever the world. -/
def Ensures (r : Run α) (P : α → Prop) : Prop := ∀ w a, (r.outcome w).1 = .ok a → P a

/-- The run answers so in some world. -/
def CanAnswer (r : Run α) (a : α) : Prop := ∃ w, (r.outcome w).1 = .ok a

@[simp] theorem outcome_pure (a : α) (w : World) : (pure a : Run α).outcome w = (.ok a, w) := rfl

/-- The outcome of two runs in sequence is that of the second in the world the first leaves. -/
theorem outcome_bind (r : Run α) (f : α → Run β) (w : World) :
    (r >>= f).outcome w = match r.outcome w with
      | (.ok a, w') => (f a).outcome w'
      | (.error e, w') => (.error e, w') := by
  have hrun : r.outcome w = (ExceptT.run r).run w := rfl
  rw [hrun, outcome, ExceptT.run_bind, StateT.run_bind]
  generalize (ExceptT.run r).run w = p
  rcases p with ⟨_ | _, w'⟩ <;> rfl

theorem outcome_get_bind (f : World → Run β) (w : World) :
    (get >>= f : Run β).outcome w = (f w).outcome w := rfl

/-- A rescue goes on with the other run where the first fails with a fault that passes the test. -/
theorem outcome_rescue (r : Run α) (test : Fault → Bool) (other : Run α) (w : World) :
    (r.rescue test other).outcome w = match r.outcome w with
      | (.ok a, w') => (.ok a, w')
      | (.error f, w') => if test f then other.outcome w' else (.error f, w') := by
  unfold rescue outcome
  rw [ExceptT.run_tryCatch, StateT.run_bind]
  generalize (ExceptT.run r).run w = p
  rcases p with ⟨f | a, w'⟩
  · show StateT.run (ExceptT.run (if test f then other else throw f)) w' = _
    dsimp only
    split <;> rfl
  · rfl

@[simp] theorem result_liftM (e : Except Fault α) : (liftM e : Run α).result = e := rfl

theorem liftM_eq_pure_iff {e : Except Fault α} {a : α} :
    (liftM e : Run α) = pure a ↔ e = .ok a := by
  constructor
  · intro h
    exact congrArg result h
  · rintro rfl
    rfl

theorem Steady.pure (a : α) : Steady (Pure.pure a : Run α) := by
  intro w
  rfl

/-- A lifted computation leaves the world as it is. -/
theorem Steady.liftM (e : Except Fault α) : Steady (liftM e : Run α) := by
  intro w
  rfl

/-! ## What answers satisfy -/

/-- A run that answers at once ensures what holds of its answer. -/
theorem ensures_pure {P : α → Prop} {a : α} (h : P a) : Ensures (pure a) P := by
  intro w b hb
  cases hb
  exact h

/-- What the first run ensures of its answer may be assumed of the second run. -/
theorem ensures_bind {r : Run α} {f : α → Run β} {P : α → Prop} {Q : β → Prop}
    (hr : Ensures r P) (hf : ∀ a, P a → Ensures (f a) Q) : Ensures (r >>= f) Q := by
  intro w b hb
  rw [outcome_bind] at hb
  rcases h : r.outcome w with ⟨_ | a, w'⟩
  · rw [h] at hb
    cases hb
  · rw [h] at hb
    exact hf a (hr w a (by rw [h])) w' b hb

/-- A run that ensures a property ensures every weaker one. -/
theorem Ensures.mono {r : Run α} {P Q : α → Prop} (h : Ensures r P) (hPQ : ∀ a, P a → Q a) :
    Ensures r Q := by
  intro w a ha
  exact hPQ a (h w a ha)

/-- Each answer is one that the run can give. -/
theorem ensures_canAnswer (r : Run α) : Ensures r r.CanAnswer := fun w _ ha => ⟨w, ha⟩

/-- A run ensures what is true of everything. -/
theorem ensures_of_forall {r : Run α} {P : α → Prop} (h : ∀ a, P a) : Ensures r P :=
  fun _ a _ => h a

/-- A steady run has one answer. -/
theorem Steady.ensures {r : Run α} (h : Steady r) : Ensures r (r.result = .ok ·) := by
  intro w a ha
  rw [← h w, ha]

/-! ## Answers in one world -/

/-- The run answers `a` in the world and leaves the world as it is. -/
def Answers (r : Run α) (w : World) (a : α) : Prop := r.outcome w = (.ok a, w)

theorem answers_pure_iff {a b : α} {w : World} : (pure a : Run α).Answers w b ↔ a = b := by
  simp [Answers]

theorem answers_pure (a : α) (w : World) : (pure a : Run α).Answers w a := rfl

/-- A run has at most one answer in a world. -/
theorem Answers.unique {r : Run α} {w : World} {a b : α} (h : r.Answers w a)
    (h' : r.Answers w b) : a = b := by
  rw [Answers, h] at h'
  simpa using h'

/-- Past a run that answers, a sequence answers exactly as its second run does. -/
theorem Answers.bind_iff {r : Run α} {f : α → Run β} {w : World} {a : α} {b : β}
    (h : r.Answers w a) : (r >>= f).Answers w b ↔ (f a).Answers w b := by
  rw [Answers, outcome_bind, h]
  exact Iff.rfl

theorem answers_get_bind_iff {f : World → Run β} {w : World} {b : β} :
    (get >>= f : Run β).Answers w b ↔ (f w).Answers w b := Iff.rfl

theorem Answers.bind {r : Run α} {f : α → Run β} {w : World} {a : α} {b : β}
    (h : r.Answers w a) (hf : (f a).Answers w b) : (r >>= f).Answers w b := h.bind_iff.2 hf

/-- How a run fares in a world, which it leaves as it is: it fails for the cause, or if there is
none it answers. -/
def Fares (r : Run α) (w : World) : Option Fault → Prop
  | none => ∃ a, r.Answers w a
  | some f => r.outcome w = (.error f, w)

section Fares

variable {r : Run α} {w : World} {c d : Option Fault}

/-- A run fares as its first part does, and as the second if the first answers. -/
theorem Fares.bind {g : α → Run β} (hr : r.Fares w c) (hg : ∀ a, r.Answers w a → (g a).Fares w d) :
    (r >>= g).Fares w (c.or d) := by
  cases c with
  | none =>
    obtain ⟨a, ha⟩ := hr
    have hout : (r >>= g).outcome w = (g a).outcome w := by rw [outcome_bind, ha]
    have hrest := hg a ha
    cases d with
    | none => exact hrest.imp fun b hb => hout.trans hb
    | some f => exact hout.trans hrest
  | some f =>
    show (r >>= g).outcome w = _
    rw [outcome_bind, show r.outcome w = _ from hr]

/-- What is made of an answer fares as the answer does. -/
theorem Fares.map (hr : r.Fares w c) (g : α → β) : Fares (do return g (← r)) w c := by
  rw [← Option.or_none (o := c)]
  exact hr.bind fun a _ => ⟨g a, rfl⟩

/-- A run that answers fares without a cause. -/
theorem Fares.eq_none {a : α} (hr : r.Fares w c) (ha : r.Answers w a) : c = none := by
  cases c with
  | none => rfl
  | some f => cases ha.symm.trans hr

end Fares

/-- The run answers in the world whether `P` holds. -/
def Tells (r : Run α) (f : Bool → α) (w : World) (P : Prop) : Prop :=
  ∃ b, r.Answers w (f b) ∧ (b = true ↔ P)

namespace Tells

variable {r : Run α} {f : Bool → α} {g : Bool → β} {w : World} {P Q : Prop}

theorem pure {b : Bool} (h : b = true ↔ P) : Tells (Pure.pure (f b)) f w P :=
  ⟨b, answers_pure _ w, h⟩

/-- A run that tells a property tells every equivalent one. -/
theorem congr (hr : r.Tells f w P) (h : P ↔ Q) : r.Tells f w Q := by
  obtain ⟨b, hb, hP⟩ := hr
  exact ⟨b, hb, hP.trans h⟩

/-- Past a run that answers, a sequence tells what its second run tells. -/
theorem answers_bind {next : β → Run α} {r : Run β} {b : β} (hr : r.Answers w b)
    (h : (next b).Tells f w P) : (r >>= next).Tells f w P := by
  obtain ⟨c, hc, hP⟩ := h
  exact ⟨c, hr.bind hc, hP⟩

/-- What was told decides how the run goes on. -/
theorem bind {next : α → Run β} (hr : r.Tells f w P) (hyes : P → (next (f true)).Tells g w Q)
    (hno : ¬P → (next (f false)).Tells g w Q) : (r >>= next).Tells g w Q := by
  obtain ⟨b, hb, hP⟩ := hr
  cases b with
  | true =>
    obtain ⟨c, hc, hQ⟩ := hyes (hP.1 rfl)
    exact ⟨c, hb.bind hc, hQ⟩
  | false =>
    obtain ⟨c, hc, hQ⟩ := hno fun h => by cases hP.2 h
    exact ⟨c, hb.bind hc, hQ⟩

/-- A run that tells a property gives the positive answer exactly if the property holds. -/
theorem answers_iff (hr : r.Tells f w P) (hf : f true ≠ f false) : r.Answers w (f true) ↔ P := by
  obtain ⟨b, hb, hP⟩ := hr
  cases b with
  | true => exact iff_of_true hb (hP.1 rfl)
  | false =>
    refine iff_of_false (fun h => hf (h.unique hb)) fun h => ?_
    cases hP.2 h

/-- A run that tells a property gives the negative answer exactly if the property fails. -/
theorem answers_false_iff (hr : r.Tells f w P) (hf : f true ≠ f false) :
    r.Answers w (f false) ↔ ¬P := by
  obtain ⟨b, hb, hP⟩ := hr
  cases b with
  | true => exact iff_of_false (fun h => hf (hb.unique h)) fun h => h (hP.1 rfl)
  | false =>
    refine iff_of_true hb fun h => ?_
    cases hP.2 h

end Tells

section Truth

variable {w : World} {P : Prop} {b : Bool}

theorem tells_pure (h : b = true ↔ P) : (pure b : Run Bool).Tells id w P := Tells.pure (f := id) h

theorem tells_answer (h : b = true ↔ P) : (answer b).Tells .bool w P := .pure h

/-- A truth value counts as what it says. -/
theorem Tells.truth {r : Run Value} (call : Apply) (h : r.Tells .bool w P) :
    Tells (do (← r).truth call) id w P :=
  h.bind (fun hP => tells_pure (by simpa [Value.plainTruth] using hP))
    fun hP => tells_pure (by simpa [Value.plainTruth] using hP)

end Truth

end Run

namespace Checking

/-! ## The two ends of a step -/

/-- A step that passes ends in a value with one property, and one that does not ends in a violation
with another. A step that fails has no end. -/
def Ends (m : Checking α) (P : α → Prop) (Q : Violation → Prop) : Prop :=
  Run.Ensures m.run fun e => match e with
    | .ok a => P a
    | .error v => Q v

/-- A check that ends with given properties ends with all weaker ones. -/
theorem Ends.mono {m : Checking α} {P P' : α → Prop} {Q Q' : Violation → Prop} (h : Ends m P Q)
    (hP : ∀ a, P a → P' a) (hQ : ∀ v, Q v → Q' v) : Ends m P' Q' := by
  refine Run.Ensures.mono h ?_
  intro e
  cases e with
  | ok a => exact hP a
  | error v => exact hQ v

/-- Two properties of the answer of a check hold together. -/
theorem Ends.and {m : Checking α} {P P' : α → Prop} {Q : Violation → Prop} (h : Ends m P Q)
    (h' : Ends m P' Q) : Ends m (fun a => P a ∧ P' a) Q := by
  intro w e he
  have hP := h w e he
  have hP' := h' w e he
  cases e with
  | ok a => exact ⟨hP, hP'⟩
  | error v => exact hP

theorem ends_pure {P : α → Prop} {Q : Violation → Prop} {a : α} (h : P a) : Ends (pure a) P Q :=
  Run.ensures_pure h

/-- A check that reports a violation ends with what holds of that violation. -/
theorem ends_throw {P : α → Prop} {Q : Violation → Prop} {v : Violation} (h : Q v) :
    Ends (throw v : Checking α) P Q :=
  Run.ensures_pure h

/-- A check that fails with a fault has no end to speak of. -/
theorem ends_fail {P : α → Prop} {Q : Violation → Prop} (f : Fault) :
    Ends (Checking.fail f : Checking α) P Q := by
  intro w e he
  cases he

/-- What the first check ends with may be assumed of the second check. -/
theorem ends_bind {m : Checking α} {f : α → Checking β} {P : α → Prop} {P' : β → Prop}
    {Q : Violation → Prop} (hm : Ends m P Q) (hf : ∀ a, P a → Ends (f a) P' Q) :
    Ends (m >>= f) P' Q := by
  refine Run.ensures_bind hm ?_
  intro e he
  cases e with
  | ok a => exact hf a he
  | error v => exact Run.ensures_pure he

/-- A run in front of a step hands over what it ensures. -/
theorem ends_run_bind {r : Run α} {f : α → Checking β} {P : α → Prop} {P' : β → Prop}
    {Q : Violation → Prop} (hr : Run.Ensures r P) (hf : ∀ a, P a → Ends (f a) P' Q) :
    Ends (liftM r >>= f) P' Q := by
  -- a run that was lifted never ends in a violation
  have hlift : Ends (liftM r : Checking α) P Q := by
    show Run.Ensures (Except.ok <$> r) _
    rw [map_eq_pure_bind]
    exact Run.ensures_bind hr fun a ha => Run.ensures_pure ha
  exact ends_bind hlift hf

/-- A plain answer in front of a step hands itself over. -/
theorem ends_except_bind {e : Except Fault α} {f : α → Checking β} {P' : β → Prop}
    {Q : Violation → Prop} (hf : ∀ a, e = .ok a → Ends (f a) P' Q) :
    Ends (liftM e >>= f) P' Q :=
  ends_run_bind (r := liftM e) (Run.Steady.liftM e).ensures hf

/-- A loop ends as its rounds do, with a condition on what is left to do. -/
theorem ends_foldlM {step : α → β → Checking α} {R : List β → α → Prop} {Q : Violation → Prop}
    (hstep : ∀ b rest a, R (b :: rest) a → Ends (step a b) (R rest) Q) {bs : List β} {a : α}
    (ha : R bs a) : Ends (bs.foldlM step a) (R []) Q := by
  induction bs generalizing a with
  | nil => exact ends_pure ha
  | cons b rest ih =>
    rw [List.foldlM_cons]
    exact ends_bind (hstep b rest a ha) fun a' ha' => ih ha'

/-- Nothing is known of an end that nothing was asked of. -/
theorem ends_of_forall {m : Checking α} {P : α → Prop} {Q : Violation → Prop} (hP : ∀ a, P a)
    (hQ : ∀ v, Q v) : Ends m P Q :=
  Run.ensures_of_forall fun e => match e with
    | .ok a => hP a
    | .error v => hQ v

/-! ## Steps that end in a violation -/

section Violations

variable {call : Apply} {vocabulary : Vocabulary} {signature : Signature}
variable {P : CheckState → Prop} {Q : Violation → Prop}

/-- The report of an invalid value ends with a violation, if at all. -/
theorem ends_invalidValue (hQ : ∀ v, Q v) (expr : TypeExpr) (v : Value) (position : Nat)
    (key : SpanKey) :
    Ends (Check.invalidValue call vocabulary signature expr v position key) P Q :=
  ends_bind (ends_of_forall (fun _ => trivial) hQ) fun _ (_ : True) => ends_throw (hQ _)

/-- The report of a constraint that is not satisfied ends with a violation, if at all. -/
theorem ends_unsatisfied (hQ : ∀ v, Q v) (name typeClass : String) (v : Value) (position : Nat)
    (key : SpanKey) :
    Ends (Check.unsatisfied call vocabulary signature name typeClass v position key) P Q :=
  ends_bind (ends_of_forall (fun _ => trivial) hQ) fun _ (_ : True) =>
    ends_bind (ends_of_forall (fun _ => trivial) hQ) fun _ (_ : True) => ends_throw (hQ _)

theorem ends_nothingInCommon (hQ : ∀ v, Q v) (seen : List Observation) :
    Ends (Check.nothingInCommon call vocabulary signature seen) P Q :=
  ends_bind (ends_of_forall (fun _ => trivial) hQ) fun _ (_ : True) => ends_throw (hQ _)

end Violations

/-! ## Arguments -/

section Arguments

variable {call : Apply} {vocabulary : Vocabulary} {signature : Signature}
variable {P R : CheckState → Prop} {Q : Violation → Prop}

/-- The first argument is checked against its slot, and then the others are. -/
theorem ends_checkArguments_cons {index : Nat} {v : Value} {vs : List Value} {s : CheckState}
    (hv : Ends (Check.checkValue call vocabulary signature (index + 1) (signature.typeAt index)
      [signature.slotFor index] v s) P Q)
    (hvs : ∀ s', P s' →
      Ends (ExceptT.mk (Check.checkArguments call vocabulary signature (index + 1) vs s')) R Q) :
    Ends (ExceptT.mk (Check.checkArguments call vocabulary signature index (v :: vs) s)) R Q := by
  refine Run.ensures_bind hv ?_
  intro e he
  cases e with
  | ok s' => exact hvs s' he
  | error violation =>
    exact Run.ensures_bind (Run.ensures_of_forall fun _ => trivial) fun _ (_ : True) =>
      Run.ensures_pure he

/-- What a check of each argument makes sure of is so for all of them. -/
theorem ends_checkArguments_of {P : Nat → Value → Prop} (index : Nat) (args : List Value)
    (s : CheckState)
    (h : ∀ i v s, Ends (Check.checkValue call vocabulary signature (i + 1) (signature.typeAt i)
      [signature.slotFor i] v s) (fun _ => P i v) fun _ => True) :
    Ends (ExceptT.mk (Check.checkArguments call vocabulary signature index args s))
      (fun _ => ∀ i v, args[i]? = some v → P (index + i) v) fun _ => True := by
  induction args generalizing index s with
  | nil => exact ends_pure (by simp)
  | cons v args ih =>
    apply ends_checkArguments_cons (h index v s)
    intro s' hv
    have hrest := ih (index + 1) s'
    exact hrest.mono (fun _ hrest => (forall_getElem?_cons P index v args).2 ⟨hv, hrest⟩)
      fun _ h => h

/-- A check that does not fail refuses the number of arguments, or ends as the check of the
arguments does. -/
theorem check_outcome_cases {args : List Value} {r : CheckResult} {w w' : World}
    (h : (check call vocabulary signature args).outcome w = (.ok r, w')) :
    (signature.accepts args.length = false ∧
        r = .violated (Check.wrongArity signature args.length)) ∨
      (signature.accepts args.length = true ∧ ∃ e w'',
        (Check.checkArguments call vocabulary signature 0 args .initial).outcome w =
          (.ok e, w'') ∧
        match e with
        | .ok s => r = .passed s.bindings
        | .error v => r = .violated v) := by
  rw [check] at h
  split at h
  -- the number of arguments is refused before any of them is looked at
  · rename_i harity
    cases h
    exact .inl ⟨by simpa using harity, rfl⟩
  rename_i harity
  refine .inr ⟨by simpa using harity, ?_⟩
  rw [Run.outcome_bind] at h
  rcases hargs : (Check.checkArguments call vocabulary signature 0 args .initial).outcome w with
    ⟨f | v | s, w''⟩
  · rw [hargs] at h
    cases h
  · rw [hargs] at h
    cases h
    exact ⟨_, _, rfl, rfl⟩
  -- the bindings are logged or not, and are the same either way
  · rw [hargs] at h
    refine ⟨_, _, rfl, ?_⟩
    dsimp only at h
    split at h <;> cases h <;> rfl

/-- A check that passes has checked every argument. -/
theorem checkArguments_of_passed {args : List Value} {bindings : List (String × NamedType)}
    {w w' : World}
    (h : (check call vocabulary signature args).outcome w = (.ok (.passed bindings), w')) :
    ∃ s w'', (Check.checkArguments call vocabulary signature 0 args .initial).outcome w =
      (.ok (.ok s), w'') ∧ bindings = s.bindings := by
  rcases check_outcome_cases h with ⟨-, h⟩ | ⟨-, e, w'', hargs, h⟩
  · cases h
  · cases e with
    | ok s =>
      cases h
      exact ⟨s, w'', hargs, rfl⟩
    | error v => cases h

end Arguments

end Checking

end CheckedCalls
