import CheckedCalls.Proofs.Outcome

/-!
# Conclusions of runs and of checks

What can be said of a run whose worlds all have a property, and which may fail for some causes only.
`Run.Concludes` is total up to those causes: where there are none the run answers. A step of a check
concludes with a condition for each of its two ends, as it does for `Checking.Ends`.
-/

namespace CheckedCalls

variable {α β : Type} {I : World → Prop} {E : Fault → Prop}

namespace Run

/-- From a world with the property `I` the run answers something with the property `P` and leaves
such a world, or it fails for a cause that `E` admits. -/
def Concludes (I : World → Prop) (E : Fault → Prop) (r : Run α) (P : α → Prop) : Prop :=
  ∀ w, I w → match r.outcome w with
    | (.ok a, w') => P a ∧ I w'
    | (.error f, _) => E f

theorem concludes_pure {P : α → Prop} {a : α} (h : P a) : Concludes I E (pure a) P :=
  fun _ hw => ⟨h, hw⟩

theorem concludes_throw {P : α → Prop} {f : Fault} (h : E f) :
    Concludes I E (throw f : Run α) P :=
  fun _ _ => h

/-- What the first run concludes with may be assumed of the second run. -/
theorem concludes_bind {r : Run α} {f : α → Run β} {P : α → Prop} {Q : β → Prop}
    (hr : Concludes I E r P) (hf : ∀ a, P a → Concludes I E (f a) Q) :
    Concludes I E (r >>= f) Q := by
  intro w hw
  have hfirst := hr w hw
  rw [outcome_bind]
  generalize r.outcome w = p at hfirst ⊢
  rcases p with ⟨e | a, w'⟩
  · exact hfirst
  · exact hf a hfirst.1 w' hfirst.2

/-- A conclusion may be weakened. -/
theorem Concludes.mono {r : Run α} {P Q : α → Prop} (h : Concludes I E r P)
    (hPQ : ∀ a, P a → Q a) : Concludes I E r Q := by
  intro w hw
  have hr := h w hw
  generalize r.outcome w = p at hr ⊢
  rcases p with ⟨e | a, w'⟩
  · exact hr
  · exact ⟨hPQ a hr.1, hr.2⟩

/-- What a run answers it answers in some world. -/
theorem Concludes.answered {r : Run α} {P : α → Prop} (h : Concludes I E r P) :
    Concludes I E r fun a => P a ∧ r.CanAnswer a := by
  intro w hw
  have hr := h w hw
  rcases hout : r.outcome w with ⟨e | a, w'⟩
  · rw [hout] at hr
    exact hr
  · rw [hout] at hr
    exact ⟨⟨hr.1, w, by rw [hout]⟩, hr.2⟩

/-- What is true of all that is answered may be added. -/
theorem Concludes.and_ensures {r : Run α} {P Q : α → Prop} (h : Concludes I E r P)
    (h' : Ensures r Q) : Concludes I E r fun a => P a ∧ Q a :=
  h.answered.mono fun a ⟨ha, w, hw⟩ => ⟨ha, h' w a hw⟩

/-- A run that answers in each world, and leaves the world as it is, concludes. -/
theorem concludes_of_answers {r : Run α} {P : α → Prop}
    (h : ∀ w, I w → ∃ a, r.Answers w a ∧ P a) : Concludes I E r P := by
  intro w hw
  obtain ⟨a, ha, hP⟩ := h w hw
  rw [show r.outcome w = _ from ha]
  exact ⟨hP, hw⟩

/-- A run that fares alike in each world concludes if its cause to fail is admitted. -/
theorem concludes_of_fares {r : Run α} {c : Option Fault} (h : ∀ w, I w → r.Fares w c)
    (hc : ∀ f, c = some f → E f) : Concludes I E r fun _ => True := by
  intro w hw
  have hr := h w hw
  cases c with
  | none =>
    obtain ⟨a, ha⟩ := hr
    rw [show r.outcome w = _ from ha]
    exact ⟨trivial, hw⟩
  | some f =>
    rw [show r.outcome w = _ from hr]
    exact hc f rfl

/-- A lifted computation concludes with what holds of its answer, or with an allowed fault. -/
theorem concludes_liftM {e : Except Fault α} {P : α → Prop} (hok : ∀ a, e = .ok a → P a)
    (hfault : ∀ f, e = .error f → E f) : Concludes I E (liftM e : Run α) P := by
  intro w hw
  cases e with
  | ok a => exact ⟨hok a rfl, hw⟩
  | error f => exact hfault f rfl

/-- Where nothing is asked of worlds and faults, what holds of everything holds of the answers. -/
theorem concludes_true {r : Run α} {P : α → Prop} (h : ∀ a, P a) :
    Concludes (fun _ => True) (fun _ => True) r P := by
  intro w _
  rcases r.outcome w with ⟨e | a, w'⟩
  · exact trivial
  · exact ⟨h a, trivial⟩

end Run

namespace Checking

/-- A step that passes ends in a value with one property, and one that does not ends in a violation
with another. It may fail for a cause that `E` admits. -/
def Concludes (I : World → Prop) (E : Fault → Prop) (m : Checking α) (P : α → Prop)
    (Q : Violation → Prop) : Prop :=
  Run.Concludes I E m.run fun e => match e with
    | .ok a => P a
    | .error v => Q v

variable {P : α → Prop} {P' : β → Prop} {Q Q' : Violation → Prop}

theorem concludes_pure {a : α} (h : P a) : Concludes I E (pure a) P Q := Run.concludes_pure h

theorem concludes_throw {v : Violation} (h : Q v) : Concludes I E (throw v : Checking α) P Q :=
  Run.concludes_pure h

theorem Concludes.mono {m : Checking α} {R : α → Prop} (h : Concludes I E m P Q)
    (hPR : ∀ a, P a → R a) : Concludes I E m R Q := by
  refine Run.Concludes.mono h fun e he => ?_
  cases e with
  | ok a => exact hPR a he
  | error v => exact he

/-- What a step that passes makes sure of may be added. -/
theorem Concludes.and_ends {m : Checking α} {R : α → Prop} (h : Concludes I E m P Q)
    (h' : Ends m R Q') : Concludes I E m (fun a => P a ∧ R a) Q := by
  refine (Run.Concludes.and_ensures h h').mono fun e ⟨he, he'⟩ => ?_
  cases e with
  | ok a => exact ⟨he, he'⟩
  | error v => exact he

/-- What the first check concludes with may be assumed of the second check. -/
theorem concludes_bind {m : Checking α} {f : α → Checking β} (hm : Concludes I E m P Q)
    (hf : ∀ a, P a → Concludes I E (f a) P' Q) : Concludes I E (m >>= f) P' Q := by
  refine Run.concludes_bind hm fun e he => ?_
  cases e with
  | ok a => exact hf a he
  | error v => exact Run.concludes_pure he

/-- A run in front of a step hands over what it concludes with. -/
theorem concludes_run_bind {r : Run α} {f : α → Checking β} (hr : Run.Concludes I E r P)
    (hf : ∀ a, P a → Concludes I E (f a) P' Q) : Concludes I E (liftM r >>= f) P' Q := by
  have hlift : Concludes I E (liftM r : Checking α) P Q := by
    show Run.Concludes I E (Except.ok <$> r) _
    rw [map_eq_pure_bind]
    exact Run.concludes_bind hr fun a ha => Run.concludes_pure ha
  exact concludes_bind hlift hf

/-- A plain answer in front of a step hands itself over. -/
theorem concludes_except_bind {e : Except Fault α} {f : α → Checking β}
    (hfault : ∀ c, e = .error c → E c) (hf : ∀ a, e = .ok a → Concludes I E (f a) P' Q) :
    Concludes I E (liftM e >>= f) P' Q :=
  concludes_run_bind (r := liftM e) (Run.concludes_liftM (fun _ h => h) hfault) hf

/-- A loop concludes if each of its rounds does, with a condition on what is left to do. -/
theorem concludes_foldlM {step : α → β → Checking α} {R : List β → α → Prop}
    (hstep : ∀ b rest a, R (b :: rest) a → Concludes I E (step a b) (R rest) Q) {as : List β}
    {a : α} (ha : R as a) : Concludes I E (as.foldlM step a) (R []) Q := by
  induction as generalizing a with
  | nil => exact concludes_pure ha
  | cons b rest ih =>
    rw [List.foldlM_cons]
    exact concludes_bind (hstep b rest a ha) fun a' ha' => ih ha'

end Checking

end CheckedCalls
