import CheckedCalls.Proofs.Outcome
import Mathlib.Data.List.Forall2

/-!
# Two runs in one world

What can be said of two runs that start in one world and do the same to it. `Run.Tandem` is total:
it also speaks of the failures, which have to be the same. `Checking.Tandem` says so of two steps of
a check, with one relation for what they pass with and another for their violations. There is one
rule for each way in which runs and steps are put together; a run that stands in both is in tandem
with itself.
-/

namespace CheckedCalls

variable {α β γ δ : Type}

namespace Run

variable {r : Run α} {q : Run β} {f : α → Run γ} {g : β → Run δ}

/-- From each world both runs lead to one world, and there both answer, with answers that are
related, or both fail for one cause. -/
def Tandem (r : Run α) (q : Run β) (P : α → β → Prop) : Prop :=
  ∀ w, ∃ w',
    (∃ a b, r.outcome w = (.ok a, w') ∧ q.outcome w = (.ok b, w') ∧ P a b) ∨
    (∃ c, r.outcome w = (.error c, w') ∧ q.outcome w = (.error c, w'))

/-- Runs that answer at once go in tandem with related answers. -/
theorem tandem_pure {P : α → β → Prop} {a : α} {b : β} (h : P a b) :
    Tandem (pure a) (pure b) P :=
  fun w => ⟨w, .inl ⟨a, b, rfl, rfl, h⟩⟩

theorem tandem_throw {P : α → β → Prop} (c : Fault) : Tandem (throw c : Run α) (throw c) P :=
  fun w => ⟨w, .inr ⟨c, rfl, rfl⟩⟩

/-- A run does what it does. -/
theorem tandem_refl (r : Run α) : Tandem r r Eq := by
  intro w
  refine ⟨(r.outcome w).2, ?_⟩
  rcases r.outcome w with ⟨c | a, w'⟩
  · exact .inr ⟨c, rfl, rfl⟩
  · exact .inl ⟨a, a, rfl, rfl, rfl⟩

/-- Runs in sequence go in tandem if their parts do. -/
theorem tandem_bind {P : α → β → Prop} {Q : γ → δ → Prop} (h : Tandem r q P)
    (hnext : ∀ a b, P a b → Tandem (f a) (g b) Q) : Tandem (r >>= f) (q >>= g) Q := by
  intro w
  rw [outcome_bind, outcome_bind]
  obtain ⟨w', ⟨a, b, hr, hq, hab⟩ | ⟨c, hr, hq⟩⟩ := h w
  · rw [hr, hq]
    exact hnext a b hab w'
  · rw [hr, hq]
    exact ⟨w', .inr ⟨c, rfl, rfl⟩⟩

/-- What stands in front of both runs hands over one answer. -/
theorem tandem_bind_self {Q : γ → δ → Prop} {f : α → Run γ} {g : α → Run δ} (r : Run α)
    (hnext : ∀ a, Tandem (f a) (g a) Q) : Tandem (r >>= f) (r >>= g) Q := by
  refine tandem_bind (tandem_refl r) ?_
  rintro a _ rfl
  exact hnext a

end Run

namespace Checking

variable {m : Checking α} {n : Checking β} {f : α → Checking γ} {g : β → Checking δ}
variable {R : Violation → Violation → Prop}

/-- Two ends of steps: both pass, with related values, or both are violations that are related. -/
def Meet (P : α → β → Prop) (R : Violation → Violation → Prop) :
    Except Violation α → Except Violation β → Prop
  | .ok a, .ok b => P a b
  | .error v, .error u => R v u
  | _, _ => False

/-- In each world both steps end in the same way, or fail for one cause. -/
def Tandem (m : Checking α) (n : Checking β) (P : α → β → Prop)
    (R : Violation → Violation → Prop) : Prop :=
  Run.Tandem m.run n.run (Meet P R)

/-- Checks that answer at once go in tandem with related answers. -/
theorem tandem_pure {P : α → β → Prop} {a : α} {b : β} (h : P a b) :
    Tandem (pure a) (pure b) P R := Run.tandem_pure h

theorem tandem_throw {P : α → β → Prop} {v u : Violation} (h : R v u) :
    Tandem (throw v : Checking α) (throw u : Checking β) P R := Run.tandem_pure h

theorem tandem_fail {P : α → β → Prop} (c : Fault) :
    Tandem (Checking.fail c : Checking α) (Checking.fail c) P R := Run.tandem_throw c

/-- Checks in sequence go in tandem if their parts do. -/
theorem tandem_bind {P : α → β → Prop} {Q : γ → δ → Prop} (h : Tandem m n P R)
    (hnext : ∀ a b, P a b → Tandem (f a) (g b) Q R) : Tandem (m >>= f) (n >>= g) Q R := by
  refine Run.tandem_bind h fun e d hed => ?_
  cases e with
  | ok a =>
    cases d with
    | ok b => exact hnext a b hed
    | error u => exact hed.elim
  | error v =>
    cases d with
    | ok b => exact hed.elim
    | error u => exact Run.tandem_pure hed

/-- Runs in front of steps hand over how their answers are related. -/
theorem tandem_run_bind {r : Run α} {q : Run β} {P : α → β → Prop} {Q : γ → δ → Prop}
    (h : r.Tandem q P) (hnext : ∀ a b, P a b → Tandem (f a) (g b) Q R) :
    Tandem (liftM r >>= f) (liftM q >>= g) Q R := by
  have hlift : Tandem (liftM r : Checking α) (liftM q) P R := by
    show Run.Tandem (Except.ok <$> r) (Except.ok <$> q) _
    rw [map_eq_pure_bind, map_eq_pure_bind]
    exact Run.tandem_bind h fun a b hab => Run.tandem_pure hab
  exact tandem_bind hlift hnext

/-- A run in front of both steps hands over one answer. -/
theorem tandem_run_bind_self {f : α → Checking γ} {g : α → Checking δ} {Q : γ → δ → Prop}
    (r : Run α) (hnext : ∀ a, Tandem (f a) (g a) Q R) :
    Tandem (liftM r >>= f) (liftM r >>= g) Q R := by
  refine tandem_run_bind (Run.tandem_refl r) ?_
  rintro a _ rfl
  exact hnext a

/-- A plain answer in front of both steps hands itself over. -/
theorem tandem_except_bind_self {f : α → Checking γ} {g : α → Checking δ} {Q : γ → δ → Prop}
    (e : Except Fault α) (hnext : ∀ a, Tandem (f a) (g a) Q R) :
    Tandem (liftM e >>= f) (liftM e >>= g) Q R :=
  tandem_run_bind_self (liftM e) hnext

/-- Two loops are in tandem if their rounds are. -/
theorem tandem_foldlM {S : α → β → Prop} {P : γ → δ → Prop} {step : γ → α → Checking γ}
    {step' : δ → β → Checking δ}
    (hstep : ∀ c d a b, P c d → S a b → Tandem (step c a) (step' d b) P R) {as : List α}
    {bs : List β} (h : List.Forall₂ S as bs) {c : γ} {d : δ} (hcd : P c d) :
    Tandem (as.foldlM step c) (bs.foldlM step' d) P R := by
  induction h generalizing c d with
  | nil => exact tandem_pure hcd
  | cons hab _ ih =>
    rw [List.foldlM_cons, List.foldlM_cons]
    exact tandem_bind (hstep c d _ _ hcd hab) fun c' d' h => ih h

end Checking

end CheckedCalls
