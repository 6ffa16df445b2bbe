import CheckedCalls.Proofs.Outcome
import Mathlib.Data.List.Forall2

/-!
# Two runs side by side

What can be said of two runs that go through the same steps with different values, each in a world
of its own. `Run.Lockstep` is partial: it speaks of their answers where both have one. Two steps of
a check go in lockstep if both pass with states that are related, or both end in a violation of one
rule by values from the same places (`Violation.Parallel`).
-/

namespace CheckedCalls

variable {α β γ δ : Type}

namespace Run

variable {r : Run α} {q : Run β} {f : α → Run γ} {g : β → Run δ}

/-- If both runs answer, in whatever worlds, then what they answer is related. -/
def Lockstep (r : Run α) (q : Run β) (P : α → β → Prop) : Prop :=
  ∀ w v a b, (r.outcome w).1 = .ok a → (q.outcome v).1 = .ok b → P a b

/-- Any two runs go in lockstep if nothing is asked of their answers. -/
theorem lockstep_of_forall {P : α → β → Prop} (h : ∀ a b, P a b) : Lockstep r q P :=
  fun _ _ a b _ _ => h a b

/-- Runs that answer at once are in lockstep with related answers. -/
theorem lockstep_pure {P : α → β → Prop} {a : α} {b : β} (h : P a b) :
    Lockstep (pure a) (pure b) P := by
  intro _ _ _ _ ha hb
  cases ha
  cases hb
  exact h

theorem lockstep_liftM {e : Except Fault α} {d : Except Fault β} {P : α → β → Prop}
    (h : ∀ a b, e = .ok a → d = .ok b → P a b) : Lockstep (liftM e) (liftM d) P :=
  fun _ _ a b ha hb => h a b ha hb

/-- Runs in sequence are in lockstep if their parts are. -/
theorem lockstep_bind {P : α → β → Prop} {Q : γ → δ → Prop} (h : Lockstep r q P)
    (hnext : ∀ a b, P a b → Lockstep (f a) (g b) Q) : Lockstep (r >>= f) (q >>= g) Q := by
  intro w v c d hc hd
  rw [outcome_bind] at hc hd
  rcases hr : r.outcome w with ⟨_ | a, w'⟩
  · rw [hr] at hc
    cases hc
  rcases hq : q.outcome v with ⟨_ | b, v'⟩
  · rw [hq] at hd
    cases hd
  rw [hr] at hc
  rw [hq] at hd
  exact hnext a b (h w v a b (by rw [hr]) (by rw [hq])) w' v' c d hc hd

end Run

/-! ## Steps of a check -/

/-- The violations are of one rule, by values from the same places. -/
def Violation.Parallel (v u : Violation) : Prop := v.kind = u.kind ∧ v.positions = u.positions

namespace Checking

variable {m : Checking α} {n : Checking β} {f : α → Checking γ} {g : β → Checking δ}

/-- Two ends of steps: both pass and what they pass with is related, or both are parallel
violations. -/
def Together (P : α → β → Prop) : Except Violation α → Except Violation β → Prop
  | .ok a, .ok b => P a b
  | .error v, .error u => v.Parallel u
  | _, _ => False

/-- If neither step fails, in whatever worlds, then they end together. -/
def Lockstep (m : Checking α) (n : Checking β) (P : α → β → Prop) : Prop :=
  Run.Lockstep m.run n.run (Together P)

theorem lockstep_pure {P : α → β → Prop} {a : α} {b : β} (h : P a b) :
    Lockstep (pure a) (pure b) P := Run.lockstep_pure h

/-- Checks in sequence are in lockstep if their parts are. -/
theorem lockstep_bind {P : α → β → Prop} {Q : γ → δ → Prop} (h : Lockstep m n P)
    (hnext : ∀ a b, P a b → Lockstep (f a) (g b) Q) : Lockstep (m >>= f) (n >>= g) Q := by
  refine Run.lockstep_bind h fun e d hed => ?_
  cases e with
  | ok a =>
    cases d with
    | ok b => exact hnext a b hed
    | error u => exact hed.elim
  | error v =>
    cases d with
    | ok b => exact hed.elim
    | error u => exact Run.lockstep_pure hed

/-- What the first step makes sure of by itself may be added. -/
theorem Lockstep.and_ends {P : α → β → Prop} {Q : α → Prop} {R : Violation → Prop}
    (h : Lockstep m n P) (hm : Ends m Q R) : Lockstep m n fun a b => P a b ∧ Q a := by
  intro w v e d he hd
  have hed := h w v e d he hd
  have hQ := hm w e he
  cases e with
  | ok a =>
    cases d with
    | ok b => exact ⟨hed, hQ⟩
    | error u => exact hed.elim
  | error v' =>
    cases d with
    | ok b => exact hed.elim
    | error u => exact hed

/-- Runs in front of steps hand over how their answers are related. -/
theorem lockstep_run_bind {r : Run α} {q : Run β} {P : α → β → Prop} {Q : γ → δ → Prop}
    (h : r.Lockstep q P) (hnext : ∀ a b, P a b → Lockstep (f a) (g b) Q) :
    Lockstep (liftM r >>= f) (liftM q >>= g) Q := by
  have hlift : Lockstep (liftM r : Checking α) (liftM q) P := by
    show Run.Lockstep (Except.ok <$> r) (Except.ok <$> q) _
    rw [map_eq_pure_bind, map_eq_pure_bind]
    exact Run.lockstep_bind h fun a b hab => Run.lockstep_pure hab
  exact lockstep_bind hlift hnext

/-- Plain answers in front of steps hand themselves over. -/
theorem lockstep_except_bind {e : Except Fault α} {d : Except Fault β} {Q : γ → δ → Prop}
    (hnext : ∀ a b, e = .ok a → d = .ok b → Lockstep (f a) (g b) Q) :
    Lockstep (liftM e >>= f) (liftM d >>= g) Q :=
  lockstep_run_bind (r := liftM e) (q := liftM d) (P := fun a b => e = .ok a ∧ d = .ok b)
    (Run.lockstep_liftM fun _ _ ha hb => ⟨ha, hb⟩) fun a b h => hnext a b h.1 h.2

/-- A step that fails goes in lockstep with any other. -/
theorem lockstep_fail_left {P : α → β → Prop} (c : Fault) :
    Lockstep (Checking.fail c) n P := by
  intro _ _ _ _ h
  cases h

/-- A check that fails with a fault is in lockstep with every check. -/
theorem lockstep_fail_right {P : α → β → Prop} (c : Fault) :
    Lockstep m (Checking.fail c) P := by
  intro _ _ _ _ _ h
  cases h

theorem lockstep_throw {P : α → β → Prop} {v u : Violation} (h : v.Parallel u) :
    Lockstep (throw v : Checking α) (throw u : Checking β) P := Run.lockstep_pure h

/-- A loop goes in lockstep with another if their rounds do. -/
theorem lockstep_foldlM {R : α → β → Prop} {P : γ → δ → Prop} {step : γ → α → Checking γ}
    {step' : δ → β → Checking δ}
    (hstep : ∀ c d a b, P c d → R a b → Lockstep (step c a) (step' d b) P) {as : List α}
    {bs : List β} (h : List.Forall₂ R as bs) {c : γ} {d : δ} (hcd : P c d) :
    Lockstep (as.foldlM step c) (bs.foldlM step' d) P := by
  induction h generalizing c d with
  | nil => exact lockstep_pure hcd
  | cons hab _ ih =>
    rw [List.foldlM_cons, List.foldlM_cons]
    exact lockstep_bind (hstep c d _ _ hcd hab) fun c' d' h => ih h

end Checking

end CheckedCalls
