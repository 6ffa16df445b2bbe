import CheckedCalls.Proofs.Outcome

/-!
# Runs that overflow or answer

`Run.OverflowsIf` says of a run that it fails for one cause only, that a result is too large, and
when it does so. It has one rule for each way in which runs are put together. A run through a list
that stops at the first element that does not pass overflows where it reaches an element that
overflows (`Run.overflowsIf_every`).
-/

namespace CheckedCalls

variable {α β : Type}

/-! ## The first of several things -/

/-- Some element has the property `P`, and all elements in front of it have the property `T`. -/
def Reaches (T P : α → Prop) (as : List α) : Prop :=
  ∃ front a back, as = front ++ a :: back ∧ (∀ b ∈ front, T b) ∧ P a

section Reaches

variable {T P : α → Prop} {a : α} {as : List α}

/-- Nothing is reached in an empty list. -/
theorem not_reaches_nil : ¬Reaches T P [] := by
  rintro ⟨front, a, back, h, -⟩
  cases front <;> cases h

/-- An element is reached at the head, or further on past a head that passes. -/
theorem reaches_cons : Reaches T P (a :: as) ↔ P a ∨ T a ∧ Reaches T P as := by
  constructor
  · rintro ⟨front, b, back, h, hfront, hb⟩
    cases front with
    | nil =>
      cases h
      exact .inl hb
    | cons c front =>
      cases h
      rw [List.forall_mem_cons] at hfront
      exact .inr ⟨hfront.1, front, b, back, rfl, hfront.2, hb⟩
  · rintro (ha | ⟨ha, front, b, back, rfl, hfront, hb⟩)
    · exact ⟨[], a, as, rfl, by simp, ha⟩
    · exact ⟨a :: front, b, back, rfl, List.forall_mem_cons.2 ⟨ha, hfront⟩, hb⟩

/-- Two properties that agree on the list are reached alike. -/
theorem reaches_congr {P' : α → Prop} (h : ∀ a ∈ as, P a ↔ P' a) :
    Reaches T P as ↔ Reaches T P' as := by
  refine exists_congr fun front => exists_congr fun a => exists_congr fun back => ?_
  refine and_congr_right fun has => and_congr_right fun _ => h a ?_
  simp [has]

end Reaches

namespace Run

/-! ## Runs that overflow or answer -/

/-- The run fails in the world since a result is too large, and leaves the world as it is. -/
def Overflows (r : Run α) (w : World) : Prop := r.outcome w = (.error .overflow, w)

/-- The run overflows in the world if `P` holds, and otherwise it gives an answer with the property
and leaves the world as it is. -/
def OverflowsIf (r : Run α) (w : World) (P : Prop) (Q : α → Prop) : Prop :=
  (¬P ∧ ∃ a, r.Answers w a ∧ Q a) ∨ (P ∧ r.Overflows w)

section OverflowsIf

variable {r : Run α} {f : α → Run β} {w : World} {P P' : Prop} {Q Q' : α → Prop} {R : β → Prop}
variable {a : α}

/-- A run that answers does not overflow. -/
theorem Answers.not_overflows (h : r.Answers w a) : ¬r.Overflows w := fun h' => by
  cases h.symm.trans h'

/-- What follows an answer overflows if it does on its own. -/
theorem Answers.overflowsIf_bind (hr : r.Answers w a) (h : (f a).OverflowsIf w P R) :
    (r >>= f).OverflowsIf w P R := by
  have hout : (r >>= f).outcome w = (f a).outcome w := by rw [outcome_bind, hr]
  simp only [OverflowsIf, Overflows, Answers, hout]
  exact h

/-- A run that answers overflows in no case. -/
theorem Answers.overflowsIf (h : r.Answers w a) (ha : Q a) : r.OverflowsIf w False Q :=
  .inl ⟨id, a, h, ha⟩

namespace OverflowsIf

/-- A run overflows in every equivalent case. -/
theorem congr (h : r.OverflowsIf w P Q) (hP : P ↔ P') : r.OverflowsIf w P' Q := by
  rwa [OverflowsIf, ← hP]

theorem mono (h : r.OverflowsIf w P Q) (hQ : ∀ a, Q a → Q' a) : r.OverflowsIf w P Q' :=
  h.imp_left fun ⟨hP, a, ha, hQa⟩ => ⟨hP, a, ha, hQ a hQa⟩

/-- A run overflows exactly in the case that is known. -/
theorem overflows_iff (h : r.OverflowsIf w P Q) : r.Overflows w ↔ P := by
  rcases h with ⟨hP, a, ha, -⟩ | ⟨hP, hr⟩
  · exact iff_of_false ha.not_overflows hP
  · exact iff_of_true hr hP

theorem not_of_answers (h : r.OverflowsIf w P Q) (ha : r.Answers w a) : ¬P := fun hP =>
  ha.not_overflows (h.overflows_iff.2 hP)

/-- Two runs in sequence overflow where the first does, or where it answers and the second does. -/
theorem bind {P' : α → Prop} (hr : r.OverflowsIf w P Q)
    (hf : ∀ a, r.Answers w a → Q a → (f a).OverflowsIf w (P' a) R) :
    (r >>= f).OverflowsIf w (P ∨ ∃ a, r.Answers w a ∧ P' a) R := by
  rcases hr with ⟨hP, a, ha, hQ⟩ | ⟨hP, hr⟩
  · have hbind : (r >>= f).OverflowsIf w (P' a) R := ha.overflowsIf_bind (hf a ha hQ)
    refine hbind.congr ⟨fun hP' => .inr ⟨a, ha, hP'⟩, ?_⟩
    rintro (hP' | ⟨b, hb, hP'⟩)
    · exact absurd hP' hP
    · rwa [ha.unique hb]
  · refine .inr ⟨.inl hP, ?_⟩
    rw [Overflows, outcome_bind, hr]

/-- What is made of an answer does not overflow. -/
theorem bind_pure {g : α → β} (hr : r.OverflowsIf w P Q) (hg : ∀ a, Q a → R (g a)) :
    OverflowsIf (do return g (← r)) w P R := by
  refine (hr.bind fun a _ ha => Answers.overflowsIf (answers_pure (g a) w) (hg a ha)).congr ?_
  simp

end OverflowsIf

end OverflowsIf

/-! ## Going through a list -/

/-- Whether each element passes a test. The first that does not ends the run. -/
def every (test : α → Run Bool) : List α → Run Bool
  | [] => pure true
  | a :: as => do if ← test a then every test as else return false

section Every

variable {test : α → Run Bool} {w : World} {P : α → Prop} {as : List α}

/-- A test that passes on every element passes on the list. -/
theorem every_answers_true (h : ∀ a ∈ as, (test a).Answers w true) :
    (every test as).Answers w true := by
  induction as with
  | nil => exact answers_pure true w
  | cons a as ih =>
    rw [List.forall_mem_cons] at h
    exact h.1.bind (ih h.2)

theorem overflowsIf_every (h : ∀ a ∈ as, (test a).OverflowsIf w (P a) fun _ => True) :
    (every test as).OverflowsIf w (Reaches (fun a => (test a).Answers w true) P as)
      fun b => b = true ↔ ∀ a ∈ as, (test a).Answers w true := by
  induction as with
  | nil =>
    exact (Answers.overflowsIf (answers_pure true w) (by simp)).congr
      (by simp [not_reaches_nil])
  | cons a as ih =>
    rw [List.forall_mem_cons] at h
    rw [every]
    have hrest (b : Bool) (hb : (test a).Answers w b) :
        OverflowsIf (if b = true then every test as else pure false) w
          (b = true ∧ Reaches (fun a => (test a).Answers w true) P as)
          fun c => c = true ↔ ∀ a' ∈ a :: as, (test a').Answers w true := by
      cases b with
      | true => exact ((ih h.2).mono (by simp [hb])).congr (by simp)
      | false =>
        have hno : ¬(test a).Answers w true := fun h => by cases h.unique hb
        exact (Answers.overflowsIf (answers_pure false w) (by simp [hno])).congr (by simp)
    refine (h.1.bind fun b hb _ => hrest b hb).congr ?_
    rw [reaches_cons]
    simp

end Every

end Run

end CheckedCalls
