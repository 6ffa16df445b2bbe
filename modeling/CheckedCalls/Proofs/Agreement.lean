import CheckedCalls.Proofs.Container
import CheckedCalls.Proofs.Faults
import CheckedCalls.Proofs.Sound

/-!
# Containers that agree place by place

Two containers of one shape are equal if their contents are, place by place. The comparison goes
through the places in order and stops at the first that differs, so it may also fail: just where the
comparison of two contents does.
-/

namespace CheckedCalls

open Run

variable {δ α β : Type}

/-- Nothing was assigned that could be a text. -/
theorem World.Untouched.untitled {w : World} (hw : w.Untouched) : w.Untitled := by
  intro t
  cases t with
  | numbered n =>
    show (w.assigned.find? _).map _ = none
    rw [show w.assigned = [] from hw]
    rfl
  | _ => rfl

/-! ## Confirming runs -/

namespace Run

/-- The run leaves each world as it is, and answers true just where the property holds; where it
does not, the run answers false or fails. -/
def Confirms (r : Run Value) (P : World → Prop) : Prop :=
  r.Decides ∧ ∀ w, r.Answers w (.bool true) ↔ P w

theorem Decides.confirms {r : Run Value} (h : r.Decides) :
    r.Confirms fun w => r.Answers w (.bool true) := ⟨h, fun _ => Iff.rfl⟩

/-- In the world, which it leaves as it is, the run answers whether the property holds; if it does
not, the run may instead fail for a cause that `E` admits. -/
def Verifies (r : Run β) (f : Bool → β) (E : Fault → Prop) (w : World) (P : Prop) : Prop :=
  r.Answers w (f true) ∧ P ∨
    ¬P ∧ (r.Answers w (f false) ∨ ∃ c, E c ∧ r.outcome w = (.error c, w))

section Verifies

variable {E : Fault → Prop} {w : World} {P Q : Prop}

theorem verifies_pure {f : Bool → β} (h : P) : Verifies (pure (f true)) f E w P :=
  .inl ⟨answers_pure _ w, h⟩

/-- A run that decides something verifies what it answers true to. -/
theorem Verifies.answers_iff {r : Run β} {f : Bool → β} (hr : r.Verifies f E w P)
    (hf : f true ≠ f false) : r.Answers w (f true) ↔ P := by
  rcases hr with ⟨hyes, hP⟩ | ⟨hP, hno | ⟨c, -, hc⟩⟩
  · exact iff_of_true hyes hP
  · exact iff_of_false (fun h => hf (h.unique hno)) hP
  · refine iff_of_false (fun h => ?_) hP
    cases h.symm.trans hc

/-- What is made of the answer verifies the same. -/
theorem Verifies.map {r : Run β} {f : Bool → β} (hr : r.Verifies f E w P) (g : β → α) :
    Verifies (do return g (← r)) (g ∘ f) E w P := by
  rcases hr with ⟨hyes, hP⟩ | ⟨hP, hno | ⟨c, hE, hc⟩⟩
  · exact .inl ⟨hyes.bind (answers_pure _ w), hP⟩
  · exact .inr ⟨hP, .inl (hno.bind (answers_pure _ w))⟩
  · refine .inr ⟨hP, .inr ⟨c, hE, ?_⟩⟩
    rw [outcome_bind, hc]

/-- What follows an answer verifies what it verifies on its own. -/
theorem Answers.verifies_bind {r : Run α} {a : α} {next : α → Run β} {f : Bool → β}
    (hr : r.Answers w a) (h : (next a).Verifies f E w P) : (r >>= next).Verifies f E w P := by
  simp only [Verifies, Answers, outcome_bind, show r.outcome w = _ from hr] at h ⊢
  exact h

/-- A run goes on where another answers true. -/
theorem Verifies.and {r : Run Value} {next : Run Bool} (call : Apply) (hr : r.Verifies .bool E w P)
    (hnext : next.Verifies id E w Q) :
    Verifies (do if ← (← r).truth call then next else return false) id E w (P ∧ Q) := by
  rcases hr with ⟨hyes, hP⟩ | ⟨hP, hno | ⟨c, hE, hc⟩⟩
  · rw [and_iff_right hP]
    exact hyes.verifies_bind hnext
  · exact .inr ⟨fun h => hP h.1, .inl (hno.bind (answers_pure _ w))⟩
  · refine .inr ⟨fun h => hP h.1, .inr ⟨c, hE, ?_⟩⟩
    rw [outcome_bind, hc]

/-- To confirm something is to verify it in each world. -/
theorem confirms_iff {r : Run Value} {P : World → Prop} :
    r.Confirms P ↔ ∀ w, r.Verifies .bool (fun c => c.isDispatch = false) w (P w) := by
  constructor
  · rintro ⟨hdecides, hanswers⟩ w
    obtain ⟨hworld, hanswer⟩ := hdecides w
    rcases hout : r.outcome w with ⟨c | v, w'⟩
    · rw [hout] at hworld hanswer
      cases hworld
      refine .inr ⟨fun hP => ?_, .inr ⟨c, hanswer, hout⟩⟩
      cases hout.symm.trans ((hanswers _).2 hP)
    · rw [hout] at hworld hanswer
      obtain ⟨b, rfl⟩ := hanswer
      cases hworld
      cases b with
      | true => exact .inl ⟨hout, (hanswers _).1 hout⟩
      | false =>
        refine .inr ⟨fun hP => ?_, .inl hout⟩
        cases hout.symm.trans ((hanswers _).2 hP)
  · intro h
    refine ⟨fun w => ?_, fun w => (h w).answers_iff (by simp)⟩
    rcases h w with ⟨hyes, -⟩ | ⟨-, hno | ⟨c, hE, hc⟩⟩
    · rw [show r.outcome w = _ from hyes]
      exact ⟨rfl, true, rfl⟩
    · rw [show r.outcome w = _ from hno]
      exact ⟨rfl, false, rfl⟩
    · rw [hc]
      exact ⟨rfl, hE⟩

end Verifies

end Run

/-! ## Related containers -/

namespace Holder

/-- The values are holders of one kind and shape, whose failures stand in one relation and whose
contents in another, place by place. -/
def Related (Q R : Value → Value → Prop) : Holder → Value → Value → Prop
  | .seq k, .seq i _ xs, .seq j _ ys => i = k ∧ j = k ∧ xs.Forall₂ R ys
  | .maybe, .nothing, .nothing => True
  | .maybe, .just _ x, .just _ y => R x y
  | .either, .left _ x, .left _ y => Q x y
  | .either, .right _ x, .right _ y => R x y
  | .identity, .identity _ x, .identity _ y => R x y
  | _, _, _ => False

variable {Q Q' : Value → Value → Prop} {R R' : Value → Value → Prop}

/-- Related holders stay related when more is related. -/
theorem Related.mono {H : Holder} {x y : Value} (h : H.Related Q R x y)
    (hQ : ∀ x y, Q x y → Q' x y) (hR : ∀ x y, R x y → R' x y) : H.Related Q' R' x y := by
  unfold Related at h ⊢
  split at h
  · exact ⟨h.1, h.2.1, h.2.2.imp hR⟩
  · exact trivial
  · exact hR _ _ h
  · exact hQ _ _ h
  · exact hR _ _ h
  · exact hR _ _ h
  · exact h.elim

/-- Values that stand for one holder are related place by place. -/
theorem Denotes.related {Q Q' : Value → δ → Prop} {R R' : Value → α → Prop} {H : Holder}
    {x y : Value} {s : H.Meaning δ α} (hx : H.Denotes Q R x s) (hy : H.Denotes Q' R' y s) :
    H.Related (fun x y => ∃ e, Q x e ∧ Q' y e) (fun x y => ∃ a, R x a ∧ R' y a) x y := by
  cases H with
  | seq k =>
    obtain ⟨t, xs, rfl, hxs⟩ := hx
    obtain ⟨u, ys, rfl, hys⟩ := hy
    refine ⟨rfl, rfl, ?_⟩
    induction hxs generalizing ys with
    | nil =>
      cases hys
      exact .nil
    | cons hx _ ih =>
      cases hys with
      | cons hy hys => exact .cons ⟨_, hx, hy⟩ (ih _ hys)
  | maybe =>
    cases s with
    | none =>
      cases hx
      cases hy
      trivial
    | some a =>
      obtain ⟨t, x, rfl, hx⟩ := hx
      obtain ⟨u, y, rfl, hy⟩ := hy
      exact ⟨a, hx, hy⟩
  | either =>
    cases s with
    | inl e =>
      obtain ⟨t, x, rfl, hx⟩ := hx
      obtain ⟨u, y, rfl, hy⟩ := hy
      exact ⟨e, hx, hy⟩
    | inr a =>
      obtain ⟨t, x, rfl, hx⟩ := hx
      obtain ⟨u, y, rfl, hy⟩ := hy
      exact ⟨a, hx, hy⟩
  | identity =>
    obtain ⟨t, x, rfl, hx⟩ := hx
    obtain ⟨u, y, rfl, hy⟩ := hy
    exact ⟨s, hx, hy⟩

end Holder

namespace Container

/-- The values are containers of one kind and shape, whose failures stand in one relation and whose
contents in another, place by place. -/
def Related (Q : Value → Value → Prop) :
    Container → (Value → Value → Prop) → Value → Value → Prop
  | .holder H, R, x, y => H.Related Q R x y
  | .composed t _ name outer inner, R, x, y =>
    ∃ r s v u, x = .object r (.composed t name outer.rep inner.rep) v ∧
      y = .object s (.composed t name outer.rep inner.rep) u ∧
      outer.Related Q (inner.Related Q R) v u

/-- Related values of a composition stay related when more is related. -/
theorem Related.mono {Q Q' : Value → Value → Prop} {T : Container} {R R' : Value → Value → Prop}
    {x y : Value} (h : T.Related Q R x y) (hQ : ∀ x y, Q x y → Q' x y)
    (hR : ∀ x y, R x y → R' x y) : T.Related Q' R' x y := by
  induction T generalizing R R' x y with
  | holder H => exact Holder.Related.mono h hQ hR
  | composed t ht name outer inner ihouter ihinner =>
    obtain ⟨r, s, v, u, rfl, rfl, h⟩ := h
    exact ⟨r, s, v, u, rfl, rfl, ihouter h fun x y hxy => ihinner hxy hR⟩

/-- Values that stand for one container are related place by place. -/
theorem Denotes.related {Q Q' : Value → δ → Prop} {T : Container} {α : Type}
    {R R' : Value → α → Prop} {x y : Value} {s : T.Meaning δ α} (hx : T.Denotes Q R x s)
    (hy : T.Denotes Q' R' y s) :
    T.Related (fun x y => ∃ e, Q x e ∧ Q' y e) (fun x y => ∃ a, R x a ∧ R' y a) x y := by
  induction T generalizing α x y with
  | holder H => exact Holder.Denotes.related hx hy
  | composed t ht name outer inner ihouter ihinner =>
    obtain ⟨r, v, rfl, hv⟩ := hx
    obtain ⟨q, u, rfl, hu⟩ := hy
    refine ⟨r, q, v, u, rfl, rfl, (ihouter hv hu).mono (fun _ _ => id) ?_⟩
    rintro x y ⟨s, hx, hy⟩
    exact ihinner hx hy

end Container

/-! ## Comparing containers -/

section Equality

variable {call : Apply} {E : Fault → Prop} {w : World} {Q R : Value → Value → Prop}

/-- Elements are compared in order. -/
theorem verifies_equalsAll {xs ys : List Value}
    (h : xs.Forall₂ (fun x y => (Value.equals call x y).Verifies .bool E w (R x y)) ys) :
    (Value.equalsAll call xs ys).Verifies id E w (xs.Forall₂ R ys) := by
  induction h with
  | nil => exact verifies_pure (f := id) List.Forall₂.nil
  | cons hxy _ ih =>
    rw [Value.equalsAll, List.forall₂_cons]
    exact hxy.and call ih

/-- Equality of holders verifies that they are related, if it does so for what they hold. -/
theorem Holder.verifies_equals {H : Holder} {x y : Value}
    (h : H.Related (fun x y => (Value.equals call x y).Verifies .bool E w (Q x y))
      (fun x y => (Value.equals call x y).Verifies .bool E w (R x y)) x y) :
    (Value.equals call x y).Verifies .bool E w (H.Related Q R x y) := by
  unfold Holder.Related at h
  split at h
  · rename_i k i s xs j t ys
    obtain ⟨rfl, rfl, hxs⟩ := h
    rw [Value.equals, if_pos ⟨rfl, hxs.length_eq⟩]
    simp only [Holder.Related, true_and]
    exact (verifies_equalsAll hxs).map Value.bool
  · exact verifies_pure trivial
  · exact h
  · exact h
  · exact h
  · exact h
  · exact h.elim

/-- Containers of one shape are equal just if they are so place by place. -/
theorem Container.verifies_equals {T : Container} {x y : Value}
    (h : T.Related (fun x y => (Value.equals call x y).Verifies .bool E w (Q x y))
      (fun x y => (Value.equals call x y).Verifies .bool E w (R x y)) x y) :
    (Value.equals call x y).Verifies .bool E w (T.Related Q R x y) := by
  induction T generalizing R x y with
  | holder H => exact Holder.verifies_equals h
  | composed t ht name outer inner ihouter ihinner =>
    obtain ⟨r, s, v, u, rfl, rfl, h⟩ := h
    have hheld := ihouter (h.mono (fun _ _ => id) fun x y hxy => ihinner hxy)
    -- the class has an identity, so both are of one class
    have hsame : (Class.composed t name outer.rep inner.rep).same
        (.composed t name outer.rep inner.rep) = true := by
      cases t <;> simp_all [Class.same, Class.tag, Tag.same]
    have hsetoid : (Class.composed t name outer.rep inner.rep).layers.isMember .setoid = true := rfl
    have hequals : Value.equals call (.object r (.composed t name outer.rep inner.rep) v)
        (.object s (.composed t name outer.rep inner.rep) u) = Value.equals call v u := by
      rw [Value.equals, if_pos hsetoid, if_pos hsame]
    have hrelated : (Container.composed t ht name outer inner).Related Q R
        (.object r (.composed t name outer.rep inner.rep) v)
        (.object s (.composed t name outer.rep inner.rep) u) ↔
          outer.Related Q (inner.Related Q R) v u := by
      constructor
      · rintro ⟨_, _, _, _, ⟨⟩, ⟨⟩, h⟩
        exact h
      · intro h
        exact ⟨r, s, v, u, rfl, rfl, h⟩
    rw [hequals, hrelated]
    exact hheld

end Equality

/-! ## Laws -/

namespace Reading

/-- Only data stands for elements. -/
def OfData (A : Reading α) : Prop := ∀ x a, A x a → x.isData = true

/-- Comparing values that stand for one element confirms that they agree. -/
def Compared (call : Apply) (A : Reading α) (Agree : World → Value → Value → Prop) : Prop :=
  A.Within fun x y => (Value.equals call x y).Confirms (Agree · x y)

theorem OfData.compared {A : Reading α} (hA : A.OfData) (call : Apply) :
    A.Compared call (Value.Equal call) :=
  fun x y _ hx hy => (Value.decides_equals call (hA x _ hx) (hA y _ hy)).confirms

section Within

variable {E : Reading δ} {A : Reading α} {Q R : Value → Value → Prop}

theorem Within.container (hE : E.Within Q) (hA : A.Within R) (T : Container) :
    (T.lift E A).Within (T.Related Q R) :=
  fun _ _ _ hx hy => (Container.Denotes.related hx hy).mono
    (fun x y ⟨e, hx, hy⟩ => hE x y e hx hy) (fun x y ⟨a, hx, hy⟩ => hA x y a hx hy)

theorem Within.holder (hE : E.Within Q) (hA : A.Within R) (H : Holder) :
    (H.lift E A).Within (H.Related Q R) :=
  fun _ _ _ hx hy => (Holder.Denotes.related hx hy).mono
    (fun x y ⟨e, hx, hy⟩ => hE x y e hx hy) (fun x y ⟨a, hx, hy⟩ => hA x y a hx hy)

end Within

variable {call : Apply} {E : Reading δ} {A : Reading α}
  {Q R : World → Value → Value → Prop}

/-- Containers that stand for one are compared place by place. -/
theorem Compared.container (hE : E.Compared call Q) (hA : A.Compared call R) (T : Container) :
    (T.lift E A).Compared call fun w => T.Related (Q w) (R w) :=
  fun x y s hx hy => confirms_iff.2 fun w => Container.verifies_equals <|
    (Within.container hE hA T x y s hx hy).mono (fun _ _ h => confirms_iff.1 h w)
      fun _ _ h => confirms_iff.1 h w

/-- Holders that stand for one are compared place by place. -/
theorem Compared.holder (hE : E.Compared call Q) (hA : A.Compared call R) (H : Holder) :
    (H.lift E A).Compared call fun w => H.Related (Q w) (R w) :=
  fun x y s hx hy => confirms_iff.2 fun w => Holder.verifies_equals <|
    (Within.holder hE hA H x y s hx hy).mono (fun _ _ h => confirms_iff.1 h w)
      fun _ _ h => confirms_iff.1 h w

end Reading

theorem Reading.integer_ofData : Reading.integer.OfData := by
  rintro _ a ⟨t, rfl⟩
  rfl

/-- Numbers that stand for one integer are equal. -/
theorem Reading.integer_within (call : Apply) (w : World) :
    integer.Within (Value.Equal call w) := by
  rintro _ _ a ⟨s, rfl⟩ ⟨t, rfl⟩
  have hself : (Number.int a).equals (.int a) = true := by
    simp [Number.equals, Number.isNaN, Number.isNegativeZero, Number.same, Number.point?]
  show (Run.answer ((Number.int a).equals (.int a))).Answers w (.bool true)
  rw [hself]
  rfl

/-- The run compares two values with the property. -/
def Run.Weighs (call : Apply) (r : Run Value) (P : Value → Prop) : Prop :=
  ∀ w, w.Untouched → ∃ x y w', w'.Untouched ∧ P x ∧ P y ∧
    r.outcome w = (Value.equals call x y).outcome w'

namespace Run

variable {call : Apply} {P : Value → Prop}

theorem weighs_equals {x y : Value} (hx : P x) (hy : P y) :
    Weighs call (Value.equals call x y) P :=
  fun w hw => ⟨x, y, w, hw, hx, hy, rfl⟩

/-- A run in front of an equation weighs what the equation does. -/
theorem weighs_bind {β : Type} {r : Run β} {f : β → Run Value} {R : β → Prop} (hr : r.Yields R)
    (hf : ∀ b, R b → Weighs call (f b) P) : Weighs call (r >>= f) P := by
  intro w hw
  obtain ⟨b, w', hb, hw', hout⟩ := hr.exists_outcome hw f
  rw [hout]
  exact hf b hb w' hw'

end Run

/-- Both sides of the law stand for `s`, and the law compares them: it answers true just where they
agree. -/
def Law.Balances (call : Apply) (law : Law) (args : List Value) (D : Reading α) (s : α)
    (Agree : World → Value → Value → Prop) : Prop :=
  ∀ w, w.Untouched → ∃ x y w', w'.Untouched ∧ D x s ∧ D y s ∧
    (law.run call args).outcome w = (Value.equals call x y).outcome w' ∧
    (((law.run call args).outcome w).1 = .ok (.bool true) ↔ Agree w' x y)

/-- A law whose sides are weighed and compared balances. -/
theorem Law.balances {call : Apply} {law : Law} {args : List Value} {D : Reading α} {s : α}
    {Agree : World → Value → Value → Prop}
    (hlaw : (law.run call args).Weighs call (D · s)) (hD : D.Compared call Agree) :
    law.Balances call args D s Agree := by
  intro w hw
  obtain ⟨x, y, w', hw', hx, hy, hout⟩ := hlaw w hw
  refine ⟨x, y, w', hw', hx, hy, hout, ?_⟩
  rw [hout]
  refine Iff.trans ?_ ((hD x y s hx hy).2 w')
  constructor
  · intro h
    exact Prod.ext h ((hD x y s hx hy).1 w').1
  · intro h
    rw [show (Value.equals call x y).outcome w' = _ from h]

/-- A law whose sides balance holds if values that stand for one element agree. -/
theorem Law.Balances.holds {call : Apply} {law : Law} {args : List Value} {D : Reading α} {s : α}
    {Agree : World → Value → Value → Prop} (h : law.Balances call args D s Agree)
    (hD : ∀ w, D.Within (Agree w)) {w : World} (hw : w.Untouched) :
    ((law.run call args).outcome w).1 = .ok (.bool true) := by
  obtain ⟨x, y, w', -, hx, hy, -, hiff⟩ := h w hw
  exact hiff.2 (hD w' x y s hx hy)

end CheckedCalls
