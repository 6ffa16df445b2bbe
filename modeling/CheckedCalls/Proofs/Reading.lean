import CheckedCalls.Evaluate
import CheckedCalls.Proofs.Conclusion
import Mathlib.Data.List.Forall2

/-!
# What values denote

The laws of the algebra are about functions, and a function value is a term: what it denotes shows
where it is called. A `Reading` says which values stand for which elements of a type, and numbering
the fresh objects of a value changes nothing about it, so that it outlives a call. A function value
denotes a function if calls with a value that stands for `a` answer one that stands for `g a`, in
each world in which no attribute was assigned; so a function with a denotation is pure.
-/

namespace CheckedCalls

variable {α β γ : Type}

/-! ## Numbering -/

namespace Value

/-- The value with its fresh objects numbered from `n` on. -/
def labelled (v : Value) (n : Nat) : Value := (StateT.run v.label n).1

/-- The values with their fresh objects numbered from `n` on, one after the other. -/
def labelledAll (xs : List Value) (n : Nat) : List Value := (StateT.run (labelAll xs) n).1

/-- An object that has a number keeps it. -/
theorem labelled_labelled (v : Value) (m n : Nat) : (v.labelled m).labelled n = v.labelled m := by
  cases v with
  | type r =>
    cases r with
    | builtin b => rfl
    | declared c =>
      cases c with
      | composed t => cases t <;> rfl
      | declared => rfl
  | number t | complex t | text t | bytes t | seq k t | dict t | date t | moment t | error t
  | plain t | just t | left t | right t | identity t | func t | object t => cases t <;> rfl
  | _ => rfl

/-- A list keeps its reading when its values are labelled. -/
theorem forall₂_labelledAll {R : Value → α → Prop} (hR : ∀ {x a} n, R x a → R (x.labelled n) a)
    {xs : List Value} {as : List α} (h : xs.Forall₂ R as) (n : Nat) :
    (labelledAll xs n).Forall₂ R as := by
  induction h generalizing n with
  | nil => exact .nil
  | cons hx _ ih => exact .cons (hR n hx) (ih _)

/-- A labelled function is the same function under a label. -/
theorem exists_labelled_func (t : Tag) (f : Func) (n : Nat) :
    ∃ s, (Value.func t f).labelled n = .func s f := by
  cases t <;> exact ⟨_, rfl⟩

end Value

/-! ## Untouched worlds -/

/-- No attribute was assigned. -/
def World.Untouched (w : World) : Prop := w.assigned = []

theorem World.untouched_initial : World.initial.Untouched := rfl

namespace Run

/-- From an untouched world the run answers something with the property, and leaves such a world. -/
abbrev Yields (r : Run α) (P : α → Prop) : Prop := r.Concludes World.Untouched (fun _ => False) P

/-- What follows a run that answers goes on from some answer of it. -/
theorem Yields.exists_outcome {r : Run α} {P : α → Prop} (h : r.Yields P) {w : World}
    (hw : w.Untouched) (f : α → Run β) :
    ∃ a w', P a ∧ w'.Untouched ∧ (r >>= f).outcome w = (f a).outcome w' := by
  have hr := h w hw
  rw [outcome_bind]
  generalize r.outcome w = p at hr ⊢
  rcases p with ⟨e | a, w'⟩
  · exact hr.elim
  · exact ⟨a, w', hr.1, hr.2, rfl⟩

/-- Nothing was assigned that could be filled in, so settling only numbers. -/
theorem yields_settle {v : Value} {P : Value → Prop} (h : ∀ n, P (v.labelled n)) :
    (settle v).Yields P := by
  intro w hw
  have hassigned : w.assigned.isEmpty = true := by rw [hw]; rfl
  have hout : (settle v).outcome w =
      (.ok (v.labelled w.next), { w with next := (StateT.run v.label w.next).2 }) := by
    show (labelling (if w.assigned.isEmpty then v else v.refresh w).label).outcome w = _
    rw [hassigned]
    rfl
  rw [hout]
  exact ⟨h w.next, hw⟩

/-- Nothing was assigned to the value, so an attribute is that of its class. -/
theorem yields_get {call : Apply} {v : Value} {a : Attribute} {P : Value → Prop}
    (h : (v.getInherited call a).Yields P) : (v.get call a).Yields P := by
  intro w hw
  have hassigned : w.assigned? v.tag a = none := by
    unfold World.assigned?
    rw [hw]
    split <;> rfl
  have hout : (v.get call a).outcome w = (v.getInherited call a).outcome w := by
    rw [Value.get, outcome_get_bind, hassigned]
  rw [hout]
  exact h w hw

/-- Runs for each element of a list answer a list, element by element. -/
theorem concludes_mapM {I : World → Prop} {E : Fault → Prop} {f : α → Run β} {xs : List α}
    {R : β → γ → Prop} {as : List γ} {S : α → γ → Prop} (hxs : xs.Forall₂ S as)
    (hf : ∀ x a, S x a → (f x).Concludes I E (R · a)) :
    (xs.mapM f).Concludes I E (List.Forall₂ R · as) := by
  induction hxs with
  | nil => exact concludes_pure .nil
  | cons hx _ ih =>
    rw [List.mapM_cons]
    exact concludes_bind (hf _ _ hx) fun y hy =>
      concludes_bind ih fun ys hys => concludes_pure (.cons hy hys)

end Run

open Run

/-! ## Readings -/

/-- Which values stand for which elements of a type. -/
structure Reading (α : Type) where
  /-- The value stands for the element. -/
  denotes : Value → α → Prop
  /-- The number of an object says nothing about what the value stands for. -/
  labelled : ∀ {v a} (n : Nat), denotes v a → denotes (v.labelled n) a

namespace Reading

instance : CoeFun (Reading α) fun _ => Value → α → Prop := ⟨denotes⟩

variable {A : Reading α} {B : Reading β} {C : Reading γ}

/-- Values that stand for one element are related. -/
def Within (A : Reading α) (R : Value → Value → Prop) : Prop := ∀ x y a, A x a → A y a → R x y

/-- Functions of one argument: a call takes what `A` denotes to what `B` denotes, as long as calls
may nest at least `n` deep inside it. -/
def func (n : Nat) (A : Reading α) (B : Reading β) : Reading (α → β) where
  denotes f g := ∀ m x a, A x a → ∀ d, n ≤ d →
    (step (apply d) (f.labelled m) [x]).Yields (B · (g a))
  labelled := by
    intro f g n hf m
    rw [Value.labelled_labelled]
    exact hf n

/-- Functions of any number of arguments, by what they answer if the arguments stand for `as`. -/
def calledOn (n : Nat) (A : Reading α) (as : List α) (B : Reading β) : Reading β where
  denotes f b := ∀ m xs, xs.Forall₂ A as → ∀ d, n ≤ d →
    (step (apply d) (f.labelled m) xs).Yields (B · b)
  labelled := by
    intro f b n hf m
    rw [Value.labelled_labelled]
    exact hf n

/-- A function stands for another exactly if it does so called on each argument. -/
theorem func_iff {n : Nat} {f : Value} {g : α → β} :
    func n A B f g ↔ ∀ a, calledOn n A [a] B f (g a) := by
  constructor
  · rintro hf a m _ (_ | ⟨hx, _ | _⟩)
    exact hf m _ a hx
  · intro hf m x a hx
    exact hf a m [x] (.cons hx .nil)

/-- A function may be given more depth than it needs. -/
theorem func_mono {m n : Nat} {f : Value} {g : α → β} (hmn : m ≤ n) (hf : func m A B f g) :
    func n A B f g :=
  fun l x a hx d hdepth => hf l x a hx d (Nat.le_trans hmn hdepth)

/-- A call of a function value answers what the function says. -/
theorem calledOn_apply {n d : Nat} {f : Value} {xs : List Value} {as : List α} {b : β}
    (hf : calledOn n A as B f b) (hxs : xs.Forall₂ A as) (hdepth : n < d) :
    (apply d f xs).Yields (B · b) := by
  obtain ⟨d, rfl⟩ : ∃ k, d = k + 1 := ⟨d - 1, by omega⟩
  refine concludes_bind (yields_settle (P := fun v => ∃ m, v = f.labelled m) fun m => ⟨m, rfl⟩) ?_
  rintro _ ⟨m, rfl⟩
  have hargs : (settleAll xs).Yields (List.Forall₂ A.denotes · as) :=
    concludes_mapM hxs fun x a hx => yields_settle fun n => A.labelled n hx
  refine concludes_bind hargs fun xs hxs => ?_
  exact concludes_bind (hf m xs hxs d (by omega)) fun y hy => yields_settle fun n => B.labelled n hy

theorem func_apply {n d : Nat} {f x : Value} {g : α → β} {a : α} (hf : func n A B f g)
    (hx : A x a) (hdepth : n < d) : (apply d f [x]).Yields (B · (g a)) :=
  calledOn_apply (func_iff.1 hf a) (.cons hx .nil) hdepth

/-- A function term denotes what it does to its arguments. -/
theorem calledOn_term {n : Nat} {t : Tag} {f : Func} {as : List α} {b : β}
    (h : ∀ xs : List Value, xs.Forall₂ A as → ∀ d, n ≤ d →
      (f.run (apply d) (Target.run (apply d)) xs).Yields (B · b)) :
    calledOn n A as B (.func t f) b := by
  intro m xs hxs d hdepth
  obtain ⟨s, hs⟩ := Value.exists_labelled_func t f m
  rw [hs]
  exact h xs hxs d hdepth

/-- A term stands for a function if its runs on one argument do. -/
theorem func_term {n : Nat} {t : Tag} {f : Func} {g : α → β}
    (h : ∀ x a, A x a → ∀ d, n ≤ d →
      (f.run (apply d) (Target.run (apply d)) [x]).Yields (B · (g a))) :
    func n A B (.func t f) g := by
  refine func_iff.2 fun a => calledOn_term ?_
  rintro _ (_ | ⟨hx, _ | _⟩)
  exact h _ a hx

/-- A class of the library denotes what it makes of its argument. -/
theorem func_builtin {n : Nat} {b : Builtin} {g : α → β}
    (h : ∀ x a, A x a → ∀ d, n ≤ d → (b.construct (apply d) [x]).Yields (B · (g a))) :
    func n A B (.type (.builtin b)) g :=
  fun _ => h

/-! ## Function terms of the laws -/

theorem func_echo : func 0 A A (.function .echo) id :=
  func_term fun _ _ hx _ _ => concludes_pure hx

/-- One function after another. -/
theorem calledOn_after {n : Nat} {f g : Value} {as : List α} {p : β → γ} {b : β}
    (hf : func n B C f p) (hg : calledOn n A as B g b) :
    calledOn (n + 1) A as C (.function (.after f g)) (p b) :=
  calledOn_term fun _ hxs _ hdepth =>
    concludes_bind (calledOn_apply hg hxs hdepth) fun _ hy => func_apply hf hy hdepth

theorem func_after {n : Nat} {f g : Value} {p : β → γ} {q : α → β} (hf : func n B C f p)
    (hg : func n A B g q) : func (n + 1) A C (.function (.after f g)) (p ∘ q) :=
  func_iff.2 fun a => calledOn_after (b := q a) hf (func_iff.1 hg a)

/-- Composition, which awaits two functions and then an argument. -/
theorem func_composing {n : Nat} :
    func 0 (func n B C) (func 0 (func n A B) (func (n + 1) A C)) (.function .composing)
      Function.comp :=
  func_term fun _ _ hf _ _ => concludes_pure
    (func_term fun _ _ hg _ _ => concludes_pure (func_after hf hg))

/-- Application to a fixed argument. -/
theorem func_applyAt {n : Nat} {x : Value} {a : α} (hx : A x a) :
    func (n + 1) (func n A B) B (.function (.applyAt x)) (fun g => g a) :=
  func_term fun _ _ hf _ hdepth => func_apply hf hx (by omega)

/-! ## Integers -/

/-- Numbers that stand for integers. -/
def integer : Reading Int where
  denotes x a := ∃ t, x = .number t (.int a)
  labelled := by
    rintro _ a n ⟨t, rfl⟩
    exact ⟨_, rfl⟩

theorem func_increment : func 0 integer integer (.function (.primitive .increment)) (· + 1) :=
  func_term fun _ _ ⟨_, hx⟩ _ _ => hx ▸ concludes_pure ⟨_, rfl⟩

end Reading

end CheckedCalls
