import CheckedCalls.Proofs.Conclusion
import CheckedCalls.Proofs.Printing
import CheckedCalls.Proofs.TypeTree
import Mathlib.Data.List.Forall2

/-!
# What a check visits

A check goes through the arguments from left to right, each with the type of its slot: a visit is a
value together with the part of the signature that it is checked against. What a value holds for the
parameters of a type is the shape's to say for the types of the library; for other types it is what
their extractions hand out, and `NamedType.Answers` says what is asked of them.
-/

namespace CheckedCalls

open CheckState Checking Check

variable {I : World → Prop} {E : Fault → Prop} {call : Apply} {ts : List StandardType}
variable {S : Value → Prop} {u v : Value}

/-! ## Values with all that they hold -/

/-- Native values, with all that they hold. -/
structure Value.Closed (S : Value → Prop) : Prop where
  isNative : ∀ v, S v → v.isNative = true
  held : ∀ v, S v → ∀ x, v.Holds x → S x

/-- Native values hold native values only. -/
theorem Value.closed_native : Value.Closed fun v => v.isNative = true :=
  ⟨fun _ hv => hv, fun _ hv _ hx => isNative_of_holds hv hx⟩

/-! ## What is handed out -/

/-- The container runs through just these values. -/
def Value.RunsThrough (container : Value) (xs : List Value) : Prop := container.elements = pure xs

section Parameters

variable {α β : Type} {R : α → β → Prop} {as : List α} {bs : List β}

/-- The parameters beside the named ones are related if all are. -/
theorem forall₂_unnamed (h : List.Forall₂ R as bs) (named : Nat) :
    List.Forall₂ R (unnamed named as) (unnamed named bs) := by
  rw [unnamed, unnamed, h.length_eq]
  exact List.forall₂_take _ h

theorem forall₂_trailing (h : List.Forall₂ R as bs) (named : Nat) :
    List.Forall₂ R (trailing named as) (trailing named bs) := by
  rw [trailing, trailing, h.length_eq]
  exact List.forall₂_drop _ h

end Parameters

/-- A value of a shape hands out what it holds. -/
theorem concludes_extraction (call : Apply) {t : StandardType} (ht : v.shape? = some t)
    {e : Extraction} (he : t.extraction = some e) :
    Run.Concludes I E (e.run call v) fun params =>
      List.Forall₂ Value.RunsThrough params v.held := by
  rw [run_extraction_of_shape call ht he]
  refine Run.concludes_pure ?_
  rw [List.forall₂_map_left_iff]
  exact List.forall₂_same.2 fun _ _ => rfl

/-- The values that an extraction hands out for each parameter; those that are no part of the
library hand out what a function says. -/
def Extraction.hands (custom : Value → Value → List (List Value)) : Extraction → Value →
    List (List Value)
  | .custom f, v => custom f v
  | .array, v | .maybe, v | .either, v => v.held

/-- The values that a type describes by its parameters. -/
def NamedType.contents (custom : Value → Value → List (List Value)) (t : NamedType) (v : Value) :
    List (List Value) :=
  match t.extraction with
  | some e => e.hands custom v
  | none => []

/-! ## Types in expressions -/

mutual

/-- The named types in the expression, outside function types, have the property. -/
def TypeExpr.OfTypes (P : NamedType → Prop) : TypeExpr → Prop
  | .var _ args => TypeExpr.AllOfTypes P args
  | .concrete t args => P t ∧ TypeExpr.AllOfTypes P args
  | .fn _ _ | .foreign => True

/-- The named types in all the expressions have the property. -/
def TypeExpr.AllOfTypes (P : NamedType → Prop) : List TypeExpr → Prop
  | [] => True
  | e :: es => TypeExpr.OfTypes P e ∧ TypeExpr.AllOfTypes P es

end

/-! ## Types that answer -/

/-- The containers can be run through, and the values that they hold have the property. -/
def Handed (I : World → Prop) (E : Fault → Prop) (P : Value → Prop) (params : List Value) : Prop :=
  ∀ items ∈ params, Run.Concludes I E items.elements fun xs => ∀ x ∈ xs, P x

/-- The type answers whether it contains a value of the class, and of a value that it contains it
hands out values of the class. -/
def NamedType.Answers (I : World → Prop) (E : Fault → Prop) (call : Apply) (S : Value → Prop)
    (t : NamedType) : Prop :=
  ∀ v, S v → Run.Concludes I E (t.contains call v) fun b => b = true →
    ∀ e, t.extraction = some e → Run.Concludes I E (e.run call v) (Handed I E S)

mutual

/-- Variables, functions, and types that answer, applied to such. -/
def TypeExpr.Answers (I : World → Prop) (E : Fault → Prop) (call : Apply) (S : Value → Prop) :
    TypeExpr → Prop
  | .var _ args => TypeExpr.AllAnswer I E call S args
  | .concrete t args => t.Answers I E call S ∧ TypeExpr.AllAnswer I E call S args
  | .fn _ _ => True
  | .foreign => False

/-- All the expressions answer. -/
def TypeExpr.AllAnswer (I : World → Prop) (E : Fault → Prop) (call : Apply) (S : Value → Prop) :
    List TypeExpr → Prop
  | [] => True
  | e :: es => TypeExpr.Answers I E call S e ∧ TypeExpr.AllAnswer I E call S es

end

theorem TypeExpr.AllAnswer.of_mem {es : List TypeExpr} {e : TypeExpr}
    (h : TypeExpr.AllAnswer I E call S es) (he : e ∈ es) : e.Answers I E call S := by
  induction es with
  | nil => cases he
  | cons d es ih =>
    rcases List.mem_cons.1 he with rfl | he
    · exact h.1
    · exact ih h.2 he

/-- What containers run through they hand out. -/
theorem handed_of_runsThrough {params : List Value} {held : List (List Value)}
    (hparams : List.Forall₂ Value.RunsThrough params held)
    (hheld : ∀ items ∈ held, ∀ x ∈ items, S x) : Handed I E S params := by
  induction hparams with
  | nil => exact fun _ h => by cases h
  | cons hruns _ ih =>
    rw [List.forall_mem_cons] at hheld
    refine List.forall_mem_cons.2 ⟨?_, ih hheld.2⟩
    rw [hruns]
    exact Run.concludes_pure hheld.1

/-- The types of the library answer, as far as their tests do. -/
theorem StandardType.answers (hS : Value.Closed S) {t : StandardType}
    (hfault : ∀ v, S v → ∀ f, t.test v = .error f → E f) :
    t.named.Answers I E call S := by
  intro v hv
  rw [contains_named]
  refine Run.concludes_liftM (fun b hb htrue e he => ?_) (hfault v hv)
  have hhas : t.has v = true := (has_of_test hb).trans htrue
  have hshape := shape_of_has (Option.isSome_iff_exists.2 ⟨e, he⟩) (hS.isNative v hv) hhas
  exact (concludes_extraction call hshape he).mono fun _ hparams =>
    handed_of_runsThrough hparams fun items hitems x hx => hS.held v hv x ⟨items, hitems, hx⟩

/-! ## Visits -/

/-- A value that is checked against a part of a signature, which stands at a place in it. -/
structure Visit where
  expr : TypeExpr
  key : SpanKey
  value : Value

end CheckedCalls
