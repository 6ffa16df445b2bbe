import CheckedCalls.Proofs.Comparison
import CheckedCalls.Proofs.Identity
import Mathlib.Data.List.Forall2
import Mathlib.Data.List.Pairwise
import Mathlib.Tactic.Tauto

/-!
# What the equalities see of values

Either equality looks at the form of both values: an atom that is compared at once, or a container
whose parts are compared in turn (`Form.Step`). The two differ in the forms that they see and in how
they compare the parts of sequences and dictionaries; the keys of dictionaries and what boxes hold
they compare alike. A relation between the parts that is symmetric and transitive makes the step so
too.
-/

namespace CheckedCalls

/-! ## Relations on some values -/

/-- The relation is symmetric and transitive between values of a class. -/
structure EquivOn (S : Value → Prop) (R : Value → Value → Prop) : Prop where
  symm : ∀ {x y}, S x → S y → R x y → R y x
  trans : ∀ {x y z}, S x → S y → S z → R x y → R y z → R x z

namespace EquivOn

variable {S T : Value → Prop} {R : Value → Value → Prop}

theorem mono (hR : EquivOn S R) (hT : ∀ {x}, T x → S x) : EquivOn T R where
  symm hx hy := hR.symm (hT hx) (hT hy)
  trans hx hy hz := hR.trans (hT hx) (hT hy) (hT hz)

/-- An equivalence of elements is symmetric on lists. -/
theorem forall₂_symm (hR : EquivOn S R) {xs ys : List Value} (hxs : ∀ x ∈ xs, S x)
    (hys : ∀ y ∈ ys, S y) (h : xs.Forall₂ R ys) : ys.Forall₂ R xs := by
  induction h with
  | nil => exact .nil
  | cons hxy _ ih =>
    rw [List.forall_mem_cons] at hxs hys
    exact .cons (hR.symm hxs.1 hys.1 hxy) (ih hxs.2 hys.2)

/-- An equivalence of elements is transitive on lists. -/
theorem forall₂_trans (hR : EquivOn S R) {xs ys zs : List Value} (hxs : ∀ x ∈ xs, S x)
    (hys : ∀ y ∈ ys, S y) (hzs : ∀ z ∈ zs, S z) (hxy : xs.Forall₂ R ys)
    (hyz : ys.Forall₂ R zs) : xs.Forall₂ R zs := by
  induction hxy generalizing zs with
  | nil =>
    cases hyz
    exact .nil
  | cons hxy _ ih =>
    cases hyz with
    | cons hyz hrest =>
      rw [List.forall_mem_cons] at hxs hys hzs
      exact .cons (hR.trans hxs.1 hys.1 hzs.1 hxy hyz) (ih hxs.2 hys.2 hzs.2 hrest)

/-- To be one object or related, if objects that are one are one value or related. -/
theorem identical_or (hR : EquivOn S R)
    (hone : ∀ {x y}, S x → S y → x.identical y = true → x = y ∨ R x y) :
    EquivOn S fun x y => x.identical y = true ∨ R x y where
  symm hx hy := Or.imp Value.identical_symm (hR.symm hx hy)
  trans hx hy hz hxy hyz := by
    rcases hxy with hxy | hxy
    · rcases hone hx hy hxy with rfl | hR'
      · exact hyz
      · exact hyz.imp (Value.identical_trans hxy) (hR.trans hx hy hz hR')
    · rcases hyz with hyz | hyz
      · rcases hone hy hz hyz with rfl | hR'
        · exact .inr hxy
        · exact .inr (hR.trans hx hy hz hxy hR')
      · exact .inr (hR.trans hx hy hz hxy hyz)

end EquivOn

/-- If as many things as there are targets have targets of their own, each target is taken. -/
theorem exists_of_pairwise {α β : Type} {R : α → β → Prop} {as : List α} {bs : List β}
    (hlength : bs.length ≤ as.length) (htotal : ∀ a ∈ as, ∃ b ∈ bs, R a b)
    (hone : as.Pairwise fun a a' => ∀ b ∈ bs, R a b → ¬R a' b) : ∀ b ∈ bs, ∃ a ∈ as, R a b := by
  induction as generalizing bs with
  | nil => simp_all
  | cons a as ih =>
    rw [List.forall_mem_cons] at htotal
    rw [List.pairwise_cons] at hone
    obtain ⟨⟨b, hb, hab⟩, htotal⟩ := htotal
    obtain ⟨front, back, rfl⟩ := List.append_of_mem hb
    -- the target of the first is left to the first
    have hrest : ∀ c ∈ front ++ back, ∃ a ∈ as, R a c := by
      refine ih (by simp at hlength ⊢; omega) ?_ ?_
      · intro a' ha'
        obtain ⟨c, hc, hac⟩ := htotal a' ha'
        have hcb : c ≠ b := by
          rintro rfl
          exact hone.1 a' ha' c hc hab hac
        refine ⟨c, ?_, hac⟩
        simpa [hcb] using hc
      · refine hone.2.imp fun h c hc => h c ?_
        simp only [List.mem_append, List.mem_cons] at hc ⊢
        tauto
    intro c hc
    by_cases hcb : c = b
    · exact ⟨a, by simp, hcb ▸ hab⟩
    · obtain ⟨a', ha', hac⟩ := hrest c (by simpa [hcb] using hc)
      exact ⟨a', List.mem_cons_of_mem _ ha', hac⟩

/-- Of entries that exclude each other pairwise only one has a property. -/
theorem eq_of_pairwise_not {α : Type} {P : α → Prop} {as : List α}
    (h : as.Pairwise fun a b => ¬(P a ∧ P b)) {a b : α} (ha : a ∈ as) (hb : b ∈ as) (hPa : P a)
    (hPb : P b) : a = b := by
  by_contra hab
  have : Std.Symm fun a b => ¬(P a ∧ P b) := ⟨fun _ _ hno hboth => hno hboth.symm⟩
  exact h.forall ha hb hab ⟨hPa, hPb⟩

/-! ## Forms -/

/-- What is compared at once. -/
inductive Atom
  | null
  | bool (b : Bool)
  | number (p : Option Point) (negativeZero : Bool)
  | complex (p : Option (Point × Point)) (t : Option Tag)
  | text (s : String)
  | bytes (bs : List UInt8)
  | date (d : Date)
  | instant (i : Instant)
  | moment (zoned : Bool) (i : Instant)
  | pattern (s : String)
  | nothing

/-- What an equality looks at. -/
inductive Form
  | atom (a : Atom)
  /-- A point of the plane. What is none differs from everything, also from itself. -/
  | plane (p : Option (Point × Point))
  | func (t : Tag) (f : Func)
  | seq (k : SeqKind) (xs : List Value)
  | dict (es : List (Value × Value))
  | box (b : Base) (v : Value)

namespace Form

/-- The values that are compared in turn. -/
def parts : Form → List Value
  | .seq _ xs => xs
  | .dict es => es.flatMap fun e => [e.1, e.2]
  | .box _ v => [v]
  | _ => []

/-- No key of the form is found under another. -/
def Distinct (keyed : Value → Value → Prop) : Form → Prop
  | .dict es => es.Pairwise fun d e => ¬keyed e.1 d.1
  | _ => True

/-- The two functions are one method, read off one object if it was read off any. -/
def OneMethod (f g : Func) : Prop := f.isSameMethod g = true ∨ Value.sameMethod f g = true

/-- One step of a comparison, given how parts, keys and the contents of boxes compare. -/
def Step (part keyed inside : Value → Value → Prop) : Form → Form → Prop
  | .atom a, .atom b => a = b
  | .plane p, .plane q => p.isSome = true ∧ p = q
  | .func s f, .func t g =>
    s = t ∧ f = g ∨ OneMethod f g
  | .seq k xs, .seq l ys => k = l ∧ xs.Forall₂ part ys
  | .dict xs, .dict ys =>
    xs.length = ys.length ∧ ∀ d ∈ xs, ∃ e ∈ ys, keyed d.1 e.1 ∧ part d.2 e.2
  | .box b v, .box c w => b = c ∧ inside v w
  | _, _ => False

theorem OneMethod.symm {f g : Func} (h : OneMethod f g) : OneMethod g f := by
  refine h.imp Func.isSameMethod_symm fun h => ?_
  cases f <;> (try exact absurd h Bool.false_ne_true) <;>
    cases g <;> (try exact absurd h Bool.false_ne_true)
  all_goals simp only [Value.sameMethod, Bool.and_eq_true, beq_iff_eq] at *
  · exact ⟨⟨Value.identical_comm .. ▸ h.1.1, h.1.2.symm⟩, h.2.symm⟩
  · exact ⟨Value.identical_comm .. ▸ h.1, Value.identical_comm .. ▸ h.2⟩

/-- To be one method of one object is transitive. -/
theorem OneMethod.trans {f g h : Func} (hfg : OneMethod f g) (hgh : OneMethod g h) :
    OneMethod f h := by
  have hno : ¬(false = true ∨ false = true) := by decide
  cases f <;> (try exact absurd hfg hno) <;> cases g <;> (try exact absurd hfg hno) <;>
    cases h <;> (try exact absurd hgh hno)
  all_goals
    simp only [OneMethod, Func.isSameMethod, Value.sameMethod, Bool.and_eq_true, beq_iff_eq] at *
    grind [Value.identical_trans]

theorem forall_mem_parts_dict {P : Value → Prop} {es : List (Value × Value)} :
    (∀ p ∈ (dict es).parts, P p) ↔ ∀ e ∈ es, P e.1 ∧ P e.2 := by
  simp only [parts, List.forall_mem_flatMap, List.forall_mem_cons, List.not_mem_nil,
    false_implies, implies_true, and_true]

section Step

variable {S : Value → Prop} {part keyed inside : Value → Value → Prop} {a b c : Form}

/-- The step relation of forms is symmetric if the relations of their parts are. -/
theorem Step.symm (hpart : EquivOn S part) (hkeyed : EquivOn S keyed) (hinside : EquivOn S inside)
    (ha : ∀ p ∈ a.parts, S p) (hb : ∀ p ∈ b.parts, S p) (hone : a.Distinct keyed)
    (h : a.Step part keyed inside b) : b.Step part keyed inside a := by
  cases a <;> cases b <;> (try exact False.elim h)
  case atom => exact Eq.symm h
  case plane => exact ⟨h.2 ▸ h.1, h.2.symm⟩
  case func =>
    rcases h with ⟨rfl, rfl⟩ | h
    · exact .inl ⟨rfl, rfl⟩
    · exact .inr (OneMethod.symm h)
  case seq => exact ⟨h.1.symm, hpart.forall₂_symm ha hb h.2⟩
  case box => exact ⟨h.1.symm, hinside.symm (ha _ (by simp [parts])) (hb _ (by simp [parts])) h.2⟩
  case dict xs ys =>
    rw [forall_mem_parts_dict] at ha hb
    obtain ⟨hlength, h⟩ := h
    refine ⟨hlength.symm, ?_⟩
    -- two entries that are found under one key would exclude each other
    have hhit := exists_of_pairwise (Nat.le_of_eq hlength.symm) h <|
      hone.imp_of_mem fun {d d'} hd hd' hno e he hde hde' =>
        hno (hkeyed.trans (ha d' hd').1 (hb e he).1 (ha d hd).1 hde'.1
          (hkeyed.symm (ha d hd).1 (hb e he).1 hde.1))
    intro e he
    obtain ⟨d, hd, hkey, hvalue⟩ := hhit e he
    exact ⟨d, hd, hkeyed.symm (ha d hd).1 (hb e he).1 hkey,
      hpart.symm (ha d hd).2 (hb e he).2 hvalue⟩

/-- The step relation of forms is transitive if the relations of their parts are. -/
theorem Step.trans (hpart : EquivOn S part) (hkeyed : EquivOn S keyed) (hinside : EquivOn S inside)
    (ha : ∀ p ∈ a.parts, S p) (hb : ∀ p ∈ b.parts, S p) (hc : ∀ p ∈ c.parts, S p)
    (hab : a.Step part keyed inside b) (hbc : b.Step part keyed inside c) :
    a.Step part keyed inside c := by
  cases a <;> cases b <;> (try exact False.elim hab) <;> cases c <;> (try exact False.elim hbc)
  case atom => exact Eq.trans hab hbc
  case plane => exact ⟨hab.1, hab.2.trans hbc.2⟩
  case func =>
    rcases hab with ⟨rfl, rfl⟩ | hab
    · exact hbc
    · rcases hbc with ⟨rfl, rfl⟩ | hbc
      · exact .inr hab
      · exact .inr (OneMethod.trans hab hbc)
  case seq => exact ⟨hab.1.trans hbc.1, hpart.forall₂_trans ha hb hc hab.2 hbc.2⟩
  case box =>
    exact ⟨hab.1.trans hbc.1, hinside.trans (ha _ (by simp [parts])) (hb _ (by simp [parts]))
      (hc _ (by simp [parts])) hab.2 hbc.2⟩
  case dict xs ys zs =>
    rw [forall_mem_parts_dict] at ha hb hc
    refine ⟨hab.1.trans hbc.1, fun d hd => ?_⟩
    obtain ⟨e, he, hde, hdeValue⟩ := hab.2 d hd
    obtain ⟨f, hf, hef, hefValue⟩ := hbc.2 e he
    exact ⟨f, hf, hkeyed.trans (ha d hd).1 (hb e he).1 (hc f hf).1 hde hef,
      hpart.trans (ha d hd).2 (hb e he).2 (hc f hf).2 hdeValue hefValue⟩

end Step

end Form

end CheckedCalls
