import CheckedCalls.Proofs.Reading
import Mathlib.Control.Applicative

/-!
# Containers

The applicatives of the library, as type representatives, as functors on types, and as what values
denote in these functors. A `Holder` is one that the library brings; a `Container` is a composition
of holders, nested to any depth. Each is a lawful applicative as a functor on types, so what is left
to show of an operation on values is that it denotes the one on types.
-/

namespace CheckedCalls

variable {δ α β γ : Type}

/-! ## Holders -/

/-- The applicatives that the library brings. -/
inductive Holder
  | seq (k : SeqKind)
  | maybe
  | either
  | identity

namespace Holder

/-- The class that stands for the holder. -/
def builtin : Holder → Builtin
  | .seq .list => .list
  | .seq .tuple => .tuple
  | .maybe => .maybe
  | .either => .either
  | .identity => .identity

/-- The type representative. -/
def rep (H : Holder) : Value := .type (.builtin H.builtin)

/-- The functor on types; `δ` is the type of failures. -/
def Meaning (δ : Type) : Holder → Type → Type
  | .seq _ => List
  | .maybe => Option
  | .either => Sum δ
  | .identity => Id

instance : ∀ H : Holder, Applicative (H.Meaning δ)
  | .seq _ => inferInstanceAs (Applicative List)
  | .maybe => inferInstanceAs (Applicative Option)
  | .either => inferInstanceAs (Applicative (Sum δ))
  | .identity => inferInstanceAs (Applicative Id)

instance : ∀ H : Holder, LawfulApplicative (H.Meaning δ)
  | .seq _ => inferInstanceAs (LawfulApplicative List)
  | .maybe => inferInstanceAs (LawfulApplicative Option)
  | .either => inferInstanceAs (LawfulApplicative (Sum δ))
  | .identity => inferInstanceAs (LawfulApplicative Id)

/-- The value is a holder of the kind, whose failure stands for what `Q` says and whose contents for
what `R` says. -/
def Denotes (Q : Value → δ → Prop) (R : Value → α → Prop) :
    (H : Holder) → Value → H.Meaning δ α → Prop
  | .seq k, v, (as : List α) => ∃ t xs, v = .seq k t xs ∧ xs.Forall₂ R as
  | .maybe, v, (o : Option α) => match o with
    | none => v = .nothing
    | some a => ∃ t x, v = .just t x ∧ R x a
  | .either, v, (o : δ ⊕ α) => match o with
    | .inl e => ∃ t x, v = .left t x ∧ Q x e
    | .inr a => ∃ t x, v = .right t x ∧ R x a
  | .identity, v, (a : α) => ∃ t x, v = .identity t x ∧ R x a

variable {Q : Value → δ → Prop} {R : Value → α → Prop}

/-- What is numbered inside a holder that is numbered stands for the same. -/
theorem Denotes.labelled (hQ : ∀ {x e} n, Q x e → Q (x.labelled n) e)
    (hR : ∀ {x a} n, R x a → R (x.labelled n) a) {H : Holder} {v : Value} {s : H.Meaning δ α}
    (h : H.Denotes Q R v s) (n : Nat) : H.Denotes Q R (v.labelled n) s := by
  cases H with
  | seq k =>
    obtain ⟨t, xs, rfl, hxs⟩ := h
    cases t with
    | fresh => exact ⟨_, _, rfl, Value.forall₂_labelledAll hR hxs n⟩
    | shared | numbered => exact ⟨_, _, rfl, hxs⟩
  | maybe =>
    cases s with
    | none =>
      cases h
      rfl
    | some a =>
      obtain ⟨t, x, rfl, hx⟩ := h
      cases t with
      | fresh => exact ⟨_, _, rfl, hR n hx⟩
      | shared | numbered => exact ⟨_, _, rfl, hx⟩
  | either =>
    cases s with
    | inl e =>
      obtain ⟨t, x, rfl, hx⟩ := h
      cases t with
      | fresh => exact ⟨_, _, rfl, hQ n hx⟩
      | shared | numbered => exact ⟨_, _, rfl, hx⟩
    | inr a =>
      obtain ⟨t, x, rfl, hx⟩ := h
      cases t with
      | fresh => exact ⟨_, _, rfl, hR n hx⟩
      | shared | numbered => exact ⟨_, _, rfl, hx⟩
  | identity =>
    obtain ⟨t, x, rfl, hx⟩ := h
    cases t with
    | fresh => exact ⟨_, _, rfl, hR n hx⟩
    | shared | numbered => exact ⟨_, _, rfl, hx⟩

/-- Values stand for holders of what their contents stand for. -/
def lift (H : Holder) (E : Reading δ) (A : Reading α) : Reading (H.Meaning δ α) where
  denotes := H.Denotes E A
  labelled := fun n h => h.labelled E.labelled A.labelled n

end Holder

/-! ## Containers -/

/-- The applicatives of the library: those that it brings, and their compositions. A composition is
a class in its own right, made before it is used. -/
inductive Container
  | holder (H : Holder)
  | composed (t : Tag) (ht : t ≠ .fresh) (name : String) (outer inner : Container)

namespace Container

/-- The type representative. -/
def rep : Container → Value
  | .holder H => H.rep
  | .composed t _ name outer inner =>
    .type (.declared (.composed t name outer.rep inner.rep))

/-- The name of the class. -/
def name : Container → String
  | .holder H => H.builtin.name
  | .composed _ _ name _ _ => name

/-- The composition of two containers, under the name that it gets. -/
def compose (t : Tag) (ht : t ≠ .fresh) (outer inner : Container) : Container :=
  .composed t ht ("Compose(" ++ outer.name ++ ", " ++ inner.name ++ ")") outer inner

theorem givenName_rep (call : Apply) (T : Container) : T.rep.givenName call = pure T.name := by
  cases T <;> rfl

/-- Composing the classes of two compositions is the class of their composition. -/
theorem composeFunctors_rep (call : Apply) (t : Tag) (outer inner : Container) :
    composeFunctors call t outer.rep inner.rep = pure (.composed t
      ("Compose(" ++ outer.name ++ ", " ++ inner.name ++ ")") outer.rep inner.rep) := by
  rw [composeFunctors, givenName_rep, givenName_rep]
  rfl

/-- How deep the compositions are nested, one above the other and side by side. -/
def depth : Container → Nat
  | .holder _ => 0
  | .composed _ _ _ outer inner => outer.depth + inner.depth + 1

/-- The functor on types. -/
def Meaning (δ : Type) : Container → Type → Type
  | .holder H => H.Meaning δ
  | .composed _ _ _ outer inner => Functor.Comp (outer.Meaning δ) (inner.Meaning δ)

instance applicative : ∀ T : Container, Applicative (T.Meaning δ)
  | .holder H => inferInstanceAs (Applicative (H.Meaning δ))
  | .composed _ _ _ outer inner =>
    have := applicative outer
    have := applicative inner
    inferInstanceAs (Applicative (Functor.Comp (outer.Meaning δ) (inner.Meaning δ)))

instance lawfulApplicative : ∀ T : Container, LawfulApplicative (T.Meaning δ)
  | .holder H => inferInstanceAs (LawfulApplicative (H.Meaning δ))
  | .composed _ _ _ outer inner =>
    have := lawfulApplicative outer
    have := lawfulApplicative inner
    inferInstanceAs (LawfulApplicative (Functor.Comp (outer.Meaning δ) (inner.Meaning δ)))

/-- The value is a container of the kind, whose failures stand for what `Q` says and whose contents
for what `R` says. -/
def Denotes (Q : Value → δ → Prop) :
    {α : Type} → (T : Container) → (Value → α → Prop) → Value → T.Meaning δ α → Prop
  | _, .holder H, R, v, s => H.Denotes Q R v s
  | _, .composed t _ name outer inner, R, v, s =>
    ∃ u x, v = .object u (.composed t name outer.rep inner.rep) x ∧
      outer.Denotes Q (inner.Denotes Q R) x s

/-- A composition keeps its reading when it is labelled. -/
theorem Denotes.labelled {Q : Value → δ → Prop} (hQ : ∀ {x e} n, Q x e → Q (x.labelled n) e)
    {T : Container} {α : Type} {R : Value → α → Prop}
    (hR : ∀ {x a} n, R x a → R (x.labelled n) a) {v : Value} {s : T.Meaning δ α}
    (h : T.Denotes Q R v s) (n : Nat) : T.Denotes Q R (v.labelled n) s := by
  induction T generalizing α v n with
  | holder H => exact Holder.Denotes.labelled hQ hR h n
  | composed t ht name outer inner ihouter ihinner =>
    obtain ⟨u, x, rfl, hx⟩ := h
    cases u with
    | fresh =>
      have hinner : ∀ {y s} n, inner.Denotes Q R y s → inner.Denotes Q R (y.labelled n) s :=
        fun n hy => ihinner hR hy n
      exact ⟨_, _, rfl, ihouter hinner hx n⟩
    | shared | numbered => exact ⟨_, _, rfl, hx⟩

/-- Values stand for containers of what their contents stand for. -/
def lift (E : Reading δ) (T : Container) (A : Reading α) : Reading (T.Meaning δ α) where
  denotes := T.Denotes E A
  labelled := fun n h => h.labelled E.labelled A.labelled n

end Container

end CheckedCalls
