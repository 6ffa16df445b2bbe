import CheckedCalls.Proofs.Balance
import CheckedCalls.Proofs.Collecting

/-!
# The laws of monads

Chaining denotes the bind of a monad on types: a sequence is flattened, and the other holders go on
with what they hold or pass their failure through. So both sides of each law stand for the same, and
what is left is whether contents that stand for the same are equal.
-/

namespace CheckedCalls

open Run Reading

variable {δ α β γ : Type}

/-! ## Holders as monads on types -/

namespace Holder

/-- Each holder is a monad. Its lifting is kept apart from that of the applicative. -/
@[reducible] def monad (δ : Type) : ∀ H : Holder, Monad (H.Meaning δ)
  | .seq _ => inferInstanceAs (Monad List)
  | .maybe => inferInstanceAs (Monad Option)
  | .either => inferInstanceAs (Monad (Sum δ))
  | .identity => inferInstanceAs (Monad Id)

/-- Goes on with what a holder holds. -/
def bind (H : Holder) (s : H.Meaning δ α) (g : α → H.Meaning δ β) : H.Meaning δ β :=
  (H.monad δ).bind s g

theorem pure_bind (H : Holder) (a : α) (g : α → H.Meaning δ β) : H.bind (pure a) g = g a := by
  cases H with
  | seq _ => exact LawfulMonad.pure_bind (m := List) a g
  | maybe => exact LawfulMonad.pure_bind (m := Option) a g
  | either => exact LawfulMonad.pure_bind (m := Sum δ) a g
  | identity => rfl

theorem bind_pure (H : Holder) (s : H.Meaning δ α) : H.bind s pure = s := by
  cases H with
  | seq _ => exact List.flatMap_singleton' s
  | maybe => cases s <;> rfl
  | either => cases s <;> rfl
  | identity => rfl

/-- Chaining is associative. -/
theorem bind_assoc (H : Holder) (s : H.Meaning δ α) (g : α → H.Meaning δ β)
    (h : β → H.Meaning δ γ) : H.bind (H.bind s g) h = H.bind s fun a => H.bind (g a) h := by
  cases H with
  | seq _ => exact LawfulMonad.bind_assoc (m := List) s g h
  | maybe => exact LawfulMonad.bind_assoc (m := Option) s g h
  | either => exact LawfulMonad.bind_assoc (m := Sum δ) s g h
  | identity => rfl

/-! ## Chaining -/

section Chain

variable {H : Holder} {Q : Value → δ → Prop} {R : Value → α → Prop} {R' : Value → β → Prop}
  {call : Apply}

/-- Chaining on a holder stands for the bind of what it stands for. -/
theorem yields_chain {f v : Value} {g : α → H.Meaning δ β} {s : H.Meaning δ α}
    (hf : ∀ x a, R x a → (call f [x]).Yields (H.Denotes Q R' · (g a))) (hv : H.Denotes Q R v s) :
    (chain call f v).Yields (H.Denotes Q R' · (H.bind s g)) := by
  cases H with
  | seq k =>
    obtain ⟨t, xs, rfl, hxs⟩ := hv
    have hpart : ∀ x a, R x a → Run.Yields (do let part ← (← call f [x]).elements; return part)
        (List.Forall₂ R' · (g a)) := by
      intro x a hx
      refine concludes_bind (hf x a hx) ?_
      rintro _ ⟨s, ys, rfl, hys⟩
      exact concludes_pure hys
    refine concludes_bind (concludes_mapM (R := fun ys a => ys.Forall₂ R' (g a)) hxs hpart)
      fun parts hparts => concludes_pure ⟨_, _, rfl, ?_⟩
    show List.Forall₂ R' parts.flatten (List.flatMap g s)
    exact List.rel_flatten (List.forall₂_map_right_iff.2 hparts)
  | maybe =>
    cases s with
    | none =>
      cases hv
      exact concludes_pure rfl
    | some a =>
      obtain ⟨t, x, rfl, hx⟩ := hv
      exact hf x a hx
  | either =>
    cases s with
    | inl e =>
      obtain ⟨t, x, rfl, hx⟩ := hv
      exact concludes_pure ⟨t, x, rfl, hx⟩
    | inr a =>
      obtain ⟨t, x, rfl, hx⟩ := hv
      exact hf x a hx
  | identity =>
    obtain ⟨t, x, rfl, hx⟩ := hv
    exact hf x s hx

end Chain

end Holder

section Laws

variable {E : Reading δ} {A : Reading α} {B : Reading β} {C : Reading γ} {H : Holder} {n d : Nat}
  {f g m x : Value} {p : α → H.Meaning δ β} {q : β → H.Meaning δ γ} {s : H.Meaning δ α} {a : α}

/-- One function that answers holders after another. -/
theorem func_chainAfter (hf : func n A (H.lift E B) f p) (hg : func n B (H.lift E C) g q) :
    func (n + 1) A (H.lift E C) (.function (.chainAfter g f)) fun a => H.bind (p a) q :=
  func_term fun _ _ hx _ hd => concludes_bind (func_apply hf hx hd) fun _ hy =>
    Holder.yields_chain (fun _ _ hz => func_apply hg hz hd) hy

/-! ## Laws -/

/-- The left identity law weighs both of its sides against the result of the function. -/
theorem weighs_monadLeftIdentity (hf : func n A (H.lift E B) f p) (hx : A x a) (hdepth : n < d) :
    (Law.monadLeftIdentity.run (apply d) [H.rep, f, x]).Weighs (apply d) (H.lift E B · (p a)) := by
  have hof : (of (apply d) H.rep x).Yields (H.lift E A · (pure a)) := Holder.yields_of _ hx
  refine weighs_bind hof fun v hv => ?_
  have hchain := Holder.yields_chain (fun _ _ hy => func_apply hf hy hdepth) hv
  rw [Holder.pure_bind] at hchain
  refine weighs_bind hchain fun l hl => ?_
  exact weighs_bind (func_apply hf hx hdepth) fun r hr => weighs_equals hl hr

/-- The right identity law weighs chaining with the lifting function against the value itself. -/
theorem weighs_monadRightIdentity (hm : H.lift E A m s) (hdepth : 0 < d) :
    (Law.monadRightIdentity.run (apply d) [H.rep, m]).Weighs (apply d) (H.lift E A · s) := by
  have hlift : func 0 A (H.lift E A) (.function (.lift H.rep)) pure :=
    Container.func_lift (.holder H) E A
  have hchain := Holder.yields_chain (fun _ _ hy => func_apply hlift hy hdepth) hm
  rw [Holder.bind_pure] at hchain
  exact weighs_bind hchain fun l hl => weighs_equals hl hm

/-- The associativity law weighs both of its sides against chaining twice. -/
theorem weighs_chainAssociativity (hf : func n A (H.lift E B) f p)
    (hg : func n B (H.lift E C) g q) (hm : H.lift E A m s) (hdepth : n + 1 < d) :
    (Law.chainAssociativity.run (apply d) [m, f, g]).Weighs (apply d)
      (H.lift E C · (H.bind (H.bind s p) q)) := by
  refine weighs_bind (Holder.yields_chain
    (fun _ _ hy => func_apply hf hy (by omega)) hm) fun v hv => ?_
  refine weighs_bind (Holder.yields_chain
    (fun _ _ hy => func_apply hg hy (by omega)) hv) fun l hl => ?_
  rw [Holder.bind_assoc] at hl ⊢
  exact weighs_bind (Holder.yields_chain
    (fun _ _ hy => func_apply (func_chainAfter hf hg) hy hdepth) hm) fun r hr => weighs_equals hl hr

/-- For values as a program can hold them, the laws of monads hold of each holder just where the
contents of both sides, which stand for the same, are equal place by place. -/
theorem monad_laws (H : Holder) (hE : E.OfProper) (hA : A.OfProper) (hB : B.OfProper)
    (hC : C.OfProper) (n d : Nat) (hdepth : n + 1 < d) :
    let call := apply d
    let agree := fun w => H.Related (Value.Equal call w) (Value.Equal call w)
    (∀ f (p : α → H.Meaning δ β) x a, func n A (H.lift E B) f p → A x a →
      (Law.monadLeftIdentity.run call [H.rep, f, x]).Balances call (H.lift E B) (p a) agree) ∧
    (∀ m s, H.lift E A m s →
      (Law.monadRightIdentity.run call [H.rep, m]).Balances call (H.lift E A) s agree) ∧
    (∀ m s f (p : α → H.Meaning δ β) g (q : β → H.Meaning δ γ), H.lift E A m s →
      func n A (H.lift E B) f p → func n B (H.lift E C) g q →
      (Law.chainAssociativity.run call [m, f, g]).Balances call (H.lift E C)
        (H.bind (H.bind s p) q) agree) := by
  intro call agree
  have hsides {τ : Type} {F : Reading τ} (hF : F.OfProper) : (H.lift E F).Verified call agree :=
    (hE.verified call).holder (hF.verified call) H
  refine ⟨?_, ?_, ?_⟩
  · intro f p x a hf hx
    exact (weighs_monadLeftIdentity hf hx (by omega)).balances (hsides hB)
  · intro m s hm
    exact (weighs_monadRightIdentity hm (by omega)).balances (hsides hA)
  · intro m s f p g q hm hf hg
    exact (weighs_chainAssociativity hf hg hm hdepth).balances (hsides hC)

theorem monad_laws_list :
    let call := apply 2
    let f : Value := .function (.primitive .duplicate)
    let holds (law : Law) (args : List Value) : Prop :=
      ((law.run call args).outcome .initial).1 = .ok (.bool true)
    holds .monadLeftIdentity [(Holder.seq .list).rep, f, .int 1] ∧
      holds .monadRightIdentity [(Holder.seq .list).rep, .list [.int 1, .int 2]] ∧
      holds .chainAssociativity [.list [.int 1, .int 2], f, f] := by
  intro call f holds
  have hint : ∀ n, integer (.int n) n := fun n => ⟨_, rfl⟩
  have hm : (Holder.seq .list).lift integer integer (.list [.int 1, .int 2]) ([1, 2] : List Int) :=
    ⟨_, _, rfl, .cons (hint 1) (.cons (hint 2) .nil)⟩
  have hwithin : ∀ w : World, w.Untouched → ((Holder.seq .list).lift integer integer).Within
      ((Holder.seq .list).Related (Value.Equal call w) (Value.Equal call w)) :=
    fun w _ => (integer_within _ w).holder (integer_within _ w) _
  obtain ⟨hleft, hright, hassoc⟩ := monad_laws (.seq .list) integer_ofProper integer_ofProper
    integer_ofProper integer_ofProper 0 2 (by decide)
  refine ⟨?_, ?_, ?_⟩
  · exact (hleft f _ _ _ func_duplicate (hint 1)).holds hwithin rfl
  · exact (hright _ _ hm).holds hwithin rfl
  · exact (hassoc _ _ _ _ _ _ hm func_duplicate func_duplicate).holds hwithin rfl

/-- A moment that its offset shifts out of the calendar cannot be compared with itself, and a
function that makes a complex number that is not a number is seen to be called twice. -/
theorem monad_laws_fail :
    ((Law.monadRightIdentity.run applyFunction
        [(Holder.seq .list).rep, .list [Value.firstHour]]).outcome .initial).1 =
        .error .overflow ∧
      ((Law.monadLeftIdentity.run applyFunction [(Holder.seq .list).rep,
        .function (.compose (.function (.primitive .box)) (.type (.builtin .complex))),
        .number (.numbered 0) (.float .nan)]).outcome .initial).1 = .ok (.bool false) := by
  refine ⟨rfl, ?_⟩
  let w (n : Nat) : World := ⟨[], n, []⟩
  let f : Value := .function (.compose (.function (.primitive .box)) (.type (.builtin .complex)))
  let x : Value := .number (.numbered 0) (.float .nan)
  let made (t : Tag) (n : Nat) : Value := .seq .list t [.complex (.numbered n) .nan .zero]
  -- each call makes an object of its own
  have hof : (of applyFunction (Holder.seq .list).rep x).outcome (w 0) =
      (.ok (.list [x]), w 0) := rfl
  have hchain : (chain applyFunction f (.list [x])).outcome (w 0) =
      (.ok (made .fresh 1), w 4) := rfl
  have hcall : (applyFunction f [x]).outcome (w 4) = (.ok (made (.numbered 7) 5), w 8) := rfl
  have hequals : (Value.equals applyFunction (made .fresh 1) (made (.numbered 7) 5)).outcome (w 8) =
      (.ok (.bool false), w 8) := rfl
  show (Run.outcome (do
    let left ← chain applyFunction f (← of applyFunction (Holder.seq .list).rep x)
    Value.equals applyFunction left (← applyFunction f [x])) (w 0)).1 = _
  simp only [outcome_bind, hof, hchain, hcall, hequals]

end Laws

end CheckedCalls
