import CheckedCalls.Proofs.Applicative
import Mathlib.Control.Traversable.Instances
import Mathlib.Data.List.Induction

/-!
# Traversing

Traversing a holder denotes the traversal on types, with the actions of any container: a sequence is
traversed from the left, one element after the other being appended to what was collected so far,
and the other holders have one element at most. So the laws of traversals hold of the values because
they hold on types, and compare containers of holders that stand for the same.
-/

namespace CheckedCalls

open Run Reading

variable {δ ε α β : Type}

/-! ## Traversals on types -/

namespace Holder

/-- Each holder is traversable. Its mapping is kept apart from that of the applicative. -/
@[reducible] def traversable (δ : Type) : ∀ H : Holder, Traversable (H.Meaning δ)
  | .seq _ => inferInstanceAs (Traversable List)
  | .maybe => inferInstanceAs (Traversable Option)
  | .either => inferInstanceAs (Traversable (Sum δ))
  | .identity => inferInstanceAs (Traversable Id)

theorem lawfulTraversable (δ : Type) (H : Holder) :
    @LawfulTraversable (H.Meaning δ) (H.traversable δ) := by
  cases H with
  | seq _ => exact inferInstanceAs (LawfulTraversable List)
  | maybe => exact inferInstanceAs (LawfulTraversable Option)
  | either => exact inferInstanceAs (LawfulTraversable (Sum δ))
  | identity => exact inferInstanceAs (LawfulTraversable Id)

/-- Collects the actions for each content inside their applicative. -/
def traverse {F : Type → Type} [Applicative F] (H : Holder) (f : α → F β) (s : H.Meaning δ α) :
    F (H.Meaning δ β) :=
  (H.traversable δ).traverse f s

theorem traverse_pure (H : Holder) (s : H.Meaning δ α) :
    H.traverse (pure : α → Id α) s = pure s :=
  (H.lawfulTraversable δ).id_traverse s

section Laws

variable {F G : Type → Type} [Applicative F] [Applicative G] [LawfulApplicative F]
  [LawfulApplicative G]

theorem traverse_naturality (H : Holder) (η : ApplicativeTransformation F G)
    (s : H.Meaning δ (F α)) : η (H.traverse id s) = H.traverse (fun a => η a) s :=
  (H.lawfulTraversable δ).naturality η id s

/-- Two traversals in turn are one traversal into the composition. -/
theorem traverse_comp (H : Holder) (s : H.Meaning δ (F (G α))) :
    H.traverse (Functor.Comp.mk : F (G α) → Functor.Comp F G α) s =
      Functor.Comp.mk (H.traverse id <$> H.traverse id s) := by
  have hmk : (Functor.Comp.mk : F (G α) → Functor.Comp F G α) =
      Functor.Comp.mk ∘ Functor.map id ∘ id := by
    funext x
    simp
  rw [hmk]
  exact (H.lawfulTraversable δ).comp_traverse id id s

/-- One more answer behind those that were collected so far. -/
def collect (f : α → F β) (s : F (List β)) (a : α) : F (List β) :=
  (fun bs b => bs ++ [b]) <$> s <*> f a

/-- Collecting the answers one after the other traverses a sequence. -/
theorem foldl_collect (k : SeqKind) (f : α → F β) (as : List α) :
    as.foldl (collect f) (pure []) = (Holder.seq k).traverse (δ := δ) f as := by
  show _ = Traversable.traverse f as
  induction as using List.reverseRecOn with
  | nil => rfl
  | append_singleton as a ih =>
    rw [List.foldl_append, ih, List.traverse_append]
    simp [collect, functor_norm, Function.comp_def]

end Laws

end Holder

/-! ## Functions of the traversals -/

namespace Container

variable {E : Reading δ} {D : Reading ε} {A : Reading α} {B : Reading β}

/-- Lifting as a function. -/
theorem func_lift (T : Container) (E : Reading δ) (A : Reading α) :
    func 0 A (T.lift E A) (.function (.lift T.rep)) pure :=
  func_term fun _ _ hx d _ => T.yields_of (apply d) E hx

/-- The appending function stands for adding an element at the end. -/
theorem func_appending (k : SeqKind) :
    func 0 ((Holder.seq k).lift D B) (func 0 B ((Holder.seq k).lift D B))
      (.function (.appending k)) (fun (bs : List β) b => bs ++ [b]) := by
  refine func_term fun v bs hv _ _ => concludes_pure (func_term fun y b hy _ _ => ?_)
  obtain ⟨t, ys, rfl, hys⟩ := hv
  have happend : appendElement k (.seq k t ys) y = .ok (.seq k .fresh (ys ++ [y])) := by
    simp [appendElement]
  show Run.Yields (liftM (appendElement k (.seq k t ys) y)) _
  rw [happend]
  exact concludes_pure ⟨_, _, rfl, List.rel_append hys (.cons hy .nil)⟩

/-! ## Traversing holders -/

variable {T : Container} {n d : Nat} {f lift : Value} {g : α → T.Meaning δ β}

theorem yields_traverseStep {k : SeqKind} {acc x : Value} {a : α} {s : T.Meaning δ (List β)}
    (hf : func n A (T.lift E B) f g) (hacc : T.lift E ((Holder.seq k).lift D B) acc s) (hx : A x a)
    (hdepth : n + T.depth < d) :
    (traverseStep (apply d) k f acc x).Yields
      (T.lift E ((Holder.seq k).lift D B) · (Holder.collect g s a)) := by
  have hmap := T.yields_map (func_appending (D := D) (B := B) k) hacc (d := d) (by omega)
  refine concludes_bind hmap fun awaiting hawaiting => ?_
  exact concludes_bind (func_apply hf hx (by omega)) fun y hy =>
    T.yields_ap hawaiting hy (by omega)

/-- The steps of a traversal stand for the traversal of the list. -/
theorem yields_traverseSteps {k : SeqKind} {acc : Value} {xs : List Value} {as : List α}
    {s : T.Meaning δ (List β)} (hf : func n A (T.lift E B) f g)
    (hacc : T.lift E ((Holder.seq k).lift D B) acc s) (hxs : xs.Forall₂ A as)
    (hdepth : n + T.depth < d) :
    (xs.foldlM (traverseStep (apply d) k f) acc).Yields
      (T.lift E ((Holder.seq k).lift D B) · (as.foldl (Holder.collect g) s)) := by
  induction hxs generalizing acc s with
  | nil => exact concludes_pure hacc
  | cons hx _ ih =>
    rw [List.foldlM_cons]
    refine concludes_bind (yields_traverseStep hf hacc hx hdepth) fun acc' hacc' => ?_
    exact ih hacc'

/-- A traversal of a holder stands for the traversal of what it stands for. -/
theorem yields_traverse {H : Holder} {v : Value} {s : H.Meaning ε α}
    (hlift : func n (H.lift D B) (T.lift E (H.lift D B)) lift pure)
    (hf : func n A (T.lift E B) f g) (hv : H.lift D A v s) (hdepth : n + T.depth < d) :
    (traverse (apply d) lift f v).Yields (T.lift E (H.lift D B) · (H.traverse g s)) := by
  have hn : n < d := by omega
  cases H with
  | seq k =>
    obtain ⟨t, xs, rfl, hxs⟩ := hv
    have hempty : (Holder.seq k).lift D B (.seq k .fresh []) ([] : List β) := ⟨_, [], rfl, .nil⟩
    refine concludes_bind (func_apply hlift hempty hn) fun start hstart => ?_
    have hsteps := yields_traverseSteps hf hstart hxs hdepth
    exact (Holder.foldl_collect (δ := ε) k g s) ▸ hsteps
  | maybe =>
    cases s with
    | none =>
      cases hv
      have hnothing : Holder.maybe.lift D B .nothing (none : Option β) := rfl
      have hpure := func_apply hlift hnothing hn
      exact hpure
    | some a =>
      obtain ⟨t, x, rfl, hx⟩ := hv
      have hjust : func 0 B (Holder.maybe.lift D B) Base.just.rep (some : β → Option β) :=
        func_builtin fun y b hy _ _ => concludes_pure ⟨_, y, rfl, hy⟩
      exact concludes_bind (func_apply hf hx hn) fun y hy => T.yields_map hjust hy (by omega)
  | either =>
    cases s with
    | inl e =>
      obtain ⟨t, x, rfl, hx⟩ := hv
      have hleft : Holder.either.lift D B (.left t x) (Sum.inl e : ε ⊕ β) := ⟨t, x, rfl, hx⟩
      have hpure := func_apply hlift hleft hn
      exact hpure
    | inr a =>
      obtain ⟨t, x, rfl, hx⟩ := hv
      have hright : func 0 B (Holder.either.lift D B) Base.right.rep (Sum.inr : β → ε ⊕ β) :=
        func_builtin fun y b hy _ _ => concludes_pure ⟨_, y, rfl, hy⟩
      exact concludes_bind (func_apply hf hx hn) fun y hy => T.yields_map hright hy (by omega)
  | identity =>
    obtain ⟨t, x, rfl, hx⟩ := hv
    have hbox : func 0 B (Holder.identity.lift D B) Base.identity.rep (id : β → β) :=
      func_builtin fun y b hy _ _ => concludes_pure ⟨_, y, rfl, hy⟩
    have hself : Holder.identity.traverse (δ := ε) g s = id <$> g s := (id_map (g s)).symm
    rw [hself]
    exact concludes_bind (func_apply hf hx hn) fun y hy => T.yields_map hbox hy (by omega)

end Container

/-! ## Laws -/

section Laws

open Container

variable {D : Reading ε} {E : Reading δ} {A : Reading α} {H : Holder} {n d : Nat}

/-- The identity law weighs a traversal by the lifting function against the holder itself. -/
theorem weighs_traversableIdentity (E : Reading δ) (hdepth : 0 < d) {v : Value}
    {s : H.Meaning ε α} (hv : H.lift D A v s) :
    (Law.traversableIdentity.run (apply d) [v]).Weighs (apply d)
      ((Container.holder .identity).lift E (H.lift D A) · s) := by
  have hbox : func 0 A ((Container.holder .identity).lift E A) (Holder.identity.rep)
      (pure : α → (Container.holder .identity).Meaning δ α) :=
    func_builtin fun y b hy _ _ => concludes_pure ⟨_, y, rfl, hy⟩
  have hlift := func_lift (.holder .identity) E (H.lift D A)
  have hleft := yields_traverse (T := .holder .identity) hlift hbox hv (d := d) hdepth
  have hpure : H.traverse (F := (Container.holder .identity).Meaning δ) pure s = s :=
    H.traverse_pure s
  rw [hpure] at hleft
  exact weighs_bind hleft fun l hl => weighs_equals hl ⟨_, v, rfl, hv⟩

/-- Swapping a holder of actions. -/
theorem yields_sequence {T : Container} {v : Value} {s : H.Meaning ε (T.Meaning δ α)}
    (hv : H.lift D (T.lift E A) v s) (hdepth : T.depth < d) :
    (sequence (apply d) (.function (.lift T.rep)) v).Yields
      (T.lift E (H.lift D A) · (H.traverse id s)) :=
  yields_traverse (func_lift T E (H.lift D A)) func_echo hv (by omega)

/-- The naturality law weighs a transformation after the traversal against one before it. -/
theorem weighs_traversableNaturality {ζ : Type} {F : Reading ζ} {T U : Container}
    (η : ApplicativeTransformation (T.Meaning δ) (U.Meaning ζ)) {t v : Value}
    (hheld : func n (T.lift E A) (U.lift F A) t (η.app α))
    (hholder : func n (T.lift E (H.lift D A)) (U.lift F (H.lift D A)) t (η.app (H.Meaning ε α)))
    {s : H.Meaning ε (T.Meaning δ α)} (hv : H.lift D (T.lift E A) v s)
    (hdepth : n + T.depth + U.depth < d) :
    (Law.traversableNaturality.run (apply d) [T.rep, U.rep, t, v]).Weighs (apply d)
      (U.lift F (H.lift D A) · (H.traverse (η.app α) s)) := by
  refine weighs_bind (yields_sequence hv (d := d) (by omega)) fun swapped hswapped => ?_
  have hleft := func_apply hholder hswapped (d := d) (by omega)
  rw [show η.app _ (H.traverse id s) = H.traverse (η.app α) s from H.traverse_naturality η s]
    at hleft
  refine weighs_bind hleft fun l hl => ?_
  have hlift := func_mono (Nat.zero_le n) (func_lift U F (H.lift D A))
  exact weighs_bind (yields_traverse hlift hheld hv (by omega)) fun r hr => weighs_equals hl hr

/-- The composition law weighs one traversal into the composition against two traversals. -/
theorem weighs_traversableComposition {T U : Container} {v : Value}
    {s : H.Meaning ε (T.Meaning δ (U.Meaning δ α))}
    (hv : H.lift D (T.lift E (U.lift E A)) v s) (hdepth : T.depth + U.depth + 1 < d) :
    (Law.traversableComposition.run (apply d) [T.rep, U.rep, v]).Weighs (apply d)
      ((compose .shared (by decide) T U).lift E (H.lift D A) ·
        (Functor.Comp.mk (H.traverse id <$> H.traverse id s))) := by
  have hmake : func 0 (T.lift E (U.lift E A)) ((compose .shared (by decide) T U).lift E A)
      (compose .shared (by decide) T U).rep Functor.Comp.mk :=
    fun _ y b hy _ _ => concludes_pure ⟨_, y, rfl, hy⟩
  have hlift := func_lift (compose .shared (by decide) T U) E (H.lift D A)
  have hcompose : (compose .shared (by decide) T U).depth = T.depth + U.depth + 1 := rfl
  have hleft := yields_traverse hlift hmake hv (d := d) (by omega)
  have hcomp : H.traverse (F := (compose .shared (by decide) T U).Meaning δ) Functor.Comp.mk s =
      Functor.Comp.mk (H.traverse id <$> H.traverse id s) := H.traverse_comp s
  rw [hcomp] at hleft
  have hswap : func (U.depth + 1) (H.lift D (U.lift E A)) (U.lift E (H.lift D A))
      (.function (.sequenceWith U.rep)) (H.traverse id) :=
    func_term fun _ _ hx _ hd => yields_sequence hx hd
  rw [Law.run, composeFunctors_rep, pure_bind]
  refine weighs_bind hleft fun l hl => ?_
  refine weighs_bind (yields_sequence hv (d := d) (by omega)) fun swapped hswapped => ?_
  have hmap := T.yields_map hswap hswapped (d := d) (by omega)
  exact weighs_bind hmap fun r hr => weighs_equals hl ⟨_, r, rfl, hr⟩

/-- For data, the laws of traversals hold of each holder just where the contents of both sides,
which stand for the same, are equal place by place. -/
theorem traversable_laws {ζ : Type} {F : Reading ζ} (H : Holder) (hD : D.OfData) (hE : E.OfData)
    (hF : F.OfData) (hA : A.OfData) (n d : Nat) :
    let call := apply d
    let agree (T : Container) := fun w =>
      T.Related (Value.Equal call w) (H.Related (Value.Equal call w) (Value.Equal call w))
    (∀ v s, H.lift D A v s → 0 < d →
      Law.traversableIdentity.Balances call [v] ((Container.holder .identity).lift E (H.lift D A)) s
        (agree (.holder .identity))) ∧
    (∀ (T U : Container) (η : ApplicativeTransformation (T.Meaning δ) (U.Meaning ζ)) t v s,
      func n (T.lift E A) (U.lift F A) t (η.app α) →
      func n (T.lift E (H.lift D A)) (U.lift F (H.lift D A)) t (η.app (H.Meaning ε α)) →
      H.lift D (T.lift E A) v s → n + T.depth + U.depth < d →
      Law.traversableNaturality.Balances call [T.rep, U.rep, t, v] (U.lift F (H.lift D A))
        (H.traverse (η.app α) s) (agree U)) ∧
    (∀ (T U : Container) v s, H.lift D (T.lift E (U.lift E A)) v s →
      T.depth + U.depth + 1 < d →
      Law.traversableComposition.Balances call [T.rep, U.rep, v]
        ((compose .shared (by decide) T U).lift E (H.lift D A))
        (Functor.Comp.mk (H.traverse id <$> H.traverse id s))
        (agree (compose .shared (by decide) T U))) := by
  intro call agree
  have hheld : (H.lift D A).Compared call
      fun w => H.Related (Value.Equal call w) (Value.Equal call w) :=
    (hD.compared call).holder (hA.compared call) H
  refine ⟨?_, ?_, ?_⟩
  · intro v s hv hdepth
    exact Law.balances (weighs_traversableIdentity E hdepth hv)
      ((hE.compared call).container hheld _)
  · intro T U η t v s ht hholder hv hdepth
    exact Law.balances (weighs_traversableNaturality η ht hholder hv hdepth)
      ((hF.compared call).container hheld U)
  · intro T U v s hv hdepth
    exact Law.balances (weighs_traversableComposition hv hdepth)
      ((hE.compared call).container hheld _)

/-- An either without its failure. -/
def forgetFailure (δ ζ : Type) : ApplicativeTransformation
    ((Container.holder .either).Meaning δ) ((Container.holder .maybe).Meaning ζ) where
  app := fun α (s : δ ⊕ α) => (s.getRight? : Option α)
  preserves_pure' := fun _ => rfl
  preserves_seq' := by
    rintro α β (e | g) (e' | a) <;> rfl

/-- The function from Either to Maybe stands for forgetting the failure. -/
theorem func_eitherToMaybe {ζ : Type} {F : Reading ζ} :
    func 0 ((Container.holder .either).lift E A) ((Container.holder .maybe).lift F A)
      (.function (.primitive .eitherToMaybe)) ((forgetFailure δ ζ).app α) := by
  refine func_term fun x s hx d _ => ?_
  cases s with
  | inl e =>
    obtain ⟨t, y, rfl, -⟩ := hx
    have hright : ((Value.left t y).get (apply d) .isRight).Yields (· = .bool false) :=
      yields_get (concludes_pure rfl)
    refine concludes_bind hright ?_
    rintro _ rfl
    exact concludes_pure rfl
  | inr a =>
    obtain ⟨t, y, rfl, hy⟩ := hx
    have hright : ((Value.right t y).get (apply d) .isRight).Yields (· = .bool true) :=
      yields_get (concludes_pure rfl)
    have hpayload : ((Value.right t y).get (apply d) .payload).Yields (· = y) :=
      yields_get (concludes_pure rfl)
    refine concludes_bind hright ?_
    rintro _ rfl
    show Run.Yields (do return Value.just .fresh (← (Value.right t y).get (apply d) .payload)) _
    refine concludes_bind hpayload ?_
    rintro _ rfl
    exact concludes_pure ⟨_, _, rfl, hy⟩

theorem traversable_laws_list :
    let holds (law : Law) (args : List Value) : Prop :=
      ((law.run (apply 2) args).outcome .initial).1 = .ok (.bool true)
    holds .traversableIdentity [.list [.int 1]] ∧
      holds .traversableNaturality [Holder.either.rep, Holder.maybe.rep,
        .function (.primitive .eitherToMaybe),
        .list [.right .fresh (.int 1), .left .fresh (.int 2)]] ∧
      holds .traversableComposition [Holder.maybe.rep, Holder.either.rep,
        .list [.just .fresh (.right .fresh (.int 1)), .nothing]] := by
  have hint : ∀ n, integer (.int n) n := fun n => ⟨_, rfl⟩
  have hwithin : ∀ (T : Container) w,
      (T.lift integer ((Holder.seq .list).lift integer integer)).Within
        (T.Related (Value.Equal (apply 2) w)
          ((Holder.seq .list).Related (Value.Equal (apply 2) w) (Value.Equal (apply 2) w))) :=
    fun T w => (integer_within _ w).container ((integer_within _ w).holder (integer_within _ w) _) T
  obtain ⟨hid, hnat, hcomp⟩ := traversable_laws (.seq .list) integer_ofData integer_ofData
    integer_ofData integer_ofData 0 2
  refine ⟨?_, ?_, ?_⟩
  · have hv : (Holder.seq .list).lift integer integer (.list [.int 1]) ([1] : List Int) :=
      ⟨_, _, rfl, .cons (hint 1) .nil⟩
    exact (hid _ _ hv (by decide)).holds (hwithin _) rfl
  · have hv : (Holder.seq .list).lift integer ((Container.holder .either).lift integer integer)
        (.list [.right .fresh (.int 1), .left .fresh (.int 2)])
        ([Sum.inr 1, Sum.inl 2] : List (Int ⊕ Int)) :=
      ⟨_, _, rfl, .cons ⟨_, _, rfl, hint 1⟩ (.cons ⟨_, _, rfl, hint 2⟩ .nil)⟩
    exact (hnat (.holder .either) (.holder .maybe) (forgetFailure Int Int) _ _ _ func_eitherToMaybe
      func_eitherToMaybe hv (by decide)).holds (hwithin _) rfl
  · have hv : (Holder.seq .list).lift integer ((Container.holder .maybe).lift integer
        ((Container.holder .either).lift integer integer))
        (.list [.just .fresh (.right .fresh (.int 1)), .nothing])
        ([some (Sum.inr 1), none] : List (Option (Int ⊕ Int))) :=
      ⟨_, _, rfl, .cons ⟨_, _, rfl, ⟨_, _, rfl, hint 1⟩⟩ (.cons rfl .nil)⟩
    exact (hcomp (.holder .maybe) (.holder .either) _ _ hv (by decide)).holds (hwithin _) rfl

/-- A moment that its offset shifts out of the calendar cannot be compared, not even with itself. -/
theorem traversableIdentity_overflows :
    ((Law.traversableIdentity.run applyFunction
      [.just .fresh (.moment (.numbered 0) ⟨⟨1, 1, 1⟩, 0, 0, 0, 0, some 60⟩)]).outcome .initial).1 =
      .error .overflow := rfl

end Laws

end CheckedCalls
