import CheckedCalls.Proofs.Agreement

/-!
# Lifting, mapping and applying

Each operation denotes the one on types, first for holders, where it calls the given functions, and
then for containers, where it calls functions that it makes itself.
-/

namespace CheckedCalls

open Run

variable {δ α β γ : Type}

/-! ## Holders -/

namespace Holder

variable {H : Holder} {Q : Value → δ → Prop} {R : Value → α → Prop} {R' : Value → β → Prop}
  {call : Apply}

theorem yields_of (call : Apply) {x : Value} {a : α} (hx : R x a) :
    (of call H.rep x).Yields (H.Denotes Q R · (pure a)) := by
  cases H with
  | seq k =>
    cases k <;> exact concludes_pure ⟨_, [x], rfl, .cons hx .nil⟩
  | maybe | either | identity => exact concludes_pure ⟨_, x, rfl, hx⟩

/-- Mapping over a holder stands for mapping over what it stands for. -/
theorem yields_map {f v : Value} {g : α → β} {s : H.Meaning δ α}
    (hf : ∀ x a, R x a → (call f [x]).Yields (R' · (g a))) (hv : H.Denotes Q R v s) :
    (map call f v).Yields (H.Denotes Q R' · (g <$> s)) := by
  cases H with
  | seq k =>
    obtain ⟨t, xs, rfl, hxs⟩ := hv
    exact concludes_bind (concludes_mapM hxs hf) fun ys hys =>
      concludes_pure ⟨_, ys, rfl, List.forall₂_map_right_iff.2 hys⟩
  | maybe =>
    cases s with
    | none =>
      cases hv
      exact concludes_pure rfl
    | some a =>
      obtain ⟨t, x, rfl, hx⟩ := hv
      exact concludes_bind (hf x a hx) fun y hy => concludes_pure ⟨_, y, rfl, hy⟩
  | either =>
    cases s with
    | inl e =>
      obtain ⟨t, x, rfl, hx⟩ := hv
      exact concludes_pure ⟨t, x, rfl, hx⟩
    | inr a =>
      obtain ⟨t, x, rfl, hx⟩ := hv
      exact concludes_bind (hf x a hx) fun y hy => concludes_pure ⟨_, y, rfl, hy⟩
  | identity =>
    obtain ⟨t, x, rfl, hx⟩ := hv
    exact concludes_bind (hf x s hx) fun y hy => concludes_pure ⟨_, y, rfl, hy⟩

variable {P : Value → (α → β) → Prop}

/-- Each function is applied to each value, function by function. -/
theorem yields_applyEach {fs xs : List Value} {gs : List (α → β)} {as : List α}
    (hf : ∀ f g x a, P f g → R x a → (call f [x]).Yields (R' · (g a))) (hfs : fs.Forall₂ P gs)
    (hxs : xs.Forall₂ R as) : (applyEach call fs xs).Yields (List.Forall₂ R' · (gs <*> as)) := by
  have heach : ∀ f g, P f g → (xs.mapM fun x => call f [x]).Yields
      (List.Forall₂ R' · (as.map g)) := fun f g hfg =>
    (concludes_mapM hxs fun x a hx => hf f g x a hfg hx).mono fun ys hys =>
      List.forall₂_map_right_iff.2 hys
  refine concludes_bind (concludes_mapM (R := fun ys g => ys.Forall₂ R' (as.map g)) hfs heach)
    fun yss hyss => concludes_pure ?_
  show List.Forall₂ R' yss.flatten (gs.flatMap fun g => as.map g)
  exact List.rel_flatten (List.forall₂_map_right_iff.2 hyss)

/-- Applying the functions of a holder stands for the applicative product. -/
theorem yields_ap {u v : Value} {fs : H.Meaning δ (α → β)} {s : H.Meaning δ α}
    (hf : ∀ f g x a, P f g → R x a → (call f [x]).Yields (R' · (g a))) (hu : H.Denotes Q P u fs)
    (hv : H.Denotes Q R v s) : (ap call u v).Yields (H.Denotes Q R' · (fs <*> s)) := by
  cases H with
  | seq k =>
    obtain ⟨t, xs, rfl, hxs⟩ := hv
    obtain ⟨r, gs, rfl, hgs⟩ := hu
    exact concludes_bind (yields_applyEach hf hgs hxs) fun ys hys =>
      concludes_pure ⟨_, ys, rfl, hys⟩
  | maybe =>
    cases s with
    | none =>
      cases hv
      cases fs <;> exact concludes_pure rfl
    | some a =>
      obtain ⟨t, x, rfl, hx⟩ := hv
      cases fs with
      | none =>
        cases hu
        exact concludes_pure rfl
      | some g =>
        obtain ⟨r, f, rfl, hfg⟩ := hu
        exact concludes_bind (hf f g x a hfg hx) fun y hy => concludes_pure ⟨_, y, rfl, hy⟩
  | either =>
    -- a failure in function position comes first
    cases fs with
    | inl e =>
      obtain ⟨r, y, rfl, hy⟩ := hu
      cases s with
      | inl e' =>
        obtain ⟨t, x, rfl, hx⟩ := hv
        exact concludes_pure ⟨r, y, rfl, hy⟩
      | inr a =>
        obtain ⟨t, x, rfl, hx⟩ := hv
        exact concludes_pure ⟨r, y, rfl, hy⟩
    | inr g =>
      obtain ⟨r, f, rfl, hfg⟩ := hu
      cases s with
      | inl e =>
        obtain ⟨t, x, rfl, hx⟩ := hv
        exact concludes_pure ⟨t, x, rfl, hx⟩
      | inr a =>
        obtain ⟨t, x, rfl, hx⟩ := hv
        exact concludes_bind (hf f g x a hfg hx) fun y hy => concludes_pure ⟨_, y, rfl, hy⟩
  | identity =>
    obtain ⟨t, x, rfl, hx⟩ := hv
    obtain ⟨r, f, rfl, hfg⟩ := hu
    show Run.Yields (do return Value.identity .fresh (← call f [x])) _
    exact concludes_bind (hf f fs x s hfg hx) fun y hy => concludes_pure ⟨_, y, rfl, hy⟩

end Holder

/-! ## Containers -/

namespace Container

open Reading

variable {E : Reading δ} {A : Reading α} {B : Reading β}

theorem yields_of (call : Apply) (E : Reading δ) (T : Container) {α : Type} {A : Reading α}
    {x : Value} {a : α} (hx : A x a) : (of call T.rep x).Yields (T.lift E A · (pure a)) := by
  induction T generalizing α x with
  | holder H => exact Holder.yields_of call hx
  | composed t ht name outer inner ihouter ihinner =>
    refine concludes_bind (ihinner hx) fun y hy => ?_
    exact concludes_bind (ihouter hy) fun z hz => concludes_pure ⟨_, z, rfl, hz⟩

/-- Mapping over a composition of holders stands for the map of the composition. -/
theorem yields_map (T : Container) {n d : Nat} {α β : Type} {A : Reading α}
    {B : Reading β} {f v : Value} {g : α → β} {s : T.Meaning δ α} (hf : func n A B f g)
    (hv : T.lift E A v s) (hdepth : n + T.depth < d) :
    (map (apply d) f v).Yields (T.lift E B · (g <$> s)) := by
  induction T generalizing n d α β f v with
  | holder H => exact Holder.yields_map (fun x a hx => func_apply hf hx hdepth) hv
  | composed t ht name outer inner ihouter ihinner =>
    obtain ⟨u, x, rfl, hx⟩ := hv
    -- the function is mapped over the inner containers
    have hinner : func (n + inner.depth + 1) (inner.lift E A) (inner.lift E B)
        (.function (.mapWith f)) (g <$> ·) :=
      func_term fun y b hy d hd => ihinner hf hy (by omega)
    rw [Container.depth] at hdepth
    exact concludes_bind (ihouter hinner hx (by omega)) fun y hy => concludes_pure ⟨_, y, rfl, hy⟩

/-- Application as a function that awaits a container of functions and then one of arguments. -/
theorem func_applying {T : Container} {n : Nat}
    (hap : ∀ {d : Nat} {u v : Value} {fs : T.Meaning δ (α → β)} {s : T.Meaning δ α},
      T.lift E (func n A B) u fs → T.lift E A v s → n + T.depth < d →
        (ap (apply d) u v).Yields (T.lift E B · (fs <*> s))) :
    func 0 (T.lift E (func n A B)) (func (n + T.depth + 1) (T.lift E A) (T.lift E B))
      (.function .applying) (· <*> ·) :=
  func_term fun _ _ hu _ _ => concludes_pure (func_term fun _ _ hv _ hd => hap hu hv hd)

/-- Applying the functions of a composition stands for the product of the composition. -/
theorem yields_ap (T : Container) {n d : Nat} {α β : Type} {A : Reading α}
    {B : Reading β} {u v : Value} {fs : T.Meaning δ (α → β)} {s : T.Meaning δ α}
    (hu : T.lift E (func n A B) u fs) (hv : T.lift E A v s) (hdepth : n + T.depth < d) :
    (ap (apply d) u v).Yields (T.lift E B · (fs <*> s)) := by
  induction T generalizing n d α β u v with
  | holder H =>
    exact Holder.yields_ap (fun f g x a hf hx => func_apply hf hx hdepth) hu hv
  | composed t ht name outer inner ihouter ihinner =>
    obtain ⟨r, y, rfl, hy⟩ := hu
    obtain ⟨q, x, rfl, hx⟩ := hv
    rw [Container.depth] at hdepth
    have happlying := func_applying (E := E) (T := inner) (n := n) (A := A) (B := B)
      fun hu hv hd => ihinner hu hv hd
    -- the containers inside are applied to each other through those outside
    have hlift := yields_map outer happlying hy (d := d) (by omega)
    show Run.Yields (do
      let lifted ← map (apply d) (.function .applying) y
      let result ← ap (apply d) lifted x
      return Value.object .fresh (.composed t name outer.rep inner.rep) result) _
    refine concludes_bind hlift fun z hz => ?_
    exact concludes_bind (ihouter hz hx (by omega)) fun z hz => concludes_pure ⟨_, z, rfl, hz⟩

end Container

/-! ## Laws -/

section Laws

open Reading Container

variable {E : Reading δ} {A : Reading α} {B : Reading β} {C : Reading γ} {T : Container}
  {n d : Nat}

/-- The identity law weighs applying the lifted identity against the value itself. -/
theorem weighs_identity (hdepth : T.depth < d) {v : Value} {s : T.Meaning δ α}
    (hv : T.lift E A v s) :
    (Law.applicativeIdentity.run (apply d) [T.rep, v]).Weighs (apply d)
      (T.lift E A · s) := by
  have hid := T.yields_of (apply d) E (func_echo (A := A))
  refine weighs_bind hid fun ids hids => ?_
  have hap := T.yields_ap hids hv (d := d) (by omega)
  rw [pure_id_seq] at hap
  exact weighs_bind hap fun x hx => weighs_equals hx hv

/-- The homomorphism law weighs both of its sides against the lifted result. -/
theorem weighs_homomorphism (hdepth : n + T.depth < d) {f x : Value} {g : α → β} {a : α}
    (hf : func n A B f g) (hx : A x a) :
    (Law.applicativeHomomorphism.run (apply d) [T.rep, f, x]).Weighs (apply d)
      (T.lift E B · (pure (g a))) := by
  refine weighs_bind (T.yields_of (apply d) E hf) fun fs hfs => ?_
  refine weighs_bind (T.yields_of (apply d) E hx) fun xs hxs => ?_
  have hap := T.yields_ap hfs hxs (d := d) hdepth
  rw [pure_seq, map_pure] at hap
  refine weighs_bind hap fun l hl => ?_
  refine weighs_bind (func_apply hf hx (d := d) (by omega)) fun y hy => ?_
  exact weighs_bind (T.yields_of (apply d) E hy) fun r hr => weighs_equals hl hr

/-- The interchange law weighs both of its sides against applying the functions to the lifted
value. -/
theorem weighs_interchange (hdepth : n + T.depth + 1 < d) {u y : Value}
    {fs : T.Meaning δ (α → β)} {a : α} (hu : T.lift E (func n A B) u fs) (hy : A y a) :
    (Law.applicativeInterchange.run (apply d) [T.rep, u, y]).Weighs (apply d)
      (T.lift E B · (fs <*> pure a)) := by
  refine weighs_bind (T.yields_of (apply d) E hy) fun ys hys => ?_
  refine weighs_bind (T.yields_ap hu hys (d := d) (by omega)) fun l hl => ?_
  have happly := func_applyAt (n := n) (B := B) hy
  refine weighs_bind (T.yields_of (apply d) E happly) fun gs hgs => ?_
  have hap := T.yields_ap hgs hu (d := d) (by omega)
  rw [pure_seq, ← seq_pure] at hap
  exact weighs_bind hap fun r hr => weighs_equals hl hr

/-- The composition law weighs both of its sides against applying the composed functions. -/
theorem weighs_composition (hdepth : n + T.depth + 1 < d) {a u v : Value}
    {fs : T.Meaning δ (β → γ)} {gs : T.Meaning δ (α → β)} {s : T.Meaning δ α}
    (ha : T.lift E (func n B C) a fs) (hu : T.lift E (func n A B) u gs) (hv : T.lift E A v s) :
    (Law.applyComposition.run (apply d) [a, u, v]).Weighs (apply d)
      (T.lift E C · (fs <*> (gs <*> s))) := by
  have hcomposing := func_composing (n := n) (A := A) (B := B) (C := C)
  have hmap := T.yields_map hcomposing ha (d := d) (by omega)
  refine weighs_bind hmap fun c hc => ?_
  refine weighs_bind (T.yields_ap hc hu (d := d) (by omega)) fun cu hcu => ?_
  have hleft := T.yields_ap hcu hv (d := d) (by omega)
  rw [← seq_assoc] at hleft
  refine weighs_bind hleft fun l hl => ?_
  refine weighs_bind (T.yields_ap hu hv (d := d) (by omega)) fun uv huv => ?_
  exact weighs_bind (T.yields_ap ha huv (d := d) (by omega)) fun r hr =>
    weighs_equals hl hr

/-- For data, the laws of applicatives hold of each container just where the contents of both sides,
which stand for the same, are equal place by place. -/
theorem applicative_laws (T : Container) (hE : E.OfData) (hA : A.OfData) (hB : B.OfData)
    (hC : C.OfData) (hdepth : n + T.depth + 1 < d) :
    let call := apply d
    let agree := fun w => T.Related (Value.Equal call w) (Value.Equal call w)
    (∀ v s, T.lift E A v s →
      Law.applicativeIdentity.Balances call [T.rep, v] (T.lift E A) s agree) ∧
    (∀ f g x a, func n A B f g → A x a →
      Law.applicativeHomomorphism.Balances call [T.rep, f, x] (T.lift E B) (pure (g a)) agree) ∧
    (∀ u fs y a, T.lift E (func n A B) u fs → A y a →
      Law.applicativeInterchange.Balances call [T.rep, u, y] (T.lift E B) (fs <*> pure a) agree) ∧
    (∀ a u v fs gs s, T.lift E (func n B C) a fs → T.lift E (func n A B) u gs → T.lift E A v s →
      Law.applyComposition.Balances call [a, u, v] (T.lift E C) (fs <*> (gs <*> s)) agree) := by
  intro call agree
  have hcompared : ∀ {σ : Type} {D : Reading σ}, D.OfData → (T.lift E D).Compared call agree :=
    fun hD => (hE.compared call).container (hD.compared call) T
  refine ⟨?_, ?_, ?_, ?_⟩
  · intro v s hv
    exact Law.balances (weighs_identity (by omega) hv) (hcompared hA)
  · intro f g x a hf hx
    exact Law.balances (weighs_homomorphism (by omega) hf hx) (hcompared hB)
  · intro u fs y a hu hy
    exact Law.balances (weighs_interchange (by omega) hu hy) (hcompared hB)
  · intro a u v fs gs s ha hu hv
    exact Law.balances (weighs_composition (by omega) ha hu hv) (hcompared hC)

/-- Lists of optional values, as one container. -/
def optionalList : Container :=
  .composed (.numbered 0) (by decide) "Compose(list, Maybe)" (.holder (.seq .list)) (.holder .maybe)

/-- A list of something and nothing. -/
def optionalList.pack (x : Value) : Value :=
  .object .fresh (.composed (.numbered 0) "Compose(list, Maybe)" (Holder.seq .list).rep
    Holder.maybe.rep) (.list [.just .fresh x, .nothing])

theorem optionalList.lift_pack {x : Value} {a : α} (hx : A x a) :
    optionalList.lift E A (pack x) [some a, none] :=
  ⟨_, _, rfl, _, _, rfl, .cons ⟨_, x, rfl, hx⟩ (.cons rfl .nil)⟩

theorem applicative_laws_optionalList :
    let call := apply 3
    let inc : Value := .function (.primitive .increment)
    let holds (law : Law) (args : List Value) : Prop :=
      ((law.run call args).outcome .initial).1 = .ok (.bool true)
    holds .applicativeIdentity [optionalList.rep, optionalList.pack (.int 1)] ∧
      holds .applicativeHomomorphism [optionalList.rep, inc, .int 1] ∧
      holds .applicativeInterchange [optionalList.rep, optionalList.pack inc, .int 1] ∧
      holds .applyComposition
        [optionalList.pack inc, optionalList.pack inc, optionalList.pack (.int 1)] := by
  have hone : integer (.int 1) 1 := ⟨_, rfl⟩
  have hwithin : ∀ w, (optionalList.lift integer integer).Within
      (optionalList.Related (Value.Equal (apply 3) w) (Value.Equal (apply 3) w)) :=
    fun w => (integer_within _ w).container (integer_within _ w) optionalList
  obtain ⟨hid, hhom, hinter, hcomp⟩ := applicative_laws optionalList integer_ofData integer_ofData
    integer_ofData integer_ofData (n := 0) (d := 3) (by decide)
  refine ⟨?_, ?_, ?_, ?_⟩
  · exact (hid _ _ (optionalList.lift_pack hone)).holds hwithin rfl
  · exact (hhom _ _ _ _ func_increment hone).holds hwithin rfl
  · exact (hinter _ _ _ _ (optionalList.lift_pack func_increment) hone).holds hwithin rfl
  · exact (hcomp _ _ _ _ _ _ (optionalList.lift_pack func_increment)
      (optionalList.lift_pack func_increment) (optionalList.lift_pack hone)).holds hwithin rfl

/-- A complex number that is not a number is equal to no other, so a function that makes one, here
the class of complex numbers, is seen to be called twice. -/
theorem homomorphism_notANumber :
    ((Law.applicativeHomomorphism.run applyFunction [(Container.holder (.seq .list)).rep,
      .type (.builtin .complex), .number (.numbered 0) (.float .nan)]).outcome .initial).1 =
      .ok (.bool false) := rfl

end Laws

end CheckedCalls
