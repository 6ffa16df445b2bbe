import CheckedCalls.Proofs.Applicative
import CheckedCalls.Proofs.Dictionary

/-!
# The laws of functors

Mapping denotes the mapping of a functor on types: of lists, optional values, eithers and their
compositions, and of lists once more for the values of a dictionary. A function is mapped by
composition, which shows where it is called. So both sides of each law stand for the same, and what
is left is whether contents that stand for the same are equal.
-/

namespace CheckedCalls

open Run Reading

variable {δ ε σ α β γ : Type}

/-! ## The laws of one functor -/

section Functor

variable {call : Apply} {F : Reading σ} {G : Reading γ} {s : σ} {r : γ} {u f g : Value}

/-- The identity law weighs mapping the identity against the value itself. -/
theorem weighs_functorIdentity (hmap : (map call (.function .echo) u).Yields (F · s))
    (hu : F u s) : (Law.functorIdentity.run call [u]).Weighs call (F · s) :=
  weighs_bind hmap fun _ hl => weighs_equals hl hu

/-- The composition law weighs mapping once against mapping twice. -/
theorem weighs_functorComposition
    (honce : (map call (.function (.after f g)) u).Yields (F · s))
    (hfirst : (map call g u).Yields (G · r))
    (hthen : ∀ v, G v r → (map call f v).Yields (F · s)) :
    (Law.functorComposition.run call [u, f, g]).Weighs call (F · s) :=
  weighs_bind honce fun _ hl => weighs_bind hfirst fun v hv =>
    weighs_bind (hthen v hv) fun _ hr => weighs_equals hl hr

end Functor

/-- The keys of a dictionary and their order stay what they are, whatever the function does. -/
theorem ensures_map_dict (call : Apply) (f : Value) (t : Tag) (es : List (Value × Value)) :
    (map call f (.dict t es)).Ensures fun v =>
      ∃ fs, v = .dict .fresh fs ∧ fs.map Prod.fst = es.map Prod.fst := by
  have hentries : (es.mapM fun e : Value × Value => do return (e.1, ← call f [e.2])).Ensures
      fun fs => fs.map Prod.fst = es.map Prod.fst := by
    induction es with
    | nil => exact ensures_pure rfl
    | cons e es ih =>
      rw [List.mapM_cons]
      refine ensures_bind (P := fun d => d.1 = e.1) ?_ fun d hd => ?_
      · exact ensures_bind (ensures_of_forall fun _ => trivial) fun _ (_ : True) =>
          ensures_pure rfl
      · exact ensures_bind ih fun fs hfs => ensures_pure (congrArg₂ List.cons hd hfs)
  exact ensures_bind hentries fun fs hfs => ensures_pure ⟨fs, rfl, hfs⟩

/-! ## Functions as functors -/

/-- A function, or a class, is mapped by composition. -/
theorem map_callable {u : Value} (hu : u.isCallable = true) (call : Apply) (f : Value) :
    map call f u = pure (.function (.after f u)) := by
  cases u <;> first | rfl | cases hu

/-- Whether two functions answer alike on some arguments. -/
def agreeOn (call : Apply) (args : List Value) (f g : Value) : Run Value := do
  let x ← call f args
  let y ← call g args
  Value.equals call x y

/-- The law of identity for a function, on some arguments. -/
def identityOn (call : Apply) (args : List Value) (u : Value) : Run Value := do
  agreeOn call args (← map call (.function .echo) u) u

/-- The law of composition for a function, on some arguments. -/
def compositionOn (call : Apply) (args : List Value) (u f g : Value) : Run Value := do
  let once ← map call (.function (.after f g)) u
  agreeOn call args once (← map call f (← map call g u))

section Pointwise

variable {D : Reading ε} {A : Reading α} {B : Reading β} {C : Reading γ} {n d : Nat}
  {u f g : Value} {args : List Value} {es : List ε} {a : α} {p : β → γ} {q : α → β}

/-- Two functions that are called with one result weigh it on both sides. -/
theorem weighs_agreeOn {m : Nat} (hf : calledOn n D es A f a) (hg : calledOn m D es A g a)
    (hargs : args.Forall₂ D es) (hn : n < d) (hm : m < d) :
    (agreeOn (apply d) args f g).Weighs (apply d) (A · a) :=
  weighs_bind (calledOn_apply hf hargs hn) fun _ hx =>
    weighs_bind (calledOn_apply hg hargs hm) fun _ hy => weighs_equals hx hy

theorem weighs_identityOn (hu : u.isCallable = true) (ha : calledOn n D es A u a)
    (hargs : args.Forall₂ D es) (hdepth : n + 1 < d) :
    (identityOn (apply d) args u).Weighs (apply d) (A · a) := by
  rw [identityOn, map_callable hu, pure_bind]
  have hid := calledOn_after (func_mono (Nat.zero_le n) func_echo) ha
  exact weighs_agreeOn hid ha hargs hdepth (by omega)

/-- The composition law of functions weighs both of its sides against the result in turn. -/
theorem weighs_compositionOn (hu : u.isCallable = true) (ha : calledOn n D es A u a)
    (hf : func n B C f p) (hg : func n A B g q) (hargs : args.Forall₂ D es)
    (hdepth : n + 2 < d) :
    (compositionOn (apply d) args u f g).Weighs (apply d) (C · (p (q a))) := by
  have hwider : calledOn (n + 1) D es A u a := fun m xs hxs d hd => ha m xs hxs d (by omega)
  have honce := calledOn_after (func_after hf hg) hwider
  have htwice := calledOn_after (func_mono (Nat.le_succ n) hf) (calledOn_after hg ha)
  rw [compositionOn, map_callable hu, map_callable hu, pure_bind, pure_bind, map_callable rfl,
    pure_bind]
  exact weighs_agreeOn honce htwice hargs hdepth hdepth

end Pointwise

/-! ## All functors -/

section Laws

variable {E : Reading δ} {D : Reading ε} {A : Reading α} {B : Reading β} {C : Reading γ}

/-- For values as a program can hold them, the laws of functors hold of each container, each
dictionary and each function just where the contents of both sides, which stand for the same, are
equal place by place. -/
theorem functor_laws (hE : E.OfProper) (hA : A.OfProper) (hC : C.OfProper) (n d : Nat) :
    let call := apply d
    let equal := Value.Equal call
    let identity (u : Value) := Law.functorIdentity.run call [u]
    let composition (u f g : Value) := Law.functorComposition.run call [u, f, g]
    (∀ (T : Container) u s, T.lift E A u s → n + T.depth + 1 < d →
      (identity u).Balances call (T.lift E A) s (fun w => T.Related (equal w) (equal w)) ∧
      ∀ f g (p : β → γ) q, func n B C f p → func n A B g q →
        (composition u f g).Balances call (T.lift E C) ((p ∘ q) <$> s)
          fun w => T.Related (equal w) (equal w)) ∧
    (∀ (K : Keys call) u as, K.lift A u as → n + 1 < d →
      (identity u).Balances call (K.lift A) as (fun w => Value.Entailed (equal w)) ∧
      ∀ f g (p : β → γ) q, func n B C f p → func n A B g q →
        (composition u f g).Balances call (K.lift C) (as.map (p ∘ q))
          fun w => Value.Entailed (equal w)) ∧
    (∀ (u : Value) args es a, u.isCallable = true → args.Forall₂ D es → calledOn n D es A u a →
      n + 2 < d → (identityOn call args u).Balances call A a equal ∧
      ∀ f g (p : β → γ) q, func n B C f p → func n A B g q →
        (compositionOn call args u f g).Balances call C (p (q a)) equal) ∧
    ∀ (f : Value) (t : Tag) (es : List (Value × Value)), (map call f (.dict t es)).Ensures fun v =>
      ∃ fs, v = .dict .fresh fs ∧ fs.map Prod.fst = es.map Prod.fst := by
  intro call equal identity composition
  have hsides {τ : Type} {F : Reading τ} (hF : F.OfProper) (T : Container) :
      (T.lift E F).Verified call fun w => T.Related (equal w) (equal w) :=
    (hE.verified call).container (hF.verified call) T
  refine ⟨?_, ?_, ?_, ensures_map_dict call⟩
  · intro T u s hu hdepth
    refine ⟨?_, fun f g p q hf hg => ?_⟩
    · have hmap := T.yields_map func_echo hu (d := d) (by omega)
      rw [id_map] at hmap
      exact (weighs_functorIdentity hmap hu).balances (hsides hA T)
    · have honce := T.yields_map (func_after hf hg) hu (d := d) (by omega)
      have hfirst := T.yields_map hg hu (d := d) (by omega)
      refine (weighs_functorComposition honce hfirst fun v hv => ?_).balances (hsides hC T)
      rw [comp_map]
      exact T.yields_map hf hv (by omega)
  · intro K u as hu hdepth
    refine ⟨?_, fun f g p q hf hg => ?_⟩
    · have hmap := K.yields_map (fun x a hx => func_apply func_echo hx (by omega)) hu
      rw [List.map_id] at hmap
      exact (weighs_functorIdentity hmap hu).balances (K.verified (hA.verified call))
    · have honce := K.yields_map (fun x a hx => func_apply (func_after hf hg) hx hdepth) hu
      have hfirst := K.yields_map (fun x a hx => func_apply hg hx (by omega)) hu
      refine (weighs_functorComposition honce hfirst fun v hv => ?_).balances
        (K.verified (hC.verified call))
      rw [← List.map_map]
      exact K.yields_map (fun x a hx => func_apply hf hx (by omega)) hv
  · intro u args es a hu hargs ha hdepth
    refine ⟨?_, fun f g p q hf hg => ?_⟩
    · exact (weighs_identityOn hu ha hargs (by omega)).balances (hA.verified call)
    · exact (weighs_compositionOn hu ha hf hg hargs hdepth).balances (hC.verified call)

/-- The keys `a` and `b`. -/
def Keys.letters (call : Apply) : Keys call where
  keys := [.text (.numbered 0) "a", .text (.numbered 1) "b"]
  settled := by
    simp only [List.forall_mem_cons]
    exact ⟨fun _ => rfl, fun _ => rfl, by simp⟩
  distinct := fun w _ => {
    self := List.forall_mem_cons.2 ⟨Value.keyMatches_identical rfl,
      List.forall_mem_singleton.2 (Value.keyMatches_identical rfl)⟩
    apart := .cons (List.forall_mem_singleton.2 rfl) (List.pairwise_singleton _ _) }

theorem functor_laws_integers :
    let call := apply 3
    let inc : Value := .function (.primitive .increment)
    let holds (r : Run Value) : Prop := (r.outcome .initial).1 = .ok (.bool true)
    let u := optionalList.pack (.int 1)
    let letters : Value := .dict .fresh
      [(.text (.numbered 0) "a", .int 1), (.text (.numbered 1) "b", .int 2)]
    holds (Law.functorIdentity.run call [u]) ∧
      holds (Law.functorComposition.run call [u, inc, inc]) ∧
      holds (Law.functorIdentity.run call [letters]) ∧
      holds (Law.functorComposition.run call [letters, inc, inc]) ∧
      holds (identityOn call [.int 1] inc) ∧ holds (compositionOn call [.int 1] inc inc inc) := by
  intro call inc holds u letters
  have hone : integer (.int 1) 1 := ⟨_, rfl⟩
  have htwo : integer (.int 2) 2 := ⟨_, rfl⟩
  have hint : ∀ w, w.Untouched → integer.Within (Value.Equal call w) :=
    fun w _ => integer_within _ w
  obtain ⟨hcontainer, hdict, hfunction, -⟩ := functor_laws (E := integer) (D := integer)
    (B := integer) integer_ofProper integer_ofProper integer_ofProper 0 3
  have hlists := hcontainer optionalList u _ (optionalList.lift_pack hone) (by decide)
  have hletters := hdict (Keys.letters call) letters [1, 2]
    ⟨_, _, rfl, rfl, .cons hone (.cons htwo .nil)⟩ (by decide)
  have hinc := hfunction inc [.int 1] [1] 2 rfl (.cons hone .nil) (func_iff.1 func_increment 1)
    (by decide)
  refine ⟨?_, ?_, ?_, ?_, ?_, ?_⟩
  · exact hlists.1.holds (fun w hw => (hint w hw).container (hint w hw) optionalList) rfl
  · exact (hlists.2 _ _ _ _ func_increment func_increment).holds
      (fun w hw => (hint w hw).container (hint w hw) optionalList) rfl
  · exact hletters.1.holds (fun w hw => Keys.within (hint w hw)) rfl
  · exact (hletters.2 _ _ _ _ func_increment func_increment).holds
      (fun w hw => Keys.within (hint w hw)) rfl
  · exact hinc.1.holds hint rfl
  · exact (hinc.2 _ _ _ _ func_increment func_increment).holds hint rfl

/-- A moment that its offset shifts out of the calendar cannot be compared with itself, and a
complex number that is not a number is equal to no other, so a function that makes one is seen to
be called twice. -/
theorem functor_laws_fail :
    ((Law.functorIdentity.run applyFunction [.just .fresh Value.firstHour]).outcome .initial).1 =
        .error .overflow ∧
      ((Law.functorComposition.run applyFunction [.list [.number (.numbered 0) (.float .nan)],
        .type (.builtin .complex), .function .echo]).outcome .initial).1 = .ok (.bool false) := by
  refine ⟨rfl, ?_⟩
  let w (n : Nat) : World := ⟨[], n, []⟩
  let u : Value := .list [.number (.numbered 0) (.float .nan)]
  let made (n : Nat) : Value := .list [.complex (.numbered n) .nan .zero]
  let complex : Value := .type (.builtin .complex)
  -- each side makes an object of its own
  have honce : (map applyFunction (.function (.after complex (.function .echo))) u).outcome (w 0) =
      (.ok (made 2), w 3) := rfl
  have hfirst : (map applyFunction (.function .echo) u).outcome (w 3) = (.ok u, w 4) := rfl
  have hthen : (map applyFunction complex u).outcome (w 4) = (.ok (made 4), w 5) := rfl
  have hequals : (Value.equals applyFunction (made 2) (made 4)).outcome (w 5) =
      (.ok (.bool false), w 5) := rfl
  show (Run.outcome (do
    let once ← map applyFunction (.function (.after complex (.function .echo))) u
    Value.equals applyFunction once
      (← map applyFunction complex (← map applyFunction (.function .echo) u))) (w 0)).1 = _
  simp only [outcome_bind, honce, hfirst, hthen, hequals]

end Laws

end CheckedCalls
