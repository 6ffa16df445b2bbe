import CheckedCalls.Proofs.Chaining
import CheckedCalls.Proofs.Traversal

/-!
# Applying and mapping by chaining

Applying and mapping are operations of their own, and both can also be done by chaining: functions
are applied by mapping each of them, and a function is mapped by lifting what it answers. On types
the two ways are equal in each monad, so both sides stand for the same, and what is left is whether
contents that stand for the same are equal. Where both operands are failures the two ways answer
one and the same object.
-/

namespace CheckedCalls

open Run Reading

variable {δ α β γ : Type}

namespace Holder

/-- Functions are applied by mapping each of them. -/
theorem bind_map (H : Holder) (fs : H.Meaning δ (α → β)) (s : H.Meaning δ α) :
    H.bind fs (fun g => g <$> s) = fs <*> s := by
  cases H with
  | seq _ => rfl
  | maybe => cases fs <;> rfl
  | either => cases fs <;> rfl
  | identity => rfl

/-- A function is mapped by lifting what it answers. -/
theorem bind_pure_comp (H : Holder) (g : α → β) (s : H.Meaning δ α) :
    H.bind s (pure ∘ g) = g <$> s := by
  cases H with
  | seq _ => exact List.flatMap_pure_eq_map g s
  | maybe => cases s <;> rfl
  | either => cases s <;> rfl
  | identity => rfl

end Holder

/-! ## The two ways -/

/-- A function that maps its argument over `x`. -/
def mapOver (x : Value) : Value :=
  .function (.compose (.function (.applyAt x))
    (.function (.curry (.function (.partial_ (.operation .map) [])))))

/-- Whether applying agrees with chaining the mapping of each function. -/
def applyEitherWay (call : Apply) (fs x : Value) : Run Value := do
  let applied ← ap call fs x
  let chained ← chain call (mapOver x) fs
  Value.equals call applied chained

/-- Whether mapping agrees with chaining the function with the lifting of what it answers. -/
def mapEitherWay (call : Apply) (rep f x : Value) : Run Value := do
  let mapped ← map call f x
  let chained ← chain call (.function (.compose (.function (.lift rep)) f)) x
  Value.equals call mapped chained

section Paths

variable {E : Reading δ} {A : Reading α} {B : Reading β} {C : Reading γ} {H : Holder} {n d : Nat}
  {f u v : Value} {g : α → β} {fs : H.Meaning δ (α → β)} {s : H.Meaning δ α}

/-- A function of two arguments takes them one at a time. -/
theorem func_curry {h : α → β → γ} (hf : ∀ m x y a b, A x a → B y b → ∀ d, n ≤ d →
    (step (apply d) (f.labelled m) [x, y]).Yields (C · (h a b))) :
    func 0 A (func (n + 1) B C) (.function (.curry f)) h := by
  refine func_term fun x a hx _ _ => concludes_pure (func_term fun y b hy d hd => ?_)
  obtain ⟨d, rfl⟩ : ∃ k, d = k + 1 := ⟨d - 1, by omega⟩
  have hfunction : (settle f).Yields fun v => ∃ m, v = f.labelled m :=
    yields_settle fun m => ⟨m, rfl⟩
  have hargs : (settleAll [x, y]).Yields fun xs =>
      xs.Forall₂ (fun y P => P y) [(A · a), (B · b)] :=
    concludes_mapM (S := fun x P => ∀ m, P (x.labelled m))
      (.cons (fun m => A.labelled m hx) (.cons (fun m => B.labelled m hy) .nil))
      fun x P hP => yields_settle hP
  refine concludes_bind hfunction ?_
  intro _ ⟨m, hm⟩
  refine concludes_bind hargs ?_
  intro _ (.cons hx (.cons hy .nil))
  rw [hm]
  exact concludes_bind (hf m _ _ a b hx hy d (by omega)) fun z hz =>
    yields_settle fun m => C.labelled m hz

/-- Mapping over a value is a function of the mapped function. -/
theorem func_mapOver (hv : H.lift E A v s) :
    func (n + 4) (func n A B) (H.lift E B) (mapOver v) (· <$> s) := by
  have hmap : func 0 (func n A B) (func (n + 2) (H.lift E A) (H.lift E B))
      (.function (.curry (.function (.partial_ (.operation .map) [])))) (· <$> ·) :=
    func_curry fun m f v g s hf hv d hd =>
      Holder.yields_map (fun x a hx => func_apply hf hx (by omega)) hv
  have hat : func (n + 3) (func (n + 2) (H.lift E A) (H.lift E B)) (H.lift E B)
      (.function (.applyAt v)) (fun h => h s) := func_applyAt hv
  refine func_term fun f g hf d hd => ?_
  refine concludes_bind (func_apply hmap hf (d := d) (by omega)) fun h hh => ?_
  have hanswer := func_apply hat hh (d := d) (by omega)
  exact hanswer

theorem weighs_applyEitherWay (hu : H.lift E (func n A B) u fs) (hv : H.lift E A v s)
    (hdepth : n + 4 < d) :
    (applyEitherWay (apply d) u v).Weighs (apply d) (H.lift E B · (fs <*> s)) := by
  have happlied : (ap (apply d) u v).Yields (H.lift E B · (fs <*> s)) :=
    Holder.yields_ap (fun f g x a hf hx => func_apply hf hx (by omega)) hu hv
  have hchained : (chain (apply d) (mapOver v) u).Yields
      (H.lift E B · (H.bind fs fun g => g <$> s)) :=
    Holder.yields_chain (fun f g hf => func_apply (func_mapOver hv) hf hdepth) hu
  rw [Holder.bind_map] at hchained
  exact weighs_bind happlied fun l hl => weighs_bind hchained fun r hr => weighs_equals hl hr

/-- The law weighs mapping, and chaining with the lifted function, against the map. -/
theorem weighs_mapEitherWay (hf : func n A B f g) (hv : H.lift E A v s) (hdepth : n + 1 < d) :
    (mapEitherWay (apply d) H.rep f v).Weighs (apply d) (H.lift E B · (g <$> s)) := by
  have hlift : func n B (H.lift E B) (.function (.lift H.rep)) pure :=
    func_mono (Nat.zero_le n) (Container.func_lift (.holder H) E B)
  have hafter : func (n + 1) A (H.lift E B)
      (.function (.compose (.function (.lift H.rep)) f)) (pure ∘ g) :=
    func_after hlift hf
  have hmapped : (map (apply d) f v).Yields (H.lift E B · (g <$> s)) :=
    Holder.yields_map (fun x a hx => func_apply hf hx (by omega)) hv
  have hchained : (chain (apply d) (.function (.compose (.function (.lift H.rep)) f)) v).Yields
      (H.lift E B · (H.bind s (pure ∘ g))) :=
    Holder.yields_chain (fun x a hx => func_apply hafter hx hdepth) hv
  rw [Holder.bind_pure_comp] at hchained
  exact weighs_bind hmapped fun l hl => weighs_bind hchained fun r hr => weighs_equals hl hr

/-- For values as a program can hold them, applying agrees with chaining the mapping of each
function, and mapping with chaining the function and the lifting of what it answers, just where the
contents of both sides, which stand for the same, are equal place by place. Of two failures both
ways of applying answer the one in function position. -/
theorem applicative_agrees_monadic (H : Holder) (hE : E.OfProper) (hB : B.OfProper) (n d : Nat)
    (hdepth : n + 4 < d) :
    let call := apply d
    let agree := fun w => H.Related (Value.Equal call w) (Value.Equal call w)
    (∀ u (fs : H.Meaning δ (α → β)) v s, H.lift E (func n A B) u fs → H.lift E A v s →
      (applyEitherWay call u v).Balances call (H.lift E B) (fs <*> s) agree) ∧
    (∀ f g v (s : H.Meaning δ α), func n A B f g → H.lift E A v s →
      (mapEitherWay call H.rep f v).Balances call (H.lift E B) (g <$> s) agree) ∧
    ∀ t x r y, ap call (.left t x) (.left r y) = pure (.left t x) ∧
      chain call (mapOver (.left r y)) (.left t x) = pure (.left t x) := by
  intro call agree
  have hsides : (H.lift E B).Verified call agree :=
    (hE.verified call).holder (hB.verified call) H
  refine ⟨?_, ?_, ?_⟩
  · intro u fs v s hu hv
    exact (weighs_applyEitherWay hu hv hdepth).balances hsides
  · intro f g v s hf hv
    exact (weighs_mapEitherWay hf hv (by omega)).balances hsides
  · intro t x r y
    exact ⟨rfl, rfl⟩

theorem applicative_agrees_monadic_list :
    let call := apply 5
    let inc : Value := .function (.primitive .increment)
    let u : Value := .list [inc, inc]
    let v : Value := .list [.int 1, .int 2]
    let holds (r : Run Value) : Prop := (r.outcome .initial).1 = .ok (.bool true)
    holds (applyEitherWay call u v) ∧ holds (mapEitherWay call (Holder.seq .list).rep inc v) := by
  intro call inc u v holds
  have hint : ∀ n, integer (.int n) n := fun n => ⟨_, rfl⟩
  have hu : (Holder.seq .list).lift integer (func 0 integer integer) u
      ([(· + 1), (· + 1)] : List (Int → Int)) :=
    ⟨_, _, rfl, .cons func_increment (.cons func_increment .nil)⟩
  have hv : (Holder.seq .list).lift integer integer v ([1, 2] : List Int) :=
    ⟨_, _, rfl, .cons (hint 1) (.cons (hint 2) .nil)⟩
  have hwithin : ∀ w : World, w.Untouched → ((Holder.seq .list).lift integer integer).Within
      ((Holder.seq .list).Related (Value.Equal call w) (Value.Equal call w)) :=
    fun w _ => (integer_within _ w).holder (integer_within _ w) _
  obtain ⟨happly, hmap, -⟩ := applicative_agrees_monadic (A := integer) (.seq .list)
    integer_ofProper integer_ofProper 0 5 (by decide)
  refine ⟨?_, ?_⟩
  · exact (happly u _ v _ hu hv).holds hwithin rfl
  · exact (hmap inc _ v _ func_increment hv).holds hwithin rfl

/-- A moment that its offset shifts out of the calendar cannot be compared with itself, and a
function that makes a complex number that is not a number is seen to be called twice. -/
theorem applicative_disagrees_monadic :
    ((mapEitherWay applyFunction (Holder.seq .list).rep (.function .echo)
        (.list [Value.firstHour])).outcome .initial).1 = .error .overflow ∧
      ((applyEitherWay applyFunction (.list [.type (.builtin .complex)])
        (.list [.number (.numbered 0) (.float .nan)])).outcome .initial).1 = .ok (.bool false) := by
  have hdenied : ((applyEitherWay applyFunction (.list [.type (.builtin .complex)])
      (.list [.number (.numbered 0) (.float .nan)])).outcome .initial).1.toOption.any
        (Value.bool false).identical = true := by decide +kernel
  refine ⟨rfl, ?_⟩
  generalize ((applyEitherWay applyFunction (.list [.type (.builtin .complex)])
    (.list [.number (.numbered 0) (.float .nan)])).outcome .initial).1 = answer at hdenied
  cases answer with
  | error e => cases hdenied
  | ok v =>
    have hidentical : (Value.bool false).identical v = true := hdenied
    cases v with
    | bool b => rw [← beq_iff_eq.1 hidentical]
    | _ => cases hidentical

end Paths

end CheckedCalls
