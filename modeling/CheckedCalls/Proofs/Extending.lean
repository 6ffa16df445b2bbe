import CheckedCalls.Proofs.Balance

/-!
# The law of extending

A function on whole containers is extended to a map of containers: it is asked about the container
itself, and in a sequence about each of its suffixes. On types extending is given by position, and
what follows a position of an extension is the extension of what follows it. So both sides of the
law stand for the same, and what is left is whether contents that stand for the same are equal.
-/

namespace CheckedCalls

open Run Reading

variable {δ α β γ : Type}

/-! ## Extending on types -/

/-- The suffix from each position on, asked about by a function. -/
def extendList (p : List α → β) (as : List α) : List β :=
  (List.range as.length).map fun i => p (as.drop i)

theorem length_extendList (p : List α → β) (as : List α) :
    (extendList p as).length = as.length := by
  rw [extendList, List.length_map, List.length_range]

/-- Extending commutes with taking a suffix. -/
theorem drop_extendList (p : List α → β) (as : List α) (i : Nat) :
    (extendList p as).drop i = extendList p (as.drop i) := by
  apply List.ext_getElem
  · rw [List.length_drop, length_extendList, length_extendList, List.length_drop]
  · intro j h _
    simp only [extendList, List.getElem_drop, List.getElem_map, List.getElem_range, List.drop_drop]

/-- Extending twice is extending once by the composed function. -/
theorem extendList_extendList (p : List β → γ) (q : List α → β) (as : List α) :
    extendList p (extendList q as) = extendList (fun s => p (extendList q s)) as := by
  have hdrop (i : Nat) : p ((extendList q as).drop i) = p (extendList q (as.drop i)) := by
    rw [drop_extendList]
  calc extendList p (extendList q as)
      = (List.range as.length).map fun i => p ((extendList q as).drop i) := by
        rw [extendList, length_extendList]
    _ = extendList (fun s => p (extendList q s)) as := List.map_congr_left fun i _ => hdrop i

namespace Holder

/-- Asks a function about a holder: about each suffix of a sequence, and about a holder of one
element as a whole, unless it is a failure. -/
def extend (H : Holder) (p : H.Meaning δ α → β) (s : H.Meaning δ α) : H.Meaning δ β :=
  match H with
  | .seq _ => extendList p s
  | .maybe => Option.map (fun _ => p s) s
  | .either => Sum.map id (fun _ => p s) s
  | .identity => p s

/-- Extending a holder twice is extending it once by the composed function. -/
theorem extend_extend (H : Holder) (p : H.Meaning δ β → γ) (q : H.Meaning δ α → β)
    (s : H.Meaning δ α) : H.extend p (H.extend q s) = H.extend (fun r => p (H.extend q r)) s := by
  cases H with
  | seq _ => exact extendList_extendList p q s
  | maybe => cases s <;> rfl
  | either => cases s <;> rfl
  | identity => rfl

end Holder

/-! ## Extending values -/

theorem suffixes_eq (xs : List Value) : suffixes xs = (List.range xs.length).map xs.drop := by
  induction xs with
  | nil => rfl
  | cons x xs ih =>
    rw [suffixes, ih, List.length_cons, List.range_succ_eq_map, List.map_cons, List.map_map]
    rfl

section Extend

variable {E : Reading δ} {A : Reading α} {B : Reading β} {C : Reading γ} {H : Holder} {n d : Nat}

/-- The elements of an extended sequence are what the function answers about its suffixes. -/
theorem yields_extend_seq {k : SeqKind} {t : Tag} {xs : List Value} {as : List α} {f : Value}
    {p : List α → β} (hf : func n ((Holder.seq k).lift E A) B f p) (hxs : xs.Forall₂ A as)
    (hdepth : n < d) :
    (extend (apply d) f (.seq k t xs)).Yields fun v => ∃ ys, v = .seq k .fresh ys ∧
      ys.Forall₂ (fun y i => B y (p (as.drop i)) ∧
        (apply d f [Value.suffix k t xs.length (xs.drop i)]).CanAnswer y)
        (List.range xs.length) := by
  have hsuffixes : (suffixes xs).Forall₂ (fun ys i => ys = xs.drop i) (List.range xs.length) := by
    rw [suffixes_eq]
    exact List.forall₂_map_left_iff.2 (List.forall₂_same.2 fun _ _ => rfl)
  have hcall : ∀ ys i, ys = xs.drop i →
      (apply d f [Value.suffix k t xs.length ys]).Yields fun y => B y (p (as.drop i)) ∧
        (apply d f [Value.suffix k t xs.length (xs.drop i)]).CanAnswer y := by
    intro ys i hys
    rw [hys]
    have hsuffix : (Holder.seq k).lift E A (Value.suffix k t xs.length (xs.drop i)) (as.drop i) :=
      ⟨_, _, rfl, List.forall₂_drop i hxs⟩
    exact (func_apply hf hsuffix hdepth).answered
  exact concludes_bind (concludes_mapM hsuffixes hcall) fun ys hys =>
    concludes_pure ⟨ys, rfl, hys⟩

/-- Extending a holder stands for extending what it stands for. -/
theorem yields_extend {f w : Value} {p : H.Meaning δ α → β} {s : H.Meaning δ α}
    (hf : func n (H.lift E A) B f p) (hw : H.lift E A w s) (hdepth : n < d) :
    (extend (apply d) f w).Yields (H.lift E B · (H.extend p s)) := by
  cases H with
  | seq k =>
    obtain ⟨t, xs, rfl, hxs⟩ := hw
    refine (yields_extend_seq hf hxs hdepth).mono fun v hv => ?_
    obtain ⟨ys, rfl, hys⟩ := hv
    refine ⟨_, ys, rfl, List.forall₂_map_right_iff.2 ?_⟩
    rw [← hxs.length_eq]
    exact hys.imp fun _ _ h => h.1
  | maybe =>
    cases s with
    | none =>
      cases hw
      exact concludes_pure rfl
    | some a =>
      obtain ⟨t, x, rfl, hx⟩ := hw
      have hself : Holder.maybe.lift E A (.just t x) (some a) := ⟨t, x, rfl, hx⟩
      exact concludes_bind (func_apply hf hself hdepth) fun y hy => concludes_pure ⟨_, y, rfl, hy⟩
  | either =>
    cases s with
    | inl e =>
      obtain ⟨t, x, rfl, hx⟩ := hw
      exact concludes_pure ⟨t, x, rfl, hx⟩
    | inr a =>
      obtain ⟨t, x, rfl, hx⟩ := hw
      have hself : Holder.either.lift E A (.right t x) (.inr a) := ⟨t, x, rfl, hx⟩
      exact concludes_bind (func_apply hf hself hdepth) fun y hy => concludes_pure ⟨_, y, rfl, hy⟩
  | identity =>
    obtain ⟨t, x, rfl, hx⟩ := hw
    have hself : Holder.identity.lift E A (.identity t x) s := ⟨t, x, rfl, hx⟩
    exact concludes_bind (func_apply hf hself hdepth) fun y hy => concludes_pure ⟨_, y, rfl, hy⟩

/-- One function on containers after the extension of another. -/
theorem func_extendThen {f g : Value} {p : H.Meaning δ β → γ} {q : H.Meaning δ α → β}
    (hf : func n (H.lift E B) C f p) (hg : func n (H.lift E A) B g q) :
    func (n + 1) (H.lift E A) C (.function (.extendThen f g)) fun s => p (H.extend q s) :=
  func_term fun _ _ hw _ hd => concludes_bind (yields_extend hg hw hd) fun _ hv =>
    func_apply hf hv hd

/-- The associativity law weighs extending twice against extending once. -/
theorem weighs_extendAssociativity {w f g : Value} {p : H.Meaning δ β → γ}
    {q : H.Meaning δ α → β} {s : H.Meaning δ α} (hw : H.lift E A w s)
    (hf : func n (H.lift E B) C f p) (hg : func n (H.lift E A) B g q) (hdepth : n + 1 < d) :
    (Law.extendAssociativity.run (apply d) [w, f, g]).Weighs (apply d)
      (H.lift E C · (H.extend p (H.extend q s))) := by
  refine weighs_bind (yields_extend hg hw (by omega)) fun v hv => ?_
  refine weighs_bind (yields_extend hf hv (by omega)) fun l hl => ?_
  have hthen := yields_extend (func_extendThen hf hg) hw hdepth
  rw [← Holder.extend_extend] at hthen
  exact weighs_bind hthen fun r hr => weighs_equals hl hr

end Extend

/-! ## The law -/

section Laws

variable {E : Reading δ} {A : Reading α} {B : Reading β} {C : Reading γ}

/-- For values as a program can hold them, the law of extending holds of each holder just where the
contents of both sides, which stand for the same, are equal place by place; and an extended sequence
is one of its kind and length, in which each element is what the function answers about the suffix
from its place on. -/
theorem extend_laws (H : Holder) (hE : E.OfProper) (hC : C.OfProper) (n d : Nat)
    (hdepth : n + 1 < d) :
    let call := apply d
    let agree := fun w => H.Related (Value.Equal call w) (Value.Equal call w)
    (∀ w s f (p : H.Meaning δ β → γ) g (q : H.Meaning δ α → β), H.lift E A w s →
      func n (H.lift E B) C f p → func n (H.lift E A) B g q →
      (Law.extendAssociativity.run call [w, f, g]).Balances call (H.lift E C)
        (H.extend p (H.extend q s)) agree) ∧
    ∀ k t xs (as : List α) f (p : List α → γ), xs.Forall₂ A as →
      func n ((Holder.seq k).lift E A) C f p →
      (extend call f (.seq k t xs)).Yields (fun v => ∃ ys, v = .seq k .fresh ys ∧
        ys.length = xs.length ∧ ∀ i y, ys[i]? = some y → C y (p (as.drop i)) ∧
          (call f [Value.suffix k t xs.length (xs.drop i)]).CanAnswer y) ∧
      ∀ i u, (extend call f (.seq k u (xs.drop i))).Yields
        ((Holder.seq k).lift E C · ((extendList p as).drop i)) := by
  intro call agree
  refine ⟨?_, ?_⟩
  · intro w s f p g q hw hf hg
    have hsides : (H.lift E C).Verified call agree := (hE.verified call).holder (hC.verified call) H
    exact (weighs_extendAssociativity hw hf hg hdepth).balances hsides
  · intro k t xs as f p hxs hf
    refine ⟨?_, fun i u => ?_⟩
    · refine (yields_extend_seq hf hxs (by omega)).mono fun v hv => ?_
      obtain ⟨ys, rfl, hys⟩ := hv
      have hlength : ys.length = xs.length := by rw [hys.length_eq, List.length_range]
      refine ⟨ys, rfl, hlength, fun i y hy => ?_⟩
      obtain ⟨hi, rfl⟩ := List.getElem?_eq_some_iff.1 hy
      have hplace := hys.get hi (by rw [List.length_range]; omega)
      simpa using hplace
    · have hsuffix : (Holder.seq k).lift E A (.seq k u (xs.drop i)) (as.drop i) :=
        ⟨_, _, rfl, List.forall₂_drop i hxs⟩
      rw [drop_extendList]
      exact yields_extend hf hsuffix (by omega)

/-- The length of a sequence. -/
theorem func_length (k : SeqKind) : func 0 ((Holder.seq k).lift E A) integer
    (.function (.primitive .length)) fun as : List α => (as.length : Int) := by
  refine func_term fun w as hw _ _ => ?_
  obtain ⟨t, xs, rfl, hxs⟩ := hw
  rw [← hxs.length_eq]
  exact concludes_pure ⟨_, rfl⟩

theorem extend_laws_tuple :
    let call := apply 2
    let len : Value := .function (.primitive .length)
    let w : Value := .tuple [.int 7, .int 8]
    ((Law.extendAssociativity.run call [w, len, len]).outcome .initial).1 = .ok (.bool true) ∧
      (extend call len w).Yields (fun v => ∃ ys, v = .seq .tuple .fresh ys ∧ ys.length = 2 ∧
        ∀ i y, ys[i]? = some y → integer y ([7, 8].drop i : List Int).length ∧
          (call len [Value.suffix .tuple .fresh 2 ([.int 7, .int 8].drop i)]).CanAnswer y) ∧
      (extend call len (.tuple [.int 8])).Yields
        ((Holder.seq .tuple).lift integer integer · ([1] : List Int)) := by
  intro call len w
  have hint (n : Int) : integer (.int n) n := ⟨_, rfl⟩
  have hxs : [Value.int 7, .int 8].Forall₂ integer.denotes [7, 8] :=
    .cons (hint 7) (.cons (hint 8) .nil)
  have hlen : func 0 ((Holder.seq .tuple).lift integer integer) integer len
      fun as : List Int => (as.length : Int) := func_length .tuple
  have hwithin : ∀ w : World, w.Untouched → ((Holder.seq .tuple).lift integer integer).Within
      ((Holder.seq .tuple).Related (Value.Equal call w) (Value.Equal call w)) :=
    fun w _ => (integer_within _ w).holder (integer_within _ w) _
  obtain ⟨hlaw, hsuffixes⟩ := extend_laws (E := integer) (A := integer) (B := integer)
    (C := integer) (.seq .tuple) integer_ofProper integer_ofProper 0 2 (by decide)
  obtain ⟨hwhole, hrest⟩ := hsuffixes .tuple .fresh _ _ len _ hxs hlen
  refine ⟨?_, hwhole, hrest 1 .fresh⟩
  exact (hlaw w [7, 8] len _ len _ ⟨_, _, rfl, hxs⟩ hlen hlen).holds hwithin rfl

/-- A failure is passed on as it is, and a moment that its offset shifts out of the calendar cannot
be compared with itself. -/
theorem extend_firstHour_overflows :
    ((Law.extendAssociativity.run applyFunction [.left .fresh Value.firstHour, .function .echo,
      .function .echo]).outcome .initial).1 = .error .overflow := rfl

end Laws

end CheckedCalls
