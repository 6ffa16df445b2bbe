import CheckedCalls.Proofs.Dictionary

/-!
# Values compared with themselves

A value of which each part is one object with itself is equal to itself, unless a comparison comes
to a moment that its offset shifts out of the calendar: then it overflows. Moments in the keys of
dictionaries do no harm, since keys are found and not compared by law.
-/

namespace CheckedCalls

open Run

/-- A number is equal to itself, also one that is not a number. -/
theorem Number.equals_self (n : Number) : n.equals n = true :=
  Number.equals_iff.2 ⟨rfl, fun _ => rfl⟩

namespace Value

/-! ## Moments that are compared -/

mutual

/-- Each moment in the value has an instant, but for those in the keys of dictionaries. -/
def isTimely : Value → Bool
  | .moment _ m => m.instant?.isSome
  | .seq _ _ xs => areTimely xs
  | .dict _ es => areTimelyEntries es
  | .just _ v | .left _ v | .right _ v | .identity _ v | .object _ (.composed _ _ _ _) v =>
    isTimely v
  | _ => true

/-- All the values are timely. -/
def areTimely : List Value → Bool
  | [] => true
  | x :: xs => isTimely x && areTimely xs

/-- The values of all entries are timely. -/
def areTimelyEntries : List (Value × Value) → Bool
  | [] => true
  | (_, v) :: es => isTimely v && areTimelyEntries es

end

/-! ## Parts that are objects -/

/-- Values that are compared without a look at others that they hold. -/
def isScalar : Value → Bool
  | .seq _ _ _ | .dict _ _ | .just _ _ | .left _ _ | .right _ _ | .identity _ _ => false
  | .object _ c _ => !c.layers.isMember .setoid
  | _ => true

/-- Values whose scalars are objects and whose dictionaries have keys that are found under
themselves only. Instances of classes with an equality of their own are not among them. -/
inductive Lasting (call : Apply) (w : World) : Value → Prop
  | scalar {v : Value} (hv : v.isScalar = true) (hself : v.identical v = true) : Lasting call w v
  | seq {k : SeqKind} {t : Tag} {xs : List Value} (hxs : ∀ x ∈ xs, Lasting call w x) :
    Lasting call w (.seq k t xs)
  | dict {t : Tag} {es : List (Value × Value)} (hkeys : Distinct call w (es.map Prod.fst))
    (hvalues : ∀ e ∈ es, Lasting call w e.2) : Lasting call w (.dict t es)
  | just {t : Tag} {v : Value} (hv : Lasting call w v) : Lasting call w (.just t v)
  | left {t : Tag} {v : Value} (hv : Lasting call w v) : Lasting call w (.left t v)
  | right {t : Tag} {v : Value} (hv : Lasting call w v) : Lasting call w (.right t v)
  | identity {t : Tag} {v : Value} (hv : Lasting call w v) : Lasting call w (.identity t v)
  | composed {t s : Tag} {name : String} {outer inner v : Value} (hs : s.same s = true)
    (hv : Lasting call w v) : Lasting call w (.object t (.composed s name outer inner) v)

/-! ## Comparisons of a value with itself -/

section Self

variable {call : Apply} {w : World} {xs : List Value} {es fs : List (Value × Value)}

/-- The value is equal to itself, or the comparison overflows where it comes to a moment without an
instant. -/
def EqualsItself (call : Apply) (w : World) (x : Value) : Prop :=
  (equals call x x).OverflowsIf w (x.isTimely = false) (· = .bool true)

/-- A scalar that is identical to itself equals itself. -/
theorem equalsItself_scalar {v : Value} (hv : v.isScalar = true) (hself : v.identical v = true) :
    EqualsItself call w v := by
  have hanswer {b : Bool} (hb : b = true) (htimely : v.isTimely = true)
      (hv : equals call v v = Run.answer b) : EqualsItself call w v := by
    rw [EqualsItself, hv, hb]
    exact .inl ⟨by simp [htimely], _, rfl, rfl⟩
  cases v with
  | seq | dict | just | left | right | identity => cases hv
  | moment t m =>
    rw [EqualsItself, equals, Moment.instant, isTimely]
    cases m.instant? with
    | some i => exact .inl ⟨by simp, _, rfl, congrArg Value.bool (beq_self_eq_true i)⟩
    | none => exact .inr ⟨rfl, rfl⟩
  | object t c v =>
    have hsetoid : ¬c.layers.isMember .setoid = true := by simpa [isScalar] using hv
    cases c with
    | composed => cases hv
    | declared u n ls =>
      have heq : equals call (.object t (.declared u n ls) v) (.object t (.declared u n ls) v) =
          Run.answer (t.same t) := by
        rw [equals, if_neg hsetoid]
        intro _ _ _ _ h
        cases h
      exact hanswer hself rfl heq
  | number t n => exact hanswer n.equals_self rfl (by rw [equals])
  | complex t re im =>
    have hsame : t.same t = true := hself
    exact hanswer (Bool.or_eq_true_iff.2 (.inl hsame)) rfl (by rw [equals])
  | func t f =>
    exact hanswer (Bool.or_eq_true_iff.2 (.inl hself)) rfl (by rw [equals, sameFunc])
  | type r => exact hanswer (b := r.same r) hself rfl (by rw [equals])
  | plain t | error t k m => exact hanswer (b := t.same t) hself rfl (by rw [equals])
  | null | nothing => exact hanswer rfl rfl (by rw [equals])
  | bool | text | bytes | date | pattern => exact hanswer (beq_self_eq_true _) rfl (by rw [equals])

/-- A run goes on after a part that is equal to itself. -/
theorem EqualsItself.and {x : Value} {next : Run Bool} {P : Prop} (hx : EqualsItself call w x)
    (hnext : next.OverflowsIf w P (· = true)) :
    OverflowsIf (do if ← (← equals call x x).truth call then next else return false) w
      (x.isTimely = false ∨ P) (· = true) := by
  rcases hx with ⟨hP, _, hx, rfl⟩ | ⟨hP, hx⟩
  · exact (hx.overflowsIf_bind hnext).congr (or_iff_right hP).symm
  · refine .inr ⟨.inl hP, ?_⟩
    rw [Overflows, outcome_bind, hx]

theorem overflowsIf_equalsAll (hxs : ∀ x ∈ xs, EqualsItself call w x) :
    (equalsAll call xs xs).OverflowsIf w (areTimely xs = false) (· = true) := by
  induction xs with
  | nil => exact .inl ⟨by simp [areTimely], true, rfl, rfl⟩
  | cons x xs ih =>
    rw [List.forall_mem_cons] at hxs
    rw [equalsAll]
    exact (hxs.1.and (ih hxs.2)).congr (by rw [areTimely, Bool.and_eq_false_iff])

/-- Equality of entries with themselves overflows exactly if a moment in them does. -/
theorem overflowsIf_equalsEntries (hkeys : Distinct call w (fs.map Prod.fst))
    (hes : ∀ e ∈ es, e ∈ fs ∧ EqualsItself call w e.2) :
    (equalsEntries call es fs).OverflowsIf w (areTimelyEntries es = false) (· = true) := by
  induction es with
  | nil => exact .inl ⟨by simp [areTimelyEntries], true, rfl, rfl⟩
  | cons e es ih =>
    obtain ⟨⟨he, hvalue⟩, hes⟩ := List.forall_mem_cons.1 hes
    rw [equalsEntries]
    exact ((hkeys.findEntry he).overflowsIf_bind (hvalue.and (ih hes))).congr
      (by rw [areTimelyEntries, Bool.and_eq_false_iff])

/-- Sequences of the same parts are equal to each other as their parts are to themselves. -/
theorem overflowsIf_equals_sameElements (k : SeqKind) (s t : Tag)
    (hxs : ∀ x ∈ xs, EqualsItself call w x) :
    (equals call (.seq k s xs) (.seq k t xs)).OverflowsIf w (areTimely xs = false)
      (· = .bool true) := by
  rw [equals, if_pos ⟨rfl, rfl⟩]
  exact (overflowsIf_equalsAll hxs).bind_pure fun b hb => congrArg Value.bool hb

theorem overflowsIf_equals_sameEntries (s t : Tag) (hkeys : Distinct call w (es.map Prod.fst))
    (hvalues : ∀ e ∈ es, EqualsItself call w e.2) :
    (equals call (.dict s es) (.dict t es)).OverflowsIf w (areTimelyEntries es = false)
      (· = .bool true) := by
  have hwithin := hkeys.keysWithin fun d hd => List.mem_map_of_mem hd
  have hentries := overflowsIf_equalsEntries hkeys fun e he => ⟨he, hvalues e he⟩
  rw [equals, if_pos rfl]
  exact hwithin.overflowsIf_bind (hentries.bind_pure fun b hb => congrArg Value.bool hb)

/-- A lasting value equals itself. -/
theorem Lasting.equalsItself {x : Value} (hx : Lasting call w x) : EqualsItself call w x := by
  induction hx with
  | scalar hv hself => exact equalsItself_scalar hv hself
  | seq _ ih => exact overflowsIf_equals_sameElements _ _ _ ih
  | dict hkeys _ ih => exact overflowsIf_equals_sameEntries _ _ hkeys ih
  | just _ ih | left _ ih | right _ ih | identity _ ih => exact ih
  | @composed t s name outer inner v hs _ ih =>
    let c := Class.composed s name outer inner
    have hmember : c.layers.isMember .setoid = true := rfl
    have hsame : c.same c = true := hs
    rw [EqualsItself, equals, if_pos hmember, if_pos hsame]
    exact ih

end Self

end Value

end CheckedCalls
