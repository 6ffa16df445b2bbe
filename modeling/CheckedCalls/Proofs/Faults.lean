import CheckedCalls.Algebra.Semigroup
import CheckedCalls.Proofs.Data
import CheckedCalls.Proofs.Outcome

/-!
# Operations that are always found

Comparing, combining and choosing fail where there is no operation for values of the given kinds.
`Run.Dispatches` says of a run that it never fails so, and that it changes nothing. The two
equalities of data and the merging of dictionaries of data are such runs: whatever the kinds of two
values are, they can be told apart.
-/

namespace CheckedCalls

variable {α β : Type}

/-- There was no operation for values of the given kinds. -/
def Fault.isDispatch : Fault → Bool
  | .notComparable _ _ | .notConcatenable _ _ | .notMember _ _ => true
  | _ => false

namespace Run

/-! ## Runs that find their operations -/

/-- The run fails in a world for want of an operation. -/
def Refuses (r : Run α) (w : World) : Prop :=
  ∃ f, (r.outcome w).1 = .error f ∧ f.isDispatch = true

/-- Each answer of the run has the property, and where the run fails, it is not for want of an
operation. Either way the run leaves the world as it is. -/
def Dispatches (r : Run α) (P : α → Prop) : Prop :=
  ∀ w, (r.outcome w).2 = w ∧ match (r.outcome w).1 with
    | .ok a => P a
    | .error f => f.isDispatch = false

theorem not_refuses_pure (a : α) (w : World) : ¬(pure a : Run α).Refuses w := by
  rintro ⟨f, hf, -⟩
  cases hf

/-- A run that fails at once refuses exactly with a fault of dispatch. -/
theorem refuses_throw {f : Fault} (w : World) :
    (throw f : Run α).Refuses w ↔ f.isDispatch = true := by
  constructor
  · rintro ⟨_, ⟨⟩, h⟩
    exact h
  · intro h
    exact ⟨f, rfl, h⟩

/-- What is made of an answer cannot fail. -/
theorem refuses_bind_pure {r : Run α} {f : α → β} {w : World} :
    Refuses (do return f (← r)) w ↔ r.Refuses w := by
  simp only [Refuses, outcome_bind]
  rcases r.outcome w with ⟨e | a, w'⟩ <;> simp

namespace Dispatches

variable {r : Run α} {f : α → Run β} {P : α → Prop} {Q : β → Prop}

theorem pure {a : α} (h : P a) : Dispatches (Pure.pure a) P := fun _ => ⟨rfl, h⟩

theorem throw {f : Fault} (h : f.isDispatch = false) : Dispatches (throw f : Run α) P :=
  fun _ => ⟨rfl, h⟩

/-- Two runs in sequence dispatch if each does. -/
theorem bind (hr : Dispatches r P) (hf : ∀ a, P a → Dispatches (f a) Q) :
    Dispatches (r >>= f) Q := by
  intro w
  have h := hr w
  rw [outcome_bind]
  rcases hout : r.outcome w with ⟨e | a, w'⟩
  · rw [hout] at h
    exact h
  · rw [hout] at h
    obtain ⟨rfl, ha⟩ := h
    exact hf a ha w'

/-- A rescue dispatches if both of its runs do. -/
theorem rescue {other : Run α} {test : Fault → Bool} (hr : Dispatches r P)
    (hother : Dispatches other P) : Dispatches (r.rescue test other) P := by
  intro w
  have h := hr w
  rw [outcome_rescue]
  rcases hout : r.outcome w with ⟨e | a, w'⟩
  · rw [hout] at h
    dsimp only
    by_cases htest : test e = true
    · simp only [htest, if_true]
      obtain ⟨rfl, -⟩ := h
      exact hother w'
    · simp only [htest]
      exact h
  · rw [hout] at h
    exact h

/-- A run that dispatches is never refused. -/
theorem not_refuses (hr : Dispatches r P) (w : World) : ¬r.Refuses w := by
  rintro ⟨f, hf, hdispatch⟩
  have h := (hr w).2
  rw [hf] at h
  cases hdispatch.symm.trans h

end Dispatches

/-- The run answers a truth value and finds its operations. -/
def Decides (r : Run Value) : Prop := r.Dispatches fun v => ∃ b, v = .bool b

theorem decides_answer (b : Bool) : Decides (answer b) := .pure ⟨b, rfl⟩

theorem Decides.truth {r : Run Value} (call : Apply) (hr : r.Decides) :
    Dispatches (do (← r).truth call) fun _ => True := by
  apply hr.bind
  rintro v ⟨b, rfl⟩
  exact .pure trivial

/-- A decision and what hangs on its truth dispatch together. -/
theorem Decides.truth_bind {r : Run Value} {f : Bool → Run β} {Q : β → Prop} (call : Apply)
    (hr : r.Decides) (hf : ∀ b, (f b).Dispatches Q) :
    Dispatches (do f (← (← r).truth call)) Q := by
  apply hr.bind
  rintro v ⟨b, rfl⟩
  exact hf b

end Run

open Run

/-! ## Hash keys -/

theorem dispatches_instant (m : Moment) : m.instant.Dispatches fun _ => True := by
  rw [Moment.instant]
  cases m.instant? with
  | some i => exact .pure trivial
  | none => exact .throw rfl

namespace Value

mutual

/-- No hash key of data is refused by dispatch. -/
theorem dispatches_hashKey (call : Apply) : ∀ {v : Value}, v.isData = true →
    (v.hashKey call).Dispatches fun _ => True
  | .seq k t xs, hv => by
    cases k with
    | tuple => exact (dispatches_hashKeys call hv).bind fun _ _ => .pure trivial
    | list => exact .throw rfl
  -- a variant whose content has no key is keyed by its name alone
  | .just t v, hv | .left t v, hv | .right t v, hv => by
    rw [hashKey, HashKey.ofVariant]
    split
    · exact .pure trivial
    · refine .rescue ?_ (.pure trivial)
      exact (dispatches_hashKey call (v := v) hv).bind fun _ _ => .pure trivial
  | .dict t es, _ => .throw rfl
  | .null, _ | .bool _, _ | .number _ _, _ | .complex _ _ _, _ | .text _ _, _ | .bytes _ _, _ =>
    .pure trivial
  | .date _ _, _ | .moment _ _, _ | .pattern _, _ | .nothing, _ | .func _ _, _ => .pure trivial

/-- No hash key of a list of data is refused by dispatch. -/
theorem dispatches_hashKeys (call : Apply) : ∀ {vs : List Value}, areData vs = true →
    (hashKeys call vs).Dispatches fun _ => True
  | [], _ => .pure trivial
  | v :: vs, h => by
    rw [areData, Bool.and_eq_true] at h
    exact (dispatches_hashKey call h.1).bind fun _ _ =>
      (dispatches_hashKeys call h.2).bind fun _ _ => .pure trivial

end

theorem dispatches_hashesAgree (call : Apply) {x y : Value} (hx : x.isData = true)
    (hy : y.isData = true) : (x.hashesAgree call y).Dispatches fun _ => True :=
  (dispatches_hashKey call hx).bind fun _ _ =>
    (dispatches_hashKey call hy).bind fun _ _ => .pure trivial

/-! ## Keys -/

section Keys

variable {call : Apply} {key : Value} {sameAsKey : Value → Run Value}

/-- Keys of data are matched without a refusal. -/
theorem dispatches_keyMatches (hkey : key.isData = true)
    (hsame : ∀ other, other.isData = true → (sameAsKey other).Decides) {other : Value}
    (hother : other.isData = true) :
    (keyMatches call key sameAsKey other).Dispatches fun _ => True := by
  rw [keyMatches]
  split
  · exact .pure trivial
  · refine (dispatches_hashesAgree call hkey hother).bind fun agree _ => ?_
    cases agree with
    | true => exact (hsame other hother).truth call
    | false => exact .pure trivial

/-- Looking a key up in a dictionary of data finds data, if the key can be told from other data. -/
theorem dispatches_findKey {es : List (Value × Value)} (hkey : key.isData = true)
    (hes : areDataEntries es = true)
    (hsame : ∀ other, other.isData = true → (sameAsKey other).Decides) :
    (findEntry (keyMatches call key sameAsKey) es).Dispatches
      fun w? => ∀ w, w? = some w → w.isData = true := by
  induction es with
  | nil => exact .pure (by simp)
  | cons e es ih =>
    rw [areDataEntries, Bool.and_eq_true, Bool.and_eq_true] at hes
    rw [findEntry]
    refine (dispatches_keyMatches hkey hsame hes.1.1).bind fun found _ => ?_
    cases found with
    | true =>
      refine .pure ?_
      rintro _ ⟨⟩
      exact hes.1.2
    | false => exact ih hes.2

end Keys

/-! ## The two equalities -/

/-- A variant made by the library compares itself by what it holds, and data does not take the
comparison over. -/
theorem decides_variantSame (call : Apply) (b : Base) (self : Value) {held : Value → Run Value}
    (hheld : ∀ w, w.isData = true → (held w).Decides) {other : Value}
    (hother : other.isData = true) : (variantSame call b self held other).Decides := by
  rw [variantSame]
  rcases h : other.heldBy? b with _ | w
  · exact decides_answer false
  -- what data holds is data
  have hw : w.isData = true := by
    rw [heldBy?] at h
    split at h
    · cases other with
      | just | left | right =>
        cases h
        exact hother
      | identity | object => cases hother
      | _ => cases h
    · cases h
  cases other with
  | object => cases hother
  | _ => exact hheld w hw

/-- Numeric values are natively equal if they denote one point; no other data knows better. -/
theorem decides_samePoint (call : Apply) (x : Value) {y : Value} (hy : y.isData = true) :
    Decides (if samePoint x y then answer true else reflected call x none y) := by
  split
  · exact decides_answer true
  · cases y with
    | object => cases hy
    | _ => exact decides_answer false

mutual

/-- Equality of data is decided without a refusal. -/
theorem decides_equals (call : Apply) : ∀ {x y : Value}, x.isData = true → y.isData = true →
    (equals call x y).Decides
  | .seq k t xs, y, hx, hy => by
    cases y with
    | seq l u ys =>
      rw [equals]
      split
      · exact (dispatches_equalsAll call hx hy).bind fun _ _ => decides_answer _
      · exact decides_answer false
    | _ => exact decides_answer false
  | .dict t xs, y, hx, hy => by
    cases y with
    | dict u ys =>
      rw [equals]
      split
      · refine (dispatches_keysWithin call hx hy).bind fun within _ => ?_
        cases within with
        | true => exact (dispatches_equalsEntries call hx hy).bind fun _ _ => decides_answer _
        | false => exact decides_answer false
      · exact decides_answer false
    | _ => exact decides_answer false
  | .just t v, y, hx, hy => by
    cases y with
    | just u w => exact decides_equals call (x := v) (y := w) hx hy
    | _ => exact decides_answer false
  | .left t v, y, hx, hy => by
    cases y with
    | left u w => exact decides_equals call (x := v) (y := w) hx hy
    | _ => exact decides_answer false
  | .right t v, y, hx, hy => by
    cases y with
    | right u w => exact decides_equals call (x := v) (y := w) hx hy
    | _ => exact decides_answer false
  -- an instant outside the calendar is a failure, but not one of kinds
  | .date t d, y, _, _ => by
    cases y with
    | moment u n => exact (dispatches_instant n).bind fun _ _ => decides_answer _
    | _ => exact decides_answer _
  | .moment t m, y, _, _ => by
    cases y with
    | date u d => exact (dispatches_instant m).bind fun _ _ => decides_answer _
    | moment u n =>
      exact (dispatches_instant m).bind fun _ _ =>
        (dispatches_instant n).bind fun _ _ => decides_answer _
    | _ => exact decides_answer _
  | .null, y, _, _ | .bool _, y, _, _ | .number _ _, y, _, _ | .complex _ _ _, y, _, _ => by
    cases y <;> exact decides_answer _
  | .text _ _, y, _, _ | .bytes _ _, y, _, _ | .pattern _, y, _, _ | .nothing, y, _, _
  | .func _ _, y, _, _ => by cases y <;> exact decides_answer _

/-- Equality of lists of data is decided without a refusal. -/
theorem dispatches_equalsAll (call : Apply) : ∀ {xs ys : List Value}, areData xs = true →
    areData ys = true → (equalsAll call xs ys).Dispatches fun _ => True
  | [], ys, _, _ => by cases ys <;> exact .pure trivial
  | _ :: _, [], _, _ => .pure trivial
  | x :: xs, y :: ys, hx, hy => by
    rw [areData, Bool.and_eq_true] at hx hy
    rw [equalsAll]
    refine (decides_equals call hx.1 hy.1).truth_bind call fun b => ?_
    cases b with
    | true => exact dispatches_equalsAll call hx.2 hy.2
    | false => exact .pure trivial

/-- Equality of the entries of dicts of data is decided without a refusal. -/
theorem dispatches_equalsEntries (call : Apply) : ∀ {xs ys : List (Value × Value)},
    areDataEntries xs = true → areDataEntries ys = true →
      (equalsEntries call xs ys).Dispatches fun _ => True
  | [], _, _, _ => .pure trivial
  | (k, v) :: es, ys, hx, hy => by
    rw [areDataEntries, Bool.and_eq_true, Bool.and_eq_true] at hx
    rw [equalsEntries]
    refine (dispatches_findKey hx.1.1 hy fun other hother =>
      decides_same call hx.1.1 hother).bind fun w? hw? => ?_
    cases w? with
    | none => exact .pure trivial
    | some w =>
      refine (decides_equals call hx.1.2 (hw? w rfl)).truth_bind call fun b => ?_
      cases b with
      | true => exact dispatches_equalsEntries call hx.2 hy
      | false => exact .pure trivial

/-- Sameness of data is decided without a refusal. -/
theorem decides_same (call : Apply) : ∀ {x y : Value}, x.isData = true → y.isData = true →
    (same call x y).Decides
  | .seq k t xs, y, hx, hy => by
    cases y with
    | seq l u ys =>
      rw [same]
      split
      · exact (dispatches_sameAll call hx hy).bind fun _ _ => decides_answer _
      · exact decides_answer false
    | _ => exact decides_samePoint call (.seq k t xs) hy
  | .dict t xs, y, hx, hy => by
    cases y with
    | dict u ys =>
      rw [same]
      split
      · exact (dispatches_sameEntries call hx hy).bind fun _ _ => decides_answer _
      · exact decides_answer false
    | _ => exact decides_samePoint call (.dict t xs) hy
  -- variants hand over to the other equality
  | .just t v, y, hx, hy =>
    decides_variantSame call .just (.just t v) (fun _ hw => decides_equals call (x := v) hx hw) hy
  | .left t v, y, hx, hy =>
    decides_variantSame call .left (.left t v) (fun _ hw => decides_equals call (x := v) hx hw) hy
  | .right t v, y, hx, hy =>
    decides_variantSame call .right (.right t v) (fun _ hw => decides_equals call (x := v) hx hw) hy
  | .nothing, y, _, _ => decides_answer _
  | .null, y, _, hy | .text _ _, y, _, hy | .bytes _ _, y, _, hy | .date _ _, y, _, hy
  | .moment _ _, y, _, hy | .pattern _, y, _, hy | .func _ _, y, _, hy => by
    cases y <;> first | exact decides_answer _ | exact decides_samePoint call _ hy
  -- numeric values of all kinds are compared on the complex plane
  | .bool b, y, _, hy => decides_samePoint call (.bool b) hy
  | .number t n, y, _, hy => decides_samePoint call (.number t n) hy
  | .complex t re im, y, _, hy => decides_samePoint call (.complex t re im) hy

/-- Sameness of lists of data is decided without a refusal. -/
theorem dispatches_sameAll (call : Apply) : ∀ {xs ys : List Value}, areData xs = true →
    areData ys = true → (sameAll call xs ys).Dispatches fun _ => True
  | [], ys, _, _ => by cases ys <;> exact .pure trivial
  | _ :: _, [], _, _ => .pure trivial
  | x :: xs, y :: ys, hx, hy => by
    rw [areData, Bool.and_eq_true] at hx hy
    rw [sameAll]
    split
    · exact dispatches_sameAll call hx.2 hy.2
    refine (decides_same call hx.1 hy.1).truth_bind call fun b => ?_
    cases b with
    | true => exact dispatches_sameAll call hx.2 hy.2
    | false => exact .pure trivial

/-- Sameness of the entries of dicts of data is decided without a refusal. -/
theorem dispatches_sameEntries (call : Apply) : ∀ {xs ys : List (Value × Value)},
    areDataEntries xs = true → areDataEntries ys = true →
      (sameEntries call xs ys).Dispatches fun _ => True
  | [], _, _, _ => .pure trivial
  | (k, v) :: es, ys, hx, hy => by
    rw [areDataEntries, Bool.and_eq_true, Bool.and_eq_true] at hx
    rw [sameEntries]
    refine (dispatches_findKey hx.1.1 hy fun other hother =>
      decides_same call hx.1.1 hother).bind fun w? hw? => ?_
    cases w? with
    | none => exact .pure trivial
    | some w =>
      dsimp only
      split
      · exact dispatches_sameEntries call hx.2 hy
      refine (decides_same call hx.1.2 (hw? w rfl)).truth_bind call fun b => ?_
      cases b with
      | true => exact dispatches_sameEntries call hx.2 hy
      | false => exact .pure trivial

/-- Whether the keys of one dict lie within another is decided without a refusal. -/
theorem dispatches_keysWithin (call : Apply) : ∀ {xs ys : List (Value × Value)},
    areDataEntries xs = true → areDataEntries ys = true →
      (keysWithin call xs ys).Dispatches fun _ => True
  | [], _, _, _ => .pure trivial
  | (k, v) :: es, ys, hx, hy => by
    rw [areDataEntries, Bool.and_eq_true, Bool.and_eq_true] at hx
    rw [keysWithin]
    refine (dispatches_findKey hx.1.1 hy fun other hother =>
      decides_same call hx.1.1 hother).bind fun w? _ => ?_
    cases w? with
    | none => exact .pure trivial
    | some w => exact dispatches_keysWithin call hx.2 hy

end

/-! ## Merging -/

/-- An entry of data is set in a dict of data without a refusal, and the dict stays data. -/
theorem dispatches_setEntry (call : Apply) {key v : Value} (hkey : key.isData = true)
    (hv : v.isData = true) {es : List (Value × Value)} (hes : areDataEntries es = true) :
    (setEntry call key v es).Dispatches fun es' => areDataEntries es' = true := by
  induction es with
  | nil => exact .pure (by simp [areDataEntries, hkey, hv])
  | cons e es ih =>
    rw [areDataEntries, Bool.and_eq_true, Bool.and_eq_true] at hes
    rw [setEntry]
    refine (dispatches_keyMatches hkey (fun other hother => decides_same call hkey hother)
      hes.1.1).bind fun found _ => ?_
    cases found with
    | true => exact .pure (by simp [areDataEntries, hes, hv])
    | false =>
      refine (ih hes.2).bind fun es' hes' => .pure ?_
      simp [areDataEntries, hes, hes']

/-- Merging dictionaries of data finds all its operations. -/
theorem dispatches_setEntries (call : Apply) {es rest : List (Value × Value)}
    (hes : areDataEntries es = true) (hrest : areDataEntries rest = true) :
    (setEntries call es rest).Dispatches fun _ => True := by
  induction rest generalizing es with
  | nil => exact .pure trivial
  | cons e rest ih =>
    rw [areDataEntries, Bool.and_eq_true, Bool.and_eq_true] at hrest
    rw [setEntries]
    refine (dispatches_hashKey call hrest.1.1).bind fun _ _ => ?_
    exact (dispatches_setEntry call hrest.1.1 hrest.1.2 hes).bind fun es' hes' => ih hes' hrest.2

end Value

end CheckedCalls
