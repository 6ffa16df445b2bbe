import CheckedCalls.Proofs.Equivalence
import CheckedCalls.Proofs.Instants
import CheckedCalls.Proofs.Printing

/-!
# Equality and hashes

Variants and boxes of functors that are equal hash alike, unless they differ in a way that equality
does not see and the hash does. `HashApart` lists these ways, and `hashesAgree_iff_not_hashApart`
says that there are no others. A box of a functor is hashed by its text, so it has a hash only if
what it holds is written; `hashFault?` says what a value without a hash fails for.
-/

namespace CheckedCalls

namespace Value

/-! ## Values with a hash -/

mutual

/-- The cause for which a value has no hash, if it has none. What can change in place has none, a
tuple fails as the first of its elements without one, and a box of a functor is hashed by its text.
A variant does without the hash of what it holds if that is of a kind without hashes. -/
def hashFault? : Value → Option Fault
  | .seq .tuple _ xs => firstHashFault? xs
  | .seq .list _ _ | .dict _ _ => some .notHashable
  | .just _ v | .left _ v | .right _ v =>
    if v.isNaN then none else (hashFault? v).filter (!·.isKindError)
  | .identity _ v => unwritten? v.isWritten
  | _ => none

/-- The cause for which the first of the values without a hash has none. -/
def firstHashFault? : List Value → Option Fault
  | [] => none
  | x :: xs => (hashFault? x).or (firstHashFault? xs)

end

/-- The value can be hashed. -/
def isHashable (v : Value) : Bool := v.hashFault?.isNone

/-- All the values can be hashed. -/
def areHashable (xs : List Value) : Bool := (firstHashFault? xs).isNone

theorem areHashable_cons (x : Value) (xs : List Value) :
    areHashable (x :: xs) = (isHashable x && areHashable xs) := by
  simp [areHashable, isHashable, firstHashFault?]

mutual

/-- A value without a hash is of a kind without hashes, or it holds what is not written. -/
theorem hashFault?_eq_some : ∀ {v : Value} {f : Fault}, v.hashFault? = some f →
    f = .notHashable ∨ f = .badValue
  | .seq .tuple _ xs, _, h => firstHashFault?_eq_some (show firstHashFault? xs = _ from h)
  | .seq .list _ _, _, h | .dict _ _, _, h => .inl (Option.some.inj h).symm
  | .just _ v, _, h | .left _ v, _, h | .right _ v, _, h => by
    rw [hashFault?] at h
    split at h
    · cases h
    · exact hashFault?_eq_some (Option.filter_eq_some_iff.1 h).1
  | .identity _ v, _, h => by
    rw [hashFault?, unwritten?] at h
    split at h
    · cases h
    · exact .inr (Option.some.inj h).symm
  | .null, _, h | .bool _, _, h | .number _ _, _, h | .complex _ _ _, _, h | .text _ _, _, h
  | .bytes _ _, _, h | .date _ _, _, h | .moment _ _, _, h | .pattern _, _, h | .plain _, _, h
  | .nothing, _, h | .error _ _ _, _, h | .func _ _, _, h | .type _, _, h
  | .object _ _ _, _, h => by cases h

/-- A list has no hash since a value in it is not hashable, or is a bad value. -/
theorem firstHashFault?_eq_some : ∀ {xs : List Value} {f : Fault}, firstHashFault? xs = some f →
    f = .notHashable ∨ f = .badValue
  | [], _, h => by cases h
  | _ :: _, _, h => by
    rcases Option.or_eq_some_iff.1 h with h | ⟨-, h⟩
    · exact hashFault?_eq_some h
    · exact firstHashFault?_eq_some h

end

/-- At most the kind of a value is in the way of its hash. -/
def KindOnly (c : Option Fault) : Prop := ∀ f ∈ c, f.isKindError = true

theorem KindOnly.of_or {c d : Option Fault} (h : KindOnly (c.or d)) : KindOnly c := by
  cases c with
  | none => nofun
  | some f => exact h

/-- The value is a variant or a box of a functor. -/
def isBox : Value → Bool
  | .nothing | .just _ _ | .left _ _ | .right _ _ | .identity _ _ => true
  | _ => false

/-- Variants and boxes of functors fail only for what they hold. -/
theorem hashFault?_of_isBox {x : Value} (hbox : x.isBox = true) {f : Fault}
    (h : x.hashFault? = some f) : f = .badValue := by
  have hkind : f.isKindError = false := by
    cases x with
    | nothing => cases h
    | just | left | right =>
      rw [hashFault?] at h
      split at h
      · cases h
      · simpa using (Option.filter_eq_some_iff.1 h).2
    | identity =>
      rw [hashFault?, unwritten?] at h
      split at h <;> cases h
      rfl
    | _ => cases hbox
  rcases hashFault?_eq_some h with rfl | rfl
  · cases hkind
  · rfl

/-- A box that fails to hash by its kind only can be hashed. -/
theorem isHashable_of_isBox {x : Value} (hbox : x.isBox = true) (hkind : KindOnly x.hashFault?) :
    x.isHashable = true := by
  rw [isHashable, Option.isNone_iff_eq_none, Option.eq_none_iff_forall_ne_some]
  intro f hf
  cases hashFault?_of_isBox hbox hf
  cases hkind _ hf

section World

variable (call : Apply) (w : World)

mutual

/-- The values hash apart although they may be equal: a day and a moment, moments of which only one
has a zone, two objects that are not a number, unless they are held directly by the variants, and
boxes of functors whose contents are written differently. -/
def HashApart : Value → Value → Prop
  | .number s m, .number t _ => m.isNaN = true ∧ s.same t = false
  | .date _ _, .moment _ _ => True
  | .moment _ _, .date _ _ => True
  | .moment _ m, .moment _ n => m.offset.isSome ≠ n.offset.isSome
  | .seq _ _ xs, .seq _ _ ys => AnyHashApart xs ys
  | .just _ v, .just _ u => v.isHashable = true ∧ v.isNaN = false ∧ HashApart v u
  | .left _ v, .left _ u => v.isHashable = true ∧ v.isNaN = false ∧ HashApart v u
  | .right _ v, .right _ u => v.isHashable = true ∧ v.isNaN = false ∧ HashApart v u
  | .identity _ v, .identity _ u =>
    ∃ a b, (literal call v).Answers w a ∧ (literal call u).Answers w b ∧ a ≠ b
  | _, _ => False

/-- At some place the values hash apart. -/
def AnyHashApart : List Value → List Value → Prop
  | x :: xs, y :: ys => HashApart x y ∨ AnyHashApart xs ys
  | _, _ => False

end

end World

variable {call : Apply} {w : World} {store : Nat → Value} {x y v u : Value}

theorem areNativeEntries_iff {es : List (Value × Value)} :
    areNativeEntries es = true ↔ ∀ e ∈ es, e.1.isNative = true ∧ e.2.isNative = true := by
  induction es with
  | nil => simp [areNativeEntries]
  | cons e es ih => simp [areNativeEntries, ih]

/-- Sound values are native. -/
theorem Sound.isNative (hx : Sound call w store x) : x.isNative = true := by
  induction hx with
  | seq h hxs ih => exact areNative_iff.2 ih
  | dict h hkeys hvalues hhash hone ihk ihv =>
    exact areNativeEntries_iff.2 fun e he => ⟨ihk e he, ihv e he⟩
  | just h hv ih | left h hv ih | right h hv ih | identity h hv ih => exact ih
  | _ => rfl

section Variant

variable {name : String} {r : Run HashKey} {c : Option Fault} {f : Fault} {k : HashKey}

/-- The key of a variant is its name beside the key of what it holds. -/
theorem answers_ofVariant (hnan : v.isNaN = false) (hr : r.Answers w k) :
    (HashKey.ofVariant name v r).Answers w (.tuple [.text name, k]) := by
  have hkey : Run.Answers (do return HashKey.tuple [.text name, ← r]) w (.tuple [.text name, k]) :=
    hr.bind rfl
  rw [HashKey.ofVariant, hnan, Run.Answers, if_neg Bool.false_ne_true, Run.outcome_rescue, hkey]

/-- The key of a variant is its name alone if what it holds is of a kind without hashes. -/
theorem outcome_ofVariant (name : String) (hnan : v.isNaN = false)
    (hr : r.outcome w = (.error f, w)) :
    (HashKey.ofVariant name v r).outcome w =
      if f.isKindError then (.ok (.text name), w) else (.error f, w) := by
  rw [HashKey.ofVariant, hnan, if_neg Bool.false_ne_true, Run.outcome_rescue, Run.outcome_bind, hr]
  rfl

/-- A variant has a hash, unless what it holds fails for another cause than its kind. -/
theorem fares_ofVariant (name : String) (v : Value) (hr : r.Fares w c) :
    (HashKey.ofVariant name v r).Fares w
      (if v.isNaN then none else c.filter (!·.isKindError)) := by
  cases hnan : v.isNaN with
  | true => exact ⟨_, by rw [HashKey.ofVariant, hnan]; rfl⟩
  | false =>
    cases c with
    | none =>
      obtain ⟨k, hk⟩ := hr
      exact ⟨_, answers_ofVariant hnan hk⟩
    | some f =>
      have hout := outcome_ofVariant name hnan hr
      cases hkind : f.isKindError with
      | true =>
        rw [hkind] at hout
        rw [if_neg Bool.false_ne_true, Option.filter_some_neg (by simp [hkind])]
        exact ⟨_, hout⟩
      | false =>
        rw [hkind] at hout
        rw [if_neg Bool.false_ne_true, Option.filter_some_pos (by simp [hkind])]
        exact hout

/-- If a variant has a hash, what it holds has one or is of a kind without hashes. -/
theorem kindOnly_of_ofVariant (hr : r.Fares w c) (hnan : v.isNaN = false)
    (hk : (HashKey.ofVariant name v r).Answers w k) : KindOnly c := by
  have hnone := (fares_ofVariant name v hr).eq_none hk
  rw [hnan, if_neg Bool.false_ne_true, Option.filter_eq_none_iff] at hnone
  simpa [KindOnly] using hnone

end Variant

mutual

/-- A native value has a hash, unless there is a cause for which it has none. -/
theorem fares_hashKey (call : Apply) (hw : w.Untitled) : ∀ {v : Value}, v.isNative = true →
    (v.hashKey call).Fares w v.hashFault?
  | .seq .tuple _ xs, hv =>
    (fares_hashKeys call hw (show areNative xs = true from hv)).map HashKey.tuple
  | .seq .list _ _, _ | .dict _ _, _ => rfl
  | .just _ v, hv | .left _ v, hv | .right _ v, hv =>
    fares_ofVariant _ v (fares_hashKey call hw (v := v) hv)
  | .identity _ v, hv =>
    (fares_literal call hw (v := v) hv).map fun s => HashKey.tuple [.text "Identity", .text s]
  | .type (.builtin _), _ | .type (.declared _), _ => ⟨_, rfl⟩
  | .null, _ | .bool _, _ | .number _ _, _ | .complex _ _ _, _ | .text _ _, _ | .bytes _ _, _
  | .date _ _, _ | .moment _ _, _ | .pattern _, _ | .plain _, _ | .nothing, _ | .error _ _ _, _
  | .func _ _, _ => ⟨_, rfl⟩

/-- Native values have hashes, unless there is a cause for which one of them has none. -/
theorem fares_hashKeys (call : Apply) (hw : w.Untitled) : ∀ {xs : List Value},
    areNative xs = true → (hashKeys call xs).Fares w (firstHashFault? xs)
  | [], _ => ⟨[], rfl⟩
  | x :: xs, hxs => by
    rw [areNative, Bool.and_eq_true] at hxs
    exact (fares_hashKey call hw hxs.1).bind fun k _ => (fares_hashKeys call hw hxs.2).map (k :: ·)

end

theorem exists_hashKey (hw : w.Untitled) (hv : v.isNative = true) (h : v.isHashable = true) :
    ∃ k, (v.hashKey call).Answers w k := by
  have hkey := fares_hashKey call hw hv
  rwa [Option.isNone_iff_eq_none.1 h] at hkey

theorem exists_hashKeys (hw : w.Untitled) {xs : List Value} (hxs : areNative xs = true)
    (h : areHashable xs = true) : ∃ ks, (hashKeys call xs).Answers w ks := by
  have hkeys := fares_hashKeys call hw hxs
  rwa [Option.isNone_iff_eq_none.1 h] at hkeys

/-- The key of a variant is its name alone if what it holds cannot be hashed. -/
theorem ofVariant_unique (hw : w.Untitled) {name : String} {k : HashKey} (hv : v.isNative = true)
    (hnan : v.isNaN = false) (hhash : v.isHashable = false)
    (hk : (HashKey.ofVariant name v (v.hashKey call)).Answers w k) : k = .text name := by
  have hkey := fares_hashKey call hw hv
  have hkind := kindOnly_of_ofVariant hkey hnan hk
  rw [isHashable] at hhash
  cases hfault : v.hashFault? with
  | none => simp [hfault] at hhash
  | some f =>
    rw [hfault] at hkey hkind
    have hout := outcome_ofVariant name hnan hkey
    rw [hkind f rfl, if_pos rfl] at hout
    exact hk.unique hout

theorem isHashable_of_answers (hw : w.Untitled) (hv : v.isNative = true)
    (h : ∃ k, (v.hashKey call).Answers w k) : v.isHashable = true := by
  obtain ⟨k, hk⟩ := h
  exact Option.isNone_iff_eq_none.2 ((fares_hashKey call hw hv).eq_none hk)

/-! ## Equal values -/

theorem equal_iff (hx : Sound call w store x) (hy : Sound call w store y) : Equal call w x y ↔
    x.lawForm.Step (Equal call w) (Matches call w) (Equal call w) y.lawForm :=
  (equals_tells (settled call w store) id hx hy (fun _ => hx.mem_parts)
    fun _ => hy.mem_parts).answers_iff (by simp)

/-- Equal values are NaN or not alike. -/
theorem isNaN_eq_of_equal (hx : Sound call w store x) (hy : Sound call w store y)
    (h : Equal call w x y) : x.isNaN = y.isNaN := by
  rw [equal_iff hx hy] at h
  cases hx <;> cases hy <;> first | rfl | exact False.elim h | skip
  case number.number =>
    have hpoint := (Atom.number.inj (Form.atom.inj (congrArg Form.atom h))).1
    rw [isNaN, isNaN, Bool.eq_iff_iff, Number.isNaN_iff, Number.isNaN_iff, hpoint]
  all_goals cases h

/-- Equal values both have hashes or both have none, if at most their kinds are in the way. -/
theorem isHashable_eq_of_equal (hx : Sound call w store x) (hy : Sound call w store y)
    (h : Equal call w x y) (hkind : KindOnly x.hashFault?) (hkind' : KindOnly y.hashFault?) :
    x.isHashable = y.isHashable := by
  have hstep := (equal_iff hx hy).1 h
  induction hx generalizing y with
  | @seq k n xs hn hxs ih =>
    cases hy with
    | @seq l m ys hm hys =>
      obtain ⟨rfl, hall⟩ := hstep
      cases k with
      | list => rfl
      | tuple =>
        clear hn hm h
        change KindOnly (firstHashFault? xs) at hkind
        change KindOnly (firstHashFault? ys) at hkind'
        show areHashable xs = areHashable ys
        induction hall with
        | nil => rfl
        | @cons x y xs ys hxy _ ihall =>
          rw [List.forall_mem_cons] at hxs ih hys
          have hhead := ih.1 hys.1 hxy hkind.of_or hkind'.of_or ((equal_iff hxs.1 hys.1).1 hxy)
          rw [areHashable_cons, areHashable_cons, ← hhead]
          cases hhash : x.isHashable with
          | false => rfl
          | true =>
            have hnone := Option.isNone_iff_eq_none.1 hhash
            have hnone' := Option.isNone_iff_eq_none.1 (hhead.symm.trans hhash)
            rw [firstHashFault?, hnone, Option.none_or] at hkind
            rw [firstHashFault?, hnone', Option.none_or] at hkind'
            rw [ihall hxs.2 ih.2 hys.2 hkind hkind']
    | _ => exact False.elim hstep
  | just | left | right | identity =>
    rw [isHashable_of_isBox rfl hkind]
    cases hy <;> first | exact (isHashable_of_isBox rfl hkind').symm | exact False.elim hstep
  | _ => cases hy <;> first | rfl | exact False.elim hstep

/-- If variants of equal values have hashes, what they hold has one in both or in neither. -/
theorem isHashable_eq_of_variants {name : String} (hw : w.Untitled) (hv : Sound call w store v)
    (hu : Sound call w store u) (h : Equal call w v u) (hnan : v.isNaN = false)
    (hkey : ∃ k, (HashKey.ofVariant name v (v.hashKey call)).Answers w k)
    (hkey' : ∃ k, (HashKey.ofVariant name u (u.hashKey call)).Answers w k) :
    v.isHashable = u.isHashable := by
  obtain ⟨k, hk⟩ := hkey
  obtain ⟨l, hl⟩ := hkey'
  have hnan' := (isNaN_eq_of_equal hv hu h).symm.trans hnan
  exact isHashable_eq_of_equal hv hu h (kindOnly_of_ofVariant (fares_hashKey call hw hv.isNative)
    hnan hk) (kindOnly_of_ofVariant (fares_hashKey call hw hu.isNative) hnan' hl)

/-- Variants of one name that have hashes hash alike if what they hold does, is not a number, or
cannot be hashed. -/
theorem hashAlike_variant_iff {name : String} (hw : w.Untitled)
    (hx : x.hashKey call = HashKey.ofVariant name v (v.hashKey call))
    (hy : y.hashKey call = HashKey.ofVariant name u (u.hashKey call))
    (hv : Sound call w store v) (hu : Sound call w store u) (h : Equal call w v u)
    (hhash : ∃ k, (x.hashKey call).Answers w k) (hhash' : ∃ k, (y.hashKey call).Answers w k) :
    HashAlike call w x y ↔ v.isNaN = true ∨ v.isHashable = false ∨ HashAlike call w v u := by
  rw [hx] at hhash
  rw [hy] at hhash'
  have heq (hnan) := isHashable_eq_of_variants hw hv hu h hnan hhash hhash'
  obtain ⟨k, hk⟩ := hhash
  obtain ⟨l, hl⟩ := hhash'
  rw [hashAlike_iff (hx ▸ hk) (hy ▸ hl)]
  have hnan' := isNaN_eq_of_equal hv hu h
  cases hnan : v.isNaN with
  | true =>
    rw [HashKey.ofVariant, hnan] at hk
    rw [HashKey.ofVariant, ← hnan', hnan] at hl
    cases hk
    cases hl
    simp [HashKey.same, HashKey.sameAll]
  | false =>
    have heq := heq hnan
    rw [hnan] at hnan'
    cases hhash : v.isHashable with
    | true =>
      obtain ⟨i, hi⟩ := exists_hashKey hw hv.isNative hhash
      obtain ⟨j, hj⟩ := exists_hashKey hw hu.isNative (heq.symm.trans hhash)
      cases hk.unique (answers_ofVariant hnan hi)
      cases hl.unique (answers_ofVariant hnan'.symm hj)
      simp [HashKey.same, HashKey.sameAll, hashAlike_iff hi hj]
    | false =>
      rw [ofVariant_unique hw hv.isNative hnan hhash hk,
        ofVariant_unique hw hu.isNative hnan'.symm (heq.symm.trans hhash) hl]
      simp [HashKey.same]

theorem ofComplex_eq (t : Tag) (re im : Binary64) : HashKey.ofComplex t re im =
    match (Value.complex t re im).point? with
      | some (p, q) => if q = .at 0 then .point p else .complex p q
      | none => .object t := by
  simp only [HashKey.ofComplex, point?, plane?]
  cases (Number.float re).point? <;> cases (Number.float im).point? <;> rfl

/-- Complex numbers that are equal have one key. -/
theorem same_ofComplex {m n : Nat} {a b c d : Binary64}
    (h : (Value.complex (.numbered m) a b).lawForm.Step (Equal call w) (Matches call w)
      (Equal call w) (Value.complex (.numbered n) c d).lawForm) :
    (HashKey.ofComplex (.numbered m) a b).same (.ofComplex (.numbered n) c d) = true := by
  obtain ⟨hpoint, htag⟩ := Atom.complex.inj h
  rw [ofComplex_eq, ofComplex_eq, ← hpoint]
  rw [← hpoint] at htag
  rcases hp : (Value.complex (.numbered m) a b).point? with _ | ⟨p, q⟩
  · simpa [hp, HashKey.same, Tag.same] using htag
  · dsimp only
    split <;> simp [HashKey.same]

/-- The instant of a moment is its universal time. -/
theorem instant?_eq_universalInstant {m : Moment} (h : m.instant?.isSome = true) :
    m.instant?.getD 0 = m.universalInstant := by
  rw [Moment.instant?] at *
  split at *
  · rename_i hzone
    simp [Moment.universalInstant, hzone]
  · dsimp only at *
    split at * <;> simp_all

/-- Functions that are one object, or one method, have one key. -/
theorem same_ofFunc {m n : Nat} {f g : Func} (hself : ∀ v ∈ f.receivers, v.identical v = true)
    (h : Tag.numbered m = .numbered n ∧ f = g ∨ Form.OneMethod f g) :
    (HashKey.ofFunc (.numbered m) f).same (.ofFunc (.numbered n) g) = true := by
  rcases h with ⟨⟨⟩, rfl⟩ | h | h
  · cases f with
    | bound | boundTo => simp_all [HashKey.ofFunc, HashKey.same, Func.receivers]
    | _ => simp [HashKey.ofFunc, HashKey.same, Tag.same]
  · obtain ⟨b, a, rfl, rfl⟩ := Func.isSameMethod_iff.1 h
    simp [HashKey.ofFunc, HashKey.same]
  · cases f <;> cases g <;> first | exact absurd h Bool.false_ne_true | exact h

/-- Variants of one name that have hashes hash alike unless what they hold hashes apart. -/
theorem hashAlike_iff_not_heldApart {name : String} (hw : w.Untitled)
    (hx : x.hashKey call = HashKey.ofVariant name v (v.hashKey call))
    (hy : y.hashKey call = HashKey.ofVariant name u (u.hashKey call))
    (hv : Sound call w store v) (hu : Sound call w store u) (h : Equal call w v u)
    (hhash : ∃ k, (x.hashKey call).Answers w k) (hhash' : ∃ k, (y.hashKey call).Answers w k)
    (hheld : v.isHashable = true → u.isHashable = true →
      (HashAlike call w v u ↔ ¬HashApart call w v u)) :
    HashAlike call w x y ↔ ¬(v.isHashable = true ∧ v.isNaN = false ∧ HashApart call w v u) := by
  rw [hashAlike_variant_iff hw hx hy hv hu h hhash hhash']
  cases hnan : v.isNaN with
  | true => simp
  | false =>
    rw [hx] at hhash
    rw [hy] at hhash'
    have heq := isHashable_eq_of_variants hw hv hu h hnan hhash hhash'
    cases hhash : v.isHashable with
    | true => simp [hheld hhash (heq.symm.trans hhash)]
    | false => simp

/-- The keys of equal tuples are the same place by place unless values at some place hash apart. -/
theorem sameAll_iff_of_equal (hw : w.Untitled) {xs ys : List Value}
    (hxs : ∀ x ∈ xs, Sound call w store x) (hys : ∀ y ∈ ys, Sound call w store y)
    (h : ∀ x ∈ xs, ∀ {y}, Sound call w store y → Equal call w x y → x.isHashable = true →
      y.isHashable = true → (HashAlike call w x y ↔ ¬HashApart call w x y))
    (hall : xs.Forall₂ (Equal call w) ys) (hhash : areHashable xs = true)
    (hhash' : areHashable ys = true) :
    ∃ ks ls, (hashKeys call xs).Answers w ks ∧ (hashKeys call ys).Answers w ls ∧
      (HashKey.sameAll ks ls = true ↔ ¬AnyHashApart call w xs ys) := by
  induction hall with
  | nil => exact ⟨[], [], rfl, rfl, iff_of_true rfl id⟩
  | @cons x y xs ys hxy _ ih =>
    rw [List.forall_mem_cons] at hxs hys h
    rw [areHashable_cons, Bool.and_eq_true] at hhash hhash'
    obtain ⟨k, hk⟩ := exists_hashKey hw hxs.1.isNative hhash.1
    obtain ⟨l, hl⟩ := exists_hashKey hw hys.1.isNative hhash'.1
    obtain ⟨ks, ls, hks, hls, hsame⟩ := ih hxs.2 hys.2 h.2 hhash.2 hhash'.2
    refine ⟨k :: ks, l :: ls, hk.bind (hks.bind rfl), hl.bind (hls.bind rfl), ?_⟩
    rw [HashKey.sameAll, Bool.and_eq_true, hsame, AnyHashApart, not_or,
      ← h.1 hys.1 hxy hhash.1 hhash'.1, hashAlike_iff hk hl]

/-- Tuples of equal values hash alike unless some of the values hash apart. -/
theorem hashAlike_tuple_iff (hw : w.Untitled) {s t : Tag} {xs ys : List Value}
    (hxs : ∀ x ∈ xs, Sound call w store x) (hys : ∀ y ∈ ys, Sound call w store y)
    (h : ∀ x ∈ xs, ∀ {y}, Sound call w store y → Equal call w x y → x.isHashable = true →
      y.isHashable = true → (HashAlike call w x y ↔ ¬HashApart call w x y))
    (hall : xs.Forall₂ (Equal call w) ys) (hhash : areHashable xs = true)
    (hhash' : areHashable ys = true) :
    HashAlike call w (.seq .tuple s xs) (.seq .tuple t ys) ↔
      ¬HashApart call w (.seq .tuple s xs) (.seq .tuple t ys) := by
  obtain ⟨ks, ls, hks, hls, hsame⟩ := sameAll_iff_of_equal hw hxs hys h hall hhash hhash'
  have hkey : (hashKey call (.seq .tuple s xs)).Answers w (.tuple ks) := hks.bind rfl
  have hkey' : (hashKey call (.seq .tuple t ys)).Answers w (.tuple ls) := hls.bind rfl
  exact (hashAlike_iff hkey hkey').trans hsame

/-- A value whose box can be hashed is written. -/
theorem exists_literal_of_identity (call : Apply) (hw : w.Untitled) {s : Tag}
    (hv : v.isNative = true) (hhash : (Value.identity s v).isHashable = true) :
    ∃ a, (literal call v).Answers w a := by
  have hwritten := fares_literal call hw hv
  rwa [show unwritten? v.isWritten = none from Option.isNone_iff_eq_none.1 hhash] at hwritten

/-- Boxes of the identity functor hash alike unless their contents are written differently. -/
theorem hashAlike_identity_iff (hw : w.Untitled) {s t : Tag} (hv : v.isNative = true)
    (hu : u.isNative = true) (hhash : (Value.identity s v).isHashable = true)
    (hhash' : (Value.identity t u).isHashable = true) :
    HashAlike call w (.identity s v) (.identity t u) ↔
      ¬HashApart call w (.identity s v) (.identity t u) := by
  obtain ⟨a, ha⟩ := exists_literal_of_identity call hw hv hhash
  obtain ⟨b, hb⟩ := exists_literal_of_identity call hw hu hhash'
  have hkey : (hashKey call (.identity s v)).Answers w (.tuple [.text "Identity", .text a]) :=
    ha.bind rfl
  have hkey' : (hashKey call (.identity t u)).Answers w (.tuple [.text "Identity", .text b]) :=
    hb.bind rfl
  have hdiffer : (∃ c d, (literal call v).Answers w c ∧ (literal call u).Answers w d ∧ c ≠ d) ↔
      a ≠ b := by
    constructor
    · rintro ⟨c, d, hc, hd, hcd⟩
      rwa [ha.unique hc, hb.unique hd]
    · intro hab
      exact ⟨a, b, ha, hb, hab⟩
  rw [hashAlike_iff hkey hkey', HashApart, hdiffer]
  simp [HashKey.same, HashKey.sameAll]

/-- Equal values that can be hashed hash alike unless they hash apart. -/
theorem hashAlike_iff_of_equal (hw : w.Untitled) (hx : Sound call w store x)
    (hy : Sound call w store y) (h : Equal call w x y) (hhash : x.isHashable = true)
    (hhash' : y.isHashable = true) : HashAlike call w x y ↔ ¬HashApart call w x y := by
  have hstep := (equal_iff hx hy).1 h
  induction hx generalizing y with
  | null | nothing =>
    cases hy <;> first | exact False.elim hstep | cases hstep
    exact iff_of_true ⟨_, _, rfl, rfl, by simp [HashKey.same]⟩ id
  | bool | text | bytes | pattern =>
    cases hy <;> first | exact False.elim hstep | cases hstep
    exact iff_of_true ⟨_, _, rfl, rfl, by simp [HashKey.same]⟩ id
  | @number m a hm =>
    cases hy <;> first | exact False.elim hstep | skip
    case number n b hn =>
      have hpoint := (Atom.number.inj hstep).1
      refine Iff.trans (hashAlike_iff rfl rfl) ?_
      rw [HashApart, Number.isNaN_iff, ← hpoint]
      cases a.point? <;> simp [HashKey.same]
    all_goals cases hstep
  | @complex m re im hm =>
    cases hy <;> first | exact False.elim hstep | skip
    case complex n re' im' hn =>
      refine iff_of_true ⟨_, _, rfl, rfl, ?_⟩ id
      exact same_ofComplex hstep
    all_goals cases hstep
  | @date m d hm hd =>
    cases hy <;> first | exact False.elim hstep | skip
    case date n e hn he =>
      have heq := Date.eq_of_instant_eq hd he (Atom.instant.inj hstep)
      exact iff_of_true ⟨_, _, rfl, rfl, by simp [HashKey.same, heq]⟩ id
    case moment n e hn he =>
      exact Iff.trans (hashAlike_iff rfl rfl) (by simp [HashApart, HashKey.same])
    all_goals cases hstep
  | @moment m a hm hi =>
    cases hy <;> first | exact False.elim hstep | skip
    case date n e hn he =>
      exact Iff.trans (hashAlike_iff rfl rfl) (by simp [HashApart, HashKey.same])
    case moment n b hn hj =>
      refine Iff.trans (hashAlike_iff rfl rfl) ?_
      have huniversal : a.universalInstant = b.universalInstant := by
        rw [← instant?_eq_universalInstant hi, ← instant?_eq_universalInstant hj]
        exact Atom.instant.inj hstep
      simp [HashKey.same, HashApart, huniversal]
    all_goals cases hstep
  | @func m f hm hself =>
    cases hy <;> first | exact False.elim hstep | skip
    case func n g hn hself' =>
      exact iff_of_true ⟨_, _, rfl, rfl, same_ofFunc hself hstep⟩ id
  | @just m v hm hv ih | @left m v hm hv ih | @right m v hm hv ih =>
    cases hy <;> first | exact False.elim hstep | skip
    case just n u hn hu | left n u hn hu | right n u hn hu =>
      first
      | cases hstep.1; done
      | exact hashAlike_iff_not_heldApart hw rfl rfl hv hu hstep.2
          (exists_hashKey hw (show Value.isNative _ = true from hv.isNative) hhash)
          (exists_hashKey hw (show Value.isNative _ = true from hu.isNative) hhash')
          fun hhash hhash' => ih hu hstep.2 hhash hhash' ((equal_iff hv hu).1 hstep.2)
    all_goals cases hstep.1
  | @identity m v hm hv ih =>
    cases hy <;> first | exact False.elim hstep | skip
    case identity n u hn hu =>
      exact hashAlike_identity_iff hw hv.isNative hu.isNative hhash hhash'
    all_goals cases hstep.1
  | @seq k m xs hm hxs ih =>
    cases hy <;> first | exact False.elim hstep | skip
    case seq l n ys hn hys =>
      obtain ⟨rfl, hall⟩ := hstep
      cases k with
      | list => cases hhash
      | tuple =>
        exact hashAlike_tuple_iff hw hxs hys (fun x hx y hy hxy hhash hhash' =>
          ih x hx hy hxy hhash hhash' ((equal_iff (hxs x hx) hy).1 hxy)) hall hhash hhash'
  | dict => cases hhash

/-! ## Variants and boxes of functors -/

/-- The two equalities agree on variants and boxes of functors. -/
theorem equal_of_same (hx : Sound call w store x) (hy : Sound call w store y)
    (hbox : x.isBox = true) (h : Same call w x y) : Equal call w x y := by
  have hstep := ((same_tells (settled call w store) id hx hy (fun _ => hx.mem_parts)
    fun _ => hy.mem_parts).answers_iff (by simp)).1 h
  rw [equal_iff hx hy]
  cases hx <;> (try exact absurd hbox Bool.false_ne_true) <;> cases hy <;>
    first | exact hstep | exact False.elim hstep | cases hstep

/-- What is equal to a variant or a box of a functor is one. -/
theorem isBox_of_equal (hx : Sound call w store x) (hy : Sound call w store y)
    (hbox : x.isBox = true) (h : Equal call w x y) : y.isBox = true := by
  have hstep := (equal_iff hx hy).1 h
  cases hx <;> (try exact absurd hbox Bool.false_ne_true) <;> cases hy <;>
    first | rfl | exact False.elim hstep | cases hstep

/-- Variants and boxes of functors that are equal and have hashes hash alike unless they hash apart.
If one of them has none, it holds what is not written, and for nothing else does hashing fail. -/
theorem hashesAgree_iff_not_hashApart (call : Apply) {w : World} (hw : w.Untitled)
    {store : Nat → Value} {x y : Value} (hx : Sound call w store x) (hy : Sound call w store y)
    (hbox : x.isBox = true) (h : (same call x y).Answers w (.bool true)) :
    (x.isHashable = true → y.isHashable = true →
      ∃ b, (x.hashesAgree call y).Answers w b ∧ (b = true ↔ ¬HashApart call w x y)) ∧
    (x.isHashable = false ∨ y.isHashable = false →
      (x.hashesAgree call y).outcome w = (.error .badValue, w)) := by
  have hequal := equal_of_same hx hy hbox h
  refine ⟨fun hhash hhash' => ?_, fun hhash => ?_⟩
  · exact (hashesAgree_tells (exists_hashKey hw hx.isNative hhash)
      (exists_hashKey hw hy.isNative hhash')).congr
      (hashAlike_iff_of_equal hw hx hy hequal hhash hhash')
  · have hfares : (x.hashesAgree call y).Fares w (x.hashFault?.or y.hashFault?) :=
      (fares_hashKey call hw hx.isNative).bind fun k _ =>
        (fares_hashKey call hw hy.isNative).map k.same
    cases hfault : x.hashFault?.or y.hashFault? with
    | none =>
      rw [Option.or_eq_none_iff] at hfault
      simp [isHashable, hfault] at hhash
    | some f =>
      have hbad : f = .badValue := by
        rcases Option.or_eq_some_iff.1 hfault with hf | ⟨-, hf⟩
        · exact hashFault?_of_isBox hbox hf
        · exact hashFault?_of_isBox (isBox_of_equal hx hy hbox hequal) hf
      rw [hfault, hbad] at hfares
      exact hfares

/-- An optional day and the optional midnight that starts it. -/
def midnightStore : Nat → Value
  | 0 => .date (.numbered 0) ⟨2020, 1, 1⟩
  | 1 => .moment (.numbered 1) ⟨⟨2020, 1, 1⟩, 0, 0, 0, 0, none⟩
  | 2 => .just (.numbered 2) (.date (.numbered 0) ⟨2020, 1, 1⟩)
  | 3 => .just (.numbered 3) (.moment (.numbered 1) ⟨⟨2020, 1, 1⟩, 0, 0, 0, 0, none⟩)
  | _ => .null

/-- They are equal, and do not hash alike. -/
theorem same_midnight_not_hashesAgree :
    (same applyFunction (midnightStore 2) (midnightStore 3)).Answers .initial (.bool true) ∧
      ((midnightStore 2).hashesAgree applyFunction (midnightStore 3)).Answers .initial false :=
  ⟨rfl, rfl⟩

theorem hashesAgree_iff_midnight :
    ∃ b, ((midnightStore 2).hashesAgree applyFunction (midnightStore 3)).Answers .initial b ∧
      (b = true ↔ ¬HashApart applyFunction .initial (midnightStore 2) (midnightStore 3)) := by
  have hday : Sound applyFunction .initial midnightStore (midnightStore 2) :=
    .just rfl (.date rfl (by decide))
  have hmidnight : Sound applyFunction .initial midnightStore (midnightStore 3) :=
    .just rfl (.moment rfl rfl)
  exact (hashesAgree_iff_not_hashApart applyFunction World.untitled_initial hday hmidnight rfl
    rfl).1 rfl rfl

end Value

end CheckedCalls
