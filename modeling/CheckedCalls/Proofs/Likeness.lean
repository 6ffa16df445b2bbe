import CheckedCalls.Proofs.Hashing
import CheckedCalls.Proofs.Membership
import CheckedCalls.Proofs.Visits

/-!
# What the library sees of equal values

Values that are equal may be of different classes: a number and a fraction, a day and a moment. None
of the library's tests and rules looks at the difference. `Value.Throughout` carries a relation of
values through the containers, and `Value.Looks` is what equal values have in common that a test or
a rule can see: it is implied by the law-abiding equality (`looks_of_equal`), and values that look
alike have one descriptor and belong to the same type classes.
-/

namespace CheckedCalls

/-! ## Numbers that denote one point -/

namespace Number

variable {m n : Number} {b c : Bool}

/-- A fraction that was rounded to a neighbour is finite: there is none for one too large. -/
theorem isFinite_of_fraction {q : Rat} (h : (fraction q).isFinite? = some b) : b = true := by
  rw [isFinite?, Option.map_eq_some_iff] at h
  obtain ⟨x, hx, rfl⟩ := h
  rw [toBinary64?] at hx
  generalize Binary64.ofRat q = y at hx
  obtain ⟨hfinite, hyx⟩ := Option.ite_none_right_eq_some.1 hx
  cases hyx
  exact hfinite

/-- A number that is known to be finite or not is finite if it denotes a rational. -/
theorem finite_iff (h : n.finite = .ok b) : b = true ↔ ∃ q, n.point? = some (.at q) := by
  rw [finite] at h
  split at h
  · rename_i hfinite
    cases h
    cases n with
    | int k =>
      cases hfinite
      simp [point?]
    | float x =>
      cases hfinite
      cases x with
      | inf s => cases s <;> simp [point?, Binary64.isFinite]
      | nan | finite => simp [point?, Binary64.isFinite]
    | fraction q => exact iff_of_true (isFinite_of_fraction hfinite) ⟨q, rfl⟩
  · cases h

/-- A quotient is an integer if the denominator divides the numerator. -/
theorem dvd_iff_exists_mkRat_eq {d : Nat} (hd : d ≠ 0) (n : Int) :
    (d : Int) ∣ n ↔ ∃ k : Int, mkRat n d = k := by
  refine exists_congr fun k => ?_
  rw [← Rat.mkRat_one, Rat.mkRat_eq_iff hd Nat.one_ne_zero, Int.mul_comm]
  simp

theorem natCast_dvd_signedUnits (s : Bool) (d u : Nat) :
    (d : Int) ∣ Binary64.signedUnits s u ↔ d ∣ u := by
  cases s <;> simp [Binary64.signedUnits, Int.natCast_dvd_natCast]

/-- A double is whole exactly if it denotes an integer. -/
theorem isWhole_float_iff (s : Bool) (u : Nat) :
    (Binary64.finite s u).isWhole = true ↔ ∃ k : Int, Binary64.ratOfUnits s u = k := by
  have hpow (e : Nat) : Nat.pow 2 e ≠ 0 := Nat.ne_of_gt (Nat.pow_pos (by decide))
  have hpos : Binary64.unitsPerOne ≠ 0 := by
    delta Binary64.unitsPerOne
    apply hpow
  rw [Binary64.isWhole, beq_iff_eq, ← Nat.dvd_iff_mod_eq_zero, ← natCast_dvd_signedUnits s]
  exact dvd_iff_exists_mkRat_eq hpos _

/-- A fraction is whole exactly if it denotes an integer. -/
theorem isWhole_fraction_iff (q : Rat) : (q.den == 1) = true ↔ ∃ k : Int, q = k := by
  rw [beq_iff_eq]
  constructor
  · intro h
    exact ⟨q.num, Rat.ext rfl h⟩
  · rintro ⟨k, rfl⟩
    exact Rat.den_intCast k

/-- A number that is known to be whole or not is whole if it denotes an integer. -/
theorem wholeNumber_iff (h : n.wholeNumber = .ok b) :
    b = true ↔ ∃ k : Int, n.point? = some (.at k) := by
  cases n with
  | int k =>
    cases h
    exact iff_of_true rfl ⟨k, rfl⟩
  | float x =>
    cases x with
    | nan => cases h; simp [point?]
    | inf s => cases h; cases s <;> simp [point?]
    | finite s u =>
      cases h
      simpa [point?, isWhole] using isWhole_float_iff s u
  | fraction q =>
    rw [wholeNumber] at h
    · rcases hfinite : (Number.fraction q).finite with f | d
      · rw [hfinite] at h
        cases h
      · rw [hfinite] at h
        have hd : d = true := (finite_iff hfinite).2 ⟨q, rfl⟩
        subst hd
        cases h
        simpa [point?, isWhole] using isWhole_fraction_iff q
    · simp

theorem finite_eq (hpoint : m.point? = n.point?) (hm : m.finite = .ok b) (hn : n.finite = .ok c) :
    b = c := by
  rw [Bool.eq_iff_iff, finite_iff hm, finite_iff hn, hpoint]

theorem wholeNumber_eq (hpoint : m.point? = n.point?) (hm : m.wholeNumber = .ok b)
    (hn : n.wholeNumber = .ok c) : b = c := by
  rw [Bool.eq_iff_iff, wholeNumber_iff hm, wholeNumber_iff hn, hpoint]

end Number

/-- A question that depends on another one is answered if that one is. -/
theorem answer_of_guard {x : Except Fault Bool} {b c : Bool}
    (h : (do if ← x then return c else return false : Except Fault Bool) = .ok b) :
    ∃ d, x = .ok d ∧ b = (d && c) := by
  rcases x with f | d
  · cases h
  · cases d <;> cases h <;> exact ⟨_, rfl, rfl⟩

/-- A test of numbers that answers for two numbers of one point answers the same. -/
theorem StandardType.test_number_eq {t : StandardType} {m n : Number} {s u : Tag} {b c : Bool}
    (hpoint : m.point? = n.point?) (hm : t.test (.number s m) = .ok b)
    (hn : t.test (.number u n) = .ok c) : b = c := by
  cases t with
  | validNumber =>
    cases hm
    cases hn
    rw [Bool.eq_iff_iff]
    simp [Bool.eq_false_iff, Number.isNaN_iff, hpoint]
  | finiteNumber => exact Number.finite_eq hpoint hm hn
  | nonZeroFiniteNumber =>
    obtain ⟨d, hd, rfl⟩ := answer_of_guard hm
    obtain ⟨e, he, rfl⟩ := answer_of_guard hn
    rw [Number.finite_eq hpoint hd he, Number.isZero, Number.isZero, Number.same, Number.same,
      hpoint]
  | integer => exact Number.wholeNumber_eq hpoint hm hn
  | nonNegativeInteger =>
    obtain ⟨d, hd, rfl⟩ := answer_of_guard hm
    obtain ⟨e, he, rfl⟩ := answer_of_guard hn
    rw [Number.wholeNumber_eq hpoint hd he, Number.isNonNegative, Number.isNonNegative, Number.le,
      Number.le, hpoint]
  | either | maybe =>
    -- the class of a number is known by its kind
    cases m <;> cases n <;> cases hm <;> cases hn
    all_goals rfl
  | _ =>
    cases hm
    cases hn
    rfl

/-! ## Relations throughout containers -/

namespace Value

/-- Values that are related, or one native value, or containers of one kind with values that are so
in the same places. Dictionaries have such values under keys that are related. -/
inductive Throughout (keyed R : Value → Value → Prop) : Value → Value → Prop
  | base {x y} (h : R x y) : Throughout keyed R x y
  | refl {x} (h : x.isNative = true) : Throughout keyed R x x
  | seq {k s t xs ys} (hlength : xs.length = ys.length)
    (h : ∀ p ∈ xs.zip ys, Throughout keyed R p.1 p.2) :
    Throughout keyed R (.seq k s xs) (.seq k t ys)
  | dict {s t es fs} (there back : Value × Value → Value × Value)
    (hthere : ∀ d ∈ es, there d ∈ fs ∧ keyed d.1 (there d).1)
    (hback : ∀ e ∈ fs, back e ∈ es ∧ keyed (back e).1 e.1)
    (h : ∀ d ∈ es, Throughout keyed R d.2 (there d).2)
    (h' : ∀ e ∈ fs, Throughout keyed R (back e).2 e.2) :
    Throughout keyed R (.dict s es) (.dict t fs)
  | just {s t x y} (h : Throughout keyed R x y) : Throughout keyed R (.just s x) (.just t y)
  | left {s t x y} (h : Throughout keyed R x y) : Throughout keyed R (.left s x) (.left t y)
  | right {s t x y} (h : Throughout keyed R x y) : Throughout keyed R (.right s x) (.right t y)
  | identity {s t x y} (h : Throughout keyed R x y) :
    Throughout keyed R (.identity s x) (.identity t y)

namespace Throughout

variable {keyed keyed' R R' : Value → Value → Prop} {x y : Value}

/-- Dictionaries are related throughout if each entry of one has a fellow in the other. -/
theorem entries {s t : Tag} {es fs : List (Value × Value)}
    (h : ∀ d ∈ es, ∃ e ∈ fs, keyed d.1 e.1 ∧ Throughout keyed R d.2 e.2)
    (h' : ∀ e ∈ fs, ∃ d ∈ es, keyed d.1 e.1 ∧ Throughout keyed R d.2 e.2) :
    Throughout keyed R (.dict s es) (.dict t fs) := by
  choose! there hthere using h
  choose! back hback using h'
  exact .dict there back (fun d hd => ⟨(hthere d hd).1, (hthere d hd).2.1⟩)
    (fun e he => ⟨(hback e he).1, (hback e he).2.1⟩) (fun d hd => (hthere d hd).2.2)
    fun e he => (hback e he).2.2

/-- What related values have in common throughout, values that are related throughout have too. -/
theorem bind (h : Throughout keyed R x y) (hkeyed : ∀ x y, keyed x y → keyed' x y)
    (hR : ∀ x y, R x y → Throughout keyed' R' x y) : Throughout keyed' R' x y := by
  induction h with
  | base h => exact hR _ _ h
  | refl h => exact .refl h
  | seq hlength _ ih => exact .seq hlength ih
  | dict there back hthere hback _ _ ih ih' =>
    exact .dict there back (fun d hd => (hthere d hd).imp_right (hkeyed _ _))
      (fun e he => (hback e he).imp_right (hkeyed _ _)) ih ih'
  | just _ ih => exact .just ih
  | left _ ih => exact .left ih
  | right _ ih => exact .right ih
  | identity _ ih => exact .identity ih

/-- The values are native if related ones are. -/
theorem isNative (h : Throughout keyed R x y) (hkeyed : ∀ x y, keyed x y → x.isNative = true)
    (hR : ∀ x y, R x y → x.isNative = true) : x.isNative = true := by
  induction h with
  | base h => exact hR _ _ h
  | refl h => exact h
  | @seq k s t xs ys hlength _ ih =>
    have hall : List.Forall₂ (fun x y => x.isNative = true ∧ True) xs ys :=
      List.forall₂_iff_zip.2 ⟨hlength, fun hp => ⟨ih _ hp, trivial⟩⟩
    exact areNative_iff.2 ((List.forall₂_and_left _ _).1 hall).1
  | dict there back hthere hback _ _ ih ih' =>
    exact areNativeEntries_iff.2 fun d hd => ⟨hkeyed _ _ (hthere d hd).2, ih d hd⟩
  | just _ ih | left _ ih | right _ ih | identity _ ih => exact ih

/-- What values hold that are related throughout is so place by place. -/
theorem held (h : Throughout keyed R x y)
    (hR : ∀ x y, R x y → List.Forall₂ (List.Forall₂ (Throughout keyed R)) x.held y.held) :
    List.Forall₂ (List.Forall₂ (Throughout keyed R)) x.held y.held := by
  cases h with
  | base h => exact hR _ _ h
  | refl h =>
    refine List.forall₂_same.2 fun items hitems => List.forall₂_same.2 fun v hv => .refl ?_
    exact isNative_of_holds h ⟨items, hitems, hv⟩
  | seq hlength h => exact .cons (List.forall₂_iff_zip.2 ⟨hlength, fun hp => h _ hp⟩) .nil
  | just h => exact .cons (.cons h .nil) .nil
  | left h => exact .cons (.cons h .nil) (.cons .nil .nil)
  | right h => exact .cons .nil (.cons (.cons h .nil) .nil)
  | dict | identity => exact .nil

end Throughout

/-! ## Scalars of one kind -/

/-- Scalars that tests and rules cannot tell apart: equal numbers, whatever their kinds, days and
moments, and others of one class. -/
inductive Scalars : Value → Value → Prop
  | number {s t m n} (h : Number.equals m n = true) : Scalars (.number s m) (.number t n)
  | complex {s t a b c d} : Scalars (.complex s a b) (.complex t c d)
  | text {s t a b} : Scalars (.text s a) (.text t b)
  | bytes {s t a b} : Scalars (.bytes s a) (.bytes t b)
  | date {s t d e} : Scalars (.date s d) (.date t e)
  | dateMoment {s t d m} : Scalars (.date s d) (.moment t m)
  | momentDate {s t m d} : Scalars (.moment s m) (.date t d)
  | moment {s t m n} : Scalars (.moment s m) (.moment t n)
  | func {s t f g} : Scalars (.func s f) (.func t g)

/-- The values are alike in all that tests and rules see. -/
def Looks : Value → Value → Prop := Throughout (fun x _ => x.isNative = true) Scalars

section Equal

variable {call : Apply} {w : World} {store : Nat → Value} {x y : Value}

/-- Equal values look alike: a comparison goes to the parts of both, which are smaller. -/
theorem looks_of_equal {x y : Value} (hx : Sound call w store x) (hy : Sound call w store y)
    (h : Equal call w x y) : Looks x y := by
  have hsymm {x y} := @(settled call w store).equiv_equal.symm x y
  have hstep := (equal_iff hx hy).1 h
  have hback := (equal_iff hy hx).1 (hsymm hx hy h)
  have ih {p q} (hp : p ∈ x.parts) (hq : q ∈ y.parts) (hpq : Equal call w p q) : Looks p q :=
    looks_of_equal (hx.mem_parts hp) (hy.mem_parts hq) hpq
  cases hx with
  | null | bool | pattern | nothing =>
    cases hy <;> cases hstep
    all_goals exact .refl rfl
  | number =>
    cases hy with
    | number =>
      refine .base (.number (equals_number_iff.2 ?_))
      simpa [lawForm, Form.Step] using hstep
    | _ => cases hstep
  | complex | text | bytes | func =>
    cases hy <;> first
      | exact .base .complex
      | exact .base .text
      | exact .base .bytes
      | exact .base .func
      | cases hstep
  | date =>
    cases hy <;> first | exact .base .date | exact .base .dateMoment | cases hstep
  | moment =>
    cases hy <;> first | exact .base .momentDate | exact .base .moment | cases hstep
  | @seq k m xs hm hxs =>
    cases hy with
    | @seq l n ys =>
      obtain ⟨rfl, hall⟩ : k = l ∧ xs.Forall₂ (Equal call w) ys := hstep
      rw [List.forall₂_iff_zip] at hall
      refine .seq hall.1 fun p hp => ih ?_ ?_ (hall.2 hp)
      · exact (List.of_mem_zip hp).1
      · exact (List.of_mem_zip hp).2
    | _ => cases hstep
  | @dict m es hm hkeys hvalues =>
    cases hy with
    | @dict n fs hn hkeys' hvalues' =>
      have hpart {d e} (hd : d ∈ es) (he : e ∈ fs) (hde : Equal call w d.2 e.2) : Looks d.2 e.2 :=
        ih (List.mem_flatMap.2 ⟨d, hd, by simp⟩) (List.mem_flatMap.2 ⟨e, he, by simp⟩) hde
      refine .entries (fun d hd => ?_) fun e he => ?_
      · obtain ⟨e, he, -, hde⟩ := hstep.2 d hd
        exact ⟨e, he, (hkeys d hd).isNative, hpart hd he hde⟩
      · obtain ⟨d, hd, -, hed⟩ := hback.2 e he
        exact ⟨d, hd, (hkeys d hd).isNative,
          hpart hd he (hsymm (hvalues' e he) (hvalues d hd) hed)⟩
    | _ => cases hstep
  | just | left | right | identity =>
    have hone {v : Value} : v ∈ [v] := List.mem_singleton_self v
    cases hy <;> first
      | exact .just (ih hone hone hstep.2)
      | exact .left (ih hone hone hstep.2)
      | exact .right (ih hone hone hstep.2)
      | exact .identity (ih hone hone hstep.2)
      | cases hstep.1
      | cases hstep
termination_by sizeOf x
decreasing_by exact sizeOf_lt_of_mem_parts hp

/-! ## Equal values -/

/-- Values that are equal: data that the law-abiding equality says to be so, one native value, such
as a class, or containers of such values, dictionaries under keys that are found under each
other. -/
def Equated (call : Apply) (w : World) (store : Nat → Value) : Value → Value → Prop :=
  Throughout (fun k l => k.isNative = true ∧ Matches call w k l)
    fun x y => Sound call w store x ∧ Sound call w store y ∧ Equal call w x y

theorem Equated.of_equal (hx : Sound call w store x) (hy : Sound call w store y)
    (h : Equal call w x y) : Equated call w store x y := .base ⟨hx, hy, h⟩

theorem Equated.looks (h : Equated call w store x y) : Looks x y :=
  Throughout.bind h (fun _ _ h => h.1) fun _ _ h => looks_of_equal h.1 h.2.1 h.2.2

/-- What equal values hold is equal place by place. -/
theorem Equated.held (h : Equated call w store x y) :
    List.Forall₂ (List.Forall₂ (Equated call w store)) x.held y.held := by
  refine Throughout.held h fun x y ⟨hx, hy, h⟩ => ?_
  have hstep := (equal_iff hx hy).1 h
  cases hx with
  | @seq k m xs hm hxs =>
    cases hy with
    | @seq l n ys hn hys =>
      refine .cons ?_ .nil
      have hall := List.forall₂_iff_zip.1 (show xs.Forall₂ (Equal call w) ys from hstep.2)
      refine List.forall₂_iff_zip.2 ⟨hall.1, fun hp => .base ⟨?_, ?_, hall.2 hp⟩⟩
      · exact hxs _ (List.of_mem_zip hp).1
      · exact hys _ (List.of_mem_zip hp).2
    | _ => cases hstep
  | just _ hv | left _ hv | right _ hv | identity _ hv =>
    cases hy with
    | just _ hu | left _ hu | right _ hu | identity _ hu =>
      have hone := Equated.of_equal hv hu hstep.2
      first
      | exact .nil
      | exact .cons (.cons hone .nil) .nil
      | exact .cons (.cons hone .nil) (.cons .nil .nil)
      | exact .cons .nil (.cons (.cons hone .nil) .nil)
      | cases hstep.1
    | _ => cases hstep
  | nothing => cases hy <;> first | exact .cons .nil .nil | cases hstep
  | _ => cases hy <;> first | exact .nil | cases hstep

end Equal

/-! ## What tests and rules see -/

namespace Looks

variable {x y : Value}

theorem isNative (h : Looks x y) : x.isNative = true :=
  Throughout.isNative h (fun _ _ h => h) fun x y h => by cases h <;> rfl

/-- Values that look alike have the same layers of classes. -/
theorem layers_eq (h : Looks x y) : x.layers = y.layers := by
  cases h with
  | base h =>
    cases h with
    | @number s t m n => cases m <;> cases n <;> rfl
    | _ => rfl
  | @seq k => cases k <;> rfl
  | _ => rfl

theorem isCallable_eq (h : Looks x y) : x.isCallable = y.isCallable := by
  cases h with
  | base h => cases h <;> rfl
  | _ => rfl

theorem shape?_eq (h : Looks x y) : x.shape? = y.shape? := by
  cases h with
  | base h => cases h <;> rfl
  | _ => rfl

/-- Type representatives look like themselves only. -/
theorem containsRep_eq (h : Looks x y) (c : TypeClass) : c.containsRep x = c.containsRep y := by
  cases h with
  | base h => cases h <;> rfl
  | _ => rfl

/-! ### Rules -/

/-- A test that does not tell elements apart answers alike on both lists. -/
theorem all_eq {f : Value → Bool} {xs ys : List Value}
    (h : List.Forall₂ (fun x y => f x = f y) xs ys) : xs.all f = ys.all f := by
  induction h with
  | nil => rfl
  | cons hxy _ ih => rw [List.all_cons, List.all_cons, hxy, ih]

theorem areSetoids_eq_all (xs : List Value) : areSetoids xs = xs.all Value.isSetoid := by
  induction xs with
  | nil => rfl
  | cons x xs ih => rw [areSetoids, ih, List.all_cons]

theorem areOrds_eq_all (xs : List Value) : areOrds xs = xs.all Value.isOrd := by
  induction xs with
  | nil => rfl
  | cons x xs ih => rw [areOrds, ih, List.all_cons]

/-- The entries of a dict are Setoids exactly if its values are. -/
theorem areSetoidEntries_iff {es : List (Value × Value)} :
    areSetoidEntries es = true ↔ ∀ e ∈ es, e.2.isSetoid = true := by
  induction es with
  | nil => simp [areSetoidEntries]
  | cons e es ih => simp [areSetoidEntries, ih]

/-- Values that look alike are Setoids or not alike. -/
theorem isSetoid_eq (h : Looks x y) : x.isSetoid = y.isSetoid := by
  induction h with
  | base h => cases h <;> rfl
  | refl => rfl
  | seq hlength _ ih =>
    rw [isSetoid, isSetoid, areSetoids_eq_all, areSetoids_eq_all]
    exact all_eq (List.forall₂_iff_zip.2 ⟨hlength, fun hp => ih _ hp⟩)
  | dict there back hthere hback _ _ ih ih' =>
    rw [isSetoid, isSetoid, Bool.eq_iff_iff, areSetoidEntries_iff, areSetoidEntries_iff]
    constructor
    · intro h e he
      rw [← ih' e he]
      exact h _ (hback e he).1
    · intro h d hd
      rw [ih d hd]
      exact h _ (hthere d hd).1
  | just _ ih | left _ ih | right _ ih => exact ih
  | identity => rfl

/-- Values that look alike belong to Ord or not alike. -/
theorem isOrd_eq (h : Looks x y) : x.isOrd = y.isOrd := by
  induction h with
  | base h => cases h <;> rfl
  | seq hlength _ ih =>
    rw [isOrd, isOrd, areOrds_eq_all, areOrds_eq_all]
    exact all_eq (List.forall₂_iff_zip.2 ⟨hlength, fun hp => ih _ hp⟩)
  | _ => rfl

/-- Values that look alike are semigroups or not alike. -/
theorem isSemigroup_eq (h : Looks x y) : x.isSemigroup = y.isSemigroup := by
  induction h with
  | base h => cases h <;> rfl
  | just _ ih | left _ ih | right _ ih => exact ih
  | _ => rfl

/-- Values that look alike keep the same rules. -/
theorem holds_eq (h : Looks x y) (r : Rule) : r.holds x = r.holds y := by
  cases r with
  | setoid => exact h.isSetoid_eq
  | ord => exact h.isOrd_eq
  | semigroup => exact h.isSemigroup_eq
  | _ =>
    cases h with
    | base h => cases h <;> rfl
    | _ => rfl

/-- What variants of one look hold passes the same rules. -/
theorem variantContents?_holds_eq (h : Looks x y) (r : Rule) :
    x.variantContents?.map (List.all · r.holds) = y.variantContents?.map (List.all · r.holds) := by
  have hpayload : x.payload?.map r.holds = y.payload?.map r.holds := by
    cases h with
    | base h => cases h <;> rfl
    | just h | left h | right h | identity h => exact congrArg some (holds_eq h r)
    | _ => rfl
  rw [variantContents?, variantContents?, isA, isA, isA, isA, isA, isA, h.layers_eq]
  split
  · simpa [Function.comp_def] using hpayload
  · rfl

/-- Values that look alike belong to the same type classes. -/
theorem admits_eq (h : Looks x y) (c : TypeClass) : c.admits x = c.admits y := by
  have hadmits (v : Value) :
      c.admits v = (v.variantContents?.map (List.all · c.contents.holds)).elim
        (c.covers v.layers || c.builtin.holds v) (c.covers v.layers && ·) := by
    rw [TypeClass.admits]
    cases v.variantContents? <;> rfl
  rw [hadmits, hadmits, h.variantContents?_holds_eq, h.layers_eq, h.holds_eq]

/-! ### Tests -/

/-- A test that answers for both values answers the same. -/
theorem test_eq (h : Looks x y) {t : StandardType} {b c : Bool} (hb : t.test x = .ok b)
    (hc : t.test y = .ok c) : b = c := by
  have hsame (h : t.test x = t.test y) : b = c := Except.ok.inj (hb.symm.trans (h.trans hc))
  cases h with
  | base h =>
    cases h with
    | number h => exact StandardType.test_number_eq (Number.equals_iff.1 h).1 hb hc
    | _ => exact hsame (by cases t <;> rfl)
  | @seq k => exact hsame (by cases t <;> cases k <;> rfl)
  | _ => exact hsame (by cases t <;> rfl)

/-- Only numbers and times of one look may be of different classes. -/
theorem nominalName_eq (h : Looks x y) (hnumber : StandardType.number.has x = false)
    (hdate : StandardType.date.has x = false) : x.nominalName = y.nominalName := by
  have hrep : x.typeRep = y.typeRep := by
    cases h with
    | base h =>
      cases h with
      | number => cases hnumber
      | date | dateMoment | momentDate | moment => cases hdate
      | _ => rfl
    | @seq k => cases k <;> rfl
    | _ => rfl
  rw [nominalName, nominalName, layers, layers, typeName, typeName, hrep]

/-- Values that look alike have one descriptor. -/
theorem types_eq (h : Looks x y) {d e : List NamedType}
    (hx : x.descriptor StandardType.standing = .ok d)
    (hy : y.descriptor StandardType.standing = .ok e) :
    x.types StandardType.standing = y.types StandardType.standing := by
  have hhas : ∀ t ∈ StandardType.standing, t.has x = t.has y := fun t ht =>
    h.test_eq (test_of_descriptor hx ht) (test_of_descriptor hy ht)
  rw [types_of_descriptor hx, types_of_descriptor hy, descriptor_eq hx, descriptor_eq hy,
    List.filter_congr hhas]
  by_cases hnone : ∀ t ∈ StandardType.standing, t.has x = false
  · have hnone' : ∀ t ∈ StandardType.standing, t.has y = false := fun t ht =>
      (hhas t ht).symm.trans (hnone t ht)
    rw [if_pos hnone, if_pos hnone', h.nominalName_eq (hnone _ (by decide)) (hnone _ (by decide))]
  · have hsome : ¬∀ t ∈ StandardType.standing, t.has y = false := fun hall =>
      hnone fun t ht => (hhas t ht).trans (hall t ht)
    rw [if_neg hnone, if_neg hsome]

end Looks

end Value

end CheckedCalls
