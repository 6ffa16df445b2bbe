import CheckedCalls.Combinators
import CheckedCalls.Proofs.Comparison
import CheckedCalls.Proofs.Faults
import CheckedCalls.Proofs.TypeTree

/-!
# Clashes within a type

A type of arrays takes lists and tuples alike, but lists and tuples have no order among each other
and do not join. So two values of one type tree may still clash. Where they do, the operation that
meets them fails for want of an operation, and this is the only way in which it does: values of a
leaf are of one kind. `comparison_eq_kinds_iff` says so of the order, `refuses_fold_iff` of the
least and the greatest of several values, and `refuses_concat_iff` of combining.
-/

namespace CheckedCalls

open StandardType (standing)

variable {call : Apply}

/-! ## Kinds of values of a leaf -/

namespace Value

/-- The type that tells the kind of a scalar with an order, a string or a dictionary. -/
def basic? : Value → Option StandardType
  | .bool _ => some .boolean
  | .number _ _ => some .number
  | .text _ _ => some .string
  | .date _ _ | .moment _ _ => some .date
  | .dict _ _ => some .object
  | _ => none

theorem has_of_basic {v : Value} {u : StandardType} (h : v.basic? = some u) :
    u ∈ standing ∧ u.has v = true := by
  cases v <;> cases h <;> exact ⟨by decide, rfl⟩

/-- The types of values of a kind have values of this kind only. -/
theorem basic?_of_has {t u : StandardType} (ht : t ∈ standing) {x : Value}
    (hx : x.basic? = some u) (htx : t.has x = true) {y : Value} (hty : t.has y = true) :
    y.basic? = some u := by
  cases t with
  | any | typeRep | nonNegativeInteger => simp [standing] at ht
  | boolean | date | object | string =>
    cases x <;> cases htx <;> cases hx <;> cases y <;> first | rfl | cases hty
  | number | validNumber | finiteNumber | nonZeroFiniteNumber | integer =>
    cases x with
    | number =>
      cases hx
      cases y with
      | number => rfl
      | _ => cases hty
    | _ => cases htx
  | maybe | either =>
    cases x with
    | number s n => cases n <;> cases htx
    | _ => cases hx <;> cases htx
  | _ => cases x <;> cases hx <;> cases htx

/-- The class of data of no shape is a plain one. -/
theorem typeRep_of_no_shape {v : Value} (hv : v.isData = true) (h : v.shape? = none) :
    ∃ b : Builtin, v.typeRep = .builtin b ∧ b.base? = none := by
  cases v with
  | number t n => cases n <;> exact ⟨_, rfl, rfl⟩
  | seq | nothing | just | left | right => cases h
  | error | plain | identity | type | object => cases hv
  | _ => exact ⟨_, rfl, rfl⟩

/-- Data that has a type in common with data of a kind is of this kind. -/
theorem basic?_of_common {x y : Value} {t : NamedType} (hy : y.isData = true)
    (hshape : y.shape? = none) (hxt : (x.types standing).contains t = true)
    (hyt : (y.types standing).contains t = true) {u : StandardType} (hx : x.basic? = some u) :
    y.basic? = some u := by
  obtain ⟨hu, hux⟩ := has_of_basic hx
  obtain ⟨s, hs, hts⟩ := List.contains_iff_exists_mem_beq.1 hxt
  obtain ⟨s', hs', hts'⟩ := List.contains_iff_exists_mem_beq.1 hyt
  have hsame : (s == s') = true := BEq.trans (BEq.symm hts) hts'
  rcases mem_types hs with ⟨a, ha, hax, rfl⟩ | ⟨hforeign, -⟩
  · rcases mem_types hs' with ⟨b, -, hby, rfl⟩ | ⟨-, rfl⟩
    · rw [← StandardType.named_beq_named.1 hsame] at hby
      exact basic?_of_has ha hx hax hby
    -- a value known by its class would have to be of a class that is called like a type
    · obtain ⟨hname, -, -⟩ := StandardType.named_beq_nominal.1 hsame
      obtain ⟨b, hb, hbase⟩ := typeRep_of_no_shape hy hshape
      rw [nominalName_of_typeRep hb hbase] at hname
      exact absurd hname.symm (StandardType.name_ne_name hbase a)
  · simpa [hux] using List.all_eq_true.1 hforeign u hu

end Value

/-- Values of one leaf are of one kind. -/
theorem basic?_of_inhabits {t : NamedType} {ht : t.IsLeaf} {x y : Value} (hy : y.isData = true)
    (hxt : (TypeTree.leaf t ht).Inhabits call x) (hyt : (TypeTree.leaf t ht).Inhabits call y)
    {u : StandardType} (hx : x.basic? = some u) : y.basic? = some u := by
  rw [inhabits_leaf_iff] at hxt hyt
  exact Value.basic?_of_common hy hyt.1 hxt.2 hyt.2 hx

/-! ## The order -/

namespace Comparable

mutual

/-- The order meets sequences of different kinds. -/
def Clash : Comparable → Comparable → Prop
  | .seq k xs, .seq l ys => k ≠ l ∨ ClashSeq xs ys
  | _, _ => False

/-- The first place where the sequences differ holds values that clash. -/
def ClashSeq : List Comparable → List Comparable → Prop
  | x :: xs, y :: ys =>
    (x.equality y = .ok true ∧ ClashSeq xs ys) ∨ (x.equality y = .ok false ∧ Clash x y)
  | _, _ => False

end

theorem relate_ne_kinds {rel : Instant → Instant → Bool} {i j : Option Instant} :
    relate rel i j ≠ .error .kinds := by
  cases i <;> cases j <;> simp [relate]

mutual

/-- Any two values are equal or not, unless an instant lies outside the calendar. -/
theorem equality_ne_kinds : ∀ x y : Comparable, x.equality y ≠ .error .kinds
  | .number _, y | .bool _, y | .text _, y => by cases y <;> simp [equality]
  | .time i, y => by
    cases y with
    | time j => exact relate_ne_kinds
    | _ => simp [equality]
  | .seq k xs, y => by
    cases y with
    | seq l ys =>
      rw [equality]
      split
      · exact equalityAll_ne_kinds xs ys
      · simp
    | _ => simp [equality]

/-- Equality of lists never clashes in kind. -/
theorem equalityAll_ne_kinds : ∀ xs ys : List Comparable, equalityAll xs ys ≠ .error .kinds
  | [], ys => by cases ys <;> simp [equalityAll]
  | _ :: _, [] => by simp [equalityAll]
  | x :: xs, y :: ys => by
    have hfirst := equality_ne_kinds x y
    rw [equalityAll]
    rcases hxy : x.equality y with _ | _ | _
    · simpa [hxy, bind, Except.bind] using hfirst
    · simp [bind, Except.bind, pure, Except.pure]
    · exact equalityAll_ne_kinds xs ys

end

/-- Sequences are out of order just where they clash, if this is so for their elements. -/
theorem comparisonSeq_eq_kinds_iff_of {xs ys : List Comparable}
    (h : ∀ x ∈ xs, ∀ y ∈ ys, x.comparison y = .error .kinds ↔ Clash x y) :
    comparisonSeq xs ys = .error .kinds ↔ ClashSeq xs ys := by
  induction xs generalizing ys with
  | nil => simp [comparisonSeq, ClashSeq]
  | cons x xs ih =>
    cases ys with
    | nil => simp [comparisonSeq, ClashSeq]
    | cons y ys =>
      have hfirst := h x List.mem_cons_self y List.mem_cons_self
      have hrest := ih fun x hx y hy => h x (List.mem_cons_of_mem _ hx) y (List.mem_cons_of_mem _ hy)
      have hne := equality_ne_kinds x y
      rw [comparisonSeq, ClashSeq]
      rcases hxy : x.equality y with _ | _ | _
      · simpa [hxy, bind, Except.bind] using hne
      · simpa [bind, Except.bind] using hfirst
      · simpa [bind, Except.bind] using hrest

mutual

theorem clash_symm : ∀ {x y : Comparable}, Clash x y → Clash y x
  | .seq _ _, .seq _ _, h => h.imp Ne.symm clashSeq_symm

theorem clashSeq_symm : ∀ {xs ys : List Comparable}, ClashSeq xs ys → ClashSeq ys xs
  | _ :: _, _ :: _, h => by
    rw [ClashSeq, equality_comm] at h
    exact h.imp (And.imp_right clashSeq_symm) (And.imp_right clash_symm)

end

theorem clash_comm {x y : Comparable} : Clash x y ↔ Clash y x := ⟨clash_symm, clash_symm⟩

end Comparable

namespace Value

open Comparable

theorem comparables_eq_map (xs : List Value) : comparables xs = xs.map comparable := by
  induction xs with
  | nil => rfl
  | cons x xs ih => rw [comparables, ih, List.map_cons]

/-- Ordered data of one type is out of order just where it clashes. -/
theorem comparison_eq_kinds_iff : ∀ (T : TypeTree) {x y : Value}, x.Ordered → y.Ordered →
    T.Inhabits call x → T.Inhabits call y →
      (x.comparable.comparison y.comparable = .error .kinds ↔ Clash x.comparable y.comparable)
  | .leaf t ht, x, y, hox, hoy, hx, hy => by
    obtain ⟨hsx, -⟩ := (inhabits_leaf_iff ht).1 hx
    obtain ⟨hsy, -⟩ := (inhabits_leaf_iff ht).1 hy
    have hdata : y.isData = true := by cases hoy <;> first | rfl | cases hsy
    -- both are of one kind, and values of one kind compare
    have hkind : ∀ u, x.basic? = some u → y.basic? = some u := by
      intro u h
      exact basic?_of_inhabits hdata hx hy h
    cases hox with
    | number | bool | text =>
      have hy := hkind _ rfl
      cases hoy <;> cases hy
      simp [comparable, comparison, Clash]
    | date | moment =>
      have hy := hkind _ rfl
      cases hoy <;> cases hy <;> simp [comparable, comparison, relate_ne_kinds, Clash]
    | seq => cases hsx
  | .array T, x, y, hox, hoy, hx, hy => by
    cases hox with
    | @seq k t xs hxs =>
      cases hoy with
      | @seq l u ys hys =>
        rw [comparable, comparable, comparison, Clash]
        have hseq : comparisonSeq (comparables xs) (comparables ys) = .error .kinds ↔
            ClashSeq (comparables xs) (comparables ys) := by
          apply comparisonSeq_eq_kinds_iff_of
          intro a ha b hb
          rw [comparables_eq_map, List.mem_map] at ha hb
          obtain ⟨x, hmem, rfl⟩ := ha
          obtain ⟨y, hmem', rfl⟩ := hb
          exact comparison_eq_kinds_iff T (hxs x hmem) (hys y hmem') (hx x hmem) (hy y hmem')
        by_cases hkl : k = l
        · simpa [hkl] using hseq
        · simp [hkl]
      | _ => exact hy.elim
    | _ => exact hx.elim
  | .maybe T, x, y, hox, _, hx, _ => by cases hox <;> exact hx.elim
  | .either T U, x, y, hox, _, hx, _ => by cases hox <;> exact hx.elim

end Value

/-! ## Refused comparisons -/

namespace Run

variable {α : Type}

/-- A comparison is refused just for the kinds of the values. -/
theorem Compares.refuses_iff {r : Run α} {f : Bool → α} {c : Except Obstacle Bool}
    (h : r.Compares f c) (w : World) : r.Refuses w ↔ c = .error .kinds := by
  rcases c with (_ | _) | b
  · cases (show r = throw .overflow from h)
    simp [refuses_throw, Fault.isDispatch]
  · obtain ⟨x, y, rfl⟩ := h
    simp [refuses_throw, Fault.isDispatch]
  · cases (show r = pure (f b) from h)
    simp [not_refuses_pure]

end Run

namespace Value

open Comparable

/-- Whether data of one type is at or below other data is refused just where the two clash. -/
theorem refuses_isLte_iff {T : TypeTree} {x y : Value} (hx : x.Ordered ∧ T.Inhabits call x)
    (hy : y.Ordered ∧ T.Inhabits call y) (w : World) :
    (isLte call x y).Refuses w ↔ Clash x.comparable y.comparable :=
  ((isLte_compares call hx.1 hy.1).refuses_iff w).trans
    (comparison_eq_kinds_iff T hx.1 hy.1 hx.2 hy.2)

/-- The order of two values of one type tree is refused exactly if their forms clash. -/
theorem refuses_lte_iff {T : TypeTree} {x y : Value} (hx : x.Ordered ∧ T.Inhabits call x)
    (hy : y.Ordered ∧ T.Inhabits call y) (w : World) :
    (lte call x y).Refuses w ↔ Clash x.comparable y.comparable :=
  ((lte_compares call hx.1 hy.1).refuses_iff w).trans
    (comparison_eq_kinds_iff T hx.1 hy.1 hx.2 hy.2)

/-! ## The least and the greatest -/

/-- Of two values one is kept, as the order of the two says. -/
def keep (call : Apply) (pick : Bool → Value → Value → Value) (x y : Value) : Run Value := do
  return pick (← isLte call x y) x y

theorem keep_compares (call : Apply) (pick : Bool → Value → Value → Value) {x y : Value}
    (hx : x.Ordered) (hy : y.Ordered) :
    (keep call pick x y).Compares (pick · x y) (x.comparable.comparison y.comparable) := by
  rw [keep, ← bind_pure (comparison _ _)]
  exact (isLte_compares call hx hy).bind fun b _ => rfl

/-- Keeping one of several values of a type is refused just if the one kept so far clashes with the
next. -/
theorem refuses_fold_iff {T : TypeTree} {pick : Bool → Value → Value → Value}
    (hpick : ∀ b x y, pick b x y = x ∨ pick b x y = y) {x : Value} {ys : List Value}
    (hx : x.Ordered ∧ T.Inhabits call x) (hys : ∀ y ∈ ys, y.Ordered ∧ T.Inhabits call y)
    (w : World) :
    (ys.foldlM (keep call pick) x).Refuses w ↔ ∃ before y after m, ys = before ++ y :: after ∧
      before.foldlM (keep call pick) x = pure m ∧ Clash m.comparable y.comparable := by
  induction ys generalizing x with
  | nil => simp [Run.not_refuses_pure]
  | cons y ys ih =>
    rw [List.forall_mem_cons] at hys
    have hclash := comparison_eq_kinds_iff T hx.1 hys.1.1 hx.2 hys.1.2
    have hkeep := keep_compares call pick hx.1 hys.1.1
    rw [List.foldlM_cons]
    rcases hc : x.comparable.comparison y.comparable with (_ | _) | b <;>
      rw [hc] at hclash hkeep
    -- an instant outside the calendar ends the fold before any clash
    · have hthrow : keep call pick x y = throw .overflow := hkeep
      refine iff_of_false ?_ ?_
      · rw [hthrow]
        intro h
        cases (Run.refuses_throw w).1 h
      · rintro ⟨_ | ⟨z, before⟩, y', after, m, hys', hm, hmy⟩
        · cases hys'
          cases congrArg Run.result hm
          cases hclash.2 hmy
        · cases hys'
          rw [List.foldlM_cons, hthrow] at hm
          cases congrArg Run.result hm
    -- the first two clash already
    · obtain ⟨a, b, hthrow⟩ : ∃ a b, keep call pick x y = throw (.notComparable a b) := hkeep
      rw [hthrow]
      exact iff_of_true ((Run.refuses_throw w).2 rfl) ⟨[], y, ys, x, rfl, rfl, hclash.1 rfl⟩
    -- one of the first two is kept, and the fold goes on from there
    · have hpure : keep call pick x y = pure (pick b x y) := hkeep
      have hnext : (pick b x y).Ordered ∧ T.Inhabits call (pick b x y) := by
        rcases hpick b x y with h | h <;> rw [h]
        · exact hx
        · exact hys.1
      rw [hpure, pure_bind, ih hnext hys.2]
      constructor
      · rintro ⟨before, y', after, m, rfl, hm, hmy⟩
        exact ⟨y :: before, y', after, m, rfl, by rwa [List.foldlM_cons, hpure, pure_bind], hmy⟩
      · rintro ⟨_ | ⟨z, before⟩, y', after, m, hys', hm, hmy⟩
        · cases hys'
          cases congrArg Run.result hm
          cases hclash.2 hmy
        · cases hys'
          rw [List.foldlM_cons, hpure, pure_bind] at hm
          exact ⟨before, y', after, m, rfl, hm, hmy⟩

/-! ## Combining -/

/-- The values are sequences of different kinds. -/
def KindClash : Value → Value → Prop
  | .seq k _ _, .seq l _ _ => k ≠ l
  | _, _ => False

/-- Combining meets sequences of different kinds. -/
def JoinClash : Value → Value → Prop
  | .seq k _ _, .seq l _ _ => k ≠ l
  | .just _ v, .just _ w | .left _ v, .left _ w | .right _ v, .right _ w => JoinClash v w
  | _, _ => False

/-- Combining data of one type is refused just where it clashes. -/
theorem refuses_concat_iff (w : World) : ∀ (T : TypeTree) {x y : Value}, x.isData = true →
    y.isData = true → x.isSemigroup = true → T.Inhabits call x → T.Inhabits call y →
      ((concat call x y).Refuses w ↔ JoinClash x y)
  | .leaf t ht, x, y, hdx, hdy, hsemi, hx, hy => by
    obtain ⟨hsx, -⟩ := (inhabits_leaf_iff ht).1 hx
    have hkind : ∀ u, x.basic? = some u → y.basic? = some u := by
      intro u h
      exact basic?_of_inhabits hdy hx hy h
    cases x with
    | text s a =>
      have hy := hkind _ rfl
      cases y <;> cases hy
      exact iff_of_false (Run.not_refuses_pure _ w) id
    | dict s xs =>
      have hy := hkind _ rfl
      cases y <;> cases hy
      refine iff_of_false ?_ id
      rw [concat, Run.refuses_bind_pure]
      exact (dispatches_setEntries call hdx hdy).not_refuses w
    | seq | nothing | just | left | right => cases hsx
    | object => cases hdx
    | _ => cases hsemi
  | .array T, x, y, hdx, hdy, hsemi, hx, hy => by
    cases x with
    | seq k s xs =>
      cases y with
      | seq l t ys =>
        rw [concat, JoinClash]
        split
        · exact iff_of_false (Run.not_refuses_pure _ w) (absurd ‹_›)
        · exact iff_of_true ((Run.refuses_throw w).2 rfl) ‹_›
      | _ => exact hy.elim
    | _ => exact hx.elim
  | .maybe T, x, y, hdx, hdy, hsemi, hx, hy => by
    cases x with
    -- the empty variant gives way to anything
    | nothing => exact iff_of_false (Run.not_refuses_pure _ w) (by cases y <;> exact id)
    | just s v =>
      cases y with
      | nothing => exact iff_of_false (Run.not_refuses_pure _ w) id
      | just t u =>
        exact Run.refuses_bind_pure.trans
          (refuses_concat_iff w T (x := v) (y := u) hdx hdy hsemi hx hy)
      | _ => exact hy.elim
    | _ => exact hx.elim
  | .either T U, x, y, hdx, hdy, hsemi, hx, hy => by
    -- of a success and a failure one is answered as it is
    cases x with
    | left s v =>
      cases y with
      | right => exact iff_of_false (Run.not_refuses_pure _ w) id
      | left t u =>
        exact Run.refuses_bind_pure.trans
          (refuses_concat_iff w T (x := v) (y := u) hdx hdy hsemi hx hy)
      | _ => exact hy.elim
    | right s v =>
      cases y with
      | left => exact iff_of_false (Run.not_refuses_pure _ w) id
      | right t u =>
        exact Run.refuses_bind_pure.trans
          (refuses_concat_iff w U (x := v) (y := u) hdx hdy hsemi hx hy)
      | _ => exact hy.elim
    | _ => exact hx.elim

/-! ## Choosing -/

/-- Choosing between containers of one shape is refused just for sequences of different kinds. -/
theorem refuses_alt_iff {x y : Value} {t : StandardType} (hx : x.shape? = some t)
    (hy : y.shape? = some t) (w : World) : (alt call x y).Refuses w ↔ KindClash x y := by
  cases x with
  | seq k s xs =>
    cases hx
    cases y with
    | seq l u ys =>
      rw [alt, KindClash]
      split
      · exact iff_of_false (Run.not_refuses_pure _ w) (absurd ‹_›)
      · exact iff_of_true ((Run.refuses_throw w).2 rfl) ‹_›
    | _ => cases hy
  | nothing | just | left | right => exact iff_of_false (Run.not_refuses_pure _ w) id
  | _ => cases hx

/-! ## Sequences of one kind -/

mutual

/-- All sequences in the value are of one kind, down to what variants hold. -/
def hasOnly (k : SeqKind) : Value → Bool
  | .seq l _ xs => l == k && allHaveOnly k xs
  | .just _ v | .left _ v | .right _ v => hasOnly k v
  | _ => true

/-- All sequences in the values are of one kind. -/
def allHaveOnly (k : SeqKind) : List Value → Bool
  | [] => true
  | x :: xs => hasOnly k x && allHaveOnly k xs

end

mutual

/-- Without two kinds of sequences nothing clashes. -/
theorem not_clash_of_hasOnly {k : SeqKind} (x y : Value) (hx : x.hasOnly k = true)
    (hy : y.hasOnly k = true) : ¬Clash x.comparable y.comparable := by
  cases x with
  | seq l t xs =>
    cases y with
    | seq m u ys =>
      rw [hasOnly, Bool.and_eq_true, beq_iff_eq] at hx hy
      rw [comparable, comparable, Clash, hx.1, hy.1]
      exact not_or.2 ⟨fun h => h rfl, not_clashSeq_of_allHaveOnly xs ys hx.2 hy.2⟩
    | _ => exact id
  | _ => exact id

/-- Lists with sequences of one kind only never clash. -/
theorem not_clashSeq_of_allHaveOnly {k : SeqKind} : ∀ (xs ys : List Value),
    allHaveOnly k xs = true → allHaveOnly k ys = true →
      ¬ClashSeq (comparables xs) (comparables ys)
  | [], _, _, _ => id
  | _ :: _, [], _, _ => id
  | x :: xs, y :: ys, hx, hy => by
    rw [allHaveOnly, Bool.and_eq_true] at hx hy
    rw [comparables, comparables, ClashSeq]
    exact not_or.2 ⟨fun h => not_clashSeq_of_allHaveOnly xs ys hx.2 hy.2 h.2,
      fun h => not_clash_of_hasOnly x y hx.1 hy.1 h.2⟩

end

/-- Values with sequences of one kind only never clash in kind. -/
theorem not_kindClash_of_hasOnly {k : SeqKind} {x y : Value} (hx : x.hasOnly k = true)
    (hy : y.hasOnly k = true) : ¬KindClash x y := by
  cases x with
  | seq l t xs =>
    cases y with
    | seq m u ys =>
      rw [hasOnly, Bool.and_eq_true, beq_iff_eq] at hx hy
      rw [KindClash, hx.1, hy.1]
      intro h
      exact h rfl
    | _ => exact id
  | _ => exact id

/-- Values with sequences of one kind only never clash when joined. -/
theorem not_joinClash_of_hasOnly {k : SeqKind} (x y : Value) (hx : x.hasOnly k = true)
    (hy : y.hasOnly k = true) : ¬JoinClash x y := by
  cases x with
  | seq => cases y <;> exact not_kindClash_of_hasOnly hx hy
  | just t v =>
    cases y with
    | just u w => exact not_joinClash_of_hasOnly v w hx hy
    | _ => exact id
  | left t v =>
    cases y with
    | left u w => exact not_joinClash_of_hasOnly v w hx hy
    | _ => exact id
  | right t v =>
    cases y with
    | right u w => exact not_joinClash_of_hasOnly v w hx hy
    | _ => exact id
  | _ => exact id

/-- What is kept of several values is one of them. -/
theorem ensures_fold_mem {pick : Bool → Value → Value → Value}
    (hpick : ∀ b x y, pick b x y = x ∨ pick b x y = y) (x : Value) (ys : List Value) :
    (ys.foldlM (keep call pick) x).Ensures (· ∈ x :: ys) := by
  induction ys generalizing x with
  | nil => exact Run.ensures_pure List.mem_cons_self
  | cons y ys ih =>
    rw [List.foldlM_cons]
    have hkeep : (keep call pick x y).Ensures fun z => z = x ∨ z = y :=
      Run.ensures_bind (Run.ensures_of_forall fun _ => trivial) fun b (_ : True) =>
        Run.ensures_pure (hpick b x y)
    refine Run.ensures_bind hkeep fun z hz => (ih z).mono fun m hm => ?_
    rcases List.mem_cons.1 hm with rfl | hm
    · rcases hz with rfl | rfl <;> simp
    · exact List.mem_cons_of_mem _ (List.mem_cons_of_mem _ hm)

end Value

end CheckedCalls
