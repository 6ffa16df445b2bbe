import CheckedCalls.Proofs.Data
import CheckedCalls.Proofs.Outcome
import CheckedCalls.Value.Order

/-!
# The order of data

What the two comparisons see of data with an order is a `Comparable`: the number, the truth value,
the text, the instant or the sequence that it is. On these, equality and order are plain functions
(`areEqual_compares`, `isLte_compares`). Equality is symmetric, and values that are equal are
equal to the same values and at or below the same values.
-/

namespace CheckedCalls

/-! ## Numbers -/

namespace Point

theorem le_trans {p q r : Point} (hpq : p.le q = true) (hqr : q.le r = true) : p.le r = true := by
  cases p <;> cases q <;> cases r <;> simp_all [le]
  exact Rat.le_trans hpq hqr

theorem le_antisymm {p q : Point} (hpq : p.le q = true) (hqp : q.le p = true) : p = q := by
  cases p <;> cases q <;> simp_all [le]
  exact Rat.le_antisymm hpq hqp

end Point

namespace Number

theorem isNaN_iff {n : Number} : n.isNaN = true ↔ n.point? = none := by
  rcases n with _ | (_ | _ | _) | _ <;> simp [isNaN, Binary64.isNaN, point?]

theorem isZero_iff {n : Number} : n.isZero = true ↔ n.point? = some (.at 0) := by
  rw [isZero, same, zero]
  rcases n.point? with _ | p <;> simp [point?]

/-- Numbers are equal if they denote the same point, zeros only if their signs agree. -/
theorem equals_iff {m n : Number} : m.equals n = true ↔ m.point? = n.point? ∧
    (m.point? = some (.at 0) → m.isNegativeZero = n.isNegativeZero) := by
  simp only [equals, same, Bool.or_eq_true, Bool.and_eq_true, isNaN_iff, isZero_iff]
  -- not-a-number is equal to itself only, since it denotes no point
  rcases hm : m.point? with _ | p <;> rcases hn : n.point? with _ | q
  · simp [isNaN_iff, hm, hn]
  · simp [isNaN_iff, hm, hn]
  · simp [isNaN_iff, hm, hn]
  · by_cases hpq : p = q
    · by_cases hp : p = .at 0 <;> simp [← hpq, hp]
    · have hboth : ¬(p = .at 0 ∧ q = .at 0) := by
        intro h
        exact hpq (h.1.trans h.2.symm)
      simp [hpq, hboth]

theorem equals_comm (m n : Number) : m.equals n = n.equals m := by
  rw [Bool.eq_iff_iff, equals_iff, equals_iff]
  constructor <;> rintro ⟨hpoint, hsign⟩ <;>
    exact ⟨hpoint.symm, fun h => (hsign (hpoint.trans h)).symm⟩

/-- Equal numbers are equal to the same numbers. -/
theorem equals_congr {m n : Number} (h : m.equals n = true) (k : Number) :
    m.equals k = n.equals k := by
  obtain ⟨hpoint, hsign⟩ := equals_iff.1 h
  rw [Bool.eq_iff_iff, equals_iff, equals_iff, hpoint]
  refine and_congr_right fun _ => forall_congr' fun hzero => ?_
  rw [hsign (hpoint.trans hzero)]

/-- The order sees of a number only its point, and not-a-number is below all points. -/
theorem lte_iff {m n : Number} : m.lte n = true ↔
    ∀ p, m.point? = some p → ∃ q, n.point? = some q ∧ p.le q = true := by
  rw [lte, le, Bool.or_eq_true, isNaN_iff]
  rcases m.point? with _ | p
  · simp
  · rcases n.point? with _ | q <;> simp

theorem lte_congr {m n : Number} (h : m.equals n = true) (k : Number) :
    m.lte k = n.lte k ∧ k.lte m = k.lte n := by
  obtain ⟨hpoint, -⟩ := equals_iff.1 h
  constructor <;> rw [Bool.eq_iff_iff, lte_iff, lte_iff, hpoint]

/-- The order of numbers is transitive, with NaN at its place. -/
theorem lte_trans {m n k : Number} (hmn : m.lte n = true) (hnk : n.lte k = true) :
    m.lte k = true := by
  rw [lte_iff] at *
  intro p hp
  obtain ⟨q, hq, hpq⟩ := hmn p hp
  obtain ⟨r, hr, hqr⟩ := hnk q hq
  exact ⟨r, hr, Point.le_trans hpq hqr⟩

/-- Numbers at or below each other denote the same point. -/
theorem point?_eq_of_lte {m n : Number} (hmn : m.lte n = true) (hnm : n.lte m = true) :
    m.point? = n.point? := by
  rw [lte_iff] at hmn hnm
  rcases hm : m.point? with _ | p <;> rcases hn : n.point? with _ | q
  · rfl
  · simpa [hm] using hnm q hn
  · simpa [hn] using hmn p hm
  · have hpq : p.le q = true := by simpa [hn] using hmn p hm
    have hqp : q.le p = true := by simpa [hm] using hnm q hn
    rw [Point.le_antisymm hpq hqp]

end Number

/-! ## Comparables -/

/-- What the order looks at: a number, a truth value, a text, an instant unless it lies outside the
calendar, or a sequence. -/
inductive Comparable
  | number (n : Number)
  | bool (b : Bool)
  | text (s : String)
  | time (i : Option Instant)
  | seq (k : SeqKind) (xs : List Comparable)

mutual

/-- What the order sees of a value with an order. -/
def Value.comparable : Value → Comparable
  | .number _ n => .number n
  | .bool b => .bool b
  | .text _ s => .text s
  | .date _ d => .time (some d.instant)
  | .moment _ m => .time m.instant?
  | .seq k _ xs => .seq k (Value.comparables xs)
  | _ => .bool false

/-- What the order sees of several values. -/
def Value.comparables : List Value → List Comparable
  | [] => []
  | x :: xs => Value.comparable x :: Value.comparables xs

end

/-- Why two values are not compared. -/
inductive Obstacle
  /-- An instant lies outside the calendar. -/
  | overflow
  /-- The values are of different kinds. -/
  | kinds
  deriving DecidableEq

namespace Comparable

instance : Inhabited Comparable := ⟨.bool false⟩

/-- Two instants are related, if both lie in the calendar. -/
def relate (rel : Instant → Instant → Bool) (i j : Option Instant) : Except Obstacle Bool :=
  match i, j with
  | some i, some j => .ok (rel i j)
  | _, _ => .error .overflow

mutual

/-- Law-abiding equality. -/
def equality : Comparable → Comparable → Except Obstacle Bool
  | .number m, .number n => .ok (m.equals n)
  | .bool a, .bool b => .ok (a == b)
  | .text a, .text b => .ok (a == b)
  | .time i, .time j => relate (· == ·) i j
  | .seq k xs, .seq l ys =>
    if k = l ∧ xs.length = ys.length then equalityAll xs ys else .ok false
  | _, _ => .ok false

/-- Equality place by place. -/
def equalityAll : List Comparable → List Comparable → Except Obstacle Bool
  | x :: xs, y :: ys => do if ← equality x y then equalityAll xs ys else return false
  | _, _ => .ok true

end

mutual

/-- The order. -/
def comparison : Comparable → Comparable → Except Obstacle Bool
  | .number m, .number n => .ok (m.lte n)
  | .bool a, .bool b => .ok (!a || b)
  | .text a, .text b => .ok (decide (a ≤ b))
  | .time i, .time j => relate (fun i j => decide (i ≤ j)) i j
  | .seq k xs, .seq l ys => if k = l then comparisonSeq xs ys else .error .kinds
  | _, _ => .error .kinds

/-- The order of sequences: the first place where they differ decides. -/
def comparisonSeq : List Comparable → List Comparable → Except Obstacle Bool
  | [], _ => .ok true
  | _ :: _, [] => .ok false
  | x :: xs, y :: ys => do if ← equality x y then comparisonSeq xs ys else comparison x y

end

end Comparable

/-! ## The comparisons of ordered data -/

namespace Run

variable {α β : Type}

/-- The run answers as a comparison does, and fails for its obstacle. -/
def Compares (r : Run α) (f : Bool → α) (c : Except Obstacle Bool) : Prop :=
  match c with
  | .ok b => r = pure (f b)
  | .error .overflow => r = throw .overflow
  | .error .kinds => ∃ x y, r = throw (.notComparable x y)

/-- A comparison goes on as the decision it stands for does. -/
theorem Compares.bind {r : Run α} {f : Bool → α} {c : Except Obstacle Bool} {next : α → Run β}
    {g : Bool → β} {d : Bool → Except Obstacle Bool} (hr : r.Compares f c)
    (hnext : ∀ b, c = .ok b → (next (f b)).Compares g (d b)) :
    (r >>= next).Compares g (c >>= d) := by
  -- an obstacle ends the run, and the comparison with it
  rcases c with (_ | _) | b
  · cases (show r = throw .overflow from hr)
    exact rfl
  · obtain ⟨x, y, rfl⟩ := hr
    exact ⟨x, y, rfl⟩
  · cases (show r = pure (f b) from hr)
    rw [pure_bind]
    exact hnext b rfl

/-- A comparison gives an answer exactly if the decision it stands for does. -/
theorem Compares.eq_pure_iff {r : Run α} {f : Bool → α} {c : Except Obstacle Bool}
    (h : r.Compares f c) (hf : ∀ a b, f a = f b → a = b) (b : Bool) :
    r = pure (f b) ↔ c = .ok b := by
  rcases c with (_ | _) | a
  · cases (show r = throw .overflow from h)
    exact ⟨fun h => (by cases congrArg result h), fun h => (by cases h)⟩
  · obtain ⟨x, y, rfl⟩ := h
    exact ⟨fun h => (by cases congrArg result h), fun h => (by cases h)⟩
  · cases (show r = pure (f a) from h)
    constructor
    · intro h
      have hfa : f a = f b := Except.ok.inj (congrArg result h)
      exact congrArg Except.ok (hf a b hfa)
    · rintro ⟨⟩
      rfl

end Run

namespace Value

/-- Data with an order. -/
inductive Ordered : Value → Prop
  | number (t : Tag) (n : Number) : Ordered (.number t n)
  | bool (b : Bool) : Ordered (.bool b)
  | text (t : Tag) (s : String) : Ordered (.text t s)
  | date (t : Tag) (d : Date) : Ordered (.date t d)
  | moment (t : Tag) (m : Moment) : Ordered (.moment t m)
  | seq (k : SeqKind) (t : Tag) {xs : List Value} (h : ∀ x ∈ xs, Ordered x) : Ordered (.seq k t xs)

mutual

/-- Data that belong to Ord are made of numbers, truths, texts and times in sequences. -/
theorem ordered_of_isOrd : ∀ (v : Value), v.isData = true → v.isOrd = true → v.Ordered
  | .number t n, _, _ => .number t n
  | .bool b, _, _ => .bool b
  | .text t s, _, _ => .text t s
  | .date t d, _, _ => .date t d
  | .moment t m, _, _ => .moment t m
  | .seq k t xs, hdata, hord => .seq k t (ordered_of_areOrds xs hdata hord)

/-- The elements of a sequence of Ord data are ordered data. -/
theorem ordered_of_areOrds : ∀ (xs : List Value), areData xs = true → areOrds xs = true →
    ∀ x ∈ xs, x.Ordered
  | [], _, _ => by simp
  | x :: xs, hdata, hord => by
    rw [areData, Bool.and_eq_true] at hdata
    rw [areOrds, Bool.and_eq_true] at hord
    exact List.forall_mem_cons.2
      ⟨ordered_of_isOrd x hdata.1 hord.1, ordered_of_areOrds xs hdata.2 hord.2⟩

end

theorem length_comparables (xs : List Value) : (comparables xs).length = xs.length := by
  induction xs with
  | nil => rfl
  | cons x xs ih => rw [comparables, List.length_cons, List.length_cons, ih]

/-- Reading the instant of a moment either goes on with it or overflows. -/
theorem moment_instant_bind {α : Type} (m : Moment) (f : Instant → Run α) : (m.instant >>= f) =
    match m.instant? with
    | some i => f i
    | none => throw .overflow := by
  rw [Moment.instant]
  cases m.instant? <;> rfl

/-- Equality place by place, if it is known at each place. -/
theorem equalsAll_compares_of {call : Apply} {xs ys : List Value} (hys : ∀ y ∈ ys, y.Ordered)
    (h : ∀ x ∈ xs, ∀ y, y.Ordered →
      (equals call x y).Compares .bool (x.comparable.equality y.comparable)) :
    (equalsAll call xs ys).Compares id
      (Comparable.equalityAll (comparables xs) (comparables ys)) := by
  induction xs generalizing ys with
  | nil => cases ys <;> exact rfl
  | cons x xs ih =>
    cases ys with
    | nil => exact rfl
    | cons y ys =>
      rw [List.forall_mem_cons] at h hys
      rw [equalsAll, comparables, comparables, Comparable.equalityAll]
      refine (h.1 y hys.1).bind fun b _ => ?_
      show Run.Compares (if b = true then equalsAll call xs ys else pure false) id _
      cases b with
      | true => exact ih hys.2 h.2
      | false => exact rfl

/-- The equality of ordered data is that of what the order sees. -/
theorem equals_compares (call : Apply) {x y : Value} (hx : x.Ordered) (hy : y.Ordered) :
    (equals call x y).Compares .bool (x.comparable.equality y.comparable) := by
  induction hx generalizing y with
  | number | bool | text => cases hy <;> exact rfl
  | date t d =>
    cases hy with
    | moment u n =>
      rw [equals, moment_instant_bind]
      simp only [comparable, Comparable.equality, Comparable.relate]
      cases n.instant? <;> exact rfl
    | _ => exact rfl
  | moment t m =>
    cases hy with
    | date u d =>
      rw [equals, moment_instant_bind]
      simp only [comparable, Comparable.equality, Comparable.relate]
      cases m.instant? <;> exact rfl
    | moment u n =>
      rw [equals, moment_instant_bind]
      simp only [moment_instant_bind, comparable, Comparable.equality, Comparable.relate]
      cases m.instant? <;> cases n.instant? <;> exact rfl
    | _ => exact rfl
  | @seq k t xs h ih =>
    cases hy with
    | @seq l u ys hys =>
      simp only [equals, comparable, Comparable.equality, length_comparables]
      split
      · have hall := equalsAll_compares_of hys fun x hx y hy => ih x hx hy
        rw [← bind_pure (Comparable.equalityAll _ _)]
        exact hall.bind fun b _ => rfl
      · exact rfl
    | _ => exact rfl

theorem areEqual_compares (call : Apply) {x y : Value} (hx : x.Ordered) (hy : y.Ordered) :
    (areEqual call x y).Compares id (x.comparable.equality y.comparable) := by
  rw [areEqual, ← bind_pure (Comparable.equality _ _)]
  exact (equals_compares call hx hy).bind fun b _ => rfl

/-- The order of sequences, if it is known at each place. -/
theorem lteSeq_compares_of {call : Apply} {xs ys : List Value} (hxs : ∀ x ∈ xs, x.Ordered)
    (hys : ∀ y ∈ ys, y.Ordered)
    (h : ∀ x ∈ xs, ∀ y, y.Ordered →
      (lte call x y).Compares .bool (x.comparable.comparison y.comparable)) :
    (lteSeq call xs ys).Compares .bool
      (Comparable.comparisonSeq (comparables xs) (comparables ys)) := by
  induction xs generalizing ys with
  | nil => exact rfl
  | cons x xs ih =>
    cases ys with
    | nil => exact rfl
    | cons y ys =>
      rw [List.forall_mem_cons] at h hxs hys
      rw [lteSeq, comparables, comparables, Comparable.comparisonSeq]
      -- the first elements decide unless they are equal
      refine (areEqual_compares call hxs.1 hys.1).bind fun b _ => ?_
      show Run.Compares (if b = true then lteSeq call xs ys else lte call x y) .bool _
      cases b with
      | true => exact ih hxs.2 hys.2 h.2
      | false => exact h.1 y hys.1

/-- The order of ordered data is that of what it sees. -/
theorem lte_compares (call : Apply) {x y : Value} (hx : x.Ordered) (hy : y.Ordered) :
    (lte call x y).Compares .bool (x.comparable.comparison y.comparable) := by
  induction hx generalizing y with
  | number | bool | text => cases hy <;> first | exact rfl | exact ⟨_, _, rfl⟩
  | date t d =>
    cases hy with
    | date => exact rfl
    | moment u n =>
      rw [lte, moment_instant_bind]
      simp only [comparable, Comparable.comparison, Comparable.relate]
      cases n.instant? <;> exact rfl
    | _ => exact ⟨_, _, rfl⟩
  | moment t m =>
    cases hy with
    | date u d =>
      rw [lte, moment_instant_bind]
      simp only [comparable, Comparable.comparison, Comparable.relate]
      cases m.instant? <;> exact rfl
    | moment u n =>
      rw [lte, moment_instant_bind]
      simp only [moment_instant_bind, comparable, Comparable.comparison, Comparable.relate]
      cases m.instant? <;> cases n.instant? <;> exact rfl
    | _ => exact ⟨_, _, rfl⟩
  | @seq k t xs h ih =>
    cases hy with
    | @seq l u ys hys =>
      simp only [lte, comparable, Comparable.comparison]
      split
      · exact lteSeq_compares_of h hys fun x hx y hy => ih x hx hy
      · exact ⟨_, _, rfl⟩
    | _ => exact ⟨_, _, rfl⟩

theorem isLte_compares (call : Apply) {x y : Value} (hx : x.Ordered) (hy : y.Ordered) :
    (isLte call x y).Compares id (x.comparable.comparison y.comparable) := by
  rw [isLte, ← bind_pure (Comparable.comparison _ _)]
  exact (lte_compares call hx hy).bind fun b _ => rfl

/-- Ordered data is at or below other ordered data if what the order sees of it is. -/
theorem lte_eq_pure_iff (call : Apply) {x y : Value} (hx : x.Ordered) (hy : y.Ordered) (b : Bool) :
    lte call x y = pure (.bool b) ↔ x.comparable.comparison y.comparable = .ok b :=
  (lte_compares call hx hy).eq_pure_iff (fun _ _ h => Value.bool.inj h) b

end Value

/-! ## Equal comparables -/

namespace Comparable

mutual

/-- Equality of comparable forms is symmetric, overflows included. -/
theorem equality_comm : ∀ a b : Comparable, a.equality b = b.equality a
  | .number m, b => by
    cases b <;> first | rfl | exact congrArg Except.ok (Number.equals_comm m _)
  | .bool _, b | .text _, b => by
    cases b <;> first | rfl | exact congrArg Except.ok Bool.beq_comm
  | .time i, b => by
    cases b with
    | time j =>
      cases i <;> cases j <;> first | rfl | exact congrArg Except.ok Bool.beq_comm
    | _ => rfl
  | .seq k xs, b => by
    cases b with
    | seq l ys =>
      rw [equality, equality, equalityAll_comm xs ys]
      simp only [eq_comm]
    | _ => rfl

/-- Equality of lists of comparable forms is symmetric. -/
theorem equalityAll_comm : ∀ xs ys : List Comparable, equalityAll xs ys = equalityAll ys xs
  | [], ys => by cases ys <;> rfl
  | _ :: _, [] => rfl
  | x :: xs, y :: ys => by
    rw [equalityAll, equalityAll, equality_comm x y, equalityAll_comm xs ys]

end

/-- Two instants that are equal lie in the calendar and are one. -/
theorem relate_beq_eq_true {i j : Option Instant} (h : relate (· == ·) i j = .ok true) : i = j := by
  cases i <;> cases j <;> simp_all [relate]

/-- Two lists are equal exactly if their heads and their tails are. -/
theorem equalityAll_cons_eq_true {x y : Comparable} {xs ys : List Comparable} :
    equalityAll (x :: xs) (y :: ys) = .ok true ↔
      x.equality y = .ok true ∧ equalityAll xs ys = .ok true := by
  rw [equalityAll]
  rcases x.equality y with _ | _ | _ <;> simp [bind, Except.bind, pure, Except.pure]

/-- Two sequences are equal exactly if they are of one kind and one length with equal elements. -/
theorem equality_seq_eq_true {k l : SeqKind} {xs ys : List Comparable} :
    (seq k xs).equality (seq l ys) = .ok true ↔
      k = l ∧ xs.length = ys.length ∧ equalityAll xs ys = .ok true := by
  rw [equality]
  split <;> simp_all

mutual

/-- Equal values are equal to the same values. -/
theorem equality_congr : ∀ {a b : Comparable}, a.equality b = .ok true → ∀ c,
    a.equality c = b.equality c
  | .number m, .number n, h, c => by
    cases c <;> first | rfl | exact congrArg Except.ok (Number.equals_congr (Except.ok.inj h) _)
  | .bool a, .bool b, h, c => by
    have hab : a = b := by simpa [equality] using h
    rw [hab]
  | .text a, .text b, h, c => by
    have hab : a = b := by simpa [equality] using h
    rw [hab]
  | .time i, .time j, h, c => by
    rw [relate_beq_eq_true h]
  | .seq k xs, .seq l ys, h, c => by
    obtain ⟨rfl, hlength, hall⟩ := equality_seq_eq_true.1 h
    cases c with
    | seq m zs => rw [equality, equality, hlength, equalityAll_congr hlength hall zs]
    | _ => rfl

/-- Equal lists are equal to the same lists. -/
theorem equalityAll_congr : ∀ {xs ys : List Comparable}, xs.length = ys.length →
    equalityAll xs ys = .ok true → ∀ zs, equalityAll xs zs = equalityAll ys zs
  | [], [], _, _, _ => rfl
  | x :: xs, y :: ys, hlength, h, zs => by
    obtain ⟨hfirst, hrest⟩ := equalityAll_cons_eq_true.1 h
    cases zs with
    | nil => rfl
    | cons z zs =>
      rw [equalityAll, equalityAll, equality_congr hfirst z,
        equalityAll_congr (Nat.succ.inj hlength) hrest zs]

end

mutual

/-- Equal values are compared alike. -/
theorem comparison_congr : ∀ {a b : Comparable}, a.equality b = .ok true → ∀ c,
    a.comparison c = b.comparison c ∧ c.comparison a = c.comparison b
  | .number m, .number n, h, c => by
    have hmn := Number.lte_congr (Except.ok.inj h)
    cases c with
    | number k => simp only [comparison, (hmn k).1, (hmn k).2, and_self]
    | _ => exact ⟨rfl, rfl⟩
  | .bool a, .bool b, h, c => by
    have hab : a = b := by simpa [equality] using h
    rw [hab]
    exact ⟨rfl, rfl⟩
  | .text a, .text b, h, c => by
    have hab : a = b := by simpa [equality] using h
    rw [hab]
    exact ⟨rfl, rfl⟩
  | .time i, .time j, h, c => by
    rw [relate_beq_eq_true h]
    exact ⟨rfl, rfl⟩
  | .seq k xs, .seq l ys, h, c => by
    obtain ⟨rfl, hlength, hall⟩ := equality_seq_eq_true.1 h
    cases c with
    | seq m zs =>
      obtain ⟨hleft, hright⟩ := comparisonSeq_congr hlength hall zs
      simp only [comparison, hleft, hright, and_self]
    | _ => exact ⟨rfl, rfl⟩

/-- Equal lists are compared alike with every list. -/
theorem comparisonSeq_congr : ∀ {xs ys : List Comparable}, xs.length = ys.length →
    equalityAll xs ys = .ok true → ∀ zs,
      comparisonSeq xs zs = comparisonSeq ys zs ∧ comparisonSeq zs xs = comparisonSeq zs ys
  | [], [], _, _, _ => ⟨rfl, rfl⟩
  | x :: xs, y :: ys, hlength, h, zs => by
    obtain ⟨hfirst, hrest⟩ := equalityAll_cons_eq_true.1 h
    cases zs with
    | nil => exact ⟨rfl, rfl⟩
    | cons z zs =>
      obtain ⟨hleft, hright⟩ := comparison_congr hfirst z
      obtain ⟨hleft', hright'⟩ := comparisonSeq_congr (Nat.succ.inj hlength) hrest zs
      simp only [comparisonSeq, equality_comm z, equality_congr hfirst z, hleft, hright, hleft',
        hright', and_self]

end

end Comparable

end CheckedCalls
