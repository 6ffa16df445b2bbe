import CheckedCalls.Proofs.Transitivity
import Mathlib.Logic.Relation

/-!
# Chains of the order

The order is total (`comparison_total`), and what is not above a value bounds whatever lies strictly
above that value (`comparison_of_above`). So the lowest value met so far stays below all the others.
Going up is different, since the order is not transitive: the end of an ascending chain is above its
start just if no member of the chain crosses the two (`comparison_iff_of_ascent`).
-/

namespace CheckedCalls

/-! ## Numbers -/

theorem Point.le_total : ∀ {p q : Point}, p.le q = false → q.le p = true
  | .at _, .at _, h => decide_eq_true (Rat.le_total.resolve_left (of_decide_eq_false h))
  | .at _, .bottom, _ | .top, .at _, _ | .top, .bottom, _ => rfl

/-- Of two numbers one is at most the other. -/
theorem Number.lte_total {m n : Number} (h : m.lte n = false) : n.lte m = true := by
  rw [lte_iff]
  intro q hq
  rcases hp : m.point? with _ | p
  · have hmn : m.lte n = true := lte_iff.2 (by simp [hp])
    cases h.symm.trans hmn
  · refine ⟨p, rfl, Point.le_total ?_⟩
    rw [← Bool.not_eq_true] at h ⊢
    exact fun hpq => h (lte_iff.2 fun p' hp' => ⟨q, hq, by simp_all⟩)

theorem Number.lte_self (n : Number) : n.lte n = true := by
  rcases Bool.eq_false_or_eq_true (n.lte n) with h | h
  · exact h
  · exact lte_total h

namespace Comparable

/-! ## Values and themselves -/

mutual

/-- Every instant lies in the calendar. -/
def isPlaced : Comparable → Bool
  | .time i => i.isSome
  | .seq _ xs => arePlaced xs
  | .number _ | .bool _ | .text _ => true

/-- Every instant of any of them lies in the calendar. -/
def arePlaced : List Comparable → Bool
  | [] => true
  | x :: xs => isPlaced x && arePlaced xs

end

mutual

/-- A comparable form equals itself unless an instant in it lies outside the calendar. -/
theorem equality_self : ∀ x : Comparable,
    x.equality x = if x.isPlaced then .ok true else .error .overflow
  | .number n => congrArg Except.ok (Number.equals_iff.2 ⟨rfl, fun _ => rfl⟩)
  | .bool _ | .text _ => congrArg Except.ok (beq_self_eq_true _)
  | .time i => by cases i <;> simp [equality, relate, isPlaced]
  | .seq k xs => by
    rw [equality, if_pos ⟨rfl, rfl⟩, isPlaced]
    exact equalityAll_self xs

/-- A list equals itself unless an instant in it lies outside the calendar. -/
theorem equalityAll_self : ∀ xs : List Comparable,
    equalityAll xs xs = if arePlaced xs then .ok true else .error .overflow
  | [] => rfl
  | x :: xs => by
    rw [equalityAll, arePlaced, equality_self x]
    cases x.isPlaced
    · rfl
    · exact equalityAll_self xs

end

mutual

/-- A value is at or below itself, unless it has an instant outside the calendar. -/
theorem comparison_self : ∀ x : Comparable,
    x.comparison x = if x.isPlaced then .ok true else .error .overflow
  | .number n => congrArg Except.ok n.lte_self
  | .bool b => by cases b <;> rfl
  | .text s => congrArg Except.ok (decide_eq_true (String.le_refl s))
  | .time i => by cases i <;> simp [comparison, relate, isPlaced]
  | .seq k xs => by
    rw [comparison, if_pos rfl, isPlaced]
    exact comparisonSeq_self xs

/-- A list is at most itself unless an instant in it lies outside the calendar. -/
theorem comparisonSeq_self : ∀ xs : List Comparable,
    comparisonSeq xs xs = if arePlaced xs then .ok true else .error .overflow
  | [] => rfl
  | x :: xs => by
    rw [comparisonSeq, arePlaced, equality_self x]
    cases x.isPlaced
    · rfl
    · exact comparisonSeq_self xs

end

theorem comparison_self_eq_true {x : Comparable} :
    x.comparison x = .ok true ↔ x.isPlaced = true := by
  rw [comparison_self]
  split <;> simp_all

theorem isPlaced_of_equality {x y : Comparable} (h : x.equality y = .ok true) :
    x.isPlaced = true := by
  have hself : x.equality x = .ok true := (equality_congr h x).trans ((equality_comm y x).trans h)
  rw [equality_self] at hself
  split at hself
  · assumption
  · cases hself

/-- Equal values are at or below each other. -/
theorem comparison_of_equality {x y : Comparable} (h : x.equality y = .ok true) :
    x.comparison y = .ok true :=
  (comparison_congr h x).2.symm.trans (comparison_self_eq_true.2 (isPlaced_of_equality h))

/-! ## Going down -/

theorem comparisonSeq_cons_eq_false {x y : Comparable} {xs ys : List Comparable} :
    comparisonSeq (x :: xs) (y :: ys) = .ok false ↔
      (x.equality y = .ok true ∧ comparisonSeq xs ys = .ok false) ∨
        (x.equality y = .ok false ∧ x.comparison y = .ok false) := by
  rw [comparisonSeq]
  rcases x.equality y with _ | _ | _ <;> simp [bind, Except.bind]

theorem comparison_seq_eq_false {k l : SeqKind} {xs ys : List Comparable} :
    (seq k xs).comparison (seq l ys) = .ok false ↔ k = l ∧ comparisonSeq xs ys = .ok false := by
  rw [comparison]
  split <;> simp_all

mutual

/-- Of two values that are compared one is at or below the other. -/
theorem comparison_total : ∀ {x y : Comparable}, x.comparison y = .ok false →
    y.comparison x = .ok true
  | .number m, .number n, h => congrArg Except.ok (Number.lte_total (Except.ok.inj h))
  | .bool a, .bool b, h => by cases a <;> cases b <;> simp_all [comparison]
  | .text a, .text b, h => by
    simp only [comparison, Except.ok.injEq, decide_eq_false_iff_not] at h
    exact congrArg Except.ok (decide_eq_true ((String.le_total a b).resolve_left h))
  | .time i, .time j, h => by
    cases i <;> cases j <;> simp_all [comparison, relate]
    exact Int.le_of_lt h
  | .seq k xs, .seq l ys, h => by
    obtain ⟨rfl, hseq⟩ := comparison_seq_eq_false.1 h
    exact comparison_seq_eq_true.2 ⟨rfl, comparisonSeq_total hseq⟩

/-- Of two lists one is at most the other. -/
theorem comparisonSeq_total : ∀ {xs ys : List Comparable}, comparisonSeq xs ys = .ok false →
    comparisonSeq ys xs = .ok true
  | _ :: _, [], _ => rfl
  | x :: xs, y :: ys, h => by
    rw [comparisonSeq_cons_eq_true, equality_comm y x]
    rcases comparisonSeq_cons_eq_false.1 h with ⟨heq, h⟩ | ⟨heq, h⟩
    · exact .inl ⟨heq, comparisonSeq_total h⟩
    · exact .inr ⟨heq, comparison_total h⟩

end

mutual

/-- If the first value is not at or below the second, but at or below the third, then the second is
at or below the third, and these two can be told apart or not. -/
theorem comparison_of_above : ∀ {x y z : Comparable}, x.comparison y = .ok false →
    x.comparison z = .ok true → y.comparison z = .ok true ∧ ∀ e, y.equality z ≠ .error e
  | .number m, .number n, .number k, hxy, hxz => by
    have hyx := Number.lte_total (Except.ok.inj hxy)
    exact ⟨congrArg Except.ok (Number.lte_trans hyx (Except.ok.inj hxz)), by simp [equality]⟩
  | .bool a, .bool b, .bool c, hxy, hxz => by
    cases a <;> cases b <;> cases c <;> simp_all [comparison, equality]
  | .text a, .text b, .text c, hxy, hxz => by
    have hyx := comparison_total hxy
    simp only [comparison, Except.ok.injEq, decide_eq_true_eq] at hyx hxz
    exact ⟨congrArg Except.ok (decide_eq_true (String.le_trans hyx hxz)), by simp [equality]⟩
  | .time i, .time j, .time l, hxy, hxz => by
    refine ⟨relate_le_trans (comparison_total hxy) hxz, ?_⟩
    cases i <;> cases j <;> cases l <;> simp_all [comparison, equality, relate]
  | .seq k xs, .seq l ys, .seq m zs, hxy, hxz => by
    obtain ⟨rfl, hxys⟩ := comparison_seq_eq_false.1 hxy
    obtain ⟨rfl, hxzs⟩ := comparison_seq_eq_true.1 hxz
    obtain ⟨hyzs, herror⟩ := comparisonSeq_of_above hxys hxzs
    refine ⟨comparison_seq_eq_true.2 ⟨rfl, hyzs⟩, ?_⟩
    intro e
    rw [equality]
    split
    · exact herror e
    · simp

/-- What lies below a list is compared, without an overflow, with all that is above it. -/
theorem comparisonSeq_of_above : ∀ {xs ys zs : List Comparable}, comparisonSeq xs ys = .ok false →
    comparisonSeq xs zs = .ok true →
      comparisonSeq ys zs = .ok true ∧ ∀ e, equalityAll ys zs ≠ .error e
  | _ :: _, [], _, _, _ => ⟨rfl, by simp [equalityAll]⟩
  | x :: xs, y :: ys, z :: zs, hxy, hxz => by
    rw [comparisonSeq_cons_eq_false] at hxy
    rw [comparisonSeq_cons_eq_true] at hxz
    rw [comparisonSeq_cons_eq_true, equalityAll]
    rcases hxy with ⟨exy, hxy⟩ | ⟨exy, hxy⟩ <;> rcases hxz with ⟨exz, hxz⟩ | ⟨exz, hxz⟩
    -- all three agree, and the rest decides
    · have eyz := (equality_congr exy z).symm.trans exz
      simpa [eyz, bind, Except.bind] using comparisonSeq_of_above hxy hxz
    -- the second agrees with the first, so it parts from the third as that does
    · have eyz := (equality_congr exy z).symm.trans exz
      have hyz := (comparison_congr exy z).1.symm.trans hxz
      simp [eyz, hyz, bind, Except.bind, pure, Except.pure]
    -- the third agrees with the first, so the second parts from it as from that
    · have eyz : y.equality z = .ok false := by
        rw [equality_comm y z, ← equality_congr exz y, exy]
      have hyz := comparison_total ((comparison_congr exz y).1.symm.trans hxy)
      simp [eyz, hyz, bind, Except.bind, pure, Except.pure]
    -- the second and the third are on different sides of the first
    · obtain ⟨hyz, herror⟩ := comparison_of_above hxy hxz
      rcases eyz : y.equality z with e | _ | _
      · exact absurd eyz (herror e)
      · simp [hyz, bind, Except.bind, pure, Except.pure]
      · cases hxy.symm.trans ((comparison_congr eyz x).2.trans hxz)

end

/-! ## Crossed values -/

mutual

theorem Crossed.parts : ∀ {x y z : Comparable}, Crossed x y z →
    x.equality y = .ok false ∧ y.equality z = .ok false
  | .seq k xs, .seq l ys, .seq m zs, h => by
    rw [Crossed] at h
    obtain ⟨hxy, hyz⟩ := h.parts
    rw [equality, equality, hxy, hyz]
    exact ⟨ite_self _, ite_self _⟩

/-- The middle one of crossed sequences is told apart from both others. -/
theorem CrossedSeq.parts : ∀ {xs ys zs : List Comparable}, CrossedSeq xs ys zs →
    equalityAll xs ys = .ok false ∧ equalityAll ys zs = .ok false
  | x :: xs, y :: ys, z :: zs, h => by
    rw [CrossedSeq] at h
    rw [equalityAll, equalityAll]
    rcases h with ⟨exy, eyz, h⟩ | ⟨exy, eyz, -⟩
    · rw [exy, eyz]
      exact CrossedSeq.parts h
    · rw [exy, eyz]
      exact ⟨rfl, rfl⟩

end

mutual

theorem Crossed.not_comparison : ∀ {x y z : Comparable}, Crossed x y z →
    x.comparison z ≠ .ok true
  | .seq k xs, .seq l ys, .seq m zs, h => by
    rw [Crossed] at h
    rw [ne_eq, comparison_seq_eq_true]
    exact fun hxz => h.not_comparison hxz.2

/-- The outer ones of crossed sequences are not in order. -/
theorem CrossedSeq.not_comparison : ∀ {xs ys zs : List Comparable}, CrossedSeq xs ys zs →
    comparisonSeq xs zs ≠ .ok true
  | x :: xs, y :: ys, z :: zs, h => by
    rw [CrossedSeq] at h
    rw [ne_eq, comparisonSeq_cons_eq_true]
    rcases h with ⟨exy, eyz, h⟩ | ⟨-, -, ⟨exz, h⟩ | ⟨exz, h⟩ | ⟨e, exz⟩⟩
    · have exz := (equality_congr exy z).trans eyz
      simpa [exz] using CrossedSeq.not_comparison h
    · simpa [exz] using Crossed.not_comparison h
    · simpa [exz] using h
    · simp [exz]

end

/-! ## Going up -/

section Ascent

variable {S : Comparable → Prop} {T : List Comparable → Prop}
variable {x y z : Comparable} {xs ys zs : List Comparable}

/-- A step up to a member. -/
def Ascends (S : Comparable → Prop) (x y : Comparable) : Prop :=
  x.comparison y = .ok true ∧ S y

/-- A step up to a member, of sequences. -/
def AscendsSeq (T : List Comparable → Prop) (xs ys : List Comparable) : Prop :=
  comparisonSeq xs ys = .ok true ∧ T ys

/-- The first elements of the members. -/
def Firsts (T : List Comparable → Prop) (y : Comparable) : Prop :=
  ∃ ys, T (y :: ys)

/-- What is left of the members that start as `x` does. -/
def Rests (T : List Comparable → Prop) (x : Comparable) (ys : List Comparable) : Prop :=
  ∃ y, x.equality y = .ok true ∧ T (y :: ys)

open Relation (TransGen)

/-- From a sequence the order leads to sequences of its kind only. -/
theorem exists_seq_of_ascent {k : SeqKind} (h : TransGen (Ascends S) (.seq k xs) z) :
    ∃ zs, z = .seq k zs ∧ TransGen (AscendsSeq fun ys => S (.seq k ys)) xs zs := by
  have hstep : ∀ {ys z}, Ascends S (.seq k ys) z →
      ∃ zs, z = .seq k zs ∧ AscendsSeq (fun ys => S (.seq k ys)) ys zs := by
    rintro ys z ⟨hyz, hz⟩
    cases z with
    | seq l zs =>
      obtain ⟨rfl, hyzs⟩ := comparison_seq_eq_true.1 hyz
      exact ⟨zs, rfl, hyzs, hz⟩
    | _ => cases hyz
  induction h with
  | single h =>
    obtain ⟨zs, rfl, hs⟩ := hstep h
    exact ⟨zs, rfl, .single hs⟩
  | tail _ h ih =>
    obtain ⟨ys, rfl, hys⟩ := ih
    obtain ⟨zs, rfl, hs⟩ := hstep h
    exact ⟨zs, rfl, hys.tail hs⟩

/-- The heads of ascending lists ascend, and where they are equal so do the tails. -/
theorem exists_cons_of_ascendsSeq (h : AscendsSeq T (y :: ys) zs) :
    ∃ z rest, zs = z :: rest ∧ Ascends (Firsts T) y z ∧
      ((y.equality z = .ok true ∧ comparisonSeq ys rest = .ok true) ∨ y.equality z = .ok false) := by
  obtain ⟨hyz, hT⟩ := h
  cases zs with
  | nil => cases hyz
  | cons z rest =>
    rcases comparisonSeq_cons_eq_true.1 hyz with ⟨eyz, hrest⟩ | ⟨eyz, hyz⟩
    · exact ⟨z, rest, rfl, ⟨comparison_of_equality eyz, rest, hT⟩, .inl ⟨eyz, hrest⟩⟩
    · exact ⟨z, rest, rfl, ⟨hyz, rest, hT⟩, .inr eyz⟩

/-- If sequences ascend, their first elements do. What follows these ascends as well, as long as
none of them parts from the first of all. -/
theorem exists_cons_of_ascent (h : TransGen (AscendsSeq T) (x :: xs) zs) :
    ∃ z rest, zs = z :: rest ∧ TransGen (Ascends (Firsts T)) x z ∧
      ((x.equality z = .ok true ∧ TransGen (AscendsSeq (Rests T x)) xs rest) ∨
        ∃ y, Firsts T y ∧ x.equality y = .ok false) := by
  induction h with
  | single h =>
    obtain ⟨z, rest, rfl, hxz, ⟨exz, hrest⟩ | exz⟩ := exists_cons_of_ascendsSeq h
    · exact ⟨z, rest, rfl, .single hxz, .inl ⟨exz, .single ⟨hrest, z, exz, h.2⟩⟩⟩
    · exact ⟨z, rest, rfl, .single hxz, .inr ⟨z, hxz.2, exz⟩⟩
  | tail _ h ih =>
    obtain ⟨y, ys, rfl, hxy, ih⟩ := ih
    obtain ⟨z, rest, rfl, hyz, hstep⟩ := exists_cons_of_ascendsSeq h
    refine ⟨z, rest, rfl, hxy.tail hyz, ?_⟩
    rcases ih with ⟨exy, hys⟩ | hparted
    · rw [← equality_congr exy z] at hstep
      rcases hstep with ⟨exz, hrest⟩ | exz
      · exact .inl ⟨exz, hys.tail ⟨hrest, z, exz, h.2⟩⟩
      · exact .inr ⟨z, hyz.2, exz⟩
    · exact .inr hparted

/-- As long as no step crosses anything, an ascent leads to values above its start. -/
theorem comparison_of_ascent (hcrossed : ∀ y z, S y → x.comparison y = .ok true →
    y.comparison z = .ok true → ¬Crossed x y z) (h : TransGen (Ascends S) x z) :
    x.comparison z = .ok true := by
  have hmem : x.comparison z = .ok true ∧ S z := by
    induction h with
    | single h => exact h
    | tail _ h ih =>
      exact ⟨(comparison_trans_iff _ _ _ ih.1 h.1).2 (hcrossed _ _ ih.2 ih.1 h.1), h.2⟩
  exact hmem.1

mutual

/-- If the end of an ascent cannot be told from its start, then some member parts from both. -/
theorem exists_parted : ∀ {x z : Comparable} {S : Comparable → Prop} {e : Obstacle},
    TransGen (Ascends S) x z → x.equality z = .error e →
      ∃ y, S y ∧ x.equality y = .ok false ∧ y.equality z = .ok false
  | .seq k xs, z, S, e, h, hxz => by
    obtain ⟨zs, rfl, hseq⟩ := exists_seq_of_ascent h
    rw [equality] at hxz
    split at hxz
    · obtain ⟨ys, hys, hxys, hyzs⟩ := exists_partedSeq hseq hxz
      refine ⟨.seq k ys, hys, ?_⟩
      rw [equality, equality, hxys, hyzs]
      exact ⟨ite_self _, ite_self _⟩
    · cases hxz
  -- an instant that is at or below another lies in the calendar, and so does the other
  | .time i, z, S, e, h, hxz => by
    have hiz : (time i).comparison z = .ok true := comparison_of_ascent (fun _ _ _ _ _ h => h) h
    cases z with
    | time j => cases i <;> cases j <;> simp_all [comparison, equality, relate]
    | _ => cases hxz
  | .number _, z, S, e, h, hxz | .bool _, z, S, e, h, hxz | .text _, z, S, e, h, hxz => by
    cases z <;> cases hxz

/-- Where equality of the outer lists of a climb overflows, a list on the way is apart from both. -/
theorem exists_partedSeq : ∀ {xs zs : List Comparable} {T : List Comparable → Prop} {e : Obstacle},
    TransGen (AscendsSeq T) xs zs → equalityAll xs zs = .error e →
      ∃ ys, T ys ∧ equalityAll xs ys = .ok false ∧ equalityAll ys zs = .ok false
  | x :: xs, zs, T, e, h, hxz => by
    obtain ⟨z, zs, rfl, hfirsts, hrests⟩ := exists_cons_of_ascent h
    rw [equalityAll] at hxz
    rcases exz : x.equality z with _ | _ | _ <;> rw [exz] at hxz
    · obtain ⟨y, ⟨ys, hys⟩, exy, eyz⟩ := exists_parted hfirsts exz
      refine ⟨y :: ys, hys, ?_⟩
      rw [equalityAll, equalityAll, exy, eyz]
      exact ⟨rfl, rfl⟩
    · cases hxz
    · rcases hrests with ⟨-, hrests⟩ | ⟨y, ⟨ys, hys⟩, exy⟩
      · obtain ⟨ys, ⟨y, exy, hys⟩, hxys, hyzs⟩ := exists_partedSeq hrests hxz
        refine ⟨y :: ys, hys, ?_⟩
        rw [equalityAll, equalityAll, exy, ← equality_congr exy z, exz]
        exact ⟨hxys, hyzs⟩
      · have eyz : y.equality z = .ok false := by
          rw [equality_comm y z, ← equality_congr exz y, exy]
        refine ⟨y :: ys, hys, ?_⟩
        rw [equalityAll, equalityAll, exy, eyz]
        exact ⟨rfl, rfl⟩

end

mutual

/-- The end of an ascent is above its start, unless some member crosses the two. -/
theorem comparison_or_crossed : ∀ {x z : Comparable} {S : Comparable → Prop},
    TransGen (Ascends S) x z → x.comparison z = .ok true ∨ ∃ y, S y ∧ Crossed x y z
  | .seq k xs, z, S, h => by
    obtain ⟨zs, rfl, hseq⟩ := exists_seq_of_ascent h
    rcases comparison_or_crossedSeq hseq with hxz | ⟨ys, hys, hcrossed⟩
    · exact .inl (comparison_seq_eq_true.2 ⟨rfl, hxz⟩)
    · exact .inr ⟨.seq k ys, hys, hcrossed⟩
  | .number _, z, S, h | .bool _, z, S, h | .text _, z, S, h | .time _, z, S, h =>
    .inl (comparison_of_ascent (fun _ _ _ _ _ h => h) h)

/-- The outer lists of a climb are in order unless they are crossed by one on the way. -/
theorem comparison_or_crossedSeq : ∀ {xs zs : List Comparable} {T : List Comparable → Prop},
    TransGen (AscendsSeq T) xs zs →
      comparisonSeq xs zs = .ok true ∨ ∃ ys, T ys ∧ CrossedSeq xs ys zs
  | [], _, _, _ => .inl rfl
  | x :: xs, zs, T, h => by
    obtain ⟨z, zs, rfl, hfirsts, hrests⟩ := exists_cons_of_ascent h
    rw [comparisonSeq_cons_eq_true]
    rcases exz : x.equality z with e | _ | _
    -- a member that parts from both crosses them, whatever comes later
    · obtain ⟨y, ⟨ys, hys⟩, exy, eyz⟩ := exists_parted hfirsts exz
      exact .inr ⟨y :: ys, hys, .inr ⟨exy, eyz, .inr (.inr ⟨e, exz⟩)⟩⟩
    -- the outer ones part here, so the first elements decide
    · rcases comparison_or_crossed hfirsts with hxz | ⟨y, ⟨ys, hys⟩, hcrossed⟩
      · exact .inl (.inr ⟨rfl, hxz⟩)
      · obtain ⟨exy, eyz⟩ := hcrossed.parts
        exact .inr ⟨y :: ys, hys, .inr ⟨exy, eyz, .inl ⟨exz, hcrossed⟩⟩⟩
    -- the outer ones agree here; either all members do, or one leads astray
    · rcases hrests with ⟨-, hrests⟩ | ⟨y, ⟨ys, hys⟩, exy⟩
      · rcases comparison_or_crossedSeq hrests with hxz | ⟨ys, ⟨y, exy, hys⟩, hcrossed⟩
        · exact .inl (.inl ⟨rfl, hxz⟩)
        · have eyz := (equality_congr exy z).symm.trans exz
          exact .inr ⟨y :: ys, hys, .inl ⟨exy, eyz, hcrossed⟩⟩
      · have eyz : y.equality z = .ok false := by
          rw [equality_comm y z, ← equality_congr exz y, exy]
        by_cases hxz : comparisonSeq xs zs = .ok true
        · exact .inl (.inl ⟨rfl, hxz⟩)
        · exact .inr ⟨y :: ys, hys, .inr ⟨exy, eyz, .inr (.inl ⟨exz, hxz⟩)⟩⟩

end

/-- The end of an ascent is above its start just if no member crosses the two. -/
theorem comparison_iff_of_ascent (h : TransGen (Ascends S) x z) :
    x.comparison z = .ok true ↔ ∀ y, S y → ¬Crossed x y z := by
  constructor
  · intro hxz y _ hcrossed
    exact hcrossed.not_comparison hxz
  · intro hcrossed
    rcases comparison_or_crossed h with hxz | ⟨y, hy, hxyz⟩
    · exact hxz
    · exact absurd hxyz (hcrossed y hy)

end Ascent

end Comparable

end CheckedCalls
