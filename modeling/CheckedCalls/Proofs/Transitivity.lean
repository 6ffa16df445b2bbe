import CheckedCalls.Evaluate
import CheckedCalls.Proofs.Comparison

/-!
# Transitivity of the order

Sequences are compared at the first place where they are not equal, and the two zeros are not equal
although each is at or below the other. So a sequence with one zero lies between two sequences with
the other zero whatever comes after it, and the order of those two is decided later. `Crossed` says
where that happens, and it is the only way in which the order is not transitive
(`lte_trans_iff`). Without negative zeros the order is transitive (`lte_trans`).
-/

namespace CheckedCalls

namespace Comparable

/-! ## Crossing -/

mutual

/-- Of three sequences the middle one parts from the others at a place where these do not part, and
they are not in order after it; or the three cross further down. -/
def Crossed : Comparable → Comparable → Comparable → Prop
  | .seq _ xs, .seq _ ys, .seq _ zs => CrossedSeq xs ys zs
  | _, _, _ => False

/-- Places where all three agree are passed over. -/
def CrossedSeq : List Comparable → List Comparable → List Comparable → Prop
  | x :: xs, y :: ys, z :: zs =>
    (x.equality y = .ok true ∧ y.equality z = .ok true ∧ CrossedSeq xs ys zs) ∨
    (x.equality y = .ok false ∧ y.equality z = .ok false ∧
      ((x.equality z = .ok false ∧ Crossed x y z) ∨
        (x.equality z = .ok true ∧ comparisonSeq xs zs ≠ .ok true) ∨
          ∃ e, x.equality z = .error e))
  | _, _, _ => False

end

/-- A list is at most another exactly if it is so at the first elements that are not equal. -/
theorem comparisonSeq_cons_eq_true {x y : Comparable} {xs ys : List Comparable} :
    comparisonSeq (x :: xs) (y :: ys) = .ok true ↔
      (x.equality y = .ok true ∧ comparisonSeq xs ys = .ok true) ∨
        (x.equality y = .ok false ∧ x.comparison y = .ok true) := by
  rw [comparisonSeq]
  rcases x.equality y with _ | _ | _ <;> simp [bind, Except.bind]

/-- A sequence is at most another exactly if they are of one kind and the elements are so. -/
theorem comparison_seq_eq_true {k l : SeqKind} {xs ys : List Comparable} :
    (seq k xs).comparison (seq l ys) = .ok true ↔ k = l ∧ comparisonSeq xs ys = .ok true := by
  rw [comparison]
  split <;> simp_all

/-- The first and the last of three sequences are in order just if they are not crossed, given that
this is so for their elements. -/
theorem comparisonSeq_trans_iff_of {xs ys zs : List Comparable}
    (h : ∀ x ∈ xs, ∀ y z, x.comparison y = .ok true → y.comparison z = .ok true →
      (x.comparison z = .ok true ↔ ¬Crossed x y z))
    (hxy : comparisonSeq xs ys = .ok true) (hyz : comparisonSeq ys zs = .ok true) :
    comparisonSeq xs zs = .ok true ↔ ¬CrossedSeq xs ys zs := by
  induction xs generalizing ys zs with
  | nil => simp [comparisonSeq, CrossedSeq]
  | cons x xs ih =>
    rw [List.forall_mem_cons] at h
    rcases ys with _ | ⟨y, ys⟩
    · cases hxy
    rcases zs with _ | ⟨z, zs⟩
    · cases hyz
    rw [comparisonSeq_cons_eq_true] at hxy hyz
    rw [comparisonSeq_cons_eq_true, CrossedSeq]
    rcases hxy with ⟨exy, hxy⟩ | ⟨exy, hxy⟩ <;> rcases hyz with ⟨eyz, hyz⟩ | ⟨eyz, hyz⟩
    -- all three agree, and the rest decides
    · have exz := (equality_congr exy z).trans eyz
      simpa [exy, eyz, exz] using ih h.2 hxy hyz
    -- the first two agree, so the first parts from the third as the second does
    · have exz := (equality_congr exy z).trans eyz
      have hxz := (comparison_congr exy z).1.trans hyz
      simp [exy, exz, hxz, eyz]
    -- the last two agree, so the third parts from the first as the second does
    · have exz : x.equality z = .ok false := by
        rw [equality_comm x z, ← equality_congr eyz x, equality_comm y x, exy]
      have hxz := (comparison_congr eyz x).2.symm.trans hxy
      simp [exy, exz, hxz, eyz]
    -- the second parts from both
    · have hxz := h.1 y z hxy hyz
      rcases exz : x.equality z with e | _ | _
      · simp [exy, eyz]
      · simpa [exy, eyz] using hxz
      · simp [exy, eyz]

/-- The order of instants is transitive where none of them lies outside the calendar. -/
theorem relate_le_trans {i j l : Option Instant}
    (hij : relate (fun i j => decide (i ≤ j)) i j = .ok true)
    (hjl : relate (fun i j => decide (i ≤ j)) j l = .ok true) :
    relate (fun i j => decide (i ≤ j)) i l = .ok true := by
  cases i <;> cases j <;> cases l <;> simp_all [relate]
  exact Int.le_trans hij hjl

/-- Transitivity fails just where three values are crossed. -/
theorem comparison_trans_iff : ∀ (x y z : Comparable), x.comparison y = .ok true →
    y.comparison z = .ok true → (x.comparison z = .ok true ↔ ¬Crossed x y z)
  | .number m, .number n, .number k, hxy, hyz => by
    have hmk := Number.lte_trans (Except.ok.inj hxy) (Except.ok.inj hyz)
    simp [comparison, hmk, Crossed]
  | .bool a, .bool b, .bool c, hxy, hyz => by
    cases a <;> cases b <;> cases c <;> simp_all [comparison, Crossed]
  | .text a, .text b, .text c, hxy, hyz => by
    simp only [comparison, Except.ok.injEq, decide_eq_true_eq] at hxy hyz
    simp [comparison, String.le_trans hxy hyz, Crossed]
  | .time i, .time j, .time l, hxy, hyz => by
    simp [comparison, relate_le_trans hxy hyz, Crossed]
  | .seq k xs, .seq l ys, .seq m zs, hxy, hyz => by
    obtain ⟨rfl, hxys⟩ := comparison_seq_eq_true.1 hxy
    obtain ⟨rfl, hyzs⟩ := comparison_seq_eq_true.1 hyz
    rw [comparison_seq_eq_true, Crossed, eq_self, true_and]
    exact comparisonSeq_trans_iff_of (fun x hx y z => comparison_trans_iff x y z) hxys hyzs

/-! ## Without negative zeros -/

mutual

/-- No negative zero occurs. -/
def isUnsigned : Comparable → Bool
  | .number n => !n.isNegativeZero
  | .seq _ xs => areUnsigned xs
  | .bool _ | .text _ | .time _ => true

/-- No negative zero occurs in any of them. -/
def areUnsigned : List Comparable → Bool
  | [] => true
  | x :: xs => isUnsigned x && areUnsigned xs

end

mutual

/-- Values at or below each other are equal. -/
theorem equality_of_comparison : ∀ {a b : Comparable}, a.isUnsigned = true → b.isUnsigned = true →
    a.comparison b = .ok true → b.comparison a = .ok true → a.equality b = .ok true
  | .number m, .number n, hm, hn, hab, hba => by
    rw [isUnsigned, Bool.not_eq_true'] at hm hn
    have hsign : m.isNegativeZero = n.isNegativeZero := hm.trans hn.symm
    have hpoint := Number.point?_eq_of_lte (Except.ok.inj hab) (Except.ok.inj hba)
    exact congrArg Except.ok (Number.equals_iff.2 ⟨hpoint, fun _ => hsign⟩)
  | .bool a, .bool b, _, _, hab, hba => by
    cases a <;> cases b <;> simp_all [comparison, equality]
  | .text a, .text b, _, _, hab, hba => by
    simp only [comparison, Except.ok.injEq, decide_eq_true_eq] at hab hba
    simp [equality, String.le_antisymm hab hba]
  | .time i, .time j, _, _, hab, hba => by
    cases i <;> cases j <;> simp_all [comparison, equality, relate]
    exact Int.le_antisymm hab hba
  | .seq k xs, .seq l ys, hx, hy, hab, hba => by
    obtain ⟨rfl, habs⟩ := comparison_seq_eq_true.1 hab
    obtain ⟨-, hbas⟩ := comparison_seq_eq_true.1 hba
    obtain ⟨hlength, hall⟩ := equalityAll_of_comparisonSeq hx hy habs hbas
    exact equality_seq_eq_true.2 ⟨rfl, hlength, hall⟩

/-- Lists without signed zeros that are each at most the other are equal. -/
theorem equalityAll_of_comparisonSeq : ∀ {xs ys : List Comparable}, areUnsigned xs = true →
    areUnsigned ys = true → comparisonSeq xs ys = .ok true → comparisonSeq ys xs = .ok true →
      xs.length = ys.length ∧ equalityAll xs ys = .ok true
  | [], [], _, _, _, _ => ⟨rfl, rfl⟩
  | x :: xs, y :: ys, hx, hy, hxy, hyx => by
    rw [areUnsigned, Bool.and_eq_true] at hx hy
    rw [comparisonSeq_cons_eq_true] at hxy hyx
    rw [equality_comm y x] at hyx
    have hfirst : x.equality y = .ok true := by
      rcases hxy with ⟨e, -⟩ | ⟨exy, hxy⟩
      · exact e
      · rcases hyx with ⟨e, -⟩ | ⟨-, hyx⟩
        · exact e
        · exact equality_of_comparison hx.1 hy.1 hxy hyx
    simp only [hfirst, true_and, Except.ok.injEq, Bool.true_eq_false, false_and, or_false] at hxy hyx
    obtain ⟨hlength, hall⟩ := equalityAll_of_comparisonSeq hx.2 hy.2 hxy hyx
    exact ⟨congrArg Nat.succ hlength, equalityAll_cons_eq_true.2 ⟨hfirst, hall⟩⟩

end

mutual

/-- Three values in order are not crossed, and the outer ones can be told apart or not. -/
theorem not_crossed_of_isUnsigned : ∀ {x y z : Comparable}, x.isUnsigned = true →
    y.isUnsigned = true → x.comparison y = .ok true → y.comparison z = .ok true →
      (∀ e, x.equality z ≠ .error e) ∧ ¬Crossed x y z
  | .number m, .number n, .number k, _, _, _, _ => ⟨by simp [equality], by simp [Crossed]⟩
  | .bool a, .bool b, .bool c, _, _, _, _ => ⟨by simp [equality], by simp [Crossed]⟩
  | .text a, .text b, .text c, _, _, _, _ => ⟨by simp [equality], by simp [Crossed]⟩
  | .time i, .time j, .time l, _, _, hxy, hyz => by
    refine ⟨?_, by simp [Crossed]⟩
    cases i <;> cases j <;> cases l <;> simp_all [comparison, equality, relate]
  | .seq k xs, .seq l ys, .seq m zs, hx, hy, hxy, hyz => by
    obtain ⟨rfl, hxys⟩ := comparison_seq_eq_true.1 hxy
    obtain ⟨rfl, hyzs⟩ := comparison_seq_eq_true.1 hyz
    obtain ⟨herror, hcrossed⟩ := not_crossedSeq_of_areUnsigned hx hy hxys hyzs
    refine ⟨?_, hcrossed⟩
    intro e
    rw [equality]
    split
    · exact herror e
    · simp

/-- Lists without signed zeros are never crossed. -/
theorem not_crossedSeq_of_areUnsigned : ∀ {xs ys zs : List Comparable}, areUnsigned xs = true →
    areUnsigned ys = true → comparisonSeq xs ys = .ok true → comparisonSeq ys zs = .ok true →
      (∀ e, equalityAll xs zs ≠ .error e) ∧ ¬CrossedSeq xs ys zs
  | [], _, _, _, _, _, _ => ⟨by simp [equalityAll], by simp [CrossedSeq]⟩
  | x :: xs, y :: ys, z :: zs, hx, hy, hxy, hyz => by
    rw [areUnsigned, Bool.and_eq_true] at hx hy
    rw [comparisonSeq_cons_eq_true] at hxy hyz
    rw [equalityAll, CrossedSeq]
    rcases hxy with ⟨exy, hxy⟩ | ⟨exy, hxy⟩ <;> rcases hyz with ⟨eyz, hyz⟩ | ⟨eyz, hyz⟩
    · have exz := (equality_congr exy z).trans eyz
      simpa [exy, eyz, exz, bind, Except.bind] using
        not_crossedSeq_of_areUnsigned hx.2 hy.2 hxy hyz
    · simp [exy, eyz, (equality_congr exy z).trans eyz, bind, Except.bind, pure, Except.pure]
    · have exz : x.equality z = .ok false := by
        rw [equality_comm x z, ← equality_congr eyz x, equality_comm y x, exy]
      simp [exy, eyz, exz, bind, Except.bind, pure, Except.pure]
    · obtain ⟨herror, hcrossed⟩ := not_crossed_of_isUnsigned hx.1 hy.1 hxy hyz
      rcases exz : x.equality z with e | _ | _
      · exact absurd exz (herror e)
      · simp [exy, eyz, hcrossed, bind, Except.bind, pure, Except.pure]
      -- the first and the second would be at or below each other
      · have hyx := (comparison_congr exz y).2.trans hyz
        cases exy.symm.trans (equality_of_comparison hx.1 hy.1 hxy hyx)

end

end Comparable

/-! ## Data -/

namespace Value

/-- The order of data is transitive just where the values are not crossed: of three sequences, the
middle one parts from the outer ones at a place where these are equal, and their order is decided
after it. -/
theorem lte_trans_iff (call : Apply) {x y z : Value}
    (hx : x.isData = true ∧ x.isOrd = true) (hy : y.isData = true ∧ y.isOrd = true)
    (hz : z.isData = true ∧ z.isOrd = true)
    (hxy : lte call x y = pure (.bool true)) (hyz : lte call y z = pure (.bool true)) :
    lte call x z = pure (.bool true) ↔ ¬Comparable.Crossed x.comparable y.comparable z.comparable := by
  have hox := ordered_of_isOrd x hx.1 hx.2
  have hoy := ordered_of_isOrd y hy.1 hy.2
  have hoz := ordered_of_isOrd z hz.1 hz.2
  rw [lte_eq_pure_iff call hox hoy] at hxy
  rw [lte_eq_pure_iff call hoy hoz] at hyz
  rw [lte_eq_pure_iff call hox hoz]
  exact Comparable.comparison_trans_iff _ _ _ hxy hyz

/-- The order of data without negative zeros is transitive. -/
theorem lte_trans (call : Apply) {x y z : Value}
    (hx : x.isData = true ∧ x.isOrd = true) (hy : y.isData = true ∧ y.isOrd = true)
    (hz : z.isData = true ∧ z.isOrd = true) (hux : x.comparable.isUnsigned = true)
    (huy : y.comparable.isUnsigned = true)
    (hxy : lte call x y = pure (.bool true)) (hyz : lte call y z = pure (.bool true)) :
    lte call x z = pure (.bool true) := by
  have hox := ordered_of_isOrd x hx.1 hx.2
  have hoy := ordered_of_isOrd y hy.1 hy.2
  have hoz := ordered_of_isOrd z hz.1 hz.2
  rw [lte_eq_pure_iff call hox hoy] at hxy
  rw [lte_eq_pure_iff call hoy hoz] at hyz
  rw [lte_eq_pure_iff call hox hoz, Comparable.comparison_trans_iff _ _ _ hxy hyz]
  exact (Comparable.not_crossed_of_isUnsigned hux huy hxy hyz).2

/-! ## Zeros -/

/-- A list of a zero of either sign and an integer. -/
def zeroThen (negative : Bool) (n : Int) : Value :=
  .list [.number .fresh (.float (.finite negative 0)), .int n]

theorem isOrd_zeroThen (s : Bool) (n : Int) :
    (zeroThen s n).isData = true ∧ (zeroThen s n).isOrd = true := ⟨rfl, rfl⟩

theorem point?_zero (s : Bool) : (Number.float (.finite s 0)).point? = some (.at 0) := by
  cases s <;> simp [Number.point?, Binary64.ratOfUnits, Binary64.signedUnits]

/-- Zeros are equal exactly if their signs are. -/
theorem equals_zero (s t : Bool) :
    (Number.float (.finite s 0)).equals (.float (.finite t 0)) = (s == t) := by
  rw [Bool.eq_iff_iff, Number.equals_iff, point?_zero, point?_zero]
  cases s <;> cases t <;> simp [Number.isNegativeZero, Binary64.isNegativeZero]

/-- Each zero is at most the other. -/
theorem lte_zero (s t : Bool) :
    (Number.float (.finite s 0)).lte (.float (.finite t 0)) = true := by
  rw [Number.lte_iff, point?_zero, point?_zero]
  simp [Point.le]

theorem equals_int (m n : Int) : (Number.int m).equals (.int n) = decide (m = n) := by
  rw [Bool.eq_iff_iff, Number.equals_iff]
  simp [Number.point?, Number.isNegativeZero]

theorem lte_int (m n : Int) : (Number.int m).lte (.int n) = decide (m ≤ n) := by
  rw [Bool.eq_iff_iff, Number.lte_iff, decide_eq_true_eq, ← Rat.intCast_le_intCast]
  simp [Number.point?, Point.le]

/-- Behind zeros of one sign the integers decide; zeros of different signs are at or below each
other. -/
theorem lte_zeroThen (call : Apply) (s t : Bool) (m n : Int) :
    lte call (zeroThen s m) (zeroThen t n) = pure (.bool (s != t || decide (m ≤ n))) := by
  have hs := isOrd_zeroThen s m
  have ht := isOrd_zeroThen t n
  rw [lte_eq_pure_iff call (ordered_of_isOrd _ hs.1 hs.2) (ordered_of_isOrd _ ht.1 ht.2)]
  show Comparable.comparison (.seq .list [.number (.float (.finite s 0)), .number (.int m)])
    (.seq .list [.number (.float (.finite t 0)), .number (.int n)]) = _
  simp only [Comparable.comparison, Comparable.comparisonSeq, Comparable.equality, equals_zero,
    lte_zero, equals_int, lte_int]
  by_cases hst : s = t <;> by_cases hmn : m = n <;>
    simp [hst, hmn, bind, Except.bind]

/-- A list with a negative zero lies between two lists that are not in order. -/
theorem lte_zeroThen_not_trans :
    lte applyFunction (zeroThen false 2) (zeroThen true 0) = pure (.bool true) ∧
      lte applyFunction (zeroThen true 0) (zeroThen false 1) = pure (.bool true) ∧
        lte applyFunction (zeroThen false 2) (zeroThen false 1) = pure (.bool false) :=
  ⟨lte_zeroThen _ _ _ _ _, lte_zeroThen _ _ _ _ _, lte_zeroThen _ _ _ _ _⟩

theorem lte_trans_iff_zeroThen :
    lte applyFunction (zeroThen false 2) (zeroThen false 1) = pure (.bool true) ↔
      ¬Comparable.Crossed (zeroThen false 2).comparable (zeroThen true 0).comparable
        (zeroThen false 1).comparable :=
  lte_trans_iff applyFunction (isOrd_zeroThen _ _) (isOrd_zeroThen _ _) (isOrd_zeroThen _ _)
    (lte_zeroThen _ _ _ _ _) (lte_zeroThen _ _ _ _ _)

end Value

end CheckedCalls
