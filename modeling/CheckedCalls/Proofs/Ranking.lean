import CheckedCalls.Proofs.Climbing
import CheckedCalls.Proofs.Hashing

/-!
# The order is total where it answers

The order refuses some pairs of values, and it can refuse two sequences at any depth. Whether it
does depends neither on the side on which a value stands nor on which of several equal values it is,
and a pair that it accepts it puts in order (`lte_total_congr`). Sequences are compared at the first
place where they are not equal; since the equality is an equivalence, both sides find the same
place, and equal sequences find the same place in a third.
-/

namespace CheckedCalls

/-! ## Ranks -/

/-- Where a value stands that is no sequence. -/
inductive Rank
  /-- A number by the point that it denotes. What denotes none is below all others. -/
  | number (p : Option Point)
  | bool (b : Bool)
  | text (s : String)
  | instant (i : Instant)
  /-- Values of other kinds have no place. -/
  | outside

namespace Rank

/-- The order of points, with what denotes none below all of them. -/
def below : Option Point → Option Point → Bool
  | none, _ => true
  | some _, none => false
  | some p, some q => p.le q

theorem below_total : ∀ {p q : Option Point}, below p q = false → below q p = true
  | some _, none, _ => rfl
  | some _, some _, h => Point.le_total h

/-- The order of ranks: nothing where there is none. -/
def lte : Rank → Rank → Option Bool
  | .number p, .number q => some (below p q)
  | .bool a, .bool b => some (!a || b)
  | .text a, .text b => some (decide (a ≤ b))
  | .instant i, .instant j => some (decide (i ≤ j))
  | _, _ => none

end Rank

/-- The rank of what an equality sees. -/
def Form.rank : Form → Rank
  | .atom (.number p _) => .number p
  | .atom (.bool b) => .bool b
  | .atom (.text s) => .text s
  | .atom (.instant i) => .instant i
  | _ => .outside

/-- Forms that agree in one step of a comparison have one rank. -/
theorem Form.Step.rank_eq {part keyed inside : Value → Value → Prop} {a b : Form}
    (h : a.Step part keyed inside b) : a.rank = b.rank := by
  cases a <;> cases b <;> first | exact False.elim h | rfl | exact congrArg (rank ∘ atom) h

/-! ## Verdicts -/

/-- What the order says of two values and of the same two the other way round: nothing either way,
or that one of them is at or below the other. -/
inductive Opposed : Option Bool → Option Bool → Prop
  | refused : Opposed none none
  | below (b : Bool) : Opposed (some true) (some b)
  | above (b : Bool) : Opposed (some b) (some true)

/-- Two answers of which one at least is positive are opposed. -/
theorem opposed_of_total {a b : Bool} (h : a = false → b = true) : Opposed (some a) (some b) := by
  cases a with
  | true => exact .below b
  | false =>
    rw [h rfl]
    exact .above false

/-- The orders of two ranks, one way and the other, are opposed. -/
theorem Rank.opposed : ∀ r s : Rank, Opposed (r.lte s) (s.lte r)
  | .number _, .number _ => opposed_of_total below_total
  | .bool a, .bool b => opposed_of_total (by cases a <;> cases b <;> simp)
  | .text a, .text b => opposed_of_total fun h =>
    decide_eq_true ((String.le_total a b).resolve_left (of_decide_eq_false h))
  | .instant i, .instant j => opposed_of_total fun h =>
    decide_eq_true ((Int.le_total i j).resolve_left (of_decide_eq_false h))
  | .outside, s => by cases s <;> exact .refused
  | .number _, .bool _ | .number _, .text _ | .number _, .instant _ | .number _, .outside => .refused
  | .bool _, .number _ | .bool _, .text _ | .bool _, .instant _ | .bool _, .outside => .refused
  | .text _, .number _ | .text _, .bool _ | .text _, .instant _ | .text _, .outside => .refused
  | .instant _, .number _ | .instant _, .bool _ | .instant _, .text _ | .instant _, .outside =>
    .refused

namespace Run

/-- The run answers a truth value, or where nothing is given, it fails since two values have no
order. Either way it leaves the world as it is. -/
def Judges (r : Run Value) (w : World) : Option Bool → Prop
  | some b => r.Answers w (.bool b)
  | none => ∃ x y, r.outcome w = (.error (.notComparable x y), w)

/-- A run has one judgement in a world. -/
theorem Judges.unique {r : Run Value} {w : World} {u v : Option Bool} (hu : r.Judges w u)
    (hv : r.Judges w v) : u = v := by
  rcases u with _ | a <;> rcases v with _ | b
  · rfl
  · obtain ⟨x, y, hr⟩ := hu
    cases hr.symm.trans hv
  · obtain ⟨x, y, hr⟩ := hv
    cases hr.symm.trans hu
  · cases Answers.unique hu hv
    rfl

theorem judges_answer (b : Bool) (w : World) : (answer b).Judges w (some b) := rfl

theorem Answers.judges_bind_iff {α : Type} {r : Run α} {f : α → Run Value} {w : World} {a : α}
    {v : Option Bool} (h : r.Answers w a) : (r >>= f).Judges w v ↔ (f a).Judges w v := by
  have hout : (r >>= f).outcome w = (f a).outcome w := by rw [outcome_bind, h]
  cases v <;> simp only [Judges, Answers, hout]

end Run

namespace Value

theorem judges_incomparable (x y : Value) (w : World) : (incomparable x y).Judges w none :=
  ⟨_, _, rfl⟩

theorem number_lte_eq (m n : Number) : m.lte n = Rank.below m.point? n.point? := by
  rw [Bool.eq_iff_iff, Number.lte_iff]
  rcases m.point? with _ | p <;> rcases n.point? with _ | q <;> simp [Rank.below]

section Relations

variable {call : Apply} {w : World} {store : Nat → Value} {x y z : Value}

/-! ## Values that are no sequences of one kind -/

/-- Values that are not two sequences of one kind are compared by rank. -/
theorem lte_judges_rank (hx : Sound call w store x) (hy : Sound call w store y)
    (hseq : ∀ k s xs l t ys, x = .seq k s xs → y = .seq l t ys → k ≠ l) :
    (lte call x y).Judges w (x.lawForm.rank.lte y.lawForm.rank) := by
  cases hx with
  | number hm =>
    cases hy with
    | number hn =>
      show Run.Judges _ _ (some (Rank.below _ _))
      rw [← number_lte_eq]
      exact Run.judges_answer _ w
    | _ => exact judges_incomparable _ _ w
  | bool | text =>
    cases hy <;> first | exact Run.judges_answer _ w | exact judges_incomparable _ _ w
  | date hm hd =>
    cases hy with
    | date => exact Run.judges_answer _ w
    | moment hn hj => exact (answers_instant hj).judges_bind_iff.2 (Run.judges_answer _ w)
    | _ => exact judges_incomparable _ _ w
  | moment hm hi =>
    cases hy with
    | date => exact (answers_instant hi).judges_bind_iff.2 (Run.judges_answer _ w)
    | moment hn hj =>
      exact (answers_instant hi).judges_bind_iff.2
        ((answers_instant hj).judges_bind_iff.2 (Run.judges_answer _ w))
    | _ => exact judges_incomparable _ _ w
  | @seq k n xs =>
    cases hy with
    | @seq l m ys =>
      rw [lte, if_neg (hseq k _ xs l _ ys rfl rfl)]
      exact judges_incomparable _ _ w
    | _ => exact judges_incomparable _ _ w
  | _ => cases hy <;> exact judges_incomparable _ _ w

/-- What is equal to a sequence is a sequence of its kind. -/
theorem Equal.exists_seq {k : SeqKind} {s : Tag} {xs : List Value}
    (hx : Sound call w store (.seq k s xs)) (hy : Sound call w store y)
    (h : Equal call w (.seq k s xs) y) :
    ∃ t ys, y = .seq k t ys ∧ xs.Forall₂ (Equal call w) ys := by
  have hstep := (equal_iff hx hy).1 h
  cases hy with
  | seq =>
    obtain ⟨rfl, hall⟩ := hstep
    exact ⟨_, _, rfl, hall⟩
  | _ => exact False.elim hstep

/-! ## Both ways round -/

section Sequences

variable {xs ys : List Value}

/-- While the first elements are equal, the order of sequences goes on with the others. -/
theorem lteSeq_judges_cons (hx : Sound call w store x) (hy : Sound call w store y)
    {v : Option Bool} : (lteSeq call (x :: xs) (y :: ys)).Judges w v ↔
      (Equal call w x y ∧ (lteSeq call xs ys).Judges w v) ∨
        (¬Equal call w x y ∧ (lte call x y).Judges w v) := by
  obtain ⟨b, hb, hequal⟩ := ((settled call w store).equals hx hy).truth call
  have hb : (areEqual call x y).Answers w b := hb
  rw [lteSeq, hb.judges_bind_iff, ← hequal]
  cases b <;> simp

/-- The order of sequences judges them as opposed as it judges their elements. -/
theorem lteSeq_opposed (hxs : ∀ x ∈ xs, Sound call w store x) (hys : ∀ y ∈ ys, Sound call w store y)
    (h : ∀ x ∈ xs, ∀ y ∈ ys, ∃ u v, (lte call x y).Judges w u ∧ (lte call y x).Judges w v ∧
      Opposed u v) :
    ∃ u v, (lteSeq call xs ys).Judges w u ∧ (lteSeq call ys xs).Judges w v ∧ Opposed u v := by
  induction xs generalizing ys with
  | nil =>
    cases ys with
    | nil => exact ⟨_, _, Run.judges_answer true w, Run.judges_answer true w, .below true⟩
    | cons y ys => exact ⟨_, _, Run.judges_answer true w, Run.judges_answer false w, .below false⟩
  | cons x xs ih =>
    cases ys with
    | nil => exact ⟨_, _, Run.judges_answer false w, Run.judges_answer true w, .above false⟩
    | cons y ys =>
      rw [List.forall_mem_cons] at hxs hys
      have hcomm : Equal call w y x ↔ Equal call w x y :=
        ⟨(settled call w store).equiv_equal.symm hys.1 hxs.1,
          (settled call w store).equiv_equal.symm hxs.1 hys.1⟩
      simp only [lteSeq_judges_cons hxs.1 hys.1, lteSeq_judges_cons hys.1 hxs.1, hcomm]
      by_cases hequal : Equal call w x y
      · obtain ⟨u, v, hu, hv, huv⟩ := ih hxs.2 hys.2 fun x hx y hy =>
          h x (List.mem_cons_of_mem _ hx) y (List.mem_cons_of_mem _ hy)
        exact ⟨u, v, .inl ⟨hequal, hu⟩, .inl ⟨hequal, hv⟩, huv⟩
      · obtain ⟨u, v, hu, hv, huv⟩ := h x (by simp) y (by simp)
        exact ⟨u, v, .inr ⟨hequal, hu⟩, .inr ⟨hequal, hv⟩, huv⟩

end Sequences

/-- The orders of two values that are no two sequences of one kind are opposed. -/
theorem lte_opposed_of_rank (hx : Sound call w store x) (hy : Sound call w store y)
    (hseq : ∀ k s xs l t ys, x = .seq k s xs → y = .seq l t ys → k ≠ l) :
    ∃ u v, (lte call x y).Judges w u ∧ (lte call y x).Judges w v ∧ Opposed u v :=
  ⟨_, _, lte_judges_rank hx hy hseq,
    lte_judges_rank hy hx fun k s ys l t xs hy hx => (hseq l t xs k s ys hx hy).symm,
    Rank.opposed _ _⟩

/-- The order refuses two values either way round, or puts them in order. -/
theorem lte_opposed (hx : Sound call w store x) (hy : Sound call w store y) :
    ∃ u v, (lte call x y).Judges w u ∧ (lte call y x).Judges w v ∧ Opposed u v := by
  induction hx generalizing y with
  | @seq k m xs hm hxs ih =>
    cases hy with
    | @seq l n ys hn hys =>
      by_cases hkl : k = l
      · subst hkl
        simp only [lte, if_true]
        exact lteSeq_opposed hxs hys fun x hx y hy => ih x hx (hys y hy)
      · refine lte_opposed_of_rank (.seq hm hxs) (.seq hn hys) ?_
        rintro _ _ _ _ _ _ ⟨⟩ ⟨⟩
        exact hkl
    | _ => exact lte_opposed_of_rank (.seq hm hxs) (by constructor <;> assumption) (by simp)
  | _ => exact lte_opposed_of_rank (by constructor <;> assumption) hy (by simp)

/-! ## Equal values -/

/-- The order judges the two values alike against a third, on either side of it. -/
def JudgedAlike (call : Apply) (w : World) (x y z : Value) : Prop :=
  ∃ u v, (lte call x z).Judges w u ∧ (lte call y z).Judges w u ∧
    (lte call z x).Judges w v ∧ (lte call z y).Judges w v

/-- The order of sequences judges equal ones alike, as it judges their elements. -/
theorem lteSeq_judgedAlike {xs ys zs : List Value} (hxs : ∀ x ∈ xs, Sound call w store x)
    (hys : ∀ y ∈ ys, Sound call w store y) (hzs : ∀ z ∈ zs, Sound call w store z)
    (hequal : xs.Forall₂ (Equal call w) ys)
    (h : ∀ x ∈ xs, ∀ y ∈ ys, Equal call w x y → ∀ z ∈ zs, JudgedAlike call w x y z) :
    ∃ u v, (lteSeq call xs zs).Judges w u ∧ (lteSeq call ys zs).Judges w u ∧
      (lteSeq call zs xs).Judges w v ∧ (lteSeq call zs ys).Judges w v := by
  have hequiv := (settled call w store).equiv_equal
  induction hequal generalizing zs with
  | nil =>
    cases zs with
    | nil =>
      exact ⟨_, _, Run.judges_answer true w, Run.judges_answer true w, Run.judges_answer true w,
        Run.judges_answer true w⟩
    | cons z zs =>
      exact ⟨_, _, Run.judges_answer true w, Run.judges_answer true w, Run.judges_answer false w,
        Run.judges_answer false w⟩
  | @cons x y xs ys hxy hall ih =>
    rw [List.forall_mem_cons] at hxs hys
    cases zs with
    | nil =>
      exact ⟨_, _, Run.judges_answer false w, Run.judges_answer false w, Run.judges_answer true w,
        Run.judges_answer true w⟩
    | cons z zs =>
      rw [List.forall_mem_cons] at hzs
      -- the third value parts from both or from neither
      have hxz : Equal call w x z ↔ Equal call w y z :=
        ⟨hequiv.trans hys.1 hxs.1 hzs.1 (hequiv.symm hxs.1 hys.1 hxy),
          hequiv.trans hxs.1 hys.1 hzs.1 hxy⟩
      have hzx : Equal call w z x ↔ Equal call w y z :=
        ⟨fun h => hxz.1 (hequiv.symm hzs.1 hxs.1 h), fun h => hequiv.symm hxs.1 hzs.1 (hxz.2 h)⟩
      have hzy : Equal call w z y ↔ Equal call w y z :=
        ⟨hequiv.symm hzs.1 hys.1, hequiv.symm hys.1 hzs.1⟩
      simp only [lteSeq_judges_cons hxs.1 hzs.1, lteSeq_judges_cons hys.1 hzs.1,
        lteSeq_judges_cons hzs.1 hxs.1, lteSeq_judges_cons hzs.1 hys.1, hxz, hzx, hzy]
      by_cases hyz : Equal call w y z
      · obtain ⟨u, v, hu, hu', hv, hv'⟩ := ih hxs.2 hys.2 hzs.2 fun x hx y hy hxy z hz =>
          h x (List.mem_cons_of_mem _ hx) y (List.mem_cons_of_mem _ hy) hxy z
            (List.mem_cons_of_mem _ hz)
        exact ⟨u, v, .inl ⟨hyz, hu⟩, .inl ⟨hyz, hu'⟩, .inl ⟨hyz, hv⟩, .inl ⟨hyz, hv'⟩⟩
      · obtain ⟨u, v, hu, hu', hv, hv'⟩ := h x (by simp) y (by simp) hxy z (by simp)
        exact ⟨u, v, .inr ⟨hyz, hu⟩, .inr ⟨hyz, hu'⟩, .inr ⟨hyz, hv⟩, .inr ⟨hyz, hv'⟩⟩

/-- Equal values are judged alike against what is no sequence of their kind. -/
theorem Equal.judgedAlike_of_rank (hx : Sound call w store x) (hy : Sound call w store y)
    (hz : Sound call w store z) (h : Equal call w x y)
    (hxz : ∀ k s xs l t zs, x = .seq k s xs → z = .seq l t zs → k ≠ l) :
    JudgedAlike call w x y z := by
  have hyz : ∀ k s ys l t zs, y = .seq k s ys → z = .seq l t zs → k ≠ l := by
    rintro k s ys l t zs rfl
    obtain ⟨r, xs, rfl, -⟩ := ((settled call w store).equiv_equal.symm hx hy h).exists_seq hy hx
    exact hxz k r xs l t zs rfl
  have hone := ((equal_iff hx hy).1 h).rank_eq
  have hzx := lte_judges_rank hz hx fun k s zs l t xs hz hx => (hxz l t xs k s zs hx hz).symm
  have hzy := lte_judges_rank hz hy fun k s zs l t ys hz hy => (hyz l t ys k s zs hy hz).symm
  have hyz := lte_judges_rank hy hz hyz
  rw [← hone] at hzy hyz
  exact ⟨_, _, lte_judges_rank hx hz hxz, hyz, hzx, hzy⟩

/-- The order judges equal values alike. -/
theorem Equal.judgedAlike (hx : Sound call w store x) (hy : Sound call w store y)
    (hz : Sound call w store z) (h : Equal call w x y) : JudgedAlike call w x y z := by
  induction hx generalizing y z with
  | @seq k m xs hm hxs ih =>
    obtain ⟨t, ys, rfl, hall⟩ := h.exists_seq (.seq hm hxs) hy
    cases hz with
    | @seq l n zs hn hzs =>
      by_cases hkl : k = l
      · subst hkl
        have hys : ∀ y ∈ ys, Sound call w store y := fun y => hy.mem_parts
        simp only [JudgedAlike, lte, if_true]
        exact lteSeq_judgedAlike hxs hys hzs hall fun x hx y hy hxy z hz =>
          ih x hx (hys y hy) (hzs z hz) hxy
      · refine h.judgedAlike_of_rank (.seq hm hxs) hy (.seq hn hzs) ?_
        rintro _ _ _ _ _ _ ⟨⟩ ⟨⟩
        exact hkl
    | _ => exact h.judgedAlike_of_rank (.seq hm hxs) hy (by constructor <;> assumption) (by simp)
  | _ => exact h.judgedAlike_of_rank (by constructor <;> assumption) hy hz (by simp)

end Relations

/-- The order is total where it answers, and it respects the equality: it refuses two values either
way round or neither, of two values that it does not refuse one is at or below the other, and it
judges values that are equal alike. -/
theorem lte_total_congr (call : Apply) (w : World) (store : Nat → Value) {x y z : Value}
    (hx : Sound call w store x) (hy : Sound call w store y) (hz : Sound call w store z) :
    ((lte call x y).Judges w none ↔ (lte call y x).Judges w none) ∧
      (¬(lte call x y).Judges w none → ∃ a b, (lte call x y).Answers w (.bool a) ∧
        (lte call y x).Answers w (.bool b) ∧ (a || b) = true) ∧
      ((equals call x y).Answers w (.bool true) →
        ∃ u v, (lte call x z).Judges w u ∧ (lte call y z).Judges w u ∧
          (lte call z x).Judges w v ∧ (lte call z y).Judges w v) := by
  obtain ⟨u, v, hu, hv, hopposed⟩ := lte_opposed hx hy
  refine ⟨?_, ?_, fun h => Equal.judgedAlike hx hy hz h⟩
  · constructor
    · intro hnone
      cases hu.unique hnone
      cases hopposed
      exact hv
    · intro hnone
      cases hv.unique hnone
      cases hopposed
      exact hu
  · intro hanswered
    cases hopposed with
    | refused => exact absurd hu hanswered
    | below b => exact ⟨true, b, hu, hv, rfl⟩
    | above b => exact ⟨b, true, hu, hv, Bool.or_true b⟩

/-- A list with a day and the number one, one with the midnight of that day and the fraction one,
and one with the day and an empty dictionary. -/
def mixedStore : Nat → Value
  | 0 => .number (.numbered 0) (.int 1)
  | 1 => .date (.numbered 1) ⟨2020, 2, 29⟩
  | 2 => .seq .list (.numbered 2) [.date (.numbered 1) ⟨2020, 2, 29⟩, .number (.numbered 0) (.int 1)]
  | 3 => .moment (.numbered 3) ⟨⟨2020, 2, 29⟩, 0, 0, 0, 0, none⟩
  | 4 => .number (.numbered 4) (.fraction 1)
  | 5 => .seq .list (.numbered 5) [.moment (.numbered 3) ⟨⟨2020, 2, 29⟩, 0, 0, 0, 0, none⟩,
      .number (.numbered 4) (.fraction 1)]
  | 6 => .dict (.numbered 6) []
  | 7 => .seq .list (.numbered 7) [.date (.numbered 1) ⟨2020, 2, 29⟩, .dict (.numbered 6) []]
  | _ => .null

/-- A number is not compared with a dictionary, also where both follow equal days in lists, and
whichever of two equal lists holds the number. -/
theorem lte_total_congr_mixed :
    (lte applyFunction (mixedStore 7) (mixedStore 2)).Judges .initial none ∧
      ∃ u v, (lte applyFunction (mixedStore 2) (mixedStore 7)).Judges .initial u ∧
        (lte applyFunction (mixedStore 5) (mixedStore 7)).Judges .initial u ∧
        (lte applyFunction (mixedStore 7) (mixedStore 2)).Judges .initial v ∧
        (lte applyFunction (mixedStore 7) (mixedStore 5)).Judges .initial v := by
  have hone : Sound applyFunction .initial mixedStore (mixedStore 0) := .number rfl
  have hday : Sound applyFunction .initial mixedStore (mixedStore 1) := .date rfl (by decide)
  have hmidnight : Sound applyFunction .initial mixedStore (mixedStore 3) := .moment rfl rfl
  have hfraction : Sound applyFunction .initial mixedStore (mixedStore 4) := .number rfl
  have hempty : Sound applyFunction .initial mixedStore (mixedStore 6) :=
    .dict rfl (by simp) (by simp) (by simp) .nil
  have hlist := lte_total_congr applyFunction .initial mixedStore
    (x := mixedStore 2) (y := mixedStore 5) (z := mixedStore 7)
    (.seq rfl (List.forall_mem_cons.2 ⟨hday, List.forall_mem_singleton.2 hone⟩))
    (.seq rfl (List.forall_mem_cons.2 ⟨hmidnight, List.forall_mem_singleton.2 hfraction⟩))
    (.seq rfl (List.forall_mem_cons.2 ⟨hday, List.forall_mem_singleton.2 hempty⟩))
  exact ⟨⟨_, _, rfl⟩, hlist.2.2 rfl⟩

end Value

end CheckedCalls
