import CheckedCalls.Proofs.Boundary
import CheckedCalls.Proofs.Climbing

/-!
# The least and the greatest of several values

Each value is compared with the one kept so far only. The least is at or below all the others
(`minimum_lte_iff`): a value that replaces the one kept so far is not at or above it, and so bounds
what that bounded. The greatest is reached from each of the others by going up, which does not
always lead to a value above the start. It is at or above those that no third value crosses with it
(`lte_maximum_iff`), hence above all if there are no negative zeros (`lte_maximum`).
-/

namespace CheckedCalls

variable {call : Apply}

namespace Run

/-- A comparison that answers has met no obstacle. -/
theorem Compares.ensures {α : Type} {r : Run α} {f : Bool → α} {c : Except Obstacle Bool}
    (h : r.Compares f c) : r.Ensures fun a => ∃ b, c = .ok b ∧ a = f b := by
  rcases c with (_ | _) | b
  · cases (show r = throw .overflow from h)
    exact fun w a ha => by cases ha
  · obtain ⟨x, y, rfl⟩ := h
    exact fun w a ha => by cases ha
  · cases (show r = pure (f b) from h)
    exact ensures_pure ⟨b, rfl, rfl⟩

end Run

/-! ## What is kept -/

namespace Value

/-- If what is kept of two values stands in a relation to the later one, and to all to which the
earlier one did, then what is kept of several values stands in it to all of them. -/
theorem ensures_fold_keep {pick : Bool → Value → Value → Value} {V : Value → Prop}
    {P : Value → Value → Prop} (hpick : ∀ b x y, pick b x y = x ∨ pick b x y = y)
    (hV : ∀ v, V v → v.Ordered)
    (hstep : ∀ {m y b}, V m → V y → m.comparable.comparison y.comparable = .ok b →
      P y (pick b m y) ∧ ∀ x, P x m → P x (pick b m y))
    (seen ys : List Value) (m : Value) (hm : V m ∧ ∀ x ∈ seen, P x m) (hys : ∀ y ∈ ys, V y) :
    (ys.foldlM (keep call pick) m).Ensures fun r => V r ∧ ∀ x ∈ seen ++ ys, P x r := by
  induction ys generalizing seen m with
  | nil => exact Run.ensures_pure (by simpa using hm)
  | cons y ys ih =>
    rw [List.forall_mem_cons] at hys
    rw [List.foldlM_cons, List.append_cons]
    refine Run.ensures_bind (keep_compares call pick (hV m hm.1) (hV y hys.1)).ensures ?_
    rintro _ ⟨b, hb, rfl⟩
    obtain ⟨hnext, hkept⟩ := hstep hm.1 hys.1 hb
    refine ih (seen ++ [y]) (pick b m y) ⟨?_, ?_⟩ hys.2
    · rcases hpick b m y with h | h <;> rw [h]
      · exact hm.1
      · exact hys.1
    · intro x hx
      rcases List.mem_append.1 hx with hx | hx
      · exact hkept x (hm.2 x hx)
      · rw [List.mem_singleton.1 hx]
        exact hnext

end Value

namespace Combinator

open Value Comparable Check
open Relation (TransGen)

section Kept

variable {x : Value} {ys : List Value}

/-- The least is one of the values and at or below each of the others. -/
theorem ensures_least (hordered : ∀ v ∈ x :: ys, v.Ordered) :
    (least call x ys).Ensures fun m => m ∈ x :: ys ∧
      ∀ y ∈ x :: ys, y = m ∨ m.comparable.comparison y.comparable = .ok true := by
  show (ys.foldlM (keep call fun b m y => if b then m else y) x).Ensures _
  refine ensures_fold_keep (V := (· ∈ x :: ys)) ?_ hordered ?_ [x] ys x (by simp)
    (fun y hy => List.mem_cons_of_mem x hy)
  · intro b m y
    cases b <;> simp
  intro m y b _ _ hmy
  cases b with
  | true => exact ⟨.inr hmy, fun _ h => h⟩
  | false =>
    refine ⟨.inl rfl, ?_⟩
    rintro z (rfl | hmz)
    · exact .inr (comparison_total hmy)
    · exact .inr (comparison_of_above hmy hmz).1

/-- The greatest is one of the values, and the order leads up to it from each of the others by way
of the values. -/
theorem ensures_greatest (hordered : ∀ v ∈ x :: ys, v.Ordered) :
    (greatest call x ys).Ensures fun m => m ∈ x :: ys ∧
      ∀ y ∈ x :: ys, y = m ∨
        TransGen (Ascends (· ∈ (x :: ys).map comparable)) y.comparable m.comparable := by
  show (ys.foldlM (keep call fun b m y => if b then y else m) x).Ensures _
  refine ensures_fold_keep (V := (· ∈ x :: ys)) ?_ hordered ?_ [x] ys x (by simp)
    (fun y hy => List.mem_cons_of_mem x hy)
  · intro b m y
    cases b <;> simp
  intro m y b hm hy hmy
  cases b with
  | false =>
    have hascends : Ascends (· ∈ (x :: ys).map comparable) y.comparable m.comparable :=
      ⟨comparison_total hmy, List.mem_map_of_mem hm⟩
    exact ⟨.inr (.single hascends), fun _ h => h⟩
  | true =>
    have hascends : Ascends (· ∈ (x :: ys).map comparable) m.comparable y.comparable :=
      ⟨hmy, List.mem_map_of_mem hy⟩
    refine ⟨.inl rfl, ?_⟩
    rintro z (rfl | hz)
    · exact .inr (.single hascends)
    · exact .inr (hz.tail hascends)

end Kept

/-! ## Checked calls -/

section Checked

variable {args : List Value} {m : Value} {w w' : World}

/-- The answer of a checked comparison is one that the comparison itself can give, for values with
an order. -/
theorem exists_row_of_checked {k : Combinator} (hk : k.compares = true)
    (hdata : ∀ v ∈ args, v.isData = true) (h : (k.checked call args).outcome w = (.ok m, w')) :
    ∃ x ys, args = x :: ys ∧ (∀ v ∈ x :: ys, v.Ordered) ∧ (k.run call (x :: ys)).CanAnswer m := by
  rw [checked, enforce, Run.outcome_bind] at h
  rcases hc : (check call .standard k.signature args).outcome w with ⟨f | bindings | v, u⟩ <;>
    rw [hc] at h
  · cases h
  · obtain ⟨harity, T, hT⟩ := ordered_of_passed hk hdata hc
    obtain ⟨x, ys, rfl, -⟩ := row_of_accepts harity hT
    exact ⟨x, ys, rfl, fun v hv => (hT v hv).1, u, congrArg Prod.fst h⟩
  · cases h

/-- A value is at or below itself, unless it has an instant outside the calendar. -/
theorem lte_self_iff {v : Value} (hv : v.Ordered) :
    Value.lte call v v = pure (.bool true) ↔ v.comparable.isPlaced = true :=
  (lte_eq_pure_iff call hv hv true).trans comparison_self_eq_true

/-- What the minimum answers is one of the arguments. It is at or below each of them, but for itself
if it has an instant outside the calendar. -/
theorem minimum_lte_iff (hdata : ∀ v ∈ args, v.isData = true)
    (h : (minimum.checked call args).outcome w = (.ok m, w')) :
    m ∈ args ∧ ∀ y ∈ args, Value.lte call m y = pure (.bool true) ↔
      (y = m → m.comparable.isPlaced = true) := by
  obtain ⟨x, ys, rfl, hordered, u, hm⟩ := exists_row_of_checked rfl hdata h
  obtain ⟨hmem, hbound⟩ := ensures_least hordered u m hm
  refine ⟨hmem, ?_⟩
  intro y hy
  by_cases hym : y = m
  · simpa [hym] using lte_self_iff (hordered m hmem)
  · have hmy := (hbound y hy).resolve_left hym
    simpa [hym] using (lte_eq_pure_iff call (hordered m hmem) (hordered y hy) true).2 hmy

/-- What the maximum answers is one of the arguments. It is at or above each of them that no
argument crosses with it, but for itself if it has an instant outside the calendar. -/
theorem lte_maximum_iff (hdata : ∀ v ∈ args, v.isData = true)
    (h : (maximum.checked call args).outcome w = (.ok m, w')) :
    m ∈ args ∧ ∀ y ∈ args, Value.lte call y m = pure (.bool true) ↔
      (∀ r ∈ args, ¬Crossed y.comparable r.comparable m.comparable) ∧
        (y = m → m.comparable.isPlaced = true) := by
  obtain ⟨x, ys, rfl, hordered, u, hm⟩ := exists_row_of_checked rfl hdata h
  obtain ⟨hmem, hbound⟩ := ensures_greatest hordered u m hm
  refine ⟨hmem, ?_⟩
  intro y hy
  by_cases hym : y = m
  · subst hym
    constructor
    · intro hself
      have hle := (lte_eq_pure_iff call (hordered y hy) (hordered y hy) true).1 hself
      exact ⟨fun r _ hcrossed => hcrossed.not_comparison hle, fun _ => comparison_self_eq_true.1 hle⟩
    · rintro ⟨-, hplaced⟩
      exact (lte_self_iff (hordered y hy)).2 (hplaced rfl)
  · have hmy := comparison_iff_of_ascent ((hbound y hy).resolve_left hym)
    rw [lte_eq_pure_iff call (hordered y hy) (hordered m hmem), hmy]
    simp [hym]

/-- Without negative zeros and without instants outside the calendar, the maximum is at or above
each of the arguments. -/
theorem lte_maximum (hdata : ∀ v ∈ args, v.isData = true)
    (hunsigned : ∀ v ∈ args, v.comparable.isUnsigned = true)
    (hplaced : ∀ v ∈ args, v.comparable.isPlaced = true)
    (h : (maximum.checked call args).outcome w = (.ok m, w')) :
    m ∈ args ∧ ∀ y ∈ args, Value.lte call y m = pure (.bool true) := by
  obtain ⟨x, ys, rfl, hordered, u, hm⟩ := exists_row_of_checked rfl hdata h
  obtain ⟨hmem, hbound⟩ := ensures_greatest hordered u m hm
  refine ⟨hmem, ?_⟩
  intro y hy
  rw [lte_eq_pure_iff call (hordered y hy) (hordered m hmem)]
  rcases hbound y hy with rfl | hascent
  · exact comparison_self_eq_true.2 (hplaced y hy)
  · refine comparison_of_ascent ?_ hascent
    intro c d hc hyc hcd
    obtain ⟨r, hr, rfl⟩ := List.mem_map.1 hc
    exact (not_crossed_of_isUnsigned (hunsigned y hy) (hunsigned r hr) hyc hcd).2

end Checked

/-! ## Zeros and instants -/

/-- Three lists, of which the second crosses the first and the third. -/
def crossedRow : List Value := [zeroThen false 2, zeroThen true 0, zeroThen false 1]

theorem isData_crossedRow : ∀ v ∈ crossedRow, v.isData = true := by
  simp [crossedRow, (isOrd_zeroThen _ _).1]

theorem isLte_zeroThen (call : Apply) (s t : Bool) (m n : Int) :
    isLte call (zeroThen s m) (zeroThen t n) = pure (s != t || decide (m ≤ n)) := by
  rw [isLte, lte_zeroThen]
  rfl

/-- The last of the lists is kept, be it for being below the first or for being above the second. -/
theorem checked_crossedRow {k : Combinator} (hk : k = .minimum ∨ k = .maximum) :
    ∃ w, (k.checked applyFunction crossedRow).outcome .initial = (.ok (zeroThen false 1), w) := by
  have hpasses : (match ((check applyFunction .standard k.signature crossedRow).outcome .initial).1 with
    | .ok (.passed _) => true
    | .ok (.violated _) => false
    | .error _ => false) = true := by
    rcases hk with rfl | rfl <;> decide +kernel
  have hkept : k.run applyFunction crossedRow = pure (zeroThen false 1) := by
    rcases hk with rfl | rfl
    · simp [run, least, crossedRow, isLte_zeroThen]
    · simp [run, greatest, crossedRow, isLte_zeroThen]
  rw [checked, enforce, Run.outcome_bind, hkept]
  rcases hc : (check applyFunction .standard k.signature crossedRow).outcome .initial with
    ⟨f | bindings | v, w⟩ <;> rw [hc] at hpasses
  · cases hpasses
  · exact ⟨w, rfl⟩
  · cases hpasses

theorem minimum_lte_iff_crossedRow : ∃ w,
    (minimum.checked applyFunction crossedRow).outcome .initial = (.ok (zeroThen false 1), w) ∧
      zeroThen false 1 ∈ crossedRow ∧
        ∀ y ∈ crossedRow, Value.lte applyFunction (zeroThen false 1) y = pure (.bool true) ↔
          (y = zeroThen false 1 → (zeroThen false 1).comparable.isPlaced = true) := by
  obtain ⟨w, h⟩ := checked_crossedRow (.inl rfl)
  exact ⟨w, h, minimum_lte_iff isData_crossedRow h⟩

theorem lte_maximum_iff_crossedRow : ∃ w,
    (maximum.checked applyFunction crossedRow).outcome .initial = (.ok (zeroThen false 1), w) ∧
      zeroThen false 1 ∈ crossedRow ∧
        ∀ y ∈ crossedRow, Value.lte applyFunction y (zeroThen false 1) = pure (.bool true) ↔
          (∀ r ∈ crossedRow,
            ¬Crossed y.comparable r.comparable (zeroThen false 1).comparable) ∧
              (y = zeroThen false 1 → (zeroThen false 1).comparable.isPlaced = true) := by
  obtain ⟨w, h⟩ := checked_crossedRow (.inr rfl)
  exact ⟨w, h, lte_maximum_iff isData_crossedRow h⟩

/-- The maximum of three lists need not be at or above the first. -/
theorem maximum_not_above :
    (∃ w, (maximum.checked applyFunction crossedRow).outcome .initial =
      (.ok (zeroThen false 1), w)) ∧
        zeroThen false 2 ∈ crossedRow ∧
          Value.lte applyFunction (zeroThen false 2) (zeroThen false 1) = pure (.bool false) :=
  ⟨checked_crossedRow (.inr rfl), List.mem_cons_self, lte_zeroThen _ _ _ _ _⟩

/-- The minimum of one moment cannot be compared with it, if its offset shifts the moment out of the
calendar. -/
theorem minimum_not_below :
    (∃ w, (minimum.checked applyFunction
        [.moment (.numbered 0) ⟨⟨1, 1, 1⟩, 0, 0, 0, 0, some 60⟩]).outcome .initial =
      (.ok (.moment (.numbered 0) ⟨⟨1, 1, 1⟩, 0, 0, 0, 0, some 60⟩), w)) ∧
        Value.lte applyFunction (.moment (.numbered 0) ⟨⟨1, 1, 1⟩, 0, 0, 0, 0, some 60⟩)
          (.moment (.numbered 0) ⟨⟨1, 1, 1⟩, 0, 0, 0, 0, some 60⟩) = throw .overflow :=
  ⟨⟨_, rfl⟩, rfl⟩

end Combinator

end CheckedCalls
