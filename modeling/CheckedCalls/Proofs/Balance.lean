import CheckedCalls.Proofs.Agreement
import CheckedCalls.Proofs.Unanswered

/-!
# Laws that balance

Both sides of a law stand for one element, and what is left of the law is a comparison of two values
that stand for it. Of values as a program can hold them such a comparison answers, or it overflows
(`Value.verifies_equals`); of containers and of dictionaries it answers true just if the comparisons
of their contents do (`Reading.Verified.container`, `Keys.verifies_equals`).
-/

namespace CheckedCalls

open Run

variable {δ α β : Type}

/-! ## Comparisons of proper values -/

/-- The fault of a result that is too large. -/
abbrev Fault.IsOverflow (f : Fault) : Prop := f = .overflow

/-- A run that answers or overflows verifies its positive answer up to an overflow. -/
theorem Run.OverflowsIf.verifies {r : Run Value} {w : World} {P : Prop}
    (h : r.OverflowsIf w P Value.IsTruth) :
    r.Verifies .bool Fault.IsOverflow w (r.Answers w (.bool true)) := by
  rcases h with ⟨-, _, hb, b, rfl⟩ | ⟨-, h⟩
  · cases b with
    | true => exact .inl ⟨hb, hb⟩
    | false =>
      refine .inr ⟨fun h => ?_, .inl hb⟩
      cases h.unique hb
  · refine .inr ⟨fun h' => ?_, .inr ⟨_, rfl, h⟩⟩
    exact h'.not_overflows h

/-- Equality of proper values verifies that they are equal up to an overflow. -/
theorem Value.verifies_equals (call : Apply) {w : World} (hw : w.Untouched) {x y : Value}
    (hx : x.IsProper) (hy : y.IsProper) :
    (equals call x y).Verifies .bool Fault.IsOverflow w (Equal call w x y) :=
  (overflowsIf_compare (s := .law) hw.untitled hx hy).verifies

/-! ## Comparing what stands for one element -/

namespace Reading

variable {call : Apply} {E : Reading δ} {A : Reading α} {Q R : World → Value → Value → Prop}

/-- Only values as a program can hold them stand for elements. -/
def OfProper (A : Reading α) : Prop := ∀ x a, A x a → x.IsProper

/-- Comparing values that stand for one element tells whether they agree, or overflows. -/
def Verified (call : Apply) (A : Reading α) (Agree : World → Value → Value → Prop) : Prop :=
  ∀ w, w.Untouched →
    A.Within fun x y => (Value.equals call x y).Verifies .bool Fault.IsOverflow w (Agree w x y)

theorem OfProper.verified (hA : A.OfProper) (call : Apply) :
    A.Verified call (Value.Equal call) :=
  fun _ hw x y _ hx hy => Value.verifies_equals call hw (hA x _ hx) (hA y _ hy)

/-- Compositions are verified if what they hold is. -/
theorem Verified.container (hE : E.Verified call Q) (hA : A.Verified call R) (T : Container) :
    (T.lift E A).Verified call fun w => T.Related (Q w) (R w) :=
  fun w hw x y s hx hy =>
    Container.verifies_equals (Within.container (hE w hw) (hA w hw) T x y s hx hy)

/-- Holders are verified if what they hold is. -/
theorem Verified.holder (hE : E.Verified call Q) (hA : A.Verified call R) (H : Holder) :
    (H.lift E A).Verified call fun w => H.Related (Q w) (R w) :=
  fun w hw x y s hx hy =>
    Holder.verifies_equals (Within.holder (hE w hw) (hA w hw) H x y s hx hy)

theorem integer_ofProper : integer.OfProper := by
  rintro _ a ⟨t, rfl⟩
  exact ⟨rfl, rfl⟩

end Reading

/-! ## Balance -/

namespace Run

/-- The run compares two values that stand for `s`: it answers whether they agree, or overflows
where they do not. -/
def Balances (call : Apply) (r : Run Value) (D : Reading α) (s : α)
    (Agree : World → Value → Value → Prop) : Prop :=
  ∀ w, w.Untouched → ∃ x y w', w'.Untouched ∧ D x s ∧ D y s ∧
    r.outcome w = (Value.equals call x y).outcome w' ∧
    (Value.equals call x y).Verifies .bool Fault.IsOverflow w' (Agree w' x y)

variable {call : Apply} {r : Run Value} {D : Reading α} {s : α}
  {Agree : World → Value → Value → Prop}

/-- A law whose sides are weighed and verified balances. -/
theorem Weighs.balances (hr : r.Weighs call (D · s)) (hD : D.Verified call Agree) :
    Balances call r D s Agree := by
  intro w hw
  obtain ⟨x, y, w', hw', hx, hy, hout⟩ := hr w hw
  exact ⟨x, y, w', hw', hx, hy, hout, hD w' hw' x y s hx hy⟩

/-- A run that balances answers true if values that stand for one element agree. -/
theorem Balances.holds (h : Balances call r D s Agree)
    (hD : ∀ w, w.Untouched → D.Within (Agree w)) {w : World} (hw : w.Untouched) :
    (r.outcome w).1 = .ok (.bool true) := by
  obtain ⟨x, y, w', hw', hx, hy, hout, hverifies⟩ := h w hw
  have htrue := (hverifies.answers_iff (by simp)).2 (hD w' hw' x y s hx hy)
  rw [hout, show (Value.equals call x y).outcome w' = _ from htrue]

end Run

end CheckedCalls
