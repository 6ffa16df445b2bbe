import CheckedCalls.Number.Binary64
import Mathlib.Algebra.Order.Ring.Nat
import Mathlib.Tactic.Ring

/-!
# Rounding to binary64

Rounding depends on a quotient only (`Binary64.nearestUnits_congr`), and what differs from a
representable count by less than one part in `2 ^ 54` is rounded to it
(`Binary64.nearestUnits_of_close`).
-/

namespace CheckedCalls

namespace Binary64

variable {num den u q : Nat}

theorem unitsPerOne_pos : 0 < unitsPerOne := by
  have hpow : ∀ n, 0 < Nat.pow 2 n := Nat.two_pow_pos
  unfold unitsPerOne
  simp only [hpow]

theorem spacing_eq (u : Nat) : spacing u = 2 ^ (u.log2 - 52) := rfl

/-! ## Representable counts -/

/-- The count keeps no more than 53 significant bits. -/
def Fits (units : Nat) : Prop := spacing units ∣ units

/-- The numbers of the format: a finite one is below the overflow, and rounding leaves it as it
is. -/
def Representable : Binary64 → Prop
  | .finite _ units => units < overflowUnits ∧ nearestUnits units 1 = units
  | _ => True

/-- What is nearest to itself fits into a double. -/
theorem fits_of_nearestUnits (h : nearestUnits u 1 = u) : Fits u := by
  have hspacing : spacing (u / 1) ∣ nearestUnits u 1 := Dvd.intro _ rfl
  rwa [h, Nat.div_one] at hspacing

/-! ## Quotients -/

/-- Rounding to even does not change when numerator and denominator are scaled. -/
theorem roundHalfEven_scale {k : Nat} (hk : 0 < k) (num den : Nat) :
    roundHalfEven (k * num) (k * den) = roundHalfEven num den := by
  have hquotient : k * num / (k * den) = num / den := Nat.mul_div_mul_left num den hk
  have hmod : k * num % (k * den) = k * (num % den) := Nat.mul_mod_mul_left k num den
  have hhalf : 2 * (k * (num % den)) = k * (2 * (num % den)) := Nat.mul_left_comm 2 k _
  simp only [roundHalfEven, hquotient, hmod, hhalf, Nat.mul_lt_mul_left hk]

/-- The nearest double does not change when numerator and denominator are scaled. -/
theorem nearestUnits_scale {k : Nat} (hk : 0 < k) (num den : Nat) :
    nearestUnits (k * num) (k * den) = nearestUnits num den := by
  rw [nearestUnits, nearestUnits, Nat.mul_div_mul_left num den hk, Nat.mul_assoc,
    roundHalfEven_scale hk]

/-- Equal quotients are rounded alike. -/
theorem nearestUnits_congr {num' den' : Nat} (hden : 0 < den) (hden' : 0 < den')
    (h : num * den' = num' * den) : nearestUnits num den = nearestUnits num' den' := by
  calc nearestUnits num den = nearestUnits (den' * num) (den' * den) :=
        (nearestUnits_scale hden' num den).symm
    _ = nearestUnits (den * num') (den * den') := by
        rw [Nat.mul_comm den' num, h, Nat.mul_comm num' den, Nat.mul_comm den' den]
    _ = nearestUnits num' den' := nearestUnits_scale hden num' den'

/-! ## Close quotients -/

/-- A quotient is rounded to the whole number that is less than a half away. -/
theorem roundHalfEven_eq (hlow : 2 * (q * den) < 2 * num + den)
    (hhigh : 2 * num < 2 * (q * den) + den) : roundHalfEven num den = q := by
  have hdivision : num / den * den + num % den = num := Nat.div_add_mod' num den
  have hmod : num % den < den := Nat.mod_lt num (by omega)
  have hbelow : ∀ {a b : Nat}, a * den < b * den + den → a ≤ b := by
    intro a b h
    by_contra hlt
    have hstep := Nat.mul_le_mul_right den (Nat.lt_of_not_le hlt)
    rw [Nat.succ_mul] at hstep
    omega
  have hle : num / den ≤ q := hbelow (by omega)
  have hge : q ≤ num / den + 1 := hbelow (by rw [Nat.succ_mul]; omega)
  rcases Nat.eq_or_lt_of_le hle with rfl | hlt
  · rw [roundHalfEven, if_pos (by omega)]
  · obtain rfl : q = num / den + 1 := by omega
    rw [Nat.add_mul, Nat.one_mul] at hlow hhigh
    rw [roundHalfEven, if_neg (by omega), if_pos (by omega)]

/-- A count that is a multiple of the spacing in use is met from less than half a spacing away. -/
theorem nearestUnits_eq (hfits : spacing (num / den) ∣ u)
    (hlow : 2 * (u * den) < 2 * num + den * spacing (num / den))
    (hhigh : 2 * num < 2 * (u * den) + den * spacing (num / den)) : nearestUnits num den = u := by
  obtain ⟨q, hq⟩ := hfits
  have hcount : q * (den * spacing (num / den)) = u * den := by
    rw [hq]
    ring
  rw [nearestUnits, roundHalfEven_eq (q := q) (by omega) (by omega), ← hq]

theorem spacing_eq_of_bounds {e : Nat} (hlow : 2 ^ e * den ≤ num) (hhigh : num < 2 ^ (e + 1) * den)
    (hden : 0 < den) : spacing (num / den) = 2 ^ (e - 52) := by
  have hge : 2 ^ e ≤ num / den := (Nat.le_div_iff_mul_le hden).2 hlow
  have hlt : num / den < 2 ^ (e + 1) := (Nat.div_lt_iff_lt_mul hden).2 hhigh
  have hne : num / den ≠ 0 := by
    have hpos := Nat.two_pow_pos e
    omega
  rw [spacing_eq, (Nat.log2_eq_iff hne).2 ⟨hge, hlt⟩]

/-- Of two multiples of a step the smaller one is at least a step below. -/
theorem add_step_le {s a b : Nat} (ha : s ∣ a) (hb : s ∣ b) (h : a < b) : a + s ≤ b := by
  obtain ⟨m, rfl⟩ := ha
  obtain ⟨n, rfl⟩ := hb
  have hlt : m < n := Nat.lt_of_mul_lt_mul_left h
  calc s * m + s = s * (m + 1) := rfl
    _ ≤ s * n := Nat.mul_le_mul_left s hlt

/-- The spacing that rounding uses less than one part in `2 ^ 54` from a representable count divides
the count, and is no smaller than one part of it in `2 ^ 53`. -/
theorem spacing_of_close (hu : 0 < u) (hfits : Fits u) (hden : 0 < den)
    (hlow : 2 ^ 54 * (u * den) < 2 ^ 54 * num + u * den)
    (hhigh : 2 ^ 54 * num < 2 ^ 54 * (u * den) + u * den) :
    spacing (num / den) ∣ u ∧ u ≤ 2 ^ 53 * spacing (num / den) := by
  obtain ⟨hge, hlt⟩ := (Nat.log2_eq_iff (Nat.ne_of_gt hu)).1 (rfl : u.log2 = u.log2)
  rw [Fits, spacing_eq] at hfits
  generalize u.log2 = e at hge hlt hfits
  have hsize : ∀ k, 2 ^ (k + 1) ≤ 2 ^ 53 * 2 ^ (k - 52) := fun k => by
    rw [← Nat.pow_add]
    exact Nat.pow_le_pow_right (by decide) (by omega)
  have hparts : u ≤ 2 ^ 53 * 2 ^ (e - 52) := Nat.le_trans (Nat.le_of_lt hlt) (hsize e)
  have hhalf : u * den ≤ 2 ^ 53 * (2 ^ (e - 52) * den) := by
    calc u * den ≤ 2 ^ 53 * 2 ^ (e - 52) * den := Nat.mul_le_mul_right den hparts
      _ = 2 ^ 53 * (2 ^ (e - 52) * den) := Nat.mul_assoc _ _ _
  have hdvd : ∀ k, 2 ^ (e - 52) ∣ 2 ^ (e + k) := fun k => Nat.pow_dvd_pow 2 (by omega)
  by_cases hnum : 2 ^ e * den ≤ num
  · -- in the same binade as the count: its last multiple is a step below the next binade
    have hnext := Nat.mul_le_mul_right den (add_step_le hfits (hdvd 1) hlt)
    rw [Nat.add_mul] at hnext
    rw [spacing_eq_of_bounds hnum (by omega) hden]
    exact ⟨hfits, hparts⟩
  · -- below it: the count is the first one of its binade, and the spacing there is halved
    obtain rfl : u = 2 ^ e := by
      refine Nat.le_antisymm (Nat.le_of_not_lt fun hgt => ?_) hge
      have hstep := Nat.mul_le_mul_right den (add_step_le (hdvd 0) hfits hgt)
      rw [Nat.add_zero, Nat.add_mul] at hstep
      omega
    cases e with
    | zero =>
      have hzero : num / den = 0 := Nat.div_eq_of_lt (by omega)
      rw [hzero]
      exact ⟨Nat.one_dvd _, by decide⟩
    | succ e =>
      have hdouble : 2 ^ (e + 1) * den = 2 * (2 ^ e * den) := by rw [Nat.pow_succ']; ring
      rw [spacing_eq_of_bounds (e := e) (by omega) (by omega) hden]
      exact ⟨Nat.pow_dvd_pow 2 (by omega), hsize e⟩

/-- What is less than one part in `2 ^ 54` away from a representable count is rounded to it. -/
theorem nearestUnits_of_close (hu : 0 < u) (hfits : Fits u) (hden : 0 < den)
    (hlow : 2 ^ 54 * (u * den) < 2 ^ 54 * num + u * den)
    (hhigh : 2 ^ 54 * num < 2 ^ 54 * (u * den) + u * den) : nearestUnits num den = u := by
  obtain ⟨hdvd, hle⟩ := spacing_of_close hu hfits hden hlow hhigh
  have hpart : u * den ≤ 2 ^ 53 * (den * spacing (num / den)) := by
    calc u * den ≤ 2 ^ 53 * spacing (num / den) * den := Nat.mul_le_mul_right den hle
      _ = 2 ^ 53 * (den * spacing (num / den)) := by ring
  exact nearestUnits_eq hdvd (by omega) (by omega)

end Binary64

end CheckedCalls
