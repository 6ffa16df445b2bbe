import CheckedCalls.Number.Decimal
import CheckedCalls.Proofs.Rounding
import Mathlib.Algebra.Order.Ring.Nat
import Mathlib.Tactic.Ring

/-!
# Texts of binary64 numbers

The text of a number is that of the shortest decimal that reads back as it; one of seventeen digits
always does (`Decimal.units_shortest`). Reading the text gives back a decimal of the same value,
however it is laid out (`Decimal.decimal?_layout`), and so the number itself
(`Binary64.parse?_literal`). Different numbers have different texts.
-/

namespace CheckedCalls

namespace Decimal

open Binary64 (unitsPerOne unitsPerOne_pos nearestUnits Fits Representable)

variable {units n k : Nat} {e : Int}

/-! ## Seventeen digits -/

theorem pow_ten_pos (k : Nat) : 0 < Nat.pow 10 k := Nat.pow_pos (by decide)

/-- A decimal reads back as a count from less than one part in `2 ^ 54` away; the two are compared
on the grid of the decimal. -/
theorem units_of_close (hu : 0 < units) (hfits : Fits units)
    (hlow : 2 ^ 54 * (units * Nat.pow 10 (-e).toNat) <
      2 ^ 54 * (n * (unitsPerOne * Nat.pow 10 e.toNat)) + units * Nat.pow 10 (-e).toNat)
    (hhigh : 2 ^ 54 * (n * (unitsPerOne * Nat.pow 10 e.toNat)) <
      2 ^ 54 * (units * Nat.pow 10 (-e).toNat) + units * Nat.pow 10 (-e).toNat) :
    Decimal.units ⟨n, e⟩ = units := by
  have hnum : n * (unitsPerOne * Nat.pow 10 e.toNat) = n * Nat.pow 10 e.toNat * unitsPerOne := by
    ring
  rw [hnum] at hlow hhigh
  exact Binary64.nearestUnits_of_close hu hfits (pow_ten_pos _) hlow hhigh

/-- On a grid of steps of at most one part in `10 ^ 16`, the nearer neighbour of a count reads back
as the count. -/
theorem isSome_onGrid? (hu : 0 < units) (hfits : Fits units)
    (hfine : 10 ^ 16 * (unitsPerOne * Nat.pow 10 e.toNat) ≤ units * Nat.pow 10 (-e).toNat) :
    (onGrid? units e).isSome = true := by
  have hnear : ∀ n : Nat, 2 ^ 54 * (units * Nat.pow 10 (-e).toNat) <
      2 ^ 54 * (n * (unitsPerOne * Nat.pow 10 e.toNat)) + units * Nat.pow 10 (-e).toNat →
      2 ^ 54 * (n * (unitsPerOne * Nat.pow 10 e.toNat)) <
        2 ^ 54 * (units * Nat.pow 10 (-e).toNat) + units * Nat.pow 10 (-e).toNat →
      Decimal.units ⟨n, e⟩ = units := fun n => units_of_close hu hfits
  have hden : 0 < unitsPerOne * Nat.pow 10 e.toNat := Nat.mul_pos unitsPerOne_pos (pow_ten_pos _)
  unfold onGrid? below
  generalize units * Nat.pow 10 (-e).toNat = num at *
  generalize unitsPerOne * Nat.pow 10 e.toNat = den at *
  have hdivision : num / den * den + num % den = num := Nat.div_add_mod' num den
  have hmod : num % den < den := Nat.mod_lt num hden
  have hnext : (num / den + 1) * den = num / den * den + den := Nat.succ_mul _ _
  cases hhalf : decide (2 * (num % den) < den) ||
      (decide (2 * (num % den) = den) && num / den % 2 == 0) with
  | true =>
    have hle : 2 * (num % den) ≤ den := by
      simp only [Bool.or_eq_true, Bool.and_eq_true, decide_eq_true_eq] at hhalf
      omega
    have hunits := hnear (num / den) (by omega) (by omega)
    simp only [hhalf, if_true, hunits, Option.isSome_some]
  | false =>
    have hge : den ≤ 2 * (num % den) := by
      simp only [Bool.or_eq_false_iff, decide_eq_false_iff_not] at hhalf
      omega
    have hunits := hnear (num / den + 1) (by omega) (by omega)
    simp only [hhalf, Bool.false_eq_true, if_false, hunits, if_true, Option.isSome_some]

theorem digitCount_pos (n : Nat) : 0 < digitCount n := Nat.length_toDigits_pos

/-- A positive number has a digit in front of which there are as many places as it has more. -/
theorem pow_digitCount_le (hn : 0 < n) : 10 ^ (digitCount n - 1) ≤ n := by
  by_cases hone : digitCount n = 1
  · rw [hone]
    exact hn
  · have hpos := digitCount_pos n
    have hnot : ¬ digitCount n ≤ digitCount n - 1 := by omega
    rw [digitCount, Nat.length_toDigits_le_iff (by decide) (by unfold digitCount at *; omega)]
      at hnot
    exact Nat.le_of_not_lt hnot

/-- A power of ten taken to a grid. -/
theorem mul_pow_le {one k a b p : Nat} (h : 10 ^ k * one ≤ units * Nat.pow 10 p)
    (hexponents : a + (p + 16) = b + k) : 10 ^ 16 * (one * 10 ^ a) ≤ units * 10 ^ b := by
  refine Nat.le_of_mul_le_mul_right ?_ (Nat.pow_pos (a := 10) (n := p + 16) (by decide))
  calc 10 ^ 16 * (one * 10 ^ a) * 10 ^ (p + 16) = 10 ^ 16 * one * 10 ^ (a + (p + 16)) := by
        rw [Nat.pow_add 10 a]
        ring
    _ = 10 ^ k * one * (10 ^ 16 * 10 ^ b) := by
        rw [hexponents, Nat.pow_add]
        ring
    _ ≤ units * Nat.pow 10 p * (10 ^ 16 * 10 ^ b) := Nat.mul_le_mul_right _ h
    _ = units * 10 ^ b * 10 ^ (p + 16) := by
        rw [Nat.pow_add, Nat.pow_eq]
        ring

theorem unitsPerOne_le : unitsPerOne ≤ Nat.pow 10 330 := by decide +kernel

/-- Sixteen places behind the leading digit, the step is at most one part in `10 ^ 16`. -/
theorem leadingExponent_le (hu : 0 < units) :
    10 ^ 16 * (unitsPerOne * Nat.pow 10 (leadingExponent units - 16).toNat) ≤
      units * Nat.pow 10 (-(leadingExponent units - 16)).toNat := by
  have hscaled : 0 < units * Nat.pow 10 330 / unitsPerOne := by
    have hle : unitsPerOne ≤ units * Nat.pow 10 330 :=
      Nat.le_trans unitsPerOne_le (Nat.le_mul_of_pos_left _ hu)
    exact Nat.div_pos hle unitsPerOne_pos
  have hdigits := pow_digitCount_le hscaled
  have hpos := digitCount_pos (units * Nat.pow 10 330 / unitsPerOne)
  rw [Nat.le_div_iff_mul_le unitsPerOne_pos] at hdigits
  unfold leadingExponent
  generalize digitCount (units * Nat.pow 10 330 / unitsPerOne) = c at *
  exact mul_pow_le hdigits (by omega)

/-! ## The shortest decimal -/

/-- A decimal that is chosen on the grid stands for the given units. -/
theorem units_of_onGrid? {d : Decimal} (h : onGrid? units e = some d) : d.units = units := by
  have hpick : ∀ near far : Decimal, (if near.units = units then some near
      else if far.units = units then some far else none) = some d → d.units = units := by
    intro near far h
    by_cases hnear : near.units = units
    · rw [if_pos hnear] at h
      exact Option.some.inj h ▸ hnear
    · rw [if_neg hnear, Option.ite_none_right_eq_some] at h
      exact Option.some.inj h.2 ▸ h.1
  unfold onGrid? at h
  simp only at h
  exact hpick _ _ h

/-- The shortest decimal of a representable count reads back as the count. -/
theorem units_shortest (hu : 0 < units) (hfits : Fits units) :
    (shortest units).units = units := by
  unfold shortest
  cases hfound : ((List.range 17).map fun (k : Nat) => leadingExponent units - k).findSome?
      (onGrid? units) with
  | some d =>
    obtain ⟨e, -, hd⟩ := List.exists_of_findSome?_eq_some hfound
    simpa only [hfound, Option.getD_some] using units_of_onGrid? hd
  | none =>
    -- the last grid is fine enough
    have hlast := isSome_onGrid? hu hfits (leadingExponent_le hu)
    have hmem : leadingExponent units - 16 ∈
        (List.range 17).map fun (k : Nat) => leadingExponent units - k :=
      List.mem_map.2 ⟨16, by decide, rfl⟩
    rw [List.findSome?_eq_none_iff.1 hfound _ hmem] at hlast
    cases hlast

/-- Zeros behind the digits move the point only. -/
theorem units_shift (n j : Nat) (e : Int) :
    Decimal.units ⟨n * 10 ^ j, e - j⟩ = Decimal.units ⟨n, e⟩ := by
  refine Binary64.nearestUnits_congr (pow_ten_pos _) (pow_ten_pos _) ?_
  have hexponents : j + (e - j).toNat + (-e).toNat = e.toNat + (-(e - j)).toNat := by omega
  simp only [quotient, Nat.pow_eq]
  calc n * 10 ^ j * 10 ^ (e - j).toNat * unitsPerOne * 10 ^ (-e).toNat
      = n * unitsPerOne * 10 ^ (j + (e - j).toNat + (-e).toNat) := by
        rw [Nat.pow_add, Nat.pow_add]
        ring
    _ = n * 10 ^ e.toNat * unitsPerOne * 10 ^ (-(e - j)).toNat := by
        rw [hexponents, Nat.pow_add]
        ring

/-! ## Reading a text -/

/-- All of the text are decimal digits. -/
def AreDigits (cs : List Char) : Prop := ∀ c ∈ cs, c.isDigit = true

/-- A list of digits is read as the number it denotes. -/
theorem digits?_eq {cs : List Char} (h : AreDigits cs) :
    Binary64.digits? cs = some (Nat.ofDigitChars 10 cs 0) := by
  rw [Binary64.digits?, if_pos (List.all_eq_true.2 h)]
  rfl

theorem areDigits_toDigits (n : Nat) : AreDigits (Nat.toDigits 10 n) := fun _ hc =>
  Nat.isDigit_of_mem_toDigits (by decide) (by decide) hc

theorem areDigits_zeros (n : Nat) : AreDigits (List.replicate n '0') := by
  intro c hc
  rw [List.eq_of_mem_replicate hc]
  rfl

/-- Two lists of digits make up one. -/
theorem AreDigits.append {cs ds : List Char} (hcs : AreDigits cs) (hds : AreDigits ds) :
    AreDigits (cs ++ ds) := by
  intro c hc
  exact (List.mem_append.1 hc).elim (hcs c) (hds c)

/-- No digit is a character that is none. -/
theorem AreDigits.ne {cs : List Char} (h : AreDigits cs) {d : Char} (hd : d.isDigit = false) :
    ∀ c ∈ cs, (c != d) = true := by
  intro c hc
  rw [bne_iff_ne]
  rintro rfl
  rw [h c hc] at hd
  cases hd

/-- The ways to write a decimal: with a point, with an exponent or with both. -/
inductive Written : List Char → Decimal → Prop
  | point {whole part : List Char} (hne : whole ≠ []) (hwhole : AreDigits whole)
      (hpart : AreDigits part) :
      Written (whole ++ '.' :: part) ⟨Nat.ofDigitChars 10 (whole ++ part) 0, 0 - part.length⟩
  | exponent {whole sign : List Char} {x : Int} (hne : whole ≠ []) (hwhole : AreDigits whole)
      (hsign : Binary64.signed? sign = some x) :
      Written (whole ++ 'e' :: sign) ⟨Nat.ofDigitChars 10 whole 0, x - 0⟩
  | both {whole part sign : List Char} {x : Int} (hne : whole ≠ []) (hwhole : AreDigits whole)
      (hpart : AreDigits part) (hsign : Binary64.signed? sign = some x) :
      Written (whole ++ '.' :: (part ++ 'e' :: sign))
        ⟨Nat.ofDigitChars 10 (whole ++ part) 0, x - part.length⟩

/-- A text is read part by part. -/
theorem decimal?_eq {cs : List Char} (mantissa rest whole part : List Char) {x : Int}
    (hmantissa : cs.takeWhile (· != 'e') = mantissa) (hrest : cs.dropWhile (· != 'e') = rest)
    (hexponent : rest = [] ∧ x = 0 ∨ ∃ sign, rest = 'e' :: sign ∧ Binary64.signed? sign = some x)
    (hwhole : mantissa.takeWhile (· != '.') = whole)
    (hpart : (mantissa.dropWhile (· != '.')).drop 1 = part) (hne : whole ≠ [])
    (hdigits : AreDigits (whole ++ part)) :
    Binary64.decimal? cs = some ⟨Nat.ofDigitChars 10 (whole ++ part) 0, x - part.length⟩ := by
  have hempty : whole.isEmpty = false := by
    rw [List.isEmpty_eq_false_iff]
    exact hne
  unfold Binary64.decimal?
  obtain ⟨rfl, rfl⟩ | ⟨sign, rfl, hsign⟩ := hexponent
  · simp [hmantissa, hrest, hwhole, hpart, hempty, digits?_eq hdigits]
  · simp [hmantissa, hrest, hwhole, hpart, hempty, digits?_eq hdigits, hsign]

theorem AreDigits.takeWhile {cs : List Char} (h : AreDigits cs) {d : Char} (hd : d.isDigit = false)
    (rest : List Char) : (cs ++ rest).takeWhile (· != d) = cs ++ rest.takeWhile (· != d) :=
  List.takeWhile_append_of_pos (h.ne hd)

theorem AreDigits.dropWhile {cs : List Char} (h : AreDigits cs) {d : Char} (hd : d.isDigit = false)
    (rest : List Char) : (cs ++ rest).dropWhile (· != d) = rest.dropWhile (· != d) :=
  List.dropWhile_append_of_pos (h.ne hd)

/-- A written decimal is read. -/
theorem Written.decimal?_eq {cs : List Char} {d : Decimal} (h : Written cs d) :
    Binary64.decimal? cs = some d := by
  have he : 'e'.isDigit = false := rfl
  have hpoint : '.'.isDigit = false := rfl
  cases h with
  | @point whole part hne hwhole hpart =>
    have hend := hpart.takeWhile he []
    have hrest := hpart.dropWhile he []
    rw [List.append_nil] at hend hrest
    refine Decimal.decimal?_eq (whole ++ '.' :: part) [] whole part ?_ ?_ (.inl ⟨rfl, rfl⟩) ?_ ?_ hne
      (hwhole.append hpart)
    · simp [hwhole.takeWhile he, hend]
    · simp [hwhole.dropWhile he, hrest]
    · simp [hwhole.takeWhile hpoint]
    · simp [hwhole.dropWhile hpoint]
  | @exponent whole sign x hne hwhole hsign =>
    have hend := hwhole.takeWhile hpoint []
    have hrest := hwhole.dropWhile hpoint []
    rw [List.append_nil] at hend hrest
    refine (Decimal.decimal?_eq whole ('e' :: sign) whole [] ?_ ?_ (.inr ⟨sign, rfl, hsign⟩) ?_ ?_
      hne (hwhole.append nofun)).trans (by rw [List.append_nil]; rfl)
    · simp [hwhole.takeWhile he]
    · simp [hwhole.dropWhile he]
    · simp [hend]
    · simp [hrest]
  | @both whole part sign x hne hwhole hpart hsign =>
    refine Decimal.decimal?_eq (whole ++ '.' :: part) ('e' :: sign) whole part ?_ ?_
      (.inr ⟨sign, rfl, hsign⟩) ?_ ?_ hne (hwhole.append hpart)
    · simp [hwhole.takeWhile he, hpart.takeWhile he]
    · simp [hwhole.dropWhile he, hpart.dropWhile he]
    · simp [hwhole.takeWhile hpoint]
    · simp [hwhole.dropWhile hpoint]

/-! ## Laying out a decimal -/

/-- The sign and the digits of an exponent. -/
theorem signed?_exponent (x : Int) :
    Binary64.signed? ((if x < 0 then '-' else '+') ::
      (if (Nat.toDigits 10 x.natAbs).length < 2 then '0' :: Nat.toDigits 10 x.natAbs
        else Nat.toDigits 10 x.natAbs)) = some x := by
  generalize hsize : (if (Nat.toDigits 10 x.natAbs).length < 2 then '0' :: Nat.toDigits 10 x.natAbs
    else Nat.toDigits 10 x.natAbs) = size
  have hread : size.isEmpty = false ∧ Binary64.digits? size = some x.natAbs := by
    have hdigits := areDigits_toDigits x.natAbs
    rw [← hsize]
    split
    · refine ⟨rfl, ?_⟩
      rw [digits?_eq (List.forall_mem_cons.2 ⟨rfl, hdigits⟩), Nat.ofDigitChars_cons]
      exact congrArg some Nat.ofDigitChars_ten_toDigits
    · refine ⟨by simp [List.isEmpty_eq_false_iff, Nat.toDigits_ne_nil], ?_⟩
      rw [digits?_eq hdigits, Nat.ofDigitChars_ten_toDigits]
  by_cases hneg : x < 0
  · have hvalue : -(x.natAbs : Int) = x := by omega
    rw [if_pos hneg, Binary64.signed?, hread.1, hread.2]
    exact congrArg some hvalue
  · have hvalue : (x.natAbs : Int) = x := by omega
    rw [if_neg hneg, Binary64.signed?, hread.1, hread.2]
    exact congrArg some hvalue

/-- The digits without the zeros at their end. -/
def kept (n : Nat) : List Char := ((Nat.toDigits 10 n).reverse.dropWhile (· == '0')).reverse

/-- The zeros that were left out. -/
theorem exists_zeros (n : Nat) : ∃ j, Nat.toDigits 10 n = kept n ++ List.replicate j '0' := by
  refine ⟨((Nat.toDigits 10 n).reverse.takeWhile (· == '0')).length, ?_⟩
  have hzeros : (Nat.toDigits 10 n).reverse.takeWhile (· == '0') =
      List.replicate ((Nat.toDigits 10 n).reverse.takeWhile (· == '0')).length '0' := by
    rw [List.eq_replicate_iff]
    exact ⟨rfl, fun c hc => beq_iff_eq.1 (List.all_eq_true.1 List.all_takeWhile c hc)⟩
  rw [← List.reverse_inj, List.reverse_append, List.reverse_replicate, ← hzeros, kept,
    List.reverse_reverse, List.takeWhile_append_dropWhile]

/-- A positive number has digits that are kept; the others are zeros behind them. -/
theorem exists_kept (hn : 0 < n) : ∃ j, (Nat.toDigits 10 n).length = (kept n).length + j ∧
    n = Nat.ofDigitChars 10 (kept n) 0 * 10 ^ j ∧ kept n ≠ [] ∧ AreDigits (kept n) := by
  obtain ⟨j, hj⟩ := exists_zeros n
  have hvalue : n = Nat.ofDigitChars 10 (kept n) 0 * 10 ^ j := by
    have hread := Nat.ofDigitChars_ten_toDigits (n := n)
    rw [hj, Nat.ofDigitChars_append, Nat.ofDigitChars_replicate_zero] at hread
    rw [Nat.mul_comm, hread]
  refine ⟨j, by rw [hj, List.length_append, List.length_replicate], hvalue, ?_, ?_⟩
  · intro hnil
    rw [hnil, Nat.ofDigitChars_nil, Nat.zero_mul] at hvalue
    omega
  · intro c hc
    exact areDigits_toDigits n c (by rw [hj]; exact List.mem_append_left _ hc)

theorem Written.congr {cs cs' : List Char} {d d' : Decimal} (h : Written cs d) (hcs : cs' = cs)
    (hd : d' = d) : Written cs' d' := by
  rw [hcs, hd]
  exact h

/-- The digits with a point before them, behind them or among them. -/
theorem written_positional {digits : List Char} (hne : digits ≠ []) (hdigits : AreDigits digits)
    (place : Int) : ∃ j : Nat, Written (positional true digits place)
      ⟨Nat.ofDigitChars 10 digits 0 * 10 ^ j, place - digits.length - j⟩ := by
  unfold positional
  by_cases hbefore : place ≤ 0
  · have hzeros := (areDigits_zeros (-place).toNat).append hdigits
    have hvalue : Nat.ofDigitChars 10 (['0'] ++ (List.replicate (-place).toNat '0' ++ digits)) 0 =
        Nat.ofDigitChars 10 digits 0 * 10 ^ 0 := by
      rw [Nat.ofDigitChars_append, Nat.ofDigitChars_append, Nat.pow_zero, Nat.mul_one]
      simp [Nat.ofDigitChars_cons]
    refine ⟨0, .congr (.point (List.cons_ne_nil '0' []) (List.forall_mem_singleton.2 rfl) hzeros)
      (if_pos hbefore) ?_⟩
    rw [hvalue, List.length_append, List.length_replicate]
    exact congrArg (Decimal.mk _) (by omega)
  by_cases hbehind : (digits.length : Int) ≤ place
  · have hzeros := hdigits.append (areDigits_zeros (place.toNat - digits.length))
    have hvalue : Nat.ofDigitChars 10
        (digits ++ List.replicate (place.toNat - digits.length) '0' ++ List.replicate 1 '0') 0 =
        Nat.ofDigitChars 10 digits 0 * 10 ^ (place.toNat - digits.length + 1) := by
      rw [Nat.ofDigitChars_append, Nat.ofDigitChars_append, Nat.ofDigitChars_replicate_zero,
        Nat.ofDigitChars_replicate_zero, Nat.pow_succ]
      ring
    refine ⟨place.toNat - digits.length + 1, .congr (.point (List.append_ne_nil_of_left_ne_nil hne _)
      hzeros (areDigits_zeros 1)) ?_ ?_⟩
    · rw [if_neg hbefore, if_pos hbehind, if_pos rfl]
      rfl
    · rw [hvalue, List.length_replicate]
      exact congrArg (Decimal.mk _) (by omega)
  · have hwhole : digits.take place.toNat ≠ [] := by
      intro hnil
      have hlength := congrArg List.length hnil
      rw [List.length_take, List.length_nil] at hlength
      omega
    have hpart : AreDigits (digits.drop place.toNat) := fun c hc => hdigits c (List.mem_of_mem_drop hc)
    refine ⟨0, .congr (.point hwhole (fun c hc => hdigits c (List.mem_of_mem_take hc)) hpart) ?_ ?_⟩
    · rw [if_neg hbefore, if_neg hbehind]
    · rw [List.take_append_drop, List.length_drop, Nat.pow_zero, Nat.mul_one]
      exact congrArg (Decimal.mk _) (by omega)

/-- The digits with a point behind the first, and an exponent. -/
theorem written_scientific {digits : List Char} (hne : digits ≠ []) (hdigits : AreDigits digits)
    (place : Int) : Written (scientific digits place)
      ⟨Nat.ofDigitChars 10 digits 0, place - digits.length⟩ := by
  have hsign := signed?_exponent (place - 1)
  unfold scientific
  rcases digits with _ | ⟨d, _ | ⟨c, ds⟩⟩
  · exact absurd rfl hne
  · refine .congr (.exponent (List.cons_ne_nil d []) hdigits hsign) rfl ?_
    exact congrArg (Decimal.mk _) (by simp)
  · have hfirst : AreDigits [d] := List.forall_mem_singleton.2 (hdigits d List.mem_cons_self)
    have hrest : AreDigits (c :: ds) := fun a ha => hdigits a (List.mem_cons_of_mem d ha)
    refine .congr (.both (List.cons_ne_nil d []) hfirst hrest hsign) rfl ?_
    exact congrArg (Decimal.mk _) (by simp only [List.length_cons]; omega)

/-- The text of a positive decimal reads as a decimal of the same value. -/
theorem exists_written_layout {d : Decimal} (hd : 0 < d.digits) :
    ∃ read, Written (d.layout true).toList read ∧ read.units = d.units := by
  obtain ⟨j, hlength, hvalue, hne, hdigits⟩ := exists_kept hd
  -- without the zeros behind them the digits are followed by as many places more
  have hunits : d.units = Decimal.units ⟨Nat.ofDigitChars 10 (kept d.digits) 0, d.exponent + j⟩ := by
    have hshift := units_shift (Nat.ofDigitChars 10 (kept d.digits) 0) j (d.exponent + j)
    rw [← hvalue, Int.add_sub_cancel] at hshift
    exact hshift
  have hplace : ((Nat.toDigits 10 d.digits).length : Int) + d.exponent - (kept d.digits).length =
      d.exponent + j := by omega
  have hlayout : (d.layout true).toList =
      if -4 < ((Nat.toDigits 10 d.digits).length : Int) + d.exponent ∧
          ((Nat.toDigits 10 d.digits).length : Int) + d.exponent ≤ 16 then
        positional true (kept d.digits) (((Nat.toDigits 10 d.digits).length : Int) + d.exponent)
      else scientific (kept d.digits) (((Nat.toDigits 10 d.digits).length : Int) + d.exponent) := by
    rw [layout, String.toList_ofList]
    rfl
  rw [hlayout, hunits, ← hplace]
  split
  · obtain ⟨m, hwritten⟩ := written_positional hne hdigits
      (((Nat.toDigits 10 d.digits).length : Int) + d.exponent)
    exact ⟨_, hwritten, units_shift _ m _⟩
  · exact ⟨_, written_scientific hne hdigits _, rfl⟩

end Decimal

namespace Binary64

open Decimal (Written AreDigits)

/-! ## Numbers and their texts -/

/-- A character that the text of a finite number may hold. -/
def isNumeral (c : Char) : Bool := c.isDigit || c == '.' || c == 'e' || c == '+' || c == '-'

/-- What is read as a number consists of digits. -/
theorem areDigits_of_digits? {cs : List Char} {n : Nat} (h : digits? cs = some n) :
    AreDigits cs := by
  unfold digits? at h
  split at h
  · rename_i hall
    exact List.all_eq_true.1 hall
  · cases h

/-- An exponent is a sign, if there is one, and digits. -/
theorem isNumeral_of_signed? {cs : List Char} {x : Int} (h : signed? cs = some x) :
    ∀ c ∈ cs, isNumeral c = true := by
  have hdigits : ∀ {ds : List Char} {f : Int → Int}, (if ds.isEmpty then none
      else Option.map f (digits? ds >>= fun n => pure (n : Int))) = some x →
      ∀ c ∈ ds, isNumeral c = true := by
    intro ds f hds c hc
    rw [Option.ite_none_left_eq_some] at hds
    cases hn : digits? ds with
    | none =>
      rw [hn] at hds
      cases hds.2
    | some n =>
      rw [isNumeral, areDigits_of_digits? hn c hc]
      rfl
  unfold signed? at h
  split at h
  · exact List.forall_mem_cons.2 ⟨rfl, hdigits h⟩
  · exact List.forall_mem_cons.2 ⟨rfl, hdigits h⟩
  · exact hdigits h

section Texts

variable {cs : List Char} {d : Decimal}

/-- A written decimal begins with a digit. -/
theorem exists_digit (h : Written cs d) : ∃ c rest, cs = c :: rest ∧ c.isDigit = true := by
  have hwhole : ∀ {whole : List Char} (more : List Char), whole ≠ [] → AreDigits whole →
      ∃ c rest, whole ++ more = c :: rest ∧ c.isDigit = true := by
    intro whole more hne hdigits
    cases whole with
    | nil => exact absurd rfl hne
    | cons c rest => exact ⟨c, rest ++ more, rfl, hdigits c List.mem_cons_self⟩
  cases h with
  | point hne hdigits _ => exact hwhole _ hne hdigits
  | exponent hne hdigits _ => exact hwhole _ hne hdigits
  | both hne hdigits _ _ => exact hwhole _ hne hdigits

/-- A written decimal has a point or an exponent, and otherwise digits and signs. -/
theorem isNumeral_of_written (h : Written cs d) :
    (∀ c ∈ cs, isNumeral c = true) ∧ ('.' ∈ cs ∨ 'e' ∈ cs) := by
  have hdigits : ∀ {ds : List Char}, AreDigits ds → ∀ c ∈ ds, isNumeral c = true := by
    intro ds hds c hc
    rw [isNumeral, hds c hc]
    rfl
  cases h with
  | point hne hwhole hpart =>
    refine ⟨List.forall_mem_append.2 ⟨hdigits hwhole, ?_⟩, .inl (by simp)⟩
    exact List.forall_mem_cons.2 ⟨rfl, hdigits hpart⟩
  | exponent hne hwhole hsign =>
    refine ⟨List.forall_mem_append.2 ⟨hdigits hwhole, ?_⟩, .inr (by simp)⟩
    exact List.forall_mem_cons.2 ⟨rfl, isNumeral_of_signed? hsign⟩
  | both hne hwhole hpart hsign =>
    refine ⟨List.forall_mem_append.2 ⟨hdigits hwhole, ?_⟩, .inl (by simp)⟩
    refine List.forall_mem_cons.2 ⟨rfl, List.forall_mem_append.2 ⟨hdigits hpart, ?_⟩⟩
    exact List.forall_mem_cons.2 ⟨rfl, isNumeral_of_signed? hsign⟩

end Texts

theorem nearestUnits_zero (den : Nat) : nearestUnits 0 den = 0 := by
  simp [nearestUnits, roundHalfEven]

theorem units_eq_zero {d : Decimal} (h : d.digits = 0) : d.units = 0 := by
  rw [Decimal.units, Decimal.quotient, h, Nat.zero_mul, Nat.zero_mul]
  exact nearestUnits_zero _

/-- The text of a finite number is a minus sign, if it is negative, and a decimal that reads back as
its count. -/
theorem exists_written {s : Bool} {u : Nat} (h : Representable (.finite s u)) : ∃ cs d,
    (finite s u).literal.toList = (if s then ['-'] else []) ++ cs ∧ Written cs d ∧
      d.units = u := by
  have hsign : (finite s u).literal.toList =
      (if s then ['-'] else []) ++ (magnitudeText true u).toList := by
    rw [literal, render, String.toList_append]
    cases s <;> rfl
  by_cases hzero : u = 0
  · have hdigits : AreDigits ['0'] := List.forall_mem_singleton.2 rfl
    refine ⟨['0', '.', '0'], _, ?_, .point (List.cons_ne_nil _ _) hdigits hdigits, ?_⟩
    · rw [hsign, hzero]
      rfl
    · rw [hzero]
      exact units_eq_zero rfl
  · have hpos : 0 < u := Nat.pos_of_ne_zero hzero
    have hunits := Decimal.units_shortest hpos (fits_of_nearestUnits h.2)
    have hne : (Decimal.shortest u).digits ≠ 0 := by
      intro hnone
      rw [units_eq_zero hnone] at hunits
      exact hzero hunits.symm
    obtain ⟨d, hwritten, hd⟩ := Decimal.exists_written_layout (Nat.pos_of_ne_zero hne)
    refine ⟨_, d, hsign, ?_, hd.trans hunits⟩
    rw [magnitudeText, if_neg hzero]
    exact hwritten

/-- The text of a number reads as the number. -/
theorem parse?_literal {x : Binary64} (h : Representable x) : parse? x.literal = some x := by
  cases x with
  | nan => rfl
  | inf s => cases s <;> rfl
  | finite s u =>
    obtain ⟨cs, d, htext, hwritten, hunits⟩ := exists_written h
    obtain ⟨c, rest, rfl, hdigit⟩ := exists_digit hwritten
    have hround : nearestUnits (d.quotient.1 * unitsPerOne) d.quotient.2 = u := hunits
    have hnot : ∀ word : List Char, word.head?.map Char.isDigit = some false → c :: rest ≠ word := by
      rintro word hword rfl
      rw [List.head?_cons, Option.map_some, hdigit] at hword
      cases hword
    have hmagnitude : ∀ negative, magnitude? negative (c :: rest) = some (.finite negative u) := by
      intro negative
      have hinfinite : ¬ (c :: rest = "inf".toList ∨ c :: rest = "infinity".toList) := fun h =>
        h.elim (hnot _ (by decide)) (hnot _ (by decide))
      rw [magnitude?, if_neg hinfinite, if_neg (hnot _ (by decide)), hwritten.decimal?_eq,
        Option.map_some, ofDecimal, ofQuotient, ofUnits, hround]
      exact congrArg some (if_pos h.1)
    have hsigned : ofChars? (c :: rest) = magnitude? false (c :: rest) := by
      unfold ofChars?
      split
      · rename_i heq
        cases heq
        cases hdigit
      · rename_i heq
        cases heq
        cases hdigit
      · rfl
    rw [parse?, htext]
    cases s with
    | true => exact hmagnitude true
    | false => exact hsigned.trans (hmagnitude false)

/-- Different numbers have different texts. -/
theorem literal_injective {x y : Binary64} (hx : Representable x) (hy : Representable y)
    (h : x.literal = y.literal) : x = y := by
  have hread := parse?_literal hx
  rw [h, parse?_literal hy] at hread
  exact (Option.some.inj hread).symm

end Binary64

end CheckedCalls
