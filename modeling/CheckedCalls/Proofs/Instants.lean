import CheckedCalls.Calendar

/-!
# Days and their instants

The days of the calendar are numbered without gaps: months follow each other within a year, and
years follow each other. So a day is known by its number, and by the instant of its midnight.
-/

namespace CheckedCalls

namespace Date

/-- The days before a month are those before the last month and its own. -/
theorem daysBeforeMonth_succ (year : Nat) {month : Nat} (h : 1 ≤ month) :
    daysBeforeMonth year (month + 1) = daysBeforeMonth year month + daysInMonth year month := by
  obtain ⟨m, rfl⟩ := Nat.exists_eq_add_of_le' h
  simp [daysBeforeMonth, List.range_succ]

theorem daysBeforeMonth_mono (year : Nat) {m n : Nat} (hm : 1 ≤ m) (hmn : m ≤ n) :
    daysBeforeMonth year m ≤ daysBeforeMonth year n := by
  induction hmn with
  | refl => exact Nat.le_refl _
  | step hmn ih =>
    rw [daysBeforeMonth_succ year (Nat.le_trans hm hmn)]
    omega

/-- After the twelfth month the year is over, with its leap day. -/
theorem daysBeforeMonth_thirteen (year : Nat) :
    daysBeforeMonth year 13 = if isLeap year then 366 else 365 := by
  have hmonths : List.range (13 - 1) = [0, 1, 2, 3, 4, 5, 6, 7, 8, 9, 10, 11] := rfl
  rw [daysBeforeMonth, hmonths]
  simp only [List.foldl_cons, List.foldl_nil, daysInMonth]
  cases isLeap year <;> rfl

/-- A quotient grows where the remainder starts anew. -/
theorem succ_div_eq (n k : Nat) : (n + 1) / k = n / k + if (n + 1) % k = 0 then 1 else 0 := by
  rw [Nat.succ_div]
  simp only [Nat.dvd_iff_mod_eq_zero]

/-- A year begins when the year before it is over. -/
theorem daysBeforeYear_succ {year : Nat} (h : 1 ≤ year) :
    daysBeforeYear (year + 1) = daysBeforeYear year + daysBeforeMonth year 13 := by
  rw [daysBeforeMonth_thirteen]
  obtain ⟨y, rfl⟩ := Nat.exists_eq_add_of_le' h
  have hle : y / 100 ≤ y / 4 := Nat.div_le_div_left (by decide) (by decide)
  have hfour : (y + 1) % 100 = 0 → (y + 1) % 4 = 0 := by omega
  have hhundred : (y + 1) % 400 = 0 → (y + 1) % 100 = 0 := by omega
  simp only [daysBeforeYear, isLeap, Nat.add_sub_cancel, succ_div_eq, Bool.and_eq_true,
    Bool.or_eq_true, beq_iff_eq, bne_iff_ne]
  by_cases h4 : (y + 1) % 4 = 0 <;> by_cases h100 : (y + 1) % 100 = 0 <;>
    by_cases h400 : (y + 1) % 400 = 0 <;> simp_all <;> omega

theorem daysBeforeYear_mono {y z : Nat} (hy : 1 ≤ y) (hyz : y ≤ z) :
    daysBeforeYear y ≤ daysBeforeYear z := by
  induction hyz with
  | refl => exact Nat.le_refl _
  | step hyz ih =>
    rw [daysBeforeYear_succ (Nat.le_trans hy hyz)]
    omega

/-- A day lies in its month, which lies in its year. -/
theorem dayNumber_lt {d : Date} (h : d.isValid = true) :
    d.dayNumber < daysBeforeYear d.year + daysBeforeMonth d.year (d.month + 1) ∧
      d.dayNumber < daysBeforeYear (d.year + 1) := by
  simp only [isValid, Bool.and_eq_true, decide_eq_true_eq] at h
  obtain ⟨⟨hyear, -, hmonth, hmonth', hday⟩, hday'⟩ := h
  have hnext := daysBeforeMonth_succ d.year hmonth
  have hlast := daysBeforeMonth_mono d.year (Nat.le_add_left 1 d.month)
    (show d.month + 1 ≤ 13 by omega)
  have hyears := daysBeforeYear_succ hyear
  rw [dayNumber]
  omega

/-- Two days of the calendar with one number are one day. -/
theorem eq_of_dayNumber_eq {d e : Date} (hd : d.isValid = true) (he : e.isValid = true)
    (h : d.dayNumber = e.dayNumber) : d = e := by
  have hdlt := dayNumber_lt hd
  have helt := dayNumber_lt he
  simp only [isValid, Bool.and_eq_true, decide_eq_true_eq] at hd he
  obtain ⟨year, month, day⟩ := d
  obtain ⟨year', month', day'⟩ := e
  simp only [dayNumber] at h hdlt helt hd he
  -- of two years, and then of two months, the earlier one is over before the later one starts
  have hyear : year = year' := by
    rcases Nat.lt_trichotomy year year' with hlt | heq | hlt
    · have := daysBeforeYear_mono (Nat.le_add_left 1 year) hlt
      omega
    · exact heq
    · have := daysBeforeYear_mono (Nat.le_add_left 1 year') hlt
      omega
  subst hyear
  have hmonth : month = month' := by
    rcases Nat.lt_trichotomy month month' with hlt | heq | hlt
    · have := daysBeforeMonth_mono year (Nat.le_add_left 1 month) hlt
      omega
    · exact heq
    · have := daysBeforeMonth_mono year (Nat.le_add_left 1 month') hlt
      omega
  subst hmonth
  have hday : day = day' := by omega
  rw [hday]

/-- Two days of the calendar with one midnight are one day. -/
theorem eq_of_instant_eq {d e : Date} (hd : d.isValid = true) (he : e.isValid = true)
    (h : d.instant = e.instant) : d = e := by
  have hmicroseconds : d.dayNumber * microsecondsPerDay = e.dayNumber * microsecondsPerDay :=
    Int.ofNat.inj h
  exact eq_of_dayNumber_eq hd he (Nat.eq_of_mul_eq_mul_right (by decide) hmicroseconds)

end Date

end CheckedCalls
