import CheckedCalls.Evaluate
import CheckedCalls.Proofs.Leading
import Mathlib.Logic.Relation

/-!
# Where the equality has no answer

The equality of native values fails in one way only: where it comes to two dates or moments of which
one has no instant, since its offset shifts it out of the calendar
(`equals_answers_or_overflows`). A comparison overflows there, and where one overflows that it leads
to (`overflowsIf_step`); since these are comparisons of parts, its course has an end. So the
equality answers if the two values hold only moments with an instant
(`exists_equals_of_forall_within`).
-/

namespace CheckedCalls

/-- The two forms have parts that are compared. -/
def Form.isLike : Form → Form → Bool
  | .seq k _, .seq l _ => k == l
  | .dict _, .dict _ => true
  | .box b _, .box c _ => b == c
  | _, _ => false

open Run

namespace Value

section Relations

variable {call : Apply} {w : World} {x y : Value}

/-! ## One step of the course -/

section Step

variable {s : Sense}

/-- A comparison of parts of the given values overflows or answers. -/
def PartsSettled (call : Apply) (w : World) (x y : Value) : Prop :=
  ∀ s : Sense, ∀ p ∈ x.parts, ∀ q ∈ y.parts,
    (s.compare call p q).OverflowsIf w ((s.compare call p q).Overflows w) IsTruth

/-- The comparison leads to one that overflows. -/
def LeadsOver (call : Apply) (w : World) (c : Comparing) : Prop :=
  ∃ d, Leads call w c d ∧ (d.run call).Overflows w

/-- Comparing sequences overflows exactly if a comparison it leads to does. -/
theorem overflowsIf_seq {k : SeqKind} {t u : Tag} {xs ys : List Value}
    (hparts : PartsSettled call w (.seq k t xs) (.seq k u ys)) :
    (s.compare call (.seq k t xs) (.seq k u ys)).OverflowsIf w
      (LeadsOver call w ⟨s, .seq k t xs, .seq k u ys⟩) IsTruth := by
  have hrun : s.compare call (.seq k t xs) (.seq k u ys) =
      if k = k ∧ xs.length = ys.length then
        do return .bool (← every (fun p => s.agree call p.1 p.2) (xs.zip ys))
      else answer false := by
    cases s <;> simp only [Sense.compare, equals, same, equalsAll_eq_every, sameAll_eq_every]
  rw [hrun]
  split
  · rename_i hlength
    have hall := overflowsIf_every fun p hp =>
      Sense.overflowsIf_agree (hparts s p.1 (List.of_mem_zip hp).1 p.2 (List.of_mem_zip hp).2)
    refine (hall.bind_pure fun b _ => ⟨b, rfl⟩).congr ?_
    constructor
    · rintro ⟨front, ⟨x, y⟩, back, hzip, hfront, hone, hover⟩
      exact ⟨_, .element hlength.2 hzip hfront hone, hover⟩
    · rintro ⟨d, hlead, hover⟩
      cases hlead with
      | element _ hzip hfront hone => exact ⟨_, _, _, hzip, hfront, hone, hover⟩
      | held hx => cases hx
  · rename_i hlength
    refine ((Run.answers_pure _ w).overflowsIf ⟨false, rfl⟩).congr ?_
    refine iff_of_false id ?_
    rintro ⟨d, hlead, -⟩
    cases hlead with
    | element h => exact hlength ⟨rfl, h⟩
    | held hx => cases hx

section Dictionaries

variable {t u : Tag} {es fs : List (Value × Value)} {d : Value × Value}
variable (hw : w.Untitled) (hx : (Value.dict t es).IsProper) (hy : (Value.dict u fs).IsProper)
variable (hparts : PartsSettled call w (.dict t es) (.dict u fs))

include hw hx hy hparts

theorem overflowsIf_holdsKey_of_mem (hd : d ∈ es) :
    (holdsKey call fs d).OverflowsIf w (KeyOverflows call w fs d.1) fun _ => True :=
  overflowsIf_holdsKey (hx.exists_hashKey hw hd) (fun _ he => hy.exists_hashKey hw he)
    (fun e he => hparts .native d.1 (mem_parts_of_mem_entries t hd).1 e.1
      (mem_parts_of_mem_entries u he).1) d.2

theorem overflowsIf_holdsEntry_of_mem (hd : d ∈ es) :
    (s.holdsEntry call fs d).OverflowsIf w
      (KeyOverflows call w fs d.1 ∨ ∃ v, (lookup call d.1 fs).Answers w (some v) ∧
        (s = .native → d.2.identical v = false) ∧ (s.compare call d.2 v).Overflows w)
      fun _ => True :=
  s.overflowsIf_holdsEntry (hx.exists_hashKey hw hd) (fun _ he => hy.exists_hashKey hw he)
    (fun e he => hparts .native d.1 (mem_parts_of_mem_entries t hd).1 e.1
      (mem_parts_of_mem_entries u he).1)
    fun e he => hparts s d.2 (mem_parts_of_mem_entries t hd).2 e.2 (mem_parts_of_mem_entries u he).2

/-- The native equality looks up the keys and compares the values in one go. -/
theorem overflowsIf_same_dict (hlength : es.length = fs.length) :
    (same call (.dict t es) (.dict u fs)).OverflowsIf w
      (LeadsOver call w ⟨.native, .dict t es, .dict u fs⟩) IsTruth := by
  have hrun : same call (.dict t es) (.dict u fs) =
      do return .bool (← every (Sense.native.holdsEntry call fs) es) := by
    simp only [same, hlength, if_true, sameEntries_eq_every]
  rw [hrun]
  have hall := overflowsIf_every fun d hd =>
    overflowsIf_holdsEntry_of_mem (s := .native) (d := d) hw hx hy hparts hd
  refine (hall.bind_pure fun b _ => ⟨b, rfl⟩).congr ?_
  constructor
  · rintro ⟨front, d, back, hes, hfront,
      ⟨before, e, after, hfs, hbefore, hone, hhash, hover⟩ | ⟨v, hfound, hone, hover⟩⟩
    · exact ⟨_, .key hlength hes hfront hfs hbefore hone hhash, hover⟩
    · exact ⟨_, .value hlength (by simp) hes hfront hfound hone, hover⟩
  · rintro ⟨c, hlead, hover⟩
    cases hlead with
    | key _ hes hfront hfs hbefore hone hhash =>
      exact ⟨_, _, _, hes, hfront, .inl ⟨_, _, _, hfs, hbefore, hone, hhash, hover⟩⟩
    | value _ _ hes hfront hfound hone =>
      exact ⟨_, _, _, hes, hfront, .inr ⟨_, hfound, hone, hover⟩⟩
    | held hx => cases hx

/-- After all keys have been looked up, the law-abiding equality overflows at a value only. -/
theorem overflowsIf_every_holdsEntry
    (hkeys : ∀ d ∈ es, (holdsKey call fs d).Answers w true) :
    (every (Sense.law.holdsEntry call fs) es).OverflowsIf w
      (Reaches (fun d => (Sense.law.holdsEntry call fs d).Answers w true)
        (fun d => ∃ v, (lookup call d.1 fs).Answers w (some v) ∧ (equals call d.2 v).Overflows w) es)
      fun _ => True := by
  have hall := overflowsIf_every fun d hd =>
    overflowsIf_holdsEntry_of_mem (s := .law) (d := d) hw hx hy hparts hd
  refine (hall.mono fun _ _ => trivial).congr (reaches_congr fun d hd => ?_)
  have hkey := (overflowsIf_holdsKey_of_mem hw hx hy hparts hd).not_of_answers (hkeys d hd)
  simp [hkey, Sense.compare]

/-- The law-abiding equality looks up all keys before it compares the values. -/
theorem overflowsIf_equals_dict (hlength : es.length = fs.length) :
    (equals call (.dict t es) (.dict u fs)).OverflowsIf w
      (LeadsOver call w ⟨.law, .dict t es, .dict u fs⟩) IsTruth := by
  have hrun : equals call (.dict t es) (.dict u fs) = do
      if ← every (holdsKey call fs) es then
        return .bool (← every (Sense.law.holdsEntry call fs) es)
      else return .bool false := by
    simp only [equals, hlength, if_true, keysWithin_eq_every, equalsEntries_eq_every]
  have hrest (b : Bool) (hb : b = true ↔ ∀ d ∈ es, (holdsKey call fs d).Answers w true) :
      OverflowsIf (if b = true then do return .bool (← every (Sense.law.holdsEntry call fs) es)
        else pure (.bool false)) w
        ((∀ d ∈ es, (holdsKey call fs d).Answers w true) ∧
          Reaches (fun d => (Sense.law.holdsEntry call fs d).Answers w true)
            (fun d => ∃ v, (lookup call d.1 fs).Answers w (some v) ∧
              (equals call d.2 v).Overflows w) es) IsTruth := by
    cases b with
    | false =>
      have hno : ¬∀ d ∈ es, (holdsKey call fs d).Answers w true := fun h => by cases hb.2 h
      exact ((Run.answers_pure _ w).overflowsIf ⟨false, rfl⟩).congr
        (iff_of_false id fun h => hno h.1)
    | true =>
      have hall := overflowsIf_every_holdsEntry hw hx hy hparts (hb.1 rfl)
      exact (hall.bind_pure fun b _ => ⟨b, rfl⟩).congr (and_iff_right (hb.1 rfl)).symm
  have hwithin := overflowsIf_every fun d hd =>
    overflowsIf_holdsKey_of_mem (d := d) hw hx hy hparts hd
  rw [hrun]
  refine (hwithin.bind fun b _ hb => hrest b hb).congr ?_
  constructor
  · rintro (⟨front, d, back, hes, hfront, before, e, after, hfs, hbefore, hone, hhash, hover⟩ |
      ⟨b, -, hkeys, front, d, back, hes, hfront, v, hfound, hover⟩)
    · exact ⟨_, .key hlength hes hfront hfs hbefore hone hhash, hover⟩
    · exact ⟨_, .value hlength (fun _ => hkeys) hes hfront hfound (by simp), hover⟩
  · rintro ⟨c, hlead, hover⟩
    cases hlead with
    | key _ hes hfront hfs hbefore hone hhash =>
      exact .inl ⟨_, _, _, hes, hfront, _, _, _, hfs, hbefore, hone, hhash, hover⟩
    | value _ hkeys hes hfront hfound hone =>
      exact .inr ⟨true, every_answers_true (hkeys rfl), hkeys rfl, _, _, _, hes, hfront, _,
        hfound, hover⟩
    | held hx => cases hx

/-- Comparing dicts overflows exactly if a comparison it leads to does. -/
theorem overflowsIf_dict : (s.compare call (.dict t es) (.dict u fs)).OverflowsIf w
    (LeadsOver call w ⟨s, .dict t es, .dict u fs⟩) IsTruth := by
  by_cases hlength : es.length = fs.length
  · cases s with
    | law => exact overflowsIf_equals_dict hw hx hy hparts hlength
    | native => exact overflowsIf_same_dict hw hx hy hparts hlength
  · have hrun : (s.compare call (.dict t es) (.dict u fs)).Answers w (.bool false) := by
      cases s <;> simp only [Sense.compare, equals, same, hlength, if_false] <;> rfl
    refine (hrun.overflowsIf ⟨false, rfl⟩).congr (iff_of_false id ?_)
    rintro ⟨d, hlead, -⟩
    cases hlead with
    | key h | value h => exact hlength h
    | held hx => cases hx

end Dictionaries

/-- Comparing what holds a value overflows exactly if comparing the held values does. -/
theorem overflowsIf_held {b : Base} {v u : Value} (hx : x.lawForm = .box b v)
    (hy : y.lawForm = .box b u) (hparts : PartsSettled call w x y) :
    (s.compare call x y).OverflowsIf w (LeadsOver call w ⟨s, x, y⟩) IsTruth := by
  have hrun : s.compare call x y = equals call v u := by
    cases x <;> cases hx <;> cases y <;> cases hy <;> cases s <;> rfl
  have hv : v ∈ x.parts := by simp [parts, hx, Form.parts]
  have hu : u ∈ y.parts := by simp [parts, hy, Form.parts]
  rw [hrun]
  refine (hparts .law v hv u hu).congr ?_
  constructor
  · exact fun h => ⟨_, .held hx hy, h⟩
  · rintro ⟨d, hlead, hover⟩
    cases hlead with
    | element | key | value => cases hx
    | held hx' hy' =>
      cases hx.symm.trans hx'
      cases hy.symm.trans hy'
      exact hover

theorem Leads.isLike {d : Comparing} (h : Leads call w ⟨s, x, y⟩ d) :
    x.lawForm.isLike y.lawForm = true := by
  cases h with
  | element | key | value => simp [lawForm, Form.isLike]
  | held hx hy => simp [hx, hy, Form.isLike]

/-- Values without parts to compare are told apart or not, unless a moment has no instant. -/
theorem exists_equals (hx : x.isNative = true) (hy : y.isNative = true)
    (h : x.lawForm.isLike y.lawForm = false) (hinside : ¬Comparing.IsOutside ⟨.law, x, y⟩) :
    ∃ b, (equals call x y).Answers w (.bool b) := by
  have hinstant {m : Moment} (hm : m.instant? ≠ none) : ∃ i, m.instant.Answers w i :=
    ⟨_, answers_instant (Option.isSome_iff_ne_none.2 hm)⟩
  cases x with
  | object => cases hx
  | date t d =>
    cases y with
    | moment u n =>
      obtain ⟨i, hi⟩ := hinstant hinside
      exact ⟨_, hi.bind rfl⟩
    | _ => exact ⟨_, rfl⟩
  | moment t m =>
    cases y with
    | date u d =>
      obtain ⟨i, hi⟩ := hinstant hinside
      exact ⟨_, hi.bind rfl⟩
    | moment u n =>
      obtain ⟨i, hi⟩ := hinstant fun hm => hinside (.inl hm)
      obtain ⟨j, hj⟩ := hinstant fun hn => hinside (.inr hn)
      exact ⟨_, hi.bind (hj.bind rfl)⟩
    | _ => exact ⟨_, rfl⟩
  | seq k t xs =>
    cases y with
    | seq l u ys =>
      have hkl : k ≠ l := by simpa [lawForm, Form.isLike] using h
      exact ⟨false, by rw [equals, if_neg fun h => hkl h.1]; rfl⟩
    | _ => exact ⟨_, rfl⟩
  | dict | just | left | right | identity =>
    cases y <;> first | exact ⟨_, rfl⟩ | exact absurd h (by simp [lawForm, Form.isLike])
  | _ => cases y <;> exact ⟨_, rfl⟩

theorem exists_samePoint (call : Apply) (x : Value) (hy : y.isNative = true) : ∃ b, Answers
    (if samePoint x y then answer true else reflected call x none y) w (.bool b) := by
  split
  · exact ⟨true, rfl⟩
  · cases y with
    | object => cases hy
    | _ => exact ⟨false, rfl⟩

/-- Values without parts to compare are natively the same or not. -/
theorem exists_same (hx : x.isNative = true) (hy : y.isNative = true)
    (h : x.lawForm.isLike y.lawForm = false) : ∃ b, (same call x y).Answers w (.bool b) := by
  cases x with
  | object => cases hx
  | bool | number | complex => exact exists_samePoint call _ hy
  | seq k t xs =>
    cases y with
    | seq l u ys =>
      have hkl : k ≠ l := by simpa [lawForm, Form.isLike] using h
      exact ⟨false, by rw [same, if_neg fun h => hkl h.1]; rfl⟩
    | _ => exact exists_samePoint call (.seq k t xs) hy
  | dict t es =>
    cases y with
    | dict => cases h
    | _ => exact exists_samePoint call (.dict t es) hy
  | just | left | right | identity =>
    cases y with
    | just | left | right | identity =>
      first | exact ⟨_, rfl⟩ | exact absurd h (by simp [lawForm, Form.isLike])
    | object => cases hy
    -- the class of a number or a sequence is known by its kind
    | number t n => cases n <;> exact ⟨_, rfl⟩
    | seq k t xs => cases k <;> exact ⟨_, rfl⟩
    | type c => exact ⟨false, by simp [same, variantSame, heldBy?, payload?]; rfl⟩
    | _ => exact ⟨_, rfl⟩
  | nothing => exact ⟨_, rfl⟩
  | _ =>
    cases y with
    | object => cases hy
    | _ => exact ⟨_, rfl⟩

theorem Comparing.IsOutside.not_isLike (h : Comparing.IsOutside ⟨s, x, y⟩) :
    x.lawForm.isLike y.lawForm = false := by
  unfold Comparing.IsOutside at h
  split at h <;> first | exact h.elim | (rename_i hc; cases hc; rfl)

/-- A moment without an instant fails, and the comparison with it. -/
theorem Comparing.IsOutside.overflows (h : Comparing.IsOutside ⟨s, x, y⟩) :
    (s.compare call x y).Overflows w := by
  have hnone {m : Moment} (hm : m.instant? = none) : m.instant = throw .overflow := by
    rw [Moment.instant, hm]
  unfold Comparing.IsOutside at h
  split at h
  · rename_i hc
    cases hc
    rw [Sense.compare, equals, hnone h]
    rfl
  · rename_i hc
    cases hc
    rw [Sense.compare, equals, hnone h]
    rfl
  · rename_i t m u n hc
    cases hc
    rw [Sense.compare, equals]
    rcases hm : m.instant? with _ | i
    · rw [hnone hm]
      rfl
    · rw [hnone (h.resolve_left (by simp [hm])), Moment.instant, hm]
      rfl
  · exact h.elim

/-- Values with parts to compare lead to the comparisons of these. -/
theorem overflowsIf_of_isLike (hw : w.Untitled) (hx : x.IsProper) (hy : y.IsProper)
    (hparts : PartsSettled call w x y) (h : x.lawForm.isLike y.lawForm = true) :
    (s.compare call x y).OverflowsIf w (LeadsOver call w ⟨s, x, y⟩) IsTruth := by
  cases x with
  | seq k t xs =>
    cases y with
    | seq l u ys =>
      cases eq_of_beq (show (k == l) = true from h)
      exact overflowsIf_seq hparts
    | _ => cases h
  | dict t es =>
    cases y with
    | dict u fs => exact overflowsIf_dict hw hx hy hparts
    | _ => cases h
  | just | left | right | identity =>
    cases y <;> first | exact overflowsIf_held rfl rfl hparts | cases h
  | _ => exact absurd h Bool.false_ne_true

/-- A comparison overflows where it comes to a moment without an instant, or if it leads to one that
overflows. -/
theorem overflowsIf_step (hw : w.Untitled) (hx : x.IsProper) (hy : y.IsProper)
    (hparts : PartsSettled call w x y) : (s.compare call x y).OverflowsIf w
      (Comparing.IsOutside ⟨s, x, y⟩ ∨ LeadsOver call w ⟨s, x, y⟩) IsTruth := by
  by_cases hlike : x.lawForm.isLike y.lawForm = true
  · have hinside : ¬Comparing.IsOutside ⟨s, x, y⟩ := fun h => by cases h.not_isLike.symm.trans hlike
    exact (overflowsIf_of_isLike hw hx hy hparts hlike).congr (by simp [hinside])
  have hlead : ¬LeadsOver call w ⟨s, x, y⟩ := by
    rintro ⟨d, hd, -⟩
    exact hlike hd.isLike
  by_cases hout : Comparing.IsOutside ⟨s, x, y⟩
  · exact .inr ⟨.inl hout, hout.overflows⟩
  · rw [Bool.not_eq_true] at hlike
    obtain ⟨b, hb⟩ : ∃ b, (s.compare call x y).Answers w (.bool b) := by
      cases s with
      | native => exact exists_same hx.native hy.native hlike
      | law => exact exists_equals hx.native hy.native hlike hout
    exact (hb.overflowsIf ⟨b, rfl⟩).congr (by simp [hlead, hout])

end Step

/-! ## The whole course -/

/-- The course of the comparison comes to a moment without an instant. -/
def ComesOutside (call : Apply) (w : World) (c : Comparing) : Prop :=
  ∃ d, Relation.ReflTransGen (Leads call w) c d ∧ d.IsOutside

/-- A comparison comes outside at once, or through a comparison it leads to. -/
theorem comesOutside_iff {c : Comparing} : ComesOutside call w c ↔
    c.IsOutside ∨ ∃ d, Leads call w c d ∧ ComesOutside call w d := by
  constructor
  · rintro ⟨e, hce, he⟩
    rcases Relation.ReflTransGen.cases_head hce with rfl | ⟨d, hcd, hde⟩
    · exact .inl he
    · exact .inr ⟨d, hcd, e, hde, he⟩
  · rintro (hc | ⟨d, hcd, e, hde, he⟩)
    · exact ⟨c, .refl, hc⟩
    · exact ⟨e, .head hcd hde, he⟩

theorem overflowsIf_compare (hw : w.Untitled) {s : Sense} (hx : x.IsProper)
    (hy : y.IsProper) :
    (s.compare call x y).OverflowsIf w (ComesOutside call w ⟨s, x, y⟩) IsTruth := by
  -- on the size of the first value, since a comparison leads to its parts
  induction hn : sizeOf x using Nat.strongRecOn generalizing s x y with
  | ind n ih =>
    subst hn
    have hpart {s : Sense} {p q : Value} (hp : p ∈ x.parts) (hq : q ∈ y.parts) :=
      ih _ (sizeOf_lt_of_mem_parts hp) (s := s) (hx.of_mem_parts hp) (hy.of_mem_parts hq) rfl
    refine (overflowsIf_step hw hx hy fun s p hp q hq => ?_).congr ?_
    · exact (hpart hp hq).congr (hpart hp hq).overflows_iff.symm
    · rw [comesOutside_iff]
      refine or_congr_right (exists_congr fun d => and_congr_right fun hd => ?_)
      exact (hpart hd.mem_parts.1 hd.mem_parts.2).overflows_iff

/-- A comparison comes outside at a moment that one of the two values holds. -/
theorem ComesOutside.exists_within {c : Comparing} (h : ComesOutside call w c) :
    ∃ t m, m.instant? = none ∧ (Within (.moment t m) c.left ∨ Within (.moment t m) c.right) := by
  obtain ⟨d, hcd, hd⟩ := h
  have hmem : Within d.left c.left ∧ Within d.right c.right := by
    clear hd
    induction hcd with
    | refl => exact ⟨.refl, .refl⟩
    | tail _ hstep ih => exact ⟨ih.1.tail hstep.mem_parts.1, ih.2.tail hstep.mem_parts.2⟩
  unfold Comparing.IsOutside at hd
  split at hd
  · exact ⟨_, _, hd, .inr hmem.2⟩
  · exact ⟨_, _, hd, .inl hmem.1⟩
  · rcases hd with hm | hn
    · exact ⟨_, _, hm, .inl hmem.1⟩
    · exact ⟨_, _, hn, .inr hmem.2⟩
  · exact hd.elim

end Relations

/-- The equality of native values answers a truth value, unless its course comes to a moment
without an instant: then it overflows. -/
theorem equals_answers_or_overflows (call : Apply) {w : World} (hw : w.Untitled) {x y : Value}
    (hx : x.IsProper) (hy : y.IsProper) :
    (¬ComesOutside call w ⟨.law, x, y⟩ ∧ ∃ b, (equals call x y).Answers w (.bool b)) ∨
      (ComesOutside call w ⟨.law, x, y⟩ ∧
        (equals call x y).outcome w = (.error .overflow, w)) := by
  rcases overflowsIf_compare (s := .law) hw hx hy with ⟨hno, -, hb, b, rfl⟩ | h
  · exact .inl ⟨hno, b, hb⟩
  · exact .inr h

/-- The first hour of the calendar, in a zone ahead of universal time. -/
def firstHour : Value := .moment (.numbered 0) ⟨⟨1, 1, 1⟩, 0, 0, 0, 0, some 60⟩

/-- The course comes to a moment without an instant in two lists only if they agree in front of
it. -/
theorem equals_answers_or_overflows_firstHour :
    ¬ComesOutside applyFunction .initial ⟨.law,
        .seq .list (.numbered 1) [.bool true, firstHour],
        .seq .list (.numbered 2) [.bool false, firstHour]⟩ ∧
      ComesOutside applyFunction .initial ⟨.law,
        .seq .list (.numbered 1) [.bool true, firstHour],
        .seq .list (.numbered 2) [.bool true, firstHour]⟩ := by
  have hcourse (a b : Bool) := equals_answers_or_overflows applyFunction World.untitled_initial
    (x := .seq .list (.numbered 1) [.bool a, firstHour])
    (y := .seq .list (.numbered 2) [.bool b, firstHour]) ⟨rfl, rfl⟩ ⟨rfl, rfl⟩
  constructor
  · rcases hcourse true false with ⟨h, -⟩ | ⟨-, h⟩
    · exact h
    · cases h
  · rcases hcourse true true with ⟨-, b, h⟩ | ⟨h, -⟩
    · cases h
    · exact h

/-- The first hour of the calendar is not told apart from a day. -/
theorem equals_firstHour_overflows :
    firstHour.IsProper ∧ (Value.date (.numbered 1) ⟨2000, 1, 1⟩).IsProper ∧
      (equals applyFunction firstHour (.date (.numbered 1) ⟨2000, 1, 1⟩)).outcome .initial =
        (.error .overflow, .initial) :=
  ⟨⟨rfl, rfl⟩, ⟨rfl, rfl⟩, rfl⟩

/-- If both values hold only moments with an instant, the equality answers. -/
theorem exists_equals_of_forall_within (call : Apply) {w : World} (hw : w.Untitled) {x y : Value}
    (hx : x.IsProper) (hy : y.IsProper)
    (hinstant : ∀ t m, Within (.moment t m) x ∨ Within (.moment t m) y → m.instant? ≠ none) :
    ∃ b, (equals call x y).Answers w (.bool b) := by
  rcases overflowsIf_compare (s := .law) hw hx hy with ⟨-, -, hb, b, rfl⟩ | ⟨h, -⟩
  · exact ⟨b, hb⟩
  · obtain ⟨t, m, hm, hwithin⟩ := h.exists_within
    exact absurd hm (hinstant t m hwithin)

end Value

end CheckedCalls
