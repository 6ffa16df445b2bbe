import CheckedCalls.Evaluate
import CheckedCalls.Proofs.Sound

/-!
# The law-abiding equality is an equivalence

Both equalities answer for sound values, and compare the forms that they see of them
(`equals_tells`, `same_tells`). Each step asks for the comparisons of parts only, so that both are
symmetric and transitive by induction on the size of the values (`settled`). Dictionaries need both
properties at once: that one is in the other says by itself nothing of the converse, which holds
because no key is found under another.
-/

namespace CheckedCalls

namespace Value

section Relations

variable {call : Apply} {w : World} {store : Nat → Value} {x y z : Value} {S : Value → Prop}

/-! ## What the comparisons tell -/

section Parts

variable {P : Prop} {key : Value} {d : Value × Value} {xs ys : List Value}
variable {es fs : List (Value × Value)}

theorem hashesAgree_tells (hx : ∃ h, (x.hashKey call).Answers w h)
    (hy : ∃ h, (y.hashKey call).Answers w h) :
    (x.hashesAgree call y).Tells id w (HashAlike call w x y) := by
  obtain ⟨h, hh⟩ := hx
  obtain ⟨k, hk⟩ := hy
  exact ⟨h.same k, hh.bind (hk.bind rfl), (hashAlike_iff hh hk).symm⟩

/-- Matching two keys tells whether they match, if sameness tells whether they are the same. -/
theorem keyMatches_tells (hx : ∃ h, (x.hashKey call).Answers w h)
    (hy : ∃ h, (y.hashKey call).Answers w h)
    (hsame : (same call x y).Tells .bool w (Same call w x y)) :
    (keyMatches call x (same call x) y).Tells id w (Matches call w x y) := by
  rw [keyMatches]
  split
  · exact Run.tells_pure (iff_of_true rfl (.inl (identical_symm ‹_›)))
  · rename_i hid
    rw [identical_comm] at hid
    refine (hashesAgree_tells hx hy).bind (fun hash => ?_) fun hhash => ?_
    · exact (hsame.truth call).congr (by simp [Matches, hid, hash])
    · exact Run.tells_pure (by simp [Matches, hid, hhash])

/-- Looking up finds an entry with a key that passes the test, if there is one. -/
theorem findEntry_answers {test : Value → Run Bool} {P : Value → Prop}
    (h : ∀ e ∈ es, (test e.1).Tells id w (P e.1)) :
    (∃ e ∈ es, P e.1 ∧ (findEntry test es).Answers w (some e.2)) ∨
      (∀ e ∈ es, ¬P e.1) ∧ (findEntry test es).Answers w none := by
  induction es with
  | nil => exact .inr ⟨by simp, rfl⟩
  | cons e es ih =>
    rw [List.forall_mem_cons] at h
    obtain ⟨b, hb, hP⟩ := h.1
    have hfind : ∀ v?, (findEntry test (e :: es)).Answers w v? ↔
        (if b = true then pure (some e.2) else findEntry test es : Run _).Answers w v? := by
      intro v?
      rw [findEntry]
      exact hb.bind_iff
    cases b with
    | true => exact .inl ⟨e, by simp, hP.1 rfl, (hfind _).2 rfl⟩
    | false =>
      have hno : ¬P e.1 := fun h => by cases hP.2 h
      rcases ih h.2 with ⟨f, hf, hPf, hanswer⟩ | ⟨hnone, hanswer⟩
      · exact .inl ⟨f, by simp [hf], hPf, (hfind _).2 hanswer⟩
      · exact .inr ⟨by simpa [hno] using hnone, (hfind _).2 hanswer⟩

/-- How a comparison of dictionaries goes on after a key was looked up. -/
theorem lookup_tells {K Q : Value → Prop} {test : Value → Run Bool} {next : Option Value → Run Bool}
    (htest : ∀ e ∈ es, (test e.1).Tells id w (K e.1))
    (hone : ∀ d ∈ es, ∀ e ∈ es, K d.1 → K e.1 → d = e)
    (hsome : ∀ e ∈ es, (next (some e.2)).Tells id w (Q e.2 ∧ P))
    (hnone : next none = pure false) :
    (findEntry test es >>= next).Tells id w ((∃ e ∈ es, K e.1 ∧ Q e.2) ∧ P) := by
  rcases findEntry_answers htest with ⟨e, he, hkey, hanswer⟩ | ⟨hno, hanswer⟩
  · obtain ⟨b, hb, hpart⟩ := hsome e he
    refine ⟨b, hanswer.bind hb, hpart.trans (and_congr_left fun _ => ?_)⟩
    constructor
    · intro h
      exact ⟨e, he, hkey, h⟩
    · rintro ⟨f, hf, hkeyf, h⟩
      rwa [hone e he f hf hkey hkeyf]
  · refine ⟨false, hanswer.bind (by rw [hnone]; rfl), ?_⟩
    refine iff_of_false Bool.false_ne_true ?_
    rintro ⟨⟨e, he, hkey, -⟩, -⟩
    exact hno e he hkey

end Parts

/-- On the values of a class both comparisons answer, and both are symmetric and transitive. -/
structure Settled (call : Apply) (w : World) (S : Value → Prop) : Prop where
  equals : ∀ {x y}, S x → S y → (equals call x y).Tells .bool w (Equal call w x y)
  same : ∀ {x y}, S x → S y → (same call x y).Tells .bool w (Same call w x y)
  equiv_equal : EquivOn S (Equal call w)
  equiv_same : EquivOn S (Same call w)

section Parts

variable {xs ys : List Value} {es fs : List (Value × Value)}

/-- Comparing two lists tells whether their elements are equal in turn. -/
theorem equalsAll_tells (hS : Settled call w S) (hlength : xs.length = ys.length)
    (hxs : ∀ x ∈ xs, S x) (hys : ∀ y ∈ ys, S y) :
    (equalsAll call xs ys).Tells id w (xs.Forall₂ (Equal call w) ys) := by
  induction xs generalizing ys with
  | nil =>
    cases ys with
    | nil => exact Run.tells_pure (by simp)
    | cons y ys => cases hlength
  | cons x xs ih =>
    cases ys with
    | nil => cases hlength
    | cons y ys =>
      rw [List.forall_mem_cons] at hxs hys
      rw [equalsAll, List.forall₂_cons]
      refine (hS.equals hxs.1 hys.1).bind (fun hfirst => ?_) fun hfirst => ?_
      · exact (ih (Nat.succ.inj hlength) hxs.2 hys.2).congr (by simp [hfirst])
      · exact Run.tells_pure (by simp [hfirst])

/-- Comparing two lists natively tells whether their elements are alike in turn. -/
theorem sameAll_tells (hS : Settled call w S) (hlength : xs.length = ys.length)
    (hxs : ∀ x ∈ xs, S x) (hys : ∀ y ∈ ys, S y) :
    (sameAll call xs ys).Tells id w (xs.Forall₂ (Alike call w) ys) := by
  induction xs generalizing ys with
  | nil =>
    cases ys with
    | nil => exact Run.tells_pure (by simp)
    | cons y ys => cases hlength
  | cons x xs ih =>
    cases ys with
    | nil => cases hlength
    | cons y ys =>
      rw [List.forall_mem_cons] at hxs hys
      have hrest := ih (Nat.succ.inj hlength) hxs.2 hys.2
      rw [sameAll, List.forall₂_cons]
      split
      · exact hrest.congr (by simp [Alike, *])
      · refine (hS.same hxs.1 hys.1).bind (fun hfirst => ?_) fun hfirst => ?_
        · exact hrest.congr (by simp [Alike, hfirst])
        · exact Run.tells_pure (by simp [Alike, *])

/-- The entries of a dictionary whose keys and values are of a class: the keys can be hashed, and
none is found under another. -/
structure Entries (call : Apply) (w : World) (S : Value → Prop) (es : List (Value × Value)) :
    Prop where
  key : ∀ e ∈ es, S e.1
  value : ∀ e ∈ es, S e.2
  hash : ∀ e ∈ es, ∃ k, (e.1.hashKey call).Answers w k
  one : es.Pairwise fun d e => ¬Matches call w e.1 d.1

theorem Entries.tail {e : Value × Value} (h : Entries call w S (e :: es)) :
    Entries call w S es where
  key := (List.forall_mem_cons.1 h.key).2
  value := (List.forall_mem_cons.1 h.value).2
  hash := (List.forall_mem_cons.1 h.hash).2
  one := h.one.of_cons

/-- Looking up a key of one dictionary in another. -/
theorem Entries.lookup_tells (hfs : Entries call w S fs) (hS : Settled call w S)
    (hmatches : EquivOn S (Matches call w)) {key : Value} (hkey : S key)
    (hhash : ∃ k, (key.hashKey call).Answers w k) {Q : Value → Prop} {P : Prop}
    {next : Option Value → Run Bool}
    (hsome : ∀ e ∈ fs, (next (some e.2)).Tells id w (Q e.2 ∧ P))
    (hnone : next none = pure false) :
    (findEntry (keyMatches call key (same call key)) fs >>= next).Tells id w
      ((∃ e ∈ fs, Matches call w key e.1 ∧ Q e.2) ∧ P) := by
  refine Value.lookup_tells (fun e he => ?_) (fun d hd e he hkd hke => ?_) hsome hnone
  · exact keyMatches_tells hhash (hfs.hash e he) (hS.same hkey (hfs.key e he))
  · refine eq_of_pairwise_not (P := fun e => Matches call w key e.1) ?_ hd he hkd hke
    refine hfs.one.imp_of_mem fun {d e} hd he hno hboth => hno ?_
    exact hmatches.trans (hfs.key e he) hkey (hfs.key d hd)
      (hmatches.symm hkey (hfs.key e he) hboth.2) hboth.1

/-- Comparing keys tells whether every key of one dict matches a key of the other. -/
theorem keysWithin_tells (hS : Settled call w S) (hmatches : EquivOn S (Matches call w))
    (hes : Entries call w S es) (hfs : Entries call w S fs) :
    (keysWithin call es fs).Tells id w (∀ d ∈ es, ∃ e ∈ fs, Matches call w d.1 e.1) := by
  induction es with
  | nil => exact Run.tells_pure (by simp)
  | cons d es ih =>
    rw [keysWithin, List.forall_mem_cons]
    have hrest := ih hes.tail
    refine (hfs.lookup_tells hS hmatches (Q := fun _ => True) (hes.key d (by simp))
      (hes.hash d (by simp)) (fun e he => by simpa using hrest) rfl).congr (by simp)

/-- Comparing dicts tells whether every entry of one has an equal entry under a matching key. -/
theorem equalsEntries_tells (hS : Settled call w S) (hmatches : EquivOn S (Matches call w))
    (hes : Entries call w S es) (hfs : Entries call w S fs) :
    (equalsEntries call es fs).Tells id w
      (∀ d ∈ es, ∃ e ∈ fs, Matches call w d.1 e.1 ∧ Equal call w d.2 e.2) := by
  induction es with
  | nil => exact Run.tells_pure (by simp)
  | cons d es ih =>
    rw [equalsEntries, List.forall_mem_cons]
    refine hfs.lookup_tells hS hmatches (hes.key d (by simp)) (hes.hash d (by simp))
      (fun e he => ?_) rfl
    refine (hS.equals (hes.value d (by simp)) (hfs.value e he)).bind (fun hvalue => ?_)
      fun hvalue => ?_
    · exact (ih hes.tail).congr (by simp [hvalue])
    · exact Run.tells_pure (by simp [hvalue])

/-- Comparing dicts natively tells whether every entry has a like entry under a matching key. -/
theorem sameEntries_tells (hS : Settled call w S) (hmatches : EquivOn S (Matches call w))
    (hes : Entries call w S es) (hfs : Entries call w S fs) :
    (sameEntries call es fs).Tells id w
      (∀ d ∈ es, ∃ e ∈ fs, Matches call w d.1 e.1 ∧ Alike call w d.2 e.2) := by
  induction es with
  | nil => exact Run.tells_pure (by simp)
  | cons d es ih =>
    rw [sameEntries, List.forall_mem_cons]
    refine hfs.lookup_tells hS hmatches (hes.key d (by simp)) (hes.hash d (by simp))
      (fun e he => ?_) rfl
    dsimp only
    split
    · exact (ih hes.tail).congr (by simp [Alike, *])
    · refine (hS.same (hes.value d (by simp)) (hfs.value e he)).bind (fun hvalue => ?_)
        fun hvalue => ?_
      · exact (ih hes.tail).congr (by simp [Alike, hvalue])
      · exact Run.tells_pure (by simp [Alike, *])

theorem Sound.entries {t : Tag} (hS : Settled call w S) (hx : Sound call w store (.dict t es))
    (hparts : ∀ p ∈ (Value.dict t es).parts, S p) : Entries call w S es := by
  have hes := Form.forall_mem_parts_dict.1 hparts
  cases hx with
  | dict h hkeys hvalues hhash hone =>
    refine ⟨fun e he => (hes e he).1, fun e he => (hes e he).2, hhash, ?_⟩
    refine hone.imp_of_mem fun {d e} hd he hno => ?_
    exact ((keyMatches_tells (hhash e he) (hhash d hd)
      (hS.same (hes e he).1 (hes d hd).1)).answers_false_iff (by simp)).1 hno

end Parts

/-! ## One step of a comparison -/

/-- A moment that lies in the calendar has its instant. -/
theorem answers_instant {m : Moment} (h : m.instant?.isSome = true) :
    m.instant.Answers w (m.instant?.getD 0) := by
  obtain ⟨i, hi⟩ := Option.isSome_iff_exists.1 h
  rw [Moment.instant, hi]
  rfl

theorem equals_number_iff {m n : Number} : m.equals n = true ↔
    m.point? = n.point? ∧
      (m.isZero && m.isNegativeZero) = (n.isZero && n.isNegativeZero) := by
  rw [Number.equals_iff]
  refine and_congr_right fun hpoint => ?_
  have hboth : n.isZero = m.isZero := by
    rw [Bool.eq_iff_iff, Number.isZero_iff, Number.isZero_iff, hpoint]
  rw [hboth, ← Number.isZero_iff]
  cases m.isZero <;> simp

/-- Complex numbers are equal exactly if they are one object or denote one point. -/
theorem equals_complex_iff {m n : Nat} {a b c d : Binary64}
    (hm : store m = .complex (.numbered m) a b) (hn : store n = .complex (.numbered n) c d) :
    ((Tag.numbered m).same (.numbered n) ||
        samePoint (.complex (.numbered m) a b) (.complex (.numbered n) c d)) = true ↔
      (Value.complex (.numbered m) a b).lawForm.Step (Equal call w) (Matches call w)
        (Equal call w) (Value.complex (.numbered n) c d).lawForm := by
  rw [Bool.or_eq_true, samePoint_iff]
  simp only [lawForm, Form.Step, Atom.complex.injEq]
  constructor
  · rintro (h | ⟨hsome, h⟩)
    · cases eq_of_same_tag hm hn h
      exact ⟨rfl, rfl⟩
    · simp [h, ← hsome]
  · rintro ⟨hpoint, htag⟩
    rw [← hpoint] at htag ⊢
    split at htag
    · exact .inr ⟨‹_›, rfl⟩
    · left
      simpa [Tag.same] using htag

/-- Functions are the same exactly if they are one object or one method of one object. -/
theorem sameFunc_iff {m n : Nat} {f g : Func} (hm : store m = .func (.numbered m) f)
    (hn : store n = .func (.numbered n) g) : sameFunc (.numbered m) f (.numbered n) g = true ↔
      Tag.numbered m = .numbered n ∧ f = g ∨ Form.OneMethod f g := by
  rw [sameFunc, Bool.or_eq_true, identical, Form.OneMethod]
  constructor
  · rintro (h | h)
    · split at h
      · exact .inr (.inl h)
      · cases eq_of_same_tag hm hn h
        exact .inl ⟨rfl, rfl⟩
    · exact .inr (.inr h)
  · rintro (⟨⟨⟩, rfl⟩ | h | h)
    · exact .inl (identical_func_self m f)
    · have hunbound := Func.isUnbound_of_isSameMethod h
      exact .inl (by simp [hunbound, h])
    · exact .inr h

/-- Values that no comparison of their own class takes over are natively equal if they denote one
point. -/
theorem tells_samePoint {P : Prop} (hy : ∀ t c v, y ≠ .object t c v)
    (h : samePoint x y = true ↔ P) :
    Run.Tells (if samePoint x y then Run.answer true else reflected call x none y) .bool w P := by
  split
  · exact Run.tells_answer (by simpa [*] using h)
  · cases y with
    | object t c v => exact absurd rfl (hy t c v)
    | _ => exact Run.tells_answer (by simpa [*] using h)

section Steps

variable (hS : Settled call w S) (hsound : ∀ {v}, S v → Sound call w store v)
variable (hx : Sound call w store x) (hy : Sound call w store y)
variable (hxparts : ∀ p ∈ x.parts, S p) (hyparts : ∀ p ∈ y.parts, S p)

include hS hsound hx hy hxparts hyparts

/-- The law-abiding equality compares the forms that it sees. -/
theorem equals_tells : (equals call x y).Tells .bool w
    (x.lawForm.Step (Equal call w) (Matches call w) (Equal call w) y.lawForm) := by
  have hmatches := equivOn_matches hsound hS.equiv_same
  cases hx with
  | null | bool | text | bytes | pattern | nothing =>
    cases hy <;> exact Run.tells_answer (by simp [lawForm, Form.Step])
  | number hm =>
    cases hy with
    | number hn => exact Run.tells_answer (by simp [lawForm, Form.Step, equals_number_iff])
    | _ => exact Run.tells_answer (by simp [lawForm, Form.Step])
  | complex hm =>
    cases hy with
    | complex hn => exact Run.tells_answer (equals_complex_iff hm hn)
    | _ => exact Run.tells_answer (by simp [lawForm, Form.Step])
  | date hm =>
    cases hy with
    | date hn => exact Run.tells_answer (by simp [lawForm, Form.Step])
    | moment hn hj =>
      exact Run.Tells.answers_bind (answers_instant hj)
        (Run.tells_answer (by simp [lawForm, Form.Step]))
    | _ => exact Run.tells_answer (by simp [lawForm, Form.Step])
  | moment hm hi =>
    cases hy with
    | date hn =>
      exact Run.Tells.answers_bind (answers_instant hi)
        (Run.tells_answer (by simp [lawForm, Form.Step]))
    | moment hn hj =>
      exact Run.Tells.answers_bind (answers_instant hi) (Run.Tells.answers_bind (answers_instant hj)
        (Run.tells_answer (by simp [lawForm, Form.Step])))
    | _ => exact Run.tells_answer (by simp [lawForm, Form.Step])
  | func hm =>
    cases hy with
    | func hn => exact Run.tells_answer (sameFunc_iff hm hn)
    | _ => exact Run.tells_answer (by simp [lawForm, Form.Step])
  | just | left | right | identity =>
    cases hy with
    | just | left | right | identity =>
      first
      | exact Run.tells_answer (by simp [lawForm, Form.Step])
      | exact (hS.equals (hxparts _ (List.mem_singleton_self _))
          (hyparts _ (List.mem_singleton_self _))).congr (by simp [lawForm, Form.Step])
    | _ => exact Run.tells_answer (by simp [lawForm, Form.Step])
  | @seq k m xs hm hxs =>
    cases hy with
    | @seq l n ys hn hys =>
      rw [equals]
      split
      · rename_i h
        refine (equalsAll_tells hS h.2 hxparts hyparts).bind (fun hall => ?_) fun hall => ?_
        · exact Run.tells_answer (by simp [lawForm, Form.Step, h.1, hall])
        · exact Run.tells_answer (by simp [lawForm, Form.Step, hall])
      · rename_i h
        refine Run.tells_answer (iff_of_false Bool.false_ne_true ?_)
        exact fun hstep => h ⟨hstep.1, hstep.2.length_eq⟩
    | _ => exact Run.tells_answer (by simp [lawForm, Form.Step])
  | @dict m es hm hkeys hvalues hhash hone =>
    have hes := Sound.entries hS (.dict hm hkeys hvalues hhash hone) hxparts
    cases hy with
    | @dict n fs hn hkeys' hvalues' hhash' hone' =>
      have hfs := Sound.entries hS (.dict hn hkeys' hvalues' hhash' hone') hyparts
      rw [equals]
      split
      · rename_i hlength
        refine (keysWithin_tells hS hmatches hes hfs).bind (fun hkeys => ?_) fun hkeys => ?_
        · refine (equalsEntries_tells hS hmatches hes hfs).bind (fun hall => ?_) fun hall => ?_
          all_goals exact Run.tells_answer (by simpa [lawForm, Form.Step, hlength] using hall)
        · refine Run.tells_answer (iff_of_false Bool.false_ne_true fun hstep => ?_)
          refine hkeys fun d hd => ?_
          obtain ⟨e, he, hde, -⟩ := hstep.2 d hd
          exact ⟨e, he, hde⟩
      · rename_i hlength
        exact Run.tells_answer (iff_of_false Bool.false_ne_true fun hstep => hlength hstep.1)
    | _ => exact Run.tells_answer (by simp [lawForm, Form.Step])

/-- The native equality compares the forms that it sees. -/
theorem same_tells : (same call x y).Tells .bool w
    (x.nativeForm.Step (Alike call w) (Matches call w) (Equal call w) y.nativeForm) := by
  have hmatches := equivOn_matches hsound hS.equiv_same
  have hpoint (h : same call x y =
        if samePoint x y then Run.answer true else reflected call x none y)
      (hP : samePoint x y = true ↔
        x.nativeForm.Step (Alike call w) (Matches call w) (Equal call w) y.nativeForm) :
      (same call x y).Tells .bool w
        (x.nativeForm.Step (Alike call w) (Matches call w) (Equal call w) y.nativeForm) := by
    rw [h]
    exact tells_samePoint (by cases hy <;> simp) hP
  cases hx with
  | bool | number | complex =>
    cases hy with
    | bool | number | complex => exact hpoint rfl samePoint_iff
    | _ => exact hpoint rfl (iff_of_false (not_samePoint rfl) id)
  | null | text | bytes | pattern | date | moment =>
    cases hy <;> exact Run.tells_answer (by simp [nativeForm, Form.Step, Moment.same])
  | nothing =>
    cases hy with
    | nothing => exact Run.tells_answer (iff_of_true rfl rfl)
    | _ =>
      exact Run.tells_answer (iff_of_false Bool.false_ne_true (by simp [nativeForm, Form.Step]))
  | func hm =>
    cases hy with
    | func hn => exact Run.tells_answer (sameFunc_iff hm hn)
    | _ => exact hpoint rfl (by simp [nativeForm, Form.Step, samePoint, plane?])
  | just | left | right | identity =>
    cases hy with
    | just | left | right | identity =>
      first
      | exact Run.tells_answer (by simp [nativeForm, Form.Step])
      | exact (hS.equals (hxparts _ (List.mem_singleton_self _))
          (hyparts _ (List.mem_singleton_self _))).congr (by simp [nativeForm, Form.Step])
    -- the class of a number or a sequence is known by its kind
    | @number n k => cases k <;> exact Run.tells_answer (by simp [nativeForm, Form.Step])
    | @seq k => cases k <;> exact Run.tells_answer (by simp [nativeForm, Form.Step])
    | _ => exact Run.tells_answer (by simp [nativeForm, Form.Step])
  | @seq k m xs hm hxs =>
    cases hy with
    | @seq l n ys hn hys =>
      rw [same]
      split
      · rename_i h
        refine (sameAll_tells hS h.2 hxparts hyparts).bind (fun hall => ?_) fun hall => ?_
        · exact Run.tells_answer (by simp [nativeForm, Form.Step, h.1, hall])
        · exact Run.tells_answer (by simp [nativeForm, Form.Step, hall])
      · rename_i h
        refine Run.tells_answer (iff_of_false Bool.false_ne_true ?_)
        exact fun hstep => h ⟨hstep.1, hstep.2.length_eq⟩
    | _ => exact hpoint rfl (by simp [nativeForm, Form.Step, samePoint, plane?])
  | @dict m es hm hkeys hvalues hhash hone =>
    have hes := Sound.entries hS (.dict hm hkeys hvalues hhash hone) hxparts
    cases hy with
    | @dict n fs hn hkeys' hvalues' hhash' hone' =>
      have hfs := Sound.entries hS (.dict hn hkeys' hvalues' hhash' hone') hyparts
      rw [same]
      split
      · rename_i hlength
        refine (sameEntries_tells hS hmatches hes hfs).bind (fun hall => ?_) fun hall => ?_
        · exact Run.tells_answer (by simpa [nativeForm, Form.Step, hlength] using hall)
        · exact Run.tells_answer (by simpa [nativeForm, Form.Step, hlength] using hall)
      · rename_i hlength
        exact Run.tells_answer (iff_of_false Bool.false_ne_true fun hstep => hlength hstep.1)
    | _ => exact hpoint rfl (by simp [nativeForm, Form.Step, samePoint, plane?])

end Steps

/-! ## The equivalence -/

theorem Sound.distinct (hS : Settled call w S) (hx : Sound call w store x)
    (hparts : ∀ p ∈ x.parts, S p) :
    x.lawForm.Distinct (Matches call w) ∧ x.nativeForm.Distinct (Matches call w) := by
  cases x with
  | dict t es =>
    have hes := hx.entries hS hparts
    exact ⟨hes.one, hes.one⟩
  | _ => exact ⟨trivial, trivial⟩

/-- What is settled for the parts of sound values is settled for the values. -/
theorem Settled.step (hS : Settled call w S) (hsound : ∀ {v}, S v → Sound call w store v) :
    Settled call w fun v => Sound call w store v ∧ ∀ p ∈ v.parts, S p := by
  have hmatches := equivOn_matches hsound hS.equiv_same
  have halike := equivOn_alike hsound hS.equiv_same
  have hequals {x y} (hx : Sound call w store x ∧ ∀ p ∈ x.parts, S p)
      (hy : Sound call w store y ∧ ∀ p ∈ y.parts, S p) :=
    equals_tells hS hsound hx.1 hy.1 hx.2 hy.2
  have hsame {x y} (hx : Sound call w store x ∧ ∀ p ∈ x.parts, S p)
      (hy : Sound call w store y ∧ ∀ p ∈ y.parts, S p) :=
    same_tells hS hsound hx.1 hy.1 hx.2 hy.2
  have hequal {x y} (hx) (hy) := (@hequals x y hx hy).answers_iff (by simp)
  have hnative {x y} (hx) (hy) := (@hsame x y hx hy).answers_iff (by simp)
  exact {
    equals := fun hx hy => (hequals hx hy).congr (hequal hx hy).symm
    same := fun hx hy => (hsame hx hy).congr (hnative hx hy).symm
    equiv_equal := {
      symm := fun hx hy hxy => (hequal hy hx).2 <| ((hequal hx hy).1 hxy).symm hS.equiv_equal
        hmatches hS.equiv_equal hx.2 hy.2 (hx.1.distinct hS hx.2).1
      trans := fun hx hy hz hxy hyz => (hequal hx hz).2 <| ((hequal hx hy).1 hxy).trans
        hS.equiv_equal hmatches hS.equiv_equal hx.2 hy.2 hz.2 ((hequal hy hz).1 hyz) }
    equiv_same := {
      symm := fun hx hy hxy => (hnative hy hx).2 <| ((hnative hx hy).1 hxy).symm halike
        hmatches hS.equiv_equal (by simpa only [parts_nativeForm] using hx.2)
        (by simpa only [parts_nativeForm] using hy.2) (hx.1.distinct hS hx.2).2
      trans := fun hx hy hz hxy hyz => (hnative hx hz).2 <| ((hnative hx hy).1 hxy).trans
        halike hmatches hS.equiv_equal (by simpa only [parts_nativeForm] using hx.2)
        (by simpa only [parts_nativeForm] using hy.2)
        (by simpa only [parts_nativeForm] using hz.2) ((hnative hy hz).1 hyz) } }

theorem Settled.mono {T : Value → Prop} (hS : Settled call w S) (hT : ∀ {v}, T v → S v) :
    Settled call w T where
  equals hx hy := hS.equals (hT hx) (hT hy)
  same hx hy := hS.same (hT hx) (hT hy)
  equiv_equal := hS.equiv_equal.mono hT
  equiv_same := hS.equiv_same.mono hT

/-- Both comparisons are settled for sound values. -/
theorem settled (call : Apply) (w : World) (store : Nat → Value) :
    Settled call w (Sound call w store) := by
  -- on the size of the values, since a comparison goes to the parts of both
  have hbelow (n : Nat) : Settled call w fun v => Sound call w store v ∧ sizeOf v < n := by
    induction n with
    | zero =>
      have hno {v} (h : Sound call w store v ∧ sizeOf v < 0) : False := Nat.not_lt_zero _ h.2
      exact ⟨fun h => (hno h).elim, fun h => (hno h).elim,
        ⟨fun h => (hno h).elim, fun h => (hno h).elim⟩,
        ⟨fun h => (hno h).elim, fun h => (hno h).elim⟩⟩
    | succ n ih =>
      refine (ih.step And.left).mono fun hv => ⟨hv.1, fun p hp => ?_⟩
      exact ⟨hv.1.mem_parts hp, by have := sizeOf_lt_of_mem_parts hp; omega⟩
  exact {
    equals := fun {x y} hx hy =>
      (hbelow (sizeOf x + sizeOf y + 1)).equals ⟨hx, by omega⟩ ⟨hy, by omega⟩
    same := fun {x y} hx hy =>
      (hbelow (sizeOf x + sizeOf y + 1)).same ⟨hx, by omega⟩ ⟨hy, by omega⟩
    equiv_equal := {
      symm := fun {x y} hx hy =>
        (hbelow (sizeOf x + sizeOf y + 1)).equiv_equal.symm ⟨hx, by omega⟩ ⟨hy, by omega⟩
      trans := fun {x y z} hx hy hz =>
        (hbelow (sizeOf x + sizeOf y + sizeOf z + 1)).equiv_equal.trans ⟨hx, by omega⟩
          ⟨hy, by omega⟩ ⟨hz, by omega⟩ }
    equiv_same := {
      symm := fun {x y} hx hy =>
        (hbelow (sizeOf x + sizeOf y + 1)).equiv_same.symm ⟨hx, by omega⟩ ⟨hy, by omega⟩
      trans := fun {x y z} hx hy hz =>
        (hbelow (sizeOf x + sizeOf y + sizeOf z + 1)).equiv_same.trans ⟨hx, by omega⟩
          ⟨hy, by omega⟩ ⟨hz, by omega⟩ } }

/-- Every sound value equals itself. -/
theorem Sound.equal_self (hx : Sound call w store x) : Equal call w x x := by
  have hstep {v} (hv : Sound call w store v) := (equals_tells (settled call w store) id hv hv
    (fun _ => hv.mem_parts) fun _ => hv.mem_parts).answers_iff (by simp)
  induction hx with
  | seq h hxs ih => exact (hstep (.seq h hxs)).2 ⟨rfl, List.forall₂_same.2 ih⟩
  | dict h hkeys hvalues hhash hone _ ih =>
    refine (hstep (.dict h hkeys hvalues hhash hone)).2 ⟨rfl, fun e he => ⟨e, he, ?_, ih e he⟩⟩
    exact (hkeys e he).matches_self (hhash e he)
  | just h hv ih => exact (hstep (.just h hv)).2 ⟨rfl, ih⟩
  | left h hv ih => exact (hstep (.left h hv)).2 ⟨rfl, ih⟩
  | right h hv ih => exact (hstep (.right h hv)).2 ⟨rfl, ih⟩
  | identity h hv ih => exact (hstep (.identity h hv)).2 ⟨rfl, ih⟩
  | func h hself => exact (hstep (.func h hself)).2 (.inl ⟨rfl, rfl⟩)
  | null => exact (hstep .null).2 rfl
  | bool b => exact (hstep (.bool b)).2 rfl
  | number h => exact (hstep (.number h)).2 rfl
  | complex h => exact (hstep (.complex h)).2 rfl
  | text t s => exact (hstep (.text t s)).2 rfl
  | bytes h => exact (hstep (.bytes h)).2 rfl
  | date h hd => exact (hstep (.date h hd)).2 rfl
  | moment h hm => exact (hstep (.moment h hm)).2 rfl
  | pattern s => exact (hstep (.pattern s)).2 rfl
  | nothing => exact (hstep .nothing).2 rfl

/-- The law-abiding equality is an equivalence on sound values: it answers for any two of them, the
same either way round, and what it answers is reflexive and transitive. -/
theorem equals_equivalence (call : Apply) (w : World) (store : Nat → Value) {x y z : Value}
    (hx : Sound call w store x) (hy : Sound call w store y) (hz : Sound call w store z) :
    (equals call x x).Answers w (.bool true) ∧
      (∃ b, (equals call x y).Answers w (.bool b) ∧ (equals call y x).Answers w (.bool b)) ∧
      ((equals call x y).Answers w (.bool true) → (equals call y z).Answers w (.bool true) →
        (equals call x z).Answers w (.bool true)) := by
  have hsettled := settled call w store
  refine ⟨hx.equal_self, ?_, hsettled.equiv_equal.trans hx hy hz⟩
  obtain ⟨b, hxy, hb⟩ := hsettled.equals hx hy
  obtain ⟨c, hyx, hc⟩ := hsettled.equals hy hx
  have hsymm : Equal call w x y ↔ Equal call w y x :=
    ⟨hsettled.equiv_equal.symm hx hy, hsettled.equiv_equal.symm hy hx⟩
  have hbc : b = c := Bool.eq_iff_iff.2 (hb.trans (hsymm.trans hc.symm))
  exact ⟨b, hxy, hbc ▸ hyx⟩

end Relations

/-- Dictionaries with one day each, under the number one. -/
def dayStore : Nat → Value
  | 0 => .number (.numbered 0) (.int 1)
  | 1 => .date (.numbered 1) ⟨2020, 2, 29⟩
  | 2 => .dict (.numbered 2) [(.number (.numbered 0) (.int 1), .date (.numbered 1) ⟨2020, 2, 29⟩)]
  | 3 => .moment (.numbered 3) ⟨⟨2020, 2, 29⟩, 0, 0, 0, 0, none⟩
  | 4 => .dict (.numbered 4) [(.bool true, .moment (.numbered 3) ⟨⟨2020, 2, 29⟩, 0, 0, 0, 0, none⟩)]
  | 5 => .number (.numbered 5) (.fraction 1)
  | 6 => .moment (.numbered 6) ⟨⟨2020, 2, 29⟩, 1, 0, 0, 0, some 60⟩
  | 7 => .dict (.numbered 7) [(.number (.numbered 5) (.fraction 1),
      .moment (.numbered 6) ⟨⟨2020, 2, 29⟩, 1, 0, 0, 0, some 60⟩)]
  | _ => .null

theorem Sound.dict_singleton {call : Apply} {w : World} {store : Nat → Value} {n : Nat}
    {key value : Value} (h : store n = .dict (.numbered n) [(key, value)])
    (hkey : Sound call w store key) (hvalue : Sound call w store value)
    (hhash : ∃ k, (key.hashKey call).Answers w k) :
    Sound call w store (.dict (.numbered n) [(key, value)]) :=
  .dict h (by simpa using hkey) (by simpa using hvalue) (by simpa using hhash) (by simp)

/-- A day is equal to its midnight, and that to the same instant in another zone, also in
dictionaries with keys of different kinds. -/
theorem equals_equivalence_days :
    (equals applyFunction (dayStore 2) (dayStore 7)).Answers .initial (.bool true) :=
  (equals_equivalence applyFunction .initial dayStore (y := dayStore 4)
    (.dict_singleton rfl (.number rfl) (.date rfl (by decide)) ⟨_, rfl⟩)
    (.dict_singleton rfl (.bool true) (.moment rfl rfl) ⟨_, rfl⟩)
    (.dict_singleton rfl (.number rfl) (.moment rfl (by decide)) ⟨_, rfl⟩)).2.2 (by rfl) (by rfl)

end Value

end CheckedCalls
