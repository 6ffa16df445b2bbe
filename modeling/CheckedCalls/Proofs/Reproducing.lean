import CheckedCalls.Evaluate
import CheckedCalls.Proofs.Rebuilding

/-!
# When a value built anew is equal

A value built anew is equal to the first one just if that is reproducible, as long as no number
without a point is an object of both (`equals_rebuilt`). Such numbers are told apart as objects by
the native equality, and the complex ones also by the other one.
-/

namespace CheckedCalls

namespace Value

/-- No number without a point is an object of both values. -/
def Apart (x y : Value) : Prop := ∀ p, Within p x → Within p y → p.plane? ≠ some none

section Relations

variable {call : Apply} {w : World} {store : Nat → Value} {x y v u : Value}

theorem Within.of_mem_parts {p q : Value} (hp : p ∈ x.parts) (hq : Within q p) : Within q x :=
  .head hp hq

theorem Apart.of_mem_parts (h : Apart x y) (hv : v ∈ x.parts) (hu : u ∈ y.parts) : Apart v u :=
  fun p hpv hpu => h p (hpv.of_mem_parts hv) (hpu.of_mem_parts hu)

theorem Apart.of_mem_left (h : Apart x x) (hv : v ∈ x.parts) : Apart v v := h.of_mem_parts hv hv

theorem Apart.plane?_ne (h : Apart x x) : x.plane? ≠ some none := h x .refl .refl

/-! ## Values with points throughout -/

/-- A value in which every number has a point is reproducible, and findable as a key. -/
theorem Sound.reproducible_of_apart (hx : Sound call w store x) (h : Apart x x) :
    x.isReproducible = true ∧ x.isFindable = true := by
  induction hx with
  | @number n k hn =>
    refine ⟨rfl, ?_⟩
    have hnan : ¬k.isNaN = true := fun hnan =>
      h.plane?_ne (by rw [plane?, Number.isNaN_iff.1 hnan]; rfl)
    simpa [isFindable] using hnan
  | @complex n re im hn =>
    have hpoint : (Value.complex (.numbered n) re im).point?.isSome = true :=
      Option.isSome_iff_ne_none.2 fun hnone => h.plane?_ne (congrArg some hnone)
    exact ⟨hpoint, hpoint⟩
  | seq hn hxs ih =>
    have ih := fun x hx => ih x hx (h.of_mem_left hx)
    exact ⟨areReproducible_iff.2 fun x hx => (ih x hx).1, areFindable_iff.2 fun x hx => (ih x hx).2⟩
  | @dict n es hn _ _ _ _ ihkeys ihvalues =>
    have hmem := Form.forall_mem_parts_dict.1 fun _ => h.of_mem_left
    exact ⟨areReproducibleEntries_iff.2 fun e he =>
      ⟨(ihkeys e he (hmem e he).1).2, (ihvalues e he (hmem e he).2).1⟩, rfl⟩
  | just hn hv ih | left hn hv ih | right hn hv ih =>
    obtain ⟨hrep, hfind⟩ := ih (h.of_mem_left (List.mem_singleton_self _))
    exact ⟨hrep, by simp [isFindable, hrep, hfind]⟩
  | identity hn hv ih =>
    obtain ⟨hrep, -⟩ := ih (h.of_mem_left (List.mem_singleton_self _))
    exact ⟨hrep, hrep⟩
  | _ => exact ⟨rfl, rfl⟩

/-! ## Keys -/

/-- Lists with the same hash keys hash alike, element by element. -/
theorem forall₂_hashAlike_of_sameAll (hw : w.Untitled) {R : Value → Value → Prop}
    {xs ys : List Value} (hall : xs.Forall₂ R ys) (hxs : ∀ x ∈ xs, Sound call w store x)
    (hys : ∀ y ∈ ys, Sound call w store y) (hhash : areHashable xs = true)
    (hhash' : areHashable ys = true) {ks ls : List HashKey} (hks : (hashKeys call xs).Answers w ks)
    (hls : (hashKeys call ys).Answers w ls) (h : HashKey.sameAll ks ls = true) :
    xs.Forall₂ (fun x y => R x y ∧ HashAlike call w x y) ys := by
  induction hall generalizing ks ls with
  | nil => exact .nil
  | @cons x y xs ys hxy _ ih =>
    rw [List.forall_mem_cons] at hxs hys
    rw [areHashable_cons, Bool.and_eq_true] at hhash hhash'
    obtain ⟨k, hk⟩ := exists_hashKey hw hxs.1.isNative hhash.1
    obtain ⟨l, hl⟩ := exists_hashKey hw hys.1.isNative hhash'.1
    obtain ⟨ks', hks'⟩ := exists_hashKeys hw (areNative_iff.2 fun x hx => (hxs.2 x hx).isNative) hhash.2
    obtain ⟨ls', hls'⟩ := exists_hashKeys hw (areNative_iff.2 fun y hy => (hys.2 y hy).isNative) hhash'.2
    have hall : (hashKeys call (x :: xs)).Answers w (k :: ks') := hk.bind (hks'.bind rfl)
    have hall' : (hashKeys call (y :: ys)).Answers w (l :: ls') := hl.bind (hls'.bind rfl)
    cases hks.unique hall
    cases hls.unique hall'
    rw [HashKey.sameAll, Bool.and_eq_true] at h
    exact .cons ⟨hxy, (hashAlike_iff hk hl).2 h.1⟩ (ih hxs.2 hys.2 hhash.2 hhash'.2 hks' hls' h.2)

/-- Tuples that hash alike do so place by place. -/
theorem forall₂_hashAlike (hw : w.Untitled) {R : Value → Value → Prop} {s t : Tag}
    {xs ys : List Value} (hall : xs.Forall₂ R ys) (hx : Sound call w store (.seq .tuple s xs))
    (hy : Sound call w store (.seq .tuple t ys))
    (h : HashAlike call w (.seq .tuple s xs) (.seq .tuple t ys)) :
    xs.Forall₂ (fun x y => R x y ∧ HashAlike call w x y) ys := by
  obtain ⟨j, k, hj, hk, hjk⟩ := h
  have hhash : areHashable xs = true := isHashable_of_answers hw hx.isNative ⟨j, hj⟩
  have hhash' : areHashable ys = true := isHashable_of_answers hw hy.isNative ⟨k, hk⟩
  obtain ⟨ks, hks⟩ := exists_hashKeys hw hx.isNative hhash
  obtain ⟨ls, hls⟩ := exists_hashKeys hw hy.isNative hhash'
  cases hj.unique (hks.bind rfl)
  cases hk.unique (hls.bind rfl)
  exact forall₂_hashAlike_of_sameAll hw hall (fun _ => hx.mem_parts) (fun _ => hy.mem_parts) hhash
    hhash' hks hls hjk

/-! ## Values of objects of their own -/

/-- A value is reproducible if it is equal to the other one, and findable as a key if it hashes like
the other one and is equal to it by either equality. -/
def Reproduced (call : Apply) (w : World) (x y : Value) : Prop :=
  (Equal call w x y → x.isReproducible = true) ∧
    (x.isHashable = true → HashAlike call w x y → Equal call w x y ∨ Same call w x y →
      x.isFindable = true)

/-- Objects that are one are equal or natively the same. -/
theorem equal_or_same_of_alike (hx : Sound call w store x) (hy : Sound call w store y)
    (h : Alike call w x y) : Equal call w x y ∨ Same call w x y := by
  rcases h with h | h
  · rcases eq_or_same_of_identical hx hy h with rfl | h
    · exact .inl hx.equal_self
    · exact .inr h.2
  · exact .inr h

theorem isSome_of_step_plane {part keyed inside : Value → Value → Prop} {p : Option (Point × Point)}
    {f : Form} (h : (Form.plane p).Step part keyed inside f) : p.isSome = true := by
  cases f <;> first | exact h.1 | exact h.elim

/-- A number reproduces what it is compared with if no object without a point is in both. -/
theorem reproduced_number (hw : w.Untitled) {n : Nat} {k : Number}
    (hn : store n = .number (.numbered n) k) (hy : Sound call w store y)
    (hapart : Apart (.number (.numbered n) k) y) :
    Reproduced call w (.number (.numbered n) k) y := by
  refine ⟨fun _ => rfl, fun hhash hhashes h => ?_⟩
  have hnan : ¬k.isNaN = true := by
    intro hnan
    have hnone := Number.isNaN_iff.1 hnan
    rcases h with h | h
    · have hhash' := isHashable_of_answers hw hy.isNative hhashes.exists_right
      have hsame := (hashAlike_iff_of_equal hw (.number hn) hy h hhash hhash').1 hhashes
      have hstep := (equal_iff (.number hn) hy).1 h
      cases hy with
      | @number m l hm =>
        -- the two are one object, since they hash alike
        have hone : (Tag.numbered n).same (.numbered m) = true := by
          rw [← Bool.not_eq_false]
          exact fun hno => hsame ⟨hnan, hno⟩
        cases eq_of_same_tag hn hm hone
        exact hapart.plane?_ne (by rw [plane?, hnone]; rfl)
      | _ => exact absurd hstep (by simp [lawForm, Form.Step])
    · have hpoint := isSome_of_step_plane ((same_iff (.number hn) hy).1 h)
      simp [point?, plane?, hnone] at hpoint
  simpa [isFindable] using hnan

/-- A complex number reproduces what it is compared with if no object without a point is in both. -/
theorem reproduced_complex {n : Nat} {re im : Binary64}
    (hn : store n = .complex (.numbered n) re im) (hy : Sound call w store y)
    (hapart : Apart (.complex (.numbered n) re im) y) :
    Reproduced call w (.complex (.numbered n) re im) y := by
  have hlaw (h : Equal call w (.complex (.numbered n) re im) y) :
      (Value.complex (.numbered n) re im).point?.isSome = true := by
    have hstep := (equal_iff (.complex hn) hy).1 h
    cases hy with
    | @complex m re' im' hm =>
      by_contra hnone
      obtain ⟨hpoint, htag⟩ := Atom.complex.inj hstep
      rw [← hpoint] at htag
      simp only [hnone, if_false, Option.some.injEq] at htag
      cases eq_of_same_tag hn hm (by simpa [Tag.same] using htag)
      exact hapart.plane?_ne (congrArg some (Option.not_isSome_iff_eq_none.1 hnone))
    | _ => exact absurd hstep (by simp [lawForm, Form.Step])
  refine ⟨hlaw, fun _ _ h => ?_⟩
  rcases h with h | h
  · exact hlaw h
  · exact isSome_of_step_plane ((same_iff (.complex hn) hy).1 h)

/-- A sequence is reproduced as its elements are. -/
theorem reproduced_seq (hw : w.Untitled) {k : SeqKind} {s : Tag} {xs : List Value}
    (hx : Sound call w store (.seq k s xs)) (hy : Sound call w store y)
    (h : ∀ x ∈ xs, ∀ z ∈ y.parts, Reproduced call w x z) :
    Reproduced call w (.seq k s xs) y := by
  have hlaw := equal_iff hx hy
  have hnative := same_iff hx hy
  cases hy with
  | @seq l n ys hn hys =>
    constructor
    · intro hequal
      obtain ⟨rfl, hall⟩ := hlaw.1 hequal
      refine areReproducible_iff.2 fun x hx => ?_
      obtain ⟨z, hp⟩ := exists_mem_zip hall.length_eq hx
      exact (h x hx z (List.of_mem_zip hp).2).1 ((List.forall₂_iff_zip.1 hall).2 hp)
    · intro hhash hhashes hboth
      cases k with
      | list => cases hhash
      | tuple =>
        have hxs := areHashable_iff.1 (show areHashable xs = true from hhash)
        obtain ⟨rfl, hall⟩ : SeqKind.tuple = l ∧
            xs.Forall₂ (fun x z => Equal call w x z ∨ Same call w x z) ys := by
          rcases hboth with hequal | hsame
          · obtain ⟨hkind, hall⟩ := hlaw.1 hequal
            exact ⟨hkind, hall.imp fun _ _ h => .inl h⟩
          · obtain ⟨hkind, hall⟩ := hnative.1 hsame
            refine ⟨hkind, List.forall₂_iff_zip.2 ⟨hall.length_eq, fun hp => ?_⟩⟩
            exact equal_or_same_of_alike (hx.mem_parts (List.of_mem_zip hp).1)
              (hys _ (List.of_mem_zip hp).2) ((List.forall₂_iff_zip.1 hall).2 hp)
        have hall := forall₂_hashAlike hw hall hx (.seq hn hys) hhashes
        refine areFindable_iff.2 fun x hx => ?_
        obtain ⟨z, hp⟩ := exists_mem_zip hall.length_eq hx
        obtain ⟨hboth, hhashes⟩ := (List.forall₂_iff_zip.1 hall).2 hp
        exact (h x hx z (List.of_mem_zip hp).2).2 (hxs x hx) hhashes hboth
  | _ =>
    have hunequal := mt hlaw.1 (by simp [lawForm, Form.Step])
    have hnotsame := mt hnative.1 (by simp [nativeForm, Form.Step])
    exact ⟨fun hequal => absurd hequal hunequal, fun _ _ hboth =>
      hboth.elim (fun hequal => absurd hequal hunequal) fun hsame => absurd hsame hnotsame⟩

/-- A key that is found under an entry of the other dictionary is findable. -/
theorem isFindable_of_matches (hw : w.Untitled) (hx : Sound call w store x)
    (hy : Sound call w store y) (hapart : Apart x y) (hhash : ∃ k, (x.hashKey call).Answers w k)
    (h : Reproduced call w x y) (hmatches : Matches call w x y) : x.isFindable = true := by
  have hboth (hboth : HashAlike call w x y ∧ Same call w x y) : x.isFindable = true :=
    h.2 (isHashable_of_answers hw hx.isNative hhash) hboth.1 (.inr hboth.2)
  rcases hmatches with hone | hmatches
  · rcases eq_or_same_of_identical hx hy hone with rfl | hsame
    · exact (hx.reproducible_of_apart hapart).2
    · exact hboth hsame
  · exact hboth hmatches

/-- A dict is reproduced as its keys and values are. -/
theorem reproduced_dict (hw : w.Untitled) {s : Tag} {es : List (Value × Value)}
    (hx : Sound call w store (.dict s es)) (hy : Sound call w store y)
    (hapart : Apart (.dict s es) y)
    (hkeys : ∀ d ∈ es, ∀ z ∈ y.parts, Reproduced call w d.1 z)
    (hvalues : ∀ d ∈ es, ∀ z ∈ y.parts, Reproduced call w d.2 z) :
    Reproduced call w (.dict s es) y := by
  refine ⟨fun h => areReproducibleEntries_iff.2 fun d hd => ?_, fun hhash => by cases hhash⟩
  have hstep := (equal_iff hx hy).1 h
  have hd' := mem_parts_of_mem_entries s hd
  cases hx with
  | dict hn hkey hvalue hhash hone =>
    cases hy with
    | @dict m fs hm hkey' =>
      obtain ⟨e, he, hmatches, hequal⟩ := hstep.2 d hd
      have he' := mem_parts_of_mem_entries (.numbered m) he
      exact ⟨isFindable_of_matches hw (hkey d hd) (hkey' e he)
        (hapart.of_mem_parts hd'.1 he'.1) (hhash d hd) (hkeys d hd e.1 he'.1) hmatches,
        (hvalues d hd e.2 he'.2).1 hequal⟩
    | _ => exact absurd hstep (by simp [lawForm, Form.Step])

/-- What holds a value is equal, by either equality, only to what holds an equal value likewise. -/
theorem exists_equal_of_box {b : Base} (hx : Sound call w store x) (hy : Sound call w store y)
    (hlaw : x.lawForm = .box b v) (hnative : x.nativeForm = .box b v)
    (h : Equal call w x y ∨ Same call w x y) :
    ∃ u, y.lawForm = .box b u ∧ Equal call w v u := by
  have hbox {part keyed : Value → Value → Prop} {f : Form}
      (h : (Form.box b v).Step part keyed (Equal call w) f) :
      ∃ u, f = .box b u ∧ Equal call w v u := by
    cases f <;> first | exact ⟨_, congrArg (Form.box · _) h.1.symm, h.2⟩ | exact h.elim
  rcases h with h | h
  · exact hbox (hlaw ▸ (equal_iff hx hy).1 h)
  · obtain ⟨u, hu, hvu⟩ := hbox (hnative ▸ (same_iff hx hy).1 h)
    refine ⟨u, ?_, hvu⟩
    cases y <;> first | exact hu | cases hu

/-- A variant is reproducible, or findable, as what it holds is. -/
theorem reproduced_variant (hw : w.Untitled) {b : Base} {name : String}
    (hx : Sound call w store x) (hy : Sound call w store y) (hlaw : x.lawForm = .box b v)
    (hnative : x.nativeForm = .box b v) (hrep : x.isReproducible = v.isReproducible)
    (hfind : x.isFindable = (v.isReproducible && (v.isNaN || !v.isHashable || v.isFindable)))
    (hkey : x.hashKey call = HashKey.ofVariant name v (v.hashKey call))
    (hkey' : ∀ u, y.lawForm = .box b u → y.hashKey call = HashKey.ofVariant name u (u.hashKey call))
    (h : ∀ u ∈ y.parts, Reproduced call w v u) : Reproduced call w x y := by
  have hbox (hboth : Equal call w x y ∨ Same call w x y) : ∃ u, Reproduced call w v u ∧
      Equal call w v u ∧
      (HashAlike call w x y → v.isNaN = true ∨ v.isHashable = false ∨ HashAlike call w v u) := by
    obtain ⟨u, hu, hvu⟩ := exists_equal_of_box hx hy hlaw hnative hboth
    have hv : v ∈ x.parts := by rw [parts, hlaw]; exact List.mem_singleton_self _
    have hu' : u ∈ y.parts := by rw [parts, hu]; exact List.mem_singleton_self _
    refine ⟨u, h u hu', hvu, fun hhashes => ?_⟩
    exact (hashAlike_variant_iff hw hkey (hkey' u hu) (hx.mem_parts hv) (hy.mem_parts hu') hvu
      hhashes.exists_left hhashes.exists_right).1 hhashes
  constructor
  · intro hequal
    obtain ⟨u, hu, hvu, -⟩ := hbox (.inl hequal)
    exact hrep.trans (hu.1 hvu)
  · intro _ hhashes hboth
    obtain ⟨u, hu, hvu, hheld⟩ := hbox hboth
    rw [hfind, hu.1 hvu, Bool.true_and]
    rcases hheld hhashes with hnan | hhash | hhashes
    · simp [hnan]
    · simp [hhash]
    · by_cases hhash : v.isHashable = true
      · simp [hu.2 hhash hhashes (.inl hvu)]
      · simp [hhash]

/-- Sound values that are apart are reproducible, and findable as keys, alike where they are
equal. -/
theorem Sound.reproduced (hw : w.Untitled) (hx : Sound call w store x) (hy : Sound call w store y)
    (hapart : Apart x y) : Reproduced call w x y := by
  induction hx generalizing y with
  | number hn => exact reproduced_number hw hn hy hapart
  | complex hn => exact reproduced_complex hn hy hapart
  | seq hn hxs ih =>
    exact reproduced_seq hw (.seq hn hxs) hy fun x hx z hz =>
      ih x hx (hy.mem_parts hz) (hapart.of_mem_parts hx hz)
  | @dict n es hn hkeys hvalues hhash hone ihkeys ihvalues =>
    have hparts (d) (hd : d ∈ es) := mem_parts_of_mem_entries (.numbered n) hd
    exact reproduced_dict hw (.dict hn hkeys hvalues hhash hone) hy hapart
      (fun d hd z hz => ihkeys d hd (hy.mem_parts hz) (hapart.of_mem_parts (hparts d hd).1 hz))
      fun d hd z hz => ihvalues d hd (hy.mem_parts hz) (hapart.of_mem_parts (hparts d hd).2 hz)
  | @just n v hn hv ih | @left n v hn hv ih | @right n v hn hv ih =>
    have hx := by first | exact Sound.just hn hv | exact Sound.left hn hv | exact Sound.right hn hv
    refine reproduced_variant hw hx hy rfl rfl rfl rfl rfl (fun u hu => ?_) fun u hu => ?_
    · cases y <;> cases hu
      rfl
    · exact ih (hy.mem_parts hu) (hapart.of_mem_parts (List.mem_singleton_self _) hu)
  | @identity n v hn hv ih =>
    have hrep (h : Equal call w (.identity (.numbered n) v) y ∨
        Same call w (.identity (.numbered n) v) y) : v.isReproducible = true := by
      obtain ⟨u, hu, hequal⟩ := exists_equal_of_box (.identity hn hv) hy rfl rfl h
      have hmem : u ∈ y.parts := by rw [parts, hu]; exact List.mem_singleton_self _
      exact (ih (hy.mem_parts hmem) (hapart.of_mem_parts (List.mem_singleton_self _) hmem)).1 hequal
    exact ⟨fun h => hrep (.inl h), fun _ _ => hrep⟩
  | _ => exact ⟨fun _ => rfl, fun _ _ _ => rfl⟩

end Relations

/-- The equality of a value and that value built anew answers true if the value is reproducible,
and, as long as no number without a point is an object of both, only then. -/
theorem equals_rebuilt (call : Apply) {w : World} (hw : w.Untitled) {store : Nat → Value}
    {x y : Value} (hx : Sound call w store x) (hy : Sound call w store y) (h : Rebuilt x y) :
    ∃ b, (equals call x y).Answers w (.bool b) ∧ (x.isReproducible = true → b = true) ∧
      (Apart x y → b = true → x.isReproducible = true) := by
  obtain ⟨b, hb, hequal⟩ := (settled call w store).equals hx hy
  refine ⟨b, hb, fun hrep => hequal.2 ((h.reproduces hw hx hy).1 hrep), fun hapart htrue => ?_⟩
  exact (hx.reproduced hw hy hapart).1 (hequal.1 htrue)

/-- A number that is not a number. -/
def notNumber (n : Nat) : Value := .number (.numbered n) (.float .nan)

/-- A dictionary with one such number as its value and, directly or in a variant, as its key. -/
def notNumberDict (n : Nat) (key : Value) (m : Nat) : Value :=
  .dict (.numbered n) [(key, notNumber m)]

/-- Two such numbers, and for each a variant, a dictionary with the variant as its key, one with the
number, and a complex number. -/
def notNumberStore : Nat → Value
  | 0 => notNumber 0
  | 1 => notNumber 1
  | 2 => .just (.numbered 2) (notNumber 0)
  | 3 => .just (.numbered 3) (notNumber 1)
  | 4 => notNumberDict 4 (.just (.numbered 2) (notNumber 0)) 0
  | 5 => notNumberDict 5 (.just (.numbered 3) (notNumber 1)) 1
  | 6 => notNumberDict 6 (notNumber 0) 0
  | 7 => notNumberDict 7 (notNumber 1) 1
  | 8 => .complex (.numbered 8) .nan (.finite false 0)
  | 9 => .complex (.numbered 9) .nan (.finite false 0)
  | _ => .null

/-- The dicts of the example are sound if the keys are. -/
theorem sound_notNumberDict {call : Apply} {w : World} {n m : Nat} {key : Value}
    (hn : notNumberStore n = notNumberDict n key m)
    (hm : notNumberStore m = notNumber m) (hkey : Sound call w notNumberStore key)
    (hhash : ∃ k, (key.hashKey call).Answers w k) :
    Sound call w notNumberStore (notNumberDict n key m) :=
  .dict hn (List.forall_mem_singleton.2 hkey) (List.forall_mem_singleton.2 (.number hm))
    (List.forall_mem_singleton.2 hhash) (List.pairwise_singleton ..)

theorem rebuilt_notNumberDict {n m i j : Nat} {key key' : Value} (h : Rebuilt key key') :
    Rebuilt (notNumberDict n key i) (notNumberDict m key' j) :=
  .dict _ _ rfl (List.forall_mem_singleton.2 h) (List.forall_mem_singleton.2 (.number ..))

/-- Nothing but its number lies within the dict of the example. -/
theorem within_notNumberDict {n m : Nat} {p : Value}
    (h : Within p (notNumberDict n (notNumber m) m)) :
    p = notNumberDict n (notNumber m) m ∨ p = notNumber m := by
  rcases h.cases_head with rfl | ⟨q, hq, h⟩
  · exact .inl rfl
  · obtain rfl : q = notNumber m := by
      simpa [notNumberDict, parts, lawForm, Form.parts] using hq
    rcases h.cases_head with rfl | ⟨r, hr, -⟩
    · exact .inr rfl
    · cases hr

/-- What is not a number is found as a key if a variant holds it, and not if it is the key. -/
theorem equals_rebuilt_notNumberDict :
    (equals applyFunction (notNumberStore 4) (notNumberStore 5)).Answers .initial (.bool true) ∧
      (equals applyFunction (notNumberStore 6) (notNumberStore 7)).Answers .initial
        (.bool false) := by
  have hnumber (m) (hm : notNumberStore m = notNumber m) :
      Sound applyFunction .initial notNumberStore (notNumber m) := .number hm
  constructor
  · obtain ⟨b, hb, htrue, -⟩ := equals_rebuilt applyFunction World.untitled_initial
      (sound_notNumberDict (n := 4) rfl rfl (.just rfl (hnumber 0 rfl)) ⟨_, rfl⟩)
      (sound_notNumberDict (n := 5) rfl rfl (.just rfl (hnumber 1 rfl)) ⟨_, rfl⟩)
      (rebuilt_notNumberDict (.just _ _ (.number ..)))
    exact htrue rfl ▸ hb
  · obtain ⟨b, hb, -, hfalse⟩ := equals_rebuilt applyFunction World.untitled_initial
      (sound_notNumberDict (n := 6) rfl rfl (hnumber 0 rfl) ⟨_, rfl⟩)
      (sound_notNumberDict (n := 7) rfl rfl (hnumber 1 rfl) ⟨_, rfl⟩)
      (rebuilt_notNumberDict (.number ..))
    have hapart : Apart (notNumberStore 6) (notNumberStore 7) := by
      intro p hp hp'
      rcases within_notNumberDict hp with rfl | rfl <;>
        rcases within_notNumberDict hp' with h | h <;> cases h
    cases b with
    | false => exact hb
    | true => cases hfalse hapart rfl

/-- A dictionary with what is not a number as its key, and a complex number without a point, are not
equal to these values built anew. -/
theorem not_equals_rebuilt :
    (Sound applyFunction .initial notNumberStore (notNumberStore 6) ∧
      Sound applyFunction .initial notNumberStore (notNumberStore 7) ∧
      Rebuilt (notNumberStore 6) (notNumberStore 7) ∧
      (equals applyFunction (notNumberStore 6) (notNumberStore 7)).Answers .initial (.bool false)) ∧
    (Sound applyFunction .initial notNumberStore (notNumberStore 8) ∧
      Sound applyFunction .initial notNumberStore (notNumberStore 9) ∧
      Rebuilt (notNumberStore 8) (notNumberStore 9) ∧
      (equals applyFunction (notNumberStore 8) (notNumberStore 9)).Answers .initial
        (.bool false)) := by
  have hnumber (m) (hm : notNumberStore m = notNumber m) :
      Sound applyFunction .initial notNumberStore (notNumber m) := .number hm
  constructor
  · exact ⟨sound_notNumberDict rfl rfl (hnumber 0 rfl) ⟨_, rfl⟩,
      sound_notNumberDict rfl rfl (hnumber 1 rfl) ⟨_, rfl⟩, rebuilt_notNumberDict (.number ..), rfl⟩
  · exact ⟨.complex rfl, .complex rfl, .complex .., rfl⟩

end Value

end CheckedCalls
