import CheckedCalls.Proofs.Forms
import Mathlib.Logic.Relation

/-!
# Sound values

Values as a program can hold them, and the relations by which they are compared: the two equalities,
and what containers and dictionaries ask of their elements and keys. The last two take one object
for the same as itself, without comparing; on sound values this makes no difference to whether a
relation is symmetric and transitive (`equivOn_alike`, `equivOn_matches`).
-/

namespace CheckedCalls

/-- What the function was read off. -/
def Func.receivers : Func → List Value
  | .bound self _ _ => [self]
  | .boundTo self f => [self, f]
  | _ => []

namespace Value

section World

variable (call : Apply) (w : World)

/-! ## The relations behind the comparisons -/

/-- The law-abiding equality answers true. -/
def Equal (x y : Value) : Prop := (equals call x y).Answers w (.bool true)

/-- The native equality answers true. -/
def Same (x y : Value) : Prop := (same call x y).Answers w (.bool true)

/-- The values can be hashed, and hash alike. -/
def HashAlike (x y : Value) : Prop :=
  ∃ h k, (x.hashKey call).Answers w h ∧ (y.hashKey call).Answers w k ∧ h.same k = true

/-- What containers ask of their elements: to be one object or the same. -/
def Alike (x y : Value) : Prop := x.identical y = true ∨ Same call w x y

/-- What dictionaries ask of a key: to be that very object, or to hash like it and be the same. -/
def Matches (x y : Value) : Prop := x.identical y = true ∨ HashAlike call w x y ∧ Same call w x y

/-! ## Sound values -/

/-- Data as a program can hold it: an object with a number is the object that the number belongs
to, also where a method was read off it, the keys of a dictionary can be hashed and none is found
under another, and days and instants lie in the calendar. -/
inductive Sound (store : Nat → Value) : Value → Prop
  | null : Sound store .null
  | bool (b : Bool) : Sound store (.bool b)
  | number {n k} (h : store n = .number (.numbered n) k) : Sound store (.number (.numbered n) k)
  | complex {n re im} (h : store n = .complex (.numbered n) re im) :
    Sound store (.complex (.numbered n) re im)
  | text (t : Tag) (s : String) : Sound store (.text t s)
  | bytes {n bs} (h : store n = .bytes (.numbered n) bs) : Sound store (.bytes (.numbered n) bs)
  | seq {k n xs} (h : store n = .seq k (.numbered n) xs) (hxs : ∀ x ∈ xs, Sound store x) :
    Sound store (.seq k (.numbered n) xs)
  | dict {n es} (h : store n = .dict (.numbered n) es) (hkeys : ∀ e ∈ es, Sound store e.1)
    (hvalues : ∀ e ∈ es, Sound store e.2)
    (hhash : ∀ e ∈ es, ∃ k, (e.1.hashKey call).Answers w k)
    (hone : es.Pairwise fun d e => (keyMatches call e.1 (same call e.1) d.1).Answers w false) :
    Sound store (.dict (.numbered n) es)
  | date {n d} (h : store n = .date (.numbered n) d) (hd : d.isValid = true) :
    Sound store (.date (.numbered n) d)
  | moment {n m} (h : store n = .moment (.numbered n) m) (hm : m.instant?.isSome = true) :
    Sound store (.moment (.numbered n) m)
  | pattern (s : String) : Sound store (.pattern s)
  | nothing : Sound store .nothing
  | just {n v} (h : store n = .just (.numbered n) v) (hv : Sound store v) :
    Sound store (.just (.numbered n) v)
  | left {n v} (h : store n = .left (.numbered n) v) (hv : Sound store v) :
    Sound store (.left (.numbered n) v)
  | right {n v} (h : store n = .right (.numbered n) v) (hv : Sound store v) :
    Sound store (.right (.numbered n) v)
  | identity {n v} (h : store n = .identity (.numbered n) v) (hv : Sound store v) :
    Sound store (.identity (.numbered n) v)
  | func {n f} (h : store n = .func (.numbered n) f)
    (hself : ∀ v ∈ f.receivers, v.identical v = true) : Sound store (.func (.numbered n) f)

end World

/-! ## Forms of values -/

/-- The point of the plane that a value denotes, if it denotes one. -/
def point? (v : Value) : Option (Point × Point) := v.plane?.join

/-- Two values denote the same point exactly if one denotes a point and the other denotes that
one. -/
theorem samePoint_iff {x y : Value} :
    samePoint x y = true ↔ x.point?.isSome = true ∧ x.point? = y.point? := by
  rw [samePoint, point?, point?]
  rcases x.plane? with _ | _ | p <;> rcases y.plane? with _ | _ | q <;> simp

/-- A value that denotes no point has no point in common with any. -/
theorem not_samePoint {x y : Value} (hy : y.plane? = none) : ¬samePoint x y = true := by
  rw [samePoint, hy]
  split <;> simp_all

/-- What the law-abiding equality looks at. -/
def lawForm : Value → Form
  | .null => .atom .null
  | .bool b => .atom (.bool b)
  | .number _ n => .atom (.number n.point? (n.isZero && n.isNegativeZero))
  | .complex t re im =>
    let p := (Value.complex t re im).point?
    -- without a point a complex number is only equal to itself
    .atom (.complex p (if p.isSome then none else some t))
  | .text _ s => .atom (.text s)
  | .bytes _ bs => .atom (.bytes bs)
  | .seq k _ xs => .seq k xs
  | .dict _ es => .dict es
  | .date _ d => .atom (.instant d.instant)
  | .moment _ m => .atom (.instant (m.instant?.getD 0))
  | .pattern s => .atom (.pattern s)
  | .nothing => .atom .nothing
  | .just _ v => .box .just v
  | .left _ v => .box .left v
  | .right _ v => .box .right v
  | .identity _ v => .box .identity v
  | .func t f => .func t f
  | _ => .plane none

/-- What the native equality looks at. -/
def nativeForm : Value → Form
  | .null => .atom .null
  | .text _ s => .atom (.text s)
  | .bytes _ bs => .atom (.bytes bs)
  | .seq k _ xs => .seq k xs
  | .dict _ es => .dict es
  | .date _ d => .atom (.date d)
  | .moment _ m => .atom (.moment m.offset.isSome m.universalInstant)
  | .pattern s => .atom (.pattern s)
  | .nothing => .atom .nothing
  | .just _ v => .box .just v
  | .left _ v => .box .left v
  | .right _ v => .box .right v
  | .identity _ v => .box .identity v
  | .func t f => .func t f
  | v => .plane v.point?

/-- The values held by a container. -/
def parts (v : Value) : List Value := v.lawForm.parts

/-- A value held by another one at some depth, or that value itself. -/
def Within (p v : Value) : Prop := Relation.ReflTransGen (fun v p => p ∈ v.parts) v p

theorem parts_nativeForm (v : Value) : v.nativeForm.parts = v.parts := by
  cases v <;> rfl

/-- The parts of a value are smaller than it is. -/
theorem sizeOf_lt_of_mem_parts {v p : Value} (h : p ∈ v.parts) : sizeOf p < sizeOf v := by
  cases v with
  | seq k t xs =>
    have := List.sizeOf_lt_of_mem (show p ∈ xs from h)
    simp only [seq.sizeOf_spec]
    omega
  | dict t es =>
    obtain ⟨⟨key, value⟩, he, hp⟩ := List.mem_flatMap.1 (show p ∈ es.flatMap _ from h)
    have := List.sizeOf_lt_of_mem he
    simp only [dict.sizeOf_spec, Prod.mk.sizeOf_spec] at *
    simp only [List.mem_cons, List.not_mem_nil, or_false] at hp
    rcases hp with rfl | rfl <;> omega
  | just t v | left t v | right t v | identity t v =>
    cases List.mem_singleton.1 h
    decreasing_tactic
  | _ => cases h

/-- The keys and values of a dict are among its parts. -/
theorem mem_parts_of_mem_entries (t : Tag) {es : List (Value × Value)} {e : Value × Value}
    (he : e ∈ es) : e.1 ∈ (Value.dict t es).parts ∧ e.2 ∈ (Value.dict t es).parts :=
  (Form.forall_mem_parts_dict (P := (· ∈ (Value.dict t es).parts))).1 (fun _ h => h) e he

/-! ## One object -/

section Relations

variable {call : Apply} {w : World} {store : Nat → Value} {x y z : Value} {S : Value → Prop}

/-- The parts of a sound value are sound. -/
theorem Sound.mem_parts (hx : Sound call w store x) (hy : y ∈ x.parts) : Sound call w store y := by
  cases hx with
  | seq h hxs => exact hxs y hy
  | dict h hkeys hvalues => 
    exact (Form.forall_mem_parts_dict (P := Sound call w store)).2
      (fun e he => ⟨hkeys e he, hvalues e he⟩) y hy
  | just h hv | left h hv | right h hv | identity h hv =>
    cases List.mem_singleton.1 hy
    exact hv
  | _ => cases hy

theorem HashAlike.exists_left (h : HashAlike call w x y) : ∃ k, (x.hashKey call).Answers w k :=
  h.imp fun _ h => h.choose_spec.1

theorem HashAlike.exists_right (h : HashAlike call w x y) : ∃ k, (y.hashKey call).Answers w k :=
  h.elim fun _ h => h.imp fun _ h => h.2.1

/-- Two values with hash keys hash alike exactly if the keys are the same. -/
theorem hashAlike_iff {h k : HashKey} (hx : (x.hashKey call).Answers w h)
    (hy : (y.hashKey call).Answers w k) : HashAlike call w x y ↔ h.same k = true := by
  constructor
  · rintro ⟨h', k', hx', hy', hsame⟩
    rwa [hx.unique hx', hy.unique hy']
  · intro hsame
    exact ⟨h, k, hx, hy, hsame⟩

/-- Objects of one number are one value. -/
theorem eq_of_same_tag {m n : Nat} (hx : store m = x) (hy : store n = y)
    (h : (Tag.numbered m).same (.numbered n) = true) : x = y := by
  have hmn : m = n := by simpa [Tag.same] using h
  rw [← hx, ← hy, hmn]

/-- Sound values that are one object are one value, unless there is only one object of their
content: then they are the same and hash alike. -/
theorem eq_or_same_of_identical (hx : Sound call w store x) (hy : Sound call w store y)
    (h : x.identical y = true) : x = y ∨ HashAlike call w x y ∧ Same call w x y := by
  cases hx <;> cases hy <;> try exact absurd h Bool.false_ne_true
  case null | nothing => exact .inl rfl
  case bool | pattern => exact .inl (congrArg _ (eq_of_beq h))
  case text s a t b =>
    simp only [identical, Bool.and_eq_true, beq_iff_eq] at h
    obtain ⟨rfl, -⟩ := h
    refine .inr ⟨⟨_, _, rfl, rfl, ?_⟩, ?_⟩
    · simp [HashKey.same]
    · simp [Same, same, Run.answer, Run.answers_pure_iff]
  case bytes m a hm n b hn =>
    simp only [identical, Bool.and_eq_true, beq_iff_eq] at h
    obtain ⟨rfl, -⟩ := h
    refine .inr ⟨⟨_, _, rfl, rfl, ?_⟩, ?_⟩
    · simp [HashKey.same]
    · simp [Same, same, Run.answer, Run.answers_pure_iff]
  case number.number m k hm n l hn =>
    cases k <;> cases l <;> try exact absurd h Bool.false_ne_true
    case int.int a b =>
      simp only [identical, Number.identical, Bool.and_eq_true, beq_iff_eq] at h
      obtain ⟨rfl, -⟩ := h
      refine .inr ⟨⟨_, _, rfl, rfl, ?_⟩, ?_⟩
      · simp [HashKey.same, Number.point?]
      · simp [Same, same, samePoint_iff, point?, plane?, Number.point?, Run.answer,
          Run.answers_pure_iff]
    all_goals exact .inl (eq_of_same_tag hm hn h)
  case seq.seq k m xs hm hxs l n ys hn hys =>
    rw [identical] at h
    split at h
    · simp only [isEmptyTuple, Bool.and_eq_true, beq_iff_eq, List.isEmpty_iff] at h
      obtain ⟨⟨rfl, rfl⟩, rfl, rfl⟩ := h
      exact .inr ⟨⟨_, _, rfl, rfl, rfl⟩, rfl⟩
    · exact .inl (eq_of_same_tag hm hn h)
  case func.func m f hm _ n g hn _ =>
    by_cases hunbound : f.isUnbound || g.isUnbound
    · have hsame : f.isSameMethod g = true := by simpa [identical, hunbound] using h
      obtain ⟨b, a, rfl, rfl⟩ := Func.isSameMethod_iff.1 hsame
      refine .inr ⟨⟨_, _, rfl, rfl, ?_⟩, ?_⟩
      · simp [HashKey.same, HashKey.ofFunc]
      · simp [Same, same, sameFunc, h, Run.answer, Run.answers_pure_iff]
    · exact .inl (eq_of_same_tag hm hn (by simpa [identical, hunbound] using h))
  all_goals exact .inl (eq_of_same_tag ‹_› ‹_› h)

/-! ## Relations on sound values -/

/-- To hash alike is symmetric. -/
theorem HashAlike.symm (h : HashAlike call w x y) : HashAlike call w y x := by
  obtain ⟨j, k, hj, hk, hjk⟩ := h
  exact ⟨k, j, hk, hj, HashKey.same_comm j k ▸ hjk⟩

/-- To hash alike is transitive. -/
theorem HashAlike.trans (hxy : HashAlike call w x y) (hyz : HashAlike call w y z) :
    HashAlike call w x z := by
  obtain ⟨i, j, hi, hj, hij⟩ := hxy
  obtain ⟨j', k, hj', hk, hjk⟩ := hyz
  cases hj.unique hj'
  exact ⟨i, k, hi, hk, HashKey.same_trans hij hjk⟩

theorem equivOn_alike (hS : ∀ {v}, S v → Sound call w store v) (h : EquivOn S (Same call w)) :
    EquivOn S (Alike call w) :=
  h.identical_or fun hx hy hxy => (eq_or_same_of_identical (hS hx) (hS hy) hxy).imp_right And.right

/-- To match as keys is an equivalence among sound values if sameness is. -/
theorem equivOn_matches (hS : ∀ {v}, S v → Sound call w store v) (h : EquivOn S (Same call w)) :
    EquivOn S (Matches call w) := by
  have hboth : EquivOn S fun x y => HashAlike call w x y ∧ Same call w x y := {
    symm := fun hx hy hxy => ⟨hxy.1.symm, h.symm hx hy hxy.2⟩
    trans := fun hx hy hz hxy hyz => ⟨hxy.1.trans hyz.1, h.trans hx hy hz hxy.2 hyz.2⟩ }
  exact hboth.identical_or fun hx hy => eq_or_same_of_identical (hS hx) (hS hy)

/-- A function object is identical to itself. -/
theorem identical_func_self (n : Nat) (f : Func) :
    (Value.func (.numbered n) f).identical (.func (.numbered n) f) = true := by
  by_cases hunbound : f.isUnbound
  · cases f <;> try exact absurd hunbound Bool.false_ne_true
    simp [identical, Func.isUnbound, Func.isSameMethod]
  · simp [identical, hunbound, Tag.same]

/-- A key that can be hashed is found under itself. -/
theorem Sound.matches_self (hx : Sound call w store x)
    (hhash : ∃ h, (x.hashKey call).Answers w h) : Matches call w x x := by
  cases hx with
  | text t s =>
    refine .inr ⟨⟨_, _, rfl, rfl, ?_⟩, ?_⟩
    · simp [HashKey.same]
    · simp [Same, same, Run.answer, Run.answers_pure_iff]
  | null | nothing => exact .inl rfl
  | bool | pattern => exact .inl (by simp [identical])
  | @number n k =>
    refine .inl ?_
    cases k <;> simp [identical, Number.identical, Tag.same]
  | @seq k n xs =>
    refine .inl ?_
    rw [identical]
    split <;> simp_all [Tag.same]
  | func => exact .inl (identical_func_self _ _)
  | _ => exact .inl (by simp [identical, Tag.same])

end Relations

end Value

end CheckedCalls
