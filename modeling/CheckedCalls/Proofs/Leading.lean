import CheckedCalls.Proofs.Hashing
import CheckedCalls.Proofs.Overflow

/-!
# What a comparison leads to

A comparison of two values makes comparisons of their parts: it goes through elements and entries as
long as these count as equal, and it compares a key with those that hash alike until one is found.
`Value.Leads` tells which comparisons these are, and that they are made of parts of the two values
(`Value.Leads.mem_parts`).
-/

namespace CheckedCalls

open Run

namespace Value

/-! ## The loops of the comparisons -/

/-- The two equalities. -/
inductive Sense
  | law
  | native

section Loops

variable (call : Apply)

/-- The comparison of two values. -/
def Sense.compare : Sense → Value → Value → Run Value
  | .law => equals call
  | .native => same call

/-- Whether two parts count as equal. An object does so with itself by the native equality, which
then does not compare. -/
def Sense.agree : Sense → Value → Value → Run Bool
  | .law, x, y => areEqual call x y
  | .native, x, y => if x.identical y then pure true else areSame call x y

/-- The value under a key. -/
def lookup (key : Value) (es : List (Value × Value)) : Run (Option Value) :=
  findEntry (keyMatches call key (same call key)) es

/-- Whether the entries have one with the key of the entry `e`. -/
def holdsKey (es : List (Value × Value)) (e : Value × Value) : Run Bool := do
  return (← lookup call e.1 es).isSome

/-- Whether the entries have one with the key of the entry `e` and an equal value. -/
def Sense.holdsEntry (s : Sense) (es : List (Value × Value)) (e : Value × Value) : Run Bool := do
  match ← lookup call e.1 es with
  | some u => s.agree call e.2 u
  | none => return false

variable {xs ys : List Value} {es fs : List (Value × Value)}

/-- Equality of lists goes through the pairs of elements, up to the first that are not equal. -/
theorem equalsAll_eq_every :
    equalsAll call xs ys = every (fun p => Sense.law.agree call p.1 p.2) (xs.zip ys) := by
  induction xs generalizing ys with
  | nil => cases ys <;> rfl
  | cons x xs ih =>
    cases ys with
    | nil => rfl
    | cons y ys =>
      rw [equalsAll, List.zip_cons_cons, every, ih]
      simp only [Sense.agree, areEqual, bind_assoc]

/-- Sameness of lists goes through the pairs of elements, up to the first that are not the same. -/
theorem sameAll_eq_every :
    sameAll call xs ys = every (fun p => Sense.native.agree call p.1 p.2) (xs.zip ys) := by
  induction xs generalizing ys with
  | nil => cases ys <;> rfl
  | cons x xs ih =>
    cases ys with
    | nil => rfl
    | cons y ys =>
      rw [sameAll, List.zip_cons_cons, every, ih]
      simp only [Sense.agree, areSame]
      split <;> simp

/-- Keys lie within a dict exactly if each entry's key is held there, tried in turn. -/
theorem keysWithin_eq_every : keysWithin call es fs = every (holdsKey call fs) es := by
  induction es with
  | nil => rw [keysWithin, every]
  | cons e es ih =>
    rw [keysWithin, every, ih, holdsKey, lookup, bind_assoc]
    congr 1
    funext u?
    cases u? <;> simp

/-- Equality of dicts tries the entries of the first in turn. -/
theorem equalsEntries_eq_every :
    equalsEntries call es fs = every (Sense.law.holdsEntry call fs) es := by
  induction es with
  | nil => rw [equalsEntries, every]
  | cons e es ih =>
    rw [equalsEntries, every, ih, Sense.holdsEntry, lookup, bind_assoc]
    congr 1
    funext u?
    cases u? <;> simp [Sense.agree, areEqual]

/-- Sameness of dicts tries the entries of the first in turn. -/
theorem sameEntries_eq_every :
    sameEntries call es fs = every (Sense.native.holdsEntry call fs) es := by
  induction es with
  | nil => rw [sameEntries, every]
  | cons e es ih =>
    rw [sameEntries, every, ih, Sense.holdsEntry, lookup, bind_assoc]
    congr 1
    funext u?
    cases u? with
    | none => simp
    | some u =>
      simp only [Sense.agree, areSame]
      split <;> simp

end Loops

/-! ## The course of a comparison -/

/-- Two values that are compared, and how. -/
structure Comparing where
  sense : Sense
  left : Value
  right : Value

/-- The comparison. -/
def Comparing.run (call : Apply) (c : Comparing) : Run Value := c.sense.compare call c.left c.right

/-- What is asked of the entries in front before a key is looked up: by law all keys are looked up
before the values are compared. -/
def Sense.passes (call : Apply) : Sense → List (Value × Value) → Value × Value → Run Bool
  | .law => holdsKey call
  | .native => Sense.native.holdsEntry call

/-- A comparison leads to the comparisons that it makes of parts: of elements at one place, if those
in front of them count as equal; of a key with those that hash like it, until one is found; of the
values under one key, if the entries in front count as equal; and of what two variants or boxes
hold. -/
inductive Leads (call : Apply) (w : World) : Comparing → Comparing → Prop
  | element {s k t u xs ys front x y back} (hlength : xs.length = ys.length)
    (hzip : xs.zip ys = front ++ (x, y) :: back)
    (hfront : ∀ p ∈ front, (s.agree call p.1 p.2).Answers w true)
    (hone : s = .native → x.identical y = false) :
    Leads call w ⟨s, .seq k t xs, .seq k u ys⟩ ⟨s, x, y⟩
  | key {s t u es fs front d back before e after} (hlength : es.length = fs.length)
    (hes : es = front ++ d :: back) (hfront : ∀ d ∈ front, (s.passes call fs d).Answers w true)
    (hfs : fs = before ++ e :: after)
    (hbefore : ∀ e ∈ before, (keyMatches call d.1 (same call d.1) e.1).Answers w false)
    (hone : e.1.identical d.1 = false) (hhash : HashAlike call w d.1 e.1) :
    Leads call w ⟨s, .dict t es, .dict u fs⟩ ⟨.native, d.1, e.1⟩
  | value {s t u es fs front d back v} (hlength : es.length = fs.length)
    (hkeys : s = .law → ∀ d ∈ es, (holdsKey call fs d).Answers w true)
    (hes : es = front ++ d :: back)
    (hfront : ∀ d ∈ front, (s.holdsEntry call fs d).Answers w true)
    (hfound : (lookup call d.1 fs).Answers w (some v))
    (hone : s = .native → d.2.identical v = false) :
    Leads call w ⟨s, .dict t es, .dict u fs⟩ ⟨s, d.2, v⟩
  | held {s x y b v u} (hx : x.lawForm = .box b v) (hy : y.lawForm = .box b u) :
    Leads call w ⟨s, x, y⟩ ⟨.law, v, u⟩

/-- The law-abiding equality comes to a moment without an instant, beside a date or a moment. -/
def Comparing.IsOutside : Comparing → Prop
  | ⟨.law, .date _ _, .moment _ n⟩ => n.instant? = none
  | ⟨.law, .moment _ m, .date _ _⟩ => m.instant? = none
  | ⟨.law, .moment _ m, .moment _ n⟩ => m.instant? = none ∨ n.instant? = none
  | _ => False

/-! ## Values that can be compared -/

mutual

/-- The keys of all dictionaries can be hashed. -/
def isKeyed : Value → Bool
  | .seq _ _ xs => areKeyed xs
  | .dict _ es => areKeyedEntries es
  | .just _ v | .left _ v | .right _ v | .identity _ v => isKeyed v
  | _ => true

/-- The keys of all dictionaries in the values can be hashed. -/
def areKeyed : List Value → Bool
  | [] => true
  | x :: xs => isKeyed x && areKeyed xs

/-- The keys of the entries can be hashed, and those of all dictionaries in them. -/
def areKeyedEntries : List (Value × Value) → Bool
  | [] => true
  | (k, v) :: es => k.isHashable && isKeyed k && isKeyed v && areKeyedEntries es

end

theorem areKeyed_iff {xs : List Value} : areKeyed xs = true ↔ ∀ x ∈ xs, x.isKeyed = true := by
  induction xs with
  | nil => simp [areKeyed]
  | cons x xs ih => simp [areKeyed, ih]

theorem areKeyedEntries_iff {es : List (Value × Value)} : areKeyedEntries es = true ↔
    ∀ e ∈ es, e.1.isHashable = true ∧ e.1.isKeyed = true ∧ e.2.isKeyed = true := by
  induction es with
  | nil => simp [areKeyedEntries]
  | cons e es ih => simp [areKeyedEntries, ih, and_assoc]

/-- A value as a program can hold it, but for instances of declared classes. -/
structure IsProper (v : Value) : Prop where
  native : v.isNative = true
  keyed : v.isKeyed = true

section Relations

variable {call : Apply} {w : World} {x y : Value}

/-- The parts of a proper value are proper. -/
theorem IsProper.of_mem_parts (hx : x.IsProper) {p : Value} (hp : p ∈ x.parts) :
    p.IsProper := by
  obtain ⟨hnative, hkeyed⟩ := hx
  cases x with
  | seq k t xs => exact ⟨areNative_iff.1 hnative p hp, areKeyed_iff.1 hkeyed p hp⟩
  | dict t es =>
    refine (Form.forall_mem_parts_dict (P := IsProper)).2 (fun e he => ?_) p hp
    have hnatives := areNativeEntries_iff.1 hnative e he
    have hkeyeds := areKeyedEntries_iff.1 hkeyed e he
    exact ⟨⟨hnatives.1, hkeyeds.2.1⟩, ⟨hnatives.2, hkeyeds.2.2⟩⟩
  | just t v | left t v | right t v | identity t v =>
    cases List.mem_singleton.1 hp
    exact ⟨hnative, hkeyed⟩
  | _ => cases hp

/-- A key of a dictionary can be hashed. -/
theorem IsProper.exists_hashKey (hw : w.Untitled) {t : Tag} {es : List (Value × Value)}
    (h : (Value.dict t es).IsProper) {e : Value × Value} (he : e ∈ es) :
    ∃ k, (e.1.hashKey call).Answers w k :=
  Value.exists_hashKey hw (areNativeEntries_iff.1 h.native e he).1
    (areKeyedEntries_iff.1 h.keyed e he).1

/-- What a search through entries finds is the value of some entry. -/
theorem ensures_findEntry {test : Value → Run Bool} {es : List (Value × Value)} :
    Run.Ensures (findEntry test es) fun v? => ∀ v, v? = some v → ∃ e ∈ es, e.2 = v := by
  induction es with
  | nil => exact Run.ensures_pure (by simp)
  | cons e es ih =>
    refine Run.ensures_bind (Run.ensures_of_forall (P := fun _ => True) fun _ => trivial) ?_
    intro b _
    cases b with
    | true => exact Run.ensures_pure (by simp)
    | false => exact ih.mono fun v? h v hv => (h v hv).imp fun e he => ⟨.tail _ he.1, he.2⟩

/-- A comparison leads to comparisons of parts. -/
theorem Leads.mem_parts {c d : Comparing} (h : Leads call w c d) :
    d.left ∈ c.left.parts ∧ d.right ∈ c.right.parts := by
  cases h with
  | element hlength hzip =>
    exact List.of_mem_zip (hzip ▸ List.mem_append_right _ List.mem_cons_self)
  | key hlength hes hfront hfs =>
    subst hes hfs
    exact ⟨(mem_parts_of_mem_entries _ (by simp)).1, (mem_parts_of_mem_entries _ (by simp)).1⟩
  | value hlength hkeys hes hfront hfound =>
    subst hes
    obtain ⟨e, he, rfl⟩ := ensures_findEntry w _ (congrArg Prod.fst hfound) _ rfl
    exact ⟨(mem_parts_of_mem_entries _ (by simp)).2, (mem_parts_of_mem_entries _ he).2⟩
  | held hx hy =>
    rw [parts, parts, hx, hy]
    exact ⟨List.mem_singleton_self _, List.mem_singleton_self _⟩

/-! ## Looking up -/

/-- The value is a truth value. -/
def IsTruth (v : Value) : Prop := ∃ b, v = .bool b

section Parts

variable {s : Sense} {key : Value} {es fs : List (Value × Value)} {d : Value × Value}

/-- The truth of an answer overflows exactly where finding the answer does. -/
theorem overflowsIf_truth {r : Run Value} {P : Prop} (h : r.OverflowsIf w P IsTruth) :
    OverflowsIf (do (← r).truth call) w P fun _ => True := by
  have hpure : ∀ v, r.Answers w v → IsTruth v →
      (v.truth call).OverflowsIf w False fun _ => True := by
    rintro _ _ ⟨b, rfl⟩
    exact (Run.answers_pure b w).overflowsIf trivial
  exact (h.bind hpure).congr (by simp)

/-- Comparing two elements overflows exactly if the comparison does and is not skipped for one
object. -/
theorem Sense.overflowsIf_agree
    (h : (s.compare call x y).OverflowsIf w ((s.compare call x y).Overflows w) IsTruth) :
    (s.agree call x y).OverflowsIf w
      ((s = .native → x.identical y = false) ∧ (s.compare call x y).Overflows w) fun _ => True := by
  cases s with
  | law => exact (overflowsIf_truth h).congr (by simp)
  | native =>
    rw [Sense.agree]
    split
    · exact ((Run.answers_pure true w).overflowsIf trivial).congr (by simp [*])
    · exact (overflowsIf_truth h).congr (by simp [*])

/-- Matching two keys overflows exactly if they hash alike, are two objects, and comparing them
does. -/
theorem overflowsIf_keyMatches (hx : ∃ k, (x.hashKey call).Answers w k)
    (hy : ∃ k, (y.hashKey call).Answers w k)
    (h : (same call x y).OverflowsIf w ((same call x y).Overflows w) IsTruth) :
    (keyMatches call x (same call x) y).OverflowsIf w
      (y.identical x = false ∧ HashAlike call w x y ∧ (same call x y).Overflows w)
      fun _ => True := by
  rw [keyMatches]
  split
  · exact ((Run.answers_pure true w).overflowsIf trivial).congr (by simp [*])
  · obtain ⟨b, hb, hhash⟩ := hashesAgree_tells hx hy
    have hrest (c : Bool) (hc : (x.hashesAgree call y).Answers w c) :
        OverflowsIf (if c = true then do (← same call x y).truth call else pure false) w
          (HashAlike call w x y ∧ (same call x y).Overflows w) fun _ => True := by
      cases hb.unique hc
      cases b with
      | true =>
        have hhash : HashAlike call w x y := hhash.1 rfl
        exact (overflowsIf_truth h).congr (by simp [hhash])
      | false =>
        have hhash : ¬HashAlike call w x y := fun h => by cases hhash.2 h
        exact ((Run.answers_pure false w).overflowsIf trivial).congr (by simp [hhash])
    have hfirst := hb.overflowsIf (Q := fun _ => True) trivial
    refine (hfirst.bind fun c hc _ => hrest c hc).congr ?_
    constructor
    · rintro (h | ⟨c, -, h⟩)
      · exact h.elim
      · exact ⟨by simpa using ‹¬y.identical x = true›, h⟩
    · exact fun h => .inr ⟨_, hb, h.2⟩

/-- A search through entries overflows where it reaches a key whose test does. -/
theorem overflowsIf_findEntry {test : Value → Run Bool} {P : Value → Prop}
    (h : ∀ e ∈ es, (test e.1).OverflowsIf w (P e.1) fun _ => True) :
    (findEntry test es).OverflowsIf w
      (Reaches (fun e => (test e.1).Answers w false) (fun e => P e.1) es) fun _ => True := by
  induction es with
  | nil => exact ((Run.answers_pure none w).overflowsIf trivial).congr (by simp [not_reaches_nil])
  | cons e es ih =>
    rw [List.forall_mem_cons] at h
    rw [findEntry]
    have hrest (b : Bool) (_ : (test e.1).Answers w b) :
        OverflowsIf (if b = true then pure (some e.2) else findEntry test es) w
          (b = false ∧ Reaches (fun e => (test e.1).Answers w false) (fun e => P e.1) es)
          fun _ => True := by
      cases b with
      | true => exact ((Run.answers_pure (some e.2) w).overflowsIf trivial).congr (by simp)
      | false => exact (ih h.2).congr (by simp)
    refine (h.1.bind fun b hb _ => hrest b hb).congr ?_
    rw [reaches_cons]
    simp

/-- Looking a key up comes to a comparison with a key that overflows. -/
def KeyOverflows (call : Apply) (w : World) (fs : List (Value × Value)) (key : Value) : Prop :=
  Reaches (fun e => (keyMatches call key (same call key) e.1).Answers w false)
    (fun e => e.1.identical key = false ∧ HashAlike call w key e.1 ∧
      (same call key e.1).Overflows w) fs

section Entries

variable (hkey : ∃ k, (key.hashKey call).Answers w k)
variable (hfs : ∀ e ∈ fs, ∃ k, (e.1.hashKey call).Answers w k)
variable (hkeys : ∀ e ∈ fs, (same call key e.1).OverflowsIf w
  ((same call key e.1).Overflows w) IsTruth)

include hkey hfs hkeys

theorem overflowsIf_lookup :
    (lookup call key fs).OverflowsIf w (KeyOverflows call w fs key) fun _ => True :=
  overflowsIf_findEntry (P := fun k => k.identical key = false ∧ HashAlike call w key k ∧
    (same call key k).Overflows w)
    fun e he => overflowsIf_keyMatches hkey (hfs e he) (hkeys e he)

theorem overflowsIf_holdsKey (v : Value) :
    (holdsKey call fs (key, v)).OverflowsIf w (KeyOverflows call w fs key) fun _ => True :=
  (overflowsIf_lookup hkey hfs hkeys).bind_pure fun _ _ => trivial

theorem Sense.overflowsIf_holdsEntry {v : Value}
    (hvalues : ∀ e ∈ fs, (s.compare call v e.2).OverflowsIf w
      ((s.compare call v e.2).Overflows w) IsTruth) :
    (s.holdsEntry call fs (key, v)).OverflowsIf w
      (KeyOverflows call w fs key ∨ ∃ u, (lookup call key fs).Answers w (some u) ∧
        (s = .native → v.identical u = false) ∧ (s.compare call v u).Overflows w)
      fun _ => True := by
  have hrest (u? : Option Value) (hu? : (lookup call key fs).Answers w u?) :
      OverflowsIf (match u? with
          | some u => s.agree call v u
          | none => pure false) w
        (∃ u, u? = some u ∧ (s = .native → v.identical u = false) ∧
          (s.compare call v u).Overflows w) fun _ => True := by
    cases u? with
    | none => exact ((Run.answers_pure false w).overflowsIf trivial).congr (by simp)
    | some u =>
      obtain ⟨e, he, rfl⟩ := ensures_findEntry w _ (congrArg Prod.fst hu?) u rfl
      exact (Sense.overflowsIf_agree (hvalues e he)).congr (by simp)
  refine ((overflowsIf_lookup hkey hfs hkeys).bind fun u? hu? _ => hrest u? hu?).congr ?_
  refine or_congr_right ?_
  constructor
  · rintro ⟨_, hu, u, rfl, h⟩
    exact ⟨u, hu, h⟩
  · rintro ⟨u, hu, h⟩
    exact ⟨_, hu, u, rfl, h⟩

end Entries

end Parts

end Relations

end Value

end CheckedCalls
