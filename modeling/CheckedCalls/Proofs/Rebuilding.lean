import CheckedCalls.Proofs.Hashing

/-!
# Values built anew

`Rebuilt` relates values of one structure with the same contents, built of whatever objects; a copy
is such a value (`Rebuilt.copied`). Such values have the same texts. They are equal if the first one
is reproducible (`Rebuilt.reproduces`): a complex number must denote a point, and a key must be
found under a key built anew (`Value.isFindable`), which a number that is not a number is not,
unless a variant holds it directly.
-/

namespace CheckedCalls

namespace Value

/-! ## Structure and contents -/

/-- The values have the same structure and the same contents. -/
inductive Rebuilt : Value → Value → Prop
  | null : Rebuilt .null .null
  | bool (b : Bool) : Rebuilt (.bool b) (.bool b)
  | number (s t : Tag) (n : Number) : Rebuilt (.number s n) (.number t n)
  | complex (s t : Tag) (re im : Binary64) : Rebuilt (.complex s re im) (.complex t re im)
  | text (s t : Tag) (a : String) : Rebuilt (.text s a) (.text t a)
  | bytes (s t : Tag) (bs : List UInt8) : Rebuilt (.bytes s bs) (.bytes t bs)
  | date (s t : Tag) (d : Date) : Rebuilt (.date s d) (.date t d)
  | moment (s t : Tag) (m : Moment) : Rebuilt (.moment s m) (.moment t m)
  | seq (k : SeqKind) (s t : Tag) {xs ys : List Value} (hlength : xs.length = ys.length)
    (h : ∀ p ∈ xs.zip ys, Rebuilt p.1 p.2) : Rebuilt (.seq k s xs) (.seq k t ys)
  | dict (s t : Tag) {es fs : List (Value × Value)} (hlength : es.length = fs.length)
    (hkeys : ∀ p ∈ es.zip fs, Rebuilt p.1.1 p.2.1)
    (hvalues : ∀ p ∈ es.zip fs, Rebuilt p.1.2 p.2.2) : Rebuilt (.dict s es) (.dict t fs)
  | nothing : Rebuilt .nothing .nothing
  | just (s t : Tag) {v u : Value} (h : Rebuilt v u) : Rebuilt (.just s v) (.just t u)
  | left (s t : Tag) {v u : Value} (h : Rebuilt v u) : Rebuilt (.left s v) (.left t u)
  | right (s t : Tag) {v u : Value} (h : Rebuilt v u) : Rebuilt (.right s v) (.right t u)
  | identity (s t : Tag) {v u : Value} (h : Rebuilt v u) : Rebuilt (.identity s v) (.identity t u)

theorem exists_mem_zip {α β : Type} {as : List α} {bs : List β} (hlength : as.length = bs.length)
    {a : α} (ha : a ∈ as) : ∃ b, (a, b) ∈ as.zip bs := by
  obtain ⟨i, hi, rfl⟩ := List.getElem_of_mem ha
  exact ⟨bs[i], List.mem_iff_getElem.2 ⟨i, by simpa [← hlength] using hi, by simp⟩⟩

/-! ## Copies -/

section Copies

variable {x y : Value}

/-- The copies of a list are as many, and each is rebuilt from its original. -/
theorem rebuilt_copiedAll (shift : Nat) {xs : List Value} (n : Nat)
    (h : ∀ x ∈ xs, ∀ n, Rebuilt x (copied shift x n).1) :
    xs.length = (copiedAll shift xs n).1.length ∧
      ∀ p ∈ xs.zip (copiedAll shift xs n).1, Rebuilt p.1 p.2 := by
  induction xs generalizing n with
  | nil => exact ⟨rfl, nofun⟩
  | cons x xs ih =>
    rw [List.forall_mem_cons] at h
    obtain ⟨hlength, hzip⟩ := ih (copied shift x n).2 h.2
    exact ⟨congrArg (· + 1) hlength, List.forall_mem_cons.2 ⟨h.1 n, hzip⟩⟩

/-- The copies of entries are as many, and each key and value is rebuilt from its original. -/
theorem rebuilt_copiedEntries (shift : Nat) {es : List (Value × Value)} (n : Nat)
    (h : ∀ e ∈ es, ∀ n, Rebuilt e.1 (copied shift e.1 n).1 ∧ Rebuilt e.2 (copied shift e.2 n).1) :
    es.length = (copiedEntries shift es n).1.length ∧
      ∀ p ∈ es.zip (copiedEntries shift es n).1, Rebuilt p.1.1 p.2.1 ∧ Rebuilt p.1.2 p.2.2 := by
  induction es generalizing n with
  | nil => exact ⟨rfl, nofun⟩
  | cons e es ih =>
    rw [List.forall_mem_cons] at h
    obtain ⟨hlength, hzip⟩ := ih (copied shift e.2 (copied shift e.1 n).2).2 h.2
    exact ⟨congrArg (· + 1) hlength,
      List.forall_mem_cons.2 ⟨⟨(h.1 n).1, (h.1 (copied shift e.1 n).2).2⟩, hzip⟩⟩

/-- The copy of a value is that value built anew. -/
theorem Rebuilt.copied (h : Rebuilt x y) (shift n : Nat) : Rebuilt x (x.copied shift n).1 := by
  induction h generalizing n with
  | number s t k => cases k <;> exact .number ..
  | @seq k s t xs ys hlength h ih =>
    obtain ⟨hlength, hzip⟩ := rebuilt_copiedAll shift n fun x hx => by
      obtain ⟨y, hp⟩ := exists_mem_zip hlength hx
      exact ih _ hp
    exact .seq k s _ hlength hzip
  | @dict s t es fs hlength _ _ ihkeys ihvalues =>
    obtain ⟨hlength, hzip⟩ := rebuilt_copiedEntries shift n fun e he n => by
      obtain ⟨f, hp⟩ := exists_mem_zip hlength he
      exact ⟨ihkeys _ hp n, ihvalues _ hp n⟩
    exact .dict s _ hlength (fun p hp => (hzip p hp).1) fun p hp => (hzip p hp).2
  | just s t _ ih => exact .just s _ (ih n)
  | left s t _ ih => exact .left s _ (ih n)
  | right s t _ ih => exact .right s _ (ih n)
  | identity s t _ ih => exact .identity s _ (ih n)
  | _ => constructor

end Copies

/-! ## Texts -/

section Texts

variable {call : Apply} {x y : Value}

theorem Rebuilt.answeredText? (h : Rebuilt x y) :
    Value.answeredText? call x = Value.answeredText? call y := by
  cases h <;> rfl

/-- What is put together of texts place by place agrees where the texts do. -/
theorem toTexts_eq {join : Bool} {xs ys : List Value} (h : xs.Forall₂ (fun x y =>
    Value.answeredText? call x = Value.answeredText? call y ∧ toText call x = toText call y) ys) :
    toTexts call join xs = toTexts call join ys := by
  induction h with
  | nil => rfl
  | cons h _ ih => simp only [toTexts, joined, h.1, h.2, ih]

/-- Entries with the same texts are written alike. -/
theorem toTextEntries_eq {es fs : List (Value × Value)} (h : es.Forall₂ (fun d e =>
    toText call d.1 = toText call e.1 ∧ toText call d.2 = toText call e.2) fs) :
    toTextEntries call es = toTextEntries call fs := by
  induction h with
  | nil => rfl
  | cons h _ ih => simp only [toTextEntries, h.1, h.2, ih]

/-- Lists with the same literals are written alike. -/
theorem literals_eq {xs ys : List Value}
    (h : xs.Forall₂ (fun x y => literal call x = literal call y) ys) :
    literals call xs = literals call ys := by
  induction h with
  | nil => rfl
  | cons h _ ih => simp only [literals, h, ih]

/-- Entries with the same literals are written alike. -/
theorem literalEntries_eq {es fs : List (Value × Value)} (h : es.Forall₂ (fun d e =>
    literal call d.1 = literal call e.1 ∧ literal call d.2 = literal call e.2) fs) :
    literalEntries call es = literalEntries call fs := by
  induction h with
  | nil => rfl
  | cons h _ ih => simp only [literalEntries, h.1, h.2, ih]

/-- Lists of one length agree on whether their texts are joined. -/
theorem isJoined_eq {k : SeqKind} {xs ys : List Value} (h : xs.length = ys.length) :
    isJoined k xs = isJoined k ys := by
  cases k with
  | list => rfl
  | tuple =>
    rcases xs with _ | ⟨x, _ | ⟨x', xs⟩⟩ <;> rcases ys with _ | ⟨y, _ | ⟨y', ys⟩⟩ <;>
      first | rfl | cases h

/-- Values built anew have the same texts. -/
theorem Rebuilt.texts (h : Rebuilt x y) :
    toText call x = toText call y ∧ literal call x = literal call y := by
  induction h with
  | @seq k s t xs ys hlength h ih =>
    have htexts : xs.Forall₂ (fun x y => Value.answeredText? call x = Value.answeredText? call y ∧
        toText call x = toText call y) ys :=
      List.forall₂_iff_zip.2 ⟨hlength, fun hp => ⟨(h _ hp).answeredText?, (ih _ hp).1⟩⟩
    have hliterals : xs.Forall₂ (fun x y => literal call x = literal call y) ys :=
      List.forall₂_iff_zip.2 ⟨hlength, fun hp => (ih _ hp).2⟩
    simp only [toText, literal, isJoined_eq hlength, toTexts_eq htexts, literals_eq hliterals,
      and_self]
  | @dict s t es fs hlength _ _ ihkeys ihvalues =>
    have htexts : es.Forall₂ (fun d e =>
        toText call d.1 = toText call e.1 ∧ toText call d.2 = toText call e.2) fs :=
      List.forall₂_iff_zip.2 ⟨hlength, fun hp => ⟨(ihkeys _ hp).1, (ihvalues _ hp).1⟩⟩
    have hliterals : es.Forall₂ (fun d e =>
        literal call d.1 = literal call e.1 ∧ literal call d.2 = literal call e.2) fs :=
      List.forall₂_iff_zip.2 ⟨hlength, fun hp => ⟨(ihkeys _ hp).2, (ihvalues _ hp).2⟩⟩
    simp only [toText, literal, toTextEntries_eq htexts, literalEntries_eq hliterals, and_self]
  | just s t _ ih | left s t _ ih | right s t _ ih | identity s t _ ih =>
    simp only [toText, literal, ih.1, ih.2, and_self]
  | _ => exact ⟨rfl, rfl⟩

end Texts

/-! ## What is equal when it is built anew -/

mutual

/-- A value built anew is equal: complex numbers denote points, and keys are found. -/
def isReproducible : Value → Bool
  | .complex t re im => (Value.complex t re im).point?.isSome
  | .seq _ _ xs => areReproducible xs
  | .dict _ es => areReproducibleEntries es
  | .just _ v | .left _ v | .right _ v | .identity _ v => isReproducible v
  | _ => true

/-- All the values are equal when they are built anew. -/
def areReproducible : List Value → Bool
  | [] => true
  | x :: xs => isReproducible x && areReproducible xs

/-- All keys are found when they are built anew, and all values are equal. -/
def areReproducibleEntries : List (Value × Value) → Bool
  | [] => true
  | (k, v) :: es => isFindable k && isReproducible v && areReproducibleEntries es

/-- A key built anew is found under this one: numbers denote points, unless a variant holds them
directly. What cannot be hashed does not count in variants. -/
def isFindable : Value → Bool
  | .number _ n => !n.isNaN
  | .complex t re im => (Value.complex t re im).point?.isSome
  | .seq _ _ xs => areFindable xs
  | .just _ v | .left _ v | .right _ v =>
    isReproducible v && (v.isNaN || !v.isHashable || isFindable v)
  | .identity _ v => isReproducible v
  | _ => true

/-- All keys built anew are found under these. -/
def areFindable : List Value → Bool
  | [] => true
  | x :: xs => isFindable x && areFindable xs

end

/-- A list can be reproduced exactly if each of its values can. -/
theorem areReproducible_iff {xs : List Value} :
    areReproducible xs = true ↔ ∀ x ∈ xs, x.isReproducible = true := by
  induction xs with
  | nil => simp [areReproducible]
  | cons x xs ih => simp [areReproducible, ih]

/-- Entries can be reproduced exactly if each key can be found again and each value can be
reproduced. -/
theorem areReproducibleEntries_iff {es : List (Value × Value)} :
    areReproducibleEntries es = true ↔
      ∀ e ∈ es, e.1.isFindable = true ∧ e.2.isReproducible = true := by
  induction es with
  | nil => simp [areReproducibleEntries]
  | cons e es ih => simp [areReproducibleEntries, ih]

theorem areFindable_iff {xs : List Value} :
    areFindable xs = true ↔ ∀ x ∈ xs, x.isFindable = true := by
  induction xs with
  | nil => simp [areFindable]
  | cons x xs ih => simp [areFindable, ih]

theorem areHashable_iff {xs : List Value} :
    areHashable xs = true ↔ ∀ x ∈ xs, x.isHashable = true := by
  induction xs with
  | nil => simp [areHashable, firstHashFault?]
  | cons x xs ih => simp [areHashable_cons, ih]

mutual

/-- A key that is found when it is built anew is equal then. -/
theorem isReproducible_of_isFindable : ∀ {x : Value}, x.isHashable = true → x.isFindable = true →
    x.isReproducible = true
  | .seq .tuple _ xs, hhash, h =>
    show areReproducible xs = true from areReproducible_of_areFindable hhash h
  | .seq .list _ _, hhash, _ | .dict _ _, hhash, _ => by cases hhash
  | .just _ v, _, h | .left _ v, _, h | .right _ v, _, h => (Bool.and_eq_true_iff.1 h).1
  | .identity _ v, _, h | .complex _ _ _, _, h => h
  | .null, _, _ | .bool _, _, _ | .number _ _, _, _ | .text _ _, _, _ | .bytes _ _, _, _ => rfl
  | .date _ _, _, _ | .moment _ _, _, _ | .pattern _, _, _ | .error _ _ _, _, _ => rfl
  | .plain _, _, _ | .nothing, _, _ | .func _ _, _, _ | .type _, _, _ | .object _ _ _, _, _ => rfl

/-- Keys that are found again are reproduced. -/
theorem areReproducible_of_areFindable : ∀ {xs : List Value}, areHashable xs = true →
    areFindable xs = true → areReproducible xs = true
  | [], _, _ => rfl
  | x :: xs, hhash, h => by
    rw [areHashable_cons, Bool.and_eq_true] at hhash
    rw [areFindable, Bool.and_eq_true] at h
    rw [areReproducible, isReproducible_of_isFindable hhash.1 h.1,
      areReproducible_of_areFindable hhash.2 h.2, Bool.and_true]

end

section World

variable {call : Apply} {w : World} {store : Nat → Value} {x y : Value}

theorem same_iff (hx : Sound call w store x) (hy : Sound call w store y) : Same call w x y ↔
    x.nativeForm.Step (Alike call w) (Matches call w) (Equal call w) y.nativeForm :=
  (same_tells (settled call w store) id hx hy (fun _ => hx.mem_parts)
    fun _ => hy.mem_parts).answers_iff (by simp)

theorem anyHashApart_iff {xs ys : List Value} :
    AnyHashApart call w xs ys ↔ ∃ p ∈ xs.zip ys, HashApart call w p.1 p.2 := by
  induction xs generalizing ys with
  | nil => simp [AnyHashApart]
  | cons x xs ih =>
    cases ys with
    | nil => simp [AnyHashApart]
    | cons y ys => simp [AnyHashApart, ih]

/-- A value with another one, if it is reproducible, is equal to it, and if it is a findable key, it
is natively the same and does not hash apart. -/
def Reproduces (call : Apply) (w : World) (x y : Value) : Prop :=
  (x.isReproducible = true → Equal call w x y) ∧
    (x.isHashable = true → x.isFindable = true → Same call w x y ∧ ¬HashApart call w x y)

/-- A key that reproduces another matches it in a dict. -/
theorem Reproduces.matches (h : Reproduces call w x y) (hw : w.Untitled)
    (hx : Sound call w store x) (hy : Sound call w store y) (hhash : x.isHashable = true)
    (hhash' : y.isHashable = true) (hfind : x.isFindable = true) : Matches call w x y := by
  have hequal := h.1 (isReproducible_of_isFindable hhash hfind)
  obtain ⟨hsame, hapart⟩ := h.2 hhash hfind
  exact .inr ⟨(hashAlike_iff_of_equal hw hx hy hequal hhash hhash').2 hapart, hsame⟩

/-- A number written anew is reproduced. -/
theorem reproduces_number {s t : Tag} {n : Number} (hx : Sound call w store (.number s n))
    (hy : Sound call w store (.number t n)) : Reproduces call w (.number s n) (.number t n) := by
  refine ⟨fun _ => (equal_iff hx hy).2 rfl, fun _ hfind => ?_⟩
  have hnan : n.isNaN = false := by simpa [isFindable] using hfind
  have hpoint : n.point?.isSome = true := by
    rw [Option.isSome_iff_ne_none, ne_eq, ← Number.isNaN_iff, hnan]
    exact Bool.false_ne_true
  refine ⟨(same_iff hx hy).2 ⟨?_, rfl⟩, fun h => ?_⟩
  · simpa [point?, plane?] using hpoint
  · cases h.1.symm.trans hnan

theorem reproduces_complex {s t : Tag} {re im : Binary64}
    (hx : Sound call w store (.complex s re im)) (hy : Sound call w store (.complex t re im)) :
    Reproduces call w (.complex s re im) (.complex t re im) := by
  have hpoint : (Value.complex s re im).point? = (Value.complex t re im).point? := rfl
  refine ⟨fun h => (equal_iff hx hy).2 ?_, fun _ h => ⟨(same_iff hx hy).2 ⟨h, rfl⟩, id⟩⟩
  have h' : (Value.complex t re im).point?.isSome = true := h
  simp only [lawForm, Form.Step, hpoint, h', if_true]

/-- A sequence is reproduced if each of its elements is. -/
theorem reproduces_seq {k : SeqKind} {s t : Tag} {xs ys : List Value}
    (hx : Sound call w store (.seq k s xs)) (hy : Sound call w store (.seq k t ys))
    (hlength : xs.length = ys.length) (h : ∀ p ∈ xs.zip ys, Reproduces call w p.1 p.2) :
    Reproduces call w (.seq k s xs) (.seq k t ys) := by
  constructor
  · intro hrep
    have hall := areReproducible_iff.1 hrep
    exact (equal_iff hx hy).2
      ⟨rfl, List.forall₂_iff_zip.2 ⟨hlength, fun hp => (h _ hp).1 (hall _ (List.of_mem_zip hp).1)⟩⟩
  · intro hhash hfind
    cases k with
    | list => cases hhash
    | tuple =>
      have hhashes := areHashable_iff.1 (show areHashable xs = true from hhash)
      have hfinds := areFindable_iff.1 hfind
      have hpair {x y : Value} (hp : (x, y) ∈ xs.zip ys) :=
        (h _ hp).2 (hhashes x (List.of_mem_zip hp).1) (hfinds x (List.of_mem_zip hp).1)
      refine ⟨(same_iff hx hy).2
        ⟨rfl, List.forall₂_iff_zip.2 ⟨hlength, fun hp => .inr (hpair hp).1⟩⟩, ?_⟩
      rw [HashApart, anyHashApart_iff]
      rintro ⟨⟨x, y⟩, hp, hapart⟩
      exact (hpair hp).2 hapart

/-- A dict is reproduced if its keys and its values are, in their order. -/
theorem reproduces_dict (hw : w.Untitled) {s t : Tag} {es fs : List (Value × Value)}
    (hx : Sound call w store (.dict s es)) (hy : Sound call w store (.dict t fs))
    (hlength : es.length = fs.length) (hkeys : ∀ p ∈ es.zip fs, Reproduces call w p.1.1 p.2.1)
    (hvalues : ∀ p ∈ es.zip fs, Reproduces call w p.1.2 p.2.2) :
    Reproduces call w (.dict s es) (.dict t fs) := by
  refine ⟨fun hrep => (equal_iff hx hy).2 ⟨hlength, fun d hd => ?_⟩, fun hhash => by cases hhash⟩
  obtain ⟨hfind, hvalue⟩ := areReproducibleEntries_iff.1 hrep d hd
  obtain ⟨e, hp⟩ := exists_mem_zip hlength hd
  cases hx with
  | dict _ hkey _ hhash =>
    cases hy with
    | dict _ hkey' _ hhash' =>
      have hhash := isHashable_of_answers hw (hkey d hd).isNative (hhash d hd)
      have he := (List.of_mem_zip hp).2
      have hhash' := isHashable_of_answers hw (hkey' e he).isNative (hhash' e he)
      exact ⟨e, he, (hkeys _ hp).matches hw (hkey d hd) (hkey' e he) hhash hhash' hfind,
        (hvalues _ hp).1 hvalue⟩

/-- What a variant holds directly is found also if it is not a number. -/
theorem reproduces_variant {v u : Value} (h : Reproduces call w v u)
    (hlaw : Equal call w v u → Equal call w x y) (hnative : Equal call w v u → Same call w x y)
    (hrep : x.isReproducible = v.isReproducible)
    (hfind : x.isFindable = (v.isReproducible && (v.isNaN || !v.isHashable || v.isFindable)))
    (hapart : HashApart call w x y ↔
      v.isHashable = true ∧ v.isNaN = false ∧ HashApart call w v u) : Reproduces call w x y := by
  refine ⟨fun hx => hlaw (h.1 (hrep.symm.trans hx)), fun _ hx => ?_⟩
  rw [hfind, Bool.and_eq_true] at hx
  refine ⟨hnative (h.1 hx.1), fun hxy => ?_⟩
  obtain ⟨hhash, hnan, hvu⟩ := hapart.1 hxy
  have hv : v.isFindable = true := by simpa [hhash, hnan] using hx.2
  exact (h.2 hhash hv).2 hvu

/-- Values built anew are equal if they are reproducible. -/
theorem Rebuilt.reproduces (hw : w.Untitled) (hx : Sound call w store x)
    (hy : Sound call w store y) (h : Rebuilt x y) : Reproduces call w x y := by
  induction h with
  | null | nothing | text | bytes | date =>
    exact ⟨fun _ => (equal_iff hx hy).2 rfl, fun _ _ => ⟨(same_iff hx hy).2 rfl, id⟩⟩
  | bool b =>
    exact ⟨fun _ => (equal_iff hx hy).2 rfl, fun _ _ => ⟨(same_iff hx hy).2 ⟨rfl, rfl⟩, id⟩⟩
  | moment s t m =>
    exact ⟨fun _ => (equal_iff hx hy).2 rfl, fun _ _ => ⟨(same_iff hx hy).2 rfl, fun h => h rfl⟩⟩
  | number s t n => exact reproduces_number hx hy
  | complex s t re im => exact reproduces_complex hx hy
  | @seq k s t xs ys hlength h ih =>
    exact reproduces_seq hx hy hlength fun p hp =>
      ih p hp (hx.mem_parts (List.of_mem_zip hp).1) (hy.mem_parts (List.of_mem_zip hp).2)
  | @dict s t es fs hlength hkeys hvalues ihkeys ihvalues =>
    have hes := Form.forall_mem_parts_dict.1 fun _ => hx.mem_parts
    have hfs := Form.forall_mem_parts_dict.1 fun _ => hy.mem_parts
    refine reproduces_dict hw hx hy hlength (fun p hp => ?_) fun p hp => ?_
    · exact ihkeys p hp (hes _ (List.of_mem_zip hp).1).1 (hfs _ (List.of_mem_zip hp).2).1
    · exact ihvalues p hp (hes _ (List.of_mem_zip hp).1).2 (hfs _ (List.of_mem_zip hp).2).2
  | just s t h ih | left s t h ih | right s t h ih =>
    have ih := ih (hx.mem_parts (List.mem_singleton_self _))
      (hy.mem_parts (List.mem_singleton_self _))
    exact reproduces_variant ih (fun h => (equal_iff hx hy).2 ⟨rfl, h⟩)
      (fun h => (same_iff hx hy).2 ⟨rfl, h⟩) rfl rfl Iff.rfl
  | @identity s t v u h ih =>
    have ih := ih (hx.mem_parts (List.mem_singleton_self _))
      (hy.mem_parts (List.mem_singleton_self _))
    refine ⟨fun hrep => (equal_iff hx hy).2 ⟨rfl, ih.1 hrep⟩, fun _ hrep =>
      ⟨(same_iff hx hy).2 ⟨rfl, ih.1 hrep⟩, ?_⟩⟩
    -- what is held has the same text
    rintro ⟨a, b, ha, hb, hab⟩
    rw [h.texts.2] at ha
    exact hab (ha.unique hb)

end World

end Value

end CheckedCalls
