import CheckedCalls.Evaluate
import CheckedCalls.Proofs.Comparison
import CheckedCalls.Proofs.Openings
import CheckedCalls.Proofs.Sound

/-!
# Values that are told by their texts

The canonical text of a value identifies it, if it is built of null, truth values, integers,
binary64 numbers, strings, sequences, dictionaries under strings, and the variants of Maybe and
Either: two such values with one text are equal (`Value.Legible.equals_of_textValue`). Such a value
has a text unless it holds an integer that is too long to be written.

How a text begins tells what kind of value it is of (`Value.Legible.same_opening`). What follows is
read by parts: where two texts are equal and both go on with something that cannot belong
to a value, the values are equal and so are the rests (`Value.Legible.takes`).
-/

namespace CheckedCalls

namespace Value

/-- The content of a string. -/
def string? : Value → Option String
  | .text _ s => some s
  | _ => none

theorem string?_eq_some {v : Value} {s : String} (h : v.string? = some s) : ∃ t, v = .text t s := by
  cases v <;> cases h
  exact ⟨_, rfl⟩

/-- The values of plain data: dictionaries have strings as their keys, each one once. -/
inductive Legible : Value → Prop
  | null : Legible .null
  | bool (b : Bool) : Legible (.bool b)
  | number (t : Tag) {n : Number} (hn : n.IsPlain) : Legible (.number t n)
  | text (t : Tag) (s : String) : Legible (.text t s)
  | seq (k : SeqKind) (t : Tag) {xs : List Value} (h : ∀ x ∈ xs, Legible x) : Legible (.seq k t xs)
  | dict (t : Tag) {es : List (Value × Value)} (hkeys : ∀ e ∈ es, e.1.string?.isSome = true)
      (hone : es.Pairwise fun d e => d.1.string? ≠ e.1.string?) (h : ∀ e ∈ es, Legible e.2) :
      Legible (.dict t es)
  | nothing : Legible .nothing
  | just (t : Tag) {v : Value} (h : Legible v) : Legible (.just t v)
  | left (t : Tag) {v : Value} (h : Legible v) : Legible (.left t v)
  | right (t : Tag) {v : Value} (h : Legible v) : Legible (.right t v)

/-! ## Texts -/

mutual

/-- The canonical text of a value of plain data. -/
def canonical : Value → String
  | .null => "None"
  | .bool b => boolText b
  | .number _ n => numberWord n
  | .text _ s => Text.quoted s
  | .seq k _ xs => bracketed k (canonicals xs)
  | .dict _ es => braced (canonicalEntries es)
  | .nothing => "Nothing"
  | .just _ v => applied "Just" (canonical v)
  | .left _ v => applied "Left" (canonical v)
  | .right _ v => applied "Right" (canonical v)
  | _ => ""

def canonicals : List Value → List String
  | [] => []
  | x :: xs => canonical x :: canonicals xs

def canonicalEntries : List (Value × Value) → List (String × String)
  | [] => []
  | (k, v) :: es => (canonical k, canonical v) :: canonicalEntries es

end

theorem canonicals_eq (xs : List Value) : canonicals xs = xs.map canonical := by
  induction xs with
  | nil => rfl
  | cons x xs ih => rw [canonicals, ih, List.map_cons]

theorem canonicalEntries_eq (es : List (Value × Value)) :
    canonicalEntries es = es.map fun e => (e.1.canonical, e.2.canonical) := by
  induction es with
  | nil => rfl
  | cons e es ih => rw [canonicalEntries, ih, List.map_cons]

/-- What is answered if what it is made of is written, and the failure if it is not. -/
def writtenAs {α : Type} (isWritten : Bool) (a : α) : Except Fault α :=
  if isWritten then .ok a else .error .badValue

section Answers

variable {call : Apply} {w : World} {x : Value}

/-- A text with parts is written if its parts are. -/
theorem outcome_bind_writtenAs {α β : Type} {r : Run α} {f : α → Run β} {a : α} {d : β}
    {b c : Bool} (hr : r.outcome w = (writtenAs b a, w)) (hf : (f a).outcome w = (writtenAs c d, w)) :
    (r >>= f).outcome w = (writtenAs (b && c) d, w) := by
  rw [Run.outcome_bind, hr]
  cases b with
  | true => exact hf
  | false => rfl

/-- What is made of a text is written if the text is. -/
theorem outcome_map_writtenAs {α β : Type} {r : Run α} {a : α} {b : Bool}
    (hr : r.outcome w = (writtenAs b a, w)) (f : α → β) :
    Run.outcome (do return f (← r)) w = (writtenAs b (f a), w) := by
  rw [← Bool.and_true b]
  exact outcome_bind_writtenAs hr rfl

/-- Nothing is answered in the place of the text of plain data. -/
theorem Legible.answeredText? (h : Legible x) : (answeredText? call x).Answers w none := by
  cases h <;> rfl

/-- The elements of a list are written as their canonical texts, if each can be written. -/
theorem outcome_toTexts {xs : List Value} (join : Bool) (hxs : ∀ x ∈ xs, Legible x)
    (htexts : ∀ x ∈ xs, (toText call x).outcome w = (writtenAs x.isWritten x.canonical, w)) :
    (toTexts call join xs).outcome w = (writtenAs (areWritten xs) (canonicals xs), w) := by
  induction xs with
  | nil => rfl
  | cons x xs ih =>
    rw [List.forall_mem_cons] at hxs htexts
    have hrest := outcome_map_writtenAs (ih hxs.2 htexts.2) (x.canonical :: ·)
    rw [toTexts, canonicals, areWritten]
    cases join with
    | true =>
      have hjoined : (joined call x (toText call x)).outcome w =
          (writtenAs x.isWritten x.canonical, w) :=
        outcome_bind_writtenAs (b := true) hxs.1.answeredText? htexts.1
      exact outcome_bind_writtenAs hjoined hrest
    | false => exact outcome_bind_writtenAs htexts.1 hrest

/-- The entries of a dict are written as their canonical texts, if each can be written. -/
theorem outcome_toTextEntries {es : List (Value × Value)}
    (hkeys : ∀ e ∈ es, (toText call e.1).outcome w = (writtenAs e.1.isWritten e.1.canonical, w))
    (hvalues : ∀ e ∈ es, (toText call e.2).outcome w = (writtenAs e.2.isWritten e.2.canonical, w)) :
    (toTextEntries call es).outcome w = (writtenAs (areWrittenEntries es) (canonicalEntries es), w) := by
  induction es with
  | nil => rfl
  | cons e es ih =>
    rw [List.forall_mem_cons] at hkeys hvalues
    have hrest := outcome_map_writtenAs (ih hkeys.2 hvalues.2) ((e.1.canonical, e.2.canonical) :: ·)
    rw [areWrittenEntries, Bool.and_assoc]
    exact outcome_bind_writtenAs hkeys.1 (outcome_bind_writtenAs hvalues.1 hrest)

/-- The text of plain data is the canonical one, unless the data is not written. -/
theorem Legible.outcome_toText (h : Legible x) :
    (toText call x).outcome w = (writtenAs x.isWritten x.canonical, w) := by
  induction h with
  | null | bool | text | nothing => rfl
  | @number t n hn =>
    rw [toText, isWritten, canonical]
    cases hwritten : n.literal?.isSome with
    | true => rw [numberText?_eq hn hwritten]; rfl
    | false =>
      rw [← isSome_numberText?, Option.isSome_eq_false_iff, Option.isNone_iff_eq_none] at hwritten
      rw [hwritten]
      rfl
  | seq k t h ih => exact outcome_map_writtenAs (outcome_toTexts _ h ih) (bracketed k)
  | @dict t es hkeys _ _ ih =>
    refine outcome_map_writtenAs (outcome_toTextEntries (fun e he => ?_) ih) braced
    obtain ⟨s, hs⟩ := Option.isSome_iff_exists.1 (hkeys e he)
    obtain ⟨u, hkey⟩ := string?_eq_some hs
    rw [hkey]
    rfl
  | just t _ ih => exact outcome_map_writtenAs ih (applied "Just")
  | left t _ ih => exact outcome_map_writtenAs ih (applied "Left")
  | right t _ ih => exact outcome_map_writtenAs ih (applied "Right")

theorem Legible.outcome_textValue (h : Legible x) :
    (textValue call x).outcome w = (writtenAs x.isWritten (.text x.textTag x.canonical), w) :=
  outcome_bind_writtenAs (b := true) h.answeredText?
    (outcome_map_writtenAs h.outcome_toText (Value.text x.textTag))

end Answers

/-- The beginning of the text of a value. -/
def opening? : Value → Option Opening
  | .null => some .null
  | .bool b => some (.bool b)
  | .number _ n => some (.number n)
  | .text _ _ => some .text
  | .seq k _ _ => some (.seq k)
  | .dict _ _ => some .dict
  | .nothing => some .nothing
  | .just _ _ => some .just
  | .left _ _ => some .left
  | .right _ _ => some .right
  | _ => none

/-! ## What follows -/

/-- The end of a sequence; a tuple of one has a comma before it. -/
def seqEnd : SeqKind → Nat → List Char
  | .list, _ => [']']
  | .tuple, 1 => [',', ')']
  | .tuple, _ => [')']

/-- Texts with commas between them. -/
def joinedChars (items : List String) : List Char := (", ".intercalate items).toList

/-- The text of an entry. -/
def entryText (e : Value × Value) : String := e.1.canonical ++ ": " ++ e.2.canonical

/-- What follows the beginning of the text of a value. -/
def body : Value → List Char
  | .text _ s => s.toList.flatMap Text.quotedChar ++ ['"']
  | .seq k _ xs => joinedChars (xs.map canonical) ++ seqEnd k xs.length
  | .dict _ es => joinedChars (es.map entryText) ++ ['\x7d']
  | .just _ v | .left _ v | .right _ v => v.canonical.toList ++ [')']
  | _ => []

/-- A sequence is written as its opening mark, its items, and the end of its kind. -/
theorem toList_bracketed (k : SeqKind) (items : List String) : (bracketed k items).toList =
    (Opening.seq k).mark ++ (joinedChars items ++ seqEnd k items.length) := by
  cases k with
  | list =>
    rw [bracketed, String.toList_append, String.toList_append, List.append_assoc]
    rfl
  | tuple =>
    rcases items with _ | ⟨item, _ | ⟨next, items⟩⟩
    · rfl
    · rw [bracketed, String.toList_append, String.toList_append, List.append_assoc, joinedChars,
        String.intercalate_singleton]
      rfl
    · rw [bracketed, String.toList_append, String.toList_append, List.append_assoc]
      · rfl
      · exact nofun

/-- An applied head is written with its argument in brackets. -/
theorem toList_applied (head argument : String) : (applied head argument).toList =
    head.toList ++ (['('] ++ (argument.toList ++ [')'])) := by
  rw [applied, String.toList_append, String.toList_append, String.toList_append, List.append_assoc,
    List.append_assoc]
  rfl

/-- A dict is written as its opening mark, its entries, and a closing brace. -/
theorem toList_braced (es : List (Value × Value)) : (braced (canonicalEntries es)).toList =
    Opening.dict.mark ++ (joinedChars (es.map entryText) ++ ['\x7d']) := by
  rw [canonicalEntries_eq, braced, List.map_map, String.toList_append, String.toList_append,
    List.append_assoc]
  rfl

/-- The text of plain data is its beginning and what follows. -/
theorem Legible.exists_opening {x : Value} (h : Legible x) : ∃ o : Opening, x.opening? = some o ∧
    o.Proper ∧ x.canonical.toList = o.word.toList ++ (o.mark ++ x.body) ∧
      (o.mark = [] → x.body = []) := by
  cases h with
  | null => exact ⟨.null, rfl, trivial, rfl, fun _ => rfl⟩
  | bool b => exact ⟨.bool b, rfl, trivial, (List.append_nil _).symm, fun _ => rfl⟩
  | number t hn => exact ⟨.number _, rfl, hn, (List.append_nil _).symm, fun _ => rfl⟩
  | text t s => exact ⟨.text, rfl, trivial, String.toList_ofList, nofun⟩
  | seq k t h =>
    refine ⟨.seq k, rfl, trivial, ?_, by cases k <;> exact nofun⟩
    rw [canonical, canonicals_eq, toList_bracketed, List.length_map]
    rfl
  | dict t => exact ⟨.dict, rfl, trivial, toList_braced _, nofun⟩
  | nothing => exact ⟨.nothing, rfl, trivial, rfl, fun _ => rfl⟩
  | just t => exact ⟨.just, rfl, trivial, toList_applied "Just" _, nofun⟩
  | left t => exact ⟨.left, rfl, trivial, toList_applied "Left" _, nofun⟩
  | right t => exact ⟨.right, rfl, trivial, toList_applied "Right" _, nofun⟩

/-! ## Taking a value off -/

/-- Where both texts begin a text that goes on with what surrounds a value, the values are as stated
and what follows is the same. -/
def Takes (R : Prop) (a b : String) : Prop :=
  ∀ r s : List Char, Stops r → Stops s → a.toList ++ r = b.toList ++ s → R ∧ r = s

/-- Values of which the texts are equal up to what follows begin alike. -/
theorem Legible.same_opening {x y : Value} (hx : Legible x) (hy : Legible y) {r s : List Char}
    (hr : Stops r) (hs : Stops s) (h : x.canonical.toList ++ r = y.canonical.toList ++ s) :
    x.opening? = y.opening? ∧ x.body ++ r = y.body ++ s := by
  obtain ⟨o, ho, hp, htext, hbody⟩ := hx.exists_opening
  obtain ⟨o', ho', hp', htext', hbody'⟩ := hy.exists_opening
  rw [htext, htext', List.append_assoc, List.append_assoc, List.append_assoc, List.append_assoc] at h
  have hend : o.mark = [] → Stops (x.body ++ r) := fun hnone => by rw [hbody hnone]; exact hr
  have hend' : o'.mark = [] → Stops (y.body ++ s) := fun hnone => by rw [hbody' hnone]; exact hs
  obtain ⟨rfl, hrest⟩ := Opening.cancel hp hp' hend hend' h
  exact ⟨ho.trans ho'.symm, hrest⟩

/-- A value is no end. -/
theorem Legible.not_stops {x : Value} (hx : Legible x) (rest : List Char) :
    ¬ Stops (x.canonical.toList ++ rest) := by
  obtain ⟨o, -, hp, htext, -⟩ := hx.exists_opening
  rw [htext]
  intro h
  cases hword : o.word.toList with
  | nil =>
    obtain hnone | ⟨c, hc, hmark⟩ := o.mark_eq
    · exact Opening.word_ne_empty hp hnone (String.toList_eq_nil_iff.1 hword)
    · rw [hword, hmark] at h
      exact not_mem_stops hc (h c rfl)
  | cons c cs =>
    have hinside := Opening.isWordPart_word hp c (by rw [hword]; exact List.mem_cons_self)
    rw [hword] at h
    rw [isWordPart_stop (h c rfl)] at hinside
    cases hinside

section Lists

variable {α : Type} {text : α → String} {R : α → α → Prop} {xs ys : List α} {p q r s : List Char}

/-- What may stand at the end of items with commas between them. -/
def Closes (p : List Char) : Prop := p = [',', ')'] ∨ ∃ c ∈ stops, c ≠ ',' ∧ p = [c]

theorem Closes.stops (h : Closes p) (rest : List Char) : Stops (p ++ rest) := by
  obtain rfl | ⟨c, hc, -, rfl⟩ := h
  · exact stops_cons (by decide) _
  · exact stops_cons hc rest

theorem Closes.ne (h : Closes p) (rest more : List Char) : p ++ rest ≠ ',' :: ' ' :: more := by
  obtain rfl | ⟨c, -, hc, rfl⟩ := h
  · exact nofun
  · exact fun heq => hc (List.cons.inj heq).1

/-- The items after the first, each behind a comma. -/
def following (items : List String) : List Char :=
  items.flatMap fun item => ',' :: ' ' :: item.toList

theorem joinedChars_cons (item : String) (items : List String) :
    joinedChars (item :: items) = item.toList ++ following items := by
  induction items generalizing item with
  | nil => simp [joinedChars, following]
  | cons next items ih =>
    have hnext := ih next
    rw [joinedChars, String.toList_intercalate] at hnext ⊢
    rw [List.map_cons, List.map_cons, List.intercalate_cons_cons, ← List.map_cons, hnext]
    simp [following]

/-- What follows an item, be it more items or the close, stops a word. -/
theorem stops_following (items : List String) (h : Closes p) (rest : List Char) :
    Stops (following items ++ (p ++ rest)) := by
  cases items with
  | nil => exact h.stops rest
  | cons item items => exact stops_cons (by decide) _

/-- Two lists of items written alike, each closed, have related items in turn. -/
theorem takes_following (hp : Closes p) (hq : Closes q)
    (hitems : ∀ x ∈ xs, ∀ y ∈ ys, Takes (R x y) (text x) (text y))
    (h : following (xs.map text) ++ (p ++ r) = following (ys.map text) ++ (q ++ s)) :
    xs.Forall₂ R ys ∧ p ++ r = q ++ s := by
  induction xs generalizing ys with
  | nil =>
    cases ys with
    | nil => exact ⟨.nil, h⟩
    | cons y ys => exact absurd h (hp.ne r _)
  | cons x xs ih =>
    cases ys with
    | nil => exact absurd h.symm (hq.ne s _)
    | cons y ys =>
      have hfirst := hitems x List.mem_cons_self y List.mem_cons_self
      have hrest : ∀ x' ∈ xs, ∀ y' ∈ ys, Takes (R x' y') (text x') (text y') := fun x' hx' y' hy' =>
        hitems x' (List.mem_cons_of_mem x hx') y' (List.mem_cons_of_mem y hy')
      simp only [List.map_cons, following, List.flatMap_cons, List.cons_append, List.cons.injEq,
        List.append_assoc, true_and] at h
      obtain ⟨hxy, htail⟩ := hfirst _ _ (stops_following _ hp r) (stops_following _ hq s) h
      obtain ⟨hall, hend⟩ := ih hrest htail
      exact ⟨.cons hxy hall, hend⟩

/-- Items with commas between them can be taken off together. -/
theorem takes_joined (hp : Closes p) (hq : Closes q)
    (hxs : ∀ x ∈ xs, ∀ rest, ¬ Stops ((text x).toList ++ rest))
    (hys : ∀ y ∈ ys, ∀ rest, ¬ Stops ((text y).toList ++ rest))
    (hitems : ∀ x ∈ xs, ∀ y ∈ ys, Takes (R x y) (text x) (text y))
    (h : joinedChars (xs.map text) ++ (p ++ r) = joinedChars (ys.map text) ++ (q ++ s)) :
    xs.Forall₂ R ys ∧ p ++ r = q ++ s := by
  cases xs with
  | nil =>
    cases ys with
    | nil => exact ⟨.nil, h⟩
    | cons y ys =>
      have hend : Stops (p ++ r) := hp.stops r
      rw [List.map_cons, joinedChars_cons, List.append_assoc] at h
      exact absurd (h ▸ hend) (hys y List.mem_cons_self _)
  | cons x xs =>
    rw [List.map_cons, joinedChars_cons, List.append_assoc] at h
    cases ys with
    | nil =>
      have hend : Stops (q ++ s) := hq.stops s
      exact absurd (h.symm ▸ hend) (hxs x List.mem_cons_self _)
    | cons y ys =>
      rw [List.map_cons, joinedChars_cons, List.append_assoc] at h
      obtain ⟨hxy, htail⟩ := hitems x List.mem_cons_self y List.mem_cons_self _ _
        (stops_following _ hp r) (stops_following _ hq s) h
      obtain ⟨hall, hend⟩ := takes_following hp hq (fun x' hx' y' hy' =>
        hitems x' (List.mem_cons_of_mem x hx') y' (List.mem_cons_of_mem y hy')) htail
      exact ⟨.cons hxy hall, hend⟩

end Lists

/-! ## Equality -/

section Equality

variable {call : Apply} {w : World}

theorem equal_number (s t : Tag) (n : Number) : Equal call w (.number s n) (.number t n) := by
  have hequals : n.equals n = true := Number.equals_iff.2 ⟨rfl, fun _ => rfl⟩
  rw [Equal, equals, hequals]
  rfl

theorem answers_truth (b : Bool) : ((Value.bool b).truth call).Answers w b := rfl

/-- Sequences of one kind are equal if their elements are. -/
theorem equal_seq (k : SeqKind) (s t : Tag) {xs ys : List Value} (h : xs.Forall₂ (Equal call w) ys) :
    Equal call w (.seq k s xs) (.seq k t ys) := by
  have hall : (equalsAll call xs ys).Answers w true := by
    induction h with
    | nil => rfl
    | cons hxy _ ih => exact hxy.bind ((answers_truth true).bind ih)
  rw [Equal, equals, if_pos ⟨rfl, h.length_eq⟩]
  exact hall.bind rfl

/-- Every element of a list has a partner among the related elements. -/
theorem exists_of_forall₂ {α β : Type} {R : α → β → Prop} {as : List α} {bs : List β}
    (h : as.Forall₂ R bs) : ∀ a ∈ as, ∃ b ∈ bs, R a b := by
  induction h with
  | nil => exact nofun
  | @cons a b _ _ hab _ ih =>
    refine List.forall_mem_cons.2 ⟨⟨b, List.mem_cons_self, hab⟩, fun a' ha' => ?_⟩
    obtain ⟨b', hb', hab'⟩ := ih a' ha'
    exact ⟨b', List.mem_cons_of_mem b hb', hab'⟩

/-- A string matches a key just if that is the same string, whatever object it is. -/
theorem answers_keyMatches_text (s t : Tag) (a b : String) :
    (keyMatches call (.text s a) (same call (.text s a)) (.text t b)).Answers w (a == b) := by
  rw [keyMatches]
  by_cases hidentical : (Value.text t b).identical (.text s a) = true
  · have hsame : b = a := beq_iff_eq.1 (Bool.and_eq_true_iff.1 hidentical).1
    rw [if_pos hidentical, hsame, beq_self_eq_true]
    rfl
  · rw [if_neg hidentical]
    have hhash : (hashesAgree call (.text s a) (.text t b)).Answers w (a == b) := rfl
    have hsame : (same call (.text s a) (.text t b)).Answers w (.bool (a == b)) := by
      rw [same]
      rfl
    refine hhash.bind ?_
    cases htruth : a == b with
    | true =>
      rw [htruth] at hsame
      exact hsame.bind (answers_truth true)
    | false => rfl

/-- A string finds the entry under it, if no two keys are one string. -/
theorem answers_findEntry_text {fs : List (Value × Value)}
    (hkeys : ∀ e ∈ fs, e.1.string?.isSome = true)
    (hone : fs.Pairwise fun d e => d.1.string? ≠ e.1.string?) {e : Value × Value} (he : e ∈ fs)
    (s : Tag) {a : String} (ha : e.1.string? = some a) :
    (findEntry (keyMatches call (.text s a) (same call (.text s a))) fs).Answers w (some e.2) := by
  induction fs with
  | nil => cases he
  | cons f fs ih =>
    rw [List.forall_mem_cons] at hkeys
    rw [List.pairwise_cons] at hone
    obtain ⟨b, hb⟩ := Option.isSome_iff_exists.1 hkeys.1
    obtain ⟨t, hkey⟩ := string?_eq_some hb
    have hmatch : (keyMatches call (.text s a) (same call (.text s a)) (.text t b)).Answers w
        (a == b) := answers_keyMatches_text s t a b
    rw [← hkey] at hmatch
    rcases List.mem_cons.1 he with rfl | he
    · obtain rfl : b = a := Option.some.inj (hb.symm.trans ha)
      rw [beq_self_eq_true] at hmatch
      exact hmatch.bind rfl
    · have hne : a ≠ b := by
        rintro rfl
        exact hone.1 e he (hb.trans ha.symm)
      rw [beq_eq_false_iff_ne.2 hne] at hmatch
      exact hmatch.bind (ih hkeys.2 hone.2 he)

/-- Dictionaries are equal if they have the same strings as keys, and equal values under them. -/
theorem equal_dict (s t : Tag) {es fs : List (Value × Value)}
    (hkeys : ∀ e ∈ fs, e.1.string?.isSome = true)
    (hone : fs.Pairwise fun d e => d.1.string? ≠ e.1.string?)
    (h : es.Forall₂ (fun d e => d.1.string? = e.1.string? ∧ Equal call w d.2 e.2) fs) :
    Equal call w (.dict s es) (.dict t fs) := by
  have hfound : ∀ d ∈ es, ∃ v, (findEntry (keyMatches call d.1 (same call d.1)) fs).Answers w
      (some v) ∧ Equal call w d.2 v := by
    intro d hd
    obtain ⟨e, he, hkey, hvalue⟩ := exists_of_forall₂ h d hd
    obtain ⟨a, ha⟩ := Option.isSome_iff_exists.1 (hkeys e he)
    obtain ⟨u, hd⟩ := string?_eq_some (hkey.trans ha)
    rw [hd]
    exact ⟨e.2, answers_findEntry_text hkeys hone he u ha, hvalue⟩
  have hlength := h.length_eq
  clear h
  have hwithin : (keysWithin call es fs).Answers w true := by
    clear hlength
    induction es with
    | nil => rfl
    | cons d es ih =>
      rw [List.forall_mem_cons] at hfound
      obtain ⟨v, hv, -⟩ := hfound.1
      exact hv.bind (ih hfound.2)
  have hentries : (equalsEntries call es fs).Answers w true := by
    clear hlength hwithin
    induction es with
    | nil => rfl
    | cons d es ih =>
      rw [List.forall_mem_cons] at hfound
      obtain ⟨v, hv, hequal⟩ := hfound.1
      exact hv.bind (hequal.bind ((answers_truth true).bind (ih hfound.2)))
  rw [Equal, equals, if_pos hlength]
  exact hwithin.bind (hentries.bind rfl)

end Equality

/-! ## Texts and equality -/

section Parts

variable {call : Apply} {w : World} {x y : Value} {R : Prop} {r s : List Char}

/-- Values can be taken off if they can once they begin alike. -/
theorem Legible.takes_of (hx : Legible x) (hy : Legible y) (h : x.opening? = y.opening? →
      ∀ r s, Stops r → Stops s → x.body ++ r = y.body ++ s → R ∧ r = s) :
    Takes R x.canonical y.canonical := by
  intro r s hr hs heq
  obtain ⟨hopening, hrest⟩ := hx.same_opening hy hr hs heq
  exact h hopening r s hr hs hrest

theorem closes_of_stop {c : Char} (hc : c ∈ stops) (hne : c ≠ ',') : Closes [c] :=
  .inr ⟨c, hc, hne, rfl⟩

/-- The end of a sequence closes its items. -/
theorem closes_seqEnd (k : SeqKind) (n : Nat) : Closes (seqEnd k n) := by
  unfold seqEnd
  split
  · exact closes_of_stop (by decide) (by decide)
  · exact .inl rfl
  · exact closes_of_stop (by decide) (by decide)

/-- What a variant holds, and the bracket behind it. -/
theorem takes_held (h : Takes R x.canonical y.canonical)
    (heq : x.canonical.toList ++ [')'] ++ r = y.canonical.toList ++ [')'] ++ s) : R ∧ r = s := by
  have hstop : ∀ rest, Stops (')' :: rest) := stops_cons (by decide)
  rw [List.append_assoc, List.append_assoc] at heq
  obtain ⟨hR, hrest⟩ := h _ _ (hstop r) (hstop s) heq
  exact ⟨hR, (List.cons.inj hrest).2⟩

/-- The entry of a dict with a text for its key is written with that text in quotes. -/
theorem toList_entryText {e : Value × Value} {a : String} (ha : e.1.string? = some a) :
    (entryText e).toList = '"' :: (a.toList.flatMap Text.quotedChar ++
      '"' :: ':' :: ' ' :: e.2.canonical.toList) := by
  obtain ⟨t, hkey⟩ := string?_eq_some ha
  rw [entryText, hkey, canonical, Text.quoted, String.toList_append, String.toList_append,
    String.toList_ofList]
  simp

/-- A key, the colon behind it and the value under it. -/
theorem takes_entry {d e : Value × Value} (hd : d.1.string?.isSome = true)
    (he : e.1.string?.isSome = true) (h : Takes R d.2.canonical e.2.canonical) :
    Takes (d.1.string? = e.1.string? ∧ R) (entryText d) (entryText e) := by
  obtain ⟨a, ha⟩ := Option.isSome_iff_exists.1 hd
  obtain ⟨b, hb⟩ := Option.isSome_iff_exists.1 he
  intro r s hr hs heq
  rw [toList_entryText ha, toList_entryText hb] at heq
  simp only [List.cons_append, List.append_assoc, List.cons.injEq, true_and] at heq
  obtain ⟨hkey, hrest⟩ := Text.cancel_quoted heq
  simp only [List.cons.injEq, true_and] at hrest
  obtain ⟨hR, hend⟩ := h r s hr hs hrest
  exact ⟨⟨by rw [ha, hb, String.toList_inj.1 hkey], hR⟩, hend⟩

/-- No entry of a dict begins with what stops a word. -/
theorem not_stops_entryText {e : Value × Value} (he : e.1.string?.isSome = true) (rest : List Char) :
    ¬ Stops ((entryText e).toList ++ rest) := by
  obtain ⟨a, ha⟩ := Option.isSome_iff_exists.1 he
  rw [toList_entryText ha]
  intro h
  exact absurd (h '"' rfl) (by decide)

/-- What a sequence holds, and the bracket behind it. -/
theorem takes_seq {k : SeqKind} {t u : Tag} {xs ys : List Value} (hxs : ∀ x ∈ xs, Legible x)
    (hys : ∀ y ∈ ys, Legible y)
    (h : ∀ x ∈ xs, ∀ y ∈ ys, Takes (Equal call w x y) x.canonical y.canonical)
    (heq : (Value.seq k t xs).body ++ r = (Value.seq k u ys).body ++ s) :
    Equal call w (.seq k t xs) (.seq k u ys) ∧ r = s := by
  rw [body, body, List.append_assoc, List.append_assoc] at heq
  obtain ⟨hall, hend⟩ := takes_joined (closes_seqEnd k _) (closes_seqEnd k _)
    (fun x hx => (hxs x hx).not_stops) (fun y hy => (hys y hy).not_stops) h heq
  rw [hall.length_eq] at hend
  exact ⟨equal_seq k t u hall, List.append_cancel_left hend⟩

/-- What a dictionary holds, and the brace behind it. -/
theorem takes_dict {t u : Tag} {es fs : List (Value × Value)}
    (hkeys : ∀ e ∈ es, e.1.string?.isSome = true) (hkeys' : ∀ e ∈ fs, e.1.string?.isSome = true)
    (hone : fs.Pairwise fun d e => d.1.string? ≠ e.1.string?)
    (h : ∀ d ∈ es, ∀ e ∈ fs, Takes (Equal call w d.2 e.2) d.2.canonical e.2.canonical)
    (heq : (Value.dict t es).body ++ r = (Value.dict u fs).body ++ s) :
    Equal call w (.dict t es) (.dict u fs) ∧ r = s := by
  have hclose : Closes ['\x7d'] := closes_of_stop (by decide) (by decide)
  rw [body, body, List.append_assoc, List.append_assoc] at heq
  obtain ⟨hall, hend⟩ := takes_joined hclose hclose
    (fun d hd => not_stops_entryText (hkeys d hd)) (fun e he => not_stops_entryText (hkeys' e he))
    (fun d hd e he => takes_entry (hkeys d hd) (hkeys' e he) (h d hd e he)) heq
  exact ⟨equal_dict t u hkeys' hone hall, List.append_cancel_left hend⟩

end Parts

/-- Where the texts of plain data begin equal texts, the values are equal, and so are the rests. -/
theorem Legible.takes (call : Apply) (w : World) {x : Value} (hx : Legible x) :
    ∀ {y}, Legible y → Takes (Equal call w x y) x.canonical y.canonical := by
  -- in each case the other value has the same constructor, since the two begin alike
  induction hx with
  | null =>
    intro y hy
    refine Legible.null.takes_of hy fun hopening r s _ _ hrest => ?_
    cases hy <;> cases hopening
    exact ⟨rfl, hrest⟩
  | bool b =>
    intro y hy
    refine (Legible.bool b).takes_of hy fun hopening r s _ _ hrest => ?_
    cases hy <;> cases hopening
    refine ⟨?_, hrest⟩
    rw [Equal, equals, beq_self_eq_true]
    rfl
  | @number t n hn =>
    intro y hy
    refine (Legible.number t hn).takes_of hy fun hopening r s _ _ hrest => ?_
    cases hy <;> cases hopening
    exact ⟨equal_number _ _ n, hrest⟩
  | text t a =>
    intro y hy
    refine (Legible.text t a).takes_of hy fun hopening r s _ _ hrest => ?_
    cases hy with
    | text u b =>
      rw [body, body, List.append_assoc, List.append_assoc] at hrest
      obtain ⟨hsame, hend⟩ := Text.cancel_quoted hrest
      refine ⟨?_, hend⟩
      rw [Equal, equals, String.toList_inj.1 hsame, beq_self_eq_true]
      rfl
    | _ => cases hopening
  | @seq k t xs hxs ih =>
    intro y hy
    refine (Legible.seq k t hxs).takes_of hy fun hopening r s _ _ hrest => ?_
    cases hy with
    | @seq l u ys hys =>
      cases hopening
      exact takes_seq hxs hys (fun x hx y hy => ih x hx (hys y hy)) hrest
    | _ => cases hopening
  | @dict t es hkeys hone hes ih =>
    intro y hy
    refine (Legible.dict t hkeys hone hes).takes_of hy fun hopening r s _ _ hrest => ?_
    cases hy with
    | @dict u fs hkeys' hone' hfs =>
      exact takes_dict hkeys hkeys' hone' (fun d hd e he => ih d hd (hfs e he)) hrest
    | _ => cases hopening
  | nothing =>
    intro y hy
    refine Legible.nothing.takes_of hy fun hopening r s _ _ hrest => ?_
    cases hy <;> cases hopening
    exact ⟨rfl, hrest⟩
  | @just t v hv ih =>
    intro y hy
    refine (Legible.just t hv).takes_of hy fun hopening r s _ _ hrest => ?_
    cases hy with
    | just u hv' => exact takes_held (ih hv') hrest
    | _ => cases hopening
  | @left t v hv ih =>
    intro y hy
    refine (Legible.left t hv).takes_of hy fun hopening r s _ _ hrest => ?_
    cases hy with
    | left u hv' => exact takes_held (ih hv') hrest
    | _ => cases hopening
  | @right t v hv ih =>
    intro y hy
    refine (Legible.right t hv).takes_of hy fun hopening r s _ _ hrest => ?_
    cases hy with
    | right u hv' => exact takes_held (ih hv') hrest
    | _ => cases hopening

/-- Values of plain data have texts unless they are not written, and those that have one text are
equal. -/
theorem Legible.equals_of_textValue (call : Apply) (w : World) {x y : Value} (hx : Legible x)
    (hy : Legible y) : ∃ a b s t,
      (textValue call x).outcome w = (writtenAs x.isWritten (.text s a), w) ∧
      (textValue call y).outcome w = (writtenAs y.isWritten (.text t b), w) ∧
      (a = b → (equals call x y).Answers w (.bool true)) := by
  refine ⟨_, _, _, _, hx.outcome_textValue, hy.outcome_textValue, fun h => ?_⟩
  have hchars : x.canonical.toList ++ [] = y.canonical.toList ++ [] := by rw [h]
  exact (hx.takes call w hy [] [] stops_nil stops_nil hchars).1

/-- A dictionary of the least positive number of the format, in objects of the tag. -/
def leastEntry (t : Tag) : Value :=
  .dict t [(.text t "least", .seq .tuple t [.just t (.number t (.float (.finite false 1)))]),
    (.text t "rest", .nothing)]

theorem legible_leastEntry (t : Tag) : Legible (leastEntry t) := by
  have hleast : Binary64.Representable (.finite false 1) := ⟨by decide +kernel, rfl⟩
  refine .dict t (by simp [string?]) (by simp [string?]) ?_
  simp only [List.forall_mem_cons, List.not_mem_nil, false_implies, implies_true, and_true]
  exact ⟨.seq .tuple t (List.forall_mem_singleton.2 (.just t (.number t hleast))), .nothing⟩

/-- Two such dictionaries of different objects have one text, and are equal. -/
theorem equals_of_textValue_leastEntry :
    Legible (leastEntry (.numbered 0)) ∧ Legible (leastEntry (.numbered 1)) ∧
      canonical (leastEntry (.numbered 0)) = canonical (leastEntry (.numbered 1)) ∧
      (equals applyFunction (leastEntry (.numbered 0)) (leastEntry (.numbered 1))).Answers .initial
        (.bool true) := by
  have hx := legible_leastEntry (.numbered 0)
  have hy := legible_leastEntry (.numbered 1)
  obtain ⟨a, b, s, t, ha, hb, h⟩ := Legible.equals_of_textValue applyFunction .initial hx hy
  have hsame : a = b := by
    cases (Prod.mk.inj (ha.symm.trans hx.outcome_textValue)).1
    cases (Prod.mk.inj (hb.symm.trans hy.outcome_textValue)).1
    rfl
  exact ⟨hx, hy, rfl, h hsame⟩

end Value

end CheckedCalls
