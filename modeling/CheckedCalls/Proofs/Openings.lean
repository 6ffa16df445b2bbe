import CheckedCalls.Proofs.Numerals
import CheckedCalls.Proofs.Prefixes
import CheckedCalls.Value.Printer
import Mathlib.Tactic.Tauto

/-!
# How the texts of values begin

The canonical text of a value begins with a word and a mark, which tell what kind of value it is of
(`Value.Opening.cancel`): a number has a word of its own (`Value.numberWord_injective`), which is no
word of anything else.
-/

namespace CheckedCalls

/-- The number is an integer or a number of the binary64 format. -/
def Number.IsPlain : Number → Prop
  | .int _ => True
  | .float x => x.Representable
  | .fraction _ => False

namespace Value

/-! ## Marks -/

/-- The characters that begin what is no word. -/
def openers : List Char := ['"', '[', '(', '\x7b']

/-- The characters that go on where a value ends. -/
def stops : List Char := [',', ']', ')', '\x7d', ':']

/-- A character of a word. -/
def isWordPart (c : Char) : Bool := !openers.contains c && !stops.contains c

/-- A value can end where the text goes on: the text is empty, or what surrounds the value does. -/
def Stops (rest : List Char) : Prop := ∀ c ∈ rest.head?, c ∈ stops

theorem stops_nil : Stops [] := nofun

theorem stops_cons {c : Char} (h : c ∈ stops) (rest : List Char) : Stops (c :: rest) := by
  intro d hd
  cases hd
  exact h

theorem isWordPart_opener {c : Char} (h : c ∈ openers) : isWordPart c = false := by
  simp [isWordPart, h]

theorem isWordPart_stop {c : Char} (h : c ∈ stops) : isWordPart c = false := by
  simp [isWordPart, h]

theorem not_mem_stops {c : Char} (h : c ∈ openers) : c ∉ stops := by
  have hapart : openers.all (fun d => !stops.contains d) = true := by decide
  simpa using List.all_eq_true.1 hapart c h

/-- The characters of numerals are parts of words. -/
theorem isWordPart_of_isNumeral {c : Char} (h : Binary64.isNumeral c = true) :
    isWordPart c = true := by
  by_contra hnot
  have hmem : c ∈ openers ++ stops := by
    simp only [isWordPart, Bool.and_eq_true, Bool.not_eq_true', List.contains_eq_mem,
      decide_eq_false_iff_not] at hnot
    rw [List.mem_append]
    tauto
  have hnone : (openers ++ stops).any Binary64.isNumeral = false := by decide
  exact List.any_eq_false.1 hnone c hmem h

/-! ## Numbers -/

/-- The word for a plain number, which is its text unless it is too long to have one. -/
def numberWord : Number → String
  | .int n => toString n
  | .float .nan => "NaN"
  | .float (.inf s) => if s then "-Infinity" else "Infinity"
  | .float x => x.literal
  | .fraction _ => ""

/-- The text of a plain number, if it has one, is the word for it. -/
theorem numberText?_eq {n : Number} (hn : n.IsPlain) (hwritten : n.literal?.isSome = true) :
    numberText? n = some (numberWord n) := by
  cases n with
  | int k =>
    rw [Number.literal?, Number.numeral?, Option.isSome_ite] at hwritten
    exact if_pos hwritten
  | float x => cases x <;> rfl
  | fraction q => exact hn.elim

/-- The text of an integer is a minus sign, if it is negative, and its digits. -/
theorem toList_toString_int (n : Int) :
    (toString n).toList = (if n < 0 then ['-'] else []) ++ Nat.toDigits 10 n.natAbs := by
  rw [Int.toString_eq_repr, Int.repr_eq_if]
  by_cases hneg : n < 0
  · have habs : (-n).toNat = n.natAbs := by omega
    rw [if_neg (by omega), if_pos hneg, String.toList_append, Nat.toList_repr, habs]
    rfl
  · have habs : n.toNat = n.natAbs := by omega
    rw [if_pos (by omega), if_neg hneg, Nat.toList_repr, habs]
    rfl

/-- An integer is told by its text. -/
theorem toString_int_injective {m n : Int} (h : toString m = toString n) : m = n := by
  have hsign : ∀ k : Nat, '-' ∉ Nat.toDigits 10 k := by
    intro k hmem
    have hdigit := Decimal.areDigits_toDigits k '-' hmem
    cases hdigit
  have hchars := congrArg String.toList h
  rw [toList_toString_int, toList_toString_int] at hchars
  have hsame : m < 0 ↔ n < 0 := by
    by_cases hm : m < 0 <;> by_cases hn : n < 0
    · exact iff_of_true hm hn
    · rw [if_pos hm, if_neg hn] at hchars
      exact absurd (by rw [← List.nil_append (Nat.toDigits 10 n.natAbs), ← hchars]; simp) (hsign n.natAbs)
    · rw [if_neg hm, if_pos hn] at hchars
      exact absurd (by rw [← List.nil_append (Nat.toDigits 10 m.natAbs), hchars]; simp) (hsign m.natAbs)
    · exact iff_of_false hm hn
  simp only [hsame] at hchars
  have hdigits : Nat.toDigits 10 m.natAbs = Nat.toDigits 10 n.natAbs :=
    List.append_cancel_left hchars
  have habs : m.natAbs = n.natAbs := by
    calc m.natAbs = Nat.ofDigitChars 10 (Nat.toDigits 10 m.natAbs) 0 :=
          Nat.ofDigitChars_ten_toDigits.symm
      _ = Nat.ofDigitChars 10 (Nat.toDigits 10 n.natAbs) 0 := by rw [hdigits]
      _ = n.natAbs := Nat.ofDigitChars_ten_toDigits
  omega

/-- The text of a number of the format is one of three words, or has digits and signs only, and then
a point or an exponent. -/
theorem numberWord_float {x : Binary64} (h : x.Representable) :
    numberWord (.float x) ∈ ["NaN", "Infinity", "-Infinity"] ∧ x.isFinite = false ∨
      x.isFinite = true ∧ numberWord (.float x) = x.literal ∧
        (∀ c ∈ x.literal.toList, Binary64.isNumeral c = true) ∧
        ('.' ∈ x.literal.toList ∨ 'e' ∈ x.literal.toList) := by
  cases x with
  | nan => exact .inl ⟨by decide, rfl⟩
  | inf s => cases s <;> exact .inl ⟨by decide, rfl⟩
  | finite s u =>
    obtain ⟨cs, d, htext, hwritten, -⟩ := Binary64.exists_written h
    obtain ⟨hnumeral, hmark⟩ := Binary64.isNumeral_of_written hwritten
    refine .inr ⟨rfl, rfl, ?_, ?_⟩
    · rw [htext]
      cases s with
      | true => exact List.forall_mem_cons.2 ⟨rfl, hnumeral⟩
      | false => exact hnumeral
    · rw [htext]
      exact hmark.imp (List.mem_append_right _) (List.mem_append_right _)

/-- The text of an integer has digits and a sign only. -/
theorem isNumeral_int (n : Int) : (∀ c ∈ (toString n).toList, Binary64.isNumeral c = true) ∧
    '.' ∉ (toString n).toList ∧ 'e' ∉ (toString n).toList := by
  have hdigits : ∀ c ∈ (toString n).toList, c = '-' ∨ c.isDigit = true := by
    intro c hc
    rw [toList_toString_int] at hc
    rcases List.mem_append.1 hc with hc | hc
    · split at hc
      · exact .inl (List.mem_singleton.1 hc)
      · cases hc
    · exact .inr (Decimal.areDigits_toDigits _ c hc)
  refine ⟨fun c hc => ?_, fun hc => ?_, fun hc => ?_⟩
  · obtain rfl | hdigit := hdigits c hc
    · rfl
    · rw [Binary64.isNumeral, hdigit]
      rfl
  · exact absurd (hdigits '.' hc) (by decide)
  · exact absurd (hdigits 'e' hc) (by decide)

/-- The words for NaN and the infinities are no numerals. -/
theorem not_isNumeral {t : String} (ht : t ∈ ["NaN", "Infinity", "-Infinity"]) :
    ¬ ∀ c ∈ t.toList, Binary64.isNumeral c = true := by
  have hletter : ∀ t ∈ ["NaN", "Infinity", "-Infinity"],
      t.toList.all Binary64.isNumeral = false := by decide
  intro h
  exact absurd (List.all_eq_true.2 h) (Bool.eq_false_iff.1 (hletter t ht))

/-- No integer is written as a double is. -/
theorem toString_int_ne (n : Int) {x : Binary64} (h : x.Representable) :
    toString n ≠ numberWord (.float x) := by
  obtain ⟨hnumeral, hpoint, hexponent⟩ := isNumeral_int n
  intro heq
  obtain ⟨hword, -⟩ | ⟨-, htext, -, hmark⟩ := numberWord_float h
  · exact not_isNumeral hword (heq ▸ hnumeral)
  · rw [← htext, ← heq] at hmark
    exact hmark.elim hpoint hexponent

/-- A number that is not finite has a word of its own. -/
theorem numberWord_infinite_injective {x y : Binary64} (hx : x.isFinite = false)
    (hy : y.isFinite = false) (h : numberWord (.float x) = numberWord (.float y)) : x = y := by
  have hsign : ∀ s t, numberWord (.float (.inf s)) = numberWord (.float (.inf t)) → s = t := by
    decide
  have hnan : ∀ s, numberWord (.float (.inf s)) ≠ numberWord (.float .nan) := by decide
  cases x with
  | nan =>
    cases y with
    | nan => rfl
    | inf t => exact absurd h.symm (hnan t)
    | finite => cases hy
  | inf s =>
    cases y with
    | nan => exact absurd h (hnan s)
    | inf t => rw [hsign s t h]
    | finite => cases hy
  | finite => cases hx

/-- Doubles that are written alike are one double. -/
theorem numberWord_float_injective {x y : Binary64} (hx : x.Representable) (hy : y.Representable)
    (h : numberWord (.float x) = numberWord (.float y)) : x = y := by
  obtain ⟨hword, hinfinite⟩ | ⟨-, htext, hnumeral, -⟩ := numberWord_float hx <;>
    obtain ⟨hword', hinfinite'⟩ | ⟨-, htext', hnumeral', -⟩ := numberWord_float hy
  · exact numberWord_infinite_injective hinfinite hinfinite' h
  · rw [← htext', ← h] at hnumeral'
    exact absurd hnumeral' (not_isNumeral hword)
  · rw [← htext, h] at hnumeral
    exact absurd hnumeral (not_isNumeral hword')
  · rw [htext, htext'] at h
    exact Binary64.literal_injective hx hy h

/-- A number is told by its canonical text. -/
theorem numberWord_injective {m n : Number} (hm : m.IsPlain) (hn : n.IsPlain)
    (h : numberWord m = numberWord n) : m = n := by
  cases m with
  | int a =>
    cases n with
    | int b => exact congrArg Number.int (toString_int_injective h)
    | float y => exact absurd h (toString_int_ne a hn)
    | fraction q => exact hn.elim
  | float x =>
    cases n with
    | int b => exact absurd h.symm (toString_int_ne b hm)
    | float y => exact congrArg Number.float (numberWord_float_injective hm hn h)
    | fraction q => exact hn.elim
  | fraction q => exact hm.elim

/-- What the text of a number is made of. -/
theorem numberWord_word {n : Number} (hn : n.IsPlain) :
    numberWord n ∈ ["NaN", "Infinity", "-Infinity"] ∨
      numberWord n ≠ "" ∧ ∀ c ∈ (numberWord n).toList, Binary64.isNumeral c = true := by
  cases n with
  | int a =>
    refine .inr ⟨fun hempty => ?_, (isNumeral_int a).1⟩
    have hnone := toList_toString_int a
    rw [show toString a = "" from hempty] at hnone
    exact Nat.toDigits_ne_nil (List.append_eq_nil_iff.1 hnone.symm).2
  | float x =>
    obtain ⟨hword, -⟩ | ⟨-, htext, hnumeral, hmark⟩ := numberWord_float hn
    · exact .inl hword
    · rw [htext]
      refine .inr ⟨fun hempty => ?_, hnumeral⟩
      rw [hempty] at hmark
      cases hmark <;> contradiction
  | fraction q => exact hn.elim

/-! ## How a text begins -/

/-- What the beginning of a text tells of a value. -/
inductive Opening
  | null
  | bool (b : Bool)
  | number (n : Number)
  | text
  | seq (k : SeqKind)
  | dict
  | nothing
  | just
  | left
  | right
  deriving DecidableEq

namespace Opening

/-- The word that a text begins with. -/
def word : Opening → String
  | .null => "None"
  | .bool b => boolText b
  | .number n => numberWord n
  | .nothing => "Nothing"
  | .just => "Just"
  | .left => "Left"
  | .right => "Right"
  | .text | .seq _ | .dict => ""

/-- The mark that follows the word, if the value goes on. -/
def mark : Opening → List Char
  | .text => ['"']
  | .seq .list => ['[']
  | .dict => ['\x7b']
  | .seq .tuple | .just | .left | .right => ['(']
  | _ => []

/-- A number has to be one that is told by its text. -/
def Proper : Opening → Prop
  | .number n => n.IsPlain
  | _ => True

variable {o o' : Opening}

/-- The beginnings of what is no number. -/
def others : List Opening :=
  [.null, .bool true, .bool false, .text, .seq .list, .seq .tuple, .dict, .nothing, .just, .left,
    .right]

theorem mem_others (h : ∀ n, o ≠ .number n) : o ∈ others := by
  cases o with
  | number n => exact absurd rfl (h n)
  | bool b => cases b <;> decide
  | seq k => cases k <;> decide
  | _ => decide

/-- A number is not written as another opening is. -/
theorem numberWord_ne_word {n : Number} (hn : n.IsPlain) (h : ∀ m, o ≠ .number m) :
    numberWord n ≠ o.word := by
  have hletters : ∀ o ∈ others, o.word ∉ ["NaN", "Infinity", "-Infinity"] ∧
      (o.word = "" ∨ o.word.toList.all Binary64.isNumeral = false) := by decide
  obtain ⟨hnot, hletter⟩ := hletters o (mem_others h)
  intro heq
  obtain hword | ⟨hne, hnumeral⟩ := numberWord_word hn
  · exact hnot (heq ▸ hword)
  · obtain hempty | hnone := hletter
    · exact hne (heq.trans hempty)
    · rw [← heq] at hnone
      exact absurd (List.all_eq_true.2 hnumeral) (Bool.eq_false_iff.1 hnone)

/-- A word has no marks in it. -/
theorem isWordPart_word (hp : o.Proper) : ∀ c ∈ o.word.toList, isWordPart c = true := by
  have hall : ∀ s ∈ others.map word ++ ["NaN", "Infinity", "-Infinity"],
      s.toList.all isWordPart = true := by decide
  have hwords : ∀ s ∈ others.map word ++ ["NaN", "Infinity", "-Infinity"], ∀ c ∈ s.toList,
      isWordPart c = true := fun s hs => List.all_eq_true.1 (hall s hs)
  by_cases hnumber : ∃ n, o = .number n
  · obtain ⟨n, rfl⟩ := hnumber
    obtain hword | ⟨-, hnumeral⟩ := numberWord_word hp
    · exact hwords _ (List.mem_append_right _ hword)
    · exact fun c hc => isWordPart_of_isNumeral (hnumeral c hc)
  · have hother : o ∈ others := mem_others fun n h => hnumber ⟨n, h⟩
    exact hwords _ (List.mem_append_left _ (List.mem_map_of_mem hother))

/-- An opening has no mark, or a single opening character. -/
theorem mark_eq (o : Opening) : o.mark = [] ∨ ∃ c ∈ openers, o.mark = [c] := by
  cases o with
  | text => exact .inr ⟨'"', by decide, rfl⟩
  | seq k => cases k <;> exact .inr ⟨_, by decide, rfl⟩
  | dict => exact .inr ⟨_, by decide, rfl⟩
  | just | left | right => exact .inr ⟨'(', by decide, rfl⟩
  | null | bool | number | nothing => exact .inl rfl

/-- The word and the mark tell the beginning. -/
theorem eq_of_word (hp : o.Proper) (hp' : o'.Proper) (hword : o.word = o'.word)
    (hmark : o.mark = o'.mark) : o = o' := by
  have hothers : ∀ o ∈ others, ∀ o' ∈ others, o.word = o'.word → o.mark = o'.mark → o = o' := by
    decide
  by_cases hm : ∃ m, o = .number m <;> by_cases hn : ∃ n, o' = .number n
  · obtain ⟨m, rfl⟩ := hm
    obtain ⟨n, rfl⟩ := hn
    exact congrArg Opening.number (numberWord_injective hp hp' hword)
  · obtain ⟨m, rfl⟩ := hm
    exact absurd hword (numberWord_ne_word hp fun n h => hn ⟨n, h⟩)
  · obtain ⟨n, rfl⟩ := hn
    exact absurd hword.symm (numberWord_ne_word hp' fun m h => hm ⟨m, h⟩)
  · exact hothers o (mem_others fun m h => hm ⟨m, h⟩) o' (mem_others fun n h => hn ⟨n, h⟩) hword hmark

/-- An opening without a mark has a word. -/
theorem word_ne_empty (hp : o.Proper) (hmark : o.mark = []) : o.word ≠ "" := by
  cases o with
  | null | nothing => exact by decide
  | bool b => cases b <;> decide
  | number n =>
    obtain hword | ⟨hne, -⟩ := numberWord_word hp
    · intro hempty
      rw [show numberWord n = "" from hempty] at hword
      exact absurd hword (by decide)
    · exact hne
  | seq k => cases k <;> cases hmark
  | text | dict | just | left | right => cases hmark

/-- A text tells its beginning, and what follows: after a word that is all of a value there is
nothing but what surrounds the value. -/
theorem cancel (hp : o.Proper) (hp' : o'.Proper) {x y : List Char} (hx : o.mark = [] → Stops x)
    (hy : o'.mark = [] → Stops y)
    (h : o.word.toList ++ (o.mark ++ x) = o'.word.toList ++ (o'.mark ++ y)) : o = o' ∧ x = y := by
  have hbreak : ∀ {p : Opening} {z : List Char}, (p.mark = [] → Stops z) →
      ∀ c ∈ (p.mark ++ z).head?, isWordPart c = false := by
    intro p z hz c hc
    obtain hnone | ⟨d, hd, hmark⟩ := p.mark_eq
    · rw [hnone] at hc
      exact isWordPart_stop (hz hnone c hc)
    · rw [hmark] at hc
      cases hc
      exact isWordPart_opener hd
  obtain ⟨hword, hrest⟩ := Text.cancel_word (isWordPart_word hp) (isWordPart_word hp') (hbreak hx)
    (hbreak hy) h
  have hsame : o = o' → o = o' ∧ x = y := by
    rintro rfl
    exact ⟨rfl, List.append_cancel_left hrest⟩
  have heq : o.mark = o'.mark → o = o' := eq_of_word hp hp' (String.toList_inj.1 hword)
  obtain hnone | ⟨c, hc, hmark⟩ := o.mark_eq <;> obtain hnone' | ⟨d, hd, hmark'⟩ := o'.mark_eq
  · exact hsame (heq (hnone.trans hnone'.symm))
  · rw [hnone, hmark', List.nil_append] at hrest
    exact absurd (hx hnone d (by rw [hrest]; rfl)) (not_mem_stops hd)
  · rw [hnone', hmark, List.nil_append] at hrest
    exact absurd (hy hnone' c (by rw [← hrest]; rfl)) (not_mem_stops hc)
  · rw [hmark, hmark'] at hrest
    have hfirst := (List.cons.inj hrest).1
    exact hsame (heq (by rw [hmark, hmark', hfirst]))

end Opening

end Value

end CheckedCalls
