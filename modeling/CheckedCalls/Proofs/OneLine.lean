import CheckedCalls.Proofs.Binding
import CheckedCalls.Proofs.Conclusion
import CheckedCalls.Proofs.Printing
import Mathlib.Tactic.SplitIfs

/-!
# Texts without line breaks

The library prints a value of its own on one line, whatever strings the value holds: every way to
write a text between quotes escapes line breaks, and all else that is printed are digits, signs and
names. Names that a program gives are not escaped, so nothing can be said of a class but by its name
(`Value.isInline`). As long as no object has a text of its own, what is answered for the text of
such a value is one line (`Value.concludes_line`).
-/

namespace CheckedCalls

namespace Text

/-- The text has no line break. -/
def IsLine (s : String) : Prop := '\n' ∉ s.toList

instance : DecidablePred IsLine := fun s => inferInstanceAs (Decidable ('\n' ∉ s.toList))

/-! ## Putting texts together -/

@[simp] theorem isLine_append {s t : String} : IsLine (s ++ t) ↔ IsLine s ∧ IsLine t := by
  simp [IsLine, not_or]

theorem isLine_ofList {cs : List Char} : IsLine (String.ofList cs) ↔ '\n' ∉ cs := by
  rw [IsLine, String.toList_ofList]

theorem IsLine.append {s t : String} (hs : IsLine s) (ht : IsLine t) : IsLine (s ++ t) :=
  isLine_append.2 ⟨hs, ht⟩

/-- Nothing but the separator and the parts stands in an intercalation. -/
theorem not_mem_intercalate {α : Type} {a : α} {separator : List α} {parts : List (List α)}
    (hseparator : a ∉ separator) (hparts : ∀ part ∈ parts, a ∉ part) :
    a ∉ separator.intercalate parts := by
  induction parts with
  | nil => simp
  | cons part parts ih =>
    rw [List.forall_mem_cons] at hparts
    cases parts with
    | nil => simpa using hparts.1
    | cons next rest =>
      rw [List.intercalate_cons_cons, List.mem_append, List.mem_append, not_or, not_or]
      exact ⟨⟨hparts.1, hseparator⟩, ih hparts.2⟩

/-- Texts of one line each, joined with a separator of one line, make up one line. -/
theorem IsLine.intercalate {separator : String} {parts : List String}
    (hseparator : IsLine separator) (hparts : ∀ part ∈ parts, IsLine part) :
    IsLine (separator.intercalate parts) := by
  rw [IsLine, String.toList_intercalate]
  refine not_mem_intercalate hseparator fun part hpart => ?_
  obtain ⟨s, hs, rfl⟩ := List.mem_map.1 hpart
  exact hparts s hs

/-- A choice between two texts of one line is a text of one line. -/
theorem isLine_ite {p : Prop} [Decidable p] {s t : String} (hs : IsLine s) (ht : IsLine t) :
    IsLine (if p then s else t) := by
  split
  · exact hs
  · exact ht

/-! ## Digits -/

/-- The digits of a number in some base are those of the numbers below the base. -/
theorem exists_digit_of_mem_toDigits {base n : Nat} {c : Char} (hbase : 0 < base)
    (hc : c ∈ Nat.toDigits base n) : ∃ d < base, c = d.digitChar := by
  have hcore : ∀ fuel n ds, (∀ c ∈ ds, ∃ d < base, c = Nat.digitChar d) →
      ∀ c ∈ Nat.toDigitsCore base fuel n ds, ∃ d < base, c = Nat.digitChar d := by
    intro fuel
    induction fuel with
    | zero => exact fun _ _ hds => hds
    | succ fuel ih =>
      intro n ds hds
      have hcons : ∀ c ∈ (n % base).digitChar :: ds, ∃ d < base, c = Nat.digitChar d :=
        List.forall_mem_cons.2 ⟨⟨_, Nat.mod_lt n hbase, rfl⟩, hds⟩
      rw [Nat.toDigitsCore]
      split
      · exact hcons
      · exact ih _ _ hcons
  exact hcore _ _ [] (by simp) c hc

/-- The digits of a number to a base up to sixteen hold no line break. -/
theorem not_mem_toDigits {base : Nat} (hpos : 0 < base) (hbase : base ≤ 16) (n : Nat) :
    '\n' ∉ Nat.toDigits base n := by
  have hdigits : ∀ d < 16, '\n' ≠ Nat.digitChar d := by decide
  intro hmem
  obtain ⟨d, hd, hbreak⟩ := exists_digit_of_mem_toDigits hpos hmem
  exact hdigits d (Nat.lt_of_lt_of_le hd hbase) hbreak

theorem not_mem_zeros (n : Nat) : '\n' ∉ List.replicate n '0' := by
  rw [List.mem_replicate]
  exact fun h => absurd h.2 (by decide)

theorem isLine_toString (n : Nat) : IsLine (toString n) := by
  rw [IsLine, show toString n = n.repr from rfl, Nat.toList_repr]
  exact not_mem_toDigits (by decide) (by decide) n

/-- An integer is written in one line. -/
theorem isLine_toString_int (n : Int) : IsLine (toString n) := by
  cases n with
  | ofNat n => exact isLine_toString n
  | negSucc n => exact .append (s := "-") (by decide) (isLine_toString (n + 1))

/-! ## Quotes -/

theorem not_mem_hex (width n : Nat) : '\n' ∉ hex width n := by
  rw [hex, List.mem_append, not_or]
  exact ⟨not_mem_zeros _, not_mem_toDigits (by decide) (by decide) n⟩

/-- The escape of a character by its code. -/
theorem not_mem_escape {mark : Char} (hmark : mark ≠ '\n') (width n : Nat) :
    '\n' ∉ '\\' :: mark :: hex width n := by
  simp [hmark.symm, not_mem_hex]

/-- What stands between quotes is free of line breaks, if each character is written so. -/
theorem not_mem_between {α : Type} {f : α → List Char} {quote : Char} {as : List α}
    (hquote : quote ≠ '\n') (h : ∀ a, '\n' ∉ f a) : '\n' ∉ quote :: as.flatMap f ++ [quote] := by
  simp [hquote.symm, h]

/-- A text put between double quotes stays in one line, with its line breaks escaped. -/
theorem isLine_quoted (s : String) : IsLine (quoted s) := by
  refine isLine_ofList.2 (not_mem_between (by decide) fun c => ?_)
  unfold quotedChar
  split_ifs with _ _ hbreak
  any_goals decide
  · exact not_mem_escape (by decide) 4 _
  · simpa using Ne.symm hbreak

theorem literalQuote_ne (cs : List Char) : literalQuote cs ≠ '\n' := by
  rw [literalQuote]
  split <;> decide

/-- The characters of the literal of a text are escaped, so that none of them breaks the line. -/
theorem not_mem_literalChars (s : String) : '\n' ∉ literalChars s := by
  have hquote := literalQuote_ne s.toList
  refine not_mem_between hquote fun c => ?_
  unfold literalChar
  split_ifs with hc _ hbreak
  any_goals decide
  · simpa [hc] using hquote.symm
  · simpa using Ne.symm hbreak
  all_goals exact not_mem_escape (by decide) _ _

theorem isLine_literal (s : String) : IsLine (literal s) := isLine_ofList.2 (not_mem_literalChars s)

/-- The literal of a string of bytes is one line. -/
theorem isLine_bytesLiteral (bs : List UInt8) : IsLine (bytesLiteral bs) := by
  have hquote := literalQuote_ne (bs.map fun b => Char.ofNat b.toNat)
  have hbyte : ∀ b, '\n' ∉ literalByte (literalQuote (bs.map fun b => Char.ofNat b.toNat)) b := by
    intro b
    unfold literalByte
    dsimp only
    split_ifs with hc _ hbreak
    any_goals decide
    · simpa [hc] using hquote.symm
    · simpa using Ne.symm hbreak
    · exact not_mem_escape (by decide) _ _
  refine isLine_ofList.2 ?_
  rw [List.cons_append, List.mem_cons, not_or]
  exact ⟨by decide, not_mem_between hquote hbyte⟩

/-! ## Identifiers -/

/-- A line break cannot stand in an identifier. -/
theorem isLine_of_isIdentifier {s : String} (h : isIdentifier s = true) : IsLine s := by
  have hbreak : isIdentifierPart '\n' = false := by decide +kernel
  have hstart : isIdentifierStart '\n' = false := by decide +kernel
  rw [isIdentifier] at h
  rw [IsLine]
  split at h
  · cases h
  · rename_i c cs heq
    rw [Bool.and_eq_true, List.all_eq_true] at h
    rw [heq, List.mem_cons, not_or]
    refine ⟨?_, fun hmem => ?_⟩
    · rintro rfl
      rw [hstart] at h
      cases h.1
    · have hpart := h.2 _ hmem
      rw [hbreak] at hpart
      cases hpart

end Text

open Text

/-! ## Numbers and dates -/

namespace Decimal

/-- The significant digits of a decimal hold no line break. -/
theorem not_mem_significant (d : Decimal) : '\n' ∉ d.significant.1 := by
  intro h
  have hkept := List.mem_reverse.1 h
  exact not_mem_toDigits (by decide) (by decide) d.digits
    (List.mem_reverse.1 (List.dropWhile_subset _ hkept))

/-- Digits laid out with a point at its place hold no line break. -/
theorem not_mem_positional {digits : List Char} (h : '\n' ∉ digits) (keepZero : Bool)
    (place : Int) : '\n' ∉ positional keepZero digits place := by
  have htake : '\n' ∉ digits.take place.toNat := fun hmem => h (List.take_subset _ _ hmem)
  have hdrop : '\n' ∉ digits.drop place.toNat := fun hmem => h (List.drop_subset _ _ hmem)
  rw [positional]
  split_ifs <;> simp [h, htake, hdrop]

/-- Digits laid out with an exponent hold no line break. -/
theorem not_mem_scientific {digits : List Char} (h : '\n' ∉ digits) (place : Int) :
    '\n' ∉ scientific digits place := by
  have hsize : '\n' ∉ Nat.toDigits 10 (place - 1).natAbs :=
    not_mem_toDigits (by decide) (by decide) _
  unfold scientific
  dsimp only
  split <;> split_ifs <;> simp_all

/-- A decimal is laid out in one line. -/
theorem isLine_layout (keepZero : Bool) (d : Decimal) : IsLine (d.layout keepZero) := by
  have h := not_mem_significant d
  rw [layout]
  refine isLine_ofList.2 ?_
  split
  · exact not_mem_positional h keepZero _
  · exact not_mem_scientific h _

end Decimal

namespace Binary64

/-- A double is rendered in one line. -/
theorem isLine_render (keepZero : Bool) (x : Binary64) : IsLine (x.render keepZero) := by
  cases x with
  | nan => simp [render, IsLine]
  | inf s => exact isLine_ite (by simp [IsLine]) (by simp [IsLine])
  | finite s u =>
    refine .append (isLine_ite (by simp [IsLine]) (by simp [IsLine])) ?_
    exact isLine_ite (isLine_ite (by simp [IsLine]) (by simp [IsLine])) (Decimal.isLine_layout _ _)

/-- A complex number is written in one line. -/
theorem isLine_complexLiteral (re im : Binary64) : IsLine (complexLiteral re im) := by
  have hre := isLine_render false re
  have him := isLine_render false im
  have hsign : IsLine (if im.isSigned then "" else "+") :=
    isLine_ite (by simp [IsLine]) (by simp [IsLine])
  rw [complexLiteral]
  refine isLine_ite (him.append (by simp [IsLine])) ?_
  simp only [isLine_append]
  exact ⟨⟨⟨⟨by simp [IsLine], hre⟩, hsign⟩, him⟩, by simp [IsLine]⟩

end Binary64

namespace Number

theorem isLine_numeral {n : Int} {s : String} (h : numeral? n = some s) : IsLine s := by
  rw [numeral?, Option.ite_none_right_eq_some] at h
  exact Option.some.inj h.2 ▸ isLine_toString_int n

/-- The literal text of a number, if it has one, is one line. -/
theorem isLine_literal {n : Number} {s : String} (h : n.literal? = some s) : IsLine s := by
  cases n with
  | int n => exact isLine_numeral h
  | float x => exact Option.some.inj h ▸ x.isLine_render true
  | fraction q =>
    obtain ⟨num, hnum, h⟩ := Option.bind_eq_some_iff.1 h
    obtain ⟨den, hden, h⟩ := Option.bind_eq_some_iff.1 h
    cases h
    simp only [isLine_append]
    exact ⟨⟨⟨⟨by simp [IsLine], isLine_numeral hnum⟩, by simp [IsLine]⟩, isLine_numeral hden⟩,
      by simp [IsLine]⟩

/-- The canonical text of a number, if it has one, is one line. -/
theorem isLine_numberText {n : Number} {s : String} (h : Value.numberText? n = some s) :
    IsLine s := by
  unfold Value.numberText? at h
  split at h
  · cases h
    simp [IsLine]
  · cases h
    exact isLine_ite (by simp [IsLine]) (by simp [IsLine])
  · exact isLine_literal h

end Number

/-- A date is written in one line. -/
theorem Date.isLine_literal (d : Date) : IsLine d.literal := by
  unfold literal
  simp only [isLine_append]
  exact ⟨⟨⟨⟨⟨⟨by simp [IsLine], isLine_toString _⟩, by simp [IsLine]⟩, isLine_toString _⟩,
    by simp [IsLine]⟩, isLine_toString _⟩, by simp [IsLine]⟩

namespace Moment

/-- The offset of a moment from UTC is written in one line. -/
theorem isLine_offsetLiteral (minutes : Int) : IsLine (offsetLiteral minutes) := by
  rw [offsetLiteral]
  refine isLine_ite (by simp [IsLine]) ?_
  simp only [isLine_append]
  have hpart : ∀ (unit : String) (n : Int), IsLine unit →
      IsLine (if n = 0 then "" else unit ++ toString n) := fun unit n hunit =>
    isLine_ite (by simp [IsLine]) (hunit.append (isLine_toString_int n))
  exact ⟨⟨⟨⟨by simp [IsLine], hpart _ _ (by simp [IsLine])⟩,
    isLine_ite (by simp [IsLine]) (by simp [IsLine])⟩, hpart _ _ (by simp [IsLine])⟩,
    by simp [IsLine]⟩

/-- A moment is written in one line. -/
theorem isLine_literal (m : Moment) : IsLine m.literal := by
  unfold literal
  simp only [isLine_append]
  refine ⟨⟨⟨by simp [IsLine], .intercalate (by simp [IsLine]) fun part hpart => ?_⟩, ?_⟩,
    by simp [IsLine]⟩
  · obtain ⟨n, -, rfl⟩ := List.mem_map.1 hpart
    exact isLine_toString n
  · cases m.offset with
    | none => simp [IsLine]
    | some o => exact .append (by simp [IsLine]) (isLine_offsetLiteral o)

end Moment

/-! ## Names -/

/-- The name under which a function is shown is one line. -/
theorem Func.isLine_name (f : Func) : IsLine f.name := by
  fun_induction Func.name f with
  | case1 p => cases p <;> simp [Primitive.name, IsLine]
  | case12 _ _ m | case13 _ m => cases m <;> simp [Method.name, Method.bareName, IsLine]
  | case14 _ _ _ ih => exact ih
  | _ => simp [IsLine]

/-- The name of a builtin class is one line. -/
theorem Builtin.isLine_name (b : Builtin) : IsLine b.name := by
  cases b with
  | error k => cases k <;> simp [name, ErrorKind.name, IsLine]
  | _ => simp [name, IsLine]

/-! ## Values -/

mutual

/-- The value is no instance of a declared class, and the classes in it have names without line
breaks. -/
def Value.isInline : Value → Bool
  | .type r => decide (IsLine r.name)
  | .object _ _ _ => false
  | .seq _ _ xs => Value.areInline xs
  | .dict _ es => Value.areInlineEntries es
  | .just _ v | .left _ v | .right _ v | .identity _ v => Value.isInline v
  | _ => true

/-- All the values are of that kind. -/
def Value.areInline : List Value → Bool
  | [] => true
  | x :: xs => Value.isInline x && Value.areInline xs

/-- All the keys and values are of that kind. -/
def Value.areInlineEntries : List (Value × Value) → Bool
  | [] => true
  | (k, v) :: es => Value.isInline k && Value.isInline v && Value.areInlineEntries es

end

namespace TypeRep

/-- The library's classes have their place in front of their names. -/
theorem isLine_literal {r : TypeRep} (h : IsLine r.name) : IsLine r.literal := by
  unfold literal
  split
  · simp only [isLine_append]
    refine ⟨⟨⟨by simp [IsLine], ?_⟩, Builtin.isLine_name _⟩, by simp [IsLine]⟩
    split <;> simp [IsLine]
  all_goals
    simp only [isLine_append]
    exact ⟨⟨by simp [IsLine], h⟩, by simp [IsLine]⟩

end TypeRep

namespace Value

theorem areInline_iff {xs : List Value} : areInline xs = true ↔ ∀ x ∈ xs, x.isInline = true := by
  induction xs with
  | nil => simp [areInline]
  | cons x xs ih => simp [areInline, ih]

/-- The entries of a dict are inline exactly if every key and every value is. -/
theorem areInlineEntries_iff {es : List (Value × Value)} : areInlineEntries es = true ↔
    ∀ e ∈ es, e.1.isInline = true ∧ e.2.isInline = true := by
  induction es with
  | nil => simp [areInlineEntries]
  | cons e es ih => simp [areInlineEntries, ih]

theorem isLine_applied {head argument : String} (hhead : IsLine head)
    (hargument : IsLine argument) : IsLine (applied head argument) := by
  simp only [applied, isLine_append]
  exact ⟨⟨⟨hhead, by simp [IsLine]⟩, hargument⟩, by simp [IsLine]⟩

/-- The items of a sequence, each of one line, are written between brackets in one line. -/
theorem isLine_bracketed (k : SeqKind) {items : List String} (h : ∀ item ∈ items, IsLine item) :
    IsLine (bracketed k items) := by
  have hlist : IsLine (", ".intercalate items) := .intercalate (by simp [IsLine]) h
  unfold bracketed
  split
  · exact (isLine_append.2 ⟨by simp [IsLine], hlist⟩).append (by simp [IsLine])
  · exact (isLine_append.2 ⟨by simp [IsLine], h _ List.mem_cons_self⟩).append (by simp [IsLine])
  · exact (isLine_append.2 ⟨by simp [IsLine], hlist⟩).append (by simp [IsLine])

/-- The entries of a dict, each of one line, are written between braces in one line. -/
theorem isLine_braced {entries : List (String × String)}
    (h : ∀ e ∈ entries, IsLine e.1 ∧ IsLine e.2) : IsLine (braced entries) := by
  simp only [braced, isLine_append]
  refine ⟨⟨by simp [IsLine], .intercalate (by simp [IsLine]) fun part hpart => ?_⟩,
    by simp [IsLine]⟩
  obtain ⟨e, he, rfl⟩ := List.mem_map.1 hpart
  exact ((h e he).1.append (by simp [IsLine])).append (h e he).2

theorem isLine_patternLiteral (s : String) : IsLine (patternLiteral s) := by
  refine isLine_applied (by simp [IsLine]) (isLine_ofList.2 fun hmem => ?_)
  exact not_mem_literalChars s (List.take_subset _ _ hmem)

theorem isLine_boolText (b : Bool) : IsLine (boolText b) :=
  isLine_ite (by simp [IsLine]) (by simp [IsLine])

theorem isLine_function (f : Func) : IsLine ("<function " ++ f.name ++ ">") := by
  simp only [isLine_append]
  exact ⟨⟨by simp [IsLine], f.isLine_name⟩, by simp [IsLine]⟩

theorem isLine_error (k : ErrorKind) (message : String) :
    IsLine (applied k.name (Text.literal message)) :=
  isLine_applied (Builtin.isLine_name (.error k)) (Text.isLine_literal message)

/-- The name of the type of a value that no other type contains. -/
theorem isLine_nominalName {v : Value} (h : v.isInline = true) : IsLine v.nominalName := by
  have hplain : ∀ b : Builtin, v.typeRep = .builtin b → b.base? = none → IsLine v.nominalName := by
    intro b hb hbase
    rw [nominalName_of_typeRep hb hbase]
    exact b.isLine_name
  cases v with
  | object => cases h
  -- the classes with an identifier are those of the sum types and of the identity functor
  | nothing | just => exact show IsLine "Maybe" by simp [IsLine]
  | left | right => exact show IsLine "Either" by simp [IsLine]
  | identity => exact show IsLine "Identity" by simp [IsLine]
  | number t n => cases n <;> exact hplain _ rfl rfl
  | seq k => cases k <;> exact hplain _ rfl rfl
  | type r =>
    refine hplain r.metaclass rfl ?_
    rw [TypeRep.metaclass]
    split <;> rfl
  | error t k => exact hplain (.error k) rfl rfl
  | _ => exact hplain _ rfl rfl

variable {call : Apply} {v : Value} {r : Run String}

/-! ## Texts of values -/

section Texts

variable {α β : Type} {I : World → Prop} {E : Fault → Prop}

/-- What is put together from an answer has the property that the parts pass on. -/
theorem concludes_map {r : Run α} {P : α → Prop} {Q : β → Prop} (f : α → β)
    (hr : Run.Concludes I E r P) (hf : ∀ a, P a → Q (f a)) :
    Run.Concludes I E (do return f (← r)) Q :=
  Run.concludes_bind hr fun a ha => Run.concludes_pure (hf a ha)

/-- A text that may be missing, and is one line where it is not, is written in one line or not at
all. -/
theorem concludes_written {text : Option String} (h : ∀ s, text = some s → IsLine s) :
    Run.Concludes I (fun _ => True) (written text) IsLine := by
  cases text with
  | none => exact Run.concludes_throw trivial
  | some s => exact Run.concludes_pure (h s rfl)

end Texts

/-- Nothing is answered in place of the text of such a value. -/
theorem concludes_answeredText? (call : Apply) (hv : v.isInline = true) :
    Run.Concludes World.Untitled (fun _ => True) (answeredText? call v) (· = none) := by
  refine Run.concludes_of_answers fun w hw => ⟨none, ?_, rfl⟩
  cases v with
  | object => cases hv
  | func t f => exact answers_answeredText? hw rfl
  | error t k m => exact answers_answeredText? hw rfl
  | _ => rfl

/-- A value that may bring its own text is written in one line if the way it is written else is. -/
theorem concludes_answeredOr (hv : v.isInline = true)
    (hr : Run.Concludes World.Untitled (fun _ => True) r IsLine) :
    Run.Concludes World.Untitled (fun _ => True) (answeredOr call v r) IsLine := by
  refine Run.concludes_bind (concludes_answeredText? call hv) ?_
  rintro _ rfl
  exact hr

/-- The elements of a list are joined into one line if the way the list is written else is one
line. -/
theorem concludes_joined (hv : v.isInline = true)
    (hr : Run.Concludes World.Untitled (fun _ => True) r IsLine) :
    Run.Concludes World.Untitled (fun _ => True) (joined call v r) IsLine := by
  refine Run.concludes_bind (concludes_answeredText? call hv) ?_
  rintro _ rfl
  exact hr

mutual

/-- What is answered for the canonical text of such a value stands on one line. -/
theorem concludes_line (call : Apply) : ∀ {v : Value}, v.isInline = true →
    Run.Concludes World.Untitled (fun _ => True) (toText call v) IsLine
  | .seq k _ xs, hv => concludes_map (bracketed k)
      (concludes_lines call _ (show areInline xs = true from hv)) fun _ => isLine_bracketed k
  | .dict _ es, hv => concludes_map braced
      (concludes_lineEntries call (show areInlineEntries es = true from hv)) fun _ => isLine_braced
  | .just _ v, hv => concludes_map (applied "Just") (concludes_line call (v := v) hv)
      fun _ => isLine_applied (by simp [IsLine])
  | .left _ v, hv => concludes_map (applied "Left") (concludes_line call (v := v) hv)
      fun _ => isLine_applied (by simp [IsLine])
  | .right _ v, hv => concludes_map (applied "Right") (concludes_line call (v := v) hv)
      fun _ => isLine_applied (by simp [IsLine])
  | .identity _ v, hv => concludes_map (fun s => applied "Identity" ("value=" ++ s))
      (concludes_literalLine call (v := v) hv)
      fun _ hs => isLine_applied (by simp [IsLine]) (.append (by simp [IsLine]) hs)
  | .func _ f, _ => concludes_answeredOr rfl (Run.concludes_pure (isLine_function f))
  | .error _ k m, _ => concludes_answeredOr rfl (Run.concludes_pure (isLine_error k m))
  | .number _ _, _ => concludes_written fun _ => Number.isLine_numberText
  | .null, _ => Run.concludes_pure (by simp [IsLine])
  | .bool b, _ => Run.concludes_pure (isLine_boolText b)
  | .complex _ re im, _ => Run.concludes_pure (Binary64.isLine_complexLiteral re im)
  | .text _ s, _ => Run.concludes_pure (isLine_quoted s)
  | .bytes _ bs, _ => Run.concludes_pure (isLine_bytesLiteral bs)
  | .date _ d, _ => Run.concludes_pure d.isLine_literal
  | .moment _ m, _ => Run.concludes_pure m.isLine_literal
  | .pattern s, _ => Run.concludes_pure (isLine_patternLiteral s)
  | .plain _, _ => Run.concludes_pure (by simp [IsLine])
  | .nothing, _ => Run.concludes_pure (by simp [IsLine])
  | .type _, hv => Run.concludes_pure (of_decide_eq_true hv)

/-- What is answered for the canonical texts of such values stands on one line each. -/
theorem concludes_lines (call : Apply) (join : Bool) : ∀ {xs : List Value}, areInline xs = true →
    Run.Concludes World.Untitled (fun _ => True) (toTexts call join xs) fun ss => ∀ s ∈ ss, IsLine s
  | [], _ => Run.concludes_pure (by simp)
  | x :: xs, hxs => by
    rw [areInline, Bool.and_eq_true] at hxs
    have hfirst := concludes_line call hxs.1
    have hrest := concludes_lines call join hxs.2
    have hcons : ∀ s, IsLine s → Run.Concludes World.Untitled (fun _ => True)
        (do return s :: (← toTexts call join xs)) fun ss => ∀ s ∈ ss, IsLine s :=
      fun s hs => concludes_map (s :: ·) hrest fun _ hss => List.forall_mem_cons.2 ⟨hs, hss⟩
    cases join with
    | true => exact Run.concludes_bind (concludes_joined hxs.1 hfirst) hcons
    | false => exact Run.concludes_bind hfirst hcons

/-- What is answered for the canonical texts of such keys and values stands on one line each. -/
theorem concludes_lineEntries (call : Apply) : ∀ {es : List (Value × Value)},
    areInlineEntries es = true → Run.Concludes World.Untitled (fun _ => True)
      (toTextEntries call es) fun ss => ∀ e ∈ ss, IsLine e.1 ∧ IsLine e.2
  | [], _ => Run.concludes_pure (by simp)
  | (k, v) :: es, hes => by
    rw [areInlineEntries, Bool.and_eq_true, Bool.and_eq_true] at hes
    refine Run.concludes_bind (concludes_line call hes.1.1) fun key hkey => ?_
    refine Run.concludes_bind (concludes_line call hes.1.2) fun value hvalue => ?_
    exact concludes_map ((key, value) :: ·) (concludes_lineEntries call hes.2)
      fun _ hss => List.forall_mem_cons.2 ⟨⟨hkey, hvalue⟩, hss⟩

/-- What is answered for the literal text of such a value stands on one line. -/
theorem concludes_literalLine (call : Apply) : ∀ {v : Value}, v.isInline = true →
    Run.Concludes World.Untitled (fun _ => True) (literal call v) IsLine
  | .seq k _ xs, hv => concludes_map (bracketed k)
      (concludes_literalLines call (show areInline xs = true from hv)) fun _ => isLine_bracketed k
  | .dict _ es, hv => concludes_map braced
      (concludes_literalLineEntries call (show areInlineEntries es = true from hv))
      fun _ => isLine_braced
  | .just _ v, hv => concludes_map (applied "Just") (concludes_line call (v := v) hv)
      fun _ => isLine_applied (by simp [IsLine])
  | .left _ v, hv => concludes_map (applied "Left") (concludes_line call (v := v) hv)
      fun _ => isLine_applied (by simp [IsLine])
  | .right _ v, hv => concludes_map (applied "Right") (concludes_line call (v := v) hv)
      fun _ => isLine_applied (by simp [IsLine])
  | .identity _ v, hv => concludes_map (fun s => applied "Identity" ("value=" ++ s))
      (concludes_literalLine call (v := v) hv)
      fun _ hs => isLine_applied (by simp [IsLine]) (.append (by simp [IsLine]) hs)
  | .func _ f, _ => Run.concludes_pure (isLine_function f)
  | .error _ k m, _ => Run.concludes_pure (isLine_error k m)
  | .number _ _, _ => concludes_written fun _ => Number.isLine_literal
  | .null, _ => Run.concludes_pure (by simp [IsLine])
  | .bool b, _ => Run.concludes_pure (isLine_boolText b)
  | .complex _ re im, _ => Run.concludes_pure (Binary64.isLine_complexLiteral re im)
  | .text _ s, _ => Run.concludes_pure (Text.isLine_literal s)
  | .bytes _ bs, _ => Run.concludes_pure (isLine_bytesLiteral bs)
  | .date _ d, _ => Run.concludes_pure d.isLine_literal
  | .moment _ m, _ => Run.concludes_pure m.isLine_literal
  | .pattern s, _ => Run.concludes_pure (isLine_patternLiteral s)
  | .plain _, _ => Run.concludes_pure (by simp [IsLine])
  | .nothing, _ => Run.concludes_pure (by simp [IsLine])
  | .type _, hv => Run.concludes_pure (TypeRep.isLine_literal (of_decide_eq_true hv))

/-- What is answered for the literal texts of such values stands on one line each. -/
theorem concludes_literalLines (call : Apply) : ∀ {xs : List Value}, areInline xs = true →
    Run.Concludes World.Untitled (fun _ => True) (literals call xs) fun ss => ∀ s ∈ ss, IsLine s
  | [], _ => Run.concludes_pure (by simp)
  | x :: xs, hxs => by
    rw [areInline, Bool.and_eq_true] at hxs
    refine Run.concludes_bind (concludes_literalLine call hxs.1) fun s hs => ?_
    exact concludes_map (s :: ·) (concludes_literalLines call hxs.2)
      fun _ hss => List.forall_mem_cons.2 ⟨hs, hss⟩

/-- What is answered for the literal texts of such keys and values stands on one line each. -/
theorem concludes_literalLineEntries (call : Apply) : ∀ {es : List (Value × Value)},
    areInlineEntries es = true → Run.Concludes World.Untitled (fun _ => True)
      (literalEntries call es) fun ss => ∀ e ∈ ss, IsLine e.1 ∧ IsLine e.2
  | [], _ => Run.concludes_pure (by simp)
  | (k, v) :: es, hes => by
    rw [areInlineEntries, Bool.and_eq_true, Bool.and_eq_true] at hes
    refine Run.concludes_bind (concludes_literalLine call hes.1.1) fun key hkey => ?_
    refine Run.concludes_bind (concludes_literalLine call hes.1.2) fun value hvalue => ?_
    exact concludes_map ((key, value) :: ·) (concludes_literalLineEntries call hes.2)
      fun _ hss => List.forall_mem_cons.2 ⟨⟨hkey, hvalue⟩, hss⟩

end

end Value

end CheckedCalls
