import CheckedCalls.Proofs.Outcome
import CheckedCalls.Value.Printer

/-!
# Texts of native values

A value that holds no instance of a declared class is native. As long as no object was given a text
of its own, native values are printed without a call, and nothing is left behind. A text is answered
unless an integer in the value is too long to be written (`Value.isWritten`): then there is no text,
and that is the only cause (`Value.fares_toText`, `Value.fares_literal`).
-/

namespace CheckedCalls

/-- No object was given a text of its own. -/
def World.Untitled (w : World) : Prop := ∀ t, w.assigned? t .text = none

theorem World.untitled_initial : World.initial.Untitled := by
  intro t
  cases t <;> rfl

mutual

/-- The value is no instance of a class made while the program runs, and holds none. -/
def Value.isNative : Value → Bool
  | .object _ _ _ => false
  | .seq _ _ xs => Value.areNative xs
  | .dict _ es => Value.areNativeEntries es
  | .just _ v | .left _ v | .right _ v | .identity _ v => Value.isNative v
  | _ => true

/-- All the values are native. -/
def Value.areNative : List Value → Bool
  | [] => true
  | x :: xs => Value.isNative x && Value.areNative xs

/-- All the keys and values are native. -/
def Value.areNativeEntries : List (Value × Value) → Bool
  | [] => true
  | (k, v) :: es => Value.isNative k && Value.isNative v && Value.areNativeEntries es

end

mutual

/-- Each number that a native value holds has a text. -/
def Value.isWritten : Value → Bool
  | .number _ n => n.literal?.isSome
  | .seq _ _ xs => Value.areWritten xs
  | .dict _ es => Value.areWrittenEntries es
  | .just _ v | .left _ v | .right _ v | .identity _ v => Value.isWritten v
  | _ => true

/-- Each number that one of the values holds has a text. -/
def Value.areWritten : List Value → Bool
  | [] => true
  | x :: xs => Value.isWritten x && Value.areWritten xs

/-- Each number that one of the keys and values holds has a text. -/
def Value.areWrittenEntries : List (Value × Value) → Bool
  | [] => true
  | (k, v) :: es => Value.isWritten k && Value.isWritten v && Value.areWrittenEntries es

end

/-- The cause for which a value is not written, if it is not. -/
def unwritten? (isWritten : Bool) : Option Fault := if isWritten then none else some .badValue

theorem unwritten?_and (a b : Bool) : unwritten? (a && b) = (unwritten? a).or (unwritten? b) := by
  cases a <;> rfl

namespace Value

/-- All of the values are native just if each of them is. -/
theorem areNative_iff {xs : List Value} : areNative xs = true ↔ ∀ x ∈ xs, x.isNative = true := by
  induction xs with
  | nil => simp [areNative]
  | cons x xs ih => simp [areNative, ih]

variable {call : Apply} {w : World}

/-- No text is answered in place of that of a native value. -/
theorem answers_answeredText? (hw : w.Untitled) {v : Value} (hv : v.isNative = true) :
    (answeredText? call v).Answers w none := by
  cases v with
  | object => cases hv
  | func t f | error t k m =>
    unfold answeredText?
    rw [Run.answers_get_bind_iff]
    simp only [tag, hw t]
    rfl
  | _ => rfl

/-- What may be answered in place of the text of a native value is not. -/
theorem fares_answeredOr (hw : w.Untitled) {v : Value} (hv : v.isNative = true) {r : Run String}
    {c : Option Fault} (hr : r.Fares w c) : (answeredOr call v r).Fares w c := by
  have hnone : (answeredText? call v).Fares w none := ⟨none, answers_answeredText? hw hv⟩
  refine hnone.bind fun answer hanswer => ?_
  cases hanswer.unique (answers_answeredText? hw hv)
  exact hr

/-- Nothing is joined in place of the text of a native value. -/
theorem fares_joined (hw : w.Untitled) {v : Value} (hv : v.isNative = true) {r : Run String}
    {c : Option Fault} (hr : r.Fares w c) : (joined call v r).Fares w c := by
  have hnone : (answeredText? call v).Fares w none := ⟨none, answers_answeredText? hw hv⟩
  refine hnone.bind fun answer hanswer => ?_
  cases hanswer.unique (answers_answeredText? hw hv)
  exact hr

theorem fares_written (w : World) (text : Option String) :
    (written text).Fares w (unwritten? text.isSome) := by
  cases text with
  | none => rfl
  | some s => exact ⟨s, rfl⟩

/-- The two texts of a number are answered alike. -/
theorem isSome_numberText? (n : Number) : (numberText? n).isSome = n.literal?.isSome := by
  unfold numberText?
  split <;> rfl

mutual

/-- A native value has a canonical text, unless it is not written. -/
theorem fares_toText (call : Apply) (hw : w.Untitled) : ∀ {v : Value}, v.isNative = true →
    (toText call v).Fares w (unwritten? v.isWritten)
  | .number _ n, _ => by
    rw [toText, isWritten, ← isSome_numberText?]
    exact fares_written w _
  | .seq k _ xs, hv =>
    (fares_toTexts call hw _ (show areNative xs = true from hv)).map (bracketed k)
  | .dict _ es, hv =>
    (fares_toTextEntries call hw (show areNativeEntries es = true from hv)).map braced
  | .just _ v, hv => (fares_toText call hw (v := v) hv).map (applied "Just")
  | .left _ v, hv => (fares_toText call hw (v := v) hv).map (applied "Left")
  | .right _ v, hv => (fares_toText call hw (v := v) hv).map (applied "Right")
  | .identity _ v, hv =>
    (fares_literal call hw (v := v) hv).map fun s => applied "Identity" ("value=" ++ s)
  | .func _ _, hv | .error _ _ _, hv => fares_answeredOr hw hv (c := none) ⟨_, rfl⟩
  | .null, _ | .bool _, _ | .complex _ _ _, _ | .text _ _, _ | .bytes _ _, _ | .date _ _, _
  | .moment _ _, _ | .pattern _, _ | .plain _, _ | .nothing, _ | .type _, _ => ⟨_, rfl⟩

/-- Native values have canonical texts, unless one of them is not written. -/
theorem fares_toTexts (call : Apply) (hw : w.Untitled) (join : Bool) :
    ∀ {xs : List Value}, areNative xs = true →
    (toTexts call join xs).Fares w (unwritten? (areWritten xs))
  | [], _ => ⟨_, rfl⟩
  | x :: xs, hxs => by
    rw [areNative, Bool.and_eq_true] at hxs
    have hfirst := fares_toText call hw hxs.1
    have hrest := fares_toTexts call hw join hxs.2
    rw [areWritten, unwritten?_and]
    cases join with
    | true => exact (fares_joined hw hxs.1 hfirst).bind fun s _ => hrest.map (s :: ·)
    | false => exact hfirst.bind fun s _ => hrest.map (s :: ·)

/-- Native keys and values have canonical texts, unless one of them is not written. -/
theorem fares_toTextEntries (call : Apply) (hw : w.Untitled) :
    ∀ {es : List (Value × Value)}, areNativeEntries es = true →
    (toTextEntries call es).Fares w (unwritten? (areWrittenEntries es))
  | [], _ => ⟨_, rfl⟩
  | (k, v) :: es, hes => by
    rw [areNativeEntries, Bool.and_eq_true, Bool.and_eq_true] at hes
    have hkey := fares_toText call hw hes.1.1
    have hvalue := fares_toText call hw hes.1.2
    have hrest := fares_toTextEntries call hw hes.2
    rw [areWrittenEntries, Bool.and_assoc, unwritten?_and, unwritten?_and]
    exact hkey.bind fun s _ => hvalue.bind fun t _ => hrest.map ((s, t) :: ·)

/-- A native value has a literal text, unless it is not written. -/
theorem fares_literal (call : Apply) (hw : w.Untitled) : ∀ {v : Value}, v.isNative = true →
    (literal call v).Fares w (unwritten? v.isWritten)
  | .number _ _, _ => fares_written w _
  | .seq k _ xs, hv =>
    (fares_literals call hw (show areNative xs = true from hv)).map (bracketed k)
  | .dict _ es, hv =>
    (fares_literalEntries call hw (show areNativeEntries es = true from hv)).map braced
  | .just _ v, hv => (fares_toText call hw (v := v) hv).map (applied "Just")
  | .left _ v, hv => (fares_toText call hw (v := v) hv).map (applied "Left")
  | .right _ v, hv => (fares_toText call hw (v := v) hv).map (applied "Right")
  | .identity _ v, hv =>
    (fares_literal call hw (v := v) hv).map fun s => applied "Identity" ("value=" ++ s)
  | .null, _ | .bool _, _ | .complex _ _ _, _ | .text _ _, _ | .bytes _ _, _ | .date _ _, _
  | .moment _ _, _ | .pattern _, _ | .plain _, _ | .nothing, _ | .type _, _ | .func _ _, _
  | .error _ _ _, _ => ⟨_, rfl⟩

/-- Native values have literal texts, unless one of them is not written. -/
theorem fares_literals (call : Apply) (hw : w.Untitled) :
    ∀ {xs : List Value}, areNative xs = true →
    (literals call xs).Fares w (unwritten? (areWritten xs))
  | [], _ => ⟨_, rfl⟩
  | x :: xs, hxs => by
    rw [areNative, Bool.and_eq_true] at hxs
    rw [areWritten, unwritten?_and]
    exact (fares_literal call hw hxs.1).bind fun s _ => (fares_literals call hw hxs.2).map (s :: ·)

/-- Native keys and values have literal texts, unless one of them is not written. -/
theorem fares_literalEntries (call : Apply) (hw : w.Untitled) :
    ∀ {es : List (Value × Value)}, areNativeEntries es = true →
    (literalEntries call es).Fares w (unwritten? (areWrittenEntries es))
  | [], _ => ⟨_, rfl⟩
  | (k, v) :: es, hes => by
    rw [areNativeEntries, Bool.and_eq_true, Bool.and_eq_true] at hes
    have hkey := fares_literal call hw hes.1.1
    have hvalue := fares_literal call hw hes.1.2
    have hrest := fares_literalEntries call hw hes.2
    rw [areWrittenEntries, Bool.and_assoc, unwritten?_and, unwritten?_and]
    exact hkey.bind fun s _ => hvalue.bind fun t _ => hrest.map ((s, t) :: ·)

end

end Value

end CheckedCalls
