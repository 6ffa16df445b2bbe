import CheckedCalls.Proofs.Walk
import Mathlib.Algebra.Group.Int.Defs
import Mathlib.Logic.Relation

/-!
# Checks have an end

A check of native values ends: it passes or answers a violation (`check_ends_or_overflows`). There
are two exceptions, both for the size of numbers. Whether a number is finite is asked by way of
binary64, so a fraction too large for that has no answer, and a check that has to describe one
fails. And an integer with too many digits has no text, so a check that has to report one fails.
-/

namespace CheckedCalls

open CheckState Checking Check

variable {call : Apply} {ts : List StandardType} {signature : Signature} {S : Value → Prop}

/-! ## Tests -/

/-- The value is a fraction too large for a binary64 number. -/
def Value.isTooLarge (v : Value) : Bool :=
  match v.number? with
  | some n => n.isFinite?.isNone
  | none => false

/-- A failure for the size of a number of the class: of a fraction that is too large, or of one that
a value holds and that has no text. -/
def Overflows (S : Value → Prop) (f : Fault) : Prop :=
  f = .overflow ∧ (∃ v, S v ∧ v.isTooLarge = true) ∨
    f = .badValue ∧ ∃ v, S v ∧ v.isWritten = false

/-- What goes wrong with a question that depends on another one has gone wrong with that one. -/
theorem error_of_bind {x : Except Fault Bool} {c : Bool} {f : Fault}
    (h : (do if ← x then return c else return false : Except Fault Bool) = .error f) :
    x = .error f := by
  rcases x with f' | b
  · exact h
  · cases b <;> cases h

theorem Number.finite_of_wholeNumber {n : Number} {f : Fault} (h : n.wholeNumber = .error f) :
    n.finite = .error f := by
  cases n with
  | int => cases h
  | float | fraction => exact error_of_bind h

/-- The test of a type of numbers fails only on a number. -/
theorem StandardType.exists_number {test : Number → Except Fault Bool} {v : Value} {f : Fault}
    (h : ofNumber test v = .error f) : ∃ n, v.number? = some n ∧ test n = .error f := by
  rw [ofNumber] at h
  split at h
  · exact ⟨_, ‹_›, h⟩
  · cases h

/-- The only test without an answer is that of the size of a fraction. -/
theorem StandardType.overflow_of_test {t : StandardType} {v : Value} {f : Fault}
    (h : t.test v = .error f) : f = .overflow ∧ v.isTooLarge = true := by
  obtain ⟨n, hn, hfinite⟩ : ∃ n, v.number? = some n ∧ n.finite = .error f := by
    cases t with
    | finiteNumber => exact exists_number h
    | nonZeroFiniteNumber =>
      obtain ⟨n, hn, h⟩ := exists_number h
      exact ⟨n, hn, error_of_bind h⟩
    | integer =>
      obtain ⟨n, hn, h⟩ := exists_number h
      exact ⟨n, hn, n.finite_of_wholeNumber h⟩
    | nonNegativeInteger =>
      obtain ⟨n, hn, h⟩ := exists_number h
      exact ⟨n, hn, n.finite_of_wholeNumber (error_of_bind h)⟩
    | validNumber =>
      obtain ⟨n, hn, h⟩ := exists_number h
      cases h
    | _ => cases v <;> cases h
  rw [Number.finite] at hfinite
  rcases hsize : n.isFinite? with _ | b
  · rw [hsize] at hfinite
    cases hfinite
    exact ⟨rfl, by rw [Value.isTooLarge, hn]; simp [hsize]⟩
  · rw [hsize] at hfinite
    cases hfinite

/-- A filter by types fails only with the fault of some test. -/
private theorem exists_test_of_filterAuxM {v : Value} {acc : List StandardType} {f : Fault}
    (h : List.filterAuxM (fun t : StandardType => t.test v) ts acc = .error f) :
    ∃ t : StandardType, t.test v = .error f := by
  induction ts generalizing acc with
  | nil => cases h
  | cons t ts ih =>
    rw [List.filterAuxM] at h
    rcases ht : t.test v with f' | b
    · rw [ht] at h
      cases h
      exact ⟨t, ht⟩
    · rw [ht] at h
      exact ih h

/-- A value without a descriptor leaves some test without an answer. -/
theorem Value.exists_test_of_descriptor {v : Value} {f : Fault} (h : v.descriptor ts = .error f) :
    ∃ t : StandardType, t.test v = .error f := by
  rw [descriptor, List.filterM] at h
  rcases hus : List.filterAuxM (fun t : StandardType => t.test v) ts [] with f' | us
  · rw [hus] at h
    cases h
    exact exists_test_of_filterAuxM hus
  · rw [hus] at h
    cases h

/-! ## Types of the library -/

section Library

variable {I : World → Prop} {E : Fault → Prop} {args : List Value}

/-- The parts of an expression that answers, at which values are met, answer. -/
theorem TypeExpr.MeetsAt.answers {env : List NamedType} {e part : TypeExpr} {v x : Value}
    {address : Address} {path : SpanKey} (h : e.MeetsAt call env v address path part x)
    (he : e.Answers I E call S) : part.Answers I E call S := by
  induction h with
  | here => exact he
  | @inside _ _ part _ _ _ _ _ _ _ _ hopens _ harg _ ih =>
    have hmem := List.mem_of_getElem? harg
    cases part with
    | var name targs => exact TypeExpr.AllAnswer.of_mem ih hmem
    | concrete t targs => exact TypeExpr.AllAnswer.of_mem ih.2 hmem
    | fn | foreign => exact hopens.elim

/-- The candidates for a key hand out what is held by a value that was seen for the key. -/
theorem CheckState.Faithful.concludes_extractor {s : CheckState} {key : VarKey} {named : Nat}
    {e : Extraction} {v : Value} (hS : Value.Closed S) (hs : s.Faithful ts) (hv : S v)
    (hseen : ∃ o ∈ s.observed key, o.value = v)
    (he : extractor? ((s.candidates? key).getD []) named = some e) :
    Run.Concludes I E (e.run call v)
      (Handed I E fun y => S y ∧ (E .tooDeep ∨ y.depth < v.depth)) := by
  rcases hcs : s.candidates? key with _ | cs
  · rw [hcs] at he
    cases he
  rw [hcs] at he
  obtain ⟨t, ht, hte⟩ := hs.shape_of_seen hcs (hS.isNative v hv) hseen he
  exact (concludes_extraction call ht hte).mono fun _ hparams =>
    handed_of_runsThrough hparams fun items hitems x hx =>
      ⟨hS.held v hv x ⟨items, hitems, hx⟩, .inr (depth_lt_of_mem_held hitems hx)⟩

/-- With types of the library a check of values of a closed class relies on little: that the values
have texts and descriptors, and that the types of the signature answer. -/
theorem course_library (hS : Value.Closed S)
    (hknown : ∀ c ∈ signature.constraints, Registry.standard.knows c.typeClass = true)
    (hanswers : ∀ slot ∈ signature.slots, slot.type.Answers I E call S)
    (haccepts : signature.accepts args.length = true)
    (htext : ∀ v, S v → Run.Concludes I E (v.toText call) fun _ => True)
    (hdescribed : ∀ v, S v → ∀ f, v.descriptor ts = .error f → E f)
    (hnoted : ∀ line, Run.Concludes I E (Run.note line) fun _ => True) :
    Course I E call (.choosing ts) signature args S (Faithful ts) := by
  have hclass : ∀ c ∈ signature.constraints, ∃ k, Registry.standard.get c.typeClass = .ok k := by
    intro c hc
    obtain ⟨k, hk⟩ := Option.isSome_iff_exists.1 (hknown c hc)
    exact ⟨k, by rw [Registry.get, hk]⟩
  have hmeets : ∀ i a visit, signature.MeetsAt call (ts.map StandardType.named) args i a visit →
      visit.expr.Answers I E call S := by
    rintro i a visit ⟨v, path, hv, -, hmeets⟩
    obtain ⟨hi, -⟩ := List.getElem?_eq_some_iff.1 hv
    exact hmeets.answers (forall_typeAt hanswers haccepts hi)
  exact {
    text := htext
    described := fun v hv => by
      rw [describe_named]
      exact Run.concludes_liftM (fun _ _ => trivial) (hdescribed v hv)
    satisfied := fun c hc v _ => by
      obtain ⟨k, hk⟩ := hclass c hc
      rw [Registry.satisfies_standard, hk]
      exact Run.concludes_pure trivial
    represented := fun c hc v f hf => by
      obtain ⟨k, hk⟩ := hclass c hc
      rw [Registry.satisfiesRep, hk] at hf
      cases hf
    contained := fun i a t targs spanKey v hv h => (hmeets i a _ h).1 v hv
    foreign := fun i a spanKey v h => (hmeets i a _ h).elim
    unfolded := fun s key named e v hs hv hseen _ he => hs.concludes_extractor hS hv hseen he
    start := .initial
    kept := fun s key o d hs _ hd hne => hs.narrow hd hne
    noted := hnoted }

end Library

/-! ## Parts of arguments -/

/-- The value is one of the arguments, or is held by one at some depth. -/
def Value.PartOf (args : List Value) (x : Value) : Prop :=
  ∃ v ∈ args, Relation.ReflTransGen Value.Holds v x

/-- The parts of native values are a closed class. -/
theorem Value.closed_partOf {args : List Value} (hargs : ∀ v ∈ args, v.isNative = true) :
    Value.Closed (Value.PartOf args) where
  isNative := by
    rintro x ⟨v, hv, hvx⟩
    induction hvx with
    | refl => exact hargs v hv
    | tail _ hstep ih => exact isNative_of_holds ih hstep
  held := by
    rintro x ⟨v, hv, hvx⟩ y hy
    exact ⟨v, hv, hvx.tail hy⟩

/-! ## Checks -/

theorem World.untitled_note (line : String) :
    Run.Concludes World.Untitled (Overflows S) (Run.note line) fun _ => True := by
  intro w hw
  exact ⟨trivial, hw⟩

/-- A check passes or ends in a violation, unless a value that it can meet is a fraction too large
for a binary64 number or an integer too long for a text: then it may fail for that. -/
theorem check_ends_or_overflows {name : String} {constraints : ConstraintMap}
    {types : List TypeEntry} {args : List Value} {w : World}
    (hbuild : Signature.build name constraints types .standard = .ok signature)
    (hS : Value.Closed S)
    (hanswers : ∀ slot ∈ signature.slots,
      slot.type.Answers World.Untitled (Overflows S) call S)
    (hargs : ∀ v ∈ args, S v) (hw : w.Untitled) :
    ∃ w', (∃ r, (check call (.choosing ts) signature args).outcome w = (.ok r, w')) ∨
      (check call (.choosing ts) signature args).outcome w = (.error .overflow, w') ∧
        (∃ v, S v ∧ v.isTooLarge = true) ∨
      (check call (.choosing ts) signature args).outcome w = (.error .badValue, w') ∧
        ∃ v, S v ∧ v.isWritten = false := by
  have htext : ∀ v, S v →
      Run.Concludes World.Untitled (Overflows S) (v.toText call) fun _ => True := by
    refine fun v hv => Run.concludes_of_fares
      (fun w hw => Value.fares_toText call hw (hS.isNative v hv)) fun f hf => ?_
    rw [unwritten?, Option.ite_none_left_eq_some, Option.some_inj] at hf
    exact .inr ⟨hf.2.symm, v, hv, Bool.eq_false_iff.2 hf.1⟩
  have hdescribed : ∀ v, S v → ∀ f, v.descriptor ts = .error f → Overflows S f := by
    intro v hv f hf
    obtain ⟨t, ht⟩ := Value.exists_test_of_descriptor hf
    exact .inl ⟨(StandardType.overflow_of_test ht).1, v, hv, (StandardType.overflow_of_test ht).2⟩
  have hconcludes := concludes_check (fun haccepts => course_library hS (known_of_build hbuild)
    hanswers haccepts htext hdescribed World.untitled_note) hargs w hw
  rcases hout : (check call (.choosing ts) signature args).outcome w with ⟨f | r, w'⟩
  · rw [hout] at hconcludes
    obtain ⟨rfl, hlarge⟩ | ⟨rfl, hlong⟩ := hconcludes
    · exact ⟨w', .inr (.inl ⟨rfl, hlarge⟩)⟩
    · exact ⟨w', .inr (.inr ⟨rfl, hlong⟩)⟩
  · exact ⟨w', .inl ⟨r, rfl⟩⟩

/-! ## Numbers too large -/

/-- A fraction beyond the range of binary64. -/
def hugeFraction : Value :=
  .number .shared (.fraction ⟨10 ^ 155 * 10 ^ 154, 3, by decide, by decide⟩)

/-- An integer of 4301 digits. -/
def longInteger : Value := .int (10 ^ 4300)

theorem check_ends_or_overflows_hugeFraction :
    ∃ w', (∃ r, (check applyFunction .standard sameTwice [.list [hugeFraction], .null]).outcome
        .initial = (.ok r, w')) ∨
      (check applyFunction .standard sameTwice [.list [hugeFraction], .null]).outcome .initial =
          (.error .overflow, w') ∧
        (∃ v : Value, v.PartOf [.list [hugeFraction], .null] ∧ v.isTooLarge = true) ∨
      (check applyFunction .standard sameTwice [.list [hugeFraction], .null]).outcome .initial =
          (.error .badValue, w') ∧
        ∃ v : Value, v.PartOf [.list [hugeFraction], .null] ∧ v.isWritten = false := by
  have hbuild : Signature.build "same" [] [.type (.expr (.var "a" [])),
      .type (.expr (.var "a" [])), .type (.expr (.concrete StandardType.boolean.named []))]
      .standard = .ok sameTwice := rfl
  have hnative : ∀ v ∈ [Value.list [hugeFraction], .null], v.isNative = true := by decide
  have hanswers : ∀ slot ∈ sameTwice.slots, slot.type.Answers World.Untitled
      (Overflows (Value.PartOf [.list [hugeFraction], .null])) applyFunction
      (Value.PartOf [.list [hugeFraction], .null]) := by
    intro slot hslot
    simp only [sameTwice, List.mem_cons, List.not_mem_nil, or_false] at hslot
    rcases hslot with rfl | rfl <;> trivial
  exact check_ends_or_overflows hbuild (Value.closed_partOf hnative) hanswers
    (fun v hv => ⟨v, hv, .refl⟩) World.untitled_initial

/-- The run fails for the cause. -/
def Run.failsFor {α : Type} (r : Run α) (f : Fault) (w : World) : Bool :=
  match (r.outcome w).1 with
  | .error f' => decide (f' = f)
  | .ok _ => false

/-- Checks of data fail without a violation, one where a fraction has to be described and one where
an integer has to be reported. -/
theorem sameTwice_overflows :
    (hugeFraction.isData = true ∧ (check applyFunction .standard sameTwice
      [hugeFraction, hugeFraction]).failsFor .overflow .initial = true) ∧
    longInteger.isData = true ∧ (check applyFunction .standard sameTwice
      [.str "abc", longInteger]).failsFor .badValue .initial = true :=
  ⟨⟨rfl, by decide +kernel⟩, rfl, by decide +kernel⟩

end CheckedCalls
