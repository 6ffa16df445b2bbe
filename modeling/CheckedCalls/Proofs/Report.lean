import CheckedCalls.Proofs.Lines
import CheckedCalls.Proofs.Walk

/-!
# Reports are true

A violation that ends a check says what is so: the number of arguments does not fit, or a value that
the check meets in the arguments is refused for the reason that is given. Nothing is asked of the
types of the signature, nor of what they hand out (`check_violated_sound`); but an instance of a
class that is handed out may be called like a type of the library, and then the names of types in a
report do not tell the types apart (`exists_namesake`).
-/

namespace CheckedCalls

open CheckState Check

/-! ## Refusals -/

section Refusals

variable (call : Apply) (ts : List StandardType) (signature : Signature) (args : List Value)

/-- The report lists one value, that of a visit in an argument. The value does not belong to the
type that it is checked against, or cannot be called, and the explanation quotes the type. -/
def Violation.RefusesValue (v : Violation) : Prop :=
  ∃ i visit, signature.Meets call (ts.map StandardType.named) args i visit ∧
    visit.expr.Rejects call visit.value ∧
    v.positions = [(i : Int) + 1] ∧
    Lists call (ts.map StandardType.named) v.values [visit.value] ∧
    v.explanation = Explanation.invalidValue visit.expr.text 1

/-- The report lists one value, that of a visit in an argument. The value lacks a type class that
the signature demands of the variable. The explanation names both. -/
def Violation.RefusesClass (v : Violation) : Prop :=
  ∃ i visit name typeClass, signature.Meets call (ts.map StandardType.named) args i visit ∧
    ⟨typeClass, name⟩ ∈ signature.constraints ∧
    visit.Fails call .standard name typeClass ∧
    v.positions = [(i : Int) + 1] ∧
    Lists call (ts.map StandardType.named) v.values [visit.value] ∧
    v.explanation = Explanation.typeClass signature.name name typeClass 1

/-- The report lists the values that were met under one key, in the order in which the check meets
them in the arguments. The last one leaves no type in common to those before it. -/
def Violation.RefusesVariable (v : Violation) : Prop :=
  ∃ (key : VarKey) (addresses : List Address) (seen : List Observation),
    addresses.Pairwise (· < ·) ∧
    List.Forall₂ (fun a o => Observation.StandsAt call (ts.map StandardType.named) signature args
      key a o) addresses seen ∧
    Lists call (ts.map StandardType.named) v.values (seen.map Observation.value) ∧
    v.LeavesNoType ts (seen.map Observation.value) ∧
    v.explanation = Explanation.typeVariable

end Refusals

section Report

variable {call : Apply} {ts : List StandardType} {signature : Signature} {args : List Value}
variable {I : World → Prop} {S : Value → Prop} {i : Nat} {v : Violation} {b : ViolationBuilder}
variable {seen : List Observation}

/-! ## Lines -/

theorem OffendingValue.PrintsIn.shows {line : OffendingValue} {x : Value}
    (h : line.PrintsIn I call (ts.map StandardType.named) x) :
    line.Shows call (ts.map StandardType.named) x where
  text := h.text.canAnswer
  types := by
    obtain ⟨d, ⟨w, -, hd⟩, htypes⟩ := h.types
    rw [describe_named] at hd
    exact ⟨d, by rw [describe_named, Run.liftM_eq_pure_iff]; exact hd, htypes⟩

/-- The lines of a report list the values that it was compiled from. -/
theorem Tabulates.lists (h : Tabulates I call (.choosing ts) signature b seen) :
    Lists call (ts.map StandardType.named) b.values (seen.map Observation.value) := by
  refine List.forall₂_iff_get.2 ⟨by simp [h.lines.length_eq], fun j hj hseen => ⟨?_, ?_⟩⟩
  · have hnumber := congrArg (·[j]?) h.numbers
    simpa [hj, h.lines.length_eq ▸ hj] using hnumber
  · have hprints := h.lines.get hj (h.lines.length_eq ▸ hj)
    simpa using hprints.shows

/-! ## Refusals of values -/

/-- What a violation says of the values that it was compiled from is so. -/
theorem Compiled.refuses (h : Compiled call (.choosing ts) signature args S (Faithful ts) I i v) :
    v.kind ≠ .arity ∧ (v.kind = .invalidValue → v.RefusesValue call ts signature args) ∧
    (v.kind = .typeClass → v.RefusesClass call ts signature args) ∧
    (v.kind = .typeVariable → v.RefusesVariable call ts signature args) := by
  obtain ⟨b, seen, explanation, rfl, hlines, hcloses⟩ := h
  have hkind : (b.explain explanation).build.kind = b.kind := rfl
  rw [Closes] at hcloses
  rw [hkind]
  have hlists := hlines.lists
  rcases hk : b.kind with _ | _ | _ | _ <;> rw [hk] at hcloses <;> dsimp only at hcloses <;>
    refine ⟨by simp, fun h => ?_, fun h => ?_, fun h => ?_⟩ <;> cases h
  case invalidValue =>
    obtain ⟨a, visit, hmeets, -, hrejects, rfl, -, rfl⟩ := hcloses
    exact ⟨i, visit, hmeets.meets, hrejects, hlines.positions, hlists, rfl⟩
  case typeClass =>
    obtain ⟨a, visit, name, typeClass, span, hmeets, -, hconstraint, hfails, rfl, -, -, rfl⟩ :=
      hcloses
    exact ⟨i, visit, name, typeClass, hmeets.meets, hconstraint, hfails, hlines.positions, hlists,
      rfl⟩
  case typeVariable =>
    obtain ⟨key, s, a, o, d, hs, ho, hvalue, -, hd, hempty, rfl, -, rfl⟩ := hcloses
    rw [← types_of_answersIn hd] at hempty
    obtain ⟨addresses, hstands, hsorted, -⟩ :=
      (hs.seen key).snoc ho hvalue (Address.lt_append a 0 [])
    exact ⟨key, addresses, _, hsorted, hstands.imp fun _ _ h => h.1, hlists,
      leavesNoType hs.kept (record_eq_none.2 hempty) hlists, rfl⟩

/-! ## Reports -/

/-- A number of arguments is refused if it is too small, or too large and the last slot is not
variadic. -/
theorem Signature.accepts_eq_false_iff (s : Signature) {count : Nat} :
    s.accepts count = false ↔
      count < s.minArity ∨ s.isVariadic = false ∧ s.minArity < count := by
  rw [accepts]
  cases s.isVariadic with
  | true => simp
  | false =>
    simp only [Bool.false_eq_true, if_false, decide_eq_false_iff_not, true_and]
    omega

/-- What a violation that ends a check says is so. It is about the number of arguments exactly if
that does not fit; otherwise one value is refused because it does not belong to the type that it is
checked against or lacks a type class, or several are because they have no type in common. Nothing
is asked of the types of the signature and of the arguments. -/
theorem check_violated_sound {w w' : World}
    (h : (check call (.choosing ts) signature args).outcome w = (.ok (.violated v), w')) :
    (v.kind = .arity ↔ args.length < signature.minArity ∨
      signature.isVariadic = false ∧ signature.minArity < args.length) ∧
    (v.kind = .invalidValue → v.RefusesValue call ts signature args) ∧
    (v.kind = .typeClass → v.RefusesClass call ts signature args) ∧
    (v.kind = .typeVariable → v.RefusesVariable call ts signature args) := by
  have hc : Course (fun _ => True) (fun _ => True) call (.choosing ts) signature args
      (fun _ => True) (Faithful ts) := {
    course_true call (.choosing ts) signature args with
    start := .initial
    kept := fun s key o d hs _ hd hne => hs.narrow hd hne
    unfolded := fun s key named e x _ =>
      (course_true call (.choosing ts) signature args).unfolded s key named e x trivial }
  have hconcludes := concludes_check (fun _ => hc) (fun _ _ => trivial) w trivial
  rw [h] at hconcludes
  rw [← signature.accepts_eq_false_iff]
  rcases hconcludes.1 v rfl with ⟨hrefused, rfl⟩ | ⟨haccepted, i, hcompiled⟩
  · exact ⟨iff_of_true rfl hrefused, nofun, nofun, nofun⟩
  · obtain ⟨hkind, hrefuses⟩ := hcompiled.refuses
    exact ⟨iff_of_false hkind (by simp [haccepted]), hrefuses⟩

/-- A string and a list of truth values have no type of their elements in common. -/
theorem check_violated_sound_elementOf : ∃ v : Violation,
    (∃ w, (check applyFunction .standard elementOf [.str "x", .list [.bool true]]).outcome
      .initial = (.ok (.violated v), w)) ∧
    v.RefusesVariable applyFunction StandardType.standing elementOf
      [.str "x", .list [.bool true]] := by
  have hviolated : ∃ v w, (check applyFunction .standard elementOf
      [.str "x", .list [.bool true]]).outcome .initial = (.ok (.violated v), w) ∧
        v.kind = .typeVariable := ⟨_, _, rfl, rfl⟩
  obtain ⟨v, w, hviolated, hkind⟩ := hviolated
  exact ⟨v, ⟨w, hviolated⟩, (check_violated_sound hviolated).2.2.2 hkind⟩

end Report

/-! ## Namesakes -/

/-- A parameterised type of all values, which shows an instance of a class that is called like the
type of lists, and a list. -/
def namesakeBox : NamedType :=
  ⟨"Box", 1, 0, .custom (.func .shared (.const (.bool true))), some (.custom (.func .shared
    (.const (.list [.list [.object .shared (.declared .shared "Array" [.declared .shared []]) .null,
      .list [.int 1]]]))))⟩

/-- A value that belongs to the box is checked by what the box shows. The two values that are shown
have no type in common, but the one name that is given for each of them is the same. -/
theorem exists_namesake : ∃ s v w,
    Signature.build "f" [] [.type (.expr (.concrete namesakeBox [.var "a" []])),
      .type (.named StandardType.boolean.named)] .standard = .ok s ∧
    (check applyFunction .standard s [.dict .fresh []]).outcome .initial =
      (.ok (.violated v), w) ∧
    v.kind = .typeVariable ∧ v.values.map OffendingValue.types = [["Array"], ["Array"]] :=
  ⟨_, _, _, rfl, rfl, rfl, by decide +kernel⟩

end CheckedCalls
