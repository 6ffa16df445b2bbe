import CheckedCalls.Proofs.Demands
import CheckedCalls.Proofs.Renaming

/-!
# Variadic slots

A variadic slot stands for as many plain slots as there are arguments left for it: a call is checked
against the signature with these slots in its place as it is against the signature itself
(`check_expand`). Only the marks in the signature line of a report differ, as the lines do.
-/

namespace CheckedCalls

open CheckState Checking Check

namespace Signature

/-- The type of the last slot. -/
def lastType (s : Signature) : TypeExpr := (s.slots.getLast?.map Slot.type).getD .foreign

/-- The signature with plain slots in place of the last one, so that there are `count` in all. -/
def expand (s : Signature) (count : Nat) : Signature :=
  { s with slots := s.slots.dropLast ++
      List.replicate (count - s.slots.dropLast.length) ⟨s.lastType, false⟩ }

/-- A signature of `count` slots takes `count` arguments. -/
theorem accepts_length (s : Signature) : s.accepts s.slots.length = true := by
  rw [accepts, minArity]
  split
  · simp
  · simp

/-- An argument at a slot is checked against that slot. -/
theorem slotFor_of_lt {s : Signature} {i : Nat} (hi : i < s.slots.length) : s.slotFor i = i := by
  rw [slotFor]
  split
  · rename_i hlast
    simp only [Bool.and_eq_true, decide_eq_true_eq] at hlast
    omega
  · rfl

section Variadic

variable {s : Signature} {count : Nat} (hvariadic : s.isVariadic = true)
  (hcount : s.minArity ≤ count)
include hvariadic hcount

theorem length_expand : (s.expand count).slots.length = count := by
  rw [minArity, if_pos hvariadic] at hcount
  rw [expand, List.length_append, List.length_replicate, List.length_dropLast]
  omega

theorem accepts_of_isVariadic : s.accepts count = true := by
  rw [accepts, if_pos hvariadic]
  exact decide_eq_true hcount

/-- An expanded signature accepts as many arguments as it was expanded to. -/
theorem accepts_expand : (s.expand count).accepts count = true := by
  have h := accepts_length (s.expand count)
  rwa [length_expand hvariadic hcount] at h

/-- An argument is checked against the same type as before. -/
theorem typeAt_expand {i : Nat} (hi : i < count) : (s.expand count).typeAt i = s.typeAt i := by
  have hlength := length_expand hvariadic hcount
  rw [minArity, if_pos hvariadic] at hcount
  rw [typeAt, typeAt, slotFor_of_lt (by omega), slotFor, hvariadic, Bool.true_and]
  by_cases hlast : s.slots.length - 1 ≤ i
  · -- a copy of the last slot
    have hcopy : s.slots.dropLast.length ≤ i := by rwa [List.length_dropLast]
    rw [if_pos (decide_eq_true hlast), expand, List.getElem?_append_right hcopy,
      List.getElem?_replicate, if_pos (by omega), ← List.getLast?_eq_getElem?]
    rfl
  · -- one of the slots that stay
    have hstays : i < s.slots.dropLast.length := by
      rw [List.length_dropLast]
      omega
    rw [if_neg (by rwa [decide_eq_true_eq]), expand, List.getElem?_append_left hstays,
      List.getElem?_dropLast, if_pos (by omega)]

end Variadic

/-- Other slots do not change the name and the constraints. -/
theorem renames_expand (s : Signature) (count : Nat) : Renames id s (s.expand count) := by
  refine ⟨Function.injective_id, rfl, ?_⟩
  show s.constraints = _
  rw [show Constraint.rename id = id from rfl, List.map_id]

end Signature

/-- Both checks pass, with the same bindings, or both end in violations of one kind, at the same
positions, by the same numbered values with the same types, explained in the same words. -/
def CheckResult.SameFindings : CheckResult → CheckResult → Prop
  | .passed bindings, .passed bindings' => bindings = bindings'
  | .violated v, .violated u =>
    v.kind = u.kind ∧ v.positions = u.positions ∧ v.values = u.values ∧
      v.explanation = u.explanation
  | _, _ => False

/-- A variadic slot is its expansion: from each world, a check of at least as many arguments as the
signature needs and a check of them against the signature with plain slots lead to one world, and
come to the same result there or fail for one cause. -/
theorem check_expand (call : Apply) (vocabulary : Vocabulary) (s : Signature) (args : List Value)
    (hvariadic : s.isVariadic = true) (hcount : s.minArity ≤ args.length) :
    Run.Tandem (check call vocabulary s args) (check call vocabulary (s.expand args.length) args)
      CheckResult.SameFindings := by
  rw [check, check, Signature.accepts_of_isVariadic hvariadic hcount,
    Signature.accepts_expand hvariadic hcount]
  have hall : Tandem (ExceptT.mk (checkArguments call vocabulary s 0 args .initial))
      (ExceptT.mk (checkArguments call vocabulary (s.expand args.length) 0 args .initial))
      (CheckState.Renamed id) (Violation.Renamed id) := by
    refine tandem_checkArguments (s.renames_expand args.length) 0 args (fun i hi => ?_) .initial
    rw [Nat.zero_add, Signature.typeAt_expand hvariadic hcount hi, TypeExpr.rename_id]
  refine Run.tandem_bind hall fun e d hed => ?_
  cases e with
  | ok st =>
    cases d with
    -- the bindings are noted if there are any, in the same words
    | ok st' =>
      dsimp only
      rw [CheckState.Renamed.bindings_eq hed, Prod.map_id, List.map_id]
      split
      · exact Run.tandem_bind_self _ fun _ => Run.tandem_pure rfl
      · exact Run.tandem_pure rfl
    | error u => exact hed.elim
  | error v =>
    cases d with
    | ok st' => exact hed.elim
    | error u =>
      exact Run.tandem_pure ⟨hed.kind, hed.positions, hed.values, hed.explanation rfl⟩

/-- Three arguments for a first slot and a variadic one. The third has no type in common with the
others, and is reported alike if there are three slots. -/
theorem check_expand_maximum :
    Combinator.maximum.signature.isVariadic = true ∧ Combinator.maximum.signature.minArity ≤ 3 ∧
    (Combinator.maximum.signature.expand 3).slots.map Slot.variadic = [false, false, false] ∧
    ∃ v u w,
      (check applyFunction .standard Combinator.maximum.signature
        [.int 1, .int 2, .str "x"]).outcome .initial = (.ok (.violated v), w) ∧
      v.kind = .typeVariable ∧ v.positions = [1, 2, 3] ∧
      (check applyFunction .standard (Combinator.maximum.signature.expand 3)
        [.int 1, .int 2, .str "x"]).outcome .initial = (.ok (.violated u), w) ∧
      u.kind = .typeVariable ∧ u.positions = [1, 2, 3] ∧ u.values = v.values ∧
      u.explanation = v.explanation := by
  have hvariadic : Combinator.maximum.signature.isVariadic = true := rfl
  have hcount : Combinator.maximum.signature.minArity ≤
      [Value.int 1, .int 2, .str "x"].length := by decide
  obtain ⟨v, w, hviolated, hkind, hpositions⟩ : ∃ v w,
      (check applyFunction .standard Combinator.maximum.signature
        [.int 1, .int 2, .str "x"]).outcome .initial = (.ok (.violated v), w) ∧
      v.kind = .typeVariable ∧ v.positions = [1, 2, 3] := ⟨_, _, rfl, rfl, rfl⟩
  refine ⟨hvariadic, hcount, rfl, ?_⟩
  obtain ⟨w', ⟨r, q, hr, hq, hrq⟩ | ⟨c, hc, -⟩⟩ := check_expand applyFunction .standard
    Combinator.maximum.signature [.int 1, .int 2, .str "x"] hvariadic hcount .initial
  · rw [hviolated] at hr
    cases hr
    cases q with
    | passed bindings => exact hrq.elim
    | violated u =>
      obtain ⟨hkind', hpositions', hvalues, hexplanation⟩ := hrq
      exact ⟨v, u, _, hviolated, hkind, hpositions, hq, hkind' ▸ hkind, hpositions' ▸ hpositions,
        hvalues.symm, hexplanation.symm⟩
  · rw [hviolated] at hc
    cases hc

end CheckedCalls
