import CheckedCalls.Proofs.Pointing
import Mathlib.Data.List.Induction

/-!
# What reports are compiled from

The values that a report lists come from arguments in their order, and the last one comes from the
argument that ended the check (`Compiled.seen`). Each was met there, or it is held by a value that
was. So a violation does not depend on the arguments after that one (`checkArguments_violated`).
-/

namespace CheckedCalls

open CheckState Checking Check

/-! ## Runs that keep a property -/

namespace Run

variable {α : Type} {I : World → Prop}

/-- The run leaves a world with the property in a world with the property, if it answers. -/
def Preserves (I : World → Prop) (r : Run α) : Prop :=
  Concludes I (fun _ => True) r fun _ => True

theorem preserves_liftM (e : Except Fault α) : Preserves I (liftM e : Run α) :=
  concludes_liftM (fun _ _ => trivial) fun _ _ => trivial

end Run

/-- The type is the head of a part of a slot. -/
def Signature.Mentions (signature : Signature) (t : NamedType) : Prop :=
  ∃ slot ∈ signature.slots, ∃ path targs, slot.type.partAt path = some (.concrete t targs)

section Compiling

variable {I : World → Prop} {E : Fault → Prop} {S : Value → Prop} {K : CheckState → Prop}
variable {call : Apply} {vocabulary : Vocabulary} {signature : Signature} {args : List Value}
variable {s : CheckState} {i : Nat} {v : Violation} {b : ViolationBuilder}
variable {seen : List Observation} {explanation : String}

/-- A named type that a value is met at is mentioned. -/
theorem Signature.MeetsAt.mentions {a : Address} {t : NamedType} {targs : List TypeExpr}
    {spanKey : SpanKey} {x : Value}
    (h : signature.MeetsAt call vocabulary.env args i a ⟨.concrete t targs, spanKey, x⟩) :
    signature.Mentions t := by
  obtain ⟨_, path, -, -, hmeets⟩ := h
  have hpart := hmeets.meets.partAt
  rw [Signature.typeAt] at hpart
  rcases hslot : signature.slots[signature.slotFor i]? with _ | slot
  · rw [hslot] at hpart
    cases path <;> cases hpart
  · rw [hslot] at hpart
    exact ⟨slot, List.mem_of_getElem? hslot, path, targs, hpart⟩

/-! ## Observations in order -/

/-- The value was met in the argument at the position, at the part that the key names, or it is held
by a value that was met there. -/
def Observation.IsMet (call : Apply) (vocabulary : Vocabulary) (signature : Signature)
    (args : List Value) (o : Observation) : Prop :=
  ∃ i part y key, o.position = i + 1 ∧
    signature.Meets call vocabulary.env args i ⟨part, o.key, y⟩ ∧
    VarKey.Leads call vocabulary.env key y o.value

/-- Values of the class, seen in arguments in their order, the last one in the argument at the
place. -/
structure Orderly (S : Value → Prop) (call : Apply) (vocabulary : Vocabulary)
    (signature : Signature) (args : List Value) (i : Nat) (seen : List Observation) : Prop where
  value : ∀ o ∈ seen, S o.value
  met : ∀ o ∈ seen, o.IsMet call vocabulary signature args
  pairwise : seen.Pairwise fun o p => o.position ≤ p.position
  last : ∃ o, seen.getLast? = some o ∧ o.position = i + 1

theorem Observation.StandsAt.isMet {key : VarKey} {address : Address} {o : Observation}
    (h : o.StandsAt call vocabulary.env signature args key address) :
    o.IsMet call vocabulary signature args := by
  obtain ⟨i, targs, y, hposition, hmeets, hleads⟩ := h.exists_meets
  exact ⟨i, _, y, key, hposition, hmeets, hleads⟩

/-- The value of one visit. -/
theorem orderly_singleton {address : Address} {visit : Visit}
    (hmeets : signature.MeetsAt call vocabulary.env args i address visit) (hv : S visit.value) :
    Orderly S call vocabulary signature args i [visit.seenIn i] where
  value := List.forall_mem_singleton.2 hv
  met := List.forall_mem_singleton.2
    ⟨i, visit.expr, visit.value, .named "", rfl, hmeets.meets, rfl⟩
  pairwise := List.pairwise_singleton _ _
  last := ⟨_, rfl, rfl⟩

/-- What a violation is compiled from was seen in the order of the arguments. -/
theorem Closes.orderly (h : Closes call vocabulary signature args S K I i b seen explanation) :
    Orderly S call vocabulary signature args i seen := by
  unfold Closes at h
  split at h
  · obtain ⟨a, visit, hmeets, hv, -, rfl, -⟩ := h
    exact orderly_singleton hmeets hv
  · obtain ⟨a, visit, name, typeClass, span, hmeets, hv, -, -, rfl, -⟩ := h
    exact orderly_singleton hmeets hv
  · obtain ⟨key, s, a, o, d, hs, ho, hvalue, hposition, -, -, rfl, -⟩ := h
    have hseen := (hs.seen key).snoc ho hvalue (Address.lt_append a 0 [])
    refine ⟨fun p hp => ?_, fun p hp => ?_, hseen.pairwise_position, o, ?_, hposition⟩
    · obtain ⟨_, -, hp⟩ := hseen.exists_standsAt hp
      exact hp
    · obtain ⟨_, hp, -⟩ := hseen.exists_standsAt hp
      exact hp.isMet
    · exact List.getLast?_concat
  · exact h.elim

/-- Of numbers in their order the last one stays last when repetitions are left out. -/
theorem getLast?_eraseDups {as : List Int} (h : as.Pairwise (· ≤ ·)) :
    as.eraseDups.getLast? = as.getLast? := by
  induction as using List.reverseRecOn with
  | nil => rfl
  | append_singleton as a ih =>
    obtain ⟨hfront, -, hlast⟩ := List.pairwise_append.1 h
    rw [ViolationBuilder.eraseDups_snoc, List.getLast?_append, List.getLast?_append]
    split
    · -- the number was there before, and so it was the last one
      rename_i hmem
      rw [List.contains_iff_mem] at hmem
      obtain ⟨front, c, rfl⟩ := List.eq_nil_or_concat' as |>.resolve_left (List.ne_nil_of_mem hmem)
      have hca : c ≤ a := hlast c (by simp) a (by simp)
      have hac : a ≤ c := by
        rcases List.mem_append.1 hmem with hmem | hmem
        · exact (List.pairwise_append.1 hfront).2.2 a hmem c (by simp)
        · exact Int.le_of_eq (List.mem_singleton.1 hmem)
      rw [ih hfront, Int.le_antisymm hac hca]
      simp
    · simp

/-! ## Arguments -/

/-- The first argument ends the check, or the check goes on with what is known then. -/
theorem outcome_checkArguments_cons (index : Nat) (v : Value) (vs : List Value) (s : CheckState)
    (w : World) :
    (checkArguments call vocabulary signature index (v :: vs) s).outcome w =
      match (checkValue call vocabulary signature (index + 1) (signature.typeAt index)
        [signature.slotFor index] v s).run.outcome w with
      | (.ok (.ok s'), w') =>
        (checkArguments call vocabulary signature (index + 1) vs s').outcome w'
      | (.ok (.error violation), w') =>
        (.ok (.error violation), { w' with log := w'.log ++ [signature.name ++ ": " ++
          violation.kind.title ++ " at position " ++ toString (index + 1)] })
      | (.error f, w') => (.error f, w') := by
  rw [checkArguments, ← Signature.typeAt, Run.outcome_bind]
  rcases (checkValue call vocabulary signature (index + 1) (signature.typeAt index)
    [signature.slotFor index] v s).run.outcome w with ⟨f | violation | s', w'⟩ <;> rfl

/-- A violation was compiled by the check of one argument, and it does not depend on the arguments
after that one. -/
theorem checkArguments_violated (hc : Course I E call vocabulary signature args S K) {index : Nat}
    {vs : List Value} {violation : Violation} {w w' : World}
    (hvs : ∀ j v, vs[j]? = some v → args[index + j]? = some v ∧ S v)
    (hs : Before call vocabulary signature args S K [index] s) (hw : I w)
    (h : (checkArguments call vocabulary signature index vs s).outcome w =
      (.ok (.error violation), w')) :
    ∃ n, Compiled call vocabulary signature args S K I (index + n) violation ∧
      ∀ us, us.take (n + 1) = vs.take (n + 1) →
        (checkArguments call vocabulary signature index us s).outcome w =
          (.ok (.error violation), w') := by
  induction vs generalizing index s w with
  | nil => cases h
  | cons v vs ih =>
    obtain ⟨⟨ha, hv⟩, hrest⟩ :=
      (forall_getElem?_cons (fun i v => args[i]? = some v ∧ S v) index v vs).1 hvs
    have hvalue := concludes_checkArgument hc ha hv hs w hw
    rw [outcome_checkArguments_cons] at h
    rcases hout : (checkValue call vocabulary signature (index + 1) (signature.typeAt index)
      [signature.slotFor index] v s).run.outcome w with ⟨f | found | s', w₁⟩
    · rw [hout] at h
      cases h
    · rw [hout] at h hvalue
      cases h
      refine ⟨0, hvalue.1, fun us hus => ?_⟩
      obtain ⟨us, rfl⟩ : ∃ rest, us = v :: rest := by
        cases us with
        | nil => cases hus
        | cons u us => exact ⟨us, by rw [(List.cons.inj hus).1]⟩
      rw [outcome_checkArguments_cons, hout]
    · rw [hout] at h hvalue
      obtain ⟨n, hcompiled, hsame⟩ := ih hrest hvalue.1 hvalue.2 h
      refine ⟨n + 1, ?_, fun us hus => ?_⟩
      · rwa [Nat.add_assoc, Nat.add_comm 1 n] at hcompiled
      · cases us with
        | nil => cases hus
        | cons u us =>
          rw [List.take_succ_cons, List.take_succ_cons] at hus
          obtain ⟨rfl, htake⟩ := List.cons.inj hus
          rw [outcome_checkArguments_cons, hout]
          exact hsame us htake

/-- A check ends in a violation if the number of arguments is refused, or if the check of the
arguments ends in it. -/
theorem check_violated_iff {violation : Violation} {w w' : World} :
    (check call vocabulary signature args).outcome w = (.ok (.violated violation), w') ↔
      signature.accepts args.length = false ∧ violation = wrongArity signature args.length ∧
          w' = w ∨
        signature.accepts args.length = true ∧
          (checkArguments call vocabulary signature 0 args .initial).outcome w =
            (.ok (.error violation), w') := by
  rw [check]
  cases haccepts : signature.accepts args.length with
  | false => simp [eq_comm]
  | true =>
    simp only [Bool.not_true, Bool.false_eq_true, if_false, Run.outcome_bind]
    rcases (checkArguments call vocabulary signature 0 args .initial).outcome w with
      ⟨f | found | s', w₁⟩
    · simp
    · simp
    · dsimp only
      refine iff_of_false (fun h => ?_) (by simp)
      split at h <;> cases h

end Compiling

end CheckedCalls
