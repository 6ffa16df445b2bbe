import CheckedCalls.Proofs.Compiling
import CheckedCalls.Proofs.Totality

/-!
# What a violation depends on

A check takes the arguments from left to right and ends at the first that does not fit. What it
reports was seen up to there: the values of the report come from arguments in their order, the last
of them from the argument that ended the check. So the arguments after that one do not matter, not
even if a check of one of them would fail (`check_violated_foreseen`).
-/

namespace CheckedCalls

open CheckState Checking Check

/-- The lines of the violation show the values that were seen, in their order. Each was met in the
argument at its position, or it is held by a value that was met there. The positions are those of
the values, each one once. -/
structure Violation.Enumerates (call : Apply) (vocabulary : Vocabulary) (signature : Signature)
    (args : List Value) (v : Violation) (seen : List Observation) : Prop where
  lines : List.Forall₂ (fun line o => line.Prints call vocabulary.env o.value) v.values seen
  met : ∀ o ∈ seen, o.IsMet call vocabulary signature args
  positions : v.positions = (seen.map fun o => (o.position : Int)).eraseDups

section Foresight

variable {I : World → Prop} {S : Value → Prop} {K : CheckState → Prop} {call : Apply}
variable {vocabulary : Vocabulary} {signature : Signature} {args : List Value} {v : Violation}
variable {i : Nat}

/-- A violation enumerates what it was compiled from, and lists the position of the last value
last. -/
theorem Compiled.exists_enumerates (h : Compiled call vocabulary signature args S K I i v) :
    ∃ seen o, v.Enumerates call vocabulary signature args seen ∧ seen.getLast? = some o ∧
      o.position = i + 1 ∧ v.positions.getLast? = some (o.position : Int) := by
  obtain ⟨b, seen, explanation, rfl, hlines, hcloses⟩ := h
  have horderly := hcloses.orderly
  obtain ⟨o, ho, hposition⟩ := horderly.last
  refine ⟨seen, o, ⟨?_, horderly.met, hlines.positions⟩, ho, hposition, ?_⟩
  · exact hlines.lines.imp fun _ _ hprints => hprints.prints
  · have hsorted : (seen.map fun o => (o.position : Int)).Pairwise (· ≤ ·) :=
      List.pairwise_map.2 (horderly.pairwise.imp Int.ofNat_le.2)
    show b.positions.getLast? = _
    rw [hlines.positions, getLast?_eraseDups hsorted, List.getLast?_map, ho, Option.map_some]

/-- The reported violation depends on the arguments up to the last one that it lists: whatever other
arguments stand after that one, as many as before, the check ends in the same violation and leaves
the same world. Nothing is asked of the types, the type classes and the values. -/
theorem check_violated_foreseen {w w' : World}
    (h : (check call vocabulary signature args).outcome w = (.ok (.violated v), w'))
    (hkind : v.kind ≠ .arity) :
    ∃ seen o, v.Enumerates call vocabulary signature args seen ∧ seen.getLast? = some o ∧
      v.positions.getLast? = some (o.position : Int) ∧
      ∀ others : List Value, others.length = args.length →
        others.take o.position = args.take o.position →
          (check call vocabulary signature others).outcome w = (.ok (.violated v), w') := by
  rcases check_violated_iff.1 h with ⟨-, rfl, -⟩ | ⟨haccepts, hargs⟩
  · exact absurd rfl hkind
  have hplaces : ∀ j a, args[j]? = some a → args[0 + j]? = some a ∧ True := by
    intro j a ha
    exact ⟨by rwa [Nat.zero_add], trivial⟩
  obtain ⟨n, hcompiled, hsame⟩ := checkArguments_violated
    (course_true call vocabulary signature args) hplaces (.initial trivial) trivial hargs
  rw [Nat.zero_add] at hcompiled
  obtain ⟨seen, o, henumerates, ho, hposition, hlast⟩ := hcompiled.exists_enumerates
  refine ⟨seen, o, henumerates, ho, hlast, fun others hlength htake => ?_⟩
  rw [hposition] at htake
  rw [← hlength] at haccepts
  exact check_violated_iff.2 (.inr ⟨haccepts, hsame others htake⟩)

end Foresight

/-- All values have a type in common. -/
def allSame : Signature :=
  ⟨"same", [], [⟨.var "a" [], true⟩], .concrete StandardType.boolean.named []⟩

/-- The check of the third argument by itself would fail, and after two that do not go together it
takes no place. -/
theorem check_violated_foreseen_allSame : ∃ v w,
    (check applyFunction .standard allSame [.str "x", .bool true, .null]).outcome .initial =
      (.ok (.violated v), w) ∧ v.kind = .typeVariable ∧ v.positions = [1, 2] ∧
    (check applyFunction .standard allSame [.str "x", .bool true, hugeFraction]).outcome .initial =
      (.ok (.violated v), w) ∧
    ∀ r w', (check applyFunction .standard allSame [hugeFraction]).outcome .initial ≠
      (.ok r, w') := by
  have hviolated : ∃ v w,
      (check applyFunction .standard allSame [.str "x", .bool true, .null]).outcome .initial =
        (.ok (.violated v), w) ∧ v.kind = .typeVariable ∧ v.positions = [1, 2] :=
    ⟨_, _, rfl, rfl, rfl⟩
  have hfails : (match (check applyFunction .standard allSame [hugeFraction]).outcome .initial with
    | (.error _, _) => true
    | (.ok _, _) => false) = true := by decide +kernel
  obtain ⟨v, w, h, hkind, hpositions⟩ := hviolated
  obtain ⟨seen, o, -, -, hlast, hsame⟩ := check_violated_foreseen h (by rw [hkind]; decide)
  rw [hpositions] at hlast
  have hposition : o.position = 2 := by
    have htwo : (2 : Int) = o.position := Option.some_inj.1 hlast
    omega
  refine ⟨v, w, h, hkind, hpositions, hsame _ rfl (by rw [hposition]; rfl), fun r w' hr => ?_⟩
  rw [hr] at hfails
  cases hfails

end CheckedCalls
