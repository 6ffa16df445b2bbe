import CheckedCalls.Proofs.Addresses
import CheckedCalls.Proofs.Building
import CheckedCalls.Proofs.Conclusion
import CheckedCalls.Proofs.Spans

/-!
# The course of a check

A check makes its visits one after the other, and records the values that it meets under the keys of
variables, until something does not fit. `Course` says what is asked of the surroundings: what runs
may do to the world, for which causes they may fail, and what is handed out. `Before` is what holds
of the state on the way: which values were seen for each key, and in which order they were met. A
violation that is no matter of the number of arguments is compiled from what the check had met when
something did not fit (`Compiled`).
-/

namespace CheckedCalls

open CheckState Checking Check

/-! ## Constraints -/

section Constraints

variable {signature : Signature}

/-- A signature that is valid is kept as it is. -/
theorem eq_of_validate {t : Signature} (h : t.validate = .ok signature) : signature = t := by
  rw [Signature.validate] at h
  split at h
  · cases h
  dsimp only at h
  split at h <;> cases h
  rfl

/-- A signature that was built demands type classes of the registry only. -/
theorem known_of_build {name : String} {constraints : ConstraintMap} {types : List TypeEntry}
    {registry : Registry} (h : Signature.build name constraints types registry = .ok signature) :
    ∀ c ∈ signature.constraints, registry.knows c.typeClass = true := by
  rw [Signature.build] at h
  rcases hlast : types.getLast? with _ | ⟨result⟩ | slot
  · rw [hlast] at h
    cases h
  · rw [hlast] at h
    dsimp only at h
    split at h
    · cases h
    rename_i hknown
    rcases hslots : types.dropLast.mapM Signature.toSlot with f | slots
    · rw [hslots] at h
      cases h
    rcases hreturns : result.toExpr with f | returns
    · rw [hslots, hreturns] at h
      cases h
    rw [hslots, hreturns] at h
    rw [eq_of_validate h]
    intro c hc
    simpa using List.find?_eq_none.1 hknown c hc
  · rw [hlast] at h
    dsimp only at h
    split at h <;> cases h

/-- What is demanded of a variable the signature demands. -/
theorem mem_constraints {name c : String} (hc : c ∈ signature.constraintsOn name) :
    ⟨c, name⟩ ∈ signature.constraints := by
  obtain ⟨k, hk, rfl⟩ := List.mem_map.1 hc
  rw [List.mem_filter, beq_iff_eq] at hk
  rw [← hk.2]
  exact hk.1

end Constraints

/-! ## What is refused -/

/-- The value does not belong to the type of the expression, or cannot be called. -/
def TypeExpr.Rejects (call : Apply) : TypeExpr → Value → Prop
  | .concrete t _, x => ∃ w, ((t.contains call x).outcome w).1 = .ok false
  | .fn _ _, x => x.isCallable = false
  | _, _ => False

/-- At the visit the value lacks the type class, which is demanded of the values of the variable.
Where a type representative is wanted, it is the one that stands for no member. -/
def Visit.Fails (call : Apply) (registry : Registry) (name typeClass : String) (visit : Visit) :
    Prop :=
  match visit.expr with
  | .var n _ => n = name ∧ (registry.satisfies call typeClass visit.value).CanAnswer false
  | .concrete t args =>
    (t == StandardType.typeRep.named) = true ∧ (t.contains call visit.value).CanAnswer true ∧
      (∃ targs, .var name targs ∈ args) ∧
      registry.satisfiesRep typeClass visit.value = .ok false
  | _ => False

/-! ## Reports -/

namespace Run

variable {α : Type} {I : World → Prop} {E : Fault → Prop} {r : Run α} {a : α}

/-- The run answers so in some world with the property. -/
def AnswersIn (I : World → Prop) (r : Run α) (a : α) : Prop :=
  ∃ w, I w ∧ (r.outcome w).1 = .ok a

theorem AnswersIn.canAnswer (h : r.AnswersIn I a) : r.CanAnswer a := by
  obtain ⟨w, -, hw⟩ := h
  exact ⟨w, hw⟩

/-- What a run answers it answers in a world with the property. -/
theorem Concludes.answersIn {P : α → Prop} (h : Concludes I E r P) :
    Concludes I E r fun a => P a ∧ r.AnswersIn I a := by
  intro w hw
  have hr := h w hw
  rcases hout : r.outcome w with ⟨e | a, w'⟩
  · rw [hout] at hr
    exact hr
  · rw [hout] at hr
    exact ⟨⟨hr.1, w, hw, by rw [hout]⟩, hr.2⟩

end Run

/-- The line shows the value, by its text and with the names of its types, as they are answered in
worlds with the property. -/
structure OffendingValue.PrintsIn (I : World → Prop) (call : Apply) (env : List NamedType)
    (line : OffendingValue) (x : Value) : Prop where
  text : (x.toText call).AnswersIn I line.text
  types : ∃ d, (describe call env x).AnswersIn I d ∧ line.types = d.map NamedType.name

/-- The report has a line for each observation, in their order and numbered from one, and an
underline for each part of the signature that one of them points at. -/
structure Tabulates (I : World → Prop) (call : Apply) (vocabulary : Vocabulary)
    (signature : Signature) (b : ViolationBuilder) (seen : List Observation) : Prop where
  states : b.signature = signature.text
  lines : List.Forall₂ (fun line o => line.PrintsIn I call vocabulary.env o.value) b.values seen
  numbers : b.values.map OffendingValue.number = (List.range' 1 seen.length).map Int.ofNat
  grouped : ViolationBuilder.Grouped b.labelled (seen.map fun o => signature.span? o.key)
  labelled : ∀ group ∈ b.labelled, group.2 ≠ []
  positions : b.positions = (seen.map fun o => (o.position : Int)).eraseDups

section Reports

variable {I : World → Prop} {call : Apply} {vocabulary : Vocabulary} {signature : Signature}
variable {b : ViolationBuilder} {seen : List Observation} {o : Observation} {text : String}
variable {types : List String}

/-- A report in the making has no lines. -/
theorem tabulates_report (I : World → Prop) (call : Apply) (vocabulary : Vocabulary)
    (signature : Signature) (kind : ViolationKind) :
    Tabulates I call vocabulary signature (report signature kind) [] where
  states := rfl
  lines := .nil
  numbers := rfl
  grouped := .nil
  labelled _ h := by cases h
  positions := rfl

theorem Tabulates.underline (h : Tabulates I call vocabulary signature b seen) (start stop : Int)
    (label : String) : Tabulates I call vocabulary signature (b.underline start stop label) seen :=
  ⟨h.states, h.lines, h.numbers, h.grouped, h.labelled, h.positions⟩

/-- One more value has one more line. -/
theorem Tabulates.value (h : Tabulates I call vocabulary signature b seen)
    (hprints : OffendingValue.PrintsIn I call vocabulary.env
      ⟨(b.values.length + 1 : Nat), text, types⟩ o.value) :
    Tabulates I call vocabulary signature
      (b.value o.position text types (signature.span? o.key)) (seen ++ [o]) where
  states := h.states
  lines := List.rel_append h.lines (.cons hprints .nil)
  numbers := by
    rw [List.length_append, List.length_singleton, List.range'_1_concat, List.map_append,
      ← h.numbers, ← h.lines.length_eq, Nat.add_comm 1]
    simp [ViolationBuilder.value]
  grouped := by
    rw [List.map_append]
    exact h.grouped.value (by rw [h.lines.length_eq, List.length_map]) _ _ _ _
  labelled := by
    cases signature.span? o.key with
    | none => exact h.labelled
    | some span =>
      exact ViolationBuilder.forall_mem_addLabel (P := (· ≠ [])) (Q := (· ≠ []))
        (List.cons_ne_nil _ _) (fun ns _ => List.concat_ne_nil _ ns) (fun _ hne => hne) h.labelled
  positions := by
    rw [List.map_append]
    exact ViolationBuilder.positions_value h.positions _ _ _ _

end Reports

/-! ## Surroundings -/

/-- What a check relies on: runs that keep to `I` and `E` where they are asked about values of the
class `S`, types that hand out such values, and what `K` says of the state being kept by records. -/
structure Course (I : World → Prop) (E : Fault → Prop) (call : Apply) (vocabulary : Vocabulary)
    (signature : Signature) (args : List Value) (S : Value → Prop) (K : CheckState → Prop) :
    Prop where
  text : ∀ x, S x → Run.Concludes I E (x.toText call) fun _ => True
  described : ∀ x, S x → Run.Concludes I E (describe call vocabulary.env x) fun _ => True
  satisfied : ∀ c ∈ signature.constraints, ∀ x, S x →
    Run.Concludes I E (vocabulary.registry.satisfies call c.typeClass x) fun _ => True
  represented : ∀ c ∈ signature.constraints, ∀ x f,
    vocabulary.registry.satisfiesRep c.typeClass x = .error f → E f
  contained : ∀ i a t targs spanKey x, S x →
    signature.MeetsAt call vocabulary.env args i a ⟨.concrete t targs, spanKey, x⟩ →
      Run.Concludes I E (t.contains call x) fun b => b = true → ∀ e, t.extraction = some e →
        Run.Concludes I E (e.run call x) (Handed I E S)
  foreign : ∀ i a spanKey x,
    signature.MeetsAt call vocabulary.env args i a ⟨.foreign, spanKey, x⟩ →
      E (Signature.malformed signature.name "unsupported type expression Opaque")
  unfolded : ∀ s key named e x, K s → S x → (∃ o ∈ s.observed key, o.value = x) →
    (∃ t ∈ vocabulary.env, t.extraction = some e) →
    extractor? ((s.candidates? key).getD []) named = some e →
    Run.Concludes I E (e.run call x)
      (Handed I E fun y => S y ∧ (E .tooDeep ∨ y.depth < x.depth))
  start : K .initial
  kept : ∀ s key o d, K s → S o.value → (describe call vocabulary.env o.value).AnswersIn I d →
    s.candidatesAfter key (rank d) ≠ [] →
    K ((s.observe key o).narrow key (s.candidatesAfter key (rank d)))
  noted : ∀ line, Run.Concludes I E (Run.note line) fun _ => True

/-- In any surroundings a check relies on nothing if nothing is asked of worlds, failures and
values. -/
theorem course_true (call : Apply) (vocabulary : Vocabulary) (signature : Signature)
    (args : List Value) : Course (fun _ => True) (fun _ => True) call vocabulary signature args
      (fun _ => True) fun _ => True where
  text _ _ := Run.concludes_true fun _ => trivial
  described _ _ := Run.concludes_true fun _ => trivial
  satisfied _ _ _ _ := Run.concludes_true fun _ => trivial
  represented _ _ _ _ _ := trivial
  contained _ _ _ _ _ _ _ _ := Run.concludes_true fun _ _ _ _ =>
    Run.concludes_true fun _ _ _ => Run.concludes_true fun _ _ _ => trivial
  foreign _ _ _ _ _ := trivial
  unfolded _ _ _ _ _ _ _ _ _ _ := Run.concludes_true fun _ _ _ => Run.concludes_true fun _ _ _ =>
    ⟨trivial, .inl trivial⟩
  start := trivial
  kept _ _ _ _ _ _ _ _ := trivial
  noted _ := Run.concludes_true fun _ => trivial

/-! ## States -/

section States

variable (call : Apply) (vocabulary : Vocabulary) (signature : Signature) (args : List Value)
variable (S : Value → Prop) (K : CheckState → Prop)

/-- What holds of the state of a check before the value at an address is met. -/
structure Before (now : Address) (s : CheckState) : Prop where
  kept : K s
  seen : ∀ key, SeenBefore S call vocabulary.env signature args key now (s.observed key)
  opening : ∀ key, OpensFrom vocabulary.env ((s.candidates? key).getD [])

namespace Before

variable {call vocabulary signature args S K} {now later : Address} {s : CheckState} {key : VarKey}
variable {o : Observation}

theorem initial (hK : K .initial) :
    Before call vocabulary signature args S K now .initial where
  kept := hK
  seen _ := .nil
  opening _ _ h := by cases h

theorem mono (h : Before call vocabulary signature args S K now s) (hlater : now < later) :
    Before call vocabulary signature args S K later s where
  kept := h.kept
  seen key := (h.seen key).mono hlater
  opening := h.opening

/-- What is left of the candidates after a value opens values as they do. -/
theorem opensFrom_candidatesAfter (h : Before call vocabulary signature args S K now s)
    (key : VarKey) {d : List NamedType} (hd : OpensFrom vocabulary.env d) :
    OpensFrom vocabulary.env (s.candidatesAfter key (rank d)) := by
  intro t ht
  have hcandidates := h.opening key
  rw [CheckState.candidatesAfter] at ht
  rcases hcs : s.candidates? key with _ | cs
  · rw [hcs] at ht
    exact hd t (mem_rank.1 ht)
  · rw [hcs] at ht hcandidates
    exact hcandidates t (List.mem_filter.1 ht).1

/-- The value that is met now is recorded. -/
theorem record (h : Before call vocabulary signature args S K now s)
    (ho : o.StandsAt call vocabulary.env signature args key now) (hvalue : S o.value)
    {types : List NamedType} (htypes : OpensFrom vocabulary.env types)
    (hkept : K ((s.observe key o).narrow key types)) (hlater : now < later) :
    Before call vocabulary signature args S K later ((s.observe key o).narrow key types) where
  kept := hkept
  seen k := by
    show SeenBefore S call vocabulary.env signature args k later ((s.observe key o).observed k)
    rw [observed_observe_ite]
    split
    · rename_i heq
      rw [heq]
      exact (h.seen key).snoc ho hvalue hlater
    · exact (h.seen k).mono hlater
  opening k := by
    rw [candidates?_narrow]
    split
    · exact htypes
    · exact h.opening k

end Before

/-! ## What a violation is compiled from -/

/-- The value of a visit of the argument at a place, as it is listed. -/
def Visit.seenIn (i : Nat) (visit : Visit) : Observation := ⟨i + 1, visit.value, visit.key⟩

/-- What was seen, the mark and the closing sentence are those of the rule that was broken in the
argument at a place: the part of a visit rejects the value; the value lacks a type class that is
demanded of the variable; or the value that was met last leaves no type in common to the values that
were seen under the key before it. -/
def Closes (I : World → Prop) (i : Nat) (b : ViolationBuilder) (seen : List Observation)
    (explanation : String) : Prop :=
  match b.kind with
  | .invalidValue => ∃ a visit, signature.MeetsAt call vocabulary.env args i a visit ∧
      S visit.value ∧ visit.expr.Rejects call visit.value ∧ seen = [visit.seenIn i] ∧
      b.marks = [] ∧ explanation = Explanation.invalidValue visit.expr.text 1
  | .typeClass => ∃ a visit name typeClass span,
      signature.MeetsAt call vocabulary.env args i a visit ∧ S visit.value ∧
      ⟨typeClass, name⟩ ∈ signature.constraints ∧
      visit.Fails call vocabulary.registry name typeClass ∧ seen = [visit.seenIn i] ∧
      signature.constraintSpan? ⟨typeClass, name⟩ = some span ∧
      b.marks = [⟨span.1, span.2, ""⟩] ∧
      explanation = Explanation.typeClass signature.name name typeClass 1
  | .typeVariable => ∃ key s a o d, Before call vocabulary signature args S K a s ∧
      o.StandsAt call vocabulary.env signature args key a ∧ S o.value ∧ o.position = i + 1 ∧
      (describe call vocabulary.env o.value).AnswersIn I d ∧
      s.candidatesAfter key (rank d) = [] ∧ seen = s.observed key ++ [o] ∧
      b.marks = [] ∧ explanation = Explanation.typeVariable
  | .arity => False

/-- The violation was compiled from what the check had met when something did not fit in the
argument at a place. -/
def Compiled (I : World → Prop) (i : Nat) (v : Violation) : Prop :=
  ∃ b seen explanation, v = (b.explain explanation).build ∧
    Tabulates I call vocabulary signature b seen ∧
    Closes call vocabulary signature args S K I i b seen explanation

end States

/-! ## Types of the library -/

/-- Types of the library describe values, and its registry knows the type classes. -/
abbrev Vocabulary.choosing (ts : List StandardType) : Vocabulary :=
  ⟨ts.map StandardType.named, .standard⟩

section Library

variable {call : Apply} {ts : List StandardType} {s : CheckState} {key : VarKey} {o : Observation}

/-- What a value is described by in some world is its descriptor. -/
theorem types_of_answersIn {I : World → Prop} {v : Value} {d : List NamedType}
    (hd : (describe call (ts.map StandardType.named) v).AnswersIn I d) : v.types ts = d := by
  obtain ⟨w, -, hd⟩ := hd
  rw [describe_named] at hd
  exact Value.types_of_descriptor hd

/-- A record of a value that was described keeps the state faithful. -/
theorem CheckState.Faithful.narrow {I : World → Prop} {d : List NamedType} (hs : s.Faithful ts)
    (hd : (describe call (ts.map StandardType.named) o.value).AnswersIn I d)
    (hne : s.candidatesAfter key (rank d) ≠ []) :
    ((s.observe key o).narrow key (s.candidatesAfter key (rank d))).Faithful ts := by
  rw [← types_of_answersIn hd] at hne ⊢
  exact hs.record (record_eq_some.2 ⟨hne, rfl⟩)

end Library

end CheckedCalls
