import CheckedCalls.Proofs.Walk

/-!
# Where reports point

Each value that a report lists was met by the check, or it is held by a value that was. The columns
that go with it are those of the part of the signature where that value was met, and there stands
the text of the part: `Violation.Locates`. The mark of a violated type class stands at the text of
its constraint. Nothing is asked of the types of the signature, of the functions that are called, or
of the values (`check_violated_located`).
-/

namespace CheckedCalls

open CheckState Checking Check

section Reports

variable {call : Apply} {vocabulary : Vocabulary} {signature : Signature} {args : List Value}

/-! ## Lines of reports -/

/-- The line shows the value, by its text and with the names of its types. -/
structure OffendingValue.Prints (call : Apply) (env : List NamedType) (line : OffendingValue)
    (x : Value) : Prop where
  text : (x.toText call).CanAnswer line.text
  types : (typeNames call env x).CanAnswer line.types

/-- What is answered in a world with the property is answered in some world. -/
theorem OffendingValue.PrintsIn.prints {I : World → Prop} {line : OffendingValue}
    {env : List NamedType} {x : Value} (h : line.PrintsIn I call env x) :
    line.Prints call env x where
  text := h.text.canAnswer
  types := by
    obtain ⟨d, ⟨w, -, hd⟩, htypes⟩ := h.types
    refine ⟨w, ?_⟩
    rw [typeNames, Run.outcome_bind]
    rcases hout : (describe call env x).outcome w with ⟨f | d', w'⟩
    · rw [hout] at hd
      cases hd
    · rw [hout] at hd
      cases hd
      exact congrArg Except.ok htypes.symm

section Tabulates

variable {I : World → Prop} {b : ViolationBuilder} {seen : List Observation}
variable {line : OffendingValue}

/-- The number of a line is the place of the observation that it shows. -/
theorem Tabulates.exists_observation (h : Tabulates I call vocabulary signature b seen)
    (hline : line ∈ b.values) : ∃ o n, (o, n) ∈ seen.zipIdx 1 ∧ line.number = (n : Int) ∧
      line.Prints call vocabulary.env o.value := by
  obtain ⟨j, hj, rfl⟩ := List.getElem_of_mem hline
  have hseen : j < seen.length := h.lines.length_eq ▸ hj
  refine ⟨seen[j], 1 + j, ?_, ?_, (h.lines.get hj hseen).prints⟩
  · rw [List.mk_add_mem_zipIdx_iff_getElem?, List.getElem?_eq_getElem hseen]
  · have hnumber := congrArg (·[j]?) h.numbers
    simpa [hj, hseen] using hnumber

/-! ## Pointing -/

/-- The line shows the value and points at the visit, which is one of the argument at the place: the
number of the line stands in the label of one underline, which has the columns of the part of the
signature that the visit is about, and there stands the text of the part. -/
structure Violation.Locates (call : Apply) (vocabulary : Vocabulary) (signature : Signature)
    (args : List Value) (v : Violation) (line : OffendingValue) (i : Nat) (visit : Visit)
    (x : Value) : Prop where
  met : signature.Meets call vocabulary.env args i visit
  prints : line.Prints call vocabulary.env x
  position : (i : Int) + 1 ∈ v.positions
  underline : ∃ u, v.underlines.filter (·.names line.number) = [u] ∧
    signature.span? visit.key = some (u.start, u.stop) ∧
    Span.Covers (u.start, u.stop) v.signature visit.expr.text

/-- Each line of a report points at the part where the value that it shows was met. -/
theorem Tabulates.locates (h : Tabulates I call vocabulary signature b seen)
    (haccepts : signature.accepts args.length = true) (hmarks : ∀ u ∈ b.marks, u.label = "")
    (hline : line ∈ b.values) (explanation : String) :
    ∃ o ∈ seen, ∀ i visit, o.position = i + 1 → o.key = visit.key →
      signature.Meets call vocabulary.env args i visit →
        (b.explain explanation).build.Locates call vocabulary signature args line i visit
          o.value := by
  obtain ⟨o, n, hn, hnumber, hprints⟩ := h.exists_observation hline
  have ho : o ∈ seen := List.fst_mem_of_mem_zipIdx hn
  refine ⟨o, ho, fun i visit hposition hkey hmeets => ⟨hmeets, hprints, ?_, ?_⟩⟩
  · show _ ∈ b.positions
    rw [h.positions, List.mem_eraseDups]
    exact List.mem_map.2 ⟨o, ho, by rw [hposition]; rfl⟩
  · obtain ⟨span, hspan, hcovers⟩ := hmeets.span?_covers haccepts
    have hmem : (some span, n) ∈ (seen.map fun o => signature.span? o.key).zipIdx 1 := by
      rw [List.zipIdx_map, ← hspan, ← hkey]
      exact List.mem_map_of_mem hn
    obtain ⟨u, hu, rfl⟩ := ViolationBuilder.exists_underline_of_grouped h.grouped hmarks hmem
    refine ⟨u, ?_, hspan, ?_⟩
    · rw [hnumber]
      exact hu
    · rw [← h.states] at hcovers
      exact hcovers

/-- A report of one visit has one line, which points at it. -/
theorem Tabulates.exists_line {i : Nat} {visit : Visit}
    (h : Tabulates I call vocabulary signature b [visit.seenIn i])
    (haccepts : signature.accepts args.length = true)
    (hmeets : signature.Meets call vocabulary.env args i visit)
    (hmarks : ∀ u ∈ b.marks, u.label = "") (explanation : String) :
    ∃ line, b.values = [line] ∧ (b.explain explanation).build.Locates call vocabulary signature
      args line i visit visit.value := by
  obtain ⟨line, hline⟩ := List.length_eq_one_iff.1 h.lines.length_eq
  have hmem : line ∈ b.values := by
    rw [hline]
    exact List.mem_singleton_self line
  obtain ⟨o, ho, hlocates⟩ := h.locates haccepts hmarks hmem explanation
  cases List.mem_singleton.1 ho
  exact ⟨line, hline, hlocates i visit rfl rfl hmeets⟩

end Tabulates

end Reports

section Kinds

variable (call : Apply) (vocabulary : Vocabulary) (signature : Signature) (args : List Value)

/-- The report has one line, that of a value which the part of the signature that it points at
rejects. -/
def Violation.LocatesValue (v : Violation) : Prop :=
  ∃ line i visit, v.values = [line] ∧
    v.Locates call vocabulary signature args line i visit visit.value ∧
    v.positions = [(i : Int) + 1] ∧
    visit.expr.Rejects call visit.value ∧
    v.explanation = Explanation.invalidValue visit.expr.text 1

/-- The report has one line, that of a value which lacks a type class that the signature demands at
the part that it points at. There is one more underline, without a label, and where it stands the
signature demands that type class. -/
def Violation.LocatesClass (v : Violation) : Prop :=
  ∃ line i visit name typeClass mark u, v.values = [line] ∧
    v.Locates call vocabulary signature args line i visit visit.value ∧
    v.positions = [(i : Int) + 1] ∧
    ⟨typeClass, name⟩ ∈ signature.constraints ∧
    visit.Fails call vocabulary.registry name typeClass ∧
    v.explanation = Explanation.typeClass signature.name name typeClass 1 ∧
    v.underlines.Perm [mark, u] ∧ u.names line.number = true ∧ mark.label = "" ∧
    Span.Covers (mark.start, mark.stop) v.signature (Constraint.text ⟨typeClass, name⟩)

/-- Each line of the report points at a use of one variable, and the value that it shows is the one
that was met there, or it is held by that one on a way which is the same for all lines. -/
def Violation.LocatesVariable (v : Violation) : Prop :=
  v.values ≠ [] ∧ v.explanation = Explanation.typeVariable ∧
  ∃ key : VarKey, ∀ line ∈ v.values, ∃ i spanKey targs y x,
    v.Locates call vocabulary signature args line i ⟨.var key.root targs, spanKey, y⟩ x ∧
    key.Leads call vocabulary.env y x

/-- The lines of the report point at the right places. -/
def Violation.IsLocated (v : Violation) : Prop :=
  v.signature = signature.text ∧ match v.kind with
    | .invalidValue => v.LocatesValue call vocabulary signature args
    | .typeClass => v.LocatesClass call vocabulary signature args
    | .typeVariable => v.LocatesVariable call vocabulary signature args
    | .arity => False

end Kinds

section Violations

variable {call : Apply} {vocabulary : Vocabulary} {signature : Signature} {args : List Value}
variable {I : World → Prop} {S : Value → Prop} {K : CheckState → Prop} {i : Nat} {v : Violation}

/-! ## Violations -/

/-- What was seen under a key comes from a use of the variable of the key. -/
theorem Observation.StandsAt.exists_meets {key : VarKey} {address : Address} {o : Observation}
    (h : o.StandsAt call vocabulary.env signature args key address) :
    ∃ i targs y, o.position = i + 1 ∧
      signature.Meets call vocabulary.env args i ⟨.var key.root targs, o.key, y⟩ ∧
      key.Leads call vocabulary.env y o.value := by
  obtain ⟨i, a, targs, y, b, -, hposition, hmeets, hleads⟩ := h
  exact ⟨i, targs, y, hposition, hmeets.meets, hleads.leads⟩

/-- The lines of a report point at what it was compiled from. -/
theorem Compiled.isLocated (haccepts : signature.accepts args.length = true)
    (h : Compiled call vocabulary signature args S K I i v) :
    v.IsLocated call vocabulary signature args := by
  obtain ⟨b, seen, explanation, rfl, hlines, hcloses⟩ := h
  refine ⟨hlines.states, ?_⟩
  have hkind : (b.explain explanation).build.kind = b.kind := rfl
  rw [Closes] at hcloses
  rw [hkind]
  rcases hk : b.kind with _ | _ | _ | _ <;> rw [hk] at hcloses <;> dsimp only at hcloses ⊢
  case invalidValue =>
    obtain ⟨a, visit, hmeets, -, hrejects, rfl, hmarks, rfl⟩ := hcloses
    obtain ⟨line, hline, hlocates⟩ := hlines.exists_line haccepts hmeets.meets
      (by simp [hmarks]) (Explanation.invalidValue visit.expr.text 1)
    exact ⟨line, i, visit, hline, hlocates, hlines.positions, hrejects, rfl⟩
  case typeClass =>
    obtain ⟨a, visit, name, typeClass, span, hmeets, -, hconstraint, hfails, rfl, hspan, hmarks,
      rfl⟩ := hcloses
    obtain ⟨place, hplace, -⟩ := hmeets.meets.span?_covers haccepts
    obtain ⟨line, hline, hlocates⟩ := hlines.exists_line haccepts hmeets.meets
      (by simp [hmarks]) (Explanation.typeClass signature.name name typeClass 1)
    obtain ⟨ns, hgroups, hone⟩ := ViolationBuilder.Grouped.eq_singleton
      (by simpa [Visit.seenIn, hplace] using hlines.grouped) hlines.labelled
    have hnumber : line.number = 1 := by
      simpa [hline] using hlines.numbers
    -- the mark has no label, so the group of the one value is the other underline
    refine ⟨line, i, visit, name, typeClass, ⟨span.1, span.2, ""⟩,
      ViolationBuilder.groupUnderline (place, ns), hline, hlocates, hlines.positions, hconstraint,
      hfails, rfl, ?_, ?_, rfl, ?_⟩
    · show (sortStable _ (b.marks ++ b.labelled.map ViolationBuilder.groupUnderline)).Perm _
      rw [hmarks, hgroups]
      exact perm_sortStable _ _
    · rw [hnumber]
      exact (ViolationBuilder.names_groupUnderline (place, ns) 1).2 hone
    · have hcovers := Signature.constraintSpan?_covers hspan
      rwa [← hlines.states] at hcovers
  case typeVariable =>
    obtain ⟨key, s, a, o, d, hs, ho, hvalue, -, -, -, rfl, hmarks, rfl⟩ := hcloses
    have hseen := (hs.seen key).snoc ho hvalue (Address.lt_append a 0 [])
    refine ⟨?_, rfl, key, fun line hline => ?_⟩
    · have hlength := hlines.lines.length_eq
      rw [List.length_append, List.length_singleton] at hlength
      exact List.ne_nil_of_length_eq_add_one hlength
    · obtain ⟨p, hp, hlocates⟩ := hlines.locates haccepts (by simp [hmarks]) hline
        Explanation.typeVariable
      obtain ⟨_, hstands, -⟩ := hseen.exists_standsAt hp
      obtain ⟨i, targs, y, hposition, hmeets, hleads⟩ := hstands.exists_meets
      exact ⟨i, p.key, targs, y, p.value, hlocates i _ hposition rfl hmeets, hleads⟩

/-- Reports point at the right places: if a check ends in a violation that is not about the number
of arguments, then each line points at the part of the signature where the value that it shows was
met, or the one that holds it, and the mark of a violated type class stands at its constraint.
Nothing is asked of the types, the type classes and the values. -/
theorem check_violated_located {v : Violation} {w w' : World}
    (h : (check call vocabulary signature args).outcome w = (.ok (.violated v), w')) :
    v.signature = signature.text ∧
    (v.kind = .invalidValue → v.LocatesValue call vocabulary signature args) ∧
    (v.kind = .typeClass → v.LocatesClass call vocabulary signature args) ∧
    (v.kind = .typeVariable → v.LocatesVariable call vocabulary signature args) := by
  have hconcludes := concludes_check (fun _ => course_true call vocabulary signature args)
    (fun _ _ => trivial) w trivial
  rw [h] at hconcludes
  rcases hconcludes.1 v rfl with ⟨-, rfl⟩ | ⟨haccepts, i, hcompiled⟩
  · exact ⟨rfl, nofun, nofun, nofun⟩
  obtain ⟨hsignature, hlocated⟩ := hcompiled.isLocated haccepts
  refine ⟨hsignature, ?_, ?_, ?_⟩ <;>
  · intro hkind
    rw [hkind] at hlocated
    exact hlocated

theorem check_violated_located_elementOf : ∃ v : Violation,
    (∃ w, (check applyFunction .standard elementOf
      [.list [.str "x"], .list [.list [.bool true]]]).outcome .initial = (.ok (.violated v), w)) ∧
    v.underlines = [⟨20, 21, "1"⟩, ⟨31, 32, "2"⟩] ∧
    v.LocatesVariable applyFunction .standard elementOf
      [.list [.str "x"], .list [.list [.bool true]]] := by
  have hviolated : ∃ v w, (check applyFunction .standard elementOf
      [.list [.str "x"], .list [.list [.bool true]]]).outcome .initial = (.ok (.violated v), w) ∧
        v.kind = .typeVariable ∧ v.underlines = [⟨20, 21, "1"⟩, ⟨31, 32, "2"⟩] :=
    ⟨_, _, rfl, rfl, rfl⟩
  obtain ⟨v, w, hviolated, hkind, hunderlines⟩ := hviolated
  exact ⟨v, ⟨w, hviolated⟩, hunderlines, (check_violated_located hviolated).2.2.2 hkind⟩

end Violations

end CheckedCalls
