import CheckedCalls.Evaluate
import CheckedCalls.Proofs.Compiling
import CheckedCalls.Proofs.Drawing
import CheckedCalls.Proofs.Nesting
import CheckedCalls.Proofs.OneLine

/-!
# The layout of reports

The sections of a report are told apart by blank lines, so a report keeps its layout if no text in
it has a line break of its own (`Violation.exists_sections`). The texts that a check prints have
none: values of the library are printed on one line, and a signature is one line if the names in it
are. The marks of a report lie inside the signature, since an arrow follows each slot, and at least
one of them has a label (`Compiled.exists_marks`). So the report on any call with data keeps its
layout (`check_violated_laidOut`), but for names with line breaks, which are shown as they are.
-/

namespace CheckedCalls

open CheckState Checking Check Text

/-! ## Sections -/

namespace Text

/-- The sections of a text, each by its lines: a blank line stands between two. -/
def sections (s : String) : List (List String) :=
  ((s.toList.splitOn '\n').map String.ofList).splitOn ""

variable {blocks : List (List String)}

/-- Sections between blank lines are lines, some of them empty. -/
theorem intercalate_sections (hblocks : ∀ block ∈ blocks, block ≠ []) :
    "\n\n".intercalate (blocks.map "\n".intercalate) =
      "\n".intercalate ([""].intercalate blocks) := by
  induction blocks with
  | nil => simp
  | cons block rest ih =>
    rw [List.forall_mem_cons] at hblocks
    cases rest with
    | nil => simp
    | cons next rest =>
      have hnext : [""].intercalate (next :: rest) ≠ [] := by
        cases rest with
        | nil => simpa using hblocks.2 next
        | cons => simp [List.intercalate_cons_cons]
      have hempty : "\n".intercalate ([""] ++ [""].intercalate (next :: rest)) =
          "\n" ++ "\n".intercalate ([""].intercalate (next :: rest)) := by
        rw [String.intercalate_append_of_ne_nil (by simp) hnext]
        simp
      have hblank : "\n\n" = "\n" ++ "\n" := rfl
      rw [List.map_cons, List.map_cons, String.intercalate_cons_cons, ← List.map_cons, ih hblocks.2,
        List.intercalate_cons_cons, List.append_assoc,
        String.intercalate_append_of_ne_nil hblocks.1 (by simp), hempty, hblank]
      simp only [String.append_assoc]

/-- A text that is put together from sections has just these sections. -/
theorem sections_intercalate (hne : blocks ≠ []) (hblocks : ∀ block ∈ blocks, block ≠ [])
    (hlines : ∀ block ∈ blocks, ∀ line ∈ block, IsLine line ∧ line ≠ "") :
    sections ("\n\n".intercalate (blocks.map "\n".intercalate)) = blocks := by
  have hall : ∀ line ∈ [""].intercalate blocks, IsLine line := by
    intro line hline
    by_contra hbreak
    refine not_mem_intercalate ?_ (fun block hblock hmem => ?_) hline
    · rw [List.mem_singleton]
      rintro rfl
      exact hbreak (by simp [IsLine])
    · exact hbreak (hlines block hblock line hmem).1
  have hsome : [""].intercalate blocks ≠ [] := by
    obtain ⟨block, rest, rfl⟩ := List.exists_cons_of_ne_nil hne
    cases rest with
    | nil => simpa using hblocks
    | cons => simp [List.intercalate_cons_cons]
  have hsplit : ("\n".intercalate ([""].intercalate blocks)).toList.splitOn '\n' =
      ([""].intercalate blocks).map String.toList := by
    rw [String.toList_intercalate]
    refine List.splitOn_intercalate '\n' (fun cs hcs => ?_) (by simpa using hsome)
    obtain ⟨line, hline, rfl⟩ := List.mem_map.1 hcs
    exact hall line hline
  have hback : (String.ofList ∘ String.toList) = id := funext fun _ => String.ofList_toList
  rw [intercalate_sections hblocks, sections, hsplit, List.map_map, hback, List.map_id]
  have hnoblank : ∀ block ∈ blocks, "" ∉ block := fun block hblock hmem =>
    (hlines block hblock "" hmem).2 rfl
  exact List.splitOn_intercalate "" hnoblank hne

end Text

/-- The report of the violation has its layout: it ends with a line end, and before that its
sections are the title, the signature, one line for each value and the closing sentence. The
signature stands alone if the number of arguments is wrong; else it stands above its carets, which
mark columns of it, and the labels of these. -/
def Violation.IsLaidOut (v : Violation) : Prop :=
  ∃ body block, v.report? = some (body ++ "\n") ∧ body.toList.getLast? ≠ some '\n' ∧
    sections body = [[v.kind.title], block] ++ v.values.map (fun line => [line.line]) ++
      [[v.explanation]] ∧
    match v.kind with
    | .arity => block = [v.signature]
    | _ => ∃ carets labels, block = [v.signature, carets, labels] ∧
      Markers.lines? v.underlines = some (carets, labels) ∧ '^' ∈ carets.toList ∧
      ∀ column : Nat, carets.toList[column]? = some '^' → column < v.signature.length

/-- The sections of a report whose texts have no line breaks. -/
theorem Violation.exists_sections {v : Violation} {block : List String}
    (hblock : v.signatureLines? = some block) (hne : block ≠ [])
    (hlines : ∀ line ∈ block, IsLine line ∧ line ≠ "")
    (hvalues : ∀ line ∈ v.values, IsLine line.line) (hexplanation : IsLine v.explanation)
    (hexplains : v.explanation ≠ "") :
    ∃ body, v.report? = some (body ++ "\n") ∧ body.toList.getLast? ≠ some '\n' ∧
      sections body = [[v.kind.title], block] ++ v.values.map (fun line => [line.line]) ++
        [[v.explanation]] := by
  have htitle : IsLine v.kind.title ∧ v.kind.title ≠ "" := by
    cases v.kind <;> simp [ViolationKind.title, IsLine]
  have hline : ∀ line ∈ v.values, line.line ≠ "" := by
    intro line _
    simp [OffendingValue.line]
  let blocks := [[v.kind.title], block] ++ v.values.map (fun line => [line.line]) ++
    [[v.explanation]]
  have hblocks : ∀ b ∈ blocks, b ≠ [] := by
    simp only [blocks, List.mem_append, List.mem_cons, List.mem_map, List.not_mem_nil, or_false]
    rintro b (((rfl | rfl) | ⟨line, -, rfl⟩) | rfl)
    · simp
    · exact hne
    · simp
    · simp
  have hall : ∀ b ∈ blocks, ∀ line ∈ b, IsLine line ∧ line ≠ "" := by
    simp only [blocks, List.mem_append, List.mem_cons, List.mem_map, List.not_mem_nil, or_false]
    rintro b (((rfl | rfl) | ⟨line, hmem, rfl⟩) | rfl)
    · simpa using htitle
    · exact hlines
    · simpa using ⟨hvalues line hmem, hline line hmem⟩
    · simpa using ⟨hexplanation, hexplains⟩
  refine ⟨"\n\n".intercalate (blocks.map "\n".intercalate), ?_, ?_,
    sections_intercalate (by simp [blocks]) hblocks hall⟩
  · have hexplained : v.explanation.isEmpty = false := by simpa using hexplains
    rw [report?, sections?, hblock]
    simp [blocks, hexplained, Function.comp_def]
  · -- the text ends with the closing sentence
    intro hlast
    have hsentence : "\n\n".intercalate ([[v.explanation]].map "\n".intercalate) =
        v.explanation := by simp
    rw [List.map_append, String.intercalate_append_of_ne_nil (by simp) (by simp), hsentence,
      String.toList_append, List.getLast?_append_of_ne_nil _ (by simpa using hexplains)] at hlast
    exact hexplanation (List.mem_of_getLast? hlast)

/-! ## Marker lines -/

namespace Underline

/-- The underline lies in the first columns of a line. -/
def Within (u : Underline) (n : Nat) : Prop := 0 ≤ u.start ∧ u.start < n ∧ u.stop ≤ n

/-- A column that an underline within a text covers is a column of the text. -/
theorem Within.lt_of_covers {u : Underline} {n column : Nat} (h : u.Within n)
    (hcovers : u.Covers column) : column < n := by
  obtain ⟨-, hlt⟩ := hcovers
  obtain ⟨hstart, hinside, hstop⟩ := h
  rw [width] at hlt
  omega

/-- An underline covers the column where it starts. -/
theorem covers_start {u : Underline} (h : 0 ≤ u.start) : u.Covers u.start.toNat := by
  have hwidth := u.width_pos
  rw [Covers]
  omega

end Underline

namespace Markers

variable {us : List Underline} {n : Nat}

/-- Nothing but blanks and labels stands in a line of labels. -/
theorem mem_foldl_place {us : List Underline} {line : List Char} {c : Char}
    (hc : c ∈ us.foldl place line) : c ∈ line ∨ c = ' ' ∨ ∃ u ∈ us, c ∈ u.label.toList := by
  induction us generalizing line with
  | nil => exact .inl hc
  | cons u us ih =>
    have hplace : c ∈ place line u → c ∈ line ∨ c = ' ' ∨ c ∈ u.label.toList := by
      intro hc
      unfold place at hc
      split at hc
      · exact .inl hc
      · simp only [padTo, List.mem_append, List.mem_replicate] at hc
        tauto
    rcases ih hc with hline | hspace | ⟨v, hv, hmem⟩
    · rcases hplace hline with hline | hspace | hlabel
      · exact .inl hline
      · exact .inr (.inl hspace)
      · exact .inr (.inr ⟨u, List.mem_cons_self, hlabel⟩)
    · exact .inr (.inl hspace)
    · exact .inr (.inr ⟨v, List.mem_cons_of_mem _ hv, hmem⟩)

/-- Underlines within a line, of which one has a label, are drawn as two lines, and the carets mark
columns of the line. -/
theorem exists_lines (hwithin : ∀ u ∈ us, u.Within n)
    (hblanks : ∀ u ∈ us, ∀ c ∈ u.label.toList, isBlank c = false)
    (hlabel : ∃ u ∈ us, u.label ≠ "") :
    ∃ carets labels, lines? us = some (carets, labels) ∧ IsLine carets ∧ IsLine labels ∧
      labels ≠ "" ∧ '^' ∈ carets.toList ∧
      ∀ column : Nat, carets.toList[column]? = some '^' → column < n := by
  have hstart : ∀ u ∈ us, 0 ≤ u.start := fun u hu => (hwithin u hu).1
  have hdrawn := drawn_carets fun u hu => hstart u (mem_sorted.1 hu)
  refine ⟨_, _, lines?_eq hstart, ?_, ?_, ?_, ?_, fun column hcaret => ?_⟩
  · rw [isLine_ofList]
    intro hbreak
    obtain ⟨column, hcolumn⟩ := List.mem_iff_getElem?.1 hbreak
    rcases hdrawn.space column _ hcolumn with h | h <;> exact absurd h (by decide)
  · rw [trimEnd_labels hblanks, isLine_ofList]
    intro hbreak
    rcases mem_foldl_place hbreak with h | h | ⟨u, hu, hmem⟩
    · cases h
    · exact absurd h (by decide)
    · exact absurd (hblanks u (mem_sorted.1 hu) _ hmem) (by decide)
  · -- the label that there is makes a word of the line
    have hspaces : ∀ u ∈ us, ' ' ∉ u.label.toList := fun u hu hspace =>
      absurd (hblanks u hu _ hspace) (by decide)
    obtain ⟨u, hu, hne⟩ := hlabel
    have hword : u.label.toList ∈ words (labels (sorted us)) := by
      rw [(labelled_labels hspaces).words, words_nil, List.nil_append]
      exact List.mem_map.2 ⟨u, List.mem_filter.2 ⟨mem_sorted.2 hu, by simpa using hne⟩, rfl⟩
    rw [trimEnd_labels hblanks]
    intro hempty
    rw [String.ofList_eq_empty_iff.1 hempty] at hword
    cases hword
  · obtain ⟨u, hu, -⟩ := hlabel
    rw [String.toList_ofList]
    exact List.mem_of_getElem? ((hdrawn.caret _).2
      ⟨u, mem_sorted.2 hu, Underline.covers_start (hstart u hu)⟩)
  · rw [String.toList_ofList, hdrawn.caret] at hcaret
    obtain ⟨u, hu, hcovers⟩ := hcaret
    exact (hwithin u (mem_sorted.1 hu)).lt_of_covers hcovers

end Markers

/-! ## Columns of a signature -/

/-- A text that is not empty stands within the line that it is covered in. -/
theorem Span.Covers.within {span : Span} {line text : String} (h : Span.Covers span line text)
    (hne : text ≠ "") (label : String) :
    (Underline.mk span.1 span.2 label).Within line.length := by
  obtain ⟨before, after, rfl, rfl⟩ := h
  have hpos : 0 < text.length := by
    rw [Nat.pos_iff_ne_zero, ← String.length_toList, ne_eq, List.length_eq_zero_iff]
    simpa using hne
  simp only [Underline.Within, String.length_append]
  omega

/-- An arrow follows each slot, so the columns of its parts lie within the signature, also if their
text is empty. -/
theorem Signature.span?_within {s : Signature} {i : Nat} {path : SpanKey} {span : Span}
    {part : String} (hi : i < s.slots.length) (h : s.span? (i :: path) = some span)
    (hcovers : Span.Covers span s.text part) (label : String) :
    (Underline.mk span.1 span.2 label).Within s.text.length := by
  have hle : span.1 ≤ span.2 := by
    obtain ⟨before, after, -, rfl⟩ := hcovers
    simp only [String.length_append]
    omega
  obtain ⟨columns, hcolumns, rfl⟩ := Option.map_eq_some_iff.1 h
  have hmem := mem_of_lookup hcolumns
  rw [spans] at hmem
  rcases List.mem_append.1 hmem with hmem | hmem
  · have hbounds := bounds_slotSpans hmem
    simp only [Underline.Within, toSpan] at hle ⊢
    simp only [text, String.length_ofList, chars, List.length_append]
    simp only [List.length_append] at hbounds
    omega
  · obtain ⟨j, hj⟩ := TypeExpr.prefix_of_mem_spans hmem
    obtain rfl := (List.cons.inj hj).1
    omega

/-! ## Names -/

mutual

/-- The variables are identifiers, and the names of the types have no line breaks. -/
def TypeExpr.IsInline : TypeExpr → Prop
  | .var name args => isIdentifier name = true ∧ TypeExpr.AllInline args
  | .concrete t args => IsLine t.name ∧ TypeExpr.AllInline args
  | .fn params result => TypeExpr.AllInline params ∧ TypeExpr.IsInline result
  | .foreign => True

/-- So it is for all the expressions. -/
def TypeExpr.AllInline : List TypeExpr → Prop
  | [] => True
  | e :: es => TypeExpr.IsInline e ∧ TypeExpr.AllInline es

end

/-- The variables of the signature are identifiers, and no other name in it has a line break. -/
structure Signature.IsInline (s : Signature) : Prop where
  name : IsLine s.name
  constraints : ∀ c ∈ s.constraints, IsLine c.typeClass ∧ isIdentifier c.variableName = true
  slots : ∀ slot ∈ s.slots, slot.type.IsInline
  returns : s.returns.IsInline

namespace TypeExpr

theorem not_mem_bracket {text : List Char} (h : '\n' ∉ text) (wanted : Bool) :
    '\n' ∉ bracket wanted text := by
  rw [bracket]
  split <;> simp [h]

mutual

/-- An inline expression is written without a line break. -/
theorem not_mem_chars : ∀ (e : TypeExpr) (nested : Bool), e.IsInline → '\n' ∉ e.chars nested
  | .var name args, nested, h => by
    rw [chars]
    refine not_mem_bracket ?_ _
    rw [List.mem_append, not_or]
    exact ⟨isLine_of_isIdentifier h.1, not_mem_argumentChars args h.2⟩
  | .concrete t args, nested, h => by
    rw [chars]
    refine not_mem_bracket ?_ _
    rw [List.mem_append, not_or]
    exact ⟨h.1, not_mem_argumentChars args h.2⟩
  | .fn params result, nested, h => by
    rw [chars]
    simp [not_mem_paramChars params h.1, not_mem_chars result false h.2]
  | .foreign, nested, h => by
    rw [chars]
    decide

/-- Inline arguments are written without a line break. -/
theorem not_mem_argumentChars : ∀ es : List TypeExpr, AllInline es → '\n' ∉ argumentChars es
  | [], _ => by simp [argumentChars]
  | e :: es, h => by
    rw [argumentChars]
    simp [not_mem_chars e true h.1, not_mem_argumentChars es h.2]

theorem not_mem_paramChars : ∀ es : List TypeExpr, AllInline es → '\n' ∉ paramChars es
  | [], _ => by simp [paramChars]
  | e :: es, h => by
    rw [paramChars]
    simp [not_mem_chars e false h.1, not_mem_paramChars es h.2, arrow]

end

end TypeExpr

namespace Signature

theorem isLine_constraint {c : Constraint} (hclass : IsLine c.typeClass)
    (hname : isIdentifier c.variableName = true) : IsLine c.text :=
  (hclass.append (by simp [IsLine])).append (isLine_of_isIdentifier hname)

theorem not_mem_constraintListChars {cs : List Constraint} (h : ∀ c ∈ cs, IsLine c.text) :
    '\n' ∉ constraintListChars cs := by
  fun_induction constraintListChars cs with
  | case1 => simp
  | case2 c => exact h c List.mem_cons_self
  | case3 c cs hne ih =>
    rw [List.forall_mem_cons] at h
    simp [show '\n' ∉ c.text.toList from h.1, ih h.2]

theorem not_mem_slotChars {slots : List Slot} (h : ∀ slot ∈ slots, slot.type.IsInline) :
    '\n' ∉ slotChars slots := by
  induction slots with
  | nil => simp [slotChars]
  | cons slot rest ih =>
    rw [List.forall_mem_cons] at h
    have hellipsis : '\n' ∉ ellipsis slot := by
      rw [ellipsis]
      split <;> decide
    simp [slotChars, hellipsis, TypeExpr.not_mem_chars _ _ h.1, ih h.2, TypeExpr.arrow]

/-- A signature is one line if the names in it are. -/
theorem isLine_text {s : Signature} (h : s.IsInline) : IsLine s.text := by
  have hname : '\n' ∉ s.name.toList := h.name
  have hlist : '\n' ∉ constraintListChars s.constraints := not_mem_constraintListChars fun c hc =>
    isLine_constraint (h.constraints c hc).1 (h.constraints c hc).2
  have hcontext : '\n' ∉ contextChars s.constraints := by
    rw [contextChars, contextChars.bracketed]
    split
    · simp
    · simp [TypeExpr.not_mem_bracket hlist]
  rw [text, isLine_ofList, chars, headChars]
  simp [hname, hcontext, not_mem_slotChars h.slots, TypeExpr.not_mem_chars _ _ h.returns]

theorem text_ne_empty (s : Signature) : s.text ≠ "" := by
  simp [text, chars, headChars]

end Signature

/-! ## Surroundings -/

/-- Asked about data, the type gives no object a text of its own, and it hands out data only. -/
structure NamedType.IsHarmless (call : Apply) (t : NamedType) : Prop where
  contained : ∀ x, x.isInline = true → (t.contains call x).Preserves World.Untitled
  opened : ∀ e, t.extraction = some e → ∀ x, x.isInline = true →
    Run.Concludes World.Untitled (fun _ => True) (e.run call x) fun params =>
      ∀ j y, FoundAt params j y → y.isInline = true

section Harmless

variable {I : World → Prop} {call : Apply}

theorem Run.Preserves.bind {α β : Type} {r : Run α} {f : α → Run β} (hr : r.Preserves I)
    (hf : ∀ a, (f a).Preserves I) : (r >>= f).Preserves I :=
  concludes_bind hr fun a _ => hf a

theorem Run.preserves_pure {α : Type} (a : α) : Preserves I (pure a : Run α) :=
  concludes_pure trivial

theorem preserves_filterM {p : NamedType → Run Bool} {types : List NamedType}
    (hp : ∀ t ∈ types, (p t).Preserves I) : (types.filterM p).Preserves I := by
  have haux : ∀ acc, (List.filterAuxM p types acc).Preserves I := by
    induction types with
    | nil => exact fun acc => Run.preserves_pure acc
    | cons t types ih =>
      intro acc
      rw [List.forall_mem_cons] at hp
      rw [List.filterAuxM]
      exact hp.1.bind fun b => ih hp.2 _
  exact (haux []).bind fun types => Run.preserves_pure _

/-- What runs through tuples is what the tuples hold. -/
theorem mem_of_foundAt {held : List (List Value)} {j : Nat} {y : Value}
    (h : FoundAt (held.map .tuple) j y) : ∃ items ∈ held, y ∈ items := by
  obtain ⟨tuple, ys, htuple, hruns, hy⟩ := h
  rw [List.getElem?_map] at htuple
  obtain ⟨items, hitems, rfl⟩ := Option.map_eq_some_iff.1 htuple
  have hsame : (pure items : Run (List Value)) = pure ys := hruns
  obtain rfl : items = ys := Except.ok.inj (congrArg Run.result hsame)
  exact ⟨items, List.mem_of_getElem? hitems, hy⟩

/-- The elements of data are data. -/
theorem Value.concludes_elements_inline {v : Value} (hv : v.isInline = true) :
    Run.Concludes I (fun _ => True) v.elements fun xs => ∀ x ∈ xs, x.isInline = true := by
  cases v with
  | seq k t xs => exact Run.concludes_pure (areInline_iff.1 hv)
  | dict t es =>
    refine Run.concludes_pure fun x hx => ?_
    obtain ⟨e, he, rfl⟩ := List.mem_map.1 hx
    exact (areInlineEntries_iff.1 hv e he).1
  | text t s =>
    refine Run.concludes_pure fun x hx => ?_
    obtain ⟨c, -, rfl⟩ := List.mem_map.1 hx
    rfl
  | bytes t bs =>
    refine Run.concludes_pure fun x hx => ?_
    obtain ⟨b, -, rfl⟩ := List.mem_map.1 hx
    rfl
  | _ => exact Run.concludes_throw trivial

theorem Value.isInline_of_payload? {v x : Value} (hv : v.isInline = true) (hx : x ∈ v.payload?) :
    x.isInline = true := by
  cases v <;> cases hx <;> first | exact hv | cases hv

/-- Tuples of data hand out data only. -/
theorem concludes_tuples {held : List (List Value)}
    (h : ∀ items ∈ held, ∀ y ∈ items, y.isInline = true) :
    Run.Concludes I (fun _ => True) (pure (held.map .tuple)) fun params =>
      ∀ j y, FoundAt params j y → y.isInline = true :=
  Run.concludes_pure fun _ y hy => by
    obtain ⟨items, hitems, hmem⟩ := mem_of_foundAt hy
    exact h items hitems y hmem

/-- The types of the library are harmless. -/
theorem StandardType.isHarmless (call : Apply) (t : StandardType) : t.named.IsHarmless call where
  contained x _ := by
    rw [contains_named]
    exact Run.preserves_liftM _
  opened e he x hx := by
    have hpayload : ∀ y ∈ x.payload?.toList, y.isInline = true := by
      intro y hy
      exact Value.isInline_of_payload? hx (Option.mem_toList.1 hy)
    have hheld : ∀ b, ∀ y ∈ (x.heldBy? b).toList, y.isInline = true := by
      intro b y hy
      rw [Value.heldBy?] at hy
      split at hy
      · exact hpayload y hy
      · cases hy
    cases t <;> cases he
    · refine Run.concludes_bind (Value.concludes_elements_inline hx) fun xs hxs =>
        concludes_tuples (List.forall_mem_singleton.2 hxs)
    · refine concludes_tuples (List.forall_mem_cons.2 ⟨hheld .left,
        List.forall_mem_singleton.2 fun y hy => ?_⟩)
      split at hy
      · cases hy
      · exact hpayload y hy
    · exact concludes_tuples (List.forall_mem_singleton.2 (hheld .just))

/-- What is found in containers they hand out. -/
theorem handed_of_foundAt {S : Value → Prop} {params : List Value}
    (h : ∀ j y, FoundAt params j y → S y) : Handed World.Untitled (fun _ => True) S params := by
  intro items hitems
  obtain ⟨j, hj, rfl⟩ := List.getElem_of_mem hitems
  have hkeeps : Run.Concludes World.Untitled (fun _ => True) params[j].elements fun _ => True := by
    intro w hw
    cases params[j] <;> first | exact trivial | exact ⟨trivial, hw⟩
  refine (hkeeps.and_ensures params[j].ensures_elements).mono fun xs ⟨_, hxs⟩ x hx => ?_
  exact h j x ⟨_, xs, List.getElem?_eq_getElem hj, hxs, hx⟩

/-- Checks of data with harmless types meet data only, and no object is given a text. -/
theorem course_of_harmless {vocabulary : Vocabulary} {signature : Signature}
    (htypes : ∀ t, t ∈ vocabulary.env ∨ signature.Mentions t → t.IsHarmless call)
    (hclasses : ∀ c x, x.isInline = true →
      (vocabulary.registry.satisfies call c x).Preserves World.Untitled) (args : List Value) :
    Course World.Untitled (fun _ => True) call vocabulary signature args
      (fun x => x.isInline = true) fun _ => True where
  text _ hx := (Value.concludes_line call hx).mono fun _ _ => trivial
  described x hx := by
    refine Run.Preserves.bind (preserves_filterM fun t ht => ?_) fun types => Run.preserves_pure _
    exact (htypes t (.inl ht)).contained x hx
  satisfied c _ := hclasses c.typeClass
  represented _ _ _ _ _ := trivial
  contained _ _ t _ _ x hx hmeets := by
    have hharmless := htypes t (.inr hmeets.mentions)
    exact (hharmless.contained x hx).mono fun _ _ _ e he =>
      (hharmless.opened e he x hx).mono fun _ => handed_of_foundAt
  foreign _ _ _ _ _ := trivial
  unfolded s _ _ e x _ hx _ := fun ⟨t, ht, hte⟩ _ =>
    ((htypes t (.inl ht)).opened e hte x hx).mono fun _ hfound =>
      handed_of_foundAt fun j y hy => ⟨hfound j y hy, .inl trivial⟩
  start := trivial
  kept _ _ _ _ _ _ _ _ := trivial
  noted _ := fun w hw => ⟨trivial, hw⟩

/-- The type classes of the library give no object a text. -/
theorem Registry.preserves_satisfies_standard (call : Apply) (c : String) (x : Value) :
    (Registry.standard.satisfies call c x).Preserves I := by
  rw [satisfies_standard]
  exact Run.preserves_liftM _

end Harmless

section Violations

variable {call : Apply} {vocabulary : Vocabulary} {signature : Signature} {args : List Value}
variable {v : Violation} {i : Nat} {S : Value → Prop} {I : World → Prop} {K : CheckState → Prop}
variable {b : ViolationBuilder} {seen : List Observation} {explanation : String}

/-! ## Parts of a report -/

/-- The line of a value of the library has no line break. -/
theorem OffendingValue.PrintsIn.isLine {env : List NamedType} {line : OffendingValue} {x : Value}
    (h : line.PrintsIn World.Untitled call env x) (hx : x.isInline = true)
    (henv : ∀ t ∈ env, IsLine t.name) : IsLine line.line := by
  have htext : IsLine line.text := by
    obtain ⟨w, hw, hanswer⟩ := h.text
    have hline := Value.concludes_line call hx w hw
    rcases hout : (x.toText call).outcome w with ⟨e | s, w'⟩
    · rw [hout] at hanswer
      cases hanswer
    · rw [hout] at hanswer hline
      cases hanswer
      exact hline.1
  have htypes : ∀ name ∈ line.types, IsLine name := by
    obtain ⟨d, ⟨w, -, hanswer⟩, htypes⟩ := h.types
    intro name hname
    rw [htypes] at hname
    obtain ⟨t, ht, rfl⟩ := List.mem_map.1 hname
    rcases ensures_describe_mem call env x w d hanswer t ht with ht | rfl
    · exact henv t ht
    · exact Value.isLine_nominalName hx
  simp only [OffendingValue.line, isLine_append]
  exact ⟨⟨⟨⟨isLine_toString_int _, by simp [IsLine]⟩, htext⟩, by simp [IsLine]⟩,
    .intercalate (by simp [IsLine]) htypes⟩

/-- No blank stands in the label of a group. -/
theorem ViolationBuilder.isBlank_groupUnderline (group : Span × List Nat) :
    ∀ c ∈ (groupUnderline group).label.toList, isBlank c = false := by
  have hdigits : ∀ d < 10, isBlank (Nat.digitChar d) = false := by decide
  intro c hc
  by_contra hblank
  rw [groupUnderline, String.toList_intercalate] at hc
  refine not_mem_intercalate ?_ (fun part hpart hmem => ?_) hc
  · rintro hcomma
    obtain rfl : c = ',' := by simpa using hcomma
    exact hblank (by decide)
  · obtain ⟨number, hnumber, rfl⟩ := List.mem_map.1 hpart
    obtain ⟨n, -, rfl⟩ := List.mem_map.1 hnumber
    rw [show toString n = n.repr from rfl, Nat.toList_repr] at hmem
    obtain ⟨d, hd, rfl⟩ := exists_digit_of_mem_toDigits (by decide) hmem
    exact hblank (hdigits d hd)

/-- The label of a group of values is not empty. -/
theorem ViolationBuilder.label_groupUnderline_ne {group : Span × List Nat} (h : group.2 ≠ []) :
    (groupUnderline group).label ≠ "" := by
  obtain ⟨span, ns⟩ := group
  obtain ⟨n, ns, rfl⟩ := List.exists_cons_of_ne_nil h
  intro hempty
  have hnames := (names_groupUnderline (span, n :: ns) n).2 List.mem_cons_self
  rw [Underline.names_of_unlabelled hempty n] at hnames
  cases hnames

/-- What is underlined in a report are the places of its marks and those of its groups. -/
theorem ViolationBuilder.mem_underlines {b : ViolationBuilder} {explanation : String}
    {u : Underline} : u ∈ (b.explain explanation).build.underlines ↔
      u ∈ b.marks ∨ ∃ group ∈ b.labelled, groupUnderline group = u := by
  rw [← List.mem_map, ← List.mem_append]
  exact (perm_sortStable _ _).mem_iff

/-- A value that was met points at columns within the signature. -/
theorem Observation.IsMet.exists_span {o : Observation}
    (haccepts : signature.accepts args.length = true)
    (h : o.IsMet call vocabulary signature args) : ∃ span, signature.span? o.key = some span ∧
      ∀ label, (Underline.mk span.1 span.2 label).Within signature.text.length := by
  obtain ⟨i, part, y, key, -, hmeets, -⟩ := h
  obtain ⟨span, hspan, hcovers⟩ := hmeets.span?_covers haccepts
  obtain ⟨a, path, ha, hkey, -⟩ := hmeets
  have hi := slotFor_lt haccepts (List.getElem?_eq_some_iff.1 ha).1
  have hplace : signature.span? (signature.slotFor i :: path) = some span := hkey ▸ hspan
  exact ⟨span, hspan, Signature.span?_within hi hplace hcovers⟩

/-- The marks, of which only a constraint gets one, have no label. -/
theorem Closes.marks (h : Closes call vocabulary signature args S K I i b seen explanation) :
    ∀ u ∈ b.marks, u.label = "" ∧ u.Within signature.text.length := by
  unfold Closes at h
  split at h
  · obtain ⟨a, visit, -, -, -, -, hmarks, -⟩ := h
    simp [hmarks]
  · obtain ⟨a, visit, name, typeClass, span, -, -, -, -, -, hspan, hmarks, -⟩ := h
    rw [hmarks, List.forall_mem_singleton]
    exact ⟨rfl, (Signature.constraintSpan?_covers hspan).within (by simp [Constraint.text]) ""⟩
  · obtain ⟨key, s, a, o, d, -, -, -, -, -, -, -, hmarks, -⟩ := h
    simp [hmarks]
  · exact h.elim

/-- The columns of a group are those that one of its observations points at. -/
theorem Tabulates.exists_of_mem_labelled {group : Span × List Nat}
    (h : Tabulates I call vocabulary signature b seen)
    (hgroup : group ∈ b.labelled) : ∃ o ∈ seen, signature.span? o.key = some group.1 := by
  obtain ⟨n, hn⟩ := List.exists_mem_of_ne_nil _ (h.labelled group hgroup)
  have hzip := (h.grouped.inGroup_iff group.1 n).1 ⟨group.2, hgroup, hn⟩
  exact List.mem_map.1 (List.fst_mem_of_mem_zipIdx hzip)

/-- An observation that points at columns belongs to a group. -/
theorem Tabulates.exists_mem_labelled {o : Observation} {span : Span}
    (h : Tabulates I call vocabulary signature b seen)
    (ho : o ∈ seen) (hspan : signature.span? o.key = some span) :
    ∃ group ∈ b.labelled, group.2 ≠ [] := by
  obtain ⟨place, hplace, rfl⟩ := List.getElem_of_mem ho
  have hzip : (some span, 1 + place) ∈ (seen.map fun o => signature.span? o.key).zipIdx 1 :=
    List.mk_mem_zipIdx_iff_le_and_getElem?_sub.2 ⟨by omega, by simp [hplace, hspan]⟩
  obtain ⟨ns, hgroup, hn⟩ := (h.grouped.inGroup_iff span _).2 hzip
  exact ⟨(span, ns), hgroup, List.ne_nil_of_mem hn⟩

/-- The marks of a report are those of the values and of a constraint. They lie within the
signature, and one of them has a label. -/
theorem Compiled.exists_marks (haccepts : signature.accepts args.length = true)
    (h : Compiled call vocabulary signature args S K I i v) :
    v.signature = signature.text ∧
    (∀ u ∈ v.underlines, u.Within signature.text.length) ∧
    (∀ u ∈ v.underlines, ∀ c ∈ u.label.toList, isBlank c = false) ∧
    ∃ u ∈ v.underlines, u.label ≠ "" := by
  obtain ⟨b, seen, explanation, rfl, hlines, hcloses⟩ := h
  have horderly := hcloses.orderly
  refine ⟨hlines.states, fun u hu => ?_, fun u hu => ?_, ?_⟩
  · rcases ViolationBuilder.mem_underlines.1 hu with hu | ⟨group, hgroup, rfl⟩
    · exact (hcloses.marks u hu).2
    · obtain ⟨o, ho, hplace⟩ := hlines.exists_of_mem_labelled hgroup
      obtain ⟨span, hspan, hwithin⟩ := (horderly.met o ho).exists_span haccepts
      obtain rfl : span = group.1 := Option.some_inj.1 (hspan.symm.trans hplace)
      exact hwithin _
  · rcases ViolationBuilder.mem_underlines.1 hu with hu | ⟨group, -, rfl⟩
    · simp [(hcloses.marks u hu).1]
    · exact ViolationBuilder.isBlank_groupUnderline group
  · obtain ⟨o, ho, -⟩ := horderly.last
    have hseen := List.mem_of_getLast? ho
    obtain ⟨span, hspan, -⟩ := (horderly.met o hseen).exists_span haccepts
    obtain ⟨group, hgroup, hne⟩ := hlines.exists_mem_labelled hseen hspan
    exact ⟨_, ViolationBuilder.mem_underlines.2 (.inr ⟨group, hgroup, rfl⟩),
      ViolationBuilder.label_groupUnderline_ne hne⟩

theorem Span.Covers.isLine {span : Span} {line text : String} (h : Span.Covers span line text)
    (hline : IsLine line) : IsLine text := by
  obtain ⟨before, after, rfl, -⟩ := h
  exact (isLine_append.1 (isLine_append.1 hline).1).2

/-- The closing sentence quotes a part of the signature, or names in it. -/
theorem Compiled.isLine_explanation (haccepts : signature.accepts args.length = true)
    (hsignature : signature.IsInline)
    (h : Compiled call vocabulary signature args S K I i v) :
    v.kind ≠ .arity ∧ IsLine v.explanation ∧ v.explanation ≠ "" := by
  obtain ⟨b, seen, explanation, rfl, -, hcloses⟩ := h
  show b.kind ≠ .arity ∧ IsLine explanation ∧ explanation ≠ ""
  unfold Closes at hcloses
  split at hcloses
  · rename_i hkind
    obtain ⟨a, visit, hmeets, -, -, -, -, rfl⟩ := hcloses
    obtain ⟨span, -, hcovers⟩ := hmeets.meets.span?_covers haccepts
    have hpart := hcovers.isLine (Signature.isLine_text hsignature)
    unfold Explanation.invalidValue
    refine ⟨by simp [hkind], ?_, by simp⟩
    simp only [isLine_append]
    exact ⟨⟨⟨⟨by simp [IsLine], isLine_toString_int 1⟩, by simp [IsLine]⟩, hpart⟩, by simp [IsLine]⟩
  · rename_i hkind
    obtain ⟨a, visit, name, typeClass, span, -, -, hconstraint, -, -, -, -, rfl⟩ := hcloses
    obtain ⟨hclass, hname⟩ := hsignature.constraints _ hconstraint
    unfold Explanation.typeClass
    refine ⟨by simp [hkind], ?_, by simp⟩
    simp only [isLine_append]
    exact ⟨⟨⟨⟨⟨⟨⟨⟨by simp [IsLine], hsignature.name⟩, by simp [IsLine]⟩,
      isLine_of_isIdentifier hname⟩, by simp [IsLine]⟩, hclass⟩, by simp [IsLine]⟩,
      isLine_toString_int 1⟩, by simp [IsLine]⟩
  · rename_i hkind
    obtain ⟨key, s, a, o, d, -, -, -, -, -, -, -, -, rfl⟩ := hcloses
    unfold Explanation.typeVariable
    exact ⟨by simp [hkind], by simp [IsLine], by simp⟩
  · exact hcloses.elim

/-! ## Reports -/

/-- A call with too few or too many arguments is reported without marks and values. -/
theorem isLaidOut_wrongArity (hsignature : signature.IsInline) (received : Nat) :
    (wrongArity signature received).IsLaidOut := by
  have hexplanation : IsLine (wrongArity signature received).explanation ∧
      (wrongArity signature received).explanation ≠ "" := by
    show IsLine (Explanation.arity _ _ _ _) ∧ Explanation.arity _ _ _ _ ≠ ""
    unfold Explanation.arity
    refine ⟨?_, by simp⟩
    simp only [isLine_append]
    have hnumber := isLine_toString_int (signature.minArity : Int)
    exact ⟨⟨⟨⟨⟨⟨⟨⟨by simp [IsLine], hsignature.name⟩, by simp [IsLine]⟩,
      isLine_ite (.append (by simp [IsLine]) hnumber) hnumber⟩, by simp [IsLine]⟩,
      isLine_ite (by simp [IsLine]) (by simp [IsLine])⟩, by simp [IsLine]⟩,
      isLine_toString_int received⟩, by simp [IsLine]⟩
  have hblock : (wrongArity signature received).signatureLines? = some [signature.text] := rfl
  obtain ⟨body, hreport, hlast, hsections⟩ := Violation.exists_sections hblock (by simp)
    (by simpa using ⟨Signature.isLine_text hsignature, Signature.text_ne_empty signature⟩)
    (by simp [wrongArity, report, ViolationBuilder.build, ViolationBuilder.explain])
    hexplanation.1 hexplanation.2
  exact ⟨body, [signature.text], hreport, hlast, hsections, rfl⟩

/-- Reports keep their layout. The variables of the signature are identifiers, no other name in it
and no name of a type that describes values has a line break, and all these types are harmless; no
object was given a text. Then the report on any call with values of the library is laid out well. -/
theorem check_violated_laidOut {w w' : World} (hsignature : signature.IsInline)
    (henv : ∀ t ∈ vocabulary.env, IsLine t.name)
    (htypes : ∀ t, t ∈ vocabulary.env ∨ signature.Mentions t → t.IsHarmless call)
    (hclasses : ∀ c x, x.isInline = true →
      (vocabulary.registry.satisfies call c x).Preserves World.Untitled)
    (hargs : ∀ x ∈ args, x.isInline = true) (hw : w.Untitled)
    (h : (check call vocabulary signature args).outcome w = (.ok (.violated v), w')) :
    v.IsLaidOut := by
  rcases check_violated_iff.1 h with ⟨-, rfl, -⟩ | ⟨haccepts, hviolated⟩
  · exact isLaidOut_wrongArity hsignature _
  have hplaces : ∀ j a, args[j]? = some a → args[0 + j]? = some a ∧ a.isInline = true := by
    intro j a ha
    exact ⟨by rwa [Nat.zero_add], hargs a (List.mem_of_getElem? ha)⟩
  obtain ⟨n, hcompiled, -⟩ := checkArguments_violated
    (course_of_harmless htypes hclasses args) hplaces (.initial trivial) hw hviolated
  obtain ⟨hstates, hwithin, hblanks, hlabel⟩ := hcompiled.exists_marks haccepts
  obtain ⟨hkind, hexplanation, hexplains⟩ := hcompiled.isLine_explanation haccepts hsignature
  obtain ⟨carets, labels, hdrawn, hcarets, hlabels, hsome, hcaret, hcolumns⟩ :=
    Markers.exists_lines hwithin hblanks hlabel
  have hvalues : ∀ line ∈ v.values, IsLine line.line := by
    obtain ⟨b, seen, explanation, rfl, hlines, hcloses⟩ := hcompiled
    intro line hline
    obtain ⟨i, hi, rfl⟩ := List.getElem_of_mem hline
    have hseen : i < seen.length := hlines.lines.length_eq ▸ hi
    exact (hlines.lines.get hi hseen).isLine (hcloses.orderly.value _ (List.getElem_mem hseen)) henv
  have hmarked : v.underlines.isEmpty = false := by
    obtain ⟨u, hu, -⟩ := hlabel
    simpa using List.ne_nil_of_mem hu
  have hblock : v.signatureLines? = some [v.signature, carets, labels] := by
    rw [Violation.signatureLines?, hmarked, hdrawn]
    simp [hsome]
  have hcaretsome : carets ≠ "" := by
    rintro rfl
    simp at hcaret
  have hblocklines : ∀ line ∈ [v.signature, carets, labels], IsLine line ∧ line ≠ "" := by
    rw [hstates]
    simpa using ⟨⟨Signature.isLine_text hsignature, Signature.text_ne_empty signature⟩,
      ⟨hcarets, hcaretsome⟩, hlabels, hsome⟩
  obtain ⟨body, hreport, hlast, hsections⟩ := Violation.exists_sections hblock (by simp)
    hblocklines hvalues hexplanation hexplains
  refine ⟨body, _, hreport, hlast, hsections, ?_⟩
  split
  · exact absurd ‹_› hkind
  · rw [← hstates] at hcolumns
    exact ⟨carets, labels, rfl, hdrawn, hcaret, hcolumns⟩

end Violations

/-- An error that is held, and a string, both of them with line breaks. -/
theorem check_violated_laidOut_sameTwice : ∃ v w,
    (check applyFunction .standard sameTwice
      [.just .fresh (.error .fresh .valueError "a\nb"), .str "a\n\nb"]).outcome .initial =
        (.ok (.violated v), w) ∧ v.positions = [1, 2] ∧ v.IsLaidOut := by
  have hviolated : ∃ v w, (check applyFunction .standard sameTwice
      [.just .fresh (.error .fresh .valueError "a\nb"), .str "a\n\nb"]).outcome .initial =
        (.ok (.violated v), w) ∧ v.positions = [1, 2] := ⟨_, _, rfl, rfl⟩
  obtain ⟨v, w, hviolated, hpositions⟩ := hviolated
  have hsignature : sameTwice.IsInline := by
    refine ⟨by decide, by simp [sameTwice], ?_, ⟨by decide, trivial⟩⟩
    rw [sameTwice, List.forall_mem_cons, List.forall_mem_singleton]
    exact ⟨⟨by decide, trivial⟩, ⟨by decide, trivial⟩⟩
  have htypes : ∀ t, t ∈ Vocabulary.standard.env ∨ sameTwice.Mentions t →
      t.IsHarmless applyFunction := by
    rintro t (ht | ⟨slot, hslot, path, targs, hpath⟩)
    · rw [Vocabulary.standard, StandardType.defaultEnv_eq] at ht
      obtain ⟨standing, -, rfl⟩ := List.mem_map.1 ht
      exact standing.isHarmless _
    · obtain rfl | rfl : slot = ⟨.var "a" [], false⟩ ∨ slot = ⟨.var "a" [], false⟩ := by
        simpa [sameTwice] using hslot
      all_goals cases path <;> cases hpath
  exact ⟨v, w, hviolated, hpositions, check_violated_laidOut hsignature (by decide) htypes
    (fun c x _ => Registry.preserves_satisfies_standard _ c x) (by decide) World.untitled_initial
    hviolated⟩

/-! ## Names with line breaks -/

/-- What stands between separators holds none, and nothing but what was split. -/
theorem not_mem_and_subset_of_mem_splitOn {α : Type} [DecidableEq α] {a : α} {xs part : List α}
    (h : part ∈ xs.splitOn a) : a ∉ part ∧ part ⊆ xs := by
  induction xs generalizing part with
  | nil =>
    rw [List.splitOn_nil, List.mem_singleton] at h
    simp [h]
  | cons x xs ih =>
    rw [List.splitOn_cons_eq_if_modifyHead] at h
    split at h
    · rcases List.mem_cons.1 h with rfl | h
      · simp
      · exact ⟨(ih h).1, List.subset_cons_of_subset _ (ih h).2⟩
    · rename_i hne
      obtain ⟨first, rest, hsplit⟩ := List.exists_cons_of_ne_nil (List.splitOn_ne_nil a xs)
      rw [hsplit] at h ih
      rcases List.mem_cons.1 h with rfl | h
      · have hfirst := ih List.mem_cons_self
        refine ⟨?_, List.cons_subset_cons x hfirst.2⟩
        rw [List.mem_cons, not_or]
        exact ⟨fun heq => hne (beq_iff_eq.2 heq.symm), hfirst.1⟩
      · have hrest := ih (List.mem_cons_of_mem _ h)
        exact ⟨hrest.1, List.subset_cons_of_subset _ hrest.2⟩

theorem Text.isLine_of_mem_sections {s line : String} {block : List String}
    (hblock : block ∈ sections s) (hline : line ∈ block) : IsLine line := by
  obtain ⟨cs, hcs, rfl⟩ := List.mem_map.1 ((not_mem_and_subset_of_mem_splitOn hblock).2 hline)
  exact isLine_ofList.2 (not_mem_and_subset_of_mem_splitOn hcs).1

/-- No text of a report that is laid out has a line break. -/
theorem Violation.IsLaidOut.isLine {v : Violation} (h : v.IsLaidOut) :
    IsLine v.signature ∧ ∀ line ∈ v.values, IsLine line.line := by
  obtain ⟨body, block, -, -, hsections, hblock⟩ := h
  have hlines : ∀ b ∈ sections body, ∀ line ∈ b, IsLine line :=
    fun b hb line hline => isLine_of_mem_sections hb hline
  rw [hsections] at hlines
  refine ⟨?_, fun line hline => ?_⟩
  · have hfirst : v.signature ∈ block := by
      split at hblock
      · rw [hblock]
        exact List.mem_singleton_self _
      · obtain ⟨carets, labels, rfl, -⟩ := hblock
        exact List.mem_cons_self
    exact hlines block (by simp) _ hfirst
  · have hmem : [line.line] ∈ v.values.map fun line => [line.line] :=
      List.mem_map.2 ⟨line, hline, rfl⟩
    have hsection := List.mem_append_left [[v.explanation]]
      (List.mem_append_right [[v.kind.title], block] hmem)
    exact hlines _ hsection _ (List.mem_singleton_self _)

/-- A signature is built, and the report on a call that is checked against it is not laid out. -/
def Misprints (vocabulary : Vocabulary) (constraints : ConstraintMap) (types : List TypeEntry)
    (args : List Value) (w : World) : Prop :=
  ∃ s v w', Signature.build "f" constraints types vocabulary.registry = .ok s ∧
    (check applyFunction vocabulary s args).outcome w = (.ok (.violated v), w') ∧ ¬ v.IsLaidOut

/-- The report on the call shows a text with a line break. -/
def breaksLine (vocabulary : Vocabulary) (signature : Signature) (args : List Value) (w : World) :
    Bool :=
  match ((check applyFunction vocabulary signature args).outcome w).1 with
  | .ok (.violated v) =>
    !(decide (IsLine v.signature) && v.values.all fun line => decide (IsLine line.line))
  | _ => false

theorem misprints_of_breaksLine {vocabulary : Vocabulary} {constraints : ConstraintMap}
    {types : List TypeEntry} {s : Signature} {args : List Value} {w : World}
    (hs : Signature.build "f" constraints types vocabulary.registry = .ok s)
    (h : breaksLine vocabulary s args w = true) :
    Misprints vocabulary constraints types args w := by
  unfold breaksLine at h
  split at h
  · rename_i v hv
    refine ⟨s, v, _, hs, Prod.ext hv rfl, fun hlaid => ?_⟩
    have hline := hlaid.isLine
    simp [hline.1, List.all_eq_true.2 fun line hmem => decide_eq_true (hline.2 line hmem)] at h
  · cases h

/-- A type with a line break in its name, of which no value is a member or every value. -/
def brokenType (member : Bool) : NamedType :=
  ⟨"A\n\nB", 0, 0, .custom (.func .shared (.const (.bool member))), none⟩

/-- A type class with a line break in its name. -/
def brokenClass : TypeClass := ⟨"A\n\nB", none, .never, .never, [], []⟩

/-- A parameterised type of all values, which shows an instance of a class with a line break in its
name. -/
def brokenBox : NamedType :=
  ⟨"Box", 1, 0, .custom (.func .shared (.const (.bool true))), some (.custom (.func .shared
    (.const (.list [.list [.object .shared (.declared .shared "A\n\nB" [.declared .shared []])
      .null]]))))⟩

/-- An object was given a text with a line break. -/
def titled : World := ⟨[], 1, [⟨0, .text, .func .shared (.const (.str "A\n\nB"))⟩]⟩

/-- Line breaks are shown as they are in the names of the types and type classes of a signature and
of the types that describe values, in the names of classes that a type shows instances of, and in
texts that objects were given. -/
theorem exists_not_laidOut :
    Misprints .standard [] [.type (.named (brokenType false)),
      .type (.named StandardType.boolean.named)] [.null] .initial ∧
    Misprints ⟨StandardType.defaultEnv, [brokenClass]⟩ [("a", [brokenClass.name])]
      [.type (.name "a"), .type (.named StandardType.boolean.named)] [.null] .initial ∧
    Misprints ⟨[brokenType true], .standard⟩ [] [.type (.named StandardType.number.named),
      .type (.named StandardType.boolean.named)] [.null] .initial ∧
    Misprints .standard [] [.type (.expr (.concrete brokenBox
        [.concrete StandardType.number.named []])),
      .type (.named StandardType.boolean.named)] [.null] .initial ∧
    Misprints .standard [] [.type (.named StandardType.number.named),
      .type (.named StandardType.boolean.named)] [.error (.numbered 0) .valueError "x"] titled :=
  ⟨misprints_of_breaksLine rfl (by decide +kernel),
    misprints_of_breaksLine rfl (by decide +kernel),
    misprints_of_breaksLine rfl (by decide +kernel),
    misprints_of_breaksLine rfl (by decide +kernel),
    misprints_of_breaksLine rfl (by decide +kernel)⟩

end CheckedCalls
