import CheckedCalls.Proofs.Descriptor
import CheckedCalls.Violation.Builder
import Mathlib.Data.List.Nodup
import Mathlib.Tactic.Tauto

/-!
# Labels of underlines

A report numbers its values in the order in which they come, and values with one range share an
underline. So the underlines that have labels are a map from ranges to numbers (`Grouped`), and each
number is named by one underline, that of its range (`exists_underline_of_grouped`).
-/

namespace CheckedCalls

/-! ## Numbers in labels -/

/-- The number stands in the label, which is a list of numbers with commas between them. -/
def Underline.names (u : Underline) (number : Int) : Bool :=
  (u.label.toList.splitOn ',').contains (toString number).toList

theorem comma_not_mem_digits (n : Nat) : ',' ∉ (toString n).toList := by
  intro h
  rw [show toString n = n.repr from rfl, Nat.toList_repr] at h
  exact absurd (Nat.isDigit_of_mem_toDigits (by decide) (by decide) h) (by decide)

/-- Positions are written apart. -/
theorem toList_toString_inj {m n : Nat} : (toString m).toList = (toString n).toList ↔ m = n := by
  constructor
  · intro h
    rw [show toString m = m.repr from rfl, show toString n = n.repr from rfl, Nat.toList_repr,
      Nat.toList_repr] at h
    have hvalue := congrArg (Nat.ofDigitChars 10 · 0) h
    simpa using hvalue
  · rintro rfl
    rfl

/-- An underline without a label names no number. -/
theorem Underline.names_of_unlabelled {u : Underline} (h : u.label = "") (n : Nat) :
    u.names n = false := by
  rw [names, h]
  have hne : (toString (n : Int)).toList ≠ [] := by
    rw [show toString (n : Int) = n.repr from rfl, Nat.toList_repr]
    exact Nat.toDigits_ne_nil
  simpa [List.splitOn] using hne

namespace ViolationBuilder

variable {groups : List (Span × List Nat)} {span s : Span} {ns : List Nat} {n number : Nat}

/-- The underline of a group names the numbers of the group. -/
theorem names_groupUnderline (group : Span × List Nat) (n : Nat) :
    (groupUnderline group).names n = true ↔ n ∈ group.2 := by
  rcases group with ⟨span, ns⟩
  by_cases hne : ns = []
  · rw [hne, Underline.names_of_unlabelled rfl n]
    simp
  have hlabel : (groupUnderline (span, ns)).label.toList.splitOn ',' =
      ns.map fun m => (toString m).toList := by
    rw [groupUnderline, String.toList_intercalate, List.map_map]
    refine List.splitOn_intercalate ',' (fun digits hdigits => ?_) (by simpa using hne)
    obtain ⟨m, -, rfl⟩ := List.mem_map.1 hdigits
    exact comma_not_mem_digits m
  rw [Underline.names, hlabel, List.contains_iff_mem, List.mem_map]
  constructor
  · rintro ⟨m, hm, hdigits⟩
    rwa [← toList_toString_inj.1 hdigits]
  · intro hn
    exact ⟨n, hn, rfl⟩

/-! ## Groups -/

/-- The number stands in the group of the range. -/
def InGroup (groups : List (Span × List Nat)) (span : Span) (n : Nat) : Prop :=
  ∃ ns, (span, ns) ∈ groups ∧ n ∈ ns

theorem inGroup_cons : InGroup ((s, ns) :: groups) span n ↔
    span = s ∧ n ∈ ns ∨ InGroup groups span n := by
  constructor
  · rintro ⟨ms, hmem, hn⟩
    rcases List.mem_cons.1 hmem with heq | hmem
    · cases heq
      exact .inl ⟨rfl, hn⟩
    · exact .inr ⟨ms, hmem, hn⟩
  · rintro (⟨rfl, hn⟩ | ⟨ms, hmem, hn⟩)
    · exact ⟨ns, List.mem_cons_self, hn⟩
    · exact ⟨ms, List.mem_cons_of_mem _ hmem, hn⟩

/-- A number is added to the group of its range, and to no other. -/
theorem inGroup_addLabel : InGroup (addLabel groups s number) span n ↔
    InGroup groups span n ∨ span = s ∧ n = number := by
  fun_induction addLabel groups s number with
  | case1 => simp [InGroup]
  | case2 ns rest =>
    rw [inGroup_cons, inGroup_cons, List.mem_append, List.mem_singleton]
    tauto
  | case3 s' ns rest hne ih => rw [inGroup_cons, inGroup_cons, ih, or_assoc]

theorem mem_spans_addLabel : span ∈ (addLabel groups s number).map Prod.fst ↔
    span = s ∨ span ∈ groups.map Prod.fst := by
  fun_induction addLabel groups s number with
  | case1 => simp
  | case2 => simp
  | case3 s' ns rest hne ih => simp [-List.mem_map, ih, or_left_comm]

/-- Adding a label keeps the spans distinct. -/
theorem nodup_spans_addLabel (h : (groups.map Prod.fst).Nodup) :
    ((addLabel groups s number).map Prod.fst).Nodup := by
  fun_induction addLabel groups s number with
  | case1 => simp
  | case2 => exact h
  | case3 s' ns rest hne ih =>
    rw [List.map_cons, List.nodup_cons] at h ⊢
    refine ⟨?_, ih h.2⟩
    rw [mem_spans_addLabel]
    exact not_or.2 ⟨hne, h.1⟩

/-- What holds of a group whether or not the number is added to it holds of all groups then. -/
theorem forall_mem_addLabel {P Q : List Nat → Prop} (hnew : Q [number])
    (hadd : ∀ ns, P ns → Q (ns ++ [number])) (hkeep : ∀ ns, P ns → Q ns)
    (h : ∀ group ∈ groups, P group.2) : ∀ group ∈ addLabel groups s number, Q group.2 := by
  fun_induction addLabel groups s number with
  | case1 => simpa using hnew
  | case2 ns rest =>
    rw [List.forall_mem_cons] at h ⊢
    exact ⟨hadd ns h.1, fun group hgroup => hkeep group.2 (h.2 group hgroup)⟩
  | case3 s' ns rest hne ih =>
    rw [List.forall_mem_cons] at h ⊢
    exact ⟨hkeep ns h.1, ih h.2⟩

/-- The numbers of values, from one on, are grouped by the ranges that the values come with. -/
structure Grouped (groups : List (Span × List Nat)) (spans : List (Option Span)) : Prop where
  nodup : (groups.map Prod.fst).Nodup
  inGroup_iff : ∀ span n, InGroup groups span n ↔ (some span, n) ∈ spans.zipIdx 1

/-- A number is that of one value. -/
theorem eq_of_mem_zipIdx {α : Type} {as : List α} {a b : α} (ha : (a, n) ∈ as.zipIdx 1)
    (hb : (b, n) ∈ as.zipIdx 1) : a = b := by
  rw [List.mk_mem_zipIdx_iff_le_and_getElem?_sub] at ha hb
  exact Option.some_inj.1 (ha.2.symm.trans hb.2)

theorem Grouped.nil : Grouped [] [] where
  nodup := List.nodup_nil
  inGroup_iff := by simp [InGroup]

/-- A value that is added joins the group of its range, if it comes with one. -/
theorem Grouped.value {b : ViolationBuilder} {spans : List (Option Span)}
    (h : Grouped b.labelled spans) (hlength : b.values.length = spans.length) (position : Int)
    (text : String) (types : List String) (span : Option Span) :
    Grouped (b.value position text types span).labelled (spans ++ [span]) := by
  have hsnoc : ∀ s n, (some s, n) ∈ (spans ++ [span]).zipIdx 1 ↔
      (some s, n) ∈ spans.zipIdx 1 ∨ some s = span ∧ n = b.values.length + 1 := by
    intro s n
    rw [List.zipIdx_append, List.mem_append, hlength]
    simp [Nat.add_comm]
  cases span with
  | none =>
    refine ⟨h.nodup, fun s n => ?_⟩
    rw [hsnoc, ← h.inGroup_iff]
    simp [ViolationBuilder.value]
  | some span =>
    refine ⟨nodup_spans_addLabel h.nodup, fun s n => ?_⟩
    rw [hsnoc, ← h.inGroup_iff, Option.some_inj]
    exact inGroup_addLabel

/-- Each number stands in one group. -/
theorem Grouped.exists_filter_eq {spans : List (Option Span)} (h : Grouped groups spans)
    (hn : (some span, n) ∈ spans.zipIdx 1) :
    ∃ ns, groups.filter (fun group => n ∈ group.2) = [(span, ns)] := by
  obtain ⟨ns, hgroup, hmem⟩ := (h.inGroup_iff span n).2 hn
  refine ⟨ns, List.perm_singleton.1 ?_⟩
  rw [List.perm_ext_iff_of_nodup (h.nodup.of_map.filter _) (List.nodup_singleton _)]
  rintro ⟨s, ms⟩
  rw [List.mem_filter, List.mem_singleton, decide_eq_true_eq]
  constructor
  -- the number has one range, and the range one group
  · rintro ⟨hgroup', hmem'⟩
    have hn' := (h.inGroup_iff s n).1 ⟨ms, hgroup', hmem'⟩
    cases eq_of_mem_zipIdx hn hn'
    exact List.inj_on_of_nodup_map h.nodup hgroup' hgroup rfl
  · intro heq
    cases heq
    exact ⟨hgroup, hmem⟩

/-- The number of a single value makes a single group. -/
theorem Grouped.eq_singleton (h : Grouped groups [some span])
    (hne : ∀ group ∈ groups, group.2 ≠ []) : ∃ ns, groups = [(span, ns)] ∧ 1 ∈ ns := by
  obtain ⟨ns, hgroup, hmem⟩ := (h.inGroup_iff span 1).2 (by simp)
  refine ⟨ns, List.perm_singleton.1 ?_, hmem⟩
  rw [List.perm_ext_iff_of_nodup h.nodup.of_map (List.nodup_singleton _)]
  rintro ⟨s, ms⟩
  rw [List.mem_singleton]
  constructor
  -- a number of the group is that of the value, which has one range
  · intro hgroup'
    obtain ⟨m, hm⟩ := List.exists_mem_of_ne_nil ms (hne _ hgroup')
    have hsingle := (h.inGroup_iff s m).1 ⟨ms, hgroup', hm⟩
    obtain ⟨rfl, -⟩ : s = span ∧ m = 1 := by simpa using hsingle
    exact List.inj_on_of_nodup_map h.nodup hgroup' hgroup rfl
  · intro heq
    cases heq
    exact hgroup

/-- Each number is named by the underline of one group, that of its range. -/
theorem Grouped.exists_filter_names_eq {spans : List (Option Span)} (h : Grouped groups spans)
    (hn : (some span, n) ∈ spans.zipIdx 1) :
    ∃ ns, (groups.map groupUnderline).filter (·.names n) = [groupUnderline (span, ns)] := by
  obtain ⟨ns, hgroup⟩ := h.exists_filter_eq hn
  refine ⟨ns, ?_⟩
  rw [List.filter_map, ← List.map_singleton, ← hgroup]
  congr 1
  refine List.filter_congr fun group _ => ?_
  rw [Function.comp, Bool.eq_iff_iff, names_groupUnderline, decide_eq_true_eq]

/-! ## Positions -/

theorem eraseDups_snoc {α : Type} [BEq α] [LawfulBEq α] (as : List α) (a : α) :
    (as ++ [a]).eraseDups = as.eraseDups ++ if as.contains a then [] else [a] := by
  rw [List.eraseDups_append]
  congr 1
  by_cases ha : a ∈ as
  · simp [List.removeAll, ha]
  · simp [List.removeAll, ha, List.eraseDups_cons]

/-- The positions are those of the values, each where it came first. -/
theorem positions_value {b : ViolationBuilder} {positions : List Int}
    (h : b.positions = positions.eraseDups) (position : Int) (text : String) (types : List String)
    (range : Option Span) :
    (b.value position text types range).positions = (positions ++ [position]).eraseDups := by
  have hmem : b.positions.contains position = positions.contains position := by
    rw [h, Bool.eq_iff_iff, List.contains_iff_mem, List.contains_iff_mem, List.mem_eraseDups]
  rw [eraseDups_snoc, ← h]
  simp only [ViolationBuilder.value, hmem]
  split <;> simp

/-! ## The underlines of a report -/

/-- If all marks are without labels, then each number is named by one underline, that of its
range. -/
theorem exists_underline_of_grouped {b : ViolationBuilder} {spans : List (Option Span)}
    (h : Grouped b.labelled spans) (hmarks : ∀ u ∈ b.marks, u.label = "")
    (hn : (some span, n) ∈ spans.zipIdx 1) :
    ∃ u, b.build.underlines.filter (·.names n) = [u] ∧ (u.start, u.stop) = span := by
  obtain ⟨ns, hlabelled⟩ := h.exists_filter_names_eq hn
  refine ⟨groupUnderline (span, ns), List.perm_singleton.1 ?_, rfl⟩
  have hunlabelled : b.marks.filter (·.names n) = [] := by
    rw [List.filter_eq_nil_iff]
    intro u hu
    rw [Underline.names_of_unlabelled (hmarks u hu)]
    exact Bool.false_ne_true
  have hperm := (perm_sortStable underlineLe (b.marks ++ b.labelled.map groupUnderline)).filter
    (·.names n)
  rwa [List.filter_append, hunlabelled, hlabelled, List.nil_append] at hperm

end ViolationBuilder

end CheckedCalls
