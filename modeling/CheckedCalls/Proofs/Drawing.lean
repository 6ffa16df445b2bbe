import CheckedCalls.Proofs.Shared
import CheckedCalls.Proofs.Spans
import CheckedCalls.Violation.Markers

/-!
# Marker lines are faithful

The line of carets is painted over, underline by underline, so what it shows is the columns that are
covered by any of them (`Markers.Drawn`). The line of labels only grows: each label is set behind a
gap that is not empty after the first one, at a column that can be told beforehand
(`Markers.placements`). So the words of the line are the labels, each where it was placed
(`Markers.Labelled`). `Markers.lines?_faithful` says so of the two lines that are drawn, from which
nothing is trimmed.
-/

namespace CheckedCalls

namespace Text

/-- What stands between the spaces of a line. -/
def words (line : List Char) : List (List Char) := (line.splitOn ' ').filter (!·.isEmpty)

theorem words_nil : words [] = [] := rfl

/-- A space ends the word before it. -/
theorem words_append_space (line more : List Char) :
    words (line ++ ' ' :: more) = words line ++ words more := by
  rw [words, List.splitOn_append_cons_self, List.filter_append]
  rfl

/-- A word without spaces is the only word of its text. -/
theorem words_self {word : List Char} (hne : word ≠ []) (hword : ' ' ∉ word) :
    words word = [word] := by
  rw [words, List.splitOn_eq_singleton hword, List.filter_singleton]
  cases word with
  | nil => exact absurd rfl hne
  | cons c word => rfl

/-- Leading spaces hold no word. -/
theorem words_spaces (n : Nat) (more : List Char) :
    words (List.replicate n ' ' ++ more) = words more := by
  induction n with
  | zero => rfl
  | succ n ih =>
    rw [List.replicate_succ, List.cons_append, ← List.nil_append (' ' :: _), words_append_space, ih,
      words_nil, List.nil_append]

/-- A word behind a gap is one more word. -/
theorem words_gap {line word : List Char} {n : Nat} (hne : word ≠ []) (hword : ' ' ∉ word)
    (hgap : line ≠ [] → 0 < n) :
    words (line ++ List.replicate n ' ' ++ word) = words line ++ [word] := by
  cases n with
  | zero =>
    obtain rfl : line = [] := by
      by_contra hline
      exact absurd (hgap hline) (lt_irrefl 0)
    exact words_self hne hword
  | succ n =>
    rw [List.replicate_succ, List.append_assoc, List.cons_append, words_append_space, words_spaces,
      words_self hne hword]

/-- Nothing is trimmed from a line that does not end in a blank. -/
theorem trimEnd_of_getLast? {line : List Char} (h : ∀ c ∈ line.getLast?, isBlank c = false) :
    trimEnd line = line := by
  rw [← List.head?_reverse] at h
  have hkept : line.reverse.dropWhile isBlank = line.reverse := by
    cases hline : line.reverse with
    | nil => rfl
    | cons c rest =>
      rw [hline] at h
      rw [List.dropWhile_cons, h c rfl]
      rfl
  rw [trimEnd, hkept, List.reverse_reverse]

end Text

namespace Underline

/-- The underline marks the column. -/
def Covers (u : Underline) (column : Nat) : Prop :=
  u.start ≤ column ∧ (column : Int) < u.start + u.width

/-- Every underline has at least one caret. -/
theorem width_pos (u : Underline) : 0 < u.width := by
  rw [width]
  omega

end Underline

namespace Markers

variable {us done : List Underline} {u : Underline} {row line : List Char}

/-! ## Underlines in order -/

theorem mem_sorted : u ∈ sorted us ↔ u ∈ us := (perm_sortStable _ us).mem_iff

theorem start_trans (u v w : Underline) (huv : decide (u.start ≤ v.start) = true)
    (hvw : decide (v.start ≤ w.start) = true) : decide (u.start ≤ w.start) = true :=
  decide_eq_true ((of_decide_eq_true huv).trans (of_decide_eq_true hvw))

theorem start_total (u v : Underline) :
    decide (u.start ≤ v.start) = true ∨ decide (v.start ≤ u.start) = true := by
  simpa using le_total u.start v.start

theorem pairwise_sorted (us : List Underline) : (sorted us).Pairwise (·.start ≤ ·.start) :=
  (pairwise_sortStable start_trans start_total us).imp of_decide_eq_true

/-- Underlines that start together keep their order, whichever of them are looked at. -/
theorem filter_sorted (p : Underline → Bool) (start : Int) :
    (sorted us).filter (fun u => p u && u.start == start) =
      us.filter fun u => p u && u.start == start := by
  refine filter_sortStable_of_ties start_trans _ start_total (fun u v hu hv => ?_) us
  simp only [Bool.and_eq_true, beq_iff_eq] at hu hv
  exact decide_eq_true (by rw [hu.2, hv.2])

/-! ## Carets -/

/-- A padded row shows what it showed, and spaces up to its new length. -/
theorem getElem?_padTo (n column : Nat) (row : List Char) :
    (padTo n row)[column]? =
      if column < row.length then row[column]? else if column < n then some ' ' else none := by
  rw [padTo, List.getElem?_append, List.getElem?_replicate]
  split_ifs
  any_goals rfl
  all_goals omega

/-- An underline is painted over what is there, which it may lie behind. -/
theorem getElem?_paint (row : List Char) (start width column : Nat) :
    (paint row start width)[column]? =
      if start ≤ column ∧ column < start + width then some '^'
      else if column < row.length then row[column]?
      else if column < start then some ' ' else none := by
  have hlength : ((padTo start row).take start).length = start := by
    rw [List.length_take, padTo, List.length_append, List.length_replicate]
    omega
  rw [paint, List.append_assoc, List.getElem?_append, hlength, List.getElem?_take,
    getElem?_padTo, List.getElem?_append, List.length_replicate, List.getElem?_replicate,
    List.getElem?_drop]
  split_ifs
  any_goals rfl
  any_goals omega
  · congr 1
    omega
  · rw [List.getElem?_eq_none (by omega)]

/-- The line shows the columns that the underlines cover: by carets there and spaces elsewhere, the
last of them by a caret. -/
structure Drawn (us : List Underline) (row : List Char) : Prop where
  caret : ∀ column : Nat, row[column]? = some '^' ↔ ∃ u ∈ us, u.Covers column
  space : ∀ (column : Nat) c, row[column]? = some c → c = '^' ∨ c = ' '
  last : ∀ c ∈ row.getLast?, c = '^'

/-- An empty row shows no underline. -/
theorem Drawn.nil : Drawn [] [] where
  caret := by simp
  space := by simp
  last := by simp

/-- One more underline is painted. -/
theorem Drawn.paint (h : Drawn done row) (hu : 0 ≤ u.start) :
    Drawn (done ++ [u]) (paint row u.start.toNat u.width.toNat) := by
  have hcovers : ∀ column : Nat, u.Covers column ↔
      u.start.toNat ≤ column ∧ column < u.start.toNat + u.width.toNat := by
    intro column
    rw [Underline.Covers]
    omega
  refine ⟨fun column => ?_, fun column c hc => ?_, fun c hc => ?_⟩
  · have hsnoc : (∃ v ∈ done ++ [u], v.Covers column) ↔
        u.Covers column ∨ ∃ v ∈ done, v.Covers column := by
      simp [or_and_right, exists_or, or_comm]
    rw [getElem?_paint, hsnoc, hcovers, ← h.caret]
    split_ifs with hmarked hinside hbefore
    · exact iff_of_true rfl (.inl hmarked)
    · rw [or_iff_right hmarked]
    all_goals
      rw [or_iff_right hmarked, List.getElem?_eq_none (Nat.le_of_not_lt hinside)]
      simp
  · rw [getElem?_paint] at hc
    split_ifs at hc with hmarked hinside hbefore
    · exact .inl (Option.some.inj hc).symm
    · exact h.space column c hc
    · exact .inr (Option.some.inj hc).symm
  -- the end of the line is that of the underline, or the one that was there
  · have hwidth := u.width_pos
    have hlength : (Markers.paint row u.start.toNat u.width.toNat).length =
        max row.length (u.start.toNat + u.width.toNat) := by
      rw [Markers.paint, List.length_append, List.length_append, List.length_take,
        List.length_replicate, List.length_drop, padTo, List.length_append, List.length_replicate]
      omega
    rw [List.getLast?_eq_getElem?, getElem?_paint, hlength] at hc
    split_ifs at hc with hmarked hinside hbefore
    · exact (Option.some.inj hc).symm
    · refine h.last c ?_
      rw [List.getLast?_eq_getElem?]
      rwa [show row.length - 1 = max row.length (u.start.toNat + u.width.toNat) - 1 by omega]
    · omega
    · cases hc

/-- Painting the underlines shows what they cover. -/
theorem drawn_carets (hus : ∀ u ∈ us, 0 ≤ u.start) : Drawn us (carets us) := by
  have hfold : ∀ (us done : List Underline) (row : List Char), (∀ u ∈ us, 0 ≤ u.start) →
      Drawn done row → Drawn (done ++ us)
        (us.foldl (fun row u => paint row u.start.toNat u.width.toNat) row) := by
    intro us
    induction us with
    | nil =>
      intro done row _ h
      rwa [List.append_nil]
    | cons u us ih =>
      intro done row hus h
      rw [List.forall_mem_cons] at hus
      rw [List.append_cons]
      exact ih (done ++ [u]) _ hus.2 (h.paint hus.1)
  exact hfold us [] [] hus .nil

/-! ## Labels -/

/-- The underlines with labels, in the order of their labels. -/
def labelled (us : List Underline) : List Underline := (sorted us).filter fun u => !u.label.isEmpty

/-- The column at which a label begins, if the label in front of it ends before column `stop?`. -/
def labelColumn (stop? : Option Nat) (u : Underline) : Int :=
  match stop? with
  | none => max 0 u.centre
  | some stop => max u.centre (stop + 1)

/-- The labels with the columns at which they begin. -/
def placements (stop? : Option Nat) : List Underline → List (Nat × String)
  | [] => []
  | u :: us =>
    let column := (labelColumn stop? u).toNat
    (column, u.label) :: placements (some (column + u.label.length)) us

/-- Where the labels of a line end, if there are any. -/
def stop? (line : List Char) : Option Nat := if line.isEmpty then none else some line.length

theorem stop?_of_ne_nil (h : line ≠ []) : stop? line = some line.length := by
  rw [stop?, if_neg (by simpa using h)]

/-- A label is set behind a gap, at its column; only the first one needs no gap. -/
theorem place_label (h : u.label ≠ "") (line : List Char) : ∃ gap : Nat,
    place line u = line ++ List.replicate gap ' ' ++ u.label.toList ∧
      line.length + gap = (labelColumn (stop? line) u).toNat ∧ (line ≠ [] → 0 < gap) := by
  have hlabel : u.label.isEmpty = false := by simpa using h
  rw [place, hlabel]
  refine ⟨(labelColumn (stop? line) u).toNat - line.length, ?_⟩
  cases line with
  | nil =>
    simp only [labelColumn, stop?, padTo, List.isEmpty_nil, if_true, List.length_nil, Nat.sub_zero]
    refine ⟨?_, by omega, by simp⟩
    rw [show (max 0 u.centre).toNat = u.centre.toNat by omega]
    rfl
  | cons c line =>
    rw [stop?_of_ne_nil (List.cons_ne_nil c line)]
    refine ⟨rfl, ?_⟩
    simp only [labelColumn]
    omega

/-- The line goes on with labels: its words are one more for each of them, they stand where they are
placed, and the line ends as it did or as a label does. -/
structure Labelled (us : List Underline) (line result : List Char) : Prop where
  words : Text.words result = Text.words line ++ us.map fun u => u.label.toList
  stand : ∀ p ∈ placements (stop? line) us, ∃ before after,
    result = before ++ (p.2.toList ++ after) ∧ before.length = p.1
  extends_line : line <+: result
  last : ∀ c ∈ result.getLast?, c ∈ line.getLast? ∨ ∃ u ∈ us, c ∈ u.label.toList

/-- Placing labels in turn writes each of them at its column. -/
theorem labelled_foldl (hlabels : ∀ u ∈ us, u.label ≠ "") (hspaces : ∀ u ∈ us, ' ' ∉ u.label.toList)
    (line : List Char) : Labelled us line (us.foldl place line) := by
  induction us generalizing line with
  | nil => exact ⟨by simp, by simp [placements], List.prefix_refl _, fun c hc => .inl hc⟩
  | cons u us ih =>
    rw [List.forall_mem_cons] at hlabels hspaces
    obtain ⟨gap, hplace, hcolumn, hgap⟩ := place_label hlabels.1 line
    have hlabel : u.label.toList ≠ [] := by simpa using hlabels.1
    have hne : place line u ≠ [] := by simp [hplace, hlabel]
    have hrest := ih hlabels.2 hspaces.2 (place line u)
    obtain ⟨after, hafter⟩ := hrest.extends_line
    rw [List.foldl_cons]
    refine ⟨?_, ?_, ?_, fun c hc => ?_⟩
    · rw [hrest.words, hplace, Text.words_gap hlabel hspaces.1 hgap, List.append_assoc]
      rfl
    · have hstop : stop? (place line u) =
          some ((labelColumn (stop? line) u).toNat + u.label.length) := by
        rw [stop?_of_ne_nil hne, hplace, ← hcolumn]
        simp only [List.length_append, List.length_replicate, String.length_toList]
      intro p hp
      rw [placements] at hp
      rcases List.mem_cons.1 hp with rfl | hp
      · refine ⟨line ++ List.replicate gap ' ', after, ?_, ?_⟩
        · rw [← hafter, hplace, List.append_assoc]
        · rw [List.length_append, List.length_replicate]
          exact hcolumn
      · rw [← hstop] at hp
        exact hrest.stand p hp
    · refine List.IsPrefix.trans ?_ hrest.extends_line
      rw [hplace, List.append_assoc]
      exact List.prefix_append _ _
    · rcases hrest.last c hc with hc | ⟨v, hv, hc⟩
      · rw [hplace, List.getLast?_append_of_ne_nil _ hlabel] at hc
        exact .inr ⟨u, List.mem_cons_self, List.mem_of_getLast? hc⟩
      · exact .inr ⟨v, List.mem_cons_of_mem _ hv, hc⟩

/-- Underlines without labels leave the line as it is. -/
theorem labels_sorted (us : List Underline) :
    labels (sorted us) = (labelled us).foldl place [] := by
  rw [labels, labelled, List.foldl_filter]
  congr 1
  funext line u
  rw [place]
  cases u.label.isEmpty <;> rfl

/-- The labels of a list of underlines make a line of their own. -/
theorem labelled_labels (hspaces : ∀ u ∈ us, ' ' ∉ u.label.toList) :
    Labelled (labelled us) [] (labels (sorted us)) := by
  rw [labels_sorted]
  refine labelled_foldl (fun u hu => ?_) (fun u hu => ?_) []
  · simpa using (List.mem_filter.1 hu).2
  · exact hspaces u (mem_sorted.1 (List.mem_filter.1 hu).1)

/-! ## Both lines -/

/-- The line of carets ends in a caret, so trimming it changes nothing. -/
theorem trimEnd_carets (hus : ∀ u ∈ us, 0 ≤ u.start) :
    Text.trimEnd (carets us) = carets us := by
  refine Text.trimEnd_of_getLast? fun c hc => ?_
  obtain rfl := (drawn_carets hus).last c hc
  decide

/-- The line of labels ends in a label, so trimming it changes nothing. -/
theorem trimEnd_labels (hblanks : ∀ u ∈ us, ∀ c ∈ u.label.toList, Text.isBlank c = false) :
    Text.trimEnd (labels (sorted us)) = labels (sorted us) := by
  have hspaces : ∀ u ∈ us, ' ' ∉ u.label.toList := by
    intro u hu hspace
    exact absurd (hblanks u hu _ hspace) (by decide)
  refine Text.trimEnd_of_getLast? fun c hc => ?_
  rcases (labelled_labels hspaces).last c hc with hc | ⟨u, hu, hc⟩
  · cases hc
  · exact hblanks u (mem_sorted.1 (List.mem_filter.1 hu).1) c hc

/-- What is drawn for underlines that start inside the line. -/
theorem lines?_eq (hus : ∀ u ∈ us, 0 ≤ u.start) : lines? us =
      some (String.ofList (carets (sorted us)),
        String.ofList (Text.trimEnd (labels (sorted us)))) := by
  have hany : (us.any fun u => decide (u.start < 0)) = false := by
    simpa [List.any_eq_false] using hus
  rw [lines?, hany, ← trimEnd_carets fun u hu => hus u (mem_sorted.1 hu)]
  rfl

/-- Marker lines are faithful. The carets stand just where some underline covers the column, with
spaces between them and none behind. If no label holds a blank, then the words of the line of labels
are the labels, in the order in which their underlines start, and those that start together in the
order in which they were given; the first label begins at its centred column, or at the first column
if that lies before the line, and each further one at its centred column, or one column after the
label before it. -/
theorem lines?_faithful (hus : ∀ u ∈ us, 0 ≤ u.start) :
    ∃ carets labels, lines? us = some (carets, labels) ∧
      (∀ column : Nat, carets.toList[column]? = some '^' ↔ ∃ u ∈ us, u.Covers column) ∧
      (∀ column < carets.length, (¬∃ u ∈ us, u.Covers column) → carets.toList[column]? = some ' ') ∧
      carets.toList.getLast? ≠ some ' ' ∧
      ((∀ u ∈ us, ∀ c ∈ u.label.toList, Text.isBlank c = false) →
        Text.words labels.toList = (labelled us).map (fun u => u.label.toList) ∧
        (labelled us).Pairwise (·.start ≤ ·.start) ∧
        (∀ start, (labelled us).filter (·.start == start) =
          us.filter fun u => !u.label.isEmpty && u.start == start) ∧
        ∀ p ∈ placements none (labelled us),
          Span.Covers ((p.1 : Nat), (p.1 + p.2.length : Nat)) labels p.2) := by
  have hsorted : ∀ u ∈ sorted us, 0 ≤ u.start := fun u hu => hus u (mem_sorted.1 hu)
  have hdrawn := drawn_carets hsorted
  refine ⟨_, _, lines?_eq hus, fun column => ?_, fun column hcolumn huncovered => ?_, ?_,
    fun hblanks => ?_⟩
  · rw [String.toList_ofList, hdrawn.caret]
    simp only [mem_sorted]
  · rw [String.length_ofList] at hcolumn
    have hc := List.getElem?_eq_getElem hcolumn
    rcases hdrawn.space column _ hc with hcaret | hspace
    · rw [hcaret, hdrawn.caret] at hc
      simp only [mem_sorted] at hc
      exact absurd hc huncovered
    · rw [String.toList_ofList, hc, hspace]
  · rw [String.toList_ofList]
    intro hlast
    exact absurd (hdrawn.last ' ' hlast) (by decide)
  · have hspaces : ∀ u ∈ us, ' ' ∉ u.label.toList := by
      intro u hu hspace
      exact absurd (hblanks u hu _ hspace) (by decide)
    have hlabelled := labelled_labels hspaces
    rw [trimEnd_labels hblanks, String.toList_ofList]
    refine ⟨hlabelled.words, (pairwise_sorted us).filter _, fun start => ?_, fun p hp => ?_⟩
    · rw [labelled, List.filter_filter, ← filter_sorted]
      exact List.filter_congr fun u _ => Bool.and_comm _ _
    · obtain ⟨before, after, hline, hbefore⟩ := hlabelled.stand p hp
      rw [hline, ← hbefore]
      have hcovers : Span.Covers (before.length, ↑(before.length + p.2.toList.length))
          (String.ofList (before ++ (p.2.toList ++ after))) (String.ofList p.2.toList) :=
        Span.covers_of_chars rfl rfl
      rwa [String.ofList_toList, String.length_toList] at hcovers

/-- Two labels that would touch, the second of an underline that is given first, and an underline
without a label that is reversed. -/
def touching : List Underline := [⟨2, 3, "3"⟩, ⟨0, 1, "1,2"⟩, ⟨5, 4, ""⟩]

theorem lines?_faithful_touching :
    (∀ u ∈ touching, 0 ≤ u.start) ∧
    (∀ u ∈ touching, ∀ c ∈ u.label.toList, Text.isBlank c = false) ∧
    lines? touching = some ("^ ^  ^", "1,2 3") ∧
    placements none (labelled touching) = [(0, "1,2"), (4, "3")] ∧
    Text.words "1,2 3".toList = (labelled touching).map (fun u => u.label.toList) ∧
    (∃ u ∈ touching, u.Covers 5) ∧ Span.Covers (4, 5) "1,2 3" "3" := by
  have hus : ∀ u ∈ touching, 0 ≤ u.start := by decide
  have hblanks : ∀ u ∈ touching, ∀ c ∈ u.label.toList, Text.isBlank c = false := by
    have hall : (touching.all fun u => u.label.toList.all fun c => !Text.isBlank c) = true := by
      decide
    simpa only [List.all_eq_true, Bool.not_eq_true'] using hall
  have hlines : lines? touching = some ("^ ^  ^", "1,2 3") := by decide
  have hplaced : placements none (labelled touching) = [(0, "1,2"), (4, "3")] := by decide
  obtain ⟨carets, labels, hdrawn, hcaret, -, -, hlabels⟩ := lines?_faithful hus
  rw [hlines] at hdrawn
  cases hdrawn
  obtain ⟨hwords, -, -, hstand⟩ := hlabels hblanks
  rw [hplaced] at hstand
  exact ⟨hus, hblanks, hlines, hplaced, hwords, (hcaret 5).1 (by decide),
    hstand (4, "3") (by decide)⟩

end Markers

end CheckedCalls
