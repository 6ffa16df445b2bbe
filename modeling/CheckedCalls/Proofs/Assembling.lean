import CheckedCalls.Proofs.Building
import CheckedCalls.Proofs.Shared

/-!
# The record of a builder's steps

A program marks ranges, adds values, sets the closing sentence and asks for the record, as often as
it likes and in any order. What a record says is told by the steps alone (`Recounts`): all marks are
kept, the values are numbered as they came, and the values of one range share one underline, which
lists their numbers. A step keeps what the builder holds in line with the steps so far
(`Holds.step`), and only one record recounts them (`Recounts.unique`). So each record that is asked
for is the one record of the steps before it, whatever was asked for in between
(`session_answers_record`).
-/

namespace CheckedCalls

/-! ## Lists in the order of keys -/

section Sorted

variable {α κ : Type} [BEq κ] [LawfulBEq κ] {key : α → κ} {as bs : List α}

/-- Two lists that agree on every key have the same members. -/
theorem mem_iff_of_filter_eq
    (h : ∀ k, as.filter (key · == k) = bs.filter (key · == k)) (a : α) : a ∈ as ↔ a ∈ bs := by
  have hfilter : a ∈ as.filter (key · == key a) ↔ a ∈ bs.filter (key · == key a) := by rw [h]
  simpa using hfilter

/-- Two lists in the order of their keys are one list if each key has the same elements in both. -/
theorem eq_of_filter_eq {le : κ → κ → Prop} (hantisymm : ∀ {k l}, le k l → le l k → k = l)
    (has : as.Pairwise fun a b => le (key a) (key b))
    (hbs : bs.Pairwise fun a b => le (key a) (key b))
    (h : ∀ k, as.filter (key · == k) = bs.filter (key · == k)) : as = bs := by
  induction as generalizing bs with
  | nil =>
    refine (List.eq_nil_iff_forall_not_mem.2 fun b hb => ?_).symm
    exact List.not_mem_nil ((mem_iff_of_filter_eq h b).2 hb)
  | cons a as ih =>
    have ha := (mem_iff_of_filter_eq h a).1 List.mem_cons_self
    obtain ⟨b, bs, rfl⟩ := List.exists_cons_of_ne_nil (List.ne_nil_of_mem ha)
    have hb := (mem_iff_of_filter_eq h b).2 List.mem_cons_self
    rw [List.pairwise_cons] at has hbs
    -- each of the two heads stands in the other list, so neither key is before the other
    have hkey : key a = key b := by
      rcases List.mem_cons.1 ha with rfl | ha
      · rfl
      rcases List.mem_cons.1 hb with rfl | hb
      · rfl
      exact hantisymm (has.1 b hb) (hbs.1 a ha)
    have hhead := h (key a)
    rw [List.filter_cons_of_pos (by simp), List.filter_cons_of_pos (by simp [hkey])] at hhead
    obtain ⟨rfl, -⟩ := List.cons.inj hhead
    have htail : ∀ k, as.filter (key · == k) = bs.filter (key · == k) := by
      intro k
      have hk := h k
      by_cases hak : key a = k
      · rw [List.filter_cons_of_pos (by simpa), List.filter_cons_of_pos (by simpa)] at hk
        exact (List.cons.inj hk).2
      · rwa [List.filter_cons_of_neg (by simpa), List.filter_cons_of_neg (by simpa)] at hk
    rw [ih has.2 hbs.2 htail]

end Sorted

/-! ## Ranges -/

/-- The columns that an underline marks. -/
def Underline.span (u : Underline) : Span := (u.start, u.stop)

/-- A range that starts earlier comes first, and of two that start together the one that ends
earlier. -/
def Span.Le (s t : Span) : Prop := s.1 < t.1 ∨ s.1 = t.1 ∧ s.2 ≤ t.2

/-- Two spans that are each before the other are one span. -/
theorem Span.Le.antisymm {s t : Span} (hst : s.Le t) (hts : t.Le s) : s = t := by
  unfold Span.Le at hst hts
  exact Prod.ext (by omega) (by omega)

namespace ViolationBuilder

/-! ## Calls -/

/-- A value as it is added: the position of its argument, its text and types, and the range that it
was checked against. -/
structure Given where
  position : Int
  text : String
  types : List String
  span : Option Span

/-- What is put into a report. -/
inductive Step
  | underline (mark : Underline)
  | value (given : Given)
  | explain (sentence : String)

namespace Step

def mark? : Step → Option Underline
  | .underline mark => some mark
  | _ => none

def given? : Step → Option Given
  | .value given => some given
  | _ => none

def sentence? : Step → Option String
  | .explain sentence => some sentence
  | _ => none

def marks (steps : List Step) : List Underline := steps.filterMap mark?

def givens (steps : List Step) : List Given := steps.filterMap given?

def sentences (steps : List Step) : List String := steps.filterMap sentence?

/-- A further step adds its underline, if it draws one, at the end. -/
theorem marks_concat (steps : List Step) (s : Step) :
    marks (steps ++ [s]) = marks steps ++ s.mark?.toList := by
  cases s <;> simp [marks, mark?]

theorem givens_concat (steps : List Step) (s : Step) :
    givens (steps ++ [s]) = givens steps ++ s.given?.toList := by
  cases s <;> simp [givens, given?]

theorem sentences_concat (steps : List Step) (s : Step) :
    sentences (steps ++ [s]) = sentences steps ++ s.sentence?.toList := by
  cases s <;> simp [sentences, sentence?]

end Step

/-- A builder to which nothing was added. -/
def start (kind : ViolationKind) (functionName signature : String) : ViolationBuilder :=
  { kind := kind, functionName := functionName, signature := signature }

def advance (b : ViolationBuilder) : Step → ViolationBuilder
  | .underline mark => b.underline mark.start mark.stop mark.label
  | .value given => b.value given.position given.text given.types given.span
  | .explain sentence => b.explain sentence

/-- A call on a builder: a step, or the question for the record. -/
inductive Call
  | step (s : Step)
  | build

def Call.step? : Call → Option Step
  | .step s => some s
  | .build => none

/-- What a call leaves of the builder, and the record if it asks for one. -/
def perform (b : ViolationBuilder) : Call → ViolationBuilder × Option Violation
  | .step s => (b.advance s, none)
  | .build => (b, some b.build)

/-- The answers of the calls on one builder. -/
def session (b : ViolationBuilder) : List Call → List (Option Violation)
  | [] => []
  | call :: calls => (b.perform call).2 :: (b.perform call).1.session calls

/-! ## Records -/

/-- Underlines for values that came with these ranges, one for each range: it lists the numbers of
the values of its range, from the first to the last. -/
structure Shares (spans : List (Option Span)) (shared : List Underline) : Prop where
  nodup : (shared.map Underline.span).Nodup
  lists : ∀ u ∈ shared, ∃ ns : List Nat, ns ≠ [] ∧ u.label = ",".intercalate (ns.map toString) ∧
    ns.Pairwise (· < ·) ∧ ∀ n, n ∈ ns ↔ (some u.span, n) ∈ spans.zipIdx 1
  /-- The number of a value that came with a range is named by one of them, that of the range. -/
  once : ∀ (span : Span) (n : Nat), (some span, n) ∈ spans.zipIdx 1 →
    ∃ u, shared.filter (·.names n) = [u] ∧ u.span = span
  /-- Two values share an underline if they have one range, and only then. -/
  together : ∀ (s t : Span) (m n : Nat), (some s, m) ∈ spans.zipIdx 1 →
    (some t, n) ∈ spans.zipIdx 1 →
    ((∃ u ∈ shared, u.names m = true ∧ u.names n = true) ↔ s = t)

/-- The record tells what the steps put into it. -/
structure Recounts (kind : ViolationKind) (functionName signature : String) (steps : List Step)
    (v : Violation) : Prop where
  kind : v.kind = kind
  functionName : v.functionName = functionName
  signature : v.signature = signature
  values : v.values = ((Step.givens steps).zipIdx 1).map fun (given, n) =>
    ⟨n, given.text, given.types⟩
  positions : v.positions = ((Step.givens steps).map Given.position).eraseDups
  explanation : v.explanation = (Step.sentences steps).getLast?.getD ""
  sorted : v.underlines.Pairwise fun u w => u.span.Le w.span
  /-- Besides the marks there are just the underlines for values. Those of one range keep the order
  of their steps, and the one for values comes last. -/
  underlines : ∃ shared, Shares ((Step.givens steps).map Given.span) shared ∧
    v.underlines.Perm (Step.marks steps ++ shared) ∧
    ∀ span, v.underlines.filter (·.span == span) =
      (Step.marks steps ++ shared).filter (·.span == span)

/-! ## Underlines for values -/

section Groups

variable {groups : List (Span × List Nat)} {spans : List (Option Span)} {last : Nat}
variable {ns : List Nat}

/-- The numbers ascend, and none of them is greater than the last. -/
structure Ascends (last : Nat) (ns : List Nat) : Prop where
  ne_nil : ns ≠ []
  pairwise : ns.Pairwise (· < ·)
  le : ∀ n ∈ ns, n ≤ last

theorem ascends_singleton (last : Nat) : Ascends last [last] where
  ne_nil := List.cons_ne_nil _ _
  pairwise := List.pairwise_singleton _ _
  le _ hn := (List.mem_singleton.1 hn).le

/-- Names that ascend to a bound ascend to the next one. -/
theorem Ascends.succ (h : Ascends last ns) : Ascends (last + 1) ns where
  ne_nil := h.ne_nil
  pairwise := h.pairwise
  le n hn := (h.le n hn).trans (Nat.le_succ last)

/-- The next name may be added to names that ascend. -/
theorem Ascends.concat (h : Ascends last ns) :
    Ascends (last + 1) (ns ++ [last + 1]) where
  ne_nil := List.concat_ne_nil _ ns
  pairwise := by
    refine List.pairwise_append.2 ⟨h.pairwise, List.pairwise_singleton _ _, fun n hn m hm => ?_⟩
    rw [List.mem_singleton.1 hm]
    exact Nat.lt_succ_of_le (h.le n hn)
  le n hn := by
    rcases List.mem_append.1 hn with hn | hn
    · exact h.succ.le n hn
    · exact (List.mem_singleton.1 hn).le

/-- The underline of a group names the numbers of the values of its range. -/
theorem Grouped.names_iff (h : Grouped groups spans) {group : Span × List Nat}
    (hgroup : group ∈ groups) (n : Nat) :
    (groupUnderline group).names n = true ↔ (some group.1, n) ∈ spans.zipIdx 1 := by
  rw [names_groupUnderline, ← h.inGroup_iff]
  constructor
  · exact fun hn => ⟨group.2, hgroup, hn⟩
  · rintro ⟨ns, hns, hn⟩
    rwa [← List.inj_on_of_nodup_map h.nodup hns hgroup rfl]

/-- Two numbers stand in one group if their values came with one range, and only then. -/
theorem Grouped.exists_names_iff (h : Grouped groups spans) {s t : Span} {m n : Nat}
    (hm : (some s, m) ∈ spans.zipIdx 1) (hn : (some t, n) ∈ spans.zipIdx 1) :
    (∃ u ∈ groups.map groupUnderline, u.names m = true ∧ u.names n = true) ↔ s = t := by
  constructor
  · rintro ⟨u, hu, hum, hun⟩
    obtain ⟨group, hgroup, rfl⟩ := List.mem_map.1 hu
    have hs := eq_of_mem_zipIdx hm ((h.names_iff hgroup m).1 hum)
    have ht := eq_of_mem_zipIdx hn ((h.names_iff hgroup n).1 hun)
    exact Option.some_inj.1 (hs.trans ht.symm)
  · rintro rfl
    obtain ⟨ns, hgroup, -⟩ := (h.inGroup_iff s m).2 hm
    exact ⟨_, List.mem_map_of_mem hgroup, (h.names_iff hgroup m).2 hm, (h.names_iff hgroup n).2 hn⟩

/-- The underlines of ascending groups are those for the values. -/
theorem Grouped.shares (h : Grouped groups spans)
    (hascends : ∀ group ∈ groups, Ascends last group.2) :
    Shares spans (groups.map groupUnderline) where
  nodup := by
    rw [List.map_map]
    exact h.nodup
  lists := by
    intro u hu
    obtain ⟨group, hgroup, rfl⟩ := List.mem_map.1 hu
    have hnumbers := hascends group hgroup
    refine ⟨group.2, hnumbers.ne_nil, rfl, hnumbers.pairwise, fun n => ?_⟩
    rw [← names_groupUnderline]
    exact h.names_iff hgroup n
  once := by
    intro span n hn
    obtain ⟨ns, hfilter⟩ := h.exists_filter_names_eq hn
    exact ⟨groupUnderline (span, ns), hfilter, rfl⟩
  together _ _ _ _ := h.exists_names_iff

end Groups

/-! ## What a builder holds -/

/-- The builder holds the marks, values and sentences that were put into it. -/
structure Holds (kind : ViolationKind) (functionName signature : String) (marks : List Underline)
    (givens : List Given) (sentences : List String) (b : ViolationBuilder) : Prop where
  kind : b.kind = kind
  functionName : b.functionName = functionName
  signature : b.signature = signature
  marks : b.marks = marks
  values : b.values = (givens.zipIdx 1).map fun (given, n) => ⟨n, given.text, given.types⟩
  positions : b.positions = (givens.map Given.position).eraseDups
  explanation : b.explanation = sentences.getLast?.getD ""
  grouped : Grouped b.labelled (givens.map Given.span)
  ascends : ∀ group ∈ b.labelled, Ascends givens.length group.2

section Steps

variable {kind : ViolationKind} {functionName signature : String} {marks : List Underline}
variable {givens : List Given} {sentences : List String} {b : ViolationBuilder}

/-- A builder that has taken no step holds nothing. -/
theorem holds_start (kind : ViolationKind) (functionName signature : String) :
    Holds kind functionName signature [] [] [] (start kind functionName signature) where
  kind := rfl
  functionName := rfl
  signature := rfl
  marks := rfl
  values := rfl
  positions := rfl
  explanation := rfl
  grouped := .nil
  ascends _ h := by cases h

/-- An underline is added to what the builder holds. -/
theorem Holds.underline (h : Holds kind functionName signature marks givens sentences b)
    (mark : Underline) : Holds kind functionName signature (marks ++ [mark]) givens sentences
      (b.underline mark.start mark.stop mark.label) where
  __ := h
  marks := congrArg (· ++ [mark]) h.marks

/-- A sentence is added to what the builder holds. -/
theorem Holds.explain (h : Holds kind functionName signature marks givens sentences b)
    (sentence : String) : Holds kind functionName signature marks givens (sentences ++ [sentence])
      (b.explain sentence) where
  __ := h
  explanation := by
    rw [List.getLast?_concat]
    rfl

theorem Holds.length (h : Holds kind functionName signature marks givens sentences b) :
    b.values.length = givens.length := by
  rw [h.values, List.length_map, List.length_zipIdx]

/-- A value is added to what the builder holds, with its place in the signature. -/
theorem Holds.value (h : Holds kind functionName signature marks givens sentences b)
    (given : Given) : Holds kind functionName signature marks (givens ++ [given]) sentences
      (b.value given.position given.text given.types given.span) where
  kind := h.kind
  functionName := h.functionName
  signature := h.signature
  marks := h.marks
  explanation := h.explanation
  values := by
    rw [List.zipIdx_append, List.map_append, ← h.values, ← h.length]
    simp [ViolationBuilder.value, Nat.add_comm]
  positions := by
    rw [List.map_append]
    exact positions_value h.positions _ _ _ _
  grouped := by
    rw [List.map_append]
    exact h.grouped.value (by rw [h.length, List.length_map]) _ _ _ _
  ascends := by
    rw [List.length_append, List.length_singleton]
    cases hspan : given.span with
    | none => exact fun group hgroup => (h.ascends group hgroup).succ
    | some span =>
      have hascends := h.ascends
      rw [← h.length] at hascends ⊢
      exact forall_mem_addLabel (ascends_singleton _) (fun _ hns => hns.concat)
        (fun _ hns => hns.succ) hascends

/-- A step adds to what the steps before put into the builder. -/
theorem Holds.step {steps : List Step} (h : Holds kind functionName signature (Step.marks steps)
      (Step.givens steps) (Step.sentences steps) b) (s : Step) :
    Holds kind functionName signature (Step.marks (steps ++ [s])) (Step.givens (steps ++ [s]))
      (Step.sentences (steps ++ [s])) (b.advance s) := by
  rw [Step.marks_concat, Step.givens_concat, Step.sentences_concat]
  cases s with
  | underline mark =>
    simpa [Step.mark?, Step.given?, Step.sentence?, advance] using h.underline mark
  | value given =>
    simpa [Step.mark?, Step.given?, Step.sentence?, advance] using h.value given
  | explain sentence =>
    simpa [Step.mark?, Step.given?, Step.sentence?, advance] using h.explain sentence

/-- After any steps the builder holds what they put into it. -/
theorem Holds.run {done : List Step} (h : Holds kind functionName signature (Step.marks done)
      (Step.givens done) (Step.sentences done) b) (steps : List Step) :
    Holds kind functionName signature (Step.marks (done ++ steps)) (Step.givens (done ++ steps))
      (Step.sentences (done ++ steps)) (steps.foldl advance b) := by
  induction steps generalizing done b with
  | nil => simpa using h
  | cons s steps ih =>
    have hnext := ih (h.step s)
    rwa [List.append_assoc] at hnext

end Steps

/-! ## Underlines in order -/

theorem underlineLe_iff {u v : Underline} : underlineLe u v = true ↔ u.span.Le v.span := by
  simp [underlineLe, Underline.span, Span.Le]

theorem underlineLe_trans (u v w : Underline) (huv : underlineLe u v = true)
    (hvw : underlineLe v w = true) : underlineLe u w = true := by
  rw [underlineLe_iff, Span.Le] at huv hvw ⊢
  omega

theorem underlineLe_total (u v : Underline) : underlineLe u v = true ∨ underlineLe v u = true := by
  rw [underlineLe_iff, underlineLe_iff, Span.Le, Span.Le]
  omega

/-- The record that is built recounts the steps. -/
theorem Holds.recounts {kind : ViolationKind} {functionName signature : String}
    {steps : List Step} {b : ViolationBuilder}
    (h : Holds kind functionName signature (Step.marks steps) (Step.givens steps)
      (Step.sentences steps) b) : Recounts kind functionName signature steps b.build where
  kind := h.kind
  functionName := h.functionName
  signature := h.signature
  values := h.values
  positions := h.positions
  explanation := h.explanation
  sorted :=
    (pairwise_sortStable underlineLe_trans underlineLe_total _).imp underlineLe_iff.1
  underlines := by
    refine ⟨b.labelled.map groupUnderline, h.grouped.shares h.ascends, ?_, ?_⟩
    · rw [← h.marks]
      exact perm_sortStable _ _
    · intro span
      rw [← h.marks]
      refine filter_sortStable_of_ties underlineLe_trans _ underlineLe_total (fun u w hu hw => ?_) _
      rw [beq_iff_eq] at hu hw
      rw [underlineLe_iff, hu, hw]
      exact .inr ⟨rfl, le_rfl⟩

/-! ## One record -/

section Unique

variable {spans : List (Option Span)} {shared shared' : List Underline} {u : Underline}
variable {kind : ViolationKind} {functionName signature : String} {steps : List Step}
variable {v w : Violation}

/-- An underline of one list of shared ones is in every other over the same spans. -/
theorem Shares.mem_of_mem (h : Shares spans shared) (h' : Shares spans shared') (hu : u ∈ shared) :
    u ∈ shared' := by
  obtain ⟨ns, hne, hlabel, hlt, hmem⟩ := h.lists u hu
  obtain ⟨n, hn⟩ := List.exists_mem_of_ne_nil ns hne
  obtain ⟨u', hfilter, hspan⟩ := h'.once u.span n ((hmem n).1 hn)
  have hu' : u' ∈ shared' := (List.mem_filter.1 (hfilter ▸ List.mem_singleton_self u')).1
  obtain ⟨ns', -, hlabel', hlt', hmem'⟩ := h'.lists u' hu'
  rw [hspan] at hmem'
  obtain rfl : ns = ns' := hlt.eq_of_mem_iff hlt' fun n => (hmem n).trans (hmem' n).symm
  obtain ⟨start, stop, label⟩ := u
  obtain ⟨start', stop', label'⟩ := u'
  cases hspan
  cases hlabel.trans hlabel'.symm
  exact hu'

/-- The values of a range have one underline. -/
theorem Shares.filter_span_eq (h : Shares spans shared) (h' : Shares spans shared') (span : Span) :
    shared.filter (·.span == span) = shared'.filter (·.span == span) := by
  have hperm : shared.Perm shared' :=
    (List.perm_ext_iff_of_nodup h.nodup.of_map h'.nodup.of_map).2 fun _ =>
      ⟨h.mem_of_mem h', h'.mem_of_mem h⟩
  refine (hperm.filter _).eq_of_pairwise (fun u w hu hw hne _ => ?_)
    ((List.pairwise_map.1 h.nodup).filter _) ((List.pairwise_map.1 h'.nodup).filter _)
  -- no two underlines for values have one range
  rw [List.mem_filter, beq_iff_eq] at hu hw
  exact absurd (hu.2.trans hw.2.symm) hne

/-- Two violations that recount the same steps are one violation. -/
theorem Recounts.unique (h : Recounts kind functionName signature steps v)
    (h' : Recounts kind functionName signature steps w) : v = w := by
  have hunderlines : v.underlines = w.underlines := by
    obtain ⟨shared, hshared, -, hv⟩ := h.underlines
    obtain ⟨shared', hshared', -, hw⟩ := h'.underlines
    refine eq_of_filter_eq Span.Le.antisymm h.sorted h'.sorted fun span => ?_
    rw [hv, hw, List.filter_append, List.filter_append, hshared.filter_span_eq hshared']
  cases v
  cases w
  rw [Violation.mk.injEq]
  exact ⟨h.kind.trans h'.kind.symm, h.functionName.trans h'.functionName.symm,
    h.signature.trans h'.signature.symm, hunderlines, h.values.trans h'.values.symm,
    h.explanation.trans h'.explanation.symm, h.positions.trans h'.positions.symm⟩

end Unique

/-! ## Sessions -/

/-- A call that asks for the record is answered from the steps before it. -/
theorem session_getElem? (b : ViolationBuilder) (calls : List Call) {i : Nat}
    (hi : calls[i]? = some .build) :
    (b.session calls)[i]? =
      some (some (((calls.take i).filterMap Call.step?).foldl advance b).build) := by
  induction calls generalizing b i with
  | nil => cases hi
  | cons call calls ih =>
    cases i with
    | zero =>
      cases hi
      rfl
    | succ i =>
      rw [session, List.getElem?_cons_succ, ih _ hi, List.take_succ_cons]
      cases call <;> rfl

/-- Each record that a session asks for is the one record of the steps before, however often the
record was asked for before. -/
theorem session_answers_record (kind : ViolationKind) (functionName signature : String)
    (calls : List Call) {i : Nat} (hi : calls[i]? = some .build) :
    ∃ v, ((start kind functionName signature).session calls)[i]? = some (some v) ∧
      ∀ w, Recounts kind functionName signature ((calls.take i).filterMap Call.step?) w ↔ w = v := by
  have hstart : Holds kind functionName signature (Step.marks []) (Step.givens [])
      (Step.sentences []) (start kind functionName signature) :=
    holds_start kind functionName signature
  have hrecounts := (hstart.run ((calls.take i).filterMap Call.step?)).recounts
  refine ⟨_, session_getElem? _ calls hi, fun w => ⟨fun hw => hw.unique hrecounts, ?_⟩⟩
  rintro rfl
  exact hrecounts

/-- The record is asked for three times. Two values share a range, which is also marked, and between
them come a value of another range and one without. -/
def interleaved : List Call := [
  .step (.value ⟨2, "1", ["Number"], some (5, 6)⟩),
  .build,
  .step (.underline ⟨5, 6, "here"⟩),
  .step (.value ⟨1, "None", ["Null"], some (0, 1)⟩),
  .step (.value ⟨1, "True", ["Boolean"], none⟩),
  .build,
  .step (.explain "first"),
  .step (.value ⟨2, "2", ["Number"], some (5, 6)⟩),
  .step (.explain "last"),
  .build]

theorem session_answers_record_interleaved : interleaved[9]? = some .build ∧
    ∃ v, ((start .typeVariable "f" "f :: a -> a").session interleaved)[9]? = some (some v) ∧
      ∀ w, Recounts .typeVariable "f" "f :: a -> a" ((interleaved.take 9).filterMap Call.step?) w ↔
        w = v :=
  ⟨rfl, session_answers_record .typeVariable "f" "f :: a -> a" interleaved rfl⟩

end ViolationBuilder

end CheckedCalls
