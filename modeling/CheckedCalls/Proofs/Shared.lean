import CheckedCalls.Proofs.Lines
import CheckedCalls.Proofs.Recording
import Mathlib.Data.List.Sort

/-!
# Types in common, in any order

The candidates of a key are filtered from the types of the first value seen for it, in the order of
those. Still they do not depend on which value came first: all rankings go through one list, that of
the environment, and no nominal type of a native value is called like a type of the library that the
value does not have. So the candidates of a key, and the bindings with them, are a function of the
values seen for it in any order (`shared?_perm`).
-/

namespace CheckedCalls

open CheckState

/-! ## Sorting and filtering -/

section Sorting

variable {α : Type} {le : α → α → Bool} {a : α} {as bs : List α}

theorem insertSorted_eq_orderedInsert (a : α) (bs : List α) :
    insertSorted le a bs = bs.orderedInsert (fun a b => le a b = true) a := by
  induction bs with
  | nil => rfl
  | cons b bs ih => rw [insertSorted, ih, List.orderedInsert_cons]

theorem sortStable_eq_insertionSort (as : List α) :
    sortStable le as = as.insertionSort fun a b => le a b = true := by
  induction as with
  | nil => rfl
  | cons a as ih => rw [sortStable, ih, insertSorted_eq_orderedInsert, List.insertionSort_cons]

theorem insertSorted_of_forall (h : ∀ b ∈ bs, le a b = true) : insertSorted le a bs = a :: bs := by
  cases bs with
  | nil => rfl
  | cons b bs => rw [insertSorted, if_pos (h b List.mem_cons_self)]

/-- A sorted list is sorted to itself. -/
theorem sortStable_of_pairwise (h : as.Pairwise fun a b => le a b = true) :
    sortStable le as = as := by
  induction as with
  | nil => rfl
  | cons a as ih =>
    rw [List.pairwise_cons] at h
    rw [sortStable, ih h.2, insertSorted_of_forall h.1]

variable (htrans : ∀ a b c, le a b = true → le b c = true → le a c = true) (p : α → Bool)
variable (htotal : ∀ a b, le a b = true ∨ le b a = true)
include htrans

include htotal in
theorem pairwise_sortStable (as : List α) :
    (sortStable le as).Pairwise fun a b => le a b = true := by
  have : Std.Total fun a b => le a b = true := ⟨htotal⟩
  have : IsTrans α fun a b => le a b = true := ⟨htrans⟩
  rw [sortStable_eq_insertionSort]
  exact List.pairwise_insertionSort _ as

/-- An element is put where it was put, whatever is left out of a sorted list. -/
theorem filter_insertSorted (h : bs.Pairwise fun a b => le a b = true) :
    (insertSorted le a bs).filter p =
      if p a then insertSorted le a (bs.filter p) else bs.filter p := by
  fun_induction insertSorted le a bs with
  | case1 => by_cases hp : p a = true <;> simp [hp, insertSorted]
  | case2 b bs hle =>
    have hall : ∀ c ∈ (b :: bs).filter p, le a c = true := by
      intro c hc
      rcases List.mem_cons.1 (List.mem_filter.1 hc).1 with rfl | hc
      · exact hle
      · exact htrans a b c hle (List.rel_of_pairwise_cons h hc)
    rw [List.filter_cons, insertSorted_of_forall hall]
  | case3 b bs hle ih =>
    rw [List.filter_cons, List.filter_cons, ih h.of_cons]
    by_cases hb : p b = true
    · rw [if_pos hb, if_pos hb, insertSorted, if_neg hle]
      split <;> rfl
    · rw [if_neg hb, if_neg hb]

include htotal

/-- Sorting and filtering may be done in either order. -/
theorem filter_sortStable (as : List α) :
    (sortStable le as).filter p = sortStable le (as.filter p) := by
  induction as with
  | nil => rfl
  | cons a as ih =>
    rw [sortStable, filter_insertSorted htrans p (pairwise_sortStable htrans htotal as), ih,
      List.filter_cons]
    split <;> rfl

/-- Elements that the order does not tell apart keep their order. -/
theorem filter_sortStable_of_ties (hties : ∀ a b, p a = true → p b = true → le a b = true)
    (as : List α) : (sortStable le as).filter p = as.filter p := by
  rw [filter_sortStable htrans p htotal]
  refine sortStable_of_pairwise (List.pairwise_of_forall_mem_list fun a ha b hb => ?_)
  exact hties a b (List.mem_filter.1 ha).2 (List.mem_filter.1 hb).2

end Sorting

theorem specificity_trans (s t u : NamedType)
    (hst : decide (t.specificity ≤ s.specificity) = true)
    (htu : decide (u.specificity ≤ t.specificity) = true) :
    decide (u.specificity ≤ s.specificity) = true :=
  decide_eq_true ((of_decide_eq_true htu).trans (of_decide_eq_true hst))

theorem specificity_total (s t : NamedType) :
    decide (t.specificity ≤ s.specificity) = true ∨
      decide (s.specificity ≤ t.specificity) = true := by
  simpa using le_total t.specificity s.specificity

/-- What is left of ranked types is ranked. -/
theorem filter_rank (p : NamedType → Bool) (types : List NamedType) :
    (rank types).filter p = rank (types.filter p) :=
  filter_sortStable specificity_trans p specificity_total types

/-! ## Types of two values -/

section Types

variable {ts : List StandardType} {u v : Value}

/-- A value has a nominal type, or types of the environment in their order there. -/
theorem Value.types_cases (ts : List StandardType) (v : Value) :
    v.isForeign ts = true ∧ v.types ts = [.nominal v.nominalName] ∨
      v.types ts = (ts.map StandardType.named).filter (v.types ts).contains := by
  rcases hd : v.descriptor ts with f | d
  · have hnone : v.types ts = [] := by rw [types, hd]
    exact .inr (by simp [hnone])
  rw [types_of_descriptor hd]
  have heq := descriptor_eq hd
  by_cases hforeign : ∀ t ∈ ts, t.has v = false
  · rw [if_pos hforeign] at heq
    exact .inl ⟨by simpa [isForeign] using hforeign, heq⟩
  · rw [if_neg hforeign] at heq
    refine .inr ?_
    rw [List.filter_map, heq]
    refine congrArg _ (List.filter_congr fun t ht => ?_)
    rw [Bool.eq_iff_iff, Function.comp_apply, List.contains_iff_exists_mem_beq]
    constructor
    · intro hhas
      exact ⟨_, List.mem_map_of_mem (List.mem_filter.2 ⟨ht, hhas⟩), BEq.rfl⟩
    · rintro ⟨c, hc, hsame⟩
      obtain ⟨b, hb, rfl⟩ := List.mem_map.1 hc
      rw [StandardType.named_beq_named.1 hsame]
      exact (List.mem_filter.1 hb).2

/-- No type of the environment is the same as the nominal type of a native value. -/
theorem not_beq_nominal (hu : u.isNative = true) (hforeign : u.isForeign ts = true) {t : NamedType}
    (ht : t ∈ ts.map StandardType.named) : ¬(t == .nominal u.nominalName) = true := by
  obtain ⟨b, hb, rfl⟩ := List.mem_map.1 ht
  intro hsame
  have hhas : b.has u = false := by simpa using List.all_eq_true.1 hforeign b hb
  exact Value.nominalName_ne_name (Value.not_isInstance_of_isNative hu) hhas
    (StandardType.named_beq_nominal.1 hsame).1.symm

/-- A value with a nominal type has none in common with a value with types of the environment. -/
theorem filter_rank_foreign (hu : u.isNative = true) (hforeign : u.isForeign ts = true)
    (hutypes : u.types ts = [.nominal u.nominalName])
    (hvtypes : v.types ts = (ts.map StandardType.named).filter (v.types ts).contains) :
    (rank (u.types ts)).filter (v.types ts).contains = [] ∧
      (rank (v.types ts)).filter (u.types ts).contains = [] := by
  have hmem : ∀ c ∈ v.types ts, c ∈ ts.map StandardType.named := by
    intro c hc
    rw [hvtypes] at hc
    exact (List.mem_filter.1 hc).1
  constructor
  · rw [List.filter_eq_nil_iff]
    intro t ht hcontains
    rw [mem_rank, hutypes, List.mem_singleton] at ht
    subst ht
    obtain ⟨c, hc, hsame⟩ := List.contains_iff_exists_mem_beq.1 hcontains
    exact not_beq_nominal hu hforeign (hmem c hc) (BEq.symm hsame)
  · rw [List.filter_eq_nil_iff]
    intro t ht hcontains
    rw [hutypes] at hcontains
    obtain ⟨c, hc, hsame⟩ := List.contains_iff_exists_mem_beq.1 hcontains
    cases List.mem_singleton.1 hc
    exact not_beq_nominal hu hforeign (hmem t (mem_rank.1 ht)) hsame

/-- The types that two native values have in common, and their order, are the same from both
sides. -/
theorem filter_rank_comm (hu : u.isNative = true) (hv : v.isNative = true) :
    (rank (u.types ts)).filter (v.types ts).contains =
      (rank (v.types ts)).filter (u.types ts).contains := by
  rcases Value.types_cases ts u with ⟨hforeign, hutypes⟩ | hutypes <;>
    rcases Value.types_cases ts v with ⟨hforeign', hvtypes⟩ | hvtypes
  · rw [hutypes, hvtypes]
    by_cases hname : u.nominalName = v.nominalName
    · rw [hname]
    · have hne : ∀ m n : String, m ≠ n → (rank [NamedType.nominal m]).filter
          [NamedType.nominal n].contains = [] := by
        intro m n hmn
        rw [List.filter_eq_nil_iff]
        intro t ht hcontains
        rw [mem_rank, List.mem_singleton] at ht
        obtain ⟨c, hc, hsame⟩ := List.contains_iff_exists_mem_beq.1 hcontains
        rw [ht, List.mem_singleton.1 hc] at hsame
        exact hmn (NamedType.nominal_beq_nominal.1 hsame)
      rw [hne _ _ hname, hne _ _ (Ne.symm hname)]
  · have hnone := filter_rank_foreign hu hforeign hutypes hvtypes
    rw [hnone.1, hnone.2]
  · have hnone := filter_rank_foreign hv hforeign' hvtypes hutypes
    rw [hnone.1, hnone.2]
  -- both rankings go through that of the environment
  · calc (rank (u.types ts)).filter (v.types ts).contains
        = ((rank (ts.map StandardType.named)).filter (u.types ts).contains).filter
            (v.types ts).contains := by rw [filter_rank (u.types ts).contains, ← hutypes]
      _ = ((rank (ts.map StandardType.named)).filter (v.types ts).contains).filter
            (u.types ts).contains := List.filter_comm _ _ _
      _ = (rank (v.types ts)).filter (u.types ts).contains := by
          rw [filter_rank (v.types ts).contains, ← hvtypes]

/-! ## Types of several values -/

/-- The types that values have in common, those of the first narrowest first; there must be a
value. -/
def shared? (ts : List StandardType) : List Value → Option (List NamedType)
  | [] => none
  | v :: vs => some ((rank (v.types ts)).filter fun t => vs.all fun u => (u.types ts).contains t)

/-- The types that native values have in common do not depend on the order of the values. -/
theorem shared?_perm {us vs : List Value} (h : us.Perm vs) (hus : ∀ u ∈ us, u.isNative = true) :
    shared? ts us = shared? ts vs := by
  induction h with
  | nil => rfl
  | cons v h => simp only [shared?, h.all_eq]
  | swap u v vs =>
    simp only [shared?, List.all_cons, Option.some_inj]
    rw [← List.filter_filter, ← List.filter_filter, List.filter_comm,
      List.filter_comm (fun t => (v.types ts).contains t)]
    exact congrArg _ (filter_rank_comm (hus v List.mem_cons_self)
      (hus u (List.mem_cons_of_mem _ List.mem_cons_self)))
  | trans h _ ih ih' => exact (ih hus).trans (ih' fun v hv => hus v (h.mem_iff.2 hv))

end Types

/-! ## Candidates and bindings -/

namespace CheckState

variable {ts : List StandardType} {s s' : CheckState} {seen seen' : List (VarKey × Observation)}

/-- The candidates of each key are the types that the values seen for it have in common. -/
def Explained (ts : List StandardType) (s : CheckState) : Prop :=
  ∀ key, s.candidates? key = shared? ts ((s.observed key).map Observation.value)

/-- A state stays explained when a value is recorded. -/
theorem Explained.record {key : VarKey} {o : Observation} (hs : s.Explained ts)
    (h : s.record ts key o = some s') : s'.Explained ts := by
  intro k
  rw [candidates?_record h, observed_record h]
  split
  · have hkey := hs key
    rw [List.map_append, candidatesAfter]
    rcases hseen : (s.observed key).map Observation.value with _ | ⟨v, vs⟩
    · rw [hseen] at hkey
      rw [hkey]
      simp [shared?]
    · rw [hseen] at hkey
      rw [hkey]
      simp [shared?, List.filter_filter, Bool.and_comm]
  · exact hs k

/-- A state stays explained when values are recorded. -/
theorem Explained.recordAll (hs : s.Explained ts) (h : s.recordAll ts seen = some s') :
    s'.Explained ts := by
  induction seen generalizing s with
  | nil =>
    cases h
    exact hs
  | cons p seen ih =>
    rw [recordAll_cons, Option.bind_eq_some_iff] at h
    obtain ⟨s₁, h₁, h₂⟩ := h
    exact ih (hs.record h₁) h₂

/-- A record, less the place in the call that the value was met at. -/
def sight (p : VarKey × Observation) : VarKey × Value := (p.1, p.2.value)

/-- Values can be recorded exactly if there is a type for each key that all its values have,
wherever in the call they were met. -/
theorem exists_recordAll_iff_sights : (∃ s, CheckState.initial.recordAll ts seen = some s) ↔
    ∃ common : VarKey → NamedType,
      ∀ q ∈ seen.map sight, (q.2.types ts).contains (common q.1) = true := by
  rw [exists_recordAll_iff]
  refine exists_congr fun common => ?_
  rw [List.forall_mem_map]
  rfl

/-- Records of the same values under the same keys can be made in any order. -/
theorem exists_recordAll_perm (hperm : (seen.map sight).Perm (seen'.map sight)) :
    (∃ s, CheckState.initial.recordAll ts seen = some s) ↔
      ∃ s, CheckState.initial.recordAll ts seen' = some s := by
  rw [exists_recordAll_iff_sights, exists_recordAll_iff_sights]
  exact exists_congr fun common => forall_congr' fun q => imp_congr_left hperm.mem_iff

/-- The candidates that records leave for a key are the types that the values recorded under it have
in common. -/
theorem candidates?_recordAll (h : CheckState.initial.recordAll ts seen = some s) (key : VarKey) :
    s.candidates? key = shared? ts (((seen.map sight).filter (·.1 = key)).map Prod.snd) := by
  have hinitial : CheckState.initial.Explained ts := fun _ => rfl
  have hempty : CheckState.initial.observed key = [] := rfl
  rw [hinitial.recordAll h key, observed_recordAll h, hempty, List.nil_append, List.filter_map,
    List.map_map, List.map_map]
  rfl

/-- Records of the same native values under the same keys leave the same candidates in any order. -/
theorem candidates?_recordAll_perm (hperm : (seen.map sight).Perm (seen'.map sight))
    (hnative : ∀ p ∈ seen, p.2.value.isNative = true)
    (h : CheckState.initial.recordAll ts seen = some s)
    (h' : CheckState.initial.recordAll ts seen' = some s') (key : VarKey) :
    s.candidates? key = s'.candidates? key := by
  rw [candidates?_recordAll h, candidates?_recordAll h']
  refine shared?_perm ((hperm.filter _).map _) fun v hv => ?_
  obtain ⟨q, hq, rfl⟩ := List.mem_map.1 hv
  obtain ⟨p, hp, rfl⟩ := List.mem_map.1 (List.mem_filter.1 hq).1
  exact hnative p hp

/-- A variable is bound to the first of its candidates. -/
theorem lookup_bindings (hs : s.Faithful ts) (name : String) :
    s.bindings.lookup name = (s.candidates? (.named name)).bind List.head? := by
  have hbound : ∀ e ∈ s.candidates, e.2 ≠ [] := fun e he =>
    hs.bound e.1 e.2 (lookup_of_mem hs.nodup he)
  rw [bindings, candidates?]
  generalize s.candidates = l at hbound
  induction l with
  | nil => rfl
  | cons e l ih =>
    obtain ⟨key, cs⟩ := e
    rw [List.forall_mem_cons] at hbound
    obtain ⟨t, cs, rfl⟩ := List.exists_cons_of_ne_nil hbound.1
    have hrest := ih hbound.2
    rw [lookup_cons_ite]
    cases key with
    | inner outer i =>
      rw [if_neg (by simp)]
      simpa using hrest
    | named other =>
      simp only [List.filterMap_cons, List.lookup_cons]
      by_cases hname : name = other
      · simp [hname]
      · rw [beq_false_of_ne hname, if_neg (by simpa using hname)]
        exact hrest

end CheckState

end CheckedCalls
