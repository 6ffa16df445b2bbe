import CheckedCalls.Check.Candidates
import CheckedCalls.Proofs.Descriptor

/-!
# Recording values

What a check keeps of the variables changes in one way only: a value is recorded under a key. Its
types narrow the candidates of the key, and it joins the values seen for the key. `Faithful` is what
holds of a state to which records led, and it says what the candidates are: the types of the first
value that every value seen since has too. So a row of values can be recorded exactly if, key by
key, the values have a type in common.
-/

namespace CheckedCalls

namespace CheckState

variable {α : Type} {ts : List StandardType} {s s' : CheckState} {key : VarKey} {o : Observation}

/-! ## Setting keys -/

theorem lookup_cons_ite (k k' : VarKey) (a : α) (l : List (VarKey × α)) :
    ((k', a) :: l).lookup k = if k = k' then some a else l.lookup k := by
  by_cases hk : k = k'
  · simp [hk]
  · have hb : (k == k') = false := beq_eq_false_iff_ne.2 hk
    simp [List.lookup_cons, hb, hk]

/-- After an entry is set, its key finds the new value and every other key what it found before. -/
theorem lookup_setKey (key k : VarKey) (a : α) (l : List (VarKey × α)) :
    (setKey key a l).lookup k = if k = key then some a else l.lookup k := by
  fun_induction setKey key a l with
  | case1 => simp [lookup_cons_ite]
  | case2 rest b =>
    rw [lookup_cons_ite, lookup_cons_ite]
    split <;> rfl
  | case3 k' b rest hne ih =>
    rw [lookup_cons_ite, lookup_cons_ite, ih]
    by_cases hk : k = key
    · have hne' : k ≠ k' := by
        intro h
        exact hne (h.symm.trans hk)
      simp only [if_pos hk, if_neg hne']
    · simp only [if_neg hk]

/-- Setting an entry adds its key and no other. -/
theorem mem_keys_setKey (key k : VarKey) (a : α) (l : List (VarKey × α)) :
    k ∈ (setKey key a l).map Prod.fst ↔ k = key ∨ k ∈ l.map Prod.fst := by
  fun_induction setKey key a l with
  | case1 => simp
  | case2 => simp
  | case3 k' b rest hne ih => simp [-List.mem_map, ih, or_left_comm]

/-- Setting an entry keeps the keys distinct. -/
theorem nodup_keys_setKey (key : VarKey) (a : α) {l : List (VarKey × α)}
    (h : (l.map Prod.fst).Nodup) : ((setKey key a l).map Prod.fst).Nodup := by
  fun_induction setKey key a l with
  | case1 => simp
  | case2 => exact h
  | case3 k' b rest hne ih =>
    rw [List.map_cons, List.nodup_cons] at h ⊢
    refine ⟨?_, ih h.2⟩
    rw [mem_keys_setKey]
    exact not_or.2 ⟨hne, h.1⟩

/-- An entry is the one that is looked up, if no key has two. -/
theorem lookup_of_mem {l : List (VarKey × α)} (h : (l.map Prod.fst).Nodup) {k : VarKey} {a : α}
    (hm : (k, a) ∈ l) : l.lookup k = some a := by
  induction l with
  | nil => cases hm
  | cons p l ih =>
    rw [List.map_cons, List.nodup_cons] at h
    rw [lookup_cons_ite]
    rcases List.mem_cons.1 hm with rfl | hm
    · rw [if_pos rfl]
    · have hne : k ≠ p.1 := by
        intro hk
        apply h.1
        rw [← hk]
        exact List.mem_map_of_mem hm
      rw [if_neg hne, ih h.2 hm]

/-! ## One record -/

/-- A value is recorded under a key; there is no state if it leaves the key no candidate. -/
def record (ts : List StandardType) (s : CheckState) (key : VarKey) (o : Observation) :
    Option CheckState :=
  let types := s.candidatesAfter key (rank (o.value.types ts))
  if types.isEmpty then none else some ((s.observe key o).narrow key types)

/-- An observation is recorded exactly if it leaves a candidate for the variable. -/
theorem record_eq_some : s.record ts key o = some s' ↔
    s.candidatesAfter key (rank (o.value.types ts)) ≠ [] ∧
      (s.observe key o).narrow key (s.candidatesAfter key (rank (o.value.types ts))) = s' := by
  simp [record]

/-- Observing a value adds it to what was seen of its variable, and to nothing else. -/
theorem observed_observe_ite (key : VarKey) (o : Observation) (k : VarKey) :
    (s.observe key o).observed k = if k = key then s.observed key ++ [o] else s.observed k := by
  show ((setKey key (s.observed key ++ [o]) s.observations).lookup k).getD [] = _
  rw [lookup_setKey]
  split <;> rfl

/-- An observed value is the last that was seen of its variable. -/
theorem observed_observe (key : VarKey) (o : Observation) :
    (s.observe key o).observed key = s.observed key ++ [o] := by
  rw [observed_observe_ite, if_pos rfl]

/-- The value that was seen last has been seen. -/
theorem mem_observed_observe (s : CheckState) (key : VarKey) (o : Observation) :
    o ∈ (s.observe key o).observed key := by
  rw [observed_observe]
  exact List.mem_append_right _ (List.mem_singleton_self o)

/-- Narrowing sets the candidates of one variable and keeps those of every other. -/
theorem candidates?_narrow (s : CheckState) (key : VarKey) (types : List NamedType) (k : VarKey) :
    (s.narrow key types).candidates? k = if k = key then some types else s.candidates? k :=
  lookup_setKey key k types s.candidates

theorem record_eq_none : s.record ts key o = none ↔
    s.candidatesAfter key (rank (o.value.types ts)) = [] := by
  simp [record]

/-- Recording a value narrows the candidates of its variable only. -/
theorem candidates?_record (h : s.record ts key o = some s') (k : VarKey) :
    s'.candidates? k =
      if k = key then some (s.candidatesAfter key (rank (o.value.types ts)))
      else s.candidates? k := by
  obtain ⟨-, rfl⟩ := record_eq_some.1 h
  exact lookup_setKey key k _ _

/-- Recording a value adds it to what was seen of its variable only. -/
theorem observed_record (h : s.record ts key o = some s') (k : VarKey) :
    s'.observed k = if k = key then s.observed key ++ [o] else s.observed k := by
  obtain ⟨-, rfl⟩ := record_eq_some.1 h
  exact observed_observe_ite key o k

/-- What is known of the key once a value is recorded under it. -/
theorem candidates?_record_self (h : s.record ts key o = some s') :
    s'.candidates? key = some (s.candidatesAfter key (rank (o.value.types ts))) := by
  rw [candidates?_record h, if_pos rfl]

theorem mem_observed_of_record (h : s.record ts key o = some s') : o ∈ s'.observed key := by
  rw [observed_record h, if_pos rfl]
  exact List.mem_append_right _ (List.mem_singleton_self o)

/-- The candidates are not empty, come from the descriptor of some value, and are the types that all
values seen for the key have. -/
structure Faithful (ts : List StandardType) (s : CheckState) : Prop where
  nodup : (s.candidates.map Prod.fst).Nodup
  unseen : ∀ key, s.candidates? key = none → s.observed key = []
  bound : ∀ key cs, s.candidates? key = some cs → cs ≠ []
  described : ∀ key cs, s.candidates? key = some cs → ∃ v : Value, cs ⊆ v.types ts
  common : ∀ key cs, s.candidates? key = some cs → ∀ t,
    cs.contains t = true ↔ ∀ o ∈ s.observed key, (o.value.types ts).contains t = true

theorem Faithful.initial : Faithful ts .initial where
  nodup := List.nodup_nil
  unseen _ _ := rfl
  bound _ _ h := by cases h
  described _ _ h := by cases h
  common _ _ h := by cases h

/-- All values that were seen for a key have a type in common, such as the first candidate. -/
theorem Faithful.exists_common (hs : Faithful ts s) (key : VarKey) :
    ∃ t : NamedType, ∀ o ∈ s.observed key, (o.value.types ts).contains t = true := by
  rcases hcs : s.candidates? key with _ | cs
  · refine ⟨default, fun o ho => ?_⟩
    rw [hs.unseen key hcs] at ho
    cases ho
  · obtain ⟨t, cs, rfl⟩ := List.exists_cons_of_ne_nil (hs.bound key cs hcs)
    exact ⟨t, (hs.common key _ hcs t).1 (by simp)⟩

/-- A type is a candidate after a value if all values before have it and the value has it too. -/
theorem Faithful.contains_candidatesAfter (hs : Faithful ts s) (key : VarKey) (o : Observation)
    (t : NamedType) :
    (s.candidatesAfter key (rank (o.value.types ts))).contains t = true ↔
      ∀ p ∈ s.observed key ++ [o], (p.value.types ts).contains t = true := by
  rw [candidatesAfter]
  rcases h : s.candidates? key with _ | cs
  · simp [hs.unseen key h]
  · simp only [NamedType.contains_filter_contains, contains_rank, Bool.and_eq_true,
      hs.common key cs h t]
    simp [or_imp, forall_and]

/-- The candidates that an observation leaves are types of some value. -/
theorem Faithful.described_candidatesAfter (hs : Faithful ts s) (key : VarKey) (o : Observation) :
    ∃ v : Value, s.candidatesAfter key (rank (o.value.types ts)) ⊆ v.types ts := by
  rw [candidatesAfter]
  rcases h : s.candidates? key with _ | cs
  · exact ⟨o.value, fun t ht => mem_rank.1 ht⟩
  · obtain ⟨v, hv⟩ := hs.described key cs h
    exact ⟨v, fun t ht => hv (List.mem_filter.1 ht).1⟩

/-- A record keeps the invariant: of each field, the recorded key is one case and all others are
the other. -/
theorem Faithful.record (hs : Faithful ts s) (h : s.record ts key o = some s') :
    Faithful ts s' where
  nodup := by
    obtain ⟨-, rfl⟩ := record_eq_some.1 h
    exact nodup_keys_setKey _ _ hs.nodup
  unseen k hk := by
    rw [candidates?_record h] at hk
    rw [observed_record h]
    split at hk
    · cases hk
    · rename_i hne
      rw [if_neg hne]
      exact hs.unseen k hk
  bound k cs hk := by
    rw [candidates?_record h] at hk
    split at hk
    · cases hk
      exact (record_eq_some.1 h).1
    · exact hs.bound k cs hk
  described k cs hk := by
    rw [candidates?_record h] at hk
    split at hk
    · cases hk
      exact hs.described_candidatesAfter key o
    · exact hs.described k cs hk
  common k cs hk t := by
    rw [candidates?_record h] at hk
    rw [observed_record h]
    split at hk
    · rename_i heq
      cases hk
      rw [if_pos heq]
      exact hs.contains_candidatesAfter key o t
    · rename_i hne
      rw [if_neg hne]
      exact hs.common k cs hk t

/-- A value is recorded if it has a type in common with all values before. -/
theorem Faithful.exists_record (hs : Faithful ts s) {t : NamedType}
    (ht : ∀ p ∈ s.observed key ++ [o], (p.value.types ts).contains t = true) :
    ∃ s', s.record ts key o = some s' := by
  have hmem := (hs.contains_candidatesAfter key o t).2 ht
  refine ⟨_, record_eq_some.2 ⟨?_, rfl⟩⟩
  rintro hnil
  rw [hnil] at hmem
  cases hmem

/-- A variable is bound to its first candidate. -/
theorem Faithful.candidates?_of_mem_bindings (hs : Faithful ts s) {name : String} {t : NamedType}
    (ht : (name, t) ∈ s.bindings) : ∃ cs, s.candidates? (.named name) = some (t :: cs) := by
  rw [bindings, List.mem_filterMap] at ht
  obtain ⟨⟨key, cs⟩, hmem, ht⟩ := ht
  have hcs := lookup_of_mem hs.nodup hmem
  split at ht
  · rename_i heq
    cases heq
    cases ht
    exact ⟨_, hcs⟩
  · cases ht

/-! ## Many records -/

/-- Several values are recorded, each under its key. -/
def recordAll (ts : List StandardType) (s : CheckState) (seen : List (VarKey × Observation)) :
    Option CheckState :=
  seen.foldlM (fun s p => s.record ts p.1 p.2) s

@[simp] theorem recordAll_nil : s.recordAll ts [] = some s := rfl

theorem recordAll_cons (p : VarKey × Observation) (seen : List (VarKey × Observation)) :
    s.recordAll ts (p :: seen) = (s.record ts p.1 p.2).bind (recordAll ts · seen) :=
  List.foldlM_cons

theorem recordAll_append (seen more : List (VarKey × Observation)) :
    s.recordAll ts (seen ++ more) = (s.recordAll ts seen).bind (recordAll ts · more) :=
  List.foldlM_append

/-- Recording observations keeps a state faithful to what was seen. -/
theorem Faithful.recordAll {seen : List (VarKey × Observation)} (hs : Faithful ts s)
    (h : s.recordAll ts seen = some s') : Faithful ts s' := by
  induction seen generalizing s with
  | nil =>
    cases h
    exact hs
  | cons p seen ih =>
    rw [recordAll_cons, Option.bind_eq_some_iff] at h
    obtain ⟨s₁, h₁, h₂⟩ := h
    exact ih (hs.record h₁) h₂

/-- The values seen for a key are those recorded under it, in their order. -/
theorem observed_recordAll {seen : List (VarKey × Observation)} (h : s.recordAll ts seen = some s')
    (k : VarKey) :
    s'.observed k = s.observed k ++ (seen.filter (·.1 = k)).map Prod.snd := by
  induction seen generalizing s with
  | nil =>
    cases h
    simp
  | cons p seen ih =>
    rw [recordAll_cons, Option.bind_eq_some_iff] at h
    obtain ⟨s₁, h₁, h₂⟩ := h
    rw [ih h₂, observed_record h₁]
    by_cases hk : k = p.1
    · simp [hk]
    · simp [hk, Ne.symm hk]

/-- Observations are recorded if every variable has a type common to all its values, past and
new. -/
theorem Faithful.exists_recordAll {seen : List (VarKey × Observation)} (hs : Faithful ts s)
    {common : VarKey → NamedType}
    (hpast : ∀ k, ∀ o ∈ s.observed k, (o.value.types ts).contains (common k) = true)
    (hseen : ∀ p ∈ seen, (p.2.value.types ts).contains (common p.1) = true) :
    ∃ s', s.recordAll ts seen = some s' := by
  induction seen generalizing s with
  | nil => exact ⟨s, rfl⟩
  | cons p seen ih =>
    rw [List.forall_mem_cons] at hseen
    have hall : ∀ o ∈ s.observed p.1 ++ [p.2], (o.value.types ts).contains (common p.1) = true := by
      simpa [or_imp, forall_and] using ⟨hpast p.1, hseen.1⟩
    obtain ⟨s₁, h₁⟩ := hs.exists_record hall
    -- what was recorded now belongs to the past of the values behind it
    have hnext : ∀ k, ∀ o ∈ s₁.observed k, (o.value.types ts).contains (common k) = true := by
      intro k o ho
      rw [observed_record h₁] at ho
      split at ho
      · rename_i hk
        subst hk
        exact hall o ho
      · exact hpast k o ho
    obtain ⟨s₂, h₂⟩ := ih (hs.record h₁) hnext hseen.2
    exact ⟨s₂, by rw [recordAll_cons, h₁]; exact h₂⟩

/-- Values can be recorded one after the other exactly if there is a type for each key that all its
values have. -/
theorem exists_recordAll_iff {seen : List (VarKey × Observation)} :
    (∃ s, recordAll ts .initial seen = some s) ↔
      ∃ common : VarKey → NamedType,
        ∀ p ∈ seen, (p.2.value.types ts).contains (common p.1) = true := by
  constructor
  · rintro ⟨s, h⟩
    have hs : Faithful ts s := Faithful.initial.recordAll h
    obtain ⟨common, hcommon⟩ := Classical.axiomOfChoice hs.exists_common
    refine ⟨common, fun p hp => hcommon p.1 p.2 ?_⟩
    rw [observed_recordAll h]
    exact List.mem_append_right _ (List.mem_map_of_mem (List.mem_filter.2 ⟨hp, by simp⟩))
  · rintro ⟨common, h⟩
    exact Faithful.initial.exists_recordAll (fun _ _ ho => by cases ho) h

end CheckState

end CheckedCalls
