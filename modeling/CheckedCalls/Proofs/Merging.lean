import CheckedCalls.Proofs.Keying
import CheckedCalls.Proofs.Dictionary

/-!
# Merging dictionaries

Setting entries one after the other merges two lists of entries: the keys of the first keep their
places and their forms, the values of the second win, and what is new comes behind. Which keys are
one is said by a class of each key, and merging by classes is associative whatever the lists are
(`merge_assoc`). Two keys of dictionaries are of one class if the same keys match them, and setting
entries answers the merged list (`Keying.setEntries_answers`).
-/

namespace CheckedCalls

open Run

/-! ## Merging by classes of keys -/

section Merge

open Classical

variable {α β κ : Type} (c : α → κ)

/-- The value under the first key of the same class. -/
noncomputable def valueAt (es : List (α × β)) (k : α) : Option β :=
  (es.find? fun e => c e.1 = c k).map Prod.snd

/-- The entry with the value that the other entries have for its key, if they have one. -/
noncomputable def overridden (fs : List (α × β)) (e : α × β) : α × β :=
  (e.1, (valueAt c fs e.1).getD e.2)

/-- The entries of two dictionaries; the values of the second win. -/
noncomputable def merge (es fs : List (α × β)) : List (α × β) :=
  es.map (overridden c fs) ++ fs.filter fun e => (valueAt c es e.1).isNone

variable {c} {es fs gs : List (α × β)} {j k : α} {v : β}

theorem valueAt_congr (h : c j = c k) : valueAt c es j = valueAt c es k := by
  simp [valueAt, h]

/-- A lookup reads the first entry of its class. -/
theorem valueAt_cons : valueAt c ((j, v) :: es) k =
    if c j = c k then some v else valueAt c es k := by
  by_cases h : c j = c k <;> simp [valueAt, h]

theorem valueAt_eq_none_iff : valueAt c es k = none ↔ ∀ e ∈ es, c e.1 ≠ c k := by
  simp [valueAt]

theorem valueAt_append : valueAt c (es ++ fs) k = (valueAt c es k).or (valueAt c fs k) := by
  simp [valueAt, List.find?_append, Option.map_or]

/-- A lookup in overridden entries finds the overriding value, where there is one. -/
theorem valueAt_map_overridden : valueAt c (es.map (overridden c fs)) k =
    (valueAt c es k).map ((valueAt c fs k).getD ·) := by
  induction es with
  | nil => rfl
  | cons e es ih =>
    rw [List.map_cons, overridden, valueAt_cons, valueAt_cons, ih]
    split
    · rename_i h
      rw [valueAt_congr h]
      rfl
    · rfl

/-- What is new to the first entries is found where they have nothing. -/
theorem valueAt_filter (h : valueAt c es k = none) :
    valueAt c (fs.filter fun e => (valueAt c es e.1).isNone) k = valueAt c fs k := by
  rw [valueAt, valueAt, List.find?_filter]
  congr 2
  funext e
  by_cases hkey : c e.1 = c k
  · simp [hkey, valueAt_congr hkey, h]
  · simp [hkey]

/-- The second dictionary is asked first. -/
theorem valueAt_merge : valueAt c (merge c es fs) k = (valueAt c fs k).or (valueAt c es k) := by
  rw [merge, valueAt_append, valueAt_map_overridden]
  cases hes : valueAt c es k with
  | none => simp [valueAt_filter hes]
  | some v => cases valueAt c fs k <;> rfl

/-- To override twice is to override with the merged entries. -/
theorem overridden_merge (e : α × β) :
    overridden c gs (overridden c fs e) = overridden c (merge c fs gs) e := by
  rw [overridden, overridden, overridden, valueAt_merge]
  cases valueAt c gs e.1 <;> rfl

/-- Merging is associative. -/
theorem merge_assoc (es fs gs : List (α × β)) :
    merge c (merge c es fs) gs = merge c es (merge c fs gs) := by
  have hnew : (fs.filter fun e => (valueAt c es e.1).isNone).map (overridden c gs) =
      (fs.map (overridden c gs)).filter fun e => (valueAt c es e.1).isNone := by
    rw [List.filter_map]
    rfl
  have hrest : (gs.filter fun e => (valueAt c (merge c es fs) e.1).isNone) =
      (gs.filter fun e => (valueAt c fs e.1).isNone).filter
        fun e => (valueAt c es e.1).isNone := by
    rw [List.filter_filter]
    refine List.filter_congr fun e _ => ?_
    rw [valueAt_merge, Option.isNone_or, Bool.and_comm]
  calc merge c (merge c es fs) gs
      = es.map (overridden c gs ∘ overridden c fs) ++
          (fs.filter fun e => (valueAt c es e.1).isNone).map (overridden c gs) ++
          gs.filter fun e => (valueAt c (merge c es fs) e.1).isNone := by
        rw [merge, merge, List.map_append, List.map_map]
    _ = es.map (overridden c (merge c fs gs)) ++
          ((fs.map (overridden c gs)).filter fun e => (valueAt c es e.1).isNone) ++
          (gs.filter fun e => (valueAt c fs e.1).isNone).filter
            fun e => (valueAt c es e.1).isNone := by
        rw [hnew, hrest, funext overridden_merge (f := overridden c gs ∘ overridden c fs)]
    _ = merge c es (merge c fs gs) := by
        rw [merge, merge, List.filter_append, List.append_assoc]

/-! ### Entries of one dictionary -/

/-- Nothing is merged from the right. -/
@[simp] theorem merge_nil : merge c es [] = es := by
  have hid : overridden c ([] : List (α × β)) = id := rfl
  simp [merge, hid]

@[simp] theorem nil_merge : merge c [] fs = fs := by simp [merge, valueAt]

/-- An entry of a class that no other entry has is not overridden. -/
theorem overridden_of_forall_ne {e : α × β} (h : ∀ f ∈ fs, c f.1 ≠ c e.1) :
    overridden c fs e = e := by
  rw [overridden, valueAt_eq_none_iff.2 h]
  rfl

/-- A key that is there keeps its place and its form. -/
theorem merge_cons_of_eq {u : β} (h : c j = c k) (hes : ∀ e ∈ es, c k ≠ c e.1) :
    merge c ((j, u) :: es) [(k, v)] = (j, v) :: es := by
  have hrest : es.map (overridden c [(k, v)]) = es :=
    List.map_congr_left (fun e he => overridden_of_forall_ne (by simpa using hes e he))
      |>.trans (List.map_id es)
  simp [merge, hrest, overridden, valueAt_cons, h]

/-- An entry of another class is passed over by a merge with one entry. -/
theorem merge_cons_of_ne {u : β} (h : c j ≠ c k) :
    merge c ((j, u) :: es) [(k, v)] = (j, u) :: merge c es [(k, v)] := by
  have hover : overridden c [(k, v)] (j, u) = (j, u) :=
    overridden_of_forall_ne (by simpa using h.symm)
  simp [merge, hover, valueAt_cons, h, List.filter_cons]

/-- An entry of a new class stands in front of the merged entries. -/
theorem merge_singleton (h : ∀ e ∈ fs, c k ≠ c e.1) : merge c [(k, v)] fs = (k, v) :: fs := by
  have hnone : valueAt c fs k = none := valueAt_eq_none_iff.2 fun e he => (h e he).symm
  have hnew : (fs.filter fun e => (valueAt c [(k, v)] e.1).isNone) = fs :=
    List.filter_eq_self.2 fun e he => by simp [h e he, valueAt]
  rw [merge, hnew]
  simp [overridden, hnone]

/-- What holds of all entries of both lists holds of the merged ones. -/
theorem forall_mem_merge {P : α → Prop} {Q : β → Prop} (hes : ∀ e ∈ es, P e.1 ∧ Q e.2)
    (hfs : ∀ e ∈ fs, P e.1 ∧ Q e.2) : ∀ e ∈ merge c es fs, P e.1 ∧ Q e.2 := by
  intro e he
  rcases List.mem_append.1 he with he | he
  · obtain ⟨d, hd, rfl⟩ := List.mem_map.1 he
    refine ⟨(hes d hd).1, ?_⟩
    rw [overridden]
    cases hv : valueAt c fs d.1 with
    | none => exact (hes d hd).2
    | some v =>
      obtain ⟨f, hf, rfl⟩ := Option.map_eq_some_iff.1 hv
      exact (hfs f (List.mem_of_find?_eq_some hf)).2
  · exact hfs e (List.mem_of_mem_filter he)

/-- No two keys of the merged entries are of one class if none are in each of the two. -/
theorem pairwise_merge (hes : es.Pairwise fun d e => c d.1 ≠ c e.1)
    (hfs : fs.Pairwise fun d e => c d.1 ≠ c e.1) :
    (merge c es fs).Pairwise fun d e => c d.1 ≠ c e.1 := by
  refine List.pairwise_append.2 ⟨List.pairwise_map.2 hes, hfs.filter _, ?_⟩
  intro d hd e he
  obtain ⟨d', hd', rfl⟩ := List.mem_map.1 hd
  have hnone := (List.mem_filter.1 he).2
  exact valueAt_eq_none_iff.1 (Option.isNone_iff_eq_none.1 hnone) d' hd'

end Merge

/-! ## Setting entries -/

namespace Value

section Keying

variable {call : Apply} {w : World} {S : Value → Prop}
  {es fs : List (Value × Value)} {j k v : Value}

/-- The keys that match a key. -/
def matching (call : Apply) (w : World) (S : Value → Prop) (k : Value) : Set Value :=
  fun j => S j ∧ Matches call w j k

/-- The entries have keys of the class, and no two of these match. -/
structure KeyedBy (call : Apply) (w : World) (S : Value → Prop) (es : List (Value × Value)) :
    Prop where
  key : ∀ e ∈ es, S e.1
  apart : es.Pairwise fun d e => matching call w S d.1 ≠ matching call w S e.1

/-- The entries of two dictionaries by the keys that match. -/
noncomputable def union (call : Apply) (w : World) (S : Value → Prop)
    (es fs : List (Value × Value)) : List (Value × Value) :=
  merge (matching call w S) es fs

@[simp] theorem union_nil : union call w S es [] = es := merge_nil

@[simp] theorem nil_union : union call w S [] fs = fs := nil_merge

/-- The union of dicts is associative. -/
theorem union_assoc (es fs gs : List (Value × Value)) :
    union call w S (union call w S es fs) gs = union call w S es (union call w S fs gs) :=
  merge_assoc es fs gs

theorem forall_mem_union {P Q : Value → Prop} (hes : ∀ e ∈ es, P e.1 ∧ Q e.2)
    (hfs : ∀ e ∈ fs, P e.1 ∧ Q e.2) : ∀ e ∈ union call w S es fs, P e.1 ∧ Q e.2 :=
  forall_mem_merge hes hfs

namespace Keying

/-- Two keys have the same matching keys exactly if they match each other. -/
theorem matching_eq_iff (hS : Keying call w S) (hj : S j) (hk : S k) :
    matching call w S j = matching call w S k ↔ Matches call w k j := by
  constructor
  · intro h
    have hmem : matching call w S k k := ⟨hk, hS.refl hk⟩
    rw [← h] at hmem
    exact hmem.2
  · intro h
    funext i
    refine propext (and_congr_right fun hi => ?_)
    exact ⟨fun hij => hS.equiv.trans hi hj hk hij (hS.equiv.symm hk hj h),
      fun hik => hS.equiv.trans hi hk hj hik h⟩

/-- The union of two dicts with proper keys has proper keys. -/
theorem keyedBy_union (hes : KeyedBy call w S es) (hfs : KeyedBy call w S fs) :
    KeyedBy call w S (union call w S es fs) where
  key e he := (forall_mem_union (Q := fun _ => True) (fun e he => ⟨hes.key e he, trivial⟩)
    (fun e he => ⟨hfs.key e he, trivial⟩) e he).1
  apart := pairwise_merge hes.apart hfs.apart

/-- The keys of a dictionary are found under themselves only. -/
theorem distinct (hS : Keying call w S) (hes : KeyedBy call w S es) :
    Distinct call w (es.map Prod.fst) where
  self := List.forall_mem_map.2 fun e he =>
    ((hS.tells (hes.key e he) (hes.key e he)).answers_iff (by simp)).2 (hS.refl (hes.key e he))
  apart := by
    refine List.pairwise_map.2 (hes.apart.imp_of_mem fun {d e} hd he hne => ?_)
    refine ((hS.tells (hes.key e he) (hes.key d hd)).answers_false_iff (by simp)).2 fun h => ?_
    exact hne ((hS.matching_eq_iff (hes.key d hd) (hes.key e he)).2 h)

/-- To set an entry is to take the union with a dict of that entry. -/
theorem setEntry_answers (hS : Keying call w S) (hk : S k) (hes : KeyedBy call w S es) :
    (setEntry call k v es).Answers w (union call w S es [(k, v)]) := by
  induction es with
  | nil => exact answers_pure _ w
  | cons e es ih =>
    obtain ⟨j, u⟩ := e
    obtain ⟨hne, hapart⟩ := List.pairwise_cons.1 hes.apart
    obtain ⟨hj, hkeys⟩ := List.forall_mem_cons.1 hes.key
    obtain ⟨b, hb, hmatch⟩ := hS.tells hk hj
    rw [setEntry]
    cases b with
    | true =>
      have heq := (hS.matching_eq_iff hj hk).2 (hmatch.1 rfl)
      rw [union, merge_cons_of_eq heq fun e he => heq ▸ hne e he]
      exact hb.bind (answers_pure _ w)
    | false =>
      have hneq : matching call w S j ≠ matching call w S k := fun h => by
        cases hmatch.2 ((hS.matching_eq_iff hj hk).1 h)
      rw [union, merge_cons_of_ne hneq]
      exact hb.bind ((ih ⟨hkeys, hapart⟩).bind (answers_pure _ w))

/-- Setting the entries of a dictionary in another merges the two. -/
theorem setEntries_answers (hS : Keying call w S) (hes : KeyedBy call w S es)
    (hfs : KeyedBy call w S fs) :
    (setEntries call es fs).Answers w (union call w S es fs) := by
  induction fs generalizing es with
  | nil =>
    rw [union_nil]
    exact answers_pure _ w
  | cons e fs ih =>
    obtain ⟨k, v⟩ := e
    obtain ⟨hne, hapart⟩ := List.pairwise_cons.1 hfs.apart
    obtain ⟨hk, hkeys⟩ := List.forall_mem_cons.1 hfs.key
    obtain ⟨h, hh⟩ := hS.hash hk
    have hone : KeyedBy call w S [(k, v)] :=
      ⟨List.forall_mem_singleton.2 hk, List.pairwise_singleton _ _⟩
    rw [setEntries, union, ← merge_singleton hne, ← merge_assoc]
    exact hh.bind ((hS.setEntry_answers hk hes).bind
      (ih (keyedBy_union hes hone) ⟨hkeys, hapart⟩))

end Keying

end Keying

end Value

end CheckedCalls
