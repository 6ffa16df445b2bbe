import CheckedCalls.Proofs.Balance

/-!
# Dictionaries with the same keys

Two dictionaries with the same keys in the same order are equal just if their values are, place by
place: each key finds its own entry, since no key in front of it matches it. As a functor a
dictionary holds its values; its keys and their order stay what they are.
-/

namespace CheckedCalls

open Run

variable {α β : Type}

/-! ## Looking up -/

namespace Value

section Keys

variable {call : Apply} {E : Fault → Prop} {w : World}

/-- Each of the keys is found under itself, and none is found under another. -/
structure Distinct (call : Apply) (w : World) (keys : List Value) : Prop where
  self : ∀ k ∈ keys, (keyMatches call k (same call k) k).Answers w true
  apart : keys.Pairwise fun j k => (keyMatches call k (same call k) j).Answers w false

variable {es fs gs : List (Value × Value)}

/-- An object is found under itself without a comparison. -/
theorem keyMatches_identical {k : Value} (hk : k.identical k = true) :
    (keyMatches call k (same call k) k).Answers w true := by
  rw [keyMatches, if_pos hk]
  exact answers_pure true w

/-- A key finds its own entry behind entries that it does not match. -/
theorem findEntry_own {front back : List (Value × Value)} {k v : Value}
    (hfront : ∀ e ∈ front, (keyMatches call k (same call k) e.1).Answers w false)
    (hk : (keyMatches call k (same call k) k).Answers w true) :
    (findEntry (keyMatches call k (same call k)) (front ++ (k, v) :: back)).Answers w (some v) := by
  induction front with
  | nil => exact hk.bind (answers_pure _ w)
  | cons e front ih =>
    obtain ⟨he, hfront⟩ := List.forall_mem_cons.1 hfront
    exact he.bind (ih hfront)

/-- In a dict with distinct keys every key finds its own entry. -/
theorem Distinct.findEntry (h : Distinct call w (fs.map Prod.fst)) {e : Value × Value}
    (he : e ∈ fs) :
    (findEntry (keyMatches call e.1 (same call e.1)) fs).Answers w (some e.2) := by
  have hself := h.self e.1 (List.mem_map_of_mem he)
  obtain ⟨front, back, rfl⟩ := List.append_of_mem he
  refine findEntry_own (fun d hd => ?_) hself
  have hapart := h.apart
  rw [List.pairwise_map, List.pairwise_append] at hapart
  exact hapart.2.2 d hd e List.mem_cons_self

/-- Each key of the first dictionary is in the second if it is one of its keys. -/
theorem Distinct.keysWithin (h : Distinct call w (fs.map Prod.fst))
    (hes : ∀ d ∈ es, d.1 ∈ fs.map Prod.fst) : (keysWithin call es fs).Answers w true := by
  induction es with
  | nil => exact answers_pure true w
  | cons d es ih =>
    obtain ⟨hd, hes⟩ := List.forall_mem_cons.1 hes
    obtain ⟨e, he, hkey⟩ := List.mem_map.1 hd
    exact (hkey ▸ h.findEntry he).bind (ih hes)

/-- Entries are compared with those that have their keys. -/
theorem Distinct.verifies_equalsEntries (h : Distinct call w (fs.map Prod.fst))
    {R : Value → Value → Prop} (hgs : ∀ e ∈ gs, e ∈ fs)
    (hes : es.Forall₂ (fun d e => d.1 = e.1 ∧
      (equals call d.2 e.2).Verifies .bool E w (R d.2 e.2)) gs) :
    (equalsEntries call es fs).Verifies id E w
      (es.Forall₂ (fun d e => d.1 = e.1 ∧ R d.2 e.2) gs) := by
  induction hes with
  | nil => exact verifies_pure (f := id) List.Forall₂.nil
  | @cons d e es gs hde _ ih =>
    obtain ⟨he, hgs⟩ := List.forall_mem_cons.1 hgs
    obtain ⟨hkey, hvalue⟩ := hde
    have hfound := h.findEntry he
    rw [← hkey] at hfound
    rw [equalsEntries, List.forall₂_cons, and_iff_right hkey]
    exact hfound.verifies_bind (hvalue.and call (ih hgs))

/-- The values are dictionaries with the same keys in the same order, and what stands under each key
is related. -/
def Entailed (R : Value → Value → Prop) (x y : Value) : Prop :=
  ∃ t es u fs, x = .dict t es ∧ y = .dict u fs ∧
    es.Forall₂ (fun d e => d.1 = e.1 ∧ R d.2 e.2) fs

/-- One dict entails another exactly if it does so entry by entry. -/
theorem entailed_dict {R : Value → Value → Prop} {t u : Tag} :
    Entailed R (.dict t es) (.dict u fs) ↔ es.Forall₂ (fun d e => d.1 = e.1 ∧ R d.2 e.2) fs := by
  constructor
  · rintro ⟨_, _, _, _, ⟨⟩, ⟨⟩, h⟩
    exact h
  · intro h
    exact ⟨t, es, u, fs, rfl, rfl, h⟩

/-- Dictionaries with the same keys are equal just if their values are. -/
theorem Distinct.verifies_equals (h : Distinct call w (fs.map Prod.fst)) {t u : Tag}
    {R : Value → Value → Prop} (hes : es.Forall₂ (fun d e => d.1 = e.1 ∧
      (equals call d.2 e.2).Verifies .bool E w (R d.2 e.2)) fs) :
    (equals call (.dict t es) (.dict u fs)).Verifies .bool E w
      (es.Forall₂ (fun d e => d.1 = e.1 ∧ R d.2 e.2) fs) := by
  have hkeys : es.map Prod.fst = fs.map Prod.fst :=
    List.forall₂_eq_eq_eq ▸ List.rel_map (fun _ _ h => h.1) hes
  have hwithin := h.keysWithin fun d hd => hkeys ▸ List.mem_map_of_mem hd
  rw [equals, if_pos hes.length_eq]
  exact hwithin.verifies_bind ((h.verifies_equalsEntries (fun _ => id) hes).map Value.bool)

end Keys

/-- The entries with the fresh objects of keys and values numbered from `n` on. -/
def labelledEntries (es : List (Value × Value)) (n : Nat) : List (Value × Value) :=
  (StateT.run (labelEntries es) n).1

/-- Numbering keeps the keys that have their numbers already. -/
theorem labelledEntries_spec {R : Value → α → Prop} (hR : ∀ {x a} n, R x a → R (x.labelled n) a)
    {es : List (Value × Value)} {as : List α} (hkeys : ∀ e ∈ es, ∀ n, e.1.labelled n = e.1)
    (hvalues : (es.map Prod.snd).Forall₂ R as) (n : Nat) :
    (labelledEntries es n).map Prod.fst = es.map Prod.fst ∧
      ((labelledEntries es n).map Prod.snd).Forall₂ R as := by
  induction es generalizing as n with
  | nil => exact ⟨rfl, hvalues⟩
  | cons e es ih =>
    rw [List.forall_mem_cons] at hkeys
    cases hvalues with
    | cons hv hvalues =>
      let m := (StateT.run e.1.label n).2
      obtain ⟨hfst, hsnd⟩ := ih hkeys.2 hvalues (StateT.run e.2.label m).2
      exact ⟨congrArg₂ List.cons (hkeys.1 n) hfst, .cons (hR m hv) hsnd⟩

end Value

/-! ## Dictionaries as functors -/

/-- The keys of a dictionary: they have their numbers, and none is found under another. -/
structure Keys (call : Apply) where
  /-- The keys in their order. -/
  keys : List Value
  settled : ∀ k ∈ keys, ∀ n, k.labelled n = k
  distinct : ∀ w : World, w.Untouched → Value.Distinct call w keys

namespace Keys

variable {call : Apply} {K : Keys call} {A : Reading α} {B : Reading β}

/-- Dictionaries with these keys stand for what their values stand for. -/
def lift (K : Keys call) (A : Reading α) : Reading (List α) where
  denotes v as := ∃ t es, v = .dict t es ∧ es.map Prod.fst = K.keys ∧
    (es.map Prod.snd).Forall₂ A as
  labelled := by
    rintro _ as n ⟨t, es, rfl, hkeys, hvalues⟩
    cases t with
    | fresh =>
      have hsettled : ∀ e ∈ es, ∀ n, e.1.labelled n = e.1 :=
        fun e he => K.settled _ (hkeys ▸ List.mem_map_of_mem he)
      obtain ⟨hfst, hsnd⟩ := Value.labelledEntries_spec A.labelled hsettled hvalues n
      exact ⟨_, _, rfl, hfst.trans hkeys, hsnd⟩
    | shared | numbered => exact ⟨_, _, rfl, hkeys, hvalues⟩

theorem within {R : Value → Value → Prop} (hA : A.Within R) :
    (K.lift A).Within (Value.Entailed R) := by
  rintro _ _ as ⟨t, es, rfl, hes, hxs⟩ ⟨u, fs, rfl, hfs, hys⟩
  refine ⟨t, es, u, fs, rfl, rfl, ?_⟩
  have hkeys : es.map Prod.fst = fs.map Prod.fst := hes.trans hfs.symm
  clear hes hfs
  induction es generalizing as fs with
  | nil =>
    rw [List.map_eq_nil_iff.1 hkeys.symm]
    exact .nil
  | cons e es ih =>
    cases fs with
    | nil => cases hkeys
    | cons f fs =>
      obtain ⟨hkey, hkeys⟩ := List.cons.inj hkeys
      cases hxs with
      | cons hx hxs =>
        cases hys with
        | cons hy hys => exact .cons ⟨hkey, hA _ _ _ hx hy⟩ (ih _ hxs _ hys hkeys)

theorem verified {R : World → Value → Value → Prop} (hA : A.Verified call R) :
    (K.lift A).Verified call fun w => Value.Entailed (R w) := by
  intro w hw x y as hx hy
  obtain ⟨t, es, u, fs, rfl, rfl, h⟩ := K.within (hA w hw) x y as hx hy
  obtain ⟨_, _, ⟨⟩, hkeys, -⟩ := hy
  have hdistinct := K.distinct w hw
  rw [← hkeys] at hdistinct
  simp only [Value.entailed_dict]
  exact hdistinct.verifies_equals h

/-! ## Mapping -/

/-- A dictionary is mapped value by value, and keeps its keys in their order. -/
theorem yields_mapEntries {es : List (Value × Value)} {as : List α} {f : Value} {g : α → β}
    (hf : ∀ x a, A x a → (call f [x]).Yields (B · (g a)))
    (hvalues : (es.map Prod.snd).Forall₂ A as) :
    (es.mapM fun e : Value × Value => do return (e.1, ← call f [e.2])).Yields fun fs =>
      fs.map Prod.fst = es.map Prod.fst ∧ (fs.map Prod.snd).Forall₂ B (as.map g) := by
  induction es generalizing as with
  | nil =>
    cases hvalues
    exact concludes_pure ⟨rfl, .nil⟩
  | cons e es ih =>
    cases hvalues with
    | @cons _ a _ as hx hvalues =>
      rw [List.mapM_cons]
      refine concludes_bind (P := fun d => d.1 = e.1 ∧ B d.2 (g a)) ?_ ?_
      · exact concludes_bind (hf _ _ hx) fun y hy => concludes_pure ⟨rfl, hy⟩
      rintro d ⟨hkey, hy⟩
      refine concludes_bind (ih hvalues) ?_
      rintro fs ⟨hkeys, hys⟩
      exact concludes_pure ⟨congrArg₂ List.cons hkey hkeys, .cons hy hys⟩

theorem yields_map {v f : Value} {g : α → β} {as : List α}
    (hf : ∀ x a, A x a → (call f [x]).Yields (B · (g a))) (hv : K.lift A v as) :
    (map call f v).Yields (K.lift B · (as.map g)) := by
  obtain ⟨t, es, rfl, hkeys, hvalues⟩ := hv
  refine concludes_bind (yields_mapEntries hf hvalues) ?_
  rintro fs ⟨hfs, hys⟩
  exact concludes_pure ⟨_, fs, rfl, hfs.trans hkeys, hys⟩

end Keys

end CheckedCalls
