import CheckedCalls.Evaluate
import CheckedCalls.Proofs.Conclusion
import CheckedCalls.Proofs.Places
import CheckedCalls.Proofs.Reading
import CheckedCalls.Proofs.Unanswered
import Mathlib.Data.List.Forall2
import Mathlib.Data.List.Nodup
import Mathlib.Data.List.Perm.Subperm

/-!
# Folding dictionaries

Dictionaries that are equal are folded alike, in whatever order their entries came
(`fold_in_any_order`). Their keys have the same places, two by two, and a fold goes through an
ascending list of these places, of which there is one. What is said of the values is what the
comparison of the dictionaries has found: that they are equal once. So they are equal whenever they
are compared if the comparison ends alike in all worlds, as it does for values of the library.
-/

namespace CheckedCalls

open Run

namespace Run

variable {α : Type} {I : World → Prop} {w : World}

/-! ## Runs that end alike -/

/-- From a world of a kind the run leads to a world of that kind. -/
def StaysIn (I : World → Prop) (r : Run α) : Prop := ∀ w, I w → I (r.outcome w).2

/-- In all worlds of a kind the run ends alike. -/
def Constant (I : World → Prop) (r : Run α) : Prop :=
  ∀ w v, I w → I v → (r.outcome w).1 = (r.outcome v).1

/-- A run with one answer, in worlds that it does not leave, concludes with that answer. -/
theorem Constant.concludes {r : Run α} (h : r.Constant I) (hstays : r.StaysIn I) (hw : I w) {a : α}
    (ha : (r.outcome w).1 = .ok a) : r.Concludes I (fun _ => False) (· = a) := by
  intro v hv
  have hsame := h v w hv hw
  have hI := hstays v hv
  rw [ha] at hsame
  generalize r.outcome v = p at hsame hI ⊢
  rcases p with ⟨e | b, v'⟩ <;> cases hsame
  exact ⟨rfl, hI⟩

/-- A test that answers at once on each element answers at once on all of them. -/
theorem every_pure {test : α → Run Bool} {p : α → Bool} {as : List α}
    (h : ∀ a ∈ as, test a = pure (p a)) : every test as = pure (as.all p) := by
  induction as with
  | nil => rfl
  | cons a as ih =>
    rw [List.forall_mem_cons] at h
    rw [every, h.1, pure_bind, ih h.2, List.all_cons]
    cases p a <;> rfl

/-- Where all elements pass, each one has passed in some world on the way. -/
theorem exists_of_every_true {test : α → Run Bool} {as : List α} (hw : I w)
    (hI : ∀ a ∈ as, (test a).StaysIn I)
    (h : ((every test as).outcome w).1 = .ok true) :
    ∀ a ∈ as, ∃ v, I v ∧ ((test a).outcome v).1 = .ok true := by
  induction as generalizing w with
  | nil => exact nofun
  | cons a as ih =>
    rw [List.forall_mem_cons] at hI
    have hnext := hI.1 w hw
    rw [every, outcome_bind] at h
    rcases hout : (test a).outcome w with ⟨e | b, w'⟩
    · rw [hout] at h
      cases h
    rw [hout] at h hnext
    cases b with
    | false => cases h
    | true =>
      have hrest := ih hnext hI.2 h
      exact List.forall_mem_cons.2 ⟨⟨w, hw, by rw [hout]⟩, hrest⟩

/-- A test that concludes with true on each element does so on all of them. -/
theorem concludes_every {test : α → Run Bool} {as : List α}
    (h : ∀ a ∈ as, (test a).Concludes I (fun _ => False) (· = true)) :
    (every test as).Concludes I (fun _ => False) (· = true) := by
  induction as with
  | nil => exact concludes_pure rfl
  | cons a as ih =>
    rw [List.forall_mem_cons] at h
    refine concludes_bind h.1 fun b hb => ?_
    cases hb
    exact ih h.2

end Run

namespace Value

/-! ## Lists in ascending order -/

section Ascending

variable {α κ : Type} [LinearOrder κ] {p : α → κ} {R : α → α → Prop} {xs ys : List α}

/-- Of two lists of one length in ascending order, one has its elements at the places of the other
if each of its elements has a partner there. -/
theorem forall₂_of_ascending (hxs : xs.Pairwise fun a b => p a < p b)
    (hys : ys.Pairwise fun a b => p a < p b) (hlength : xs.length = ys.length)
    (h : ∀ a ∈ xs, ∃ b ∈ ys, p a = p b ∧ R a b) :
    xs.Forall₂ (fun a b => p a = p b ∧ R a b) ys := by
  have hxs' : (xs.map p).Pairwise (· < ·) := List.pairwise_map.2 hxs
  have hys' : (ys.map p).Pairwise (· < ·) := List.pairwise_map.2 hys
  have hnodup : (ys.map p).Nodup := hys'.imp ne_of_lt
  have hsub : xs.map p ⊆ ys.map p := by
    intro k hk
    obtain ⟨a, ha, rfl⟩ := List.mem_map.1 hk
    obtain ⟨b, hb, hab, -⟩ := h a ha
    exact hab ▸ List.mem_map_of_mem hb
  have hperm : (xs.map p).Perm (ys.map p) :=
    (List.subperm_of_subset (hxs'.imp ne_of_lt) hsub).perm_of_length_le (by simp [hlength])
  have hplaces : xs.map p = ys.map p :=
    hperm.eq_of_pairwise (fun _ _ _ _ h h' => absurd (h.trans h') (lt_irrefl _)) hxs' hys'
  have hpairs : xs.Forall₂ (fun a b => p a = p b) ys := by
    have hmaps : (xs.map p).Forall₂ Eq (ys.map p) := List.forall₂_eq_eq_eq ▸ hplaces
    exact List.forall₂_map_right_iff.1 (List.forall₂_map_left_iff.1 hmaps)
  refine List.forall₂_iff_zip.2 ⟨hlength, fun {a b} hab => ?_⟩
  have hplace : p a = p b := (List.forall₂_iff_zip.1 hpairs).2 hab
  obtain ⟨ha, hb⟩ := List.of_mem_zip hab
  obtain ⟨b', hb', hplace', hR⟩ := h a ha
  -- no other element has the place of the partner
  have hone := List.inj_on_of_nodup_map hnodup hb hb' (hplace.symm.trans hplace')
  exact ⟨hplace, hone ▸ hR⟩

end Ascending

/-! ## Equal dictionaries -/

section Dictionaries

variable {call : Apply} {K L : KeyKind} {es fs : List (Value × Value)} {key : Value}

/-- A search whose tests answer at once finds the first entry that passes. -/
theorem findEntry_pure {test : Value → Run Bool} {p : Value → Bool}
    (h : ∀ e ∈ es, test e.1 = pure (p e.1)) :
    findEntry test es = pure ((es.find? fun e => p e.1).map Prod.snd) := by
  induction es with
  | nil => rfl
  | cons e es ih =>
    rw [List.forall_mem_cons] at h
    rw [findEntry, h.1, pure_bind, ih h.2, List.find?_cons]
    cases p e.1 <;> rfl

/-- No object is two keys that have different places. -/
def OneContent (es fs : List (Value × Value)) : Prop :=
  ∀ d ∈ es, ∀ e ∈ fs, e.1.identical d.1 = true → e.1.place = d.1.place

/-- The entry at the place of a key. -/
def entryAt (key : Value) (es : List (Value × Value)) : Option (Value × Value) :=
  es.find? fun e => decide (e.1.place = key.place)

theorem lookup_eq (hkey : K.Has key) (hfs : Orderly L fs)
    (hone : ∀ e ∈ fs, e.1.identical key = true → e.1.place = key.place) :
    lookup call key fs = pure ((entryAt key fs).map Prod.snd) :=
  findEntry_pure (p := fun k => decide (k.place = key.place)) fun e he =>
    keyMatches_eq hkey (hfs.kind e he) (hone e he)

theorem mem_of_entryAt {e : Value × Value} (h : entryAt key es = some e) :
    e ∈ es ∧ e.1.place = key.place := by
  have hplace := List.find?_some h
  exact ⟨List.mem_of_find?_eq_some h, of_decide_eq_true hplace⟩

/-- Where two dictionaries were found equal, an entry of the first has a partner in the second, with
a value that was found equal on the way. -/
theorem exists_of_equals_true {I : World → Prop} {w : World} {t u : Tag} (hw : I w)
    (hes : Orderly K es) (hfs : Orderly L fs) (hone : OneContent es fs)
    (hI : ∀ d ∈ es, ∀ e ∈ fs, d.1.place = e.1.place → (areEqual call d.2 e.2).StaysIn I)
    (h : ((equals call (.dict t es) (.dict u fs)).outcome w).1 = .ok (.bool true)) :
    es.length = fs.length ∧ ∀ d ∈ es, ∃ e ∈ fs, d.1.place = e.1.place ∧
      ∃ v, I v ∧ ((areEqual call d.2 e.2).outcome v).1 = .ok true := by
  have hlookup : ∀ d ∈ es, lookup call d.1 fs = pure ((entryAt d.1 fs).map Prod.snd) :=
    fun d hd => lookup_eq (hes.kind d hd) hfs (hone d hd)
  have hkeys : every (holdsKey call fs) es = pure (es.all fun d => (entryAt d.1 fs).isSome) :=
    every_pure fun d hd => by rw [holdsKey, hlookup d hd, pure_bind, Option.isSome_map]
  rw [equals, keysWithin_eq_every, equalsEntries_eq_every, hkeys, pure_bind] at h
  split at h
  swap
  · cases h
  rename_i hlength
  split at h
  swap
  · cases h
  have hevery : ((every (Sense.law.holdsEntry call fs) es).outcome w).1 = .ok true := by
    rw [outcome_bind] at h
    rcases hout : (every (Sense.law.holdsEntry call fs) es).outcome w with ⟨e | b, w'⟩
    · rw [hout] at h
      cases h
    · rw [hout] at h
      cases h
      rfl
  have hentry : ∀ d ∈ es, Sense.law.holdsEntry call fs d =
      (entryAt d.1 fs).elim (pure false) fun e => areEqual call d.2 e.2 := by
    intro d hd
    rw [Sense.holdsEntry, hlookup d hd, pure_bind]
    cases entryAt d.1 fs <;> rfl
  refine ⟨hlength, fun d hd => ?_⟩
  obtain ⟨v, hv, htrue⟩ := exists_of_every_true hw (fun d hd v hv => by
    rw [hentry d hd]
    cases hat : entryAt d.1 fs with
    | none => exact hv
    | some e =>
      obtain ⟨he, hplace⟩ := mem_of_entryAt hat
      exact hI d hd e he hplace.symm v hv) hevery d hd
  rw [hentry d hd] at htrue
  cases hat : entryAt d.1 fs with
  | none =>
    rw [hat] at htrue
    cases htrue
  | some e =>
    rw [hat] at htrue
    obtain ⟨he, hplace⟩ := mem_of_entryAt hat
    exact ⟨e, he, hplace.symm, v, hv, htrue⟩

end Dictionaries

/-! ## The values in order -/

section Values

variable {call : Apply} {I : World → Prop} {w : World} {x y : Value} {xs ys : List Value}

/-- In each world of a kind the values are equal, and finding so leads to a world of that kind. -/
def AlwaysEqual (call : Apply) (I : World → Prop) (x y : Value) : Prop :=
  (areEqual call x y).Concludes I (fun _ => False) (· = true)

/-- Lists are always equal if their elements are, place by place. -/
theorem alwaysEqual_seq (h : xs.Forall₂ (AlwaysEqual call I) ys) (k : SeqKind) (s t : Tag) :
    AlwaysEqual call I (.seq k s xs) (.seq k t ys) := by
  rw [AlwaysEqual, areEqual, equals, if_pos ⟨rfl, h.length_eq⟩, equalsAll_eq_every, bind_assoc]
  have hall : (every (fun p => Sense.law.agree call p.1 p.2) (xs.zip ys)).Concludes I
      (fun _ => False) (· = true) :=
    concludes_every fun p hp => (List.forall₂_iff_zip.1 h).2 hp
  refine concludes_bind hall fun b hb => ?_
  cases hb
  exact concludes_pure rfl

/-- Comparing values as a program can hold them leaves the world as it is. -/
theorem staysIn_areEqual (call : Apply) (hw : w.Untitled) (hx : x.IsProper) (hy : y.IsProper) :
    (areEqual call x y).StaysIn (· = w) := by
  rintro v rfl
  have hlaw : (Sense.law.compare call x y).OverflowsIf v
      (ComesOutside call v ⟨.law, x, y⟩) IsTruth := overflowsIf_compare hw hx hy
  have hcompare : (areEqual call x y).OverflowsIf v
      (ComesOutside call v ⟨.law, x, y⟩) fun _ => True := overflowsIf_truth hlaw
  rcases hcompare with ⟨-, b, hanswer, -⟩ | ⟨-, hover⟩
  · exact congrArg Prod.snd hanswer
  · exact congrArg Prod.snd hover

end Values

end Value

/-! ## Collecting what is visited -/

/-- The worlds in which the given attributes were assigned, each to an object with a number. -/
def Assigned (as : List Assignment) (w : World) : Prop :=
  w.assigned = as ∧ ∀ s ∈ as, s.object < w.next

/-- No content was assigned to the object. -/
def Tag.Free (as : List Assignment) (t : Tag) : Prop :=
  ∀ w : World, w.assigned = as → w.assigned? t .payload = none

/-- The value is as it passes into a call and out of one: it has its numbers, and what was assigned
to the objects in it is filled in. -/
structure Value.SettledIn (as : List Assignment) (v : Value) : Prop where
  numbered : v.label = pure v
  filled : as = [] ∨ ∀ w : World, w.assigned = as → v.refresh w = v

section Collect

variable {as : List Assignment} {t : Tag} {v : Value} {xs vs : List Value}

/-- The next number of a world is free where what is assigned stands. -/
theorem Assigned.free {w : World} (hw : Assigned as w) : (Tag.numbered w.next).Free as := by
  intro w' hw'
  have hnone : as.find? (fun s => s.object == w.next && s.name == .payload) = none := by
    rw [List.find?_eq_none]
    intro s hs
    have hlt := hw.2 s hs
    simp [show s.object ≠ w.next by omega]
  rw [World.assigned?, hw', hnone]
  rfl

/-- Settling a value concludes with what its labelled form has. -/
theorem concludes_settle {P : Value → Prop}
    (hfilled : as = [] ∨ ∀ w : World, w.assigned = as → v.refresh w = v)
    (hlabel : ∀ w, Assigned as w →
      P (StateT.run v.label w.next).1 ∧ w.next ≤ (StateT.run v.label w.next).2) :
    (settle v).Concludes (Assigned as) (fun _ => False) P := by
  intro w hw
  have hfill : (if w.assigned.isEmpty then v else v.refresh w) = v := by
    rcases hfilled with hnone | hrefresh
    · rw [if_pos (by rw [hw.1, hnone]; rfl)]
    · rw [hrefresh w hw.1, ite_self]
  have hout : (settle v).outcome w =
      (.ok (v.labelled w.next), { w with next := (StateT.run v.label w.next).2 }) := by
    show (labelling (if w.assigned.isEmpty then v else v.refresh w).label).outcome w = _
    rw [hfill]
    rfl
  obtain ⟨hP, hle⟩ := hlabel w hw
  rw [hout]
  exact ⟨hP, hw.1, fun s hs => (hw.2 s hs).trans_le hle⟩

theorem Value.SettledIn.concludes_settle (hv : v.SettledIn as) :
    (settle v).Concludes (Assigned as) (fun _ => False) (· = v) :=
  CheckedCalls.concludes_settle hv.filled fun w _ => by
    rw [hv.numbered]
    exact ⟨rfl, le_rfl⟩

/-- Settled values take no new numbers. -/
theorem labelAll_eq (hxs : ∀ x ∈ xs, x.SettledIn as) : Value.labelAll xs = pure xs := by
  induction xs with
  | nil => rfl
  | cons x xs ih =>
    rw [List.forall_mem_cons] at hxs
    rw [Value.labelAll, hxs.1.numbered, pure_bind, ih hxs.2, pure_bind]

/-- Settled values are not refreshed. -/
theorem refreshAll_eq {w : World} (hw : w.assigned = as) (hsome : as ≠ [])
    (hxs : ∀ x ∈ xs, x.SettledIn as) : Value.refreshAll w xs = xs := by
  induction xs with
  | nil => rfl
  | cons x xs ih =>
    rw [List.forall_mem_cons] at hxs
    rw [Value.refreshAll, hxs.1.filled.resolve_left hsome w hw, ih hxs.2]

/-- A list keeps its elements where it passes into a call or out of one. -/
theorem concludes_settle_list (ht : t.Free as) (hxs : ∀ x ∈ xs, x.SettledIn as) :
    (settle (.seq .list t xs)).Concludes (Assigned as) (fun _ => False)
      fun v => ∃ u : Tag, u.Free as ∧ v = .seq .list u xs := by
  refine concludes_settle ?_ fun w hw => ?_
  · by_cases hsome : as = []
    · exact .inl hsome
    · refine .inr fun w hw => ?_
      rw [Value.refresh, ht w hw, refreshAll_eq hw hsome hxs]
  · cases t with
    | fresh =>
      rw [Value.label, labelAll_eq hxs]
      exact ⟨⟨_, hw.free, rfl⟩, Nat.le_succ _⟩
    | shared | numbered => exact ⟨⟨_, ht, rfl⟩, le_rfl⟩

/-- The list-append function puts a value behind the others. -/
theorem concludes_append (d : Nat) (r : Tag) (ht : t.Free as) (hxs : ∀ x ∈ xs, x.SettledIn as)
    (hv : v.SettledIn as) :
    (apply (d + 1) (.func r (.primitive .append)) [.seq .list t xs, v]).Concludes (Assigned as)
      (fun _ => False) fun l => ∃ u : Tag, u.Free as ∧ l = .seq .list u (xs ++ [v]) := by
  have hf : (settle (.func r (.primitive .append))).Concludes (Assigned as) (fun _ => False)
      fun g => ∃ q, g = .func q (.primitive .append) := by
    refine concludes_settle (.inr fun w _ => rfl) fun w _ => ?_
    cases r with
    | fresh => exact ⟨⟨_, rfl⟩, Nat.le_succ _⟩
    | shared | numbered => exact ⟨⟨_, rfl⟩, le_rfl⟩
  have hargs : (settleAll [.seq .list t xs, v]).Concludes (Assigned as) (fun _ => False)
      fun l => ∃ u : Tag, u.Free as ∧ l = [.seq .list u xs, v] := by
    rw [settleAll, List.mapM_cons, List.mapM_cons, List.mapM_nil]
    refine concludes_bind (concludes_settle_list ht hxs) ?_
    rintro _ ⟨u, hu, rfl⟩
    refine concludes_bind (P := (· = [v])) (concludes_bind hv.concludes_settle ?_) ?_
    · rintro _ rfl
      exact concludes_pure rfl
    · rintro _ rfl
      exact concludes_pure ⟨u, hu, rfl⟩
  rw [apply]
  refine concludes_bind hf ?_
  rintro _ ⟨q, rfl⟩
  refine concludes_bind hargs ?_
  rintro _ ⟨u, hu, rfl⟩
  refine concludes_settle_list (t := .fresh) (fun _ _ => rfl) ?_
  exact List.forall_mem_append.2 ⟨hxs, List.forall_mem_singleton.2 hv⟩

/-- Folding with the list-append function collects the values in the order of the fold. -/
theorem concludes_collect (d : Nat) (r : Tag) (ht : t.Free as) (hxs : ∀ x ∈ xs, x.SettledIn as)
    (hvs : ∀ v ∈ vs, v.SettledIn as) :
    (foldList (apply (d + 1)) (.func r (.primitive .append)) (.seq .list t xs) vs).Concludes
      (Assigned as) (fun _ => False) fun l => ∃ u, l = .seq .list u (xs ++ vs) := by
  induction vs generalizing t xs with
  | nil => exact concludes_pure ⟨t, by rw [List.append_nil]⟩
  | cons v vs ih =>
    rw [List.forall_mem_cons] at hvs
    refine concludes_bind (concludes_append d r ht hxs hvs.1) ?_
    rintro _ ⟨u, hu, rfl⟩
    have hrest := ih hu (List.forall_mem_append.2 ⟨hxs, List.forall_mem_singleton.2 hvs.1⟩) hvs.2
    rw [List.append_assoc, List.singleton_append] at hrest
    exact hrest

end Collect

/-! ## Folding -/

open Value

/-- The order in which a fold goes through the entries of a dictionary: strictly ascending by the
keys. The list-append function collects the values in this order. -/
structure Visits (d : Nat) (es xs : List (Value × Value)) : Prop where
  perm : xs.Perm es
  ascending : Ascending xs
  fold : ∀ f initial t,
    reduce (apply d) f initial (.dict t es) = foldList (apply d) f initial (xs.map Prod.snd)
  collect : ∀ as r s t, s.Free as → (∀ e ∈ es, e.2.SettledIn as) →
    (reduce (apply d) (.func r (.primitive .append)) (.seq .list s []) (.dict t es)).Concludes
      (Assigned as) (fun _ => False) fun l => ∃ u, l = .seq .list u (xs.map Prod.snd)

/-- Every orderly dict can be visited in some order. -/
theorem exists_visits (d : Nat) {K : KeyKind} {es : List (Value × Value)} (hes : Orderly K es) :
    ∃ xs, Visits (d + 1) es xs := by
  obtain ⟨xs, hsorted, hperm, hasc⟩ := sortEntries_eq (apply (d + 1)) hes
  have hfold : ∀ f initial t, reduce (apply (d + 1)) f initial (.dict t es) =
      foldList (apply (d + 1)) f initial (xs.map Prod.snd) := by
    intro f initial t
    rw [reduce, hsorted, pure_bind]
  refine ⟨xs, hperm, hasc, hfold, fun as r s t hs hsettled => ?_⟩
  rw [hfold]
  refine concludes_collect d r hs nofun fun v hv => ?_
  obtain ⟨e, he, rfl⟩ := List.mem_map.1 hv
  exact hsettled e (hperm.mem_iff.1 he)

/-- Dictionaries under strings, or under real numbers and truth values, that are equal are folded
alike, in whatever orders their entries came: as many values are visited, in strictly ascending
order of the keys, and the values visited at one step were found equal. If the comparisons of values
under one key always end alike, these values are always equal, and so are the lists of them.
Comparing values of the library leaves the world as it is, so it does end alike. -/
theorem fold_in_any_order (d : Nat) {K L : KeyKind} {es fs : List (Value × Value)}
    (hes : Orderly K es) (hfs : Orderly L fs) (hone : OneContent es fs) :
    let call := apply (d + 1)
    ∃ xs ys, Visits (d + 1) es xs ∧ Visits (d + 1) fs ys ∧
      (∀ (I : World → Prop) w t u, I w →
        (∀ d ∈ es, ∀ e ∈ fs, d.1.place = e.1.place → (areEqual call d.2 e.2).StaysIn I) →
        ((equals call (.dict t es) (.dict u fs)).outcome w).1 = .ok (.bool true) →
        xs.Forall₂ (fun d e => d.1.place = e.1.place ∧
          ∃ v, I v ∧ ((areEqual call d.2 e.2).outcome v).1 = .ok true) ys ∧
        ((∀ d ∈ es, ∀ e ∈ fs, d.1.place = e.1.place → (areEqual call d.2 e.2).Constant I) →
          xs.Forall₂ (fun d e => AlwaysEqual call I d.2 e.2) ys ∧
          ∀ k s s',
            AlwaysEqual call I (.seq k s (xs.map Prod.snd)) (.seq k s' (ys.map Prod.snd)))) ∧
      ∀ x y w, x.IsProper → y.IsProper → w.Untitled →
        (areEqual call x y).StaysIn (· = w) ∧ (areEqual call x y).Constant (· = w) := by
  intro call
  obtain ⟨xs, hxs⟩ := exists_visits d hes
  obtain ⟨ys, hys⟩ := exists_visits d hfs
  -- a partner for each entry is a partner for the entry visited at the same step
  have hsteps {R : Value × Value → Value × Value → Prop} (hlength : es.length = fs.length)
      (h : ∀ d ∈ es, ∃ e ∈ fs, d.1.place = e.1.place ∧ R d e) :
      xs.Forall₂ (fun d e => d.1.place = e.1.place ∧ R d e) ys := by
    refine forall₂_of_ascending (p := fun e : Value × Value => e.1.place) hxs.ascending
      hys.ascending ?_ fun d hd => ?_
    · rw [hxs.perm.length_eq, hlength, hys.perm.length_eq]
    · obtain ⟨e, he, hde⟩ := h d (hxs.perm.mem_iff.1 hd)
      exact ⟨e, hys.perm.mem_iff.2 he, hde⟩
  refine ⟨xs, ys, hxs, hys, fun I w t u hw hstays h => ?_, fun x y w hx hy hw => ?_⟩
  · obtain ⟨hlength, hall⟩ := exists_of_equals_true hw hes hfs hone hstays h
    refine ⟨hsteps hlength hall, fun hconstant => ?_⟩
    have hpairs := hsteps (R := fun d e => AlwaysEqual call I d.2 e.2) hlength fun d hd => by
      obtain ⟨e, he, hde, v, hv, htrue⟩ := hall d hd
      exact ⟨e, he, hde, (hconstant d hd e he hde).concludes (hstays d hd e he hde) hv htrue⟩
    have hvalues := hpairs.imp fun _ _ h => h.2
    refine ⟨hvalues, fun k s s' => alwaysEqual_seq ?_ k s s'⟩
    exact List.forall₂_map_left_iff.2 (List.forall₂_map_right_iff.2 hvalues)
  · refine ⟨staysIn_areEqual call hw hx hy, ?_⟩
    rintro _ _ rfl rfl
    rfl

/-- One and two as numbers of different kinds, with the entries the other way round. -/
theorem fold_in_any_order_numbers :
    let call := apply 10
    let append : Value := .func .shared (.primitive .append)
    let one : Value := .text .shared "one"
    let two : Value := .text .shared "two"
    let es := [(Value.int 1, one), (Value.number .fresh (.fraction 2), two)]
    let fs := [(Value.int 2, two), (Value.bool true, one)]
    ∃ xs ys, Visits 10 es xs ∧ Visits 10 fs ys ∧
      (reduce call append (.list []) (.dict .fresh es)).Concludes (Assigned []) (fun _ => False)
        (fun l => ∃ u, l = .seq .list u (xs.map Prod.snd)) ∧
      ((equals call (.dict .fresh es) (.dict .fresh fs)).outcome .initial).1 = .ok (.bool true) ∧
      xs.Forall₂ (fun d e => AlwaysEqual call (· = .initial) d.2 e.2) ys ∧
      AlwaysEqual call (· = .initial) (.list (xs.map Prod.snd)) (.list (ys.map Prod.snd)) := by
  intro call append one two es fs
  have hes : Orderly .real es := by
    refine ⟨?_, ?_⟩
    · simp [es, KeyKind.Has, realPoint?, Value.int, Number.point?]
    · simp [es, place, realPoint?, Value.int, Number.point?]
  have hfs : Orderly .real fs := by
    refine ⟨?_, ?_⟩
    · simp [fs, KeyKind.Has, realPoint?, Value.int, Number.point?]
    · simp [fs, place, realPoint?, Value.int, Number.point?]
  have hone : OneContent es fs := by
    simp [OneContent, es, fs, Value.int, identical, Number.identical]
  obtain ⟨xs, ys, hxs, hys, hequal, hproper⟩ := fold_in_any_order 9 hes hfs hone
  have hequals : ((equals call (.dict .fresh es) (.dict .fresh fs)).outcome .initial).1 =
      .ok (.bool true) := rfl
  have hes' : ∀ d ∈ es, d.2.IsProper :=
    List.forall_mem_cons.2 ⟨⟨rfl, rfl⟩, List.forall_mem_singleton.2 ⟨rfl, rfl⟩⟩
  have hfs' : ∀ e ∈ fs, e.2.IsProper :=
    List.forall_mem_cons.2 ⟨⟨rfl, rfl⟩, List.forall_mem_singleton.2 ⟨rfl, rfl⟩⟩
  have hlaw : ∀ d ∈ es, ∀ e ∈ fs, (areEqual call d.2 e.2).StaysIn (· = .initial) ∧
      (areEqual call d.2 e.2).Constant (· = .initial) :=
    fun d hd e he => hproper _ _ _ (hes' d hd) (hfs' e he) World.untitled_initial
  obtain ⟨-, hsteady⟩ := hequal (· = .initial) .initial .fresh .fresh rfl
    (fun d hd e he _ => (hlaw d hd e he).1) hequals
  obtain ⟨hvalues, hlists⟩ := hsteady fun d hd e he _ => (hlaw d hd e he).2
  have hsettled : ∀ e ∈ es, e.2.SettledIn [] :=
    List.forall_mem_cons.2 ⟨⟨rfl, .inl rfl⟩, List.forall_mem_singleton.2 ⟨rfl, .inl rfl⟩⟩
  have hcollect := hxs.collect [] .shared .fresh .fresh (fun _ _ => rfl) hsettled
  exact ⟨xs, ys, hxs, hys, hcollect, hequals, hvalues, hlists .list .fresh .fresh⟩

/-! ### An equality that holds once -/

section Fickle

/-- A class with an equality of its own. -/
def Fickle : Class :=
  .declared (.numbered 0) "Fickle"
    [.declared (.numbered 0) [(.method .equals, .body none (.method .equals))]]

/-- An instance of the class. -/
def fickle (n : Nat) : Value := .object (.numbered n) Fickle .null

/-- A function that answers one value. -/
def always (n : Nat) (v : Value) : Value := .func (.numbered n) (.const v)

/-- A function that makes the first instance differ from all others. -/
def estrange : Value :=
  .func (.numbered 3) (.compose
    (.func (.numbered 4) (.partial_ (.inspection .set) [fickle 1, .text (.numbered 5) "fl_equals"]))
    (always 6 (always 7 (.bool false))))

/-- An equality that holds when it is asked for the first time. -/
def equalOnce : Value := .func (.numbered 8) (.compose (always 9 (.bool true)) estrange)

/-- The first instance has not been compared. -/
def untried : World := ⟨[], 10, [⟨1, .method .equals, equalOnce⟩]⟩

/-- The first instance has been compared. -/
def estranged (next : Nat) : World :=
  ⟨[], next, [⟨1, .method .equals, always 7 (.bool false)⟩, ⟨1, .method .equals, equalOnce⟩]⟩

/-- One value under one key. -/
def under (v : Value) : List (Value × Value) := [(.text .shared "a", v)]

theorem outcome_bind_ok {α β : Type} {r : Run α} {a : α} {w v : World}
    (h : r.outcome w = (.ok a, v)) (f : α → Run β) :
    (r >>= f).outcome w = (f a).outcome v := by
  rw [outcome_bind, h]

/-- A call of a function that keeps what it is given. -/
theorem outcome_apply {d : Nat} {f a b : Value} {args : List Value} {w v v' : World}
    (hf : (settle f).Answers w f) (hargs : (settleAll args).Answers w args)
    (hstep : (step (apply d) f args).outcome w = (.ok a, v))
    (ha : (settle a).outcome v = (.ok b, v')) :
    (apply (d + 1) f args).outcome w = (.ok b, v') := by
  rw [apply, outcome_bind_ok hf, outcome_bind_ok hargs, outcome_bind_ok hstep, ha]

/-- What was assigned to an object comes before its class. -/
theorem outcome_invoke_assigned {call : Apply} {self f : Value} {a : Attribute} {w : World}
    (h : w.assigned? self.tag a = some f) (args : List Value) (body : Option Base → Run Value) :
    (self.invoke call a args body).outcome w = (call f args).outcome w := by
  rw [invoke, outcome_get_bind, h]

/-- Estranging a value once turns the world into an estranged one. -/
theorem outcome_estrange :
    (apply 2 estrange [fickle 2]).outcome untried = (.ok .null, estranged 10) := by
  have hgiven : (apply 1 (always 6 (always 7 (.bool false))) [fickle 2]).outcome untried =
      (.ok (always 7 (.bool false)), untried) := outcome_apply rfl rfl rfl rfl
  have hset : (apply 1 (.func (.numbered 4) (.partial_ (.inspection .set)
      [fickle 1, .text (.numbered 5) "fl_equals"])) [always 7 (.bool false)]).outcome untried =
        (.ok .null, estranged 10) := outcome_apply rfl rfl rfl rfl
  exact outcome_apply rfl rfl ((outcome_bind_ok hgiven _).trans hset) rfl

theorem outcome_equalOnce :
    (apply 3 equalOnce [fickle 2]).outcome untried = (.ok (.bool true), estranged 10) := by
  have htrue : (apply 2 (always 9 (.bool true)) [.null]).outcome (estranged 10) =
      (.ok (.bool true), estranged 10) := outcome_apply rfl rfl rfl rfl
  exact outcome_apply rfl rfl ((outcome_bind_ok outcome_estrange _).trans htrue) rfl

theorem equals_fickle (call : Apply) : equals call (fickle 1) (fickle 2) =
    compareBy call (fickle 1) (equals call .null) (fickle 2) := rfl

theorem equals_untried : (equals (apply 3) (fickle 1) (fickle 2)).outcome untried =
    (.ok (.bool true), estranged 10) := by
  rw [equals_fickle, compareBy, outcome_invoke_assigned rfl, outcome_equalOnce]

theorem equals_estranged (n : Nat) : (equals (apply 3) (fickle 1) (fickle 2)).outcome
    (estranged n) = (.ok (.bool false), estranged n) := by
  rw [equals_fickle, compareBy, outcome_invoke_assigned rfl]
  exact outcome_apply rfl rfl rfl rfl

theorem outcome_equals_singleton {call : Apply} {v u : Value} {b : Bool} {w w' : World} (s t : Tag)
    (h : (equals call v u).outcome w = (.ok (.bool b), w')) :
    (equals call (.seq .list s [v]) (.seq .list t [u])).outcome w = (.ok (.bool b), w') := by
  have hall : (equalsAll call [v] [u]).outcome w = (.ok b, w') := by
    rw [equalsAll, outcome_bind_ok h]
    cases b <;> rfl
  exact outcome_bind_ok hall _

/-- Dictionaries with one key in common are compared as lists of one value. -/
theorem equals_under (call : Apply) (v u : Value) :
    equals call (.dict .shared (under v)) (.dict .shared (under u)) =
      equals call (.seq .list .shared [v]) (.seq .list .shared [u]) := by
  rw [equals, equals]
  rfl

/-- Two dictionaries that were found equal are folded into lists that are not equal, since the
instances under their key are equal only once. -/
theorem fold_of_fickle_values :
    let call := apply 3
    let append : Value := .func .shared (.primitive .append)
    let collect := fun v : Value =>
      reduce call append (.seq .list .shared []) (.dict .shared (under v))
    Orderly .text (under (fickle 1)) ∧ Orderly .text (under (fickle 2)) ∧
    (equals call (.dict .shared (under (fickle 1))) (.dict .shared (under (fickle 2)))).outcome
      untried = (.ok (.bool true), estranged 10) ∧
    ∃ xs ys, (collect (fickle 1)).outcome (estranged 10) = (.ok xs, estranged 11) ∧
      (collect (fickle 2)).outcome (estranged 11) = (.ok ys, estranged 12) ∧
      (equals call xs ys).outcome (estranged 12) = (.ok (.bool false), estranged 12) := by
  intro call append collect
  have horderly (v : Value) : Orderly .text (under v) :=
    ⟨List.forall_mem_singleton.2 ⟨_, _, rfl⟩, List.pairwise_singleton ..⟩
  refine ⟨horderly _, horderly _, ?_, .seq .list (.numbered 10) [fickle 1],
    .seq .list (.numbered 11) [fickle 2], ?_, ?_, ?_⟩
  · rw [equals_under]
    exact outcome_equals_singleton _ _ equals_untried
  · have hcall : (call append [.seq .list .shared [], fickle 1]).outcome (estranged 10) =
        (.ok (.seq .list (.numbered 10) [fickle 1]), estranged 11) := outcome_apply rfl rfl rfl rfl
    exact outcome_bind_ok hcall _
  · have hcall : (call append [.seq .list .shared [], fickle 2]).outcome (estranged 11) =
        (.ok (.seq .list (.numbered 11) [fickle 2]), estranged 12) := outcome_apply rfl rfl rfl rfl
    exact outcome_bind_ok hcall _
  · exact outcome_equals_singleton _ _ (equals_estranged 12)

end Fickle

end CheckedCalls
