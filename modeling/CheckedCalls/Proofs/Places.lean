import CheckedCalls.Algebra.Fold
import CheckedCalls.Proofs.Climbing
import Mathlib.Data.String.Basic
import Mathlib.Data.Sum.Order
import Mathlib.Order.WithBot

/-!
# The places of keys

Strings, and real numbers beside truth values, each have one order, and a key has its place in it.
Keys are found by their places and sorted by them (`keyMatches_eq`, `precedes_eq`), so there is one
order in which the entries of a dictionary can come out of sorting (`sortEntries_eq`). Sorting takes
the run at the front as it is or turned round, and inserts the others one by one: each step leaves
the entries in strictly ascending order.
-/

namespace CheckedCalls

open Run

/-! ## The line of points -/

namespace Point

/-- A point is below another exactly if it is at most that one and not the other way round. -/
theorem lt_iff {p q : Point} : p.lt q = true ↔ p.le q = true ∧ ¬q.le p = true := by
  rw [lt, Bool.not_eq_true', Bool.not_eq_true]
  exact ⟨fun h => ⟨le_total h, h⟩, And.right⟩

instance : LinearOrder Point where
  le p q := p.le q = true
  lt p q := p.lt q = true
  le_refl p := by
    rcases Bool.eq_false_or_eq_true (p.le p) with h | h
    · exact h
    · exact le_total h
  le_trans _ _ _ := le_trans
  le_antisymm _ _ := le_antisymm
  le_total p q := by
    rcases Bool.eq_false_or_eq_true (p.le q) with h | h
    · exact .inl h
    · exact .inr (le_total h)
  lt_iff_le_not_ge _ _ := lt_iff
  toDecidableLE p q := inferInstanceAs (Decidable (p.le q = true))
  toDecidableLT p q := inferInstanceAs (Decidable (p.lt q = true))
  toDecidableEq := inferInstance

/-- The test for being below is the strict order of points. -/
theorem lt_eq_decide {p q : Point} : p.lt q = decide (p < q) := by
  rw [Bool.eq_iff_iff, decide_eq_true_iff]
  exact Iff.rfl

end Point

namespace Number

/-- Numbers are ordered strictly as their points are. -/
theorem lt_of_points {m n : Number} {p q : Point} (hm : m.point? = some p)
    (hn : n.point? = some q) : m.lt n = p.lt q := by
  rw [lt, hm, hn]

/-- Beside numbers truth values count as zero and one. -/
theorem point?_truth (b : Bool) :
    (int (if b then 1 else 0)).point? = some (.at (if b then 1 else 0)) := by
  cases b <;> rfl

end Number

/-- The places in the order of keys, of strings and of points. What is neither is below them. -/
abbrev Place := WithBot (String ⊕ₗ Point)

namespace Place

/-- The place of a string. -/
def text (s : String) : Place := WithBot.some (toLex (.inl s))

/-- The place of a point. -/
def point (p : Point) : Place := WithBot.some (toLex (.inr p))

/-- The places of strings are ordered as the strings are. -/
@[simp] theorem text_lt_text {s t : String} : text s < text t ↔ s < t := by
  rw [text, text, WithBot.coe_lt_coe, Sum.Lex.inl_lt_inl_iff]

@[simp] theorem point_lt_point {p q : Point} : point p < point q ↔ p < q := by
  rw [point, point, WithBot.coe_lt_coe, Sum.Lex.inr_lt_inr_iff]

@[simp] theorem text_inj {s t : String} : text s = text t ↔ s = t := by
  simp [text]

@[simp] theorem point_inj {p q : Point} : point p = point q ↔ p = q := by
  simp [point]

@[simp] theorem text_ne_point {s : String} {p : Point} : text s ≠ point p := by
  simp [text, point]

@[simp] theorem point_ne_text {s : String} {p : Point} : point p ≠ text s := by
  simp [text, point]

end Place

namespace Value

/-- The point of a real number; truth values count as zero and one. -/
def realPoint? : Value → Option Point
  | .bool b => some (.at (if b then 1 else 0))
  | .number _ n => n.point?
  | _ => none

/-- The place of a key. -/
def place : Value → Place
  | .text _ s => .text s
  | v => match v.realPoint? with
    | some p => .point p
    | none => ⊥

/-! ## Kinds of keys -/

/-- The two kinds of keys with an order that is known before they are compared. -/
inductive KeyKind
  | text
  | real

/-- The key is a string, or a real number or truth value that denotes a point. -/
def KeyKind.Has (K : KeyKind) (v : Value) : Prop :=
  match K with
  | .text => ∃ t s, v = .text t s
  | .real => ∃ p, v.realPoint? = some p

/-- A real key has its place among the points. -/
theorem place_of_realPoint? {v : Value} {p : Point} (h : v.realPoint? = some p) :
    v.place = .point p := by
  cases v with
  | bool | number => simp [place, h]
  | _ => cases h

section Keys

variable {call : Apply} {K L : KeyKind} {j k : Value}

/-- Real keys precede each other as their points do. -/
theorem precedes_real {p q : Point} (hj : j.realPoint? = some p) (hk : k.realPoint? = some q) :
    precedes call j k = pure (p.lt q) := by
  cases j with
  | bool a =>
    cases k with
    | bool b =>
      cases hj
      cases hk
      cases a <;> cases b <;> rfl
    | number t n =>
      cases hj
      rw [precedes, Number.lt_of_points (Number.point?_truth a) hk]
    | _ => cases hk
  | number s m =>
    cases k with
    | bool b =>
      cases hk
      rw [precedes, Number.lt_of_points hj (Number.point?_truth b)]
    | number t n => rw [precedes, Number.lt_of_points hj hk]
    | _ => cases hk
  | _ => cases hj

/-- Keys of one kind precede each other by their places. -/
theorem precedes_eq (hj : K.Has j) (hk : K.Has k) :
    precedes call j k = pure (decide (j.place < k.place)) := by
  cases K with
  | text =>
    obtain ⟨t, a, rfl⟩ := hj
    obtain ⟨u, b, rfl⟩ := hk
    simp [precedes, place]
  | real =>
    obtain ⟨p, hp⟩ := hj
    obtain ⟨q, hq⟩ := hk
    rw [precedes_real hp hq, place_of_realPoint? hp, place_of_realPoint? hq]
    simp only [Place.point_lt_point, Point.lt_eq_decide]

/-- Real keys are the same exactly if their points are. -/
theorem same_real {p q : Point} (hj : j.realPoint? = some p) (hk : k.realPoint? = some q) :
    same call j k = answer (decide (p = q)) := by
  have hpoint : samePoint j k = decide (p = q) := by
    cases j with
    | bool | number => cases k with
      | bool | number => simp_all [samePoint, plane?, realPoint?, beq_eq_decide]
      | _ => cases hk
    | _ => cases hj
  have hsame : same call j k =
      if samePoint j k then answer true else reflected call j none k := by
    cases j with
    | bool | number => cases k <;> rfl
    | _ => cases hj
  rw [hsame, hpoint]
  by_cases hpq : p = q
  · rw [if_pos (decide_eq_true hpq), decide_eq_true hpq]
  · rw [if_neg (by simpa using hpq), decide_eq_false hpq]
    cases k with
    | bool | number => rfl
    | _ => cases hk

/-- The hash key of a real key is its point. -/
theorem hashKey_real {p : Point} (hj : j.realPoint? = some p) :
    j.hashKey call = pure (.point p) := by
  cases j with
  | bool a =>
    cases hj
    rfl
  | number t n =>
    rw [realPoint?] at hj
    rw [hashKey, hj]
  | _ => cases hj

/-- A key of one of the two kinds is found just where a key has its place. -/
theorem keyMatches_eq (hj : K.Has j) (hk : L.Has k)
    (hone : k.identical j = true → k.place = j.place) :
    keyMatches call j (same call j) k = pure (decide (k.place = j.place)) := by
  rw [keyMatches]
  split
  · rw [decide_eq_true (hone ‹_›)]
  cases K with
  | text =>
    obtain ⟨t, a, rfl⟩ := hj
    cases L with
    | text =>
      obtain ⟨u, b, rfl⟩ := hk
      by_cases hab : a = b
      · simp [hashesAgree, hashKey, HashKey.same, same, place, hab, answer, truth, plainTruth]
      · simp [hashesAgree, hashKey, HashKey.same, place, hab, Ne.symm hab]
    | real =>
      obtain ⟨q, hq⟩ := hk
      have hne : k.place ≠ place (.text t a) := by
        rw [place_of_realPoint? hq]
        exact Place.point_ne_text
      simp [hashesAgree, hashKey_real hq, hashKey, HashKey.same, hne]
  | real =>
    obtain ⟨p, hp⟩ := hj
    cases L with
    | text =>
      obtain ⟨u, b, rfl⟩ := hk
      have hne : place (.text u b) ≠ j.place := by
        rw [place_of_realPoint? hp]
        exact Place.text_ne_point
      simp [hashesAgree, hashKey_real hp, hashKey, HashKey.same, hne]
    | real =>
      obtain ⟨q, hq⟩ := hk
      rw [place_of_realPoint? hp, place_of_realPoint? hq, same_real hp hq]
      by_cases hpq : p = q
      · simp [hashesAgree, hashKey_real hp, hashKey_real hq, HashKey.same, hpq, answer, truth,
          plainTruth]
      · simp [hashesAgree, hashKey_real hp, hashKey_real hq, HashKey.same, hpq, Ne.symm hpq]

end Keys

/-! ## Sorting -/

/-- The entries are in strictly ascending order of their keys. -/
def Ascending (es : List (Value × Value)) : Prop :=
  es.Pairwise fun d e => d.1.place < e.1.place

/-- Entries under keys of one kind, no two of which have one place. -/
structure Orderly (K : KeyKind) (es : List (Value × Value)) : Prop where
  kind : ∀ e ∈ es, K.Has e.1
  apart : es.Pairwise fun d e => d.1.place ≠ e.1.place

section Sorting

variable (call : Apply) {K : KeyKind} {entry e : Value × Value} {es fs : List (Value × Value)}

/-- Entries stay orderly in any other order. -/
theorem Orderly.perm (h : Orderly K es) (hperm : es.Perm fs) : Orderly K fs where
  kind e he := h.kind e (hperm.mem_iff.2 he)
  apart := h.apart.perm hperm Ne.symm

/-- Some of the entries of an orderly dict are orderly. -/
theorem Orderly.sublist (h : Orderly K es) (hsub : fs.Sublist es) : Orderly K fs where
  kind e he := h.kind e (hsub.subset he)
  apart := h.apart.sublist hsub

theorem Orderly.ne (h : Orderly K (e :: es)) : ∀ d ∈ es, e.1.place ≠ d.1.place :=
  (List.pairwise_cons.1 h.apart).1

/-- An entry between two parts that it is above and below. -/
theorem Ascending.append (hes : Ascending es) (hfs : Ascending (e :: fs))
    (hbelow : ∀ d ∈ es, d.1.place < e.1.place) : Ascending (es ++ e :: fs) := by
  refine List.pairwise_append.2 ⟨hes, hfs, fun d hd f hf => ?_⟩
  rcases List.mem_cons.1 hf with rfl | hf
  · exact hbelow d hd
  · exact (hbelow d hd).trans ((List.pairwise_cons.1 hfs).1 f hf)

/-- Halving finds the place of an entry, as long as there are entries left to halve. -/
theorem insertWithin_eq {steps : Nat} (hsteps : es.length ≤ steps)
    (horderly : Orderly K (entry :: es)) (hes : Ascending es) :
    ∃ fs, insertWithin call entry steps es = pure fs ∧ fs.Perm (entry :: es) ∧ Ascending fs := by
  induction steps generalizing es with
  | zero =>
    cases List.length_eq_zero_iff.1 (Nat.le_zero.1 hsteps)
    exact ⟨[entry], rfl, .refl _, List.pairwise_singleton ..⟩
  | succ steps ih =>
    rw [insertWithin]
    rcases hdrop : es.drop (es.length / 2) with _ | ⟨middle, above⟩
    · have hlength := List.drop_eq_nil_iff.1 hdrop
      cases List.length_eq_zero_iff.1 (show es.length = 0 by omega)
      exact ⟨[entry], rfl, .refl _, List.pairwise_singleton ..⟩
    have hsplit : es = es.take (es.length / 2) ++ middle :: above := by
      rw [← hdrop, List.take_append_drop]
    generalize es.take (es.length / 2) = below at hsplit ⊢
    subst hsplit
    have hentry := horderly.kind entry List.mem_cons_self
    have hmem : middle ∈ below ++ middle :: above :=
      List.mem_append_right below List.mem_cons_self
    have hmiddle := horderly.kind middle (List.mem_cons_of_mem entry hmem)
    obtain ⟨hbelow, habove, hacross⟩ := List.pairwise_append.1 hes
    rw [List.length_append, List.length_cons] at hsteps
    simp only [precedes_eq hentry hmiddle, pure_bind, decide_eq_true_eq]
    split
    · rename_i hlt
      have hpart : (entry :: below).Sublist (entry :: (below ++ middle :: above)) :=
        (List.sublist_append_left below _).cons_cons entry
      obtain ⟨fs, hfs, hperm, hasc⟩ := ih (by omega) (horderly.sublist hpart) hbelow
      refine ⟨fs ++ middle :: above, by rw [hfs, pure_bind], hperm.append_right _,
        hasc.append habove fun d hd => ?_⟩
      rcases List.mem_cons.1 (hperm.mem_iff.1 hd) with rfl | hd
      · exact hlt
      · exact hacross d hd middle List.mem_cons_self
    · rename_i hge
      have hgt : middle.1.place < entry.1.place :=
        lt_of_le_of_ne (not_lt.1 hge) (horderly.ne middle hmem).symm
      have hpart : (entry :: above).Sublist (entry :: (below ++ middle :: above)) :=
        ((List.sublist_cons_self middle above).trans
          (List.sublist_append_right below _)).cons_cons entry
      obtain ⟨hmiddleAbove, habove⟩ := List.pairwise_cons.1 habove
      obtain ⟨fs, hfs, hperm, hasc⟩ := ih (by omega) (horderly.sublist hpart) habove
      have hupper : Ascending (middle :: fs) := by
        refine List.pairwise_cons.2 ⟨fun d hd => ?_, hasc⟩
        rcases List.mem_cons.1 (hperm.mem_iff.1 hd) with rfl | hd
        · exact hgt
        · exact hmiddleAbove d hd
      refine ⟨below ++ middle :: fs, by rw [hfs, pure_bind], ?_,
        Ascending.append hbelow hupper fun d hd => hacross d hd middle List.mem_cons_self⟩
      calc List.Perm (below ++ middle :: fs) (below ++ middle :: entry :: above) :=
            (hperm.cons middle).append_left below
        List.Perm _ (below ++ entry :: middle :: above) := (List.Perm.swap ..).append_left below
        List.Perm _ (entry :: (below ++ middle :: above)) := List.perm_middle

/-- Inserting entries one by one keeps the ascending order. -/
theorem insertEntries_eq {rest : List (Value × Value)} (horderly : Orderly K (es ++ rest))
    (hes : Ascending es) :
    ∃ fs, insertEntries call es rest = pure fs ∧ fs.Perm (es ++ rest) ∧ Ascending fs := by
  induction rest generalizing es with
  | nil => exact ⟨es, rfl, by rw [List.append_nil], hes⟩
  | cons e rest ih =>
    have hfirst : Orderly K (e :: es) :=
      (horderly.perm List.perm_middle).sublist ((List.sublist_append_left es rest).cons_cons e)
    obtain ⟨ds, hds, hperm, hasc⟩ := insertWithin_eq call le_rfl hfirst hes
    have hall : (ds ++ rest).Perm (es ++ e :: rest) :=
      (hperm.append_right rest).trans List.perm_middle.symm
    obtain ⟨fs, hfs, hperm, hasc⟩ := ih (horderly.perm hall.symm) hasc
    refine ⟨fs, ?_, hperm.trans hall, hasc⟩
    rw [insertEntries, insertEntry, hds, pure_bind, hfs]

/-- The run at the front goes on as long as the entries ascend, or as long as they descend. -/
theorem splitRun_eq (descending : Bool) (horderly : Orderly K (e :: es)) :
    ∃ run rest, splitRun call descending e es = pure (run, rest) ∧ es = run ++ rest ∧
      (e :: run).IsChain fun c d =>
        if descending then d.1.place < c.1.place else c.1.place < d.1.place := by
  induction es generalizing e with
  | nil => exact ⟨[], [], rfl, rfl, .singleton e⟩
  | cons d es ih =>
    have he := horderly.kind e List.mem_cons_self
    have hd := horderly.kind d (by simp)
    rw [splitRun, precedes_eq hd he, pure_bind]
    split
    · rename_i hgoes
      obtain ⟨run, rest, hsplit, rfl, hchain⟩ :=
        ih (e := d) (horderly.sublist (List.sublist_cons_self e _))
      refine ⟨d :: run, rest, by rw [hsplit, pure_bind], rfl, .cons_cons ?_ hchain⟩
      rw [beq_iff_eq] at hgoes
      cases descending with
      | true => exact of_decide_eq_true hgoes
      | false =>
        have hge := not_lt.1 (of_decide_eq_false hgoes)
        exact lt_of_le_of_ne hge (horderly.ne d List.mem_cons_self)
    · exact ⟨[], d :: es, rfl, rfl, .singleton e⟩

/-- Entries under keys of one kind are sorted into strictly ascending order. -/
theorem sortEntries_eq (horderly : Orderly K es) :
    ∃ fs, sortEntries call es = pure fs ∧ fs.Perm es ∧ Ascending fs := by
  match es with
  | [] => exact ⟨[], rfl, .refl _, .nil⟩
  | [e] => exact ⟨[e], rfl, .refl _, List.pairwise_singleton ..⟩
  | e :: f :: es =>
    have he := horderly.kind e List.mem_cons_self
    have hf := horderly.kind f (by simp)
    obtain ⟨run, rest, hsplit, rfl, hchain⟩ :=
      splitRun_eq call (decide (f.1.place < e.1.place))
        (horderly.sublist (List.sublist_cons_self e _))
    rw [sortEntries, precedes_eq hf he, pure_bind, hsplit, pure_bind]
    by_cases hlt : f.1.place < e.1.place
    · simp only [hlt, decide_true, if_true] at hchain ⊢
      have hfront : Ascending (e :: f :: run).reverse :=
        List.pairwise_reverse.2 (List.isChain_iff_pairwise.1 (hchain.cons_cons hlt))
      have hperm : ((e :: f :: run).reverse ++ rest).Perm (e :: f :: (run ++ rest)) :=
        (List.reverse_perm _).append_right rest
      obtain ⟨fs, hfs, hsorted, hasc⟩ :=
        insertEntries_eq call (horderly.perm hperm.symm) hfront
      exact ⟨fs, hfs, hsorted.trans hperm, hasc⟩
    · simp only [hlt, decide_false, Bool.false_eq_true, if_false] at hchain ⊢
      have hle := lt_of_le_of_ne (not_lt.1 hlt) (horderly.ne f List.mem_cons_self)
      have hfront : Ascending (e :: f :: run) :=
        List.isChain_iff_pairwise.1 (hchain.cons_cons hle)
      exact insertEntries_eq call horderly hfront

end Sorting

end Value

end CheckedCalls
