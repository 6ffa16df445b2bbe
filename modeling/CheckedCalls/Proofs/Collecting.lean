import CheckedCalls.Proofs.Traversal
import Mathlib.Algebra.BigOperators.Group.List.Basic
import Mathlib.Data.List.Lex

/-!
# What traversing a sequence collects

The loop over a sequence appends inside the target what each call answers to what was collected so
far. With optional values this collects the contents of all or nothing; with successes and failures
it ends in the failure of the first element that fails, which is passed on as the object that it is;
with lists it answers each choice of one element from each, and the choices of positions come in
lexicographic order.
-/

namespace CheckedCalls

open Run Reading

variable {δ ε α β : Type}

/-! ## Choices of positions -/

/-- The lists are the choices of one position below each of several bounds, in lexicographic
order. -/
structure Enumerates (bounds : List Nat) (choices : List (List Nat)) : Prop where
  /-- All choices are there, and nothing else. -/
  mem_iff : ∀ is, is ∈ choices ↔ is.Forall₂ (· < ·) bounds
  /-- Each choice is there once, and in front of those that are greater. -/
  ordered : choices.Pairwise (List.Lex (· < ·))

/-- The elements of the rows at some positions, one from each row. -/
def pick (rows : List (List β)) (is : List Nat) : List (Option β) :=
  rows.zipWith (fun row i => row[i]?) is

/-- The choices of one position below each bound; the last position runs fastest. -/
def positions : List Nat → List (List Nat)
  | [] => [[]]
  | n :: ns => (List.range n).flatMap fun i => (positions ns).map (i :: ·)

/-- The positions within bounds are the lists below the bounds, place by place. -/
theorem mem_positions {bounds is : List Nat} :
    is ∈ positions bounds ↔ is.Forall₂ (· < ·) bounds := by
  induction bounds generalizing is with
  | nil => simp [positions]
  | cons n ns ih =>
    cases is with
    | nil => simp [positions]
    | cons i is => simp [positions, ih]

/-- The positions are enumerated in lexicographic order. -/
theorem pairwise_positions (bounds : List Nat) :
    (positions bounds).Pairwise (List.Lex (· < ·)) := by
  induction bounds with
  | nil => exact List.pairwise_singleton _ _
  | cons n ns ih =>
    rw [positions, List.pairwise_flatMap]
    refine ⟨fun i _ => List.pairwise_map.2 (ih.imp .cons), ?_⟩
    refine List.pairwise_lt_range.imp fun hij is his js hjs => ?_
    obtain ⟨is, -, rfl⟩ := List.mem_map.1 his
    obtain ⟨js, -, rfl⟩ := List.mem_map.1 hjs
    exact .rel hij

theorem enumerates_positions (bounds : List Nat) : Enumerates bounds (positions bounds) :=
  ⟨fun _ => mem_positions, pairwise_positions bounds⟩

/-- There are as many choices as the product of the bounds says. -/
theorem length_positions (bounds : List Nat) : (positions bounds).length = bounds.prod := by
  induction bounds with
  | nil => rfl
  | cons n ns ih => simp [positions, List.length_flatMap, ih]

/-! ## Traversals of lists on types -/

section Types

variable {as front back : List α} {a : α} {bs : List β} {e : δ}

theorem traverse_eq_some {g : α → Option β} (h : as.Forall₂ (g · = some ·) bs) :
    Traversable.traverse g as = some bs := by
  induction h with
  | nil => rfl
  | cons ha _ ih => simp [List.traverse_cons, ha, ih]

/-- A traversal in Maybe fails if some function does. -/
theorem traverse_eq_none {g : α → Option β} (ha : a ∈ as) (h : g a = none) :
    Traversable.traverse g as = none := by
  induction as with
  | nil => cases ha
  | cons b as ih =>
    rw [List.traverse_cons]
    rcases List.mem_cons.1 ha with rfl | ha
    · rw [h]
      rfl
    · rw [ih ha]
      cases g b <;> rfl

/-- A traversal in Either collects the values if every function answers a success. -/
theorem traverse_eq_inr {g : α → δ ⊕ β} (h : as.Forall₂ (g · = .inr ·) bs) :
    Traversable.traverse g as = (.inr bs : δ ⊕ List β) := by
  induction h with
  | nil => rfl
  | cons ha _ ih =>
    rw [List.traverse_cons, ha, ih]
    rfl

/-- The first failure is what is left of a traversal. -/
theorem traverse_eq_inl {g : α → δ ⊕ β} (hfront : ∀ b ∈ front, ∃ c, g b = .inr c)
    (ha : g a = .inl e) :
    Traversable.traverse g (front ++ a :: back) = (.inl e : δ ⊕ List β) := by
  induction front with
  | nil =>
    rw [List.nil_append, List.traverse_cons, ha]
    rfl
  | cons b front ih =>
    obtain ⟨⟨c, hc⟩, hfront⟩ := List.forall_mem_cons.1 hfront
    rw [List.cons_append, List.traverse_cons, hc, ih hfront]
    rfl

theorem map_getElem?_range (row : List β) :
    (List.range row.length).map (row[·]?) = row.map some :=
  List.ext_getElem (by simp) fun i h _ => by simp

/-- A traversal with lists picks an element from each list, for all choices of positions. -/
theorem traverse_eq_pick (g : α → List β) (as : List α) :
    (Traversable.traverse g as).map (List.map some) =
      (positions (as.map fun a => (g a).length)).map (pick (as.map g)) := by
  induction as with
  | nil => rfl
  | cons a as ih =>
    let rest := (positions (as.map fun a => (g a).length)).map (pick (as.map g))
    calc (Traversable.traverse g (a :: as)).map (List.map some)
        = (g a).flatMap fun b =>
            ((Traversable.traverse g as).map (List.map some)).map (some b :: ·) := by
          rw [List.traverse_cons]
          show List.map _ (((g a).map List.cons).flatMap fun h =>
            (Traversable.traverse g as).map h) = _
          simp [List.map_flatMap, List.flatMap_map, Function.comp_def]
      _ = ((g a).map some).flatMap fun o => rest.map (o :: ·) := by
          rw [ih, List.flatMap_map]
      _ = (List.range (g a).length).flatMap fun i => rest.map ((g a)[i]? :: ·) := by
          rw [← map_getElem?_range, List.flatMap_map]
      _ = _ := by
          simp [positions, pick, rest, List.map_flatMap, Function.comp_def]

end Types

/-! ## Failures as objects -/

namespace Reading

variable {L : Reading δ} {A : Reading α} {B : Reading β} {D : Reading ε}

/-- Eithers whose failures stand for something as the objects that they are, and whose successes do
so by what they hold. -/
def eitherOf (L : Reading δ) (B : Reading β) : Reading (δ ⊕ β) where
  denotes v s := match s with
    | .inl e => ∃ t x, v = .left t x ∧ L v e
    | .inr b => ∃ t x, v = .right t x ∧ B x b
  labelled := by
    rintro v (e | b) n ⟨t, x, rfl, hx⟩
    · obtain ⟨s, y, hy⟩ : ∃ s y, (Value.left t x).labelled n = .left s y := by
        cases t <;> exact ⟨_, _, rfl⟩
      exact ⟨s, y, hy, L.labelled n hx⟩
    · cases t with
      | fresh => exact ⟨_, _, rfl, B.labelled n hx⟩
      | shared | numbered => exact ⟨_, _, rfl, hx⟩

/-- Failures that stand for something by what they hold. -/
def leftOf (A : Reading α) : Reading α where
  denotes v a := ∃ t x, v = .left t x ∧ A x a
  labelled := by
    rintro _ a n ⟨t, x, rfl, hx⟩
    cases t with
    | fresh => exact ⟨_, _, rfl, A.labelled n hx⟩
    | shared | numbered => exact ⟨_, _, rfl, hx⟩

variable {n d : Nat} {f : Value} {g : α → δ ⊕ β} {k : SeqKind}

/-- A failure among the answers so far stays, and else the next answer decides. -/
theorem yields_eitherStep {acc x : Value} {a : α} {s : δ ⊕ List β}
    (hf : func n A (eitherOf L B) f g) (hacc : eitherOf L ((Holder.seq k).lift D B) acc s)
    (hx : A x a) (hdepth : n < d) :
    (traverseStep (apply d) k f acc x).Yields
      (eitherOf L ((Holder.seq k).lift D B) · (Holder.collect (F := Sum δ) g s a)) := by
  cases s with
  | inl e =>
    obtain ⟨t, y, rfl, hy⟩ := hacc
    have hself : (map (apply d) (.function (.appending k)) (.left t y)).Yields (· = .left t y) :=
      concludes_pure rfl
    refine concludes_bind hself ?_
    rintro _ rfl
    refine concludes_bind (func_apply hf hx hdepth) fun v hv => ?_
    -- the function is called all the same, and its answer is dropped
    cases hg : g a
    all_goals
      rw [hg] at hv
      obtain ⟨r, z, rfl, -⟩ := hv
      exact concludes_pure ⟨t, y, rfl, hy⟩
  | inr bs =>
    obtain ⟨t, ys, rfl, hys⟩ := hacc
    have happending := Container.func_appending (D := D) (B := B) k
    have hmap : (map (apply d) (.function (.appending k)) (.right t ys)).Yields
        fun v => ∃ h, v = .right .fresh h ∧
          func 0 B ((Holder.seq k).lift D B) h fun b => bs ++ [b] :=
      concludes_bind (func_apply happending hys (by omega)) fun h hh =>
        concludes_pure ⟨h, rfl, hh⟩
    refine concludes_bind hmap ?_
    rintro _ ⟨h, rfl, hh⟩
    refine concludes_bind (func_apply hf hx hdepth) fun v hv => ?_
    rw [Holder.collect]
    cases hg : g a with
    | inl e =>
      rw [hg] at hv
      obtain ⟨r, z, rfl, hz⟩ := hv
      exact concludes_pure ⟨r, z, rfl, hz⟩
    | inr b =>
      rw [hg] at hv
      obtain ⟨r, z, rfl, hz⟩ := hv
      exact concludes_bind (func_apply hh hz (by omega)) fun y hy => concludes_pure ⟨_, y, rfl, hy⟩

/-- The steps of a traversal in Either collect the successes or keep the first failure. -/
theorem yields_eitherSteps {acc : Value} {xs : List Value} {as : List α} {s : δ ⊕ List β}
    (hf : func n A (eitherOf L B) f g) (hacc : eitherOf L ((Holder.seq k).lift D B) acc s)
    (hxs : xs.Forall₂ A as) (hdepth : n < d) :
    (xs.foldlM (traverseStep (apply d) k f) acc).Yields
      (eitherOf L ((Holder.seq k).lift D B) · (as.foldl (Holder.collect (F := Sum δ) g) s)) := by
  induction hxs generalizing acc s with
  | nil => exact concludes_pure hacc
  | cons hx _ ih =>
    rw [List.foldlM_cons]
    refine concludes_bind (yields_eitherStep hf hacc hx hdepth) fun acc' hacc' => ?_
    exact ih hacc'

end Reading

/-! ## Elementary functions -/

section Elementary

variable {E : Reading δ} {A : Reading α}

theorem func_box : func 0 A ((Container.holder (.seq .list)).lift E A)
    (.function (.primitive .box)) pure :=
  func_term fun x _ hx _ _ => concludes_pure ⟨_, [x], rfl, .cons hx .nil⟩

theorem func_duplicate : func 0 A ((Holder.seq .list).lift E A) (.function (.primitive .duplicate))
    fun a => ([a, a] : List α) :=
  func_term fun x _ hx _ _ => concludes_pure ⟨_, [x, x], rfl, .cons hx (.cons hx .nil)⟩

theorem isPositive_int (a : Int) : (Number.int a).isPositive = decide (0 < a) := by
  have hle : ((a : Rat) ≤ 0) ↔ a ≤ 0 := Rat.intCast_le_intCast (b := 0)
  rw [Bool.eq_iff_iff]
  simp [Number.isPositive, Number.zero, Number.lt, Number.point?, Point.lt, Point.le, hle]

/-- The guard for positive numbers stands for a success on them and a failure on all others. -/
theorem func_positive : func 0 integer (Holder.maybe.lift E integer)
    (.function (.primitive .positive)) fun a => if 0 < a then some a else none := by
  refine func_term fun _ a ⟨t, hx⟩ _ _ => hx ▸ ?_
  show Run.Yields (pure (if (Number.int a).isPositive then _ else _)) _
  rw [isPositive_int]
  by_cases ha : 0 < a
  · simp only [ha]
    exact concludes_pure ⟨_, _, rfl, _, rfl⟩
  · simp only [ha]
    exact concludes_pure rfl

/-- The guard in Either keeps the number that it refuses. -/
theorem func_positiveEither : func 0 integer (eitherOf (leftOf integer) integer)
    (.function (.primitive .positiveEither)) fun a => if 0 < a then .inr a else .inl a := by
  refine func_term fun _ a ⟨t, hx⟩ _ _ => hx ▸ ?_
  show Run.Yields (pure (if (Number.int a).isPositive then _ else _)) _
  rw [isPositive_int]
  by_cases ha : 0 < a
  · simp only [ha]
    exact concludes_pure ⟨_, _, rfl, _, rfl⟩
  · simp only [ha]
    exact concludes_pure ⟨_, _, rfl, _, _, rfl, _, rfl⟩

end Elementary

/-! ## Sequences -/

/-- Traverses with the lifting method that is read off a class. -/
def traverseBy (call : Apply) (H : Holder) (f u : Value) : Run Value := do
  traverse call (← H.rep.get call (.method .of)) f u

section Sequences

variable {E : Reading δ} {L : Reading δ} {D : Reading ε} {A : Reading α} {B : Reading β}
  {n d : Nat} {k : SeqKind} {t : Tag} {xs : List Value} {as : List α} {f : Value}

/-- A traversal by a function into Maybe stands for the traversal of what the list stands for. -/
theorem yields_traverseBy_maybe {g : α → Option β} (hf : func n A (Holder.maybe.lift E B) f g)
    (hxs : xs.Forall₂ A as) (hdepth : n < d) :
    (traverseBy (apply d) .maybe f (.seq k t xs)).Yields
      (Holder.maybe.lift E ((Holder.seq k).lift D B) ·
        (Traversable.traverse g as : Option (List β))) := by
  let of : Value := .function (.bound Holder.maybe.rep (some .maybe) (.method .of))
  have hof : (Holder.maybe.rep.get (apply d) (.method .of)).Yields (· = of) :=
    yields_get (concludes_pure rfl)
  have hlift : func n ((Holder.seq k).lift D B)
      ((Container.holder .maybe).lift E ((Holder.seq k).lift D B)) of pure :=
    func_term fun x _ hx _ _ => concludes_pure ⟨_, x, rfl, hx⟩
  refine concludes_bind hof ?_
  rintro _ rfl
  exact Container.yields_traverse (T := .holder .maybe) hlift hf ⟨t, xs, rfl, hxs⟩ hdepth

/-- A traversal by a function into Either stands for the traversal of what the list stands for. -/
theorem yields_traverseBy_either {g : α → δ ⊕ β} (hf : func n A (eitherOf L B) f g)
    (hxs : xs.Forall₂ A as) (hdepth : n < d) :
    (traverseBy (apply d) .either f (.seq k t xs)).Yields
      (eitherOf L ((Holder.seq k).lift D B) ·
        (Traversable.traverse g as : δ ⊕ List β)) := by
  let of : Value := .function (.bound Holder.either.rep (some .either) (.method .of))
  have hof : (Holder.either.rep.get (apply d) (.method .of)).Yields (· = of) :=
    yields_get (concludes_pure rfl)
  have hlift : func 0 ((Holder.seq k).lift D B) (eitherOf L ((Holder.seq k).lift D B)) of .inr :=
    func_term fun x _ hx _ _ => concludes_pure ⟨_, x, rfl, hx⟩
  have hempty : (Holder.seq k).lift D B (.seq k .fresh []) ([] : List β) := ⟨_, [], rfl, .nil⟩
  refine concludes_bind hof ?_
  rintro _ rfl
  refine concludes_bind (func_apply hlift hempty (by omega)) fun start hstart => ?_
  have hcollect := Holder.foldl_collect (F := Sum δ) (δ := ε) k g as
  exact (show _ = Traversable.traverse g as from hcollect) ▸
    yields_eitherSteps hf hstart hxs hdepth

/-- A traversal with lists answers the sequences of the choices, in their order. -/
theorem yields_traverse_choices {lift : Value} {g : α → List β}
    (hlift : func n ((Holder.seq k).lift D B) ((Container.holder (.seq .list)).lift E
      ((Holder.seq k).lift D B)) lift pure)
    (hf : func n A ((Holder.seq .list).lift E B) f g) (hxs : xs.Forall₂ A as) (hdepth : n < d) :
    (traverse (apply d) lift f (.seq k t xs)).Yields fun v => ∃ r rows, v = .seq .list r rows ∧
      rows.length = (as.map fun a => (g a).length).prod ∧
      rows.Forall₂ (fun row is => ∃ s ys bs, row = .seq k s ys ∧ ys.Forall₂ B bs ∧
        bs.map some = pick (as.map g) is) (positions (as.map fun a => (g a).length)) := by
  have hyields := Container.yields_traverse (T := .holder (.seq .list)) hlift hf
    ⟨t, xs, rfl, hxs⟩ hdepth
  refine hyields.mono ?_
  rintro _ ⟨r, rows, rfl, hrows⟩
  have hpicked := traverse_eq_pick g as
  have hlength := congrArg List.length hpicked
  simp only [List.length_map, length_positions] at hlength
  have hrow : rows.Forall₂ (fun row os => ∃ s ys bs, row = .seq k s ys ∧ ys.Forall₂ B bs ∧
      bs.map some = os)
      ((positions (as.map fun a => (g a).length)).map (pick (as.map g))) := by
    rw [← hpicked]
    exact List.forall₂_map_right_iff.2 <|
      hrows.imp fun row bs ⟨s, ys, hrow, hys⟩ => ⟨s, ys, bs, hrow, hys, rfl⟩
  exact ⟨r, rows, rfl, hrows.length_eq.trans hlength, List.forall₂_map_right_iff.1 hrow⟩

/-- What a traversal of a sequence computes, for actions of three kinds. -/
theorem traverse_sequence (k : SeqKind) (t : Tag) (hxs : xs.Forall₂ A as) (hdepth : n < d) :
    let call := apply d
    let u := Value.seq k t xs
    (∀ (f : Value) (g : α → Option β), func n A (Holder.maybe.lift E B) f g →
      (∀ bs, as.Forall₂ (g · = some ·) bs → (traverseBy call .maybe f u).Yields fun v =>
        ∃ r s ys, v = .just r (.seq k s ys) ∧ ys.Forall₂ B bs) ∧
      ((∃ a ∈ as, g a = none) → (traverseBy call .maybe f u).Yields (· = .nothing))) ∧
    (∀ (f : Value) (g : α → δ ⊕ β), func n A (eitherOf L B) f g →
      (∀ bs, as.Forall₂ (g · = .inr ·) bs → (traverseBy call .either f u).Yields fun v =>
        ∃ r s ys, v = .right r (.seq k s ys) ∧ ys.Forall₂ B bs) ∧
      (∀ front a back e, as = front ++ a :: back → (∀ b ∈ front, ∃ c, g b = .inr c) →
        g a = .inl e →
          (traverseBy call .either f u).Yields fun v => ∃ r y, v = .left r y ∧ L v e)) ∧
    (∀ (lift f : Value) (g : α → List β),
      func n ((Holder.seq k).lift D B) ((Container.holder (.seq .list)).lift E
        ((Holder.seq k).lift D B)) lift pure →
      func n A ((Holder.seq .list).lift E B) f g →
      let lengths := as.map fun a => (g a).length
      (traverse call lift f u).Yields fun v => ∃ r rows choices, v = .seq .list r rows ∧
        Enumerates lengths choices ∧ rows.length = lengths.prod ∧
        rows.Forall₂ (fun row is => ∃ s ys bs, row = .seq k s ys ∧ ys.Forall₂ B bs ∧
          bs.map some = pick (as.map g) is) choices) := by
  intro call u
  refine ⟨?_, ?_, ?_⟩
  · intro f g hf
    have hyields := yields_traverseBy_maybe (D := D) (k := k) (t := t) hf hxs hdepth
    refine ⟨fun bs hbs => ?_, fun ⟨a, ha, hnone⟩ => ?_⟩
    · rw [traverse_eq_some hbs] at hyields
      exact hyields.mono fun v ⟨r, w, hv, s, ys, hw, hys⟩ => ⟨r, s, ys, hw ▸ hv, hys⟩
    · rw [traverse_eq_none ha hnone] at hyields
      exact hyields
  · intro f g hf
    have hyields := yields_traverseBy_either (D := D) (k := k) (t := t) hf hxs hdepth
    refine ⟨fun bs hbs => ?_, ?_⟩
    · rw [traverse_eq_inr hbs] at hyields
      exact hyields.mono fun v ⟨r, w, hv, s, ys, hw, hys⟩ => ⟨r, s, ys, hw ▸ hv, hys⟩
    · rintro front a back e rfl hfront ha
      rw [traverse_eq_inl hfront ha] at hyields
      exact hyields
  · intro lift f g hlift hf lengths
    have hyields := yields_traverse_choices (t := t) hlift hf hxs hdepth
    refine hyields.mono fun v ⟨r, rows, hv, hlength, hrows⟩ => ?_
    exact ⟨r, rows, positions lengths, hv, enumerates_positions _, hlength, hrows⟩

/-- The numbers 1, -2 and -3: the first failure is that of the second, and there are eight ways to
choose one of two copies of each. -/
theorem traverse_sequence_integers :
    let call := apply 1
    let f (p : Primitive) : Value := .function (.primitive p)
    let u : Value := .list [.int 1, .int (-2), .int (-3)]
    (traverseBy call .maybe (f .positive) (.tuple [.int 1, .int 2])).Yields (fun v =>
      ∃ r s ys, v = .just r (.seq .tuple s ys) ∧ ys.Forall₂ integer [1, 2]) ∧
    (traverseBy call .maybe (f .positive) u).Yields (· = .nothing) ∧
    (traverseBy call .either (f .positiveEither) u).Yields (fun v =>
      ∃ r y, v = .left r y ∧ leftOf integer v (-2)) ∧
    (traverse call (f .box) (f .duplicate) u).Yields fun v =>
      ∃ r rows, v = .seq .list r rows ∧ rows.length = 8 := by
  intro call f u
  have hint : ∀ n, integer (.int n) n := fun n => ⟨_, rfl⟩
  have hu : [Value.int 1, .int (-2), .int (-3)].Forall₂ integer.denotes [1, -2, -3] :=
    .cons (hint 1) (.cons (hint (-2)) (.cons (hint (-3)) .nil))
  have hpair : [Value.int 1, .int 2].Forall₂ integer.denotes [1, 2] :=
    .cons (hint 1) (.cons (hint 2) .nil)
  obtain ⟨hmaybe, heither, hlist⟩ := traverse_sequence (E := integer) (L := leftOf integer)
    (D := integer) (B := integer) (n := 0) (d := 1) .list .fresh hu (by decide)
  obtain ⟨hboth, -⟩ := (traverse_sequence (E := integer) (L := leftOf integer) (D := integer)
    (B := integer) (n := 0) (d := 1) .tuple .fresh hpair (by decide)).1 _ _ func_positive
  refine ⟨?_, ?_, ?_, ?_⟩
  · exact hboth [1, 2] (.cons rfl (.cons rfl .nil))
  · exact (hmaybe _ _ func_positive).2 ⟨-2, by decide, rfl⟩
  · exact (heither _ _ func_positiveEither).2 [1] (-2) [-3] (-2) rfl (by simp) rfl
  · refine (hlist _ _ _ func_box func_duplicate).mono ?_
    rintro _ ⟨r, rows, choices, rfl, -, hlength, -⟩
    exact ⟨r, rows, rfl, hlength⟩

end Sequences

end CheckedCalls
