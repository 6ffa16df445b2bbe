import CheckedCalls.Proofs.Drawing
import Mathlib.Data.Set.BooleanAlgebra
import Mathlib.Order.CompletePartialOrder

/-!
# The numeric tower

Each set of numbers that the library names is contained in a wider one (`members_ssubset`), and the
specificities put a set before all that contain it (`specificity_lt_of_ssubset`). Specificity alone
would order two sets that are not comparable as well, so the argument goes from the inclusion to the
specificities and not back. A descriptor lists the types that answered yes in the order in which
they were asked; ranking sorts it by specificity and is stable.
-/

namespace CheckedCalls

/-! ## Members -/

namespace StandardType

/-- The values that a type contains. -/
def members (t : StandardType) : Set Value := {v | t.test v = .ok true}

/-- The sets of numbers that the library names. -/
def tower : List StandardType :=
  [.number, .validNumber, .finiteNumber, .nonZeroFiniteNumber, .integer, .nonNegativeInteger]

/-- A set of numbers grows with its test. -/
theorem ofNumber_mono {p q : Number → Except Fault Bool} {v : Value}
    (hpq : ∀ n, p n = .ok true → q n = .ok true) (h : ofNumber p v = .ok true) :
    ofNumber q v = .ok true := by
  rw [ofNumber] at h ⊢
  split at h
  · exact hpq _ h
  · cases h

/-- Only numbers have the types of numbers. -/
theorem isNumber_of_ofNumber {p : Number → Except Fault Bool} {v : Value}
    (h : ofNumber p v = .ok true) : v.isNumber = true := by
  rw [ofNumber] at h
  split at h
  · rename_i hn
    rw [Value.isNumber, hn]
    rfl
  · cases h

/-- Where two questions are asked one after the other, yes is the answer to both. -/
theorem eq_true_of_both {x : Except Fault Bool} {c : Bool}
    (h : (do if ← x then return c else return false : Except Fault Bool) = .ok true) :
    x = .ok true ∧ c = true := by
  rcases x with f | _ | _
  · cases h
  · cases h
  · exact ⟨rfl, Except.ok.inj h⟩

/-- A finite number is not NaN. -/
theorem isNaN_of_finite {n : Number} (h : n.finite = .ok true) : n.isNaN = false := by
  rcases n with _ | x | _
  · rfl
  · cases x with
    | nan => cases h
    | inf | finite => rfl
  · rfl

/-- A whole number is finite. -/
theorem finite_of_wholeNumber {n : Number} (h : n.wholeNumber = .ok true) :
    n.finite = .ok true := by
  cases n with
  | int => rfl
  | float | fraction => exact (eq_true_of_both h).1

/-- Each test of the tower has the answer of a wider one behind it. -/
theorem members_subset :
    nonNegativeInteger.members ⊆ integer.members ∧ integer.members ⊆ finiteNumber.members ∧
      nonZeroFiniteNumber.members ⊆ finiteNumber.members ∧
      finiteNumber.members ⊆ validNumber.members ∧ validNumber.members ⊆ number.members := by
  refine ⟨fun v => ofNumber_mono fun n h => (eq_true_of_both h).1,
    fun v => ofNumber_mono fun n => finite_of_wholeNumber,
    fun v => ofNumber_mono fun n h => (eq_true_of_both h).1,
    fun v => ofNumber_mono fun n h => ?_, fun v h => ?_⟩
  · rw [isNaN_of_finite h]
    rfl
  · show Except.ok v.isNumber = .ok true
    rw [isNumber_of_ofNumber h]

/-! ## Values that tell the sets apart -/

/-- A number as a value. -/
private def numeral (n : Number) : Value := .number .shared n

/-- The smallest positive number is not whole. -/
private def tiny : Value := numeral (.float (.finite false 1))

private theorem tiny_mem : tiny ∈ nonZeroFiniteNumber.members := by
  show nonZeroFiniteNumber.test tiny = .ok true
  decide +kernel

private theorem tiny_notMem : tiny ∉ integer.members := by
  have h : integer.test tiny = .ok false := by decide +kernel
  intro hmem
  cases h.symm.trans hmem

/-- Each inclusion of the tower is strict. -/
theorem members_ssubset :
    nonNegativeInteger.members ⊂ integer.members ∧ integer.members ⊂ finiteNumber.members ∧
      nonZeroFiniteNumber.members ⊂ finiteNumber.members ∧
      finiteNumber.members ⊂ validNumber.members ∧ validNumber.members ⊂ number.members := by
  obtain ⟨hnatural, hwhole, hnonzero, hfinite, hvalid⟩ := members_subset
  have hno : ∀ {t : StandardType} {v : Value}, t.test v = .ok false → v ∉ t.members := by
    intro t v h hv
    cases h.symm.trans hv
  refine ⟨(Set.ssubset_iff_of_subset hnatural).2 ⟨numeral (.int (-1)), rfl, hno ?_⟩,
    (Set.ssubset_iff_of_subset hwhole).2 ⟨tiny, hnonzero tiny_mem, tiny_notMem⟩,
    (Set.ssubset_iff_of_subset hnonzero).2 ⟨numeral (.int 0), rfl, hno ?_⟩,
    (Set.ssubset_iff_of_subset hfinite).2 ⟨numeral (.float (.inf false)), rfl, hno ?_⟩,
    (Set.ssubset_iff_of_subset hvalid).2 ⟨numeral (.float .nan), rfl, hno ?_⟩⟩
  · decide +kernel
  · decide +kernel
  · rfl
  · rfl

/-- What passes from each set of the tower to the next wider one passes from any set to those of no
higher specificity, but not from the whole numbers to the numbers other than zero: these are not
comparable, although their specificities are. -/
theorem tower_cases {P : StandardType → Prop} (hnatural : P nonNegativeInteger → P integer)
    (hwhole : P integer → P finiteNumber) (hnonzero : P nonZeroFiniteNumber → P finiteNumber)
    (hfinite : P finiteNumber → P validNumber) (hvalid : P validNumber → P number)
    {s t : StandardType} (hs : s ∈ tower) (ht : t ∈ tower) (h : s.specificity ≤ t.specificity) :
    (P t → P s) ∨ s = nonZeroFiniteNumber ∧ (t = integer ∨ t = nonNegativeInteger) := by
  simp only [tower, List.mem_cons, List.not_mem_nil, or_false] at hs ht
  rcases hs with rfl | rfl | rfl | rfl | rfl | rfl <;>
    rcases ht with rfl | rfl | rfl | rfl | rfl | rfl <;>
    first
    | exact absurd h (by decide)
    | exact .inl (by tauto)
    | exact .inr (by simp)

/-- The narrower of two sets of the tower has the higher specificity. -/
theorem specificity_lt_of_ssubset {s t : StandardType} (hs : s ∈ tower) (ht : t ∈ tower)
    (h : s.members ⊂ t.members) : t.specificity < s.specificity := by
  obtain ⟨hnatural, hwhole, hnonzero, hfinite, hvalid⟩ := members_subset
  obtain ⟨hsub, v, hv, hno⟩ := Set.ssubset_iff_exists.1 h
  by_contra hle
  rcases tower_cases (P := (v ∈ members ·)) (@hnatural v) (@hwhole v) (@hnonzero v) (@hfinite v)
    (@hvalid v) hs ht (not_lt.1 hle) with hup | ⟨rfl, rfl | rfl⟩
  · exact hno (hup hv)
  · exact tiny_notMem (hsub tiny_mem)
  · exact tiny_notMem (hnatural (hsub tiny_mem))

/-- Truth values are no numbers. -/
theorem test_bool {t : StandardType} (ht : t ∈ tower) (b : Bool) :
    t.test (.bool b) = .ok false := by
  revert t
  simp [tower, test, ofNumber, Value.number?, Value.isNumber]

end StandardType

/-! ## Ranked types -/

/-- The types in another order: narrower ones first, those of one specificity as they were. -/
structure RankedFrom (types ranked : List NamedType) : Prop where
  perm : ranked.Perm types
  descending : ranked.Pairwise fun s t => t.specificity ≤ s.specificity
  ties : ∀ k, ranked.filter (·.specificity == k) = types.filter (·.specificity == k)
  /-- Of two sets of numbers the one that is contained in the other comes first. -/
  narrower : ∀ s ∈ StandardType.tower, ∀ t ∈ StandardType.tower, s.members ⊂ t.members →
    ∀ i j : Nat, ranked[i]? = some s.named → ranked[j]? = some t.named → i < j

theorem descending_rank (types : List NamedType) :
    (rank types).Pairwise fun s t => t.specificity ≤ s.specificity :=
  (pairwise_sortStable specificity_trans specificity_total types).imp of_decide_eq_true

theorem filter_rank_specificity (types : List NamedType) (k : Int) :
    (rank types).filter (·.specificity == k) = types.filter (·.specificity == k) := by
  refine filter_sortStable_of_ties specificity_trans _ specificity_total (fun s t hs ht => ?_) types
  rw [beq_iff_eq] at hs ht
  exact decide_eq_true (by rw [hs, ht])

/-- In descending order what is higher is earlier. -/
theorem lt_of_specificity_lt {types : List NamedType} {s t : NamedType} {i j : Nat}
    (h : types.Pairwise fun s t => t.specificity ≤ s.specificity)
    (hi : types[i]? = some s) (hj : types[j]? = some t) (hlt : t.specificity < s.specificity) :
    i < j := by
  obtain ⟨hi, rfl⟩ := List.getElem?_eq_some_iff.1 hi
  obtain ⟨hj, rfl⟩ := List.getElem?_eq_some_iff.1 hj
  rcases lt_trichotomy i j with h' | rfl | h'
  · exact h'
  · exact absurd hlt (lt_irrefl _)
  · exact absurd (List.pairwise_iff_getElem.1 h j i _ _ h') (not_le.2 hlt)

/-- The ranking of types is ranked from them. -/
theorem rankedFrom_rank (types : List NamedType) : RankedFrom types (rank types) where
  perm := perm_rank types
  descending := descending_rank types
  ties := filter_rank_specificity types
  narrower _ hs _ ht h _ _ hi hj :=
    lt_of_specificity_lt (descending_rank types) hi hj
      (StandardType.specificity_lt_of_ssubset hs ht h)

/-! ## Descriptors -/

section Descriptors

variable {m : Type → Type} [Monad m] [LawfulMonad m] {α : Type}

/-- The elements with the answer yes, where each has its answer. -/
def affirmed (as : List α) (answers : List Bool) : List α :=
  ((as.zip answers).filter Prod.snd).map Prod.fst

theorem affirmed_cons (a : α) (as : List α) (b : Bool) (bs : List Bool) :
    affirmed (a :: as) (b :: bs) = if b then a :: affirmed as bs else affirmed as bs := by
  cases b <;> rfl

/-- A filter with answers from a monad keeps what is affirmed, in reverse, before what was there. -/
theorem filterAuxM_eq (p : α → m Bool) (as acc : List α) :
    List.filterAuxM p as acc = (fun bs => (affirmed as bs).reverse ++ acc) <$> as.mapM p := by
  induction as generalizing acc with
  | nil => simp [List.filterAuxM, affirmed]
  | cons a as ih =>
    simp only [List.filterAuxM, List.mapM_cons, map_bind, map_pure]
    refine bind_congr fun b => ?_
    rw [ih, map_eq_pure_bind]
    refine bind_congr fun bs => ?_
    cases b <;> simp [affirmed_cons]

/-- Filtering asks for each element in turn and keeps those with the answer yes. -/
theorem filterM_eq (p : α → m Bool) (as : List α) :
    as.filterM p = affirmed as <$> as.mapM p := by
  rw [List.filterM, filterAuxM_eq]
  simp

end Descriptors

/-- Each answer is one that the run for its element can give. -/
theorem Run.ensures_mapM {α β : Type} (f : α → Run β) (as : List α) :
    Ensures (as.mapM f) (List.Forall₂ (fun a b => (f a).CanAnswer b) as) := by
  induction as with
  | nil => exact ensures_pure .nil
  | cons a as ih =>
    rw [List.mapM_cons]
    exact ensures_bind (ensures_canAnswer (f a)) fun b hb =>
      ensures_bind ih fun bs hbs => ensures_pure (.cons hb hbs)

/-- The descriptor of a value to which the types of the environment answer so: those that answered
yes, or the nominal type of the value if there are none. -/
def Value.describedBy (v : Value) (env : List NamedType) (answers : List Bool) :
    List NamedType :=
  if true ∈ answers then affirmed env answers else [.nominal v.nominalName]

theorem affirmed_eq_nil_iff {α : Type} {P : α → Bool → Prop} {as : List α} {answers : List Bool}
    (h : List.Forall₂ P as answers) : affirmed as answers = [] ↔ true ∉ answers := by
  induction h with
  | nil => simp [affirmed]
  | @cons a b as bs _ _ ih => cases b <;> simp [affirmed_cons, ih]

/-- Describing a value asks each type of the environment, in its order. -/
theorem describe_outcome (call : Apply) (env : List NamedType) (v : Value) (w : World) :
    (describe call env v).outcome w =
      match (env.mapM fun t : NamedType => t.contains call v).outcome w with
      | (.ok answers, w') => (.ok (v.describedBy env answers), w')
      | (.error f, w') => (.error f, w') := by
  have hanswers := Run.ensures_mapM (fun t : NamedType => t.contains call v) env w
  rw [describe, filterM_eq, bind_map_left, Run.outcome_bind]
  rcases hout : (env.mapM fun t : NamedType => t.contains call v).outcome w with ⟨f | answers, w'⟩
  · rfl
  · rw [hout] at hanswers
    have hnil := affirmed_eq_nil_iff (hanswers answers rfl)
    simp only [Run.outcome_pure, Value.describedBy, List.isEmpty_iff, hnil]
    by_cases h : true ∈ answers <;> simp [h]

/-! ## The tower and its ranks -/

/-- Each set of numbers is strictly contained in the next wider ones, and truth values are in none
of them. Describing a value asks each type of the environment in turn. If one of the questions
fails, it fails; if all are answered, it answers the types that said yes, in the order of the
environment, or the nominal type of the value if none did. Ranking the descriptor puts the narrower
of two sets of numbers first and keeps the order of types of one specificity. -/
theorem tower_ranked (call : Apply) (env : List NamedType) (v : Value) (w : World) :
    (StandardType.nonNegativeInteger.members ⊂ StandardType.integer.members ∧
      StandardType.integer.members ⊂ StandardType.finiteNumber.members ∧
      StandardType.nonZeroFiniteNumber.members ⊂ StandardType.finiteNumber.members ∧
      StandardType.finiteNumber.members ⊂ StandardType.validNumber.members ∧
      StandardType.validNumber.members ⊂ StandardType.number.members) ∧
    (∀ t ∈ StandardType.tower, ∀ b, t.test (.bool b) = .ok false) ∧
    match (env.mapM fun t : NamedType => t.contains call v).outcome w with
    | (.error f, w') => (describe call env v).outcome w = (.error f, w')
    | (.ok answers, w') => ∃ d, (describe call env v).outcome w = (.ok d, w') ∧
        List.Forall₂ (fun t b => (t.contains call v).CanAnswer b) env answers ∧
        (true ∈ answers → d = affirmed env answers) ∧
        (true ∉ answers → d = [.nominal v.nominalName]) ∧ RankedFrom d (rank d) := by
  refine ⟨StandardType.members_ssubset, fun t ht => StandardType.test_bool ht, ?_⟩
  have hanswers := Run.ensures_mapM (fun t : NamedType => t.contains call v) env w
  rw [describe_outcome]
  rcases hout : (env.mapM fun t : NamedType => t.contains call v).outcome w with ⟨f | answers, w'⟩
  · rfl
  · rw [hout] at hanswers
    exact ⟨_, rfl, hanswers answers rfl, fun h => if_pos h, fun h => if_neg h, rankedFrom_rank _⟩

/-- A value that belongs to no type of the environment is still described. -/
theorem describe_unmatched :
    (∀ t ∈ StandardType.defaultEnv,
      t.contains applyFunction (.bytes .shared [0]) = pure false) ∧
    describe applyFunction StandardType.defaultEnv (.bytes .shared [0]) =
      pure [.nominal "bytes"] := by
  constructor
  · intro t ht
    obtain ⟨s, hs, rfl⟩ := List.mem_map.1 ht
    rw [StandardType.contains_named]
    have hno : ∀ s ∈ StandardType.standing, s.test (.bytes .shared [0]) = .ok false := by decide
    rw [hno s hs]
    rfl
  · rw [StandardType.defaultEnv_eq, describe_named]
    rfl

end CheckedCalls
