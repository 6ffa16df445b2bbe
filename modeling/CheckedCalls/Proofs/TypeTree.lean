import CheckedCalls.Evaluate
import CheckedCalls.Proofs.Demands

/-!
# Type trees

A type tree says of a value what its type is and what the types of all values are that it holds.
`inhabits_iff_observations` turns inhabiting a tree into a condition on the records for the value,
key by key. So a check passes exactly if there are trees for the variables under which every
argument fits its slot (`passed_iff_trees`): from such trees the types in common are read off, and
from types in common such trees are built (`exists_tree`).
-/

namespace CheckedCalls

open StandardType (standing)

/-! ## Trees -/

/-- A type of values that hold nothing: one without parameters by which values are described, or a
nominal one. -/
inductive NamedType.IsLeaf : NamedType → Prop
  | standing {t : StandardType} (ht : t ∈ StandardType.standing) (h : t.arity = 0) : IsLeaf t.named
  | nominal (name : String) : IsLeaf (.nominal name)

/-- The types of values, down to what they hold. -/
inductive TypeTree
  | leaf (t : NamedType) (h : t.IsLeaf)
  | array (items : TypeTree)
  | maybe (held : TypeTree)
  | either (left right : TypeTree)

namespace TypeTree

instance : Inhabited TypeTree := ⟨.leaf _ (.nominal "")⟩

/-- The value inhabits the tree. A sequence inhabits an array type if all its elements inhabit the
type of the elements; the variants look at what they hold; any other value inhabits the types of its
descriptor. -/
def Inhabits (call : Apply) : TypeTree → Value → Prop
  | .array T, .seq _ _ xs => ∀ x ∈ xs, T.Inhabits call x
  | .maybe _, .nothing => True
  | .maybe T, .just _ x => T.Inhabits call x
  | .either T _, .left _ x => T.Inhabits call x
  | .either _ U, .right _ x => U.Inhabits call x
  | .leaf t _, v => v.shape? = none ∧
      ∃ d, describe call StandardType.defaultEnv v = pure d ∧ d.contains t = true
  | _, _ => False

/-- The type that values of the tree have themselves. -/
def head : TypeTree → NamedType
  | .leaf t _ => t
  | .array _ => StandardType.array.named
  | .maybe _ => StandardType.maybe.named
  | .either _ _ => StandardType.either.named

/-- The tree of what values hold for a parameter. -/
def child : TypeTree → Nat → TypeTree
  | .array T, _ | .maybe T, _ => T
  | .either T _, 0 => T
  | .either _ U, _ => U
  | .leaf _ _, _ => default

end TypeTree

/-- The tree that stands for a key, given those of the variables. -/
def VarKey.tree (trees : String → TypeTree) : VarKey → TypeTree
  | .named name => trees name
  | .inner key i => (key.tree trees).child i

variable {call : Apply}

/-! ## Inhabiting a tree -/

/-- A type stands in the descriptor of a value exactly if it is among its types. -/
theorem contains_describe_iff (v : Value) (t : NamedType) :
    (∃ d, describe call StandardType.defaultEnv v = pure d ∧ d.contains t = true) ↔
      (v.types standing).contains t = true := by
  simp only [StandardType.defaultEnv_eq, describe_named, Run.liftM_eq_pure_iff]
  constructor
  · rintro ⟨d, hd, ht⟩
    rwa [Value.types_of_descriptor hd]
  · intro ht
    rcases hd : v.descriptor standing with f | d
    · rw [Value.types, hd] at ht
      cases ht
    · rw [Value.types_of_descriptor hd] at ht
      exact ⟨d, rfl, ht⟩

/-- Equal types are contained in the same lists. -/
theorem contains_congr {ts : List NamedType} {s t : NamedType} (h : (s == t) = true) :
    ts.contains s = true ↔ ts.contains t = true := by
  simp only [List.contains_iff_exists_mem_beq]
  exact exists_congr fun u => and_congr_right fun _ => ⟨BEq.trans (BEq.symm h), BEq.trans h⟩

/-- A native value has a type that shows what its values hold exactly if it has the shape of the
type. -/
theorem contains_types_iff_shape {v : Value} {u : StandardType} (hv : v.isNative = true)
    (hu : u.extraction.isSome = true) :
    (v.types standing).contains u.named = true ↔ v.shape? = some u := by
  constructor
  · intro h
    obtain ⟨t, ht, hsame⟩ := List.contains_iff_exists_mem_beq.1 h
    rcases Value.mem_types ht with ⟨s, -, hs, rfl⟩ | ⟨-, rfl⟩
    · cases StandardType.named_beq_named.1 hsame
      exact StandardType.shape_of_has hu hv hs
    · have harity := (StandardType.named_beq_nominal.1 hsame).2.1
      cases u with
      | array | maybe | either => cases harity
      | _ => cases hu
  · intro h
    rw [Value.types_of_shape h]
    simp

section Common

variable {u v : Value} {c : NamedType}

/-- A native value that has a type in common with a value of a shape is of this shape. -/
theorem shape_of_common {t : StandardType} (hu : u.shape? = some t) (hv : v.isNative = true)
    (huc : (u.types standing).contains c = true) (hvc : (v.types standing).contains c = true) :
    v.shape? = some t := by
  rw [Value.types_of_shape hu, List.contains_iff_exists_mem_beq] at huc
  obtain ⟨s, hs, hsame⟩ := huc
  cases List.mem_singleton.1 hs
  have hextraction : t.extraction.isSome = true := by
    rcases shape_cases hu with rfl | rfl | rfl <;> rfl
  exact (contains_types_iff_shape hv hextraction).1 ((contains_congr hsame).1 hvc)

/-- Native values with a type in common have as many parameters. -/
theorem length_held_of_common (hu : u.isNative = true) (hv : v.isNative = true)
    (huc : (u.types standing).contains c = true) (hvc : (v.types standing).contains c = true) :
    u.held.length = v.held.length := by
  rcases hshape : u.shape? with _ | t
  · have hnone : v.shape? = none := by
      rcases hshape' : v.shape? with _ | t
      · rfl
      · rw [shape_of_common hshape' hu hvc huc] at hshape
        cases hshape
    rw [held_of_no_shape hshape, held_of_no_shape hnone]
  · have hsame := shape_of_common hshape hv huc hvc
    exact_mod_cast (length_held hshape).trans (length_held hsame).symm

end Common

/-- Only data of no shape has the type of a leaf. -/
theorem shape_of_contains_leaf {v : Value} {t : NamedType} (ht : t.IsLeaf)
    (h : (v.types standing).contains t = true) : v.shape? = none := by
  rcases hshape : v.shape? with _ | u
  · rfl
  · rw [Value.types_of_shape hshape, List.contains_iff_exists_mem_beq] at h
    obtain ⟨t', ht', hsame⟩ := h
    cases List.mem_singleton.1 ht'
    have harity : u.arity = 0 := by
      refine (NamedType.beq_iff.1 (BEq.symm hsame)).2.1.trans ?_
      cases ht with
      | standing ht h => exact h
      | nominal name => rfl
    rcases shape_cases hshape with rfl | rfl | rfl <;> cases harity

/-- Each value held for a parameter has the property of the parameter, from parameter `i` on. -/
def ForHeld (P : Nat → Value → Prop) (i : Nat) : List (List Value) → Prop
  | [] => True
  | items :: rest => (∀ x ∈ items, P i x) ∧ ForHeld P (i + 1) rest

theorem forHeld_congr {P Q : Nat → Value → Prop} {held : List (List Value)}
    (h : ∀ i, ∀ items ∈ held, ∀ x ∈ items, (P i x ↔ Q i x)) (i : Nat) :
    ForHeld P i held ↔ ForHeld Q i held := by
  induction held generalizing i with
  | nil => rfl
  | cons items held ih =>
    rw [ForHeld, ForHeld]
    refine and_congr (forall₂_congr fun x hx => h i items List.mem_cons_self x hx) ?_
    exact ih (fun i items hitems => h i items (List.mem_cons_of_mem _ hitems)) (i + 1)

theorem inhabits_leaf_iff {t : NamedType} (ht : t.IsLeaf) {v : Value} :
    (TypeTree.leaf t ht).Inhabits call v ↔
      v.shape? = none ∧ (v.types standing).contains t = true := by
  rw [TypeTree.Inhabits, contains_describe_iff]

/-- A value inhabits a tree if the type at its head is one of the value, and what the value holds
for each parameter inhabits the tree for the parameter. -/
theorem inhabits_iff {T : TypeTree} {v : Value} (hv : v.isData = true) :
    T.Inhabits call v ↔ (v.types standing).contains T.head = true ∧
      ForHeld (fun i x => (T.child i).Inhabits call x) 0 v.held := by
  cases T with
  | leaf t ht =>
    rw [inhabits_leaf_iff, TypeTree.head]
    constructor
    · rintro ⟨hshape, h⟩
      exact ⟨h, by simp [held_of_no_shape hshape, ForHeld]⟩
    · rintro ⟨h, -⟩
      exact ⟨shape_of_contains_leaf ht h, h⟩
  | array T =>
    rw [TypeTree.head, contains_types_iff_shape (Value.isNative_of_isData hv) rfl]
    cases v <;> simp [TypeTree.Inhabits, TypeTree.child, Value.shape?, Value.held, ForHeld]
  | maybe T =>
    rw [TypeTree.head, contains_types_iff_shape (Value.isNative_of_isData hv) rfl]
    cases v <;> simp [TypeTree.Inhabits, TypeTree.child, Value.shape?, Value.held, ForHeld]
  | either T U =>
    rw [TypeTree.head, contains_types_iff_shape (Value.isNative_of_isData hv) rfl]
    cases v <;> simp [TypeTree.Inhabits, TypeTree.child, Value.shape?, Value.held, ForHeld]

/-! ## Records and trees -/

/-- A condition on the records for a value is one on its own and on those for what it holds. -/
theorem forall_mem_observations {Q : VarKey × Observation → Prop} (position : Nat)
    (spanKey : SpanKey) (key : VarKey) (v : Value) :
    (∀ p ∈ v.observations position spanKey key, Q p) ↔ Q (key, ⟨position, v, spanKey⟩) ∧
      ForHeld (fun i x => ∀ p ∈ x.observations position spanKey (.inner key i), Q p) 0 v.held := by
  rw [Value.observations_eq, List.forall_mem_cons]
  refine and_congr_right fun _ => ?_
  generalize 0 = i
  induction v.held generalizing i with
  | nil => simp [observationsOfHeld, ForHeld]
  | cons items held ih =>
    rw [observationsOfHeld, ForHeld, List.forall_mem_append, ih]
    simp only [List.forall_mem_flatMap]

theorem depth_le_of_mem {x : Value} {xs : List Value} (hx : x ∈ xs) :
    x.depth ≤ Value.depthOfAll xs := by
  induction xs with
  | nil => cases hx
  | cons y ys ih =>
    rw [Value.depthOfAll]
    rcases List.mem_cons.1 hx with rfl | hx
    · exact Nat.le_max_left _ _
    · exact Nat.le_trans (ih hx) (Nat.le_max_right _ _)

/-- What a value holds is less deep than the value. -/
theorem depth_lt_of_mem_held {v x : Value} {items : List Value} (hitems : items ∈ v.held)
    (hx : x ∈ items) : x.depth < v.depth := by
  rcases Value.Holds.cases ⟨items, hitems, hx⟩ with ⟨k, t, xs, rfl, hmem⟩ | ⟨t, rfl | rfl | rfl⟩
  · exact Nat.lt_succ_of_le (depth_le_of_mem hmem)
  all_goals exact Nat.lt_succ_self _

/-- A value inhabits the tree for a key exactly if each record for the value has the type at the
head of the tree for the key of the record. -/
theorem inhabits_iff_observations (trees : String → TypeTree) (position : Nat) (spanKey : SpanKey)
    (key : VarKey) {v : Value} (hv : v.isData = true) :
    (key.tree trees).Inhabits call v ↔ ∀ p ∈ v.observations position spanKey key,
      (p.2.value.types standing).contains (p.1.tree trees).head = true := by
  -- on the depth of the value, since what it holds need not be a part that recursion can name
  induction hn : v.depth using Nat.strongRecOn generalizing v key with
  | ind n ih =>
    rw [inhabits_iff hv, forall_mem_observations]
    refine and_congr_right fun _ => forHeld_congr (fun i items hitems x hx => ?_) 0
    exact ih x.depth (hn ▸ depth_lt_of_mem_held hitems hx) (.inner key i)
      (Value.isData_of_mem_held hv hitems hx) rfl

/-! ## Trees from types in common -/

/-- The types of data of no shape are leaves. -/
theorem isLeaf_of_mem_types {v : Value} {t : NamedType} (hv : v.isData = true)
    (hshape : v.shape? = none) (ht : t ∈ v.types standing) : t.IsLeaf := by
  have harity := Value.arity_of_mem_types hv hshape ht
  rcases Value.mem_types ht with ⟨u, hu, -, rfl⟩ | ⟨-, rfl⟩
  · exact .standing hu harity
  · exact .nominal _

/-- Types in common, key by key, make up a tree for all data up to some depth. -/
theorem exists_tree (call : Apply) (common : VarKey → NamedType) (depth : Nat) (key : VarKey) :
    ∃ T : TypeTree, ∀ v : Value, v.isData = true → v.depth < depth → ∀ position spanKey,
      (∀ p ∈ v.observations position spanKey key,
        (p.2.value.types standing).contains (common p.1) = true) → T.Inhabits call v := by
  induction depth generalizing key with
  | zero => exact ⟨default, fun v _ hv => absurd hv (Nat.not_lt_zero _)⟩
  | succ depth ih =>
    -- trees for what values of the key hold, one for each parameter
    obtain ⟨T, hT⟩ := Classical.axiomOfChoice fun i => ih (.inner key i)
    -- the type in common for the key is that of a leaf, or else that of a shape
    by_cases hleaf : ∃ t : NamedType, t.IsLeaf ∧ (common key == t) = true
    · obtain ⟨t, ht, hsame⟩ := hleaf
      refine ⟨.leaf t ht, ?_⟩
      intro v hv _ position spanKey h
      rw [forall_mem_observations] at h
      have hcontains := (contains_congr hsame).1 h.1
      exact ⟨shape_of_contains_leaf ht hcontains, (contains_describe_iff v t).2 hcontains⟩
    -- a value of no shape has a leaf for a type, so only values of the one shape are left
    have hshape : ∀ v : Value, v.isData = true → (v.types standing).contains (common key) = true →
        ∃ u, v.shape? = some u ∧ (common key == u.named) = true := by
      intro v hv h
      obtain ⟨t, ht, hsame⟩ := List.contains_iff_exists_mem_beq.1 h
      rcases hv' : v.shape? with _ | u
      · exact absurd ⟨t, isLeaf_of_mem_types hv hv' ht, hsame⟩ hleaf
      · rw [Value.types_of_shape hv'] at ht
        cases List.mem_singleton.1 ht
        exact ⟨u, rfl, hsame⟩
    refine ⟨if common key == StandardType.array.named then .array (T 0)
      else if common key == StandardType.maybe.named then .maybe (T 0)
      else .either (T 0) (T 1), ?_⟩
    intro v hv hd position spanKey h
    rw [forall_mem_observations] at h
    obtain ⟨u, hu, hsame⟩ := hshape v hv h.1
    have hne : ∀ s : StandardType, s ≠ u → ¬(common key == s.named) = true := by
      intro s hs h
      have hnamed : (s.named == u.named) = true := BEq.trans (BEq.symm h) hsame
      exact hs (StandardType.named_beq_named.1 hnamed)
    have hbelow : ∀ i, ∀ items ∈ v.held, ∀ x ∈ items,
        (∀ p ∈ x.observations position spanKey (.inner key i),
          (p.2.value.types standing).contains (common p.1) = true) → (T i).Inhabits call x := by
      intro i items hitems x hx
      have hdepth := depth_lt_of_mem_held hitems hx
      exact hT i x (Value.isData_of_mem_held hv hitems hx)
        (Nat.lt_of_lt_of_le hdepth (Nat.le_of_lt_succ hd)) _ _
    cases v with
    | seq k t xs =>
      cases hu
      rw [if_pos hsame]
      intro x hx
      have hheld : xs ∈ (Value.seq k t xs).held := by simp [Value.held]
      exact hbelow 0 xs hheld x hx (h.2.1 x hx)
    | nothing =>
      cases hu
      rw [if_neg (hne .array (by decide)), if_pos hsame]
      trivial
    | just t x =>
      cases hu
      rw [if_neg (hne .array (by decide)), if_pos hsame]
      exact hbelow 0 [x] (by simp [Value.held]) x (by simp) (h.2.1 x (by simp))
    | left t x =>
      cases hu
      rw [if_neg (hne .array (by decide)), if_neg (hne .maybe (by decide))]
      exact hbelow 0 [x] (by simp [Value.held]) x (by simp) (h.2.1 x (by simp))
    | right t x =>
      cases hu
      rw [if_neg (hne .array (by decide)), if_neg (hne .maybe (by decide))]
      exact hbelow 1 [x] (by simp [Value.held]) x (by simp) (h.2.2.1 x (by simp))
    | _ => cases hu

/-! ## Checks and trees -/

section Checks

variable {signature : Signature}

/-- A variable takes the values of its tree that satisfy its type classes. -/
def Signature.Assigns (call : Apply) (signature : Signature) (trees : String → TypeTree)
    (name : String) (v : Value) : Prop :=
  (trees name).Inhabits call v ∧ signature.Admits call name v

mutual

/-- A value fits under two conditions on the values of variables exactly if it fits under the one
and what the variables meet satisfies the other. -/
theorem fits_and_iff {P Q : String → Value → Prop} : ∀ (e : TypeExpr) (key : SpanKey) (v : Value),
    e.Fits call (fun name v => P name v ∧ Q name v) v ↔
      e.Fits call Q v ∧ ∀ m ∈ e.meetings key v, P m.name m.value
  | .var name args, key, v => by
    simp [TypeExpr.Fits, TypeExpr.meetings, and_comm]
  | .fn params result, key, v => by
    simp [TypeExpr.Fits, TypeExpr.meetings]
  | .concrete t args, key, v => by
    rw [TypeExpr.Fits, TypeExpr.Fits, TypeExpr.meetings, fitAll_and_iff args key 0 v.held, and_assoc]
  | .foreign, key, v => by
    simp [TypeExpr.Fits]

theorem fitAll_and_iff {P Q : String → Value → Prop} :
    ∀ (args : List TypeExpr) (key : SpanKey) (i : Nat) (held : List (List Value)),
      TypeExpr.FitAll call (fun name v => P name v ∧ Q name v) args held ↔
        TypeExpr.FitAll call Q args held ∧
          ∀ m ∈ TypeExpr.meetingsOfAll key i args held, P m.name m.value
  | arg :: args, key, i, items :: rest => by
    simp only [TypeExpr.FitAll, TypeExpr.meetingsOfAll, List.forall_mem_append,
      List.forall_mem_flatMap, fits_and_iff arg (key ++ [i]), fitAll_and_iff args key (i + 1) rest,
      forall_and]
    exact and_and_and_comm
  | [], _, _, _ => by simp [TypeExpr.FitAll, TypeExpr.meetingsOfAll]
  | _ :: _, _, _, [] => by simp [TypeExpr.FitAll, TypeExpr.meetingsOfAll]

end

mutual

/-- What passes from a value to what it holds passes to all values that variables meet in it. -/
theorem forall_meetings {R : Value → Prop}
    (hR : ∀ v, R v → ∀ items ∈ v.held, ∀ x ∈ items, R x) :
    ∀ (e : TypeExpr) (key : SpanKey) (v : Value), R v → ∀ m ∈ e.meetings key v, R m.value
  | .var name args, key, v, hv, m, hm => by
    cases List.mem_singleton.1 hm
    exact hv
  | .concrete t args, key, v, hv, m, hm => by
    rw [TypeExpr.meetings] at hm
    exact forall_meetingsOfAll hR args key 0 v.held (hR v hv) m hm
  | .fn params result, key, v, hv, m, hm => by cases hm
  | .foreign, key, v, hv, m, hm => by cases hm

theorem forall_meetingsOfAll {R : Value → Prop}
    (hR : ∀ v, R v → ∀ items ∈ v.held, ∀ x ∈ items, R x) :
    ∀ (args : List TypeExpr) (key : SpanKey) (i : Nat) (held : List (List Value)),
      (∀ items ∈ held, ∀ x ∈ items, R x) →
        ∀ m ∈ TypeExpr.meetingsOfAll key i args held, R m.value
  | arg :: args, key, i, items :: rest, hheld, m, hm => by
    rw [TypeExpr.meetingsOfAll, List.mem_append, List.mem_flatMap] at hm
    rw [List.forall_mem_cons] at hheld
    rcases hm with ⟨x, hx, hm⟩ | hm
    · exact forall_meetings hR arg (key ++ [i]) x (hheld.1 x hx) m hm
    · exact forall_meetingsOfAll hR args key (i + 1) rest hheld.2 m hm
  | [], _, _, _, _, m, hm => by simp [TypeExpr.meetingsOfAll] at hm
  | _ :: _, _, _, [], _, m, hm => by simp [TypeExpr.meetingsOfAll] at hm

end

/-- A condition on the records for the arguments is one on the records for each meeting. -/
theorem forall_mem_signature_observations {Q : VarKey × Observation → Prop} (index : Nat)
    (args : List Value) :
    (∀ p ∈ signature.observations index args, Q p) ↔ ∀ i v, args[i]? = some v →
      ∀ m ∈ (signature.typeAt (index + i)).meetings [signature.slotFor (index + i)] v,
        ∀ p ∈ m.observations (index + i + 1), Q p := by
  induction args generalizing index with
  | nil => simp [Signature.observations]
  | cons v args ih =>
    rw [Signature.observations, List.forall_mem_append, List.forall_mem_flatMap, ih]
    exact (forall_getElem?_cons (fun i v => ∀ m ∈ (signature.typeAt i).meetings
      [signature.slotFor i] v, ∀ p ∈ m.observations (i + 1), Q p) index v args).symm

/-- The records for the arguments have types in common exactly if there are trees for what the
variables meet. -/
theorem exists_common_iff_exists_trees (call : Apply) {args : List Value}
    (hdata : ∀ v ∈ args, v.isData = true) :
    (∃ common : VarKey → NamedType, ∀ p ∈ signature.observations 0 args,
        (p.2.value.types standing).contains (common p.1) = true) ↔
      ∃ trees : String → TypeTree, ∀ i v, args[i]? = some v →
        ∀ m ∈ (signature.typeAt i).meetings [signature.slotFor i] v,
          (trees m.name).Inhabits call m.value := by
  have hmet : ∀ i v, args[i]? = some v →
      ∀ m ∈ (signature.typeAt i).meetings [signature.slotFor i] v,
        m.value.isData = true ∧ m.value.depth < Value.depthOfAll args + 1 := by
    intro i v hv m hm
    have hmem := List.mem_of_getElem? hv
    refine forall_meetings (R := fun x => x.isData = true ∧ x.depth < Value.depthOfAll args + 1)
      (fun x hx items hitems y hy => ⟨Value.isData_of_mem_held hx.1 hitems hy,
        Nat.lt_trans (depth_lt_of_mem_held hitems hy) hx.2⟩) _ _ v ⟨hdata v hmem, ?_⟩ m hm
    exact Nat.lt_succ_of_le (depth_le_of_mem hmem)
  simp only [forall_mem_signature_observations, Nat.zero_add]
  constructor
  -- trees deep enough for every argument
  · rintro ⟨common, h⟩
    obtain ⟨trees, htrees⟩ := Classical.axiomOfChoice fun name =>
      exists_tree call common (Value.depthOfAll args + 1) (.named name)
    refine ⟨trees, ?_⟩
    intro i v hv m hm
    obtain ⟨hmdata, hdepth⟩ := hmet i v hv m hm
    exact htrees m.name m.value hmdata hdepth (i + 1) m.key (h i v hv m hm)
  -- the heads of the trees are types in common
  · rintro ⟨trees, h⟩
    refine ⟨fun key => (key.tree trees).head, ?_⟩
    intro i v hv m hm
    exact (inhabits_iff_observations trees (i + 1) m.key (.named m.name) (hmet i v hv m hm).1).1
      (h i v hv m hm)

/-- Data passes a check exactly if the number of arguments fits and there are trees for the
variables under which each argument fits its slot: each value that a variable meets inhabits the
tree of the variable and satisfies its type classes. -/
theorem passed_iff_trees {args : List Value} {r : CheckResult} {w w' : World}
    (hplain : ∀ slot ∈ signature.slots, slot.type.IsPlain call)
    (hdata : ∀ v ∈ args, v.isData = true)
    (h : (check call .standard signature args).outcome w = (.ok r, w')) :
    (∃ bindings, r = .passed bindings) ↔
      signature.accepts args.length = true ∧ ∃ trees : String → TypeTree, ∀ i v, args[i]? = some v →
        (signature.typeAt i).Fits call (signature.Assigns call trees) v := by
  rw [passed_iff_demands hplain hdata h, CheckState.exists_recordAll_iff,
    exists_common_iff_exists_trees call hdata]
  refine and_congr_right fun _ => ?_
  -- an argument fits its slot under an assignment if it fits without one and the trees take what
  -- the variables meet in it
  have hassigns : ∀ trees i v, (signature.typeAt i).Fits call (signature.Assigns call trees) v ↔
      (signature.typeAt i).Fits call (signature.Admits call) v ∧
        ∀ m ∈ (signature.typeAt i).meetings [signature.slotFor i] v,
          (trees m.name).Inhabits call m.value := by
    intro trees i v
    exact fits_and_iff _ _ v
  simp only [hassigns]
  constructor
  · rintro ⟨hfits, trees, htrees⟩
    exact ⟨trees, fun i v hv => ⟨hfits i v hv, htrees i v hv⟩⟩
  · rintro ⟨trees, hboth⟩
    exact ⟨fun i v hv => (hboth i v hv).1, trees, fun i v hv => (hboth i v hv).2⟩

/-- The signature of a function of a value and an array of such values, all with an equality. -/
def elementOf : Signature :=
  ⟨"elem", [⟨"Setoid", "a"⟩], [⟨.var "a" [], false⟩,
    ⟨.concrete StandardType.array.named [.var "a" []], false⟩],
    .concrete StandardType.boolean.named []⟩

theorem exists_trees_elementOf : ∃ trees : String → TypeTree, ∀ i v,
    [Value.str "x", .list [.str "y", .str "z"]][i]? = some v →
      (elementOf.typeAt i).Fits applyFunction (elementOf.Assigns applyFunction trees) v := by
  have hpassed : ∃ w, (check applyFunction .standard elementOf
      [.str "x", .list [.str "y", .str "z"]]).outcome .initial =
        (.ok (.passed [("a", StandardType.string.named)]), w) := ⟨_, rfl⟩
  obtain ⟨w, hpassed⟩ := hpassed
  refine ((passed_iff_trees ?_ (by simp [Value.isData, Value.areData, Value.str, Value.list])
    hpassed).1 ⟨_, rfl⟩).2
  intro slot hslot
  simp only [elementOf, List.mem_cons, List.not_mem_nil, or_false] at hslot
  rcases hslot with rfl | rfl
  · rfl
  · exact .inr ⟨⟨.array, rfl, rfl, rfl⟩, rfl, trivial⟩

end Checks

end CheckedCalls
