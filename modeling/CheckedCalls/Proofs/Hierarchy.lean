import CheckedCalls.Evaluate
import CheckedCalls.Proofs.Membership

/-!
# The hierarchy of type classes

A type class names its superclasses, and each member of it should be a member of them. By the class
of a value this is so because an ancestry has with each base the ancestors of that base
(`Ancestry.Closed`, kept by `Class.declare`), and because an interface requires the methods of those
that it descends from. By the rules it is so as well, with one exception: the type class of the
order does not look at what a variant holds, and its superclass does (`satisfies_superclass_iff`).
-/

namespace CheckedCalls

variable {call : Apply} {ls : Ancestry} {b : Base} {i j : Interface}

/-! ## Ancestries -/

namespace Ancestry

/-- With a base, the bases that it descends from are in the ancestry too. -/
def Closed (ls : Ancestry) : Prop :=
  ∀ b, ls.derives b = true → ∀ c ∈ b.parents, ls.derives c = true

theorem derives_iff : ls.derives b = true ↔ .base b ∈ ls := by
  rw [derives, List.any_eq_true]
  constructor
  · rintro ⟨l, hl, hb⟩
    cases l with
    | base c =>
      rw [Layer.isBase, beq_iff_eq] at hb
      rwa [hb]
    | declared t ms => cases hb
  · intro h
    exact ⟨_, h, by simp [Layer.isBase]⟩

/-- The ancestry of a base holds the parents of every base in it. -/
theorem mem_ancestry_of_mem_parents (b : Base) :
    ∀ c ∈ b.ancestry, ∀ d ∈ c.parents, d ∈ b.ancestry := by
  cases b with
  | interface i => cases i <;> decide
  | _ => decide

/-- The layers of a base are closed under its parents. -/
theorem closed_ofBase (b : Base) : (ofBase b).Closed := by
  intro c hc d hd
  rw [derives_iff, ofBase] at hc ⊢
  have hmem := mem_ancestry_of_mem_parents b c (by simpa using hc) d hd
  exact List.mem_map_of_mem hmem

/-! ## Merging -/

/-- Dropping a head from a line removes that head only. -/
theorem mem_dropHead {l : Layer} {line : Ancestry} (h : .base b ∈ line) :
    l = .base b ∨ .base b ∈ dropHead l line := by
  cases line with
  | nil => cases h
  | cons first rest =>
    rw [dropHead]
    split
    · rename_i hsame
      rcases List.mem_cons.1 h with rfl | h
      · cases l with
        | base c =>
          rw [Layer.same, beq_iff_eq] at hsame
          exact .inl (congrArg _ hsame.symm)
        | declared t ms => cases hsame
      · exact .inr h
    · exact .inr h

/-- What is left of a line after a head is dropped was in the line. -/
theorem mem_of_mem_dropHead {l m : Layer} {line : Ancestry} (h : m ∈ dropHead l line) :
    m ∈ line := by
  cases line with
  | nil => exact h
  | cons first rest =>
    rw [dropHead] at h
    split at h
    · exact List.mem_cons_of_mem _ h
    · exact h

theorem mem_flatten_of_nextHead? {lines : List Ancestry} {l : Layer} (h : nextHead? lines = some l) :
    l ∈ lines.flatten := by
  obtain ⟨line, hline, hhead⟩ := List.mem_filterMap.1 (List.mem_of_find?_eq_some h)
  exact List.mem_flatten.2 ⟨line, hline, List.mem_of_head? hhead⟩

/-- A merged line has the bases of the lines that were merged. -/
theorem base_mem_merge {fuel : Nat} {lines : List Ancestry} (h : merge fuel lines = some ls) :
    .base b ∈ ls ↔ .base b ∈ lines.flatten := by
  have hnone : ∀ {lines : List Ancestry}, lines.isEmpty = true → ¬.base b ∈ lines.flatten := by
    intro lines h
    rw [List.isEmpty_iff.1 h]
    exact List.not_mem_nil
  induction fuel generalizing lines ls with
  | zero =>
    rw [merge] at h
    split at h
    · rename_i hempty
      cases h
      rw [← List.flatten_filter_not_isEmpty]
      exact iff_of_false List.not_mem_nil (hnone hempty)
    · cases h
  | succ fuel ih =>
    rw [merge] at h
    rw [← List.flatten_filter_not_isEmpty]
    split at h
    · rename_i hempty
      cases h
      exact iff_of_false List.not_mem_nil (hnone hempty)
    simp only [Option.bind_eq_bind, Option.bind_eq_some_iff, Option.pure_def, Option.some_inj] at h
    obtain ⟨l, hl, rest, hrest, rfl⟩ := h
    have hrest := ih hrest
    rw [← List.flatMap_def, List.mem_flatMap] at hrest
    constructor
    · intro hb
      rcases List.mem_cons.1 hb with rfl | hb
      · exact mem_flatten_of_nextHead? hl
      · obtain ⟨line, hline, hb⟩ := hrest.1 hb
        exact List.mem_flatten.2 ⟨line, hline, mem_of_mem_dropHead hb⟩
    · intro hb
      obtain ⟨line, hline, hb⟩ := List.mem_flatten.1 hb
      rcases mem_dropHead (l := l) hb with rfl | hb
      · exact List.mem_cons_self
      · exact List.mem_cons_of_mem _ (hrest.2 ⟨line, hline, hb⟩)

/-- A class has the bases that one of its lines has. -/
theorem base_mem_ofBases {bases : List Ancestry} (h : ofBases bases = some ls) :
    .base b ∈ ls ↔ ∃ line ∈ bases, .base b ∈ line := by
  rw [base_mem_merge h, List.flatten_append, List.mem_append, List.mem_flatten]
  refine or_iff_left_of_imp fun hb => ?_
  -- the order of the bases is a line of their heads
  rw [List.flatten_singleton] at hb
  obtain ⟨line, hline, hhead⟩ := List.mem_filterMap.1 hb
  exact ⟨line, hline, List.mem_of_head? hhead⟩

/-- A class built from closed lines is closed. -/
theorem closed_ofBases {bases : List Ancestry} (hbases : ∀ line ∈ bases, Closed line)
    (h : ofBases bases = some ls) : ls.Closed := by
  intro b hb c hc
  rw [derives_iff, base_mem_ofBases h] at hb ⊢
  obtain ⟨line, hline, hb⟩ := hb
  exact ⟨line, hline, derives_iff.1 (hbases line hline b (derives_iff.2 hb) c hc)⟩

theorem closed_declared_cons {t : Tag} {members : List (Attribute × Member)} (h : ls.Closed) :
    Closed (.declared t members :: ls) := h

end Ancestry

/-- A class that is declared from closed bases has a closed ancestry. -/
theorem Class.closed_declare {t : Tag} {name : String} {bases : List Ancestry}
    {members : List (Attribute × Member)} {legacy : Bool} {c : Class}
    (hbases : ∀ line ∈ bases, line.Closed) (h : declare t name bases members legacy = .ok c) :
    c.layers.Closed := by
  rw [declare] at h
  rcases hls : Ancestry.ofBases bases with _ | ls
  · rw [hls] at h
    cases h
  have hclosed : ∀ members, Ancestry.Closed (.declared t members :: ls) := fun _ =>
    Ancestry.closed_declared_cons (Ancestry.closed_ofBases hbases hls)
  rw [hls] at h
  cases legacy with
  | false =>
    cases h
    exact hclosed members
  | true =>
    rcases hbound : bindLegacy (.declared t members :: ls) members with f | members'
    · simp [hbound, bind, Except.bind] at h
    · simp [hbound, bind, Except.bind, pure, Except.pure] at h
      subst h
      exact hclosed members'

/-! ## Interfaces -/

namespace Interface

/-- The interfaces that the interface descends from directly. -/
def refined (i : Interface) : List Interface :=
  (Base.interface i).parents.filterMap fun b => match b with
    | .interface j => some j
    | _ => none

/-- An interface has the interfaces it refines among its parents. -/
theorem interface_mem_parents (h : j ∈ i.refined) :
    .interface j ∈ (Base.interface i).parents := by
  obtain ⟨b, hb, hj⟩ := List.mem_filterMap.1 h
  cases b with
  | interface k =>
    cases hj
    exact hb
  | _ => cases hj

theorem required_subset : ∀ j ∈ i.refined, j.required ⊆ i.required := by
  cases i <;> decide

theorem covers_typeClass (i : Interface) (ls : Ancestry) :
    i.typeClass.covers ls = ls.isMember i := by
  cases i <;> rfl

/-- The superclasses of a type class are those of the interfaces that its own descends from. -/
theorem superclasses_typeClass (i : Interface) :
    i.typeClass.superclasses = i.refined.map name := by
  cases i <;> rfl

end Interface

/-- A member of an interface is a member of those that the interface descends from. -/
theorem Ancestry.isMember_of_mem_refined (hls : ls.Closed) (hj : j ∈ i.refined)
    (h : ls.isMember i = true) : ls.isMember j = true := by
  rw [isMember, Bool.or_eq_true] at h ⊢
  rcases h with h | h
  · rw [provides, List.all_eq_true] at h ⊢
    exact .inl fun m hm => h m (Interface.required_subset j hj hm)
  · exact .inr (hls _ h _ (Interface.interface_mem_parents hj))

/-! ## Values of classes with closed ancestries -/

mutual

/-- The class of the value, and those of what a sequence holds, have closed ancestries. -/
def Value.Lineal : Value → Prop
  | .seq _ _ xs => Value.AreLineal xs
  | .object _ c _ => c.layers.Closed
  | _ => True

/-- All the values are lineal. -/
def Value.AreLineal : List Value → Prop
  | [] => True
  | x :: xs => Value.Lineal x ∧ Value.AreLineal xs

end

/-- The value is an instance of a class that descends from a variant and holds something without an
equality, or it is a sequence with such an instance in it. -/
inductive Value.HoldsUnequatable : Value → Prop
  | instance {t : Tag} {c : Class} {v : Value}
      (hc : (c.layers.derives .just || c.layers.derives .either) = true)
      (hv : v.isSetoid = false) : HoldsUnequatable (.object t c v)
  | element {k : SeqKind} {t : Tag} {xs : List Value} {x : Value} (hx : x ∈ xs)
      (h : HoldsUnequatable x) : HoldsUnequatable (.seq k t xs)

namespace Value

/-- An object holds what is no Setoid exactly if it is a Just or an Either around what is none. -/
theorem holdsUnequatable_object_iff {t : Tag} {c : Class} {v : Value} :
    (Value.object t c v).HoldsUnequatable ↔
      (c.layers.derives .just || c.layers.derives .either) = true ∧ v.isSetoid = false := by
  constructor
  · rintro (⟨hc, hv⟩ | -)
    exact ⟨hc, hv⟩
  · rintro ⟨hc, hv⟩
    exact .instance hc hv

/-- A sequence holds what is no Setoid exactly if some element does. -/
theorem holdsUnequatable_seq_iff {k : SeqKind} {t : Tag} {xs : List Value} :
    (Value.seq k t xs).HoldsUnequatable ↔ ∃ x ∈ xs, x.HoldsUnequatable := by
  constructor
  · rintro (- | ⟨hx, h⟩)
    exact ⟨_, hx, h⟩
  · rintro ⟨x, hx, h⟩
    exact .element hx h

mutual

/-- What has an order by the rule has an equality by the rule, unless it holds what has none. -/
theorem isSetoid_iff_of_isOrd : ∀ {v : Value}, v.Lineal → v.isOrd = true →
    (v.isSetoid = true ↔ ¬v.HoldsUnequatable)
  | .seq k t xs, hv, h => by
    rw [Lineal] at hv
    rw [isOrd] at h
    rw [isSetoid, holdsUnequatable_seq_iff, areSetoids_iff_of_areOrds hv h]
    simp
  | .object t c v, hv, h => by
    rw [isOrd] at h
    rw [isSetoid, holdsUnequatable_object_iff]
    have hmember : c.layers.isMember .setoid = true :=
      Ancestry.isMember_of_mem_refined hv (by decide) h
    by_cases hc : (c.layers.derives .just || c.layers.derives .either) = true
    · simp [hc]
    · simp [hc, hmember]
  | .bool _, _, _ | .number _ _, _, _ | .text _ _, _, _ | .date _ _, _, _ | .moment _ _, _, _ =>
    iff_of_true rfl nofun

/-- A list of Ord values is made of Setoids unless one of them holds what is no Setoid. -/
theorem areSetoids_iff_of_areOrds : ∀ {xs : List Value}, AreLineal xs → areOrds xs = true →
    (areSetoids xs = true ↔ ∀ x ∈ xs, ¬x.HoldsUnequatable)
  | [], _, _ => by simp [areSetoids]
  | x :: xs, hxs, h => by
    rw [AreLineal] at hxs
    rw [areOrds, Bool.and_eq_true] at h
    rw [areSetoids, Bool.and_eq_true, isSetoid_iff_of_isOrd hxs.1 h.1,
      areSetoids_iff_of_areOrds hxs.2 h.2, List.forall_mem_cons]

end

end Value

/-! ## Type classes and their superclasses -/

section Members

variable {v : Value}

theorem TypeRep.closed_layers_builtin (b : Builtin) : (TypeRep.builtin b).layers.Closed := by
  rw [layers]
  rcases b.base? with _ | base
  · exact nofun
  · exact Ancestry.closed_ofBase base

/-- The layers of the class of every value are closed. -/
theorem Value.Lineal.closed_layers (hv : v.Lineal) : v.layers.Closed := by
  cases v with
  | object t c x => exact hv
  | number t n => cases n <;> exact TypeRep.closed_layers_builtin _
  | seq k t xs => cases k <;> exact TypeRep.closed_layers_builtin _
  | _ => exact TypeRep.closed_layers_builtin _

/-- What an instance of a class made at run time holds as a variant. -/
theorem Value.variantContents?_object (t : Tag) (c : Class) (v : Value) :
    (Value.object t c v).variantContents? =
      if c.layers.derives .just || c.layers.derives .either then some [v]
      else if c.layers.derives .maybe then some [] else none := rfl

/-- A value of a class with an equality is a setoid exactly if it is one by the rule. -/
theorem admits_setoid_eq (h : ∀ t c x, v = .object t c x → c.layers.isMember .setoid = true) :
    Interface.setoid.typeClass.admits v = v.isSetoid := by
  cases v with
  | object t c x =>
    have hmember : c.layers.isMember .setoid = true := h t c x rfl
    have hcovers : Interface.setoid.typeClass.covers (Value.object t c x).layers = true := hmember
    rw [TypeClass.admits, Value.variantContents?_object, hcovers, Value.isSetoid, hmember]
    by_cases hheld : (c.layers.derives .just || c.layers.derives .either) = true
    · rw [if_pos hheld, if_pos hheld]
      exact Bool.and_true _
    · rw [if_neg hheld, if_neg hheld, Bool.or_true]
      by_cases hmaybe : c.layers.derives .maybe = true
      · rw [if_pos hmaybe]
        rfl
      · rw [if_neg hmaybe]
        rfl
  | number t n => cases n <;> rfl
  | seq k t xs => cases k <;> rfl
  | just t v | left t v | right t v => exact Bool.and_true _
  | type r =>
    rw [TypeClass.admits, Value.variantContents?_type, Value.layers_type]
    rfl
  | _ => rfl

/-- Of a value with an order, whether it is a setoid. -/
theorem admits_setoid_iff_of_ord (hv : v.Lineal) (h : Interface.ord.typeClass.admits v = true) :
    Interface.setoid.typeClass.admits v = true ↔ ¬v.HoldsUnequatable := by
  have hord := isOrd_of_admits h
  rw [admits_setoid_eq ?_]
  · exact Value.isSetoid_iff_of_isOrd hv hord
  · rintro t c x rfl
    exact Ancestry.isMember_of_mem_refined hv (by decide) hord

/-- A type class takes the members of another if its interface and its rules do. -/
theorem TypeClass.admits_of_forall {c d : TypeClass}
    (hcovers : c.covers v.layers = true → d.covers v.layers = true)
    (hbuiltin : ∀ x, c.builtin.holds x = true → d.builtin.holds x = true)
    (hcontents : ∀ x, c.contents.holds x = true → d.contents.holds x = true)
    (h : c.admits v = true) : d.admits v = true := by
  rw [admits] at h ⊢
  cases hheld : v.variantContents? with
  | none =>
    rw [hheld] at h
    dsimp only at h ⊢
    rw [Bool.or_eq_true] at h ⊢
    exact h.imp hcovers (hbuiltin v)
  | some held =>
    rw [hheld] at h
    dsimp only at h ⊢
    rw [Bool.and_eq_true, List.all_eq_true] at h ⊢
    exact ⟨hcovers h.1, fun x hx => hcontents x (h.2 x hx)⟩

theorem Rule.mappable_of_sequence (x : Value) (h : Rule.sequence.holds x = true) :
    Rule.mappable.holds x = true := by
  cases x with
  | seq => rfl
  | _ => cases h

theorem Rule.collection_of_sequence (x : Value) (h : Rule.sequence.holds x = true) :
    Rule.collection.holds x = true := by
  cases x with
  | seq => rfl
  | _ => cases h

/-- The rules of a type class are those of its superclasses or narrower ones, the order apart. -/
theorem Interface.holds_of_mem_refined (hi : i ≠ .ord) (hj : j ∈ i.refined) :
    (∀ x, i.typeClass.builtin.holds x = true → j.typeClass.builtin.holds x = true) ∧
      ∀ x, i.typeClass.contents.holds x = true → j.typeClass.contents.holds x = true := by
  cases i with
  | setoid | semigroup | functor | foldable => cases hj
  | ord => exact absurd rfl hi
  | monoid | applicative | chain =>
    cases List.mem_singleton.1 hj
    exact ⟨fun _ => id, fun _ => id⟩
  | apply | alt | extend =>
    cases List.mem_singleton.1 hj
    exact ⟨Rule.mappable_of_sequence, fun _ => id⟩
  | monad =>
    rcases List.mem_cons.1 hj with rfl | hj
    · exact ⟨fun _ => id, fun _ => id⟩
    · cases List.mem_singleton.1 hj
      exact ⟨fun _ => id, fun _ => id⟩
  | traversable =>
    rcases List.mem_cons.1 hj with rfl | hj
    · exact ⟨Rule.mappable_of_sequence, fun _ => id⟩
    · cases List.mem_singleton.1 hj
      exact ⟨Rule.collection_of_sequence, fun _ => id⟩

/-- A member of a type class is a member of its superclasses, unless the class is that of the order
and the value holds something that has no equality. -/
theorem admits_refined_iff (hv : v.Lineal) (hj : j ∈ i.refined)
    (h : i.typeClass.admits v = true) :
    j.typeClass.admits v = true ↔ ¬(i = .ord ∧ v.HoldsUnequatable) := by
  by_cases hi : i = .ord
  · subst hi
    cases List.mem_singleton.1 hj
    rw [admits_setoid_iff_of_ord hv h]
    simp
  · have hrules := Interface.holds_of_mem_refined hi hj
    have hcovers : i.typeClass.covers v.layers = true → j.typeClass.covers v.layers = true := by
      rw [Interface.covers_typeClass, Interface.covers_typeClass]
      exact Ancestry.isMember_of_mem_refined hv.closed_layers hj
    exact iff_of_true (TypeClass.admits_of_forall hcovers hrules.1 hrules.2 h) fun h => hi h.1

theorem Interface.name_eq_ord_iff : i.name = Interface.ord.name ↔ i = .ord := by
  cases i <;> decide

/-- A member of a type class of the library is a member of each of its superclasses, unless the
class is that of the order and the value holds something that has no equality. -/
theorem satisfies_superclass_iff {c : TypeClass} (hc : c ∈ Registry.standard) {d : String}
    (hd : d ∈ c.superclasses) (hv : v.Lineal) {w : World}
    (h : (Registry.standard.satisfies call c.name v).Answers w true) :
    (Registry.standard.satisfies call d v).Tells id w
      (¬(c.name = "Ord" ∧ v.HoldsUnequatable)) := by
  obtain ⟨i, -, rfl⟩ := List.mem_map.1 hc
  rw [Interface.superclasses_typeClass] at hd
  obtain ⟨j, hj, rfl⟩ := List.mem_map.1 hd
  have hname : i.typeClass.name = i.name := by cases i <;> rfl
  rw [hname, Registry.satisfies_name, Run.answers_pure_iff] at h
  rw [Registry.satisfies_name, hname]
  refine Run.tells_pure ?_
  rw [admits_refined_iff hv hj h]
  exact not_congr (and_congr_left' Interface.name_eq_ord_iff.symm)

end Members

/-- A class of optional values that adds an order of its own. -/
def ranked : Class :=
  .declared (.numbered 0) "Ranked"
    (.declared (.numbered 0) [(.method .lte, .body none (.method .lte))] :: Ancestry.ofBase .just)

/-- An instance of the class that holds the value. -/
def rankedAs (v : Value) : Value := .object (.numbered 1) ranked v

/-- A list of ranked values is a setoid, if what they hold is. -/
theorem satisfies_superclass_iff_ranked :
    (Registry.standard.satisfies applyFunction "Ord" (.list [rankedAs (.int 1)])).Answers
      .initial true ∧
    (Registry.standard.satisfies applyFunction "Setoid" (.list [rankedAs (.int 1)])).Tells id
      .initial (¬("Ord" = "Ord" ∧ (Value.list [rankedAs (.int 1)]).HoldsUnequatable)) := by
  have hord : (Registry.standard.satisfies applyFunction "Ord"
      (.list [rankedAs (.int 1)])).Answers .initial true := rfl
  have hdeclared : Class.declare (.numbered 0) "Ranked" [Ancestry.ofBase .just]
      [(.method .lte, .body none (.method .lte))] false = .ok ranked := rfl
  have hclosed : ranked.layers.Closed :=
    Class.closed_declare (List.forall_mem_singleton.2 (Ancestry.closed_ofBase .just)) hdeclared
  have hlineal : (Value.list [rankedAs (.int 1)]).Lineal := ⟨hclosed, trivial⟩
  have hmem : Interface.ord.typeClass ∈ Registry.standard := List.mem_map_of_mem (by decide)
  exact ⟨hord, satisfies_superclass_iff hmem List.mem_cons_self hlineal hord⟩

/-- A ranked function has an order and no equality. -/
theorem ranked_function_not_setoid :
    Class.declare (.numbered 0) "Ranked" [Ancestry.ofBase .just]
      [(.method .lte, .body none (.method .lte))] false = .ok ranked ∧
    (Registry.standard.satisfies applyFunction "Ord" (rankedAs (.function .echo))).Answers
      .initial true ∧
    (Registry.standard.satisfies applyFunction "Setoid" (rankedAs (.function .echo))).Answers
      .initial false :=
  ⟨rfl, rfl, rfl⟩

end CheckedCalls
