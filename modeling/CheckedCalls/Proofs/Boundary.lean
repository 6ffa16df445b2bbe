import CheckedCalls.Evaluate
import CheckedCalls.Proofs.Clash

/-!
# What a checked call lets through

Some combinators look for an operation by the kinds of their arguments, and their type classes are
there to make sure that it is found. They do so up to clashes: a call of data that passes its check
is refused by the operation itself exactly if it meets sequences of different kinds
(`checked_outcome`), since the types of a signature do not tell these apart.
-/

namespace CheckedCalls

open StandardType (standing)
open Checking Check

variable {call : Apply}

/-! ## Members of the type classes among data -/

/-- Data that belong to Semigroup can be joined. -/
theorem isSemigroup_of_admits {v : Value} (hv : v.isData = true)
    (h : Interface.semigroup.typeClass.admits v = true) : v.isSemigroup = true := by
  cases v with
  | text | seq | dict | nothing => rfl
  | just t v | left t v | right t v =>
    have hheld : [v].all Rule.semigroup.holds = true := h
    rw [List.all_cons, List.all_nil, Bool.and_true] at hheld
    exact hheld
  | error | plain | identity | type | object => cases hv
  | number t n => cases n <;> cases h
  | _ => cases h

theorem shape_of_admits_alt {v : Value} (hv : v.isData = true)
    (h : Interface.alt.typeClass.admits v = true) : ∃ t, v.shape? = some t := by
  cases v with
  | seq | nothing | just | left | right => exact ⟨_, rfl⟩
  | error | plain | identity | type | object => cases hv
  | number t n => cases n <;> cases h
  | _ => cases h

/-! ## What a passed check knows -/

section Passed

variable {signature : Signature} {args : List Value} {bindings : List (String × NamedType)}
variable {w w' : World}

theorem admits_of_mem {i : Interface} {name : String} {v : Value}
    (hmem : i.name ∈ signature.constraintsOn name) (h : signature.Admits call name v) :
    i.typeClass.admits v = true := by
  have hsatisfies := h i.name hmem
  rw [Registry.satisfies_name] at hsatisfies
  exact Except.ok.inj hsatisfies

/-- If every slot asks for one variable, a check that passes has found one type for all the
arguments, which satisfy the type classes of the variable. -/
theorem exists_tree_of_passed {name : String}
    (hslots : ∀ slot ∈ signature.slots, slot.type = .var name [])
    (hdata : ∀ v ∈ args, v.isData = true)
    (h : (check call .standard signature args).outcome w = (.ok (.passed bindings), w')) :
    signature.accepts args.length = true ∧
      ∃ T : TypeTree, ∀ v ∈ args, T.Inhabits call v ∧ signature.Admits call name v := by
  have hplain : ∀ slot ∈ signature.slots, slot.type.IsPlain call := by
    intro slot hslot
    rw [hslots slot hslot]
    rfl
  obtain ⟨harity, hfits, hseen⟩ := (passed_iff_demands hplain hdata h).1 ⟨_, rfl⟩
  obtain ⟨trees, htrees⟩ := (exists_common_iff_exists_trees call hdata).1
    (CheckState.exists_recordAll_iff.1 hseen)
  refine ⟨harity, trees name, ?_⟩
  intro v hv
  obtain ⟨i, hi, rfl⟩ := List.getElem_of_mem hv
  have hi' := List.getElem?_eq_getElem hi
  have htype : signature.typeAt i = .var name [] :=
    forall_typeAt (P := fun e => e = .var name []) hslots harity hi
  have hfit := hfits i _ hi'
  have hmet := htrees i _ hi'
  rw [htype] at hfit hmet
  exact ⟨hmet _ (List.mem_singleton_self _), hfit⟩

/-- A check of a variable, applied or not, makes sure of its type classes. -/
theorem ends_checkValue_admits (position : Nat) (e : TypeExpr) (key : SpanKey) (v : Value)
    (s : CheckState) :
    Ends (checkValue call .standard signature position e key v s)
      (fun _ => ∀ name targs, e = .var name targs → signature.Admits call name v)
      fun _ => True := by
  cases e with
  | var name targs =>
    rw [checkValue]
    refine ends_bind ((settles_satisfyAll name v position key _).mono (fun _ h => h.1)
      fun _ _ => trivial) fun s hadmits => ?_
    refine ends_of_forall (fun _ => ?_) fun _ => trivial
    rintro _ _ ⟨⟩
    exact hadmits
  | _ => exact ends_of_forall (fun _ name targs h => by cases h) fun _ => trivial

/-- If every slot asks for one variable, applied or not, a check that passes has found one type that
all the arguments have, and they satisfy the type classes of the variable. -/
theorem exists_common_of_passed {name : String}
    (hslots : ∀ slot ∈ signature.slots, ∃ targs, slot.type = .var name targs)
    (h : (check call .standard signature args).outcome w = (.ok (.passed bindings), w')) :
    signature.accepts args.length = true ∧ ∃ t : NamedType, ∀ v ∈ args,
      (v.types standing).contains t = true ∧ signature.Admits call name v := by
  rcases check_outcome_cases h with ⟨-, hr⟩ | ⟨harity, e, w'', hargs, hr⟩
  · cases hr
  cases e with
  | error v => cases hr
  | ok s =>
    have hend := congrArg Prod.fst hargs
    have hrecords : Ends (ExceptT.mk (checkArguments call
        ⟨standing.map StandardType.named, .standard⟩ signature 0 args .initial)) _ _ :=
      records_checkArguments 0 args .initial
    obtain ⟨⟨seen, hs⟩, hobserved⟩ := hrecords w (.ok s) hend
    have hadmits := ends_checkArguments_of 0 args .initial
      (fun i v s => ends_checkValue_admits (i + 1) (signature.typeAt i) _ v s) w (.ok s) hend
    have hfaithful : s.Faithful standing := CheckState.Faithful.initial.recordAll hs
    have hvar : ∀ v ∈ args, (∃ o ∈ s.observed (.named name), o.value = v) ∧
        signature.Admits call name v := by
      intro v hv
      obtain ⟨i, hi, rfl⟩ := List.getElem_of_mem hv
      have hi' := List.getElem?_eq_getElem hi
      obtain ⟨targs, htype⟩ := forall_typeAt (P := fun e => ∃ targs, e = .var name targs) hslots
        harity hi
      rw [← Nat.zero_add i] at htype
      exact ⟨hobserved i _ hi' name targs htype, hadmits i _ hi' name targs htype⟩
    obtain ⟨t, ht⟩ := hfaithful.exists_common (.named name)
    refine ⟨harity, t, fun v hv => ?_⟩
    obtain ⟨⟨o, ho, rfl⟩, hadmit⟩ := hvar v hv
    exact ⟨ht o ho, hadmit⟩

end Passed

/-! ## Refused calls -/

namespace Combinator

/-- The combinator compares its arguments. -/
def compares : Combinator → Bool
  | .lt | .lte | .gt | .gte | .min | .max | .minimum | .maximum => true
  | _ => false

/-- The combinator looks for an operation by the kinds of its arguments. -/
def isOverloaded : Combinator → Bool
  | .concat | .alt => true
  | k => k.compares

/-- The operation that the combinator looks for meets sequences of different kinds where it needs
sequences of one kind. -/
def Mismatch (call : Apply) (k : Combinator) (args : List Value) : Prop :=
  match k, args with
  | .lt, [x, y] | .lte, [x, y] | .gt, [x, y] | .gte, [x, y] | .min, [x, y] | .max, [x, y] =>
    x.comparable.Clash y.comparable
  | .minimum, x :: ys => ∃ before y after m, ys = before ++ y :: after ∧
      least call x before = pure m ∧ m.comparable.Clash y.comparable
  | .maximum, x :: ys => ∃ before y after m, ys = before ++ y :: after ∧
      greatest call x before = pure m ∧ m.comparable.Clash y.comparable
  | .concat, [x, y] => x.JoinClash y
  | .alt, [x, y] => x.KindClash y
  | _, _ => False

section Passed

variable {k : Combinator} {args : List Value} {bindings : List (String × NamedType)} {w w' : World}
variable {P : Value → Prop}

/-- An overloaded combinator of two parameters is called with two arguments. -/
theorem pair_of_accepts (hk : k.isOverloaded = true) (hvar : k.isVariadic = false)
    (harity : k.signature.accepts args.length = true) (hP : ∀ v ∈ args, P v) :
    ∃ x y, args = [x, y] ∧ P x ∧ P y := by
  have hlength : args.length = 2 := by
    cases k with
    | minimum | maximum => cases hvar
    | lt | lte | gt | gte | min | max | concat | alt => exact of_decide_eq_true harity
    | _ => cases hk
  match args, hlength with
  | [x, y], _ => exact ⟨x, y, rfl, by simpa using hP⟩

theorem row_of_accepts (harity : k.signature.accepts args.length = true) (hP : ∀ v ∈ args, P v) :
    ∃ x ys, args = x :: ys ∧ P x ∧ ∀ y ∈ ys, P y := by
  cases args with
  | nil => cases k <;> cases harity
  | cons x ys => exact ⟨x, ys, rfl, List.forall_mem_cons.1 hP⟩

/-- The slots of a combinator that compares or combines ask for one variable. -/
theorem slots_signature (hk : k.compares = true ∨ k = .concat) :
    ∀ slot ∈ k.signature.slots, slot.type = .var "a" [] := by
  have hslots : k.signature.slots = [⟨.var "a" [], false⟩, ⟨.var "a" [], k.isVariadic⟩] := by
    rcases hk with hk | rfl
    · cases k <;> first | rfl | cases hk
    · rfl
  rw [hslots]
  simp

/-- Arguments that are compared have an order and a type in common. -/
theorem ordered_of_passed (hk : k.compares = true) (hdata : ∀ v ∈ args, v.isData = true)
    (h : (check call .standard k.signature args).outcome w = (.ok (.passed bindings), w')) :
    k.signature.accepts args.length = true ∧
      ∃ T : TypeTree, ∀ v ∈ args, v.Ordered ∧ T.Inhabits call v := by
  have hord : Interface.ord.name ∈ k.signature.constraintsOn "a" := by
    cases k <;> first | exact List.mem_singleton_self _ | cases hk
  obtain ⟨harity, T, hT⟩ := exists_tree_of_passed (slots_signature (.inl hk)) hdata h
  refine ⟨harity, T, fun v hv => ⟨?_, (hT v hv).1⟩⟩
  have hv' := hdata v hv
  exact Value.ordered_of_isOrd v hv' (isOrd_of_admits (admits_of_mem hord (hT v hv).2))

/-- A call that passes its check is refused by its operation just where this meets sequences of
different kinds. -/
theorem refuses_run_iff (hk : k.isOverloaded = true) (hdata : ∀ v ∈ args, v.isData = true)
    (h : (check call .standard k.signature args).outcome w = (.ok (.passed bindings), w')) :
    (k.run call args).Refuses w' ↔ k.Mismatch call args := by
  -- the same for the eight that compare
  have hcompared : k.compares = true → k.signature.accepts args.length = true ∧
      ∃ T : TypeTree, ∀ v ∈ args, v.Ordered ∧ T.Inhabits call v := by
    intro hk
    exact ordered_of_passed hk hdata h
  cases k with
  | lt =>
    obtain ⟨harity, T, hT⟩ := hcompared rfl
    obtain ⟨x, y, rfl, hx, hy⟩ := pair_of_accepts rfl rfl harity hT
    exact Run.refuses_bind_pure.trans
      ((Value.refuses_isLte_iff hy hx w').trans Comparable.clash_comm)
  | lte =>
    obtain ⟨harity, T, hT⟩ := hcompared rfl
    obtain ⟨x, y, rfl, hx, hy⟩ := pair_of_accepts rfl rfl harity hT
    exact Value.refuses_lte_iff hx hy w'
  | gte =>
    obtain ⟨harity, T, hT⟩ := hcompared rfl
    obtain ⟨x, y, rfl, hx, hy⟩ := pair_of_accepts rfl rfl harity hT
    exact (Value.refuses_lte_iff hy hx w').trans Comparable.clash_comm
  | gt | min | max =>
    obtain ⟨harity, T, hT⟩ := hcompared rfl
    obtain ⟨x, y, rfl, hx, hy⟩ := pair_of_accepts rfl rfl harity hT
    exact Run.refuses_bind_pure.trans (Value.refuses_isLte_iff hx hy w')
  | minimum | maximum =>
    obtain ⟨harity, T, hT⟩ := hcompared rfl
    obtain ⟨x, ys, rfl, hx, hys⟩ := row_of_accepts harity hT
    exact Value.refuses_fold_iff (fun b x y => by cases b <;> simp) hx hys w'
  -- combining descends into variants, whose contents have a type in common as well
  | concat =>
    obtain ⟨harity, T, hT⟩ := exists_tree_of_passed (slots_signature (.inr rfl)) hdata h
    have hsemigroup : Interface.semigroup.name ∈ Combinator.concat.signature.constraintsOn "a" :=
      List.mem_singleton_self _
    obtain ⟨x, y, rfl, hx, hy⟩ := pair_of_accepts rfl rfl harity fun v hv => And.intro (hT v hv)
      (hdata v hv)
    exact Value.refuses_concat_iff w' T hx.2 hy.2
      (isSemigroup_of_admits hx.2 (admits_of_mem hsemigroup hx.1.2)) hx.1.1 hy.1.1
  -- choosing looks at the outermost shape only, which is all that an applied variable shares
  | alt =>
    have hslots : ∀ slot ∈ Combinator.alt.signature.slots, ∃ targs, slot.type = .var "f" targs := by
      have heq : Combinator.alt.signature.slots =
          [⟨.var "f" [.var "a" []], false⟩, ⟨.var "f" [.var "a" []], false⟩] := rfl
      rw [heq]
      simp
    have halt : Interface.alt.name ∈ Combinator.alt.signature.constraintsOn "f" :=
      List.mem_singleton_self _
    obtain ⟨harity, t, ht⟩ := exists_common_of_passed hslots h
    obtain ⟨x, y, rfl, hx, hy⟩ := pair_of_accepts rfl rfl harity fun v hv => And.intro (ht v hv)
      (hdata v hv)
    obtain ⟨u, hshape⟩ := shape_of_admits_alt hx.2 (admits_of_mem halt hx.1.2)
    have hsame := shape_of_common hshape (Value.isNative_of_isData hy.2) hx.1.1 hy.1.1
    exact Value.refuses_alt_iff hshape hsame w'
  | _ => cases hk

end Passed

/-- Arguments whose sequences are all of one kind, be it lists or tuples, are never refused. -/
theorem not_mismatch_of_hasOnly (call : Apply) (k : Combinator) {l : SeqKind} {args : List Value}
    (h : ∀ v ∈ args, v.hasOnly l = true) : ¬k.Mismatch call args := by
  cases k with
  | lt | lte | gt | gte | min | max =>
    rcases args with _ | ⟨x, _ | ⟨y, _ | _⟩⟩ <;> first
      | exact id
      | exact Value.not_clash_of_hasOnly x y (h x (by simp)) (h y (by simp))
  | minimum | maximum =>
    rcases args with _ | ⟨x, ys⟩
    · exact id
    rintro ⟨before, y, after, m, rfl, hm, hclash⟩
    -- what was kept so far is an argument itself
    have hmem : m ∈ x :: before := Value.ensures_fold_mem (fun b x y => by cases b <;> simp) x before
      .initial m (congrArg Run.result hm)
    refine Value.not_clash_of_hasOnly m y (h m ?_) (h y (by simp)) hclash
    exact List.mem_append_left (y :: after) hmem
  | concat =>
    rcases args with _ | ⟨x, _ | ⟨y, _ | _⟩⟩ <;> first
      | exact id
      | exact Value.not_joinClash_of_hasOnly x y (h x (by simp)) (h y (by simp))
  | alt =>
    rcases args with _ | ⟨x, _ | ⟨y, _ | _⟩⟩ <;> first
      | exact id
      | exact Value.not_kindClash_of_hasOnly (h x (by simp)) (h y (by simp))
  | _ => exact id

/-- A checked call of data ends as its check does, unless the check passes. Then it is the call
itself, and the operation refuses it just where it meets sequences of different kinds. -/
theorem checked_outcome (call : Apply) {k : Combinator} {args : List Value}
    (hk : k.isOverloaded = true) (hdata : ∀ v ∈ args, v.isData = true) (w : World) :
    match (check call .standard k.signature args).outcome w with
    | (.error f, w') => (k.checked call args).outcome w = (.error f, w')
    | (.ok (.violated v), w') => (k.checked call args).outcome w = (.error (.violation v), w')
    | (.ok (.passed _), w') => (k.checked call args).outcome w = (k.run call args).outcome w' ∧
        ((k.run call args).Refuses w' ↔ k.Mismatch call args) := by
  rw [checked, enforce, Run.outcome_bind]
  rcases h : (check call .standard k.signature args).outcome w with ⟨f | bindings | v, w'⟩
  · rfl
  · exact ⟨rfl, refuses_run_iff hk hdata h⟩
  · rfl

/-- A list and a tuple pass the check of a comparison and are then refused. -/
theorem lt_list_tuple_refused :
    ∃ w, (Combinator.lt.checked applyFunction [.list [.int 1], .tuple [.int 2]]).outcome .initial =
      (.error (.notComparable "tuple" "list"), w) :=
  ⟨_, rfl⟩

theorem checked_outcome_lt_list_tuple : ∃ w,
    (Combinator.lt.checked applyFunction [.list [.int 1], .tuple [.int 2]]).outcome .initial =
        (Combinator.lt.run applyFunction [.list [.int 1], .tuple [.int 2]]).outcome w ∧
      ((Combinator.lt.run applyFunction [.list [.int 1], .tuple [.int 2]]).Refuses w ↔
        Combinator.lt.Mismatch applyFunction [.list [.int 1], .tuple [.int 2]]) := by
  have hpassed : ∃ w, (check applyFunction .standard Combinator.lt.signature
      [.list [.int 1], .tuple [.int 2]]).outcome .initial =
        (.ok (.passed [("a", StandardType.array.named)]), w) := ⟨_, rfl⟩
  obtain ⟨w, hpassed⟩ := hpassed
  have hdata : ∀ v ∈ [Value.list [.int 1], .tuple [.int 2]], v.isData = true := by
    simp [Value.isData, Value.areData, Value.int, Value.list, Value.tuple]
  have h := checked_outcome applyFunction (k := .lt) rfl hdata .initial
  rw [hpassed] at h
  exact ⟨w, h⟩

end Combinator

end CheckedCalls
