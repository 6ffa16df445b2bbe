import CheckedCalls.Proofs.Complaints

/-!
# Operations and the type classes they ask for

An operation that works on one kind of container asks what it is given for membership of an
interface, and the registry answers the same question about the type class of that interface. The
two agree (`registry_agrees`), except that type representatives can be mapped over, which are no
functors. Whether the operation rejects a value is a question about the class of the value; what it
complains of besides, it only passes on.
-/

namespace CheckedCalls

variable {call : Apply} {w : World} {s : String} {i : Interface} {c : Fault}

open Run

/-! ## The question and its two answers -/

/-- The class of the classes themselves. -/
def TypeRep.isMeta : TypeRep → Bool
  | .builtin .type | .builtin .interfaceType => true
  | _ => false

/-- The class of the functions. -/
def TypeRep.isFunction : TypeRep → Bool
  | .builtin .function => true
  | _ => false

theorem isMeta_typeRep (v : Value) : v.typeRep.isMeta = v.isClass := by
  cases v with
  | type r =>
    rw [Value.typeRep, TypeRep.metaclass]
    split <;> rfl
  | number t n => cases n <;> rfl
  | seq k => cases k <;> rfl
  | _ => rfl

namespace Operation

/-- With these arguments the operation asks the value for membership of the interface. -/
inductive AsksOf : Operation → List Value → Value → Interface → Prop
  | map (f x : Value) : AsksOf .map [f, x] x .functor
  | chain (f m : Value) : AsksOf .chain [f, m] m .chain
  | reduce (f initial x : Value) : AsksOf .reduce [f, initial, x] x .foldable
  | traverse (lift f x : Value) : AsksOf .traverse [lift, f, x] x .traversable
  | extend (f x : Value) : AsksOf .extend [f, x] x .extend

/-- The operation rejects the values of a class: whatever else it is given, and whatever calls mean,
it complains that they are no members of the interface. -/
def Rejects (o : Operation) (r : TypeRep) : Prop :=
  ∀ v, v.typeRep = r → ∀ args i, o.AsksOf args v i → ∀ call, o.run call args = v.notMember i

/-- The cause is one that the operation only passes on: that of a call, that of mapping over what a
composition holds, or that of sorting the keys of a dictionary. -/
def PassesOn (call : Apply) (o : Operation) (args : List Value) (c : Fault) : Prop :=
  CallFails call c ∨
    match o, args with
    | .map, [f, .object _ (.composed _ _ _ _) x] =>
      ∃ w, (CheckedCalls.map call (.function (.mapWith f)) x).Fails w c
    | .reduce, [_, _, .dict _ es] => ∃ w, (Value.sortEntries call es).Fails w c
    | _, _ => False

/-- The registry admits the value, or it is a type representative that is mapped over. -/
def Takes (o : Operation) (i : Interface) (v : Value) : Prop :=
  i.typeClass.admits v = true ∨ o = .map ∧ v.isClass = true

variable {o : Operation} {args : List Value} {u v : Value}

namespace AsksOf

theorem asksClass (h : o.AsksOf args v i) : i.AsksClass := by
  cases h with
  | map => exact asksClass_functor
  | chain => exact asksClass_chain
  | reduce => exact asksClass_foldable
  | traverse => exact asksClass_traversable
  | extend => exact asksClass_extend

/-- What the operation does not take it rejects. -/
theorem run_eq_notMember (h : o.AsksOf args v i) (hv : ¬o.Takes i v) (call : Apply) :
    o.run call args = v.notMember i := by
  rw [Takes, not_or, Bool.not_eq_true] at hv
  cases h with
  | map f => exact map_eq_notMember hv.1 (by simpa using hv.2) f
  | chain f => exact chain_eq_notMember hv.1 f
  | reduce f initial => exact reduce_eq_notMember hv.1 f initial
  | traverse lift f => exact traverse_eq_notMember hv.1 lift f
  | extend f => exact extend_eq_notMember hv.1 f

/-- Where the operation takes the value, a complaint is passed on. -/
theorem passesOn (h : o.AsksOf args v i) (hv : o.Takes i v)
    (hfails : (o.run call args).Fails w (.notMember s i)) :
    o.PassesOn call args (.notMember s i) := by
  by_cases hinside : o.PassesOn call args (.notMember s i)
  · exact hinside
  refine .inl ?_
  rw [Takes] at hv
  cases h with
  | map f =>
    refine relays_map_of (fun _ => hv.imp_right And.right) ?_ w hfails
    rintro t u n outer inner y rfl
    exact fun w h => absurd (.inr ⟨w, h⟩) hinside
  | chain f => exact relays_chain (by simpa using hv) f w hfails
  | reduce f initial =>
    refine relays_reduce (by simpa using hv) ?_ f initial w hfails
    rintro t es rfl
    exact fun w h => absurd (.inr ⟨w, h⟩) hinside
  | traverse lift f => exact relays_traverse (by simpa using hv) lift f w hfails
  | extend f => exact relays_extend (by simpa using hv) f w hfails

/-- Any other value can be asked the same. -/
theorem exists_asksOf (h : o.AsksOf args v i) (u : Value) : ∃ args, o.AsksOf args u i := by
  cases h with
  | map f => exact ⟨_, .map f u⟩
  | chain f => exact ⟨_, .chain f u⟩
  | reduce f initial => exact ⟨_, .reduce f initial u⟩
  | traverse lift f => exact ⟨_, .traverse lift f u⟩
  | extend f => exact ⟨_, .extend f u⟩

/-- The registry admits the values of the classes that it admits, and functions as functors. -/
theorem admits_eq (h : o.AsksOf args v i) : i.typeClass.admits v =
    (i.typeClass.containsRep (.type v.typeRep) || v.typeRep.isFunction && o == .map) := by
  cases v with
  | object t d x =>
    rw [h.asksClass.admits_object]
    have hreps : i.typeClass.reps.any (Value.type (.declared d)).identical = false := by
      cases h <;> rfl
    show _ = (i.typeClass.covers d.layers ||
      i.typeClass.reps.any (Value.type (.declared d)).identical || false)
    rw [hreps, Interface.covers_typeClass, Bool.or_false, Bool.or_false]
  | type r =>
    rw [admits_type, Value.typeRep, TypeRep.metaclass]
    split <;> cases h <;> rfl
  | number t n => cases n <;> cases h <;> rfl
  | seq k => cases k <;> cases h <;> rfl
  | _ => cases h <;> rfl

/-- Of the values of one class the operation takes all or none. -/
theorem takes_congr {args' : List Value} (h : o.AsksOf args v i) (h' : o.AsksOf args' u i)
    (hu : u.typeRep = v.typeRep) : o.Takes i u ↔ o.Takes i v := by
  rw [Takes, Takes, h.admits_eq, h'.admits_eq, hu, ← isMeta_typeRep, ← isMeta_typeRep, hu]

end AsksOf

/-! ## Rejection -/

/-- A value of the same class with nothing in it that could complain: an empty dictionary, or a
composition around an empty list. -/
def emptied : Value → Value
  | .dict t _ => .dict t []
  | .object t (.composed u n outer inner) _ => .object t (.composed u n outer inner) (.list [])
  | v => v

theorem typeRep_emptied (v : Value) : (emptied v).typeRep = v.typeRep := by
  cases v with
  | object t d x => cases d <;> rfl
  | _ => rfl

/-- Where no call complains, an emptied value leaves nothing to pass on. -/
theorem AsksOf.not_passesOn (h : o.AsksOf args u i) (hu : u = emptied v) :
    ¬o.PassesOn (fun _ _ => throw .tooDeep) args (.notMember s i) := by
  rintro (⟨g, as, w, hfails⟩ | hinside)
  · cases fails_throw_iff.1 hfails
  cases h with
  | map f =>
    subst hu
    cases v with
    | object t d x =>
      cases d with
      | composed =>
        obtain ⟨w, hfails⟩ := hinside
        exact not_fails_pure _ w _ hfails
      | declared => exact hinside
    | _ => exact hinside
  | reduce f initial =>
    subst hu
    cases v with
    | dict t es =>
      obtain ⟨w, hfails⟩ := hinside
      exact not_fails_pure _ w _ hfails
    | object t d x => cases d <;> exact hinside
    | _ => exact hinside
  | _ => exact hinside

/-- The values of a class are rejected exactly if they are not taken. -/
theorem AsksOf.not_rejects_iff (h : o.AsksOf args v i) : ¬o.Rejects v.typeRep ↔ o.Takes i v := by
  constructor
  · intro hrejects
    refine Classical.byContradiction fun htakes => hrejects ?_
    intro u hu args' j h' call
    obtain rfl : i = j := by cases h <;> cases h' <;> rfl
    refine h'.run_eq_notMember ?_ call
    rwa [h.takes_congr h' hu]
  · intro htakes hrejects
    obtain ⟨args', h'⟩ := h.exists_asksOf (emptied v)
    have htakes' := (h.takes_congr h' (typeRep_emptied v)).2 htakes
    have hfails : (o.run (fun _ _ => throw .tooDeep) args').Fails .initial
        (.notMember (emptied v).typeName i) := by
      rw [hrejects _ (typeRep_emptied v) args' i h']
      rfl
    exact h'.not_passesOn rfl (h'.passesOn htakes' hfails)

end Operation

/-! ## Type representatives -/

/-- A type representative that passes as a monoid is called none only by what its method is bound
to. -/
theorem fails_empty_of_containsRep {rep : Value}
    (h : Interface.monoid.typeClass.containsRep rep = true)
    (hfails : (empty call rep).Fails w (.notMember s .monoid)) :
    ∃ g, rep.Binds .empty w g ∧ (call g []).Fails w (.notMember s .monoid) := by
  cases rep with
  | type r =>
    refine (fails_empty_type_iff.1 hfails).resolve_left ?_
    rintro ⟨hjoin, hm, -⟩
    rcases Bool.or_eq_true_iff.1 h with hcovers | hreps
    · rw [Interface.covers_typeClass] at hcovers
      exact Ancestry.find_ne_none (by decide) (by decide) hcovers hm.2
    · cases r with
      | builtin b =>
        cases b with
        | str | list | tuple | dict => cases hjoin
        | _ => cases hreps
      | declared d => cases hreps
  | _ => cases h

/-- A class declared as an applicative is called none only by what its method is bound to. -/
theorem fails_of_declared {t : Tag} {n : String} {ls : Ancestry} {x : Value}
    (h : ls.isMember .applicative = true)
    (hfails : (of call (.type (.declared (.declared t n ls))) x).Fails w
      (.notMember s .applicative)) :
    ∃ g, (Value.type (.declared (.declared t n ls))).Binds .of w g ∧
      (call g [x]).Fails w (.notMember s .applicative) := by
  obtain ⟨b, hb, hmisses⟩ := (Value.type (.declared (.declared t n ls))).tells_hasMethod .of w
  rw [of, ofTypeRep, ofClass, hb.bind_fails_iff] at hfails
  have hm : ¬(Value.type (.declared (.declared t n ls))).Misses .of w :=
    fun hm => Ancestry.find_ne_none (by decide) (by decide) h hm.2
  rw [id, if_pos (hmisses.2 hm)] at hfails
  refine (Value.fails_invoke_type_iff (fun b => ?_) hm).1 hfails
  split
  · exact not_fails_pure _ w _
  · exact not_fails_pure _ w _
  · exact not_fails_pure _ w _
  · exact not_fails_instantiate _ x w s .applicative

/-- Lifting into a composition fails as lifting into its inner part does, or as lifting what that
answers into its outer part. -/
theorem fails_of_composed_iff {t : Tag} {n : String} {outer inner x : Value} :
    (of call (.type (.declared (.composed t n outer inner))) x).Fails w c ↔
      (of call inner x).Fails w c ∨
        ∃ y w', (of call inner x).outcome w = (.ok y, w') ∧ (of call outer y).Fails w' c := by
  rw [of, ofTypeRep, ofClass, fails_bind_iff]
  refine or_congr_right (exists₂_congr fun y w' => and_congr_right fun _ => ?_)
  rw [fails_bind_iff]
  exact or_iff_left fun ⟨z, v, _, h⟩ => not_fails_pure _ v c h

/-- A type representative that passes as an applicative is called none only by what its method is
bound to, or by a part of a composition. -/
theorem fails_of_of_containsRep {rep x : Value}
    (h : Interface.applicative.typeClass.containsRep rep = true)
    (hfails : (of call rep x).Fails w (.notMember s .applicative)) :
    (∃ g, rep.Binds .of w g ∧ (call g [x]).Fails w (.notMember s .applicative)) ∨
      ∃ t n outer inner, rep = .type (.declared (.composed t n outer inner)) ∧
        ((of call inner x).Fails w (.notMember s .applicative) ∨
          ∃ y w', (of call inner x).outcome w = (.ok y, w') ∧
            (of call outer y).Fails w' (.notMember s .applicative)) := by
  cases rep with
  | type r =>
    cases r with
    | builtin b =>
      cases b with
      | list | tuple | maybe | nothing | just | either | left | right | identity =>
        exact absurd hfails (not_fails_pure _ w _)
      | _ => cases h
    | declared d =>
      cases d with
      | composed t n outer inner =>
        exact .inr ⟨t, n, outer, inner, rfl, fails_of_composed_iff.1 hfails⟩
      | declared t n ls =>
        have hmember : Ancestry.isMember ls .applicative = true := by
          have hcovers : (Interface.applicative.typeClass.covers ls || false) = true := h
          rwa [Bool.or_false, Interface.covers_typeClass] at hcovers
        exact .inl (fails_of_declared hmember hfails)
  | _ => cases h

/-! ## Agreement -/

/-- The registry and the operations agree. A value is a member of the type class that an operation
asks for exactly if the operation does not reject the values of its class, type representatives that
are mapped over apart; and what is not rejected is complained of only in words that are passed on. A
type representative of the monoids is called none only by what its method for the identity element
is bound to, and one of the applicatives only by what its method for lifting is bound to or by a
part of a composition. -/
theorem registry_agrees (call : Apply) (w : World) :
    (∀ o args v i, Operation.AsksOf o args v i →
      (Registry.standard.satisfies call i.name v).Tells id w
          (¬o.Rejects v.typeRep ∧ ¬(o = .map ∧ v.isClass = true)) ∧
        ∀ s, ¬o.Rejects v.typeRep → (o.run call args).Fails w (.notMember s i) →
          o.PassesOn call args (.notMember s i)) ∧
    (∀ r, ¬Operation.map.Rejects (Value.type r).typeRep) ∧
    (∀ rep s, Registry.standard.satisfiesRep "Monoid" rep = .ok true →
      (empty call rep).Fails w (.notMember s .monoid) →
        ∃ g, rep.Binds .empty w g ∧ (call g []).Fails w (.notMember s .monoid)) ∧
    ∀ rep x s, Registry.standard.satisfiesRep "Applicative" rep = .ok true →
      (of call rep x).Fails w (.notMember s .applicative) →
        (∃ g, rep.Binds .of w g ∧ (call g [x]).Fails w (.notMember s .applicative)) ∨
          ∃ t n outer inner, rep = .type (.declared (.composed t n outer inner)) ∧
            ((of call inner x).Fails w (.notMember s .applicative) ∨
              ∃ y w', (of call inner x).outcome w = (.ok y, w') ∧
                (of call outer y).Fails w' (.notMember s .applicative)) := by
  refine ⟨fun o args v i h => ⟨?_, fun s hrejects hfails => ?_⟩, fun r => ?_, fun rep s h hfails => ?_,
    fun rep x s h hfails => ?_⟩
  · have hclass : o = .map ∧ v.isClass = true → i.typeClass.admits v = false := by
      rintro ⟨rfl, hclass⟩
      cases h
      cases v with
      | type r => exact admits_type .functor r
      | _ => cases hclass
    rw [Registry.satisfies_name, h.not_rejects_iff, Operation.Takes]
    refine tells_pure ⟨fun hv => ⟨.inl hv, fun hmap => ?_⟩, fun hv => hv.1.resolve_right hv.2⟩
    rw [hclass hmap] at hv
    cases hv
  · exact h.passesOn (h.not_rejects_iff.1 hrejects) hfails
  · exact (Operation.AsksOf.map .null (.type r)).not_rejects_iff.2 (.inr ⟨rfl, rfl⟩)
  · exact fails_empty_of_containsRep (Except.ok.inj h) hfails
  · exact fails_of_of_containsRep (Except.ok.inj h) hfails

/-- Lists of integers, as if the integers were an applicative. -/
def listsOfInt : Class :=
  .composed (.numbered 0) "Compose(list, int)" (.type (.builtin .list)) (.type (.builtin .int))

/-- A class whose instances combine, with the identity element of the integers, which have none. -/
def borrowing : Class :=
  .declared (.numbered 0) "Borrowing"
    [.declared (.numbered 0) [(.method .concat, .body none (.method .concat)),
      (.method .empty, .data (.function (.partial_ (.operation .empty)
        [.type (.builtin .int)])))]]

theorem registry_agrees_borrowed :
    (Registry.standard.satisfies applyFunction "Functor"
      (.object (.numbered 1) listsOfInt (.int 1))).Answers .initial true ∧
    (Operation.map.run applyFunction
      [.function .echo, .object (.numbered 1) listsOfInt (.int 1)]).Fails .initial
        (.notMember "int" .functor) ∧
    Operation.map.PassesOn applyFunction
      [.function .echo, .object (.numbered 1) listsOfInt (.int 1)] (.notMember "int" .functor) ∧
    (∃ g, (Value.type (.declared borrowing)).Binds .empty .initial g ∧
      (applyFunction g []).Fails .initial (.notMember "int" .monoid)) ∧
    ∃ outer inner, Value.type (.declared listsOfInt) =
        .type (.declared (.composed (.numbered 0) "Compose(list, int)" outer inner)) ∧
      (of applyFunction inner (.int 1)).Fails .initial (.notMember "int" .applicative) := by
  obtain ⟨hasks, -, hempty, hof⟩ := registry_agrees applyFunction .initial
  have hfunctor : (Registry.standard.satisfies applyFunction "Functor"
      (.object (.numbered 1) listsOfInt (.int 1))).Answers .initial true := rfl
  have hfails : (Operation.map.run applyFunction
      [.function .echo, .object (.numbered 1) listsOfInt (.int 1)]).Fails .initial
        (.notMember "int" .functor) := rfl
  obtain ⟨htells, hpassesOn⟩ := hasks _ _ _ _
    (.map (.function .echo) (.object (.numbered 1) listsOfInt (.int 1)))
  have hrejects := ((htells.answers_iff (by decide)).1 hfunctor).1
  refine ⟨hfunctor, hfails, hpassesOn _ hrejects hfails, ?_, ?_⟩
  · exact hempty (.type (.declared borrowing)) "int" rfl rfl
  · rcases hof (.type (.declared listsOfInt)) (.int 1) "int" rfl rfl with
      ⟨g, hassigned | ⟨-, hfind⟩, -⟩ | ⟨t, n, outer, inner, h, hinner | ⟨y, w, hy, -⟩⟩
    · cases hassigned
    · cases hfind
    · cases h
      exact ⟨_, _, rfl, hinner⟩
    · cases h
      cases hy

/-- A class may pass for a monoid or an applicative, and yet be called none: by what its method is
bound to, or by a part of a composition. -/
theorem members_called_none :
    (composeFunctors applyFunction (.numbered 0) (.type (.builtin .list))
      (.type (.builtin .int))).Answers .initial listsOfInt ∧
    Registry.standard.satisfiesRep "Applicative" (.type (.declared listsOfInt)) = .ok true ∧
    (of applyFunction (.type (.declared listsOfInt)) (.int 1)).Fails .initial
      (.notMember "int" .applicative) ∧
    Class.declare (.numbered 0) "Borrowing" []
      [(.method .concat, .body none (.method .concat)), (.method .empty, .data (.function
        (.partial_ (.operation .empty) [.type (.builtin .int)])))] false = .ok borrowing ∧
    Registry.standard.satisfiesRep "Monoid" (.type (.declared borrowing)) = .ok true ∧
    (empty applyFunction (.type (.declared borrowing))).Fails .initial (.notMember "int" .monoid) :=
  ⟨rfl, rfl, rfl, rfl, rfl, rfl⟩

end CheckedCalls
