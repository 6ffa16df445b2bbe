import CheckedCalls.Proofs.Monoids

/-!
# Complaints of the operations

An operation that works on one kind of container complains of a value that is no member of its
interface. What it complains of by itself is told apart from what it only passes on (`Run.Relays`):
the complaint of a call that it makes, of a value that a composition holds, or of the keys of a
dictionary. For each operation there are two lemmas. The first says that it complains of what its
type class does not admit, the second that otherwise a complaint is passed on.
-/

namespace CheckedCalls

variable {α β : Type} {call : Apply} {w : World} {s : String} {i : Interface} {c : Fault}

/-! ## Failures that are passed on -/

/-- Some call fails for the cause. -/
def CallFails (call : Apply) (c : Fault) : Prop := ∃ g args w, (call g args).Fails w c

namespace Run

/-- The run fails for the cause only if some call does. -/
def Relays (call : Apply) (c : Fault) (r : Run α) : Prop := ∀ w, r.Fails w c → CallFails call c

/-- Two runs in sequence fail with a fault where the first does, or where it answers and the second
does. -/
theorem fails_bind_iff {r : Run α} {g : α → Run β} : (r >>= g).Fails w c ↔
    r.Fails w c ∨ ∃ a w', r.outcome w = (.ok a, w') ∧ (g a).Fails w' c := by
  rw [Fails, outcome_bind, Fails]
  rcases r.outcome w with ⟨e | a, w'⟩
  · simp
  · constructor
    · intro h
      exact .inr ⟨a, w', rfl, h⟩
    · rintro (h | ⟨a', v', h, hfails⟩)
      · cases h
      · cases h
        exact hfails

theorem relays_pure (a : α) : Relays call c (pure a) :=
  fun w h => absurd h (not_fails_pure a w c)

theorem relays_throw {f : Fault} (h : f ≠ c) : Relays call c (throw f : Run α) :=
  fun _ hf => absurd (fails_throw_iff.1 hf) h

/-- Runs in sequence pass a complaint on only from the calls they make. -/
theorem relays_bind {r : Run α} {g : α → Run β} (hr : Relays call c r)
    (hg : ∀ a, Relays call c (g a)) : Relays call c (r >>= g) := by
  intro w h
  rcases fails_bind_iff.1 h with h | ⟨a, w', -, h⟩
  · exact hr w h
  · exact hg a w' h

/-- A run through a list passes a complaint on only from the calls it makes. -/
theorem relays_mapM {g : α → Run β} (hg : ∀ a, Relays call c (g a)) (as : List α) :
    Relays call c (as.mapM g) := by
  induction as with
  | nil => exact relays_pure _
  | cons a as ih =>
    rw [List.mapM_cons]
    exact relays_bind (hg a) fun b => relays_bind ih fun bs => relays_pure _

/-- A fold passes a complaint on only from the calls it makes. -/
theorem relays_foldlM {g : β → α → Run β} (hg : ∀ b a, Relays call c (g b a)) (as : List α)
    (b : β) : Relays call c (as.foldlM g b) := by
  induction as generalizing b with
  | nil => exact relays_pure b
  | cons a as ih =>
    rw [List.foldlM_cons]
    exact relays_bind (hg b a) fun b' => ih b'

theorem relays_call (g : Value) (args : List Value) : Relays call c (call g args) :=
  fun w h => ⟨g, args, w, h⟩

end Run

open Run

/-! ## Complaints of bodies

None of the bodies that the library gives to methods complains that a value is no member of an
interface. -/

section Bodies

theorem relays_instantiate (d : Class) (v : Value) :
    Relays call (.notMember s i) (d.instantiate v : Run Value) :=
  fun w h => absurd h (not_fails_instantiate d v w s i)

/-- The payload of a value is read without a complaint about membership. -/
theorem relays_payload (v : Value) : Relays call (.notMember s i) (v.payload : Run Value) := by
  rw [Value.payload]
  split
  · exact relays_pure _
  · exact relays_throw nofun

/-- The elements of a value are read without a complaint about membership. -/
theorem relays_elements (v : Value) : Relays call (.notMember s i) v.elements := by
  cases v with
  | seq | dict | text | bytes => exact relays_pure _
  | _ => exact relays_throw nofun

/-- A value is rebuilt around another payload without a complaint about membership. -/
theorem relays_rebuild (v held : Value) : Relays call (.notMember s i) (v.rebuild held) := by
  cases v with
  | object t d x => exact relays_instantiate d held
  | just | left | right | identity => exact relays_pure _
  | _ => exact relays_throw nofun

/-- A function bound to its object complains of no more than what it calls does. -/
theorem relays_callBound (self g : Value) (args : List Value) :
    Relays call (.notMember s i) (self.callBound call g args) := by
  cases g with
  | func t f => exact relays_call _ _
  | _ => exact relays_call _ args

/-- A method that is asked of a value fails as its bodies do, or as a call. -/
theorem relays_invoke {body : Option Base → Run Value} (self : Value) (a : Attribute)
    (args : List Value) (hbody : ∀ b, Relays call (.notMember s i) (body b)) :
    Relays call (.notMember s i) (self.invoke call a args body) := by
  have hget : Relays call (.notMember s i) (get : Run World) := nofun
  rw [Value.invoke]
  refine relays_bind hget fun w => ?_
  split
  · exact relays_call _ _
  · split
    · exact hbody _
    · exact relays_pure _
    · exact relays_callBound _ _ _
    · exact relays_throw (by simp)

/-- Mapping over a member complains of membership only where the mapped function does. -/
theorem relays_mapBody (b : Option Base) (self v f : Value) :
    Relays call (.notMember s i) (mapBody call b self v f) := by
  rw [mapBody.eq_def]
  split
  · exact relays_bind (relays_call f [v]) fun x => relays_rebuild self x
  · exact relays_pure _
  · exact relays_pure _
  · exact relays_bind (relays_call f [v]) fun _ => relays_pure _

/-- Applying the functions held by a member complains of membership only where one of them does. -/
theorem relays_apBody (b : Option Base) (self v fs : Value) :
    Relays call (.notMember s i) (apBody call b self v fs) := by
  rw [apBody.eq_def]
  split
  · exact relays_bind (relays_payload fs) fun g =>
      relays_bind (relays_call g [v]) fun x => relays_rebuild self x
  · exact relays_pure _
  · exact relays_pure _
  · exact relays_bind (relays_payload fs) fun g =>
      relays_bind (relays_call g [v]) fun _ => relays_pure _
  · split
    · exact relays_bind (relays_call _ [v]) fun _ => relays_pure _
    · exact relays_pure _

/-- Chaining on a member complains of membership only where the chained function does. -/
theorem relays_chainBody (b : Option Base) (self v f : Value) :
    Relays call (.notMember s i) (chainBody call b self v f) := by
  rw [chainBody.eq_def]
  split
  · exact relays_pure _
  · exact relays_pure _
  · exact relays_call f [v]

/-- Folding a member complains of membership only where the folding function does. -/
theorem relays_reduceBody (b : Option Base) (v f initial : Value) :
    Relays call (.notMember s i) (reduceBody call b v f initial) := by
  rw [reduceBody.eq_def]
  split
  · exact relays_pure _
  · exact relays_pure _
  · exact relays_call f [initial, v]

/-- Extending a member complains of membership only where the extending function does. -/
theorem relays_extendBody (b : Option Base) (self f : Value) :
    Relays call (.notMember s i) (extendBody call b self f) := by
  rw [extendBody.eq_def]
  split
  · exact relays_bind (relays_call f [self]) fun x => relays_rebuild self x
  · exact relays_pure _
  · exact relays_pure _
  · exact relays_bind (relays_call f [self]) fun _ => relays_pure _

end Bodies

/-! ## What the registry admits -/

/-- Of an instance of a class made at run time, membership asks for the class alone: no rule admits
the instance, and whatever it holds passes. -/
def Interface.AsksClass (i : Interface) : Prop :=
  (∀ x, i.typeClass.contents.holds x = true) ∧
    ∀ t d x, i.typeClass.builtin.holds (.object t d x) = false

/-- An interface that asks for its own class admits an object exactly if a layer of its class is a
member. -/
theorem Interface.AsksClass.admits_object (hi : i.AsksClass) (t : Tag) (d : Class) (x : Value) :
    i.typeClass.admits (.object t d x) = d.layers.isMember i := by
  have hcovers : i.typeClass.covers (Value.object t d x).layers = d.layers.isMember i :=
    Interface.covers_typeClass i _
  rw [TypeClass.admits, hcovers, Value.variantContents?_object, hi.2]
  split
  · rename_i held hheld
    have hall : held.all i.typeClass.contents.holds = true := List.all_eq_true.2 fun y _ => hi.1 y
    rw [hall, Bool.and_true]
  · exact Bool.or_false _

/-- A type representative is a member only by a rule. -/
theorem admits_type (i : Interface) (r : TypeRep) :
    i.typeClass.admits (.type r) = i.typeClass.builtin.holds (.type r) := by
  rw [TypeClass.admits, Value.variantContents?_type, Value.layers_type, Interface.covers_typeClass]
  cases i <;> rfl

theorem asksClass_functor : Interface.functor.AsksClass := ⟨fun _ => rfl, fun _ _ _ => rfl⟩

theorem asksClass_chain : Interface.chain.AsksClass := ⟨fun _ => rfl, fun _ _ _ => rfl⟩

theorem asksClass_foldable : Interface.foldable.AsksClass := ⟨fun _ => rfl, fun _ _ _ => rfl⟩

theorem asksClass_traversable : Interface.traversable.AsksClass := ⟨fun _ => rfl, fun _ _ _ => rfl⟩

theorem asksClass_extend : Interface.extend.AsksClass := ⟨fun _ => rfl, fun _ _ _ => rfl⟩

/-! ## Mapping and applying -/

/-- What is no functor, and no type representative, is rejected. -/
theorem map_eq_notMember {x : Value} (h : Interface.functor.typeClass.admits x = false)
    (hclass : x.isClass = false) (f : Value) : map call f x = x.notMember .functor := by
  cases x with
  | object t d x =>
    rw [asksClass_functor.admits_object] at h
    cases d with
    | composed => cases h
    | declared u n ls =>
      rw [map]
      · exact if_neg (Bool.eq_false_iff.1 h)
      · exact nofun
  | seq k => cases k <;> cases h
  | dict | nothing | just | left | right | identity | func => cases h
  | type => cases hclass
  | _ => rfl

/-- Mapping over a functor, or over a type representative, complains as a call does, or as mapping
over what a composition holds. -/
theorem relays_map_of {f x : Value}
    (hx : i = .functor → Interface.functor.typeClass.admits x = true ∨ x.isClass = true)
    (hheld : ∀ t u n outer inner y, x = .object t (.composed u n outer inner) y →
      Relays call (.notMember s i) (map call (.function (.mapWith f)) y)) :
    Relays call (.notMember s i) (map call f x) := by
  have hrefused (hadmits : Interface.functor.typeClass.admits x = false)
      (hclass : x.isClass = false) : Relays call (.notMember s i) (x.notMember .functor) := by
    refine relays_throw fun hs => ?_
    rcases hx (Fault.notMember.inj hs).2.symm with h | h
    · rw [hadmits] at h
      cases h
    · rw [hclass] at h
      cases h
  cases x with
  | seq k t xs =>
    rw [map]
    exact relays_bind (relays_mapM (fun x => relays_call f [x]) xs) fun _ => relays_pure _
  | dict t es =>
    have hentry (e : Value × Value) :
        Relays call (.notMember s i) (do return (e.1, ← call f [e.2])) :=
      relays_bind (relays_call f [e.2]) fun _ => relays_pure _
    rw [map]
    exact relays_bind (relays_mapM hentry es) fun _ => relays_pure _
  | nothing | just | left | right | identity => exact relays_mapBody _ _ _ _
  | func | type => exact relays_pure _
  | object t d y =>
    cases d with
    | composed u n outer inner =>
      exact relays_bind (hheld t u n outer inner y rfl) fun _ => relays_pure _
    | declared u n ls =>
      rw [map]
      · by_cases hmember : (Class.declared u n ls).layers.isMember .functor = true
        · rw [if_pos hmember]
          exact relays_invoke _ _ _ fun b => relays_mapBody b _ _ _
        · rw [if_neg hmember]
          refine hrefused ?_ rfl
          rw [asksClass_functor.admits_object]
          exact Bool.eq_false_iff.2 hmember
      · exact nofun
  | number t n => cases n <;> exact hrefused rfl rfl
  | _ => exact hrefused rfl rfl

/-- Only functors are asked for where something is mapped. -/
theorem relays_map (hi : i ≠ .functor) (f x : Value) :
    Relays call (.notMember s i) (map call f x) := by
  refine relays_map_of (fun h => absurd h hi) ?_
  rintro t u n outer inner y rfl
  exact relays_map hi _ y
termination_by x

/-- Applying every function to every value complains of membership only where a function does. -/
theorem relays_applyEach (fs xs : List Value) :
    Relays call (.notMember s i) (applyEach call fs xs) :=
  relays_bind (relays_mapM (fun f => relays_mapM (fun x => relays_call f [x]) xs) fs)
    fun _ => relays_pure _

/-- Only functors and what functions can be applied to are asked for where functions are applied. -/
theorem relays_ap (hfunctor : i ≠ .functor) (happly : i ≠ .apply) (fs x : Value) :
    Relays call (.notMember s i) (ap call fs x) := by
  have hrefused (v : Value) : Relays call (.notMember s i) (v.notMember .apply) :=
    relays_throw fun hs => happly (Fault.notMember.inj hs).2.symm
  cases x with
  | seq k t xs =>
    rw [ap.eq_def]
    dsimp only
    split
    · exact relays_bind (relays_applyEach _ xs) fun _ => relays_pure _
    · exact hrefused _
  | nothing | just | left | right | identity =>
    rw [ap]
    exact relays_apBody _ _ _ _
  | object t d y =>
    cases d with
    | composed u n outer inner =>
      rw [ap]
      exact relays_bind (relays_payload fs) fun g =>
        relays_bind (relays_map hfunctor _ g) fun lifted =>
          relays_bind (relays_ap hfunctor happly lifted y) fun _ => relays_pure _
    | declared u n ls =>
      rw [ap]
      · split
        · exact relays_invoke _ _ _ fun b => relays_apBody b _ _ _
        · exact hrefused _
      · exact nofun
  | _ => exact hrefused _
termination_by x

/-! ## Chaining -/

/-- Chaining on what is no member of Chain is refused with a complaint about that very value. -/
theorem chain_eq_notMember {m : Value} (h : Interface.chain.typeClass.admits m = false)
    (f : Value) : chain call f m = m.notMember .chain := by
  cases m with
  | object t d x =>
    rw [asksClass_chain.admits_object] at h
    exact if_neg (Bool.eq_false_iff.1 h)
  | seq k => cases k <;> cases h
  | nothing | just | left | right | identity => cases h
  | _ => rfl

/-- Chaining on a member of Chain complains of membership only where the chained function does. -/
theorem relays_chain {m : Value} (h : Interface.chain.typeClass.admits m = true) (f : Value) :
    Relays call (.notMember s .chain) (chain call f m) := by
  cases m with
  | seq k t xs =>
    refine relays_bind (relays_mapM (fun x => ?_) xs) fun _ => relays_pure _
    exact relays_bind (relays_call f [x]) fun y => relays_elements y
  | nothing | just | left | right | identity => exact relays_chainBody _ _ _ _
  | object t d x =>
    rw [asksClass_chain.admits_object] at h
    rw [chain, if_pos h]
    exact relays_invoke _ _ _ fun b => relays_chainBody b _ _ _
  | type r =>
    rw [admits_type] at h
    cases h
  | number t n => cases n <;> cases h
  | _ => cases h

/-! ## Folding -/

/-- Folding what is no member of Foldable is refused with a complaint about that very value. -/
theorem reduce_eq_notMember {x : Value} (h : Interface.foldable.typeClass.admits x = false)
    (f initial : Value) : reduce call f initial x = x.notMember .foldable := by
  cases x with
  | object t d x =>
    rw [asksClass_foldable.admits_object] at h
    exact if_neg (Bool.eq_false_iff.1 h)
  | seq k => cases k <;> cases h
  | dict | nothing | just | left | right | identity => cases h
  | _ => rfl

theorem relays_foldList (f initial : Value) (xs : List Value) :
    Relays call c (foldList call f initial xs) :=
  relays_foldlM (fun acc x => relays_call f [acc, x]) xs initial

/-- Folding complains as a call does, or as the keys of a dictionary do where they are sorted. -/
theorem relays_reduce {x : Value} (h : Interface.foldable.typeClass.admits x = true)
    (hkeys : ∀ t es, x = .dict t es →
      Relays call (.notMember s .foldable) (Value.sortEntries call es)) (f initial : Value) :
    Relays call (.notMember s .foldable) (reduce call f initial x) := by
  cases x with
  | seq k t xs => exact relays_foldList f initial xs
  | dict t es => exact relays_bind (hkeys t es rfl) fun es => relays_foldList f initial _
  | nothing | just | left | right | identity => exact relays_reduceBody _ _ _ _
  | object t d x =>
    rw [asksClass_foldable.admits_object] at h
    rw [reduce, if_pos h]
    exact relays_invoke _ _ _ fun b => relays_reduceBody b _ _ _
  | type r =>
    rw [admits_type] at h
    cases h
  | number t n => cases n <;> cases h
  | _ => cases h

/-! ## Traversing -/

/-- Traversing what is no member of Traversable is refused with a complaint about that very
value. -/
theorem traverse_eq_notMember {x : Value} (h : Interface.traversable.typeClass.admits x = false)
    (lift f : Value) : traverse call lift f x = x.notMember .traversable := by
  cases x with
  | object t d x =>
    rw [asksClass_traversable.admits_object] at h
    exact if_neg (Bool.eq_false_iff.1 h)
  | seq k => cases k <;> cases h
  | nothing | just | left | right | identity => cases h
  | _ => rfl

theorem relays_traverseBody (hi : i ≠ .functor) (b : Option Base) (self v lift f : Value) :
    Relays call (.notMember s i) (traverseBody call b self v lift f) := by
  rw [traverseBody.eq_def]
  split
  · exact relays_bind (relays_call f [v]) fun x => relays_map hi _ x
  · exact relays_call lift [self]
  · exact relays_call lift [self]
  · exact relays_bind (relays_call f [v]) fun x => relays_map hi _ x

/-- Traversing a member complains of membership only where the lifting or the given function
does. -/
theorem relays_traverse {x : Value} (h : Interface.traversable.typeClass.admits x = true)
    (lift f : Value) : Relays call (.notMember s .traversable) (traverse call lift f x) := by
  have hbody := @relays_traverseBody call s .traversable (by decide)
  cases x with
  | seq k t xs =>
    refine relays_bind (relays_call lift _) fun start => relays_foldlM (fun acc y => ?_) xs start
    exact relays_bind (relays_map (by decide) _ acc) fun awaiting =>
      relays_bind (relays_call f [y]) fun z => relays_ap (by decide) (by decide) awaiting z
  | nothing | just | left | right | identity => exact hbody _ _ _ _ _
  | object t d x =>
    rw [asksClass_traversable.admits_object] at h
    rw [traverse, if_pos h]
    exact relays_invoke _ _ _ fun b => hbody b _ _ _ _
  | type r =>
    rw [admits_type] at h
    cases h
  | number t n => cases n <;> cases h
  | _ => cases h

/-! ## Extending -/

/-- Extending what is no member of Extend is refused with a complaint about that very value. -/
theorem extend_eq_notMember {x : Value} (h : Interface.extend.typeClass.admits x = false)
    (f : Value) : extend call f x = x.notMember .extend := by
  cases x with
  | object t d x =>
    rw [asksClass_extend.admits_object] at h
    exact if_neg (Bool.eq_false_iff.1 h)
  | seq k => cases k <;> cases h
  | nothing | just | left | right | identity => cases h
  | _ => rfl

/-- Extending a member of Extend complains of membership only where the extending function does. -/
theorem relays_extend {x : Value} (h : Interface.extend.typeClass.admits x = true) (f : Value) :
    Relays call (.notMember s .extend) (extend call f x) := by
  cases x with
  | seq k t xs =>
    exact relays_bind (relays_mapM (fun ys => relays_call f [Value.suffix k t xs.length ys]) _)
      fun _ => relays_pure _
  | nothing | just | left | right | identity => exact relays_extendBody _ _ _
  | object t d x =>
    rw [asksClass_extend.admits_object] at h
    rw [extend, if_pos h]
    exact relays_invoke _ _ _ fun b => relays_extendBody b _ _
  | type r =>
    rw [admits_type] at h
    cases h
  | number t n => cases n <;> cases h
  | _ => cases h

end CheckedCalls
