import CheckedCalls.Algebra.Semigroup
import CheckedCalls.Proofs.Hierarchy

/-!
# Monoids and their identity elements

Whether a value is a monoid is asked of the value, and its identity element is asked of its class.
The rule behind the type class is that of the semigroups, so an instance that only combines passes
as a monoid, although its class is none. `satisfies_monoid_empty` says that nothing else does.
-/

namespace CheckedCalls

variable {α β : Type} {call : Apply} {w : World} {f : Fault} {v : Value} {r : TypeRep}

namespace Run

/-- The run fails in the world for the cause. -/
def Fails (r : Run α) (w : World) (f : Fault) : Prop := (r.outcome w).1 = .error f

theorem not_fails_pure (a : α) (w : World) (f : Fault) : ¬(pure a : Run α).Fails w f := nofun

theorem fails_throw_iff {e : Fault} : (throw e : Run α).Fails w f ↔ e = f := by
  show (Except.error e : Except Fault α) = .error f ↔ e = f
  simp

/-- Past a run that answers, a sequence fails as its second run does. -/
theorem Answers.bind_fails_iff {r : Run α} {g : α → Run β} {a : α} (h : r.Answers w a) :
    (r >>= g).Fails w f ↔ (g a).Fails w f := by
  rw [Fails, outcome_bind, h]
  exact Iff.rfl

end Run

/-! ## Methods of classes -/

namespace Value

/-- The method is bound to a value in the world: to one that was assigned to the object itself, or
else to one that its class or an ancestor binds. -/
def Binds (v : Value) (m : Method) (w : World) (g : Value) : Prop :=
  w.assigned? v.tag (.method m) = some g ∨
    w.assigned? v.tag (.method m) = none ∧ v.scope.find (.method m) = some (.data g)

/-- The method is bound to nothing in the world. -/
def Misses (v : Value) (m : Method) (w : World) : Prop :=
  w.assigned? v.tag (.method m) = none ∧ v.scope.find (.method m) = none

/-- Looking for a method tells whether the value misses it. -/
theorem tells_hasMethod (v : Value) (m : Method) (w : World) :
    (v.hasMethod m).Tells id w (¬v.Misses m w) := by
  have hanswer : (v.hasMethod m).Answers w
      ((w.assigned? v.tag (.method m)).isSome || (v.scope.find (.method m)).isSome) := rfl
  refine ⟨_, hanswer, ?_⟩
  rw [Misses]
  cases w.assigned? v.tag (.method m) <;> cases v.scope.find (.method m) <;> simp

/-- A class calls what it binds without a receiver. -/
theorem callBound_type (call : Apply) (r : TypeRep) (g : Value) (args : List Value) :
    (Value.type r).callBound call g args = call g args := by
  cases g with
  | func t f => simp [callBound, isClass]
  | _ => rfl

/-- Where a class has the method, asking it of the class fails as the call of what the method is
bound to does, unless a body of the library fails. -/
theorem fails_invoke_type_iff {m : Method} {args : List Value} {body : Option Base → Run Value}
    (hbody : ∀ b, ¬(body b).Fails w f) (hm : ¬(Value.type r).Misses m w) :
    ((Value.type r).invoke call (.method m) args body).Fails w f ↔
      ∃ g, (Value.type r).Binds m w g ∧ (call g args).Fails w f := by
  have hget : (MonadState.get : Run World).Answers w w := rfl
  rw [invoke, hget.bind_fails_iff]
  rcases hassigned : w.assigned? (Value.type r).tag (.method m) with _ | g
  · rcases hfind : (Value.type r).scope.find (.method m) with _ | ⟨b, a⟩ | _ | g
    · exact absurd ⟨hassigned, hfind⟩ hm
    · simpa [Binds, hassigned, hfind] using hbody b
    · simpa [Binds, hassigned, hfind] using Run.not_fails_pure Value.null w f
    · simp [Binds, hassigned, hfind, callBound_type]
  · simp [Binds, hassigned]

end Value

/-! ## Identity elements -/

/-- A class that makes no instances says so in other words. -/
theorem not_fails_instantiate (c : Class) (v : Value) (w : World) (s : String) (i : Interface) :
    ¬(c.instantiate v : Run Value).Fails w (.notMember s i) := by
  rw [Class.instantiate]
  split
  · rw [Run.fails_throw_iff]
    exact nofun
  · exact Run.not_fails_pure _ w _

theorem not_fails_emptyBody (b : Option Base) (c : Option Class) (w : World) (s : String) :
    ¬(emptyBody b c).Fails w (.notMember s .monoid) := by
  cases b with
  | some b => exact Run.not_fails_pure _ w _
  | none =>
    cases c with
    | none => exact Run.not_fails_pure _ w _
    | some c => exact not_fails_instantiate c _ w s .monoid

/-- The built-in classes whose values are joined, and so have an identity element. -/
def TypeRep.isJoinable : TypeRep → Bool
  | .builtin .str | .builtin .list | .builtin .tuple | .builtin .dict => true
  | _ => false

/-- The complaint about a class without an identity element calls it by its name. -/
theorem fails_complaint_iff {s : String} :
    (do let _ ← (Value.type r).hashKey call
        throw (.notMember (← (Value.type r).givenName call) .monoid) : Run Value).Fails w
      (.notMember s .monoid) ↔ r.name = s := by
  have hkey : ∃ key, ((Value.type r).hashKey call).Answers w key := by
    cases r <;> (rw [Value.hashKey]; exact ⟨_, rfl⟩)
  obtain ⟨key, hkey⟩ := hkey
  have hname : ((Value.type r).givenName call).Answers w r.name := rfl
  rw [hkey.bind_fails_iff, hname.bind_fails_iff, Run.fails_throw_iff]
  simp

/-- A class is said to be no monoid if it has no identity element, or by what its method is bound
to. -/
theorem fails_empty_type_iff {s : String} :
    (empty call (.type r)).Fails w (.notMember s .monoid) ↔
      (r.isJoinable = false ∧ (Value.type r).Misses .empty w ∧ r.name = s) ∨
        ∃ g, (Value.type r).Binds .empty w g ∧ (call g []).Fails w (.notMember s .monoid) := by
  obtain ⟨b, hb, hmisses⟩ := (Value.type r).tells_hasMethod .empty w
  unfold empty
  rw [hb.bind_fails_iff]
  cases b with
  | true =>
    have hm := hmisses.1 rfl
    rw [id, if_pos rfl, Value.fails_invoke_type_iff (fun b => not_fails_emptyBody b _ w s) hm]
    simp [hm]
  | false =>
    have hm : (Value.type r).Misses .empty w := by simpa using hmisses
    have hbinds : ¬∃ g, (Value.type r).Binds .empty w g ∧
        (call g []).Fails w (.notMember s .monoid) := by
      rintro ⟨g, hassigned | ⟨-, hfind⟩, -⟩
      · rw [hm.1] at hassigned
        cases hassigned
      · rw [hm.2] at hfind
        cases hfind
    rw [id, if_neg Bool.false_ne_true, or_iff_left hbinds, and_iff_right hm]
    split
    case h_5 hstr hlist htuple hdict =>
      have hjoin : r.isJoinable = false := by
        rw [TypeRep.isJoinable.eq_def]
        split
        · exact absurd rfl hstr
        · exact absurd rfl hlist
        · exact absurd rfl htuple
        · exact absurd rfl hdict
        · rfl
      rw [fails_complaint_iff, and_iff_right hjoin]
    all_goals
      rename_i hr
      cases hr
      exact iff_of_false (Run.not_fails_pure _ w _) (by simp [TypeRep.isJoinable])

/-! ## Members of the type class -/

/-- The value is an instance of a class that is no member of the monoids. -/
def Value.lacksEmpty : Value → Bool
  | .object _ c _ => !c.layers.isMember .monoid
  | _ => false

/-- Whoever is a member of an interface binds the methods that the interface declares. -/
theorem Ancestry.find_ne_none {ls : Ancestry} {i : Interface} {m : Method}
    (hrequired : m ∈ i.required) (hdeclared : m ∈ i.declared) (h : ls.isMember i = true) :
    ls.find (.method m) ≠ none := by
  rw [isMember, Bool.or_eq_true] at h
  rcases h with h | h
  · rw [provides, List.all_eq_true] at h
    intro hnone
    have hprovided := h m hrequired
    rw [hnone] at hprovided
    cases hprovided
  -- the interface itself declares the method
  · obtain ⟨l, hl, hbase⟩ := List.any_eq_true.1 h
    rw [find, Ne, List.findSome?_eq_none_iff]
    intro hnone
    cases l with
    | base b =>
      cases (beq_iff_eq.1 hbase : Base.interface i = b)
      have hfind : Layer.find (.method m) (.base (.interface i)) = some .abstract := by
        simp [Layer.find, Layer.findInBase, Base.methods, Base.abstractMethods, hdeclared]
      rw [hnone _ hl] at hfind
      cases hfind
    | declared t members => cases hbase

/-- A representative is a Monoid exactly if its class contains it. -/
theorem satisfiesRep_monoid (rep : Value) :
    Registry.standard.satisfiesRep "Monoid" rep =
      .ok (Interface.monoid.typeClass.containsRep rep) :=
  rfl

/-- A value that passes as a monoid is one of a class that is a monoid, or it is an instance of a
class that is none. -/
theorem containsRep_monoid (h : Interface.monoid.typeClass.admits v = true) :
    Interface.monoid.typeClass.containsRep (.type v.typeRep) = !v.lacksEmpty := by
  cases v with
  | object t c x =>
    have hcovers : Interface.monoid.typeClass.covers c.layers = c.layers.isMember .monoid := rfl
    have hreps : Interface.monoid.typeClass.reps.any
        (Value.type (.declared c)).identical = false := rfl
    show (Interface.monoid.typeClass.covers c.layers ||
      Interface.monoid.typeClass.reps.any (Value.type (.declared c)).identical) = _
    rw [hcovers, hreps, Bool.or_false, Value.lacksEmpty, Bool.not_not]
  | seq k t xs => cases k <;> rfl
  | number t n => cases n <;> cases h
  | text | dict | nothing | just => rfl
  | type r =>
    rw [TypeClass.admits, Value.variantContents?_type, Value.layers_type] at h
    cases h
  | _ => cases h

/-- Where the class of a monoid binds no identity element, the value is joined, or it is an instance
of a class that is no monoid. -/
theorem isJoinable_eq_false_iff (h : Interface.monoid.typeClass.admits v = true)
    (hm : (Value.type v.typeRep).Misses .empty w) :
    v.typeRep.isJoinable = false ↔ v.lacksEmpty = true := by
  cases v with
  | object t c x =>
    have hmember : c.layers.isMember .monoid = false :=
      Bool.eq_false_iff.2 fun hmember => Ancestry.find_ne_none (by decide) (by decide) hmember hm.2
    exact iff_of_true rfl (by rw [Value.lacksEmpty, hmember]; rfl)
  | seq k t xs => cases k <;> exact iff_of_false nofun nofun
  | number t n => cases n <;> cases h
  | text | dict => exact iff_of_false nofun nofun
  -- the base of the optional values has an identity element of its own
  | nothing | just => cases hm.2
  | type r =>
    rw [TypeClass.admits, Value.variantContents?_type, Value.layers_type] at h
    cases h
  | _ => cases h

/-- What passes as a monoid belongs to a class that is one, and has an identity element, unless it
is an instance of a class that is no monoid. Its class is then called no monoid if it binds no such
method, and in any other case only by what its method is bound to. -/
theorem satisfies_monoid_empty
    (h : (Registry.standard.satisfies call "Monoid" v).Answers w true) :
    Registry.standard.satisfiesRep "Monoid" (.type v.typeRep) = .ok (!v.lacksEmpty) ∧
      ∀ w s, (empty call (.type v.typeRep)).Fails w (.notMember s .monoid) ↔
        (v.lacksEmpty = true ∧ (Value.type v.typeRep).Misses .empty w ∧ v.typeName = s) ∨
          ∃ g, (Value.type v.typeRep).Binds .empty w g ∧
            (call g []).Fails w (.notMember s .monoid) := by
  have hname : "Monoid" = Interface.monoid.name := rfl
  rw [hname, Registry.satisfies_name, Run.answers_pure_iff] at h
  constructor
  · rw [satisfiesRep_monoid, containsRep_monoid h]
  · intro w s
    rw [fails_empty_type_iff]
    refine or_congr_left ?_
    constructor
    · rintro ⟨hjoin, hm, hs⟩
      exact ⟨(isJoinable_eq_false_iff h hm).1 hjoin, hm, hs⟩
    · rintro ⟨hlacks, hm, hs⟩
      exact ⟨(isJoinable_eq_false_iff h hm).2 hlacks, hm, hs⟩

theorem satisfies_monoid_empty_just :
    (Registry.standard.satisfies applyFunction "Monoid" (.just .fresh (.str ""))).Answers
      .initial true ∧
    Registry.standard.satisfiesRep "Monoid" (.type (.builtin .just)) = .ok true ∧
    ¬(empty applyFunction (.type (.builtin .just))).Fails .initial
      (.notMember "Just" .monoid) := by
  have hmonoid : (Registry.standard.satisfies applyFunction "Monoid"
      (.just .fresh (.str ""))).Answers .initial true := rfl
  obtain ⟨hrep, hempty⟩ := satisfies_monoid_empty hmonoid
  refine ⟨hmonoid, hrep, fun hfails => ?_⟩
  rcases (hempty .initial "Just").1 hfails with ⟨hlacks, -⟩ | ⟨g, hassigned | ⟨-, hfind⟩, -⟩
  · cases hlacks
  · cases hassigned
  · cases hfind

/-- A class whose instances combine, without an identity element. -/
def chunk : Class :=
  .declared (.numbered 0) "Chunk"
    [.declared (.numbered 0) [(.method .concat, .body none (.method .concat))]]

/-- An instance that only combines passes as a monoid, and its class is none. -/
theorem chunk_without_empty :
    Class.declare (.numbered 0) "Chunk" [] [(.method .concat, .body none (.method .concat))]
      false = .ok chunk ∧
    (Registry.standard.satisfies applyFunction "Monoid"
      (.object (.numbered 1) chunk (.str "x"))).Answers .initial true ∧
    Registry.standard.satisfiesRep "Monoid" (.type (.declared chunk)) = .ok false ∧
    (empty applyFunction (.type (.declared chunk))).Fails .initial (.notMember "Chunk" .monoid) :=
  ⟨rfl, rfl, rfl, rfl⟩

end CheckedCalls
