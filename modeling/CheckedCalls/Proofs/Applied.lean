import CheckedCalls.Proofs.Reordering

/-!
# Applied variables

A variable that is applied to an argument, as in `f a`, unifies what its values hold for all
parameters but the last, and leaves the values of the last one to the argument. A variable without
an argument unifies the same values, all of them under keys of its own. So both record the same
values, under keys that are told apart in the same way (`map_rename_observations`), and a check of
slots `f a` goes as one of as many slots `b` does (`check_applied`).
-/

namespace CheckedCalls

open CheckState Checking Check
open StandardType (standing)

variable {call : Apply} {signature : Signature} {custom : Value → Value → List (List Value)}
variable {position : Nat} {spanKey : SpanKey} {v : Value}

/-! ## Renaming keys -/

section Renaming

variable {rename : VarKey → VarKey} {key key' : VarKey} {held : List (List Value)}

theorem map_rename_observationsOfHeld {i : Nat}
    (h : ∀ j, i ≤ j → j < i + held.length → ∀ items ∈ held, ∀ x ∈ items,
      x.observations position spanKey (.inner key' j) =
        (x.observations position spanKey (.inner key j)).map (Prod.map rename id)) :
    observationsOfHeld position spanKey key' i held =
      (observationsOfHeld position spanKey key i held).map (Prod.map rename id) := by
  induction held generalizing i with
  | nil => rfl
  | cons items held ih =>
    have hfirst : items.flatMap (Value.observations position spanKey (.inner key' i)) =
        (items.flatMap (Value.observations position spanKey (.inner key i))).map
          (Prod.map rename id) := by
      rw [List.map_flatMap]
      exact List.flatMap_congr fun x hx =>
        h i (Nat.le_refl i) (by simp) items List.mem_cons_self x hx
    have hrest : observationsOfHeld position spanKey key' (i + 1) held =
        (observationsOfHeld position spanKey key (i + 1) held).map (Prod.map rename id) := by
      refine ih fun j hij hj items hitems => ?_
      refine h j (by omega) ?_ items (List.mem_cons_of_mem _ hitems)
      rw [List.length_cons]
      omega
    rw [observationsOfHeld, observationsOfHeld, List.map_append, hfirst, hrest]

/-- Unifying a value with another key makes the same records under other keys, if the keys below are
renamed as the keys above them. -/
theorem map_rename_observations {P : VarKey → Prop}
    (hrename : ∀ key i, P key → rename (.inner key i) = .inner (rename key) i)
    (hinner : ∀ key i, P key → P (.inner key i)) (hkey : P key) :
    v.observations position spanKey (rename key) =
      (v.observations position spanKey key).map (Prod.map rename id) := by
  induction hn : v.depth using Nat.strongRecOn generalizing v key with
  | ind n ih =>
    have hheld : observationsOfHeld position spanKey (rename key) 0 v.held =
        (observationsOfHeld position spanKey key 0 v.held).map (Prod.map rename id) := by
      refine map_rename_observationsOfHeld fun j _ _ items hitems x hx => ?_
      rw [← hrename key j hkey]
      exact ih x.depth (hn ▸ depth_lt_of_mem_held hitems hx) (hinner key j hkey) rfl
    rw [Value.observations_eq, Value.observations_eq, List.map_cons, hheld]
    rfl

/-- What is held is recorded under keys of no variable. -/
theorem ne_named_of_mem_observationsOfHeld {name : String} {i : Nat}
    (h : ∀ items ∈ held, ∀ x ∈ items, ∀ j,
      ∀ p ∈ x.observations position spanKey (.inner key j), p.1 ≠ .named name) :
    ∀ p ∈ observationsOfHeld position spanKey key i held, p.1 ≠ .named name := by
  induction held generalizing i with
  | nil => exact fun p hp => by cases hp
  | cons items held ih =>
    rw [List.forall_mem_cons] at h
    rw [observationsOfHeld, List.forall_mem_append, List.forall_mem_flatMap]
    exact ⟨fun x hx => h.1 x hx i, ih h.2⟩

/-- Only a value itself is recorded under the key of a variable. -/
theorem ne_named_of_mem_observations {name : String} (hkey : key ≠ .named name) :
    ∀ p ∈ v.observations position spanKey key, p.1 ≠ .named name := by
  induction hn : v.depth using Nat.strongRecOn generalizing v key with
  | ind n ih =>
    rw [Value.observations_eq, List.forall_mem_cons]
    refine ⟨hkey, ne_named_of_mem_observationsOfHeld fun items hitems x hx j => ?_⟩
    exact ih x.depth (hn ▸ depth_lt_of_mem_held hitems hx) nofun rfl

end Renaming

/-- A renaming of the keys of records that can be made turns the others into records that can. -/
theorem CheckState.exists_recordAll_of_rename (rename : VarKey → VarKey)
    {seen seen' : List (VarKey × Observation)}
    (h : seen'.map sight = (seen.map sight).map (Prod.map rename id))
    (hseen' : ∃ s, CheckState.initial.recordAll standing seen' = some s) :
    ∃ s, CheckState.initial.recordAll standing seen = some s := by
  rw [exists_recordAll_iff_sights] at hseen' ⊢
  obtain ⟨common, hcommon⟩ := hseen'
  rw [h, List.forall_mem_map] at hcommon
  exact ⟨fun key => common (rename key), hcommon⟩

/-! ## What values hold for the last parameter -/

namespace Value

/-- What the value holds for all parameters but the last. -/
def heldFirst (v : Value) : List (List Value) := v.held.take (v.held.length - 1)

/-- What the value holds for the last parameter, in a list of its own if there is one. -/
def heldLast (v : Value) : List (List Value) := v.held.drop (v.held.length - 1)

/-- A value holds at most one last list of values. -/
theorem heldLast_cases (v : Value) : v.heldLast = [] ∨ ∃ items, v.heldLast = [items] := by
  have hlength : v.heldLast.length ≤ 1 := by
    rw [heldLast, List.length_drop]
    omega
  rcases hlast : v.heldLast with _ | ⟨items, _ | ⟨more, rest⟩⟩
  · exact .inl rfl
  · exact .inr ⟨items, rfl⟩
  · rw [hlast] at hlength
    simp at hlength

theorem unnamed_heldFor_one (v : Value) : unnamed 1 (v.heldFor 1) = v.heldFirst := by
  rw [heldFor, heldFirst, unnamed]
  split
  · rfl
  · have hnil : v.held = [] := List.length_eq_zero_iff.1 (by omega)
    rw [hnil]
    rfl

theorem trailing_heldFor_one (v : Value) : trailing 1 (v.heldFor 1) = v.heldLast := by
  rw [heldFor, heldLast, trailing]
  split
  · rfl
  · have hnil : v.held = [] := List.length_eq_zero_iff.1 (by omega)
    rw [hnil]
    rfl

theorem length_heldFirst (v : Value) : v.heldFirst.length = v.held.length - 1 := by
  rw [heldFirst, List.length_take]
  omega

/-- The records for a value under one key, for what it holds under the keys below, and for what it
holds for the last parameter under another. -/
def observationsApart (top last : VarKey) (v : Value) : List (VarKey × Observation) :=
  (top, ⟨0, v, []⟩) :: (observationsOfHeld 0 [] top 0 v.heldFirst ++
    v.heldLast.flatten.flatMap (observations 0 [] last))

theorem observations_eq_apart (key : VarKey) (v : Value) :
    v.observations 0 [] key = v.observationsApart key (.inner key (v.held.length - 1)) := by
  have hlast : observationsOfHeld 0 [] key (v.held.length - 1) v.heldLast =
      v.heldLast.flatten.flatMap (observations 0 [] (.inner key (v.held.length - 1))) := by
    rcases v.heldLast_cases with hnil | ⟨items, hitems⟩
    · rw [hnil]
      rfl
    · simp [hitems, observationsOfHeld]
  have hheld : observationsOfHeld 0 [] key 0 v.held =
      observationsOfHeld 0 [] key 0 (v.heldFirst ++ v.heldLast) := by
    rw [heldFirst, heldLast, List.take_append_drop]
  rw [observationsApart, observations_eq, hheld, observationsOfHeld_append, Nat.zero_add,
    length_heldFirst, hlast]

/-- The records for a value apart from what it holds for the last parameter can be renamed as those
for a value can. -/
theorem map_rename_observationsApart {rename : VarKey → VarKey} {P : VarKey → Prop}
    {top top' last last' : VarKey}
    (hrename : ∀ key i, P key → rename (.inner key i) = .inner (rename key) i)
    (hinner : ∀ key i, P key → P (.inner key i)) (htop : rename top = top')
    (hfirst : ∀ i < v.held.length - 1, P (.inner top i) ∧ rename (.inner top i) = .inner top' i)
    (hlast : P last ∧ rename last = last') :
    (v.observationsApart top last).map (Prod.map rename id) = v.observationsApart top' last' := by
  have hheldFirst : observationsOfHeld 0 [] top' 0 v.heldFirst =
      (observationsOfHeld 0 [] top 0 v.heldFirst).map (Prod.map rename id) := by
    refine map_rename_observationsOfHeld fun i _ hi items _ x _ => ?_
    rw [Nat.zero_add, length_heldFirst] at hi
    obtain ⟨hP, hkey⟩ := hfirst i hi
    rw [← hkey]
    exact map_rename_observations hrename hinner hP
  have hheldLast : v.heldLast.flatten.flatMap (observations 0 [] last') =
      (v.heldLast.flatten.flatMap (observations 0 [] last)).map (Prod.map rename id) := by
    rw [List.map_flatMap, ← hlast.2]
    exact List.flatMap_congr fun x _ => map_rename_observations hrename hinner hlast.1
  rw [observationsApart, observationsApart, hheldFirst, hheldLast, List.map_cons, List.map_append]
  exact congrArg (fun key => (key, _) :: _) htop

end Value

section Sights

variable {f a b : String}

/-- A variable records its values, and all that they hold under keys of its own. -/
theorem sights_var (b : String) (v : Value) :
    (TypeExpr.var b []).sights custom v = (v.observations 0 [] (.named b)).map sight := by
  have hunnamed : unnamed 0 (v.heldFor 0) = v.held := by rw [unnamed_zero, Value.heldFor_zero]
  simp only [TypeExpr.sights, TypeExpr.tour, TypeExpr.tourOfAll, List.flatMap_singleton,
    Visit.records, List.length_nil, hunnamed, Value.observations_eq]

/-- A variable applied to another leaves what its values hold for the last parameter to that. -/
theorem sights_applied (f a : String) (v : Value) :
    (TypeExpr.var f [.var a []]).sights custom v =
      (v.observationsApart (.named f) (.named a)).map sight := by
  have hfirst : Visit.records 0 ⟨.var f [.var a []], [], v⟩ = (.named f, ⟨0, v, []⟩) ::
      observationsOfHeld 0 [] (.named f) 0 v.heldFirst := by
    rw [← v.unnamed_heldFor_one]
    rfl
  have hrest : (TypeExpr.tourOfAll custom [] 0 [.var a []] v.heldLast).flatMap
      (fun visit => (visit.records 0).map sight) =
        (v.heldLast.flatten.flatMap (Value.observations 0 [] (.named a))).map sight := by
    rcases v.heldLast_cases with hnil | ⟨items, hitems⟩
    · rw [hnil]
      rfl
    · rw [hitems, TypeExpr.tourOfAll, tourOfAll_nil, List.append_nil, List.flatMap_assoc,
        List.flatten_singleton, List.map_flatMap]
      refine List.flatMap_congr fun x _ => ?_
      rw [← List.map_flatMap, TypeExpr.map_sight_tour, sights_var]
  rw [TypeExpr.sights, TypeExpr.tour, List.flatMap_cons, hfirst, List.length_singleton,
    v.trailing_heldFor_one, hrest, Value.observationsApart, List.map_cons, List.map_cons,
    List.map_append, List.cons_append]

/-! ## Two sets of keys -/

/-- The key under which a variable `b` records what a variable applied to `a` records under a key,
if `last` is the place of the last parameter. -/
def VarKey.unapplied (a b : String) (last : Nat) : VarKey → VarKey
  | .named name => if name = a then .inner (.named b) last else .named b
  | .inner key i => .inner (unapplied a b last key) i

/-- The key under which a variable `f` applied to `a` records what a variable `b` records under a
key, if `last` is the place of the last parameter. -/
def VarKey.applied (f a b : String) (last : Nat) : VarKey → VarKey
  | .named _ => .named f
  | .inner key i =>
    if key = .named b ∧ i = last then .named a else .inner (applied f a b last key) i

theorem map_sight_map_rename (rename : VarKey → VarKey) (seen : List (VarKey × Observation)) :
    (seen.map sight).map (Prod.map rename id) = (seen.map (Prod.map rename id)).map sight := by
  rw [List.map_map, List.map_map]
  rfl

/-- The records of a variable are those of one that is applied, with the keys renamed. -/
theorem map_unapplied_sights (hne : f ≠ a) (v : Value) :
    ((TypeExpr.var f [.var a []]).sights custom v).map
        (Prod.map (VarKey.unapplied a b (v.held.length - 1)) id) =
      (TypeExpr.var b []).sights custom v := by
  have hf : VarKey.unapplied a b (v.held.length - 1) (.named f) = .named b := if_neg hne
  rw [sights_applied, sights_var, Value.observations_eq_apart, map_sight_map_rename]
  refine congrArg _ (Value.map_rename_observationsApart (P := fun _ => True) (fun _ _ _ => rfl)
    (fun _ _ h => h) hf (fun i _ => ⟨trivial, ?_⟩) ⟨trivial, if_pos rfl⟩)
  rw [VarKey.unapplied, hf]

/-- The records of a variable that is applied are those of one that is not, with the keys
renamed. -/
theorem map_applied_sights (v : Value) :
    ((TypeExpr.var b []).sights custom v).map
        (Prod.map (VarKey.applied f a b (v.held.length - 1)) id) =
      (TypeExpr.var f [.var a []]).sights custom v := by
  rw [sights_applied, sights_var, Value.observations_eq_apart, map_sight_map_rename]
  refine congrArg _ (Value.map_rename_observationsApart (P := fun key => key ≠ .named b)
    (fun key i h => if_neg fun hkey => h hkey.1) (fun _ _ _ => nofun) rfl
    (fun i hi => ⟨nofun, if_neg fun hkey => absurd hkey.2 (Nat.ne_of_lt hi)⟩)
    ⟨nofun, if_pos ⟨rfl, rfl⟩⟩)

theorem filter_sight_cons {name : String} {rest : List (VarKey × Observation)}
    (h : ∀ p ∈ rest, p.1 ≠ .named name) :
    (((.named name, ⟨0, v, []⟩) :: rest).map sight).filter (·.1 = .named name) =
      [(.named name, v)] := by
  have hrest : (rest.map sight).filter (·.1 = .named name) = [] := by
    rw [List.filter_eq_nil_iff, List.forall_mem_map]
    exact fun p hp hkey => h p hp (of_decide_eq_true hkey)
  rw [List.map_cons, List.filter_cons, hrest]
  simp [sight]

/-- Under the key of a variable that is not applied only its values are recorded. -/
theorem filter_sights_var (b : String) (v : Value) :
    ((TypeExpr.var b []).sights custom v).filter (·.1 = .named b) = [(.named b, v)] := by
  rw [sights_var, Value.observations_eq]
  exact filter_sight_cons (ne_named_of_mem_observationsOfHeld fun _ _ _ _ _ =>
    ne_named_of_mem_observations nofun)

/-- Under the key of a variable that is applied to another only its values are recorded. -/
theorem filter_sights_applied (hne : f ≠ a) (v : Value) :
    ((TypeExpr.var f [.var a []]).sights custom v).filter (·.1 = .named f) = [(.named f, v)] := by
  have ha : VarKey.named a ≠ .named f := fun h => hne (VarKey.named.inj h).symm
  rw [sights_applied, Value.observationsApart]
  refine filter_sight_cons ?_
  rw [List.forall_mem_append, List.forall_mem_flatMap]
  exact ⟨ne_named_of_mem_observationsOfHeld fun _ _ _ _ _ => ne_named_of_mem_observations nofun,
    fun x _ => ne_named_of_mem_observations ha⟩

end Sights

/-! ## Checks of one type -/

section Checks

variable {args : List Value} {f a b : String}

/-- A signature without constraints and with some slots of one type. -/
def Signature.uniform (name : String) (e : TypeExpr) (count : Nat) (returns : TypeExpr) :
    Signature :=
  ⟨name, [], List.replicate count ⟨e, false⟩, returns⟩

/-- A check of native values against variables alone passes, if it ends, exactly if the values that
the slots record have types in common. -/
theorem exists_passed_uniform_iff (name : String) {e : TypeExpr} (returns : TypeExpr)
    (he : e.OfTypes (NamedType.Consistent call custom))
    (htakes : ∀ v, e.Takes call (.uniform name e args.length returns) custom v)
    (hargs : ∀ v ∈ args, v.isNative = true) :
    ∃ seen, seen.map sight = args.flatMap (e.sights custom) ∧
      ∀ r w, ((check call .standard (.uniform name e args.length returns) args).outcome w).1 =
        .ok r → ∀ bindings, r = .passed bindings ↔
          ∃ s, CheckState.initial.recordAll standing seen = some s ∧ bindings = s.bindings := by
  have hslots : ∀ slot ∈ (Signature.uniform name e args.length returns).slots,
      slot.variadic = false ∧ slot.type.OfTypes (NamedType.Consistent call custom) := by
    intro slot hslot
    rw [List.eq_of_mem_replicate hslot]
    exact ⟨rfl, he⟩
  have hlength : args.length = (Signature.uniform name e args.length returns).slots.length :=
    List.length_replicate.symm
  have hzip : (Signature.uniform name e args.length returns).slots.zip args =
      args.map fun v => (⟨e, false⟩, v) := by
    rw [List.map_prod_right_eq_zip, List.map_const']
    rfl
  obtain ⟨seen, hsights, -, hpassed⟩ := exists_passed_iff hslots hargs hlength
  rw [hzip, List.flatMap_map] at hsights
  refine ⟨seen, hsights, fun r w h bindings => ?_⟩
  rw [hpassed r w h, hzip, List.forall_mem_map]
  exact and_iff_right fun v _ => htakes v

/-- Both checks pass, with bindings that are related, or neither passes. -/
def CheckResult.PassAlike (R : List (String × NamedType) → List (String × NamedType) → Prop)
    (r r' : CheckResult) : Prop :=
  ((∃ bindings, r = .passed bindings) ↔ ∃ bindings, r' = .passed bindings) ∧
    ∀ bindings bindings', r = .passed bindings → r' = .passed bindings' → R bindings bindings'

/-- If values are recorded under one key, then they have as many parameters. -/
theorem exists_place_of_recordAll (hargs : ∀ v ∈ args, v.isNative = true) {key : VarKey}
    {seen : List (VarKey × Observation)} {sights : Value → List (VarKey × Value)}
    (hkey : ∀ v, (sights v).filter (·.1 = key) = [(key, v)])
    (hseen : seen.map sight = args.flatMap sights)
    (h : ∃ s, CheckState.initial.recordAll standing seen = some s) :
    ∃ last, ∀ v ∈ args, v.held.length - 1 = last := by
  rw [exists_recordAll_iff_sights] at h
  obtain ⟨common, hcommon⟩ := h
  rw [hseen, List.forall_mem_flatMap] at hcommon
  have hsame : ∀ v ∈ args, (v.types standing).contains (common key) = true := by
    intro v hv
    have hmem : (key, v) ∈ (sights v).filter (·.1 = key) := by
      rw [hkey v]
      exact List.mem_singleton_self _
    exact hcommon v hv _ (List.mem_filter.1 hmem).1
  rcases args with _ | ⟨u, args⟩
  · exact ⟨0, fun v hv => by cases hv⟩
  · refine ⟨u.held.length - 1, fun v hv => ?_⟩
    rw [length_held_of_common (hargs v hv) (hargs u List.mem_cons_self) (hsame v hv)
      (hsame u List.mem_cons_self)]

/-- The values of variables that are applied can be recorded just if those of variables that are not
can be. -/
theorem exists_recordAll_applied_iff (hne : f ≠ a) (hargs : ∀ v ∈ args, v.isNative = true)
    {seen seen' : List (VarKey × Observation)}
    (hseen : seen.map sight = args.flatMap ((TypeExpr.var f [.var a []]).sights custom))
    (hseen' : seen'.map sight = args.flatMap ((TypeExpr.var b []).sights custom)) :
    (∃ s, CheckState.initial.recordAll standing seen = some s) ↔
      ∃ s, CheckState.initial.recordAll standing seen' = some s := by
  constructor
  · intro h
    obtain ⟨last, hlast⟩ :=
      exists_place_of_recordAll hargs (filter_sights_applied hne) hseen h
    refine exists_recordAll_of_rename (VarKey.applied f a b last) ?_ h
    rw [hseen, hseen', List.map_flatMap]
    refine List.flatMap_congr fun v hv => ?_
    rw [← hlast v hv, map_applied_sights]
  · intro h
    obtain ⟨last, hlast⟩ := exists_place_of_recordAll hargs (filter_sights_var b) hseen' h
    refine exists_recordAll_of_rename (VarKey.unapplied a b last) ?_ h
    rw [hseen, hseen', List.map_flatMap]
    refine List.flatMap_congr fun v hv => ?_
    rw [← hlast v hv, map_unapplied_sights hne]

/-- The type that a variable is bound to is read off the values recorded under its key, if there are
any. -/
theorem lookup_bindings_recordAll {name : String} {seen : List (VarKey × Observation)}
    {sights : Value → List (VarKey × Value)} {s : CheckState}
    (hkey : ∀ v, (sights v).filter (·.1 = .named name) = [(.named name, v)])
    (hseen : seen.map sight = args.flatMap sights)
    (h : CheckState.initial.recordAll standing seen = some s) :
    s.bindings.lookup name = (shared? standing args).bind List.head? ∧
      (s.bindings.lookup name = none → args = []) := by
  have hfaithful : s.Faithful standing := Faithful.initial.recordAll h
  have hvalues : ((seen.map sight).filter (·.1 = .named name)).map Prod.snd = args := by
    rw [hseen, List.filter_flatMap, List.map_flatMap]
    simp [hkey]
  have hshared : s.candidates? (.named name) = shared? standing args := by
    rw [candidates?_recordAll h, hvalues]
  rw [lookup_bindings hfaithful, hshared]
  refine ⟨rfl, fun hnone => ?_⟩
  rcases args with _ | ⟨v, args⟩
  · rfl
  · exact absurd (List.head?_eq_none_iff.1 hnone) (hfaithful.bound _ _ hshared)

/-- Variables without constraints take every value. -/
theorem takes_var {name : String} {e : TypeExpr} {returns : TypeExpr} {count : Nat} (v : Value) :
    (TypeExpr.var b []).Takes call (.uniform name e count returns) custom v := by
  rw [TypeExpr.Takes, TypeExpr.tour, TypeExpr.tourOfAll, List.forall_mem_singleton]
  · exact fun _ hc => absurd hc List.not_mem_nil
  · simp

/-- A variable applied to another takes every value, since neither of them has constraints. -/
theorem takes_applied {name : String} {e : TypeExpr} {returns : TypeExpr} {count : Nat}
    (v : Value) :
    (TypeExpr.var f [.var a []]).Takes call (.uniform name e count returns) custom v := by
  rw [TypeExpr.Takes, TypeExpr.tour, List.forall_mem_cons, List.length_singleton,
    v.trailing_heldFor_one]
  refine ⟨fun _ hc => absurd hc List.not_mem_nil, ?_⟩
  rcases v.heldLast_cases with hnil | ⟨items, hitems⟩
  · rw [hnil, tourOfAll_nil]
    exact fun visit hvisit => by cases hvisit
  · rw [hitems, TypeExpr.tourOfAll, tourOfAll_nil, List.append_nil, List.forall_mem_flatMap]
    exact fun x _ => TypeExpr.forall_mem_tour_iff.2 (takes_var x)

/-- Slots of a variable that is applied to another take the values that slots of a variable take,
and both variables are bound to one type. -/
theorem check_applied {name name' : String} {returns returns' : TypeExpr} (hne : f ≠ a)
    (hargs : ∀ v ∈ args, v.isNative = true) :
    Run.Lockstep
      (check call .standard (.uniform name (.var f [.var a []]) args.length returns) args)
      (check call .standard (.uniform name' (.var b []) args.length returns') args)
      (CheckResult.PassAlike fun bindings bindings' =>
        bindings.lookup f = bindings'.lookup b ∧ (bindings.lookup f = none → args = [])) := by
  let custom : Value → Value → List (List Value) := fun _ _ => []
  have happlied : (TypeExpr.var f [.var a []]).OfTypes (NamedType.Consistent call custom) :=
    ⟨trivial, trivial⟩
  have hvar : (TypeExpr.var b []).OfTypes (NamedType.Consistent call custom) := trivial
  obtain ⟨seen, hseen, hpassed⟩ :=
    exists_passed_uniform_iff name returns happlied takes_applied hargs
  obtain ⟨seen', hseen', hpassed'⟩ :=
    exists_passed_uniform_iff name' returns' hvar takes_var hargs
  intro w w' r r' h h'
  constructor
  · simp only [hpassed r w h, hpassed' r' w' h']
    rw [exists_comm, @exists_comm (List (String × NamedType))]
    simp only [exists_and_left, exists_eq, and_true]
    exact exists_recordAll_applied_iff hne hargs hseen hseen'
  · intro bindings bindings' hr hr'
    obtain ⟨s, hs, rfl⟩ := (hpassed r w h bindings).1 hr
    obtain ⟨s', hs', rfl⟩ := (hpassed' r' w' h' bindings').1 hr'
    have hbound := lookup_bindings_recordAll (filter_sights_applied hne) hseen hs
    have hbound' := lookup_bindings_recordAll (filter_sights_var b) hseen' hs'
    exact ⟨hbound.1.trans hbound'.1.symm, hbound.2⟩

/-- A left and a right one have all their contents in common. -/
theorem check_applied_sides :
    ((check applyFunction .standard (.uniform "same" (.var "f" [.var "a" []]) 2 (.var "a" []))
      [.left .fresh (.str "x"), .right .fresh .null]).outcome .initial).1 =
        .ok (.passed [("f", StandardType.either.named), ("a", StandardType.null.named)]) ∧
    ∀ r, ((check applyFunction .standard (.uniform "same" (.var "a" []) 2 (.var "a" []))
      [.left .fresh (.str "x"), .right .fresh .null]).outcome .initial).1 = .ok r →
        ∃ bindings, r = .passed bindings ∧
          bindings.lookup "a" = some StandardType.either.named := by
  have hpassed : ((check applyFunction .standard
      (.uniform "same" (.var "f" [.var "a" []]) 2 (.var "a" []))
      [.left .fresh (.str "x"), .right .fresh .null]).outcome .initial).1 =
        .ok (.passed [("f", StandardType.either.named), ("a", StandardType.null.named)]) := rfl
  refine ⟨hpassed, fun r hr => ?_⟩
  have hargs : ∀ v ∈ [Value.left .fresh (.str "x"), .right .fresh .null], v.isNative = true := by
    decide
  have hne : "f" ≠ "a" := by decide
  have happlied := @check_applied applyFunction _ "f" "a" "a" "same" "same" (.var "a" [])
    (.var "a" []) hne hargs
  obtain ⟨hpasses, hbinds⟩ := happlied .initial .initial _ r hpassed hr
  obtain ⟨bindings, rfl⟩ := hpasses.1 ⟨_, rfl⟩
  exact ⟨bindings, rfl, (hbinds _ bindings rfl rfl).1.symm⟩

end Checks

end CheckedCalls
