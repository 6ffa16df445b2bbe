import CheckedCalls.Evaluate
import CheckedCalls.Proofs.Shared
import CheckedCalls.Proofs.Tour

/-!
# Checks in another order

Neither what a check of native values visits nor what it records depends on the order of the slots.
So if slots and arguments are put into another order alike, the check passes as before, with the
same binding of each variable (`check_perm`). That asks something of the types that a signature
brings itself: `exists_orderMatters` shows what goes wrong with types that do not answer the same
whenever they are asked, or that hand out instances of other classes.
-/

namespace CheckedCalls

open CheckState Checking Check
open StandardType (standing)

variable {call : Apply} {signature : Signature} {custom : Value → Value → List (List Value)}

/-! ## Places -/

/-- The visit, less the place in the signature. -/
def Visit.unplaced (visit : Visit) : Visit := { visit with key := [] }

mutual

/-- The tour of a value has the same visits wherever the type stands in a signature. -/
theorem map_unplaced_tour : ∀ (e : TypeExpr) (key : SpanKey) (v : Value),
    (e.tour custom key v).map Visit.unplaced = (e.tour custom [] v).map Visit.unplaced
  | .var name args, key, v => by
    rw [TypeExpr.tour, TypeExpr.tour, List.map_cons, List.map_cons,
      map_unplaced_tourOfAll args _ key]
    rfl
  | .concrete t args, key, v => by
    rw [TypeExpr.tour, TypeExpr.tour, List.map_cons, List.map_cons]
    split
    · rfl
    · rw [map_unplaced_tourOfAll args _ key]
      rfl
  | .fn _ _, _, _ | .foreign, _, _ => rfl

/-- A tour through contents visits the same values wherever it starts. -/
theorem map_unplaced_tourOfAll : ∀ (args : List TypeExpr) (held : List (List Value))
    (key : SpanKey) (i j : Nat),
    (TypeExpr.tourOfAll custom key i args held).map Visit.unplaced =
      (TypeExpr.tourOfAll custom [] j args held).map Visit.unplaced
  | arg :: args, items :: held, key, i, j => by
    rw [TypeExpr.tourOfAll, TypeExpr.tourOfAll, List.map_append, List.map_append,
      map_unplaced_tourOfAll args held key (i + 1) (j + 1), List.map_flatMap, List.map_flatMap]
    congr 2
    funext x
    rw [map_unplaced_tour arg (key ++ [i]), map_unplaced_tour arg ([] ++ [j])]
  | [], _, _, _, _ => by
    rw [TypeExpr.tourOfAll, TypeExpr.tourOfAll]
    all_goals simp
  | _ :: _, [], _, _, _ => by rw [tourOfAll_nil, tourOfAll_nil]

end

/-- Records are of the same values under the same keys if those of each value are. -/
theorem map_sight_observationsOfHeld {position : Nat} {spanKey : SpanKey} {key : VarKey}
    {held : List (List Value)} (h : ∀ items ∈ held, ∀ x ∈ items, ∀ k,
      (x.observations position spanKey k).map sight = (x.observations 0 [] k).map sight) (i : Nat) :
    (observationsOfHeld position spanKey key i held).map sight =
      (observationsOfHeld 0 [] key i held).map sight := by
  induction held generalizing i with
  | nil => rfl
  | cons items held ih =>
    rw [List.forall_mem_cons] at h
    rw [observationsOfHeld, observationsOfHeld, List.map_append, List.map_append, ih h.2,
      List.map_flatMap, List.map_flatMap]
    exact congrArg (· ++ _) (List.flatMap_congr fun x hx => h.1 x hx _)

/-- Wherever a value is met, the records for it are of the same values under the same keys. -/
theorem map_sight_observations (position : Nat) (spanKey : SpanKey) (key : VarKey) (v : Value) :
    (v.observations position spanKey key).map sight = (v.observations 0 [] key).map sight := by
  induction hn : v.depth using Nat.strongRecOn generalizing v key with
  | ind n ih =>
    have hheld : (observationsOfHeld position spanKey key 0 v.held).map sight =
        (observationsOfHeld 0 [] key 0 v.held).map sight :=
      map_sight_observationsOfHeld (fun items hitems x hx k =>
        ih x.depth (hn ▸ depth_lt_of_mem_held hitems hx) k x rfl) 0
    rw [Value.observations_eq, Value.observations_eq, List.map_cons, List.map_cons, hheld]
    rfl

/-- The records of a visit see the same wherever it takes place. -/
theorem map_sight_records (position : Nat) (visit : Visit) :
    (visit.records position).map sight = (visit.unplaced.records 0).map sight := by
  obtain ⟨e, key, v⟩ := visit
  cases e with
  | var name args =>
    rw [Visit.records, Visit.unplaced, Visit.records, List.map_cons, List.map_cons,
      map_sight_observationsOfHeld fun _ _ x _ k => map_sight_observations position key k x]
    rfl
  | _ => rfl

/-! ## Calls in another order -/

namespace TypeExpr

/-- The value fits the expression, whatever was seen of the variables. -/
def Takes (call : Apply) (signature : Signature) (custom : Value → Value → List (List Value))
    (e : TypeExpr) (v : Value) : Prop :=
  ∀ visit ∈ e.tour custom [] v, visit.IsAccepted call signature

/-- The values that a check against the expression records, each with its key. -/
def sights (custom : Value → Value → List (List Value)) (e : TypeExpr) (v : Value) :
    List (VarKey × Value) :=
  (e.tour custom [] v).flatMap fun visit => (visit.records 0).map sight

variable {e : TypeExpr} {key : SpanKey}

/-- Every visit of a tour is accepted exactly if the expression takes the value. -/
theorem forall_mem_tour_iff :
    (∀ visit ∈ e.tour custom key v, visit.IsAccepted call signature) ↔
      e.Takes call signature custom v := by
  have hunplaced : ∀ k, (∀ visit ∈ e.tour custom k v, visit.IsAccepted call signature) ↔
      ∀ visit ∈ (e.tour custom k v).map Visit.unplaced, visit.IsAccepted call signature := by
    intro k
    rw [List.forall_mem_map]
    rfl
  rw [Takes, hunplaced key, hunplaced [], map_unplaced_tour]

theorem map_sight_tour (position : Nat) :
    ((e.tour custom key v).flatMap (Visit.records position)).map sight = e.sights custom v := by
  have hunplaced : ∀ n k, ((e.tour custom k v).flatMap (Visit.records n)).map sight =
      ((e.tour custom k v).map Visit.unplaced).flatMap
        fun visit => (visit.records 0).map sight := by
    intro n k
    rw [List.map_flatMap, List.flatMap_map]
    exact List.flatMap_congr fun visit _ => map_sight_records n visit
  rw [hunplaced, map_unplaced_tour, ← hunplaced 0, List.map_flatMap, sights]

end TypeExpr

section Calls

variable {args : List Value}

theorem isVariadic_of_forall (h : ∀ slot ∈ signature.slots, slot.variadic = false) :
    signature.isVariadic = false := by
  rw [Signature.isVariadic]
  split
  · exact h _ (List.mem_of_getLast? ‹_›)
  · rfl

theorem accepts_iff (h : signature.isVariadic = false) {count : Nat} :
    signature.accepts count = true ↔ count = signature.slots.length := by
  simp only [Signature.accepts, Signature.minArity, h]
  simp

/-- Without a variadic slot each argument goes to the slot at its place. -/
theorem map_typeAt_zipIdx (h : signature.isVariadic = false)
    (hlength : args.length = signature.slots.length) :
    args.zipIdx.map (fun p => (signature.typeAt p.2, p.1)) =
      (signature.slots.zip args).map fun q => (q.1.type, q.2) := by
  refine List.ext_getElem (by simp [hlength]) fun i hi hi' => ?_
  have hslot : i < signature.slots.length := by simpa [hlength] using hi
  simp [Signature.typeAt, Signature.slotFor, h, hslot]

/-- A check of native values passes, if it ends, exactly if each value is taken at its place and
what the places record has types in common; the bindings are then those of the records. -/
theorem exists_passed_iff (hslots : ∀ slot ∈ signature.slots, slot.variadic = false ∧
      slot.type.OfTypes (NamedType.Consistent call custom))
    (hargs : ∀ v ∈ args, v.isNative = true) (hlength : args.length = signature.slots.length) :
    ∃ seen, seen.map sight =
        (signature.slots.zip args).flatMap (fun q => q.1.type.sights custom q.2) ∧
      (∀ p ∈ seen, p.2.value.isNative = true) ∧
      ∀ r w, ((check call .standard signature args).outcome w).1 = .ok r →
        ∀ bindings, r = .passed bindings ↔
          (∀ q ∈ signature.slots.zip args, q.1.type.Takes call signature custom q.2) ∧
            ∃ s, CheckState.initial.recordAll standing seen = some s ∧ bindings = s.bindings := by
  have hvariadic := isVariadic_of_forall fun slot hslot => (hslots slot hslot).1
  have haccepts : signature.accepts args.length = true := (accepts_iff hvariadic).2 hlength
  have hpairs := map_typeAt_zipIdx hvariadic hlength
  have htypes : ∀ p ∈ args.zipIdx,
      (signature.typeAt p.2).OfTypes (NamedType.Consistent call custom) ∧ p.1.isNative = true := by
    intro p hp
    rw [List.mem_zipIdx_iff_getElem?] at hp
    obtain ⟨hlt, -⟩ := List.getElem?_eq_some_iff.1 hp
    exact ⟨forall_typeAt (fun slot hslot => (hslots slot hslot).2) haccepts hlt,
      hargs p.1 (List.mem_of_getElem? hp)⟩
  refine ⟨args.zipIdx.flatMap fun p => ((signature.typeAt p.2).tour custom
    [signature.slotFor p.2] p.1).flatMap (Visit.records (p.2 + 1)), ?_, ?_, ?_⟩
  · calc _ = args.zipIdx.flatMap fun p => (signature.typeAt p.2).sights custom p.1 := by
          rw [List.map_flatMap]
          exact List.flatMap_congr fun p _ => TypeExpr.map_sight_tour (p.2 + 1)
      _ = (args.zipIdx.map fun p => (signature.typeAt p.2, p.1)).flatMap
            fun q => q.1.sights custom q.2 := by rw [List.flatMap_map]
      _ = _ := by rw [hpairs, List.flatMap_map]
  · simp only [List.forall_mem_flatMap]
    intro p hp visit hvisit
    exact isNative_of_mem_records
      (isNative_of_mem_tour _ _ (htypes p hp).1 (htypes p hp).2 visit hvisit)
  · intro r w h bindings
    have hsettles : Settles (ExceptT.mk (checkArguments call .standard signature 0 args .initial))
        _ .initial _ := settles_checkArguments 0 Faithful.initial fun p hp s hs =>
      settles_tour (p.2 + 1) _ [signature.slotFor p.2] (htypes p hp).1 (htypes p hp).2 hs
    rw [passed_iff_of_settles (fun _ => hsettles) (Prod.ext h rfl), and_iff_right haccepts]
    refine and_congr_left fun _ => ?_
    simp only [TypeExpr.forall_mem_tour_iff]
    calc (∀ p ∈ args.zipIdx, (signature.typeAt p.2).Takes call signature custom p.1)
        ↔ ∀ q ∈ args.zipIdx.map fun p => (signature.typeAt p.2, p.1),
            q.1.Takes call signature custom q.2 := by rw [List.forall_mem_map]
      _ ↔ ∀ q ∈ signature.slots.zip args, q.1.type.Takes call signature custom q.2 := by
            rw [hpairs, List.forall_mem_map]

/-- Without a variadic slot a check that passes has an argument for each slot. -/
theorem length_of_passed (h : signature.isVariadic = false) {bindings : List (String × NamedType)}
    {w : World} (hpassed : ((check call .standard signature args).outcome w).1 =
      .ok (.passed bindings)) : args.length = signature.slots.length := by
  rcases check_outcome_cases (Prod.ext hpassed rfl) with ⟨-, hr⟩ | ⟨haccepts, -⟩
  · cases hr
  · exact (accepts_iff h).1 haccepts

/-- Both checks pass and bind each variable to one type, or neither passes. -/
def CheckResult.BindsAlike : CheckResult → CheckResult → Prop
  | .passed bindings, .passed bindings' => ∀ name, bindings.lookup name = bindings'.lookup name
  | .violated _, .violated _ => True
  | _, _ => False

theorem CheckResult.bindsAlike_of_iff {r r' : CheckResult}
    (hpasses : (∃ bindings, r = .passed bindings) ↔ ∃ bindings, r' = .passed bindings)
    (hbinds : ∀ bindings bindings', r = .passed bindings → r' = .passed bindings' →
      ∀ name, bindings.lookup name = bindings'.lookup name) : r.BindsAlike r' := by
  cases r with
  | passed bindings =>
    obtain ⟨bindings', rfl⟩ := hpasses.1 ⟨bindings, rfl⟩
    exact hbinds bindings bindings' rfl rfl
  | violated v =>
    cases r' with
    | passed bindings' =>
      obtain ⟨bindings, hr⟩ := hpasses.2 ⟨bindings', rfl⟩
      cases hr
    | violated v' => trivial

/-- A check of native values goes the same if slots and arguments are put into another order
alike. -/
theorem check_perm {slots : List Slot} {args' : List Value}
    (hslots : ∀ slot ∈ signature.slots, slot.variadic = false ∧
      slot.type.OfTypes (NamedType.Consistent call custom))
    (hargs : ∀ v ∈ args, v.isNative = true) (hperm : signature.slots.Perm slots)
    (hargsPerm : args.Perm args') (hpairs : (signature.slots.zip args).Perm (slots.zip args')) :
    Run.Lockstep (check call .standard signature args)
      (check call .standard { signature with slots := slots } args') CheckResult.BindsAlike := by
  intro w w' r r' h h'
  have hslots' : ∀ slot ∈ ({ signature with slots := slots } : Signature).slots,
      slot.variadic = false ∧ slot.type.OfTypes (NamedType.Consistent call custom) :=
    fun slot hslot => hslots slot (hperm.mem_iff.2 hslot)
  have hvariadic := isVariadic_of_forall fun slot hslot => (hslots slot hslot).1
  have hvariadic' := isVariadic_of_forall fun slot hslot => (hslots' slot hslot).1
  have hlengths : args.length = signature.slots.length ↔ args'.length = slots.length := by
    rw [hargsPerm.length_eq, hperm.length_eq]
  -- if the number of arguments does not fit, neither check passes
  by_cases hlength : args.length = signature.slots.length
  case neg =>
    have hfails : ¬ ∃ bindings, r = .passed bindings := by
      rintro ⟨bindings, rfl⟩
      exact hlength (length_of_passed hvariadic h)
    have hfails' : ¬ ∃ bindings, r' = .passed bindings := by
      rintro ⟨bindings, rfl⟩
      exact hlength (hlengths.2 (length_of_passed hvariadic' h'))
    exact CheckResult.bindsAlike_of_iff (iff_of_false hfails hfails')
      fun bindings _ hr => absurd ⟨bindings, hr⟩ hfails
  obtain ⟨seen, hsights, hnative, hpassed⟩ := exists_passed_iff hslots hargs hlength
  obtain ⟨seen', hsights', -, hpassed'⟩ := exists_passed_iff hslots'
    (fun v hv => hargs v (hargsPerm.mem_iff.2 hv)) (hlengths.1 hlength)
  have hseen : (seen.map sight).Perm (seen'.map sight) := by
    rw [hsights, hsights']
    exact hpairs.flatMap_right _
  have htakes : (∀ q ∈ signature.slots.zip args, q.1.type.Takes call signature custom q.2) ↔
      ∀ q ∈ slots.zip args', q.1.type.Takes call { signature with slots := slots } custom q.2 :=
    forall_congr' fun q => imp_congr_left hpairs.mem_iff
  have hpasses : (∃ bindings, r = .passed bindings) ↔ ∃ bindings, r' = .passed bindings := by
    simp only [hpassed r w h, hpassed' r' w' h', exists_and_left]
    rw [htakes, exists_comm, @exists_comm (List (String × NamedType))]
    simp only [exists_and_left, exists_eq, and_true]
    rw [exists_recordAll_perm hseen]
  refine CheckResult.bindsAlike_of_iff hpasses fun bindings bindings' hr hr' name => ?_
  obtain ⟨-, s, hs, rfl⟩ := (hpassed r w h bindings).1 hr
  obtain ⟨-, s', hs', rfl⟩ := (hpassed' r' w' h' bindings').1 hr'
  rw [lookup_bindings (Faithful.initial.recordAll hs),
    lookup_bindings (Faithful.initial.recordAll hs'),
    candidates?_recordAll_perm hseen hnative hs hs']

/-- The signature of a function of a container and of a value, if there is one, like those that it
holds. -/
def alsoHeld : Signature :=
  ⟨"fill", [⟨"Functor", "f"⟩], [⟨.var "f" [.var "a" []], false⟩,
    ⟨.concrete StandardType.maybe.named [.var "a" []], false⟩],
    .concrete StandardType.boolean.named []⟩

/-- The container may come first or last. -/
theorem check_perm_alsoHeld :
    ((check applyFunction .standard alsoHeld [.right .fresh (.str "x"), .nothing]).outcome
      .initial).1 =
        .ok (.passed [("f", StandardType.either.named), ("a", StandardType.string.named)]) ∧
    ∀ r, ((check applyFunction .standard { alsoHeld with slots :=
        [⟨.concrete StandardType.maybe.named [.var "a" []], false⟩,
          ⟨.var "f" [.var "a" []], false⟩] } [.nothing, .right .fresh (.str "x")]).outcome
      .initial).1 = .ok r → CheckResult.BindsAlike
        (.passed [("f", StandardType.either.named), ("a", StandardType.string.named)]) r := by
  refine ⟨rfl, fun r hr => ?_⟩
  have hslots : ∀ slot ∈ alsoHeld.slots, slot.variadic = false ∧
      slot.type.OfTypes (NamedType.Consistent applyFunction fun _ _ => []) := by
    intro slot hslot
    simp only [alsoHeld, List.mem_cons, List.not_mem_nil, or_false] at hslot
    rcases hslot with rfl | rfl
    · exact ⟨rfl, trivial, trivial⟩
    · exact ⟨rfl, StandardType.consistent .maybe, trivial, trivial⟩
  have hargs : ∀ v ∈ [Value.right .fresh (.str "x"), .nothing], v.isNative = true := by
    decide
  have halike := check_perm hslots hargs (List.Perm.swap _ _ []) (List.Perm.swap _ _ [])
    (List.Perm.swap _ _ [])
  exact halike .initial .initial _ r rfl hr

/-! ## Types that answer otherwise -/

/-- An object that a test of one's own can mark. -/
def slate : Value := .error (.numbered 0) .valueError "m"

/-- Contains everything, and marks the slate whenever it is asked. -/
def marking : NamedType :=
  ⟨"Marking", 0, 0, .custom (.function (.compose (.function (.const (.bool true)))
    (.function (.partial_ (.inspection .set) [slate, .str "seen"])))), none⟩

/-- Contains everything once the slate is marked. -/
def marked : NamedType :=
  ⟨"Marked", 0, 0, .custom (.function (.compose
    (.function (.partial_ (.inspection .has) [slate])) (.function (.const (.str "seen"))))), none⟩

/-- An instance of a class that inherits from both sum types. -/
def twofold : Value :=
  .object (.numbered 1) (.declared (.numbered 0) "Both" (.declared (.numbered 0) [] ::
    (Ancestry.ofBases [.ofBase .just, .ofBase .either]).getD [])) .null

/-- Contains everything, and hands out the instance for whatever it contains. -/
def hoard : NamedType :=
  ⟨"Hoard", 1, 0, .custom (.function (.const (.bool true))),
    some (.custom (.function (.const (.tuple [.tuple [twofold]]))))⟩

/-- A check of two arguments passes, and does not pass in the other order. -/
def OrderMatters (first second : TypeExpr) (x y : Value) : Prop :=
  (∃ bindings w, (check applyFunction .standard ⟨"same", [], [⟨first, false⟩, ⟨second, false⟩],
    .concrete StandardType.boolean.named []⟩ [x, y]).outcome .initial =
      (.ok (.passed bindings), w)) ∧
  ∃ v w, (check applyFunction .standard ⟨"same", [], [⟨second, false⟩, ⟨first, false⟩],
    .concrete StandardType.boolean.named []⟩ [y, x]).outcome .initial = (.ok (.violated v), w)

theorem orderMatters_marking :
    OrderMatters (.concrete marking []) (.concrete marked []) (.str "x") (.str "y") :=
  ⟨⟨_, _, rfl⟩, ⟨_, _, rfl⟩⟩

/-- Once a variant of Maybe came first the instance is one too; before that it is one of Either. -/
theorem orderMatters_hoard :
    OrderMatters (.concrete hoard [.var "a" []]) (.var "a" []) .null (.just .fresh (.str "x")) :=
  ⟨⟨_, _, rfl⟩, ⟨_, _, rfl⟩⟩

/-- The order matters to a check against types of one's own if a test answers otherwise when it is
asked later, or if a type hands out instances of a class that inherits from both sum types. -/
theorem exists_orderMatters :
    OrderMatters (.concrete marking []) (.concrete marked []) (.str "x") (.str "y") ∧
      OrderMatters (.concrete hoard [.var "a" []]) (.var "a" []) .null (.just .fresh (.str "x")) :=
  ⟨orderMatters_marking, orderMatters_hoard⟩

end Calls

end CheckedCalls
