import CheckedCalls.Evaluate
import CheckedCalls.Proofs.Outcome
import CheckedCalls.Proofs.Recording

/-!
# What bindings accept

A check does nothing to its state but record values, whatever the signature, the type classes and
the arguments (`records_checkArguments`). So the type that a variable is bound to is one that the
check found in the descriptor of each value seen for the variable. Sameness of types looks at names
only, hence such a type need not accept such a value: `binding_accepts_iff` says when it does.
-/

namespace CheckedCalls

/-- Between two states of a check some values were recorded. -/
def CheckState.Reaches (ts : List StandardType) (s s' : CheckState) : Prop :=
  ∃ seen, s.recordAll ts seen = some s'

namespace CheckState.Reaches

variable {ts : List StandardType} {s s₁ s₂ : CheckState}

theorem refl : s.Reaches ts s := ⟨[], rfl⟩

/-- What is reached in two stages is reached. -/
theorem trans (h₁ : s.Reaches ts s₁) (h₂ : s₁.Reaches ts s₂) : s.Reaches ts s₂ := by
  obtain ⟨seen, h₁⟩ := h₁
  obtain ⟨more, h₂⟩ := h₂
  exact ⟨seen ++ more, by rw [recordAll_append, h₁]; exact h₂⟩

theorem of_record {key : VarKey} {o : Observation} (h : s.record ts key o = some s₁) :
    s.Reaches ts s₁ :=
  ⟨[(key, o)], by rw [recordAll_cons, h]; rfl⟩

/-- What was seen of a variable stays seen. -/
theorem observed_subset (h : s.Reaches ts s₁) (key : VarKey) : s.observed key ⊆ s₁.observed key := by
  obtain ⟨seen, h⟩ := h
  rw [observed_recordAll h]
  exact List.subset_append_left _ _

end CheckState.Reaches

namespace Check

open CheckState Checking

/-! ## A check records values -/

/-- A step from `s` ends in a state in which some more values are recorded, if it passes. -/
def Records (ts : List StandardType) (s : CheckState) (m : Checking CheckState) : Prop :=
  Ends m (s.Reaches ts) fun _ => True

variable {call : Apply} {registry : Registry} {ts : List StandardType} {signature : Signature}
variable {s : CheckState}

theorem Records.pure : Records ts s (Pure.pure s) := ends_pure .refl

theorem Records.from {s₁ : CheckState} {m : Checking CheckState} (h : Records ts s₁ m)
    (hs : s.Reaches ts s₁) : Records ts s m :=
  Ends.mono h (fun _ h₁ => hs.trans h₁) fun _ _ => trivial

theorem Records.bind {m : Checking CheckState} {f : CheckState → Checking CheckState}
    (hm : Records ts s m) (hf : ∀ s₁, Records ts s₁ (f s₁)) : Records ts s (m >>= f) :=
  ends_bind hm fun s₁ h₁ => (hf s₁).from h₁

/-- What is asked before a step does not matter. -/
theorem Records.after {α : Type} {m : Checking α} {f : α → Checking CheckState}
    (hf : ∀ a, Records ts s (f a)) : Records ts s (m >>= f) :=
  ends_bind (ends_of_forall (fun _ => trivial) fun _ => trivial) fun a (_ : True) => hf a

/-- A fold of checks records what its steps do. -/
theorem records_foldlM {α : Type} {step : CheckState → α → Checking CheckState}
    (hstep : ∀ s a, Records ts s (step s a)) (as : List α) (s : CheckState) :
    Records ts s (as.foldlM step s) :=
  ends_foldlM (R := fun _ => s.Reaches ts) (fun a _ s₁ hs₁ => (hstep s₁ a).from hs₁) .refl

theorem records_forEach {step : CheckState → Value → Checking CheckState}
    (hstep : ∀ s v, Records ts s (step s v)) (container : Value) (s : CheckState) :
    Records ts s (forEach container step s) :=
  .after fun items => records_foldlM hstep items s

/-- A check of each part of a value records what its steps do. -/
theorem records_forPlaces {α : Type} {step : Nat → CheckState → α → Checking CheckState}
    (hstep : ∀ i s a, Records ts s (step i s a)) (i : Nat) (as : List α) (s : CheckState) :
    Records ts s (forPlaces step i as s) := by
  induction as generalizing i s with
  | nil => exact .pure
  | cons a as ih => exact (hstep i s a).bind fun s => ih (i + 1) s

/-- What is left to unify once a value is recorded: what the value holds for each parameter. -/
def unifyHeld (call : Apply) (vocabulary : Vocabulary) (signature : Signature) (position : Nat)
    (spanKey : SpanKey) (fuel : Nat) (key : VarKey) (named : Nat) (types : List NamedType)
    (v : Value) (s : CheckState) : Checking CheckState :=
  match extractor? types named with
  | none => return s
  | some e => do
    let params ← e.run call v
    forPlaces (fun i s items => forEach items (fun s item =>
      unify call vocabulary signature position spanKey fuel (.inner key i) 0 item s) s)
      0 (unnamed named params) s

/-- Unifying records the value, and then unifies what it holds. -/
theorem unify_succ (position : Nat) (spanKey : SpanKey) (fuel : Nat) (key : VarKey) (named : Nat)
    (v : Value) (s : CheckState) :
    unify call ⟨ts.map StandardType.named, registry⟩ signature position spanKey (fuel + 1) key
        named v s =
      (do
        let _ ← (liftM (v.descriptor ts) : Run (List NamedType))
        match s.record ts key ⟨position, v, spanKey⟩ with
        | some s₁ =>
          unifyHeld call ⟨ts.map StandardType.named, registry⟩ signature position spanKey fuel key
            named (s.candidatesAfter key (rank (v.types ts))) v s₁
        | none =>
          nothingInCommon call ⟨ts.map StandardType.named, registry⟩ signature
            ((s.observe key ⟨position, v, spanKey⟩).observed key)) := by
  rw [unify, describe_named]
  rcases hd : v.descriptor ts with f | d
  · rfl
  · simp only [record, Value.types_of_descriptor hd]
    show (if _ then _ else _ : Checking CheckState) = _
    split <;> rfl

/-- Unifying what a value holds records observations of its inner variables. -/
theorem records_unifyHeld {position fuel : Nat} {spanKey : SpanKey} {key : VarKey}
    (hinner : ∀ i v s, Records ts s (unify call ⟨ts.map StandardType.named, registry⟩ signature
      position spanKey fuel (.inner key i) 0 v s))
    (named : Nat) (types : List NamedType) (v : Value) (s : CheckState) :
    Records ts s (unifyHeld call ⟨ts.map StandardType.named, registry⟩ signature position spanKey
      fuel key named types v s) := by
  rw [unifyHeld]
  split
  · exact .pure
  · refine .after fun params => records_forPlaces (fun i s items => ?_) 0 _ s
    exact records_forEach (fun s item => hinner i item s) items s

/-- Unifying starts with a record of the value. -/
theorem unify_records_first (position : Nat) (spanKey : SpanKey) (fuel : Nat) (key : VarKey)
    (named : Nat) (v : Value) (s : CheckState) :
    Ends (unify call ⟨ts.map StandardType.named, registry⟩ signature position spanKey fuel key
        named v s)
      (fun s' => ∃ s₁, s.record ts key ⟨position, v, spanKey⟩ = some s₁ ∧ s₁.Reaches ts s')
      fun _ => True := by
  induction fuel generalizing key named v s with
  | zero => exact ends_fail _
  | succ fuel ih =>
    rw [unify_succ]
    refine ends_except_bind fun d _ => ?_
    rcases s.record ts key ⟨position, v, spanKey⟩ with _ | s₁
    · exact ends_nothingInCommon (fun _ => trivial) _
    -- what is held is unified with less fuel, so the induction hypothesis speaks of it
    · have hinner : ∀ i v s, Records ts s (unify call ⟨ts.map StandardType.named, registry⟩
          signature position spanKey fuel (.inner key i) 0 v s) := by
        intro i v s
        have hmore := ih (.inner key i) 0 v s
        exact hmore.mono (fun _ ⟨_, h, hs⟩ => (Reaches.of_record h).trans hs) fun _ h => h
      exact (records_unifyHeld hinner named _ v s₁).mono (fun _ h => ⟨s₁, rfl, h⟩) fun _ h => h

/-- Unifying a variable with a value records observations and does nothing else to the state. -/
theorem unify_records (position : Nat) (spanKey : SpanKey) (fuel : Nat) (key : VarKey)
    (named : Nat) (v : Value) (s : CheckState) :
    Records ts s (unify call ⟨ts.map StandardType.named, registry⟩ signature position spanKey fuel
      key named v s) :=
  (unify_records_first position spanKey fuel key named v s).mono
    (fun _ ⟨_, h, hs⟩ => (Reaches.of_record h).trans hs) fun _ _ => trivial

/-- Testing the constraints of a variable records nothing. -/
theorem records_satisfyAll {vocabulary : Vocabulary} (name : String) (v : Value) (position : Nat)
    (key : SpanKey) (classes : List String) (s : CheckState) :
    Records ts s (satisfyAll call vocabulary signature name v position key classes s) := by
  induction classes with
  | nil => exact .pure
  | cons c cs ih =>
    refine .after fun b => ?_
    split
    · exact ih
    · exact ends_unsatisfied (fun _ => trivial) name c v position key

/-- Testing the constraints on a representative records nothing. -/
theorem records_representAll {vocabulary : Vocabulary} (name : String) (rep : Value)
    (position : Nat) (key : SpanKey) (classes : List String) (s : CheckState) :
    Records ts s (representAll call vocabulary signature name rep position key classes s) := by
  induction classes with
  | nil => exact .pure
  | cons c cs ih =>
    refine .after fun b => ?_
    split
    · exact ih
    · exact ends_unsatisfied (fun _ => trivial) name c rep position key

theorem records_checkRep {vocabulary : Vocabulary} (rep : Value) (position : Nat) (key : SpanKey)
    (args : List TypeExpr) (s : CheckState) :
    Records ts s (checkRep call vocabulary signature rep position key args s) := by
  fun_induction checkRep call vocabulary signature rep position key args s with
  | case1 s => exact .pure
  | case2 => exact (records_representAll _ rep position key _ _).bind (by assumption)
  | case3 s e rest h ih => exact ih

/-- What a value holds is checked if there is a way to find it and an argument to check it
against. -/
theorem records_contents {vocabulary : Vocabulary} {position : Nat} {key : SpanKey}
    {args : List TypeExpr}
    (hcontents : ∀ items s, Records ts s
      (checkContents call vocabulary signature position key 0 args items s))
    (e : Option Extraction) (v : Value) (s : CheckState) :
    Records ts s (if args.isEmpty then return s else match e with
      | none => return s
      | some e => do
        checkContents call vocabulary signature position key 0 args
          (trailing args.length (← e.run call v)) s) := by
  split
  · exact .pure
  cases e with
  | none => exact .pure
  | some e => exact .after fun params => hcontents _ s

mutual

/-- Checking a value against an expression records observations and does nothing else to the
state. -/
theorem records_checkValue (position : Nat) : ∀ (e : TypeExpr) (key : SpanKey) (v : Value)
    (s : CheckState), Records ts s
      (checkValue call ⟨ts.map StandardType.named, registry⟩ signature position e key v s)
  | .var name args, key, v, s => by
    rw [checkValue]
    refine (records_satisfyAll name v position key _ s).bind fun s => ?_
    refine (unify_records position key v.reach (.named name) args.length v s).bind fun s => ?_
    exact records_contents (records_checkContents position key 0 args) _ v s
  | .fn params result, key, v, s => by
    rw [checkValue]
    split
    · exact .pure
    · exact ends_invalidValue (fun _ => trivial) _ v position key
  | .concrete t args, key, v, s => by
    rw [checkValue]
    refine .after fun b => ?_
    split
    · exact ends_invalidValue (fun _ => trivial) _ v position key
    split
    · exact records_checkRep v position key args s
    · exact records_contents (records_checkContents position key 0 args) _ v s
  | .foreign, key, v, s => by
    rw [checkValue]
    exact ends_fail _

/-- Checking the contents of a value records observations and does nothing else to the state. -/
theorem records_checkContents (position : Nat) (key : SpanKey) (i : Nat) :
    ∀ (args : List TypeExpr) (items : List Value) (s : CheckState), Records ts s
      (checkContents call ⟨ts.map StandardType.named, registry⟩ signature position key i args
        items s)
  | arg :: args, items :: rest, s => by
    rw [checkContents]
    have hitems : Records ts s (forEach items (fun s item => checkValue call
        ⟨ts.map StandardType.named, registry⟩ signature position arg (key ++ [i]) item s) s) :=
      records_forEach (fun s item => records_checkValue position arg (key ++ [i]) item s) items s
    exact hitems.bind fun s => records_checkContents position key (i + 1) args rest s
  | [], _, s => by
    rw [checkContents]
    · exact .pure
    · simp
  | _ :: _, [], s => by
    rw [checkContents]
    · exact .pure
    · simp

end

/-- The value of a variable is recorded for the variable. -/
theorem checkValue_var_observed (position : Nat) (name : String) (args : List TypeExpr)
    (key : SpanKey) (v : Value) (s : CheckState) :
    Ends (checkValue call ⟨ts.map StandardType.named, registry⟩ signature position
        (.var name args) key v s)
      (fun s' => ⟨position, v, key⟩ ∈ s'.observed (.named name)) fun _ => True := by
  rw [checkValue]
  refine ends_bind (P := s.Reaches ts) (records_satisfyAll name v position key _ s) fun s _ => ?_
  refine ends_bind (unify_records_first position key v.reach (.named name) args.length v s)
    fun s' ⟨s₁, h₁, h'⟩ => ?_
  have hmem : ⟨position, v, key⟩ ∈ s'.observed (.named name) :=
    h'.observed_subset _ (mem_observed_of_record h₁)
  exact Ends.mono (P := s'.Reaches ts)
    (records_contents (records_checkContents position key 0 args) _ v s')
    (fun _ h => h.observed_subset _ hmem) fun _ h => h

/-- A check of arguments records values, each argument of a variable among them. -/
theorem records_checkArguments (index : Nat) (args : List Value) (s : CheckState) :
    Ends (ExceptT.mk (checkArguments call ⟨ts.map StandardType.named, registry⟩ signature index
        args s))
      (fun s' => s.Reaches ts s' ∧ ∀ i v, args[i]? = some v → ∀ name targs,
        signature.typeAt (index + i) = .var name targs →
          ∃ o ∈ s'.observed (.named name), o.value = v)
      fun _ => True := by
  induction args generalizing index s with
  | nil => exact ends_pure ⟨.refl, by simp⟩
  | cons v args ih =>
    have hv : Ends (checkValue call ⟨ts.map StandardType.named, registry⟩ signature (index + 1)
          (signature.typeAt index) [signature.slotFor index] v s)
        (fun s' => ∀ name targs, signature.typeAt index = .var name targs →
          ∃ o ∈ s'.observed (.named name), o.value = v) fun _ => True := by
      by_cases hvar : ∃ name targs, signature.typeAt index = .var name targs
      -- a variable: its value is the first that the step records
      · obtain ⟨name, targs, htype⟩ := hvar
        rw [htype]
        refine (checkValue_var_observed _ name targs _ v s).mono (fun s' h => ?_) fun _ h => h
        rintro _ _ ⟨⟩
        exact ⟨_, h, rfl⟩
      -- no variable: nothing is claimed of the argument
      · exact ends_of_forall (fun _ name targs h => absurd ⟨name, targs, h⟩ hvar) fun _ => trivial
    refine ends_checkArguments_cons ((records_checkValue _ _ _ v s).and hv)
      fun s' ⟨hs', hseen⟩ => ?_
    refine (ih (index + 1) s').mono (fun s'' ⟨hs'', hrest⟩ => ⟨hs'.trans hs'', ?_⟩) fun _ h => h
    refine (forall_getElem?_cons (fun i v => ∀ name targs, signature.typeAt i = .var name targs →
      ∃ o ∈ s''.observed (.named name), o.value = v) index v args).2
        ⟨fun name targs htype => ?_, hrest⟩
    obtain ⟨o, ho, hov⟩ := hseen name targs htype
    exact ⟨o, hs''.observed_subset _ ho, hov⟩

end Check

/-! ## Nominal types and the library's own -/

/-- The type takes the values of one nominal name. -/
def NamedType.isNominal (t : NamedType) : Bool :=
  match t.membership with
  | .nominal _ => true
  | _ => false

namespace Value

/-- A value of a plain class bears the name of the class. -/
theorem nominalName_of_typeRep {v : Value} {b : Builtin} (h : v.typeRep = .builtin b)
    (hbase : b.base? = none) : v.nominalName = b.name := by
  have hlayers : v.layers = [] := by rw [layers, h, TypeRep.layers, hbase]
  rw [nominalName, hlayers]
  show v.typeName = b.name
  rw [typeName, h, TypeRep.name]

/-- The values of a type without parameters that is not narrowed are of plain classes. -/
theorem typeRep_of_has {u : StandardType} {v : Value} (hv : u.has v = true)
    (harity : u.arity = 0) (hrank : u.specificity = 0) (hany : u ≠ .any) :
    ∃ b : Builtin, v.typeRep = .builtin b ∧ b.base? = none := by
  cases v with
  | nothing | just | left | right | identity | object =>
    cases u with
    | array | maybe | either | typeRep => cases harity
    | validNumber | finiteNumber | nonZeroFiniteNumber | integer | nonNegativeInteger =>
      cases hrank
    | any => exact absurd rfl hany
    | _ => cases hv
  | number t n => cases n <;> exact ⟨_, rfl, rfl⟩
  | seq k => cases k <;> exact ⟨_, rfl, rfl⟩
  -- a class is itself of a plain class, whatever its ancestry
  | type r =>
    refine ⟨r.metaclass, rfl, ?_⟩
    rw [TypeRep.metaclass]
    split <;> rfl
  | _ => exact ⟨_, rfl, rfl⟩

end Value

/-- No plain class is called like a type of the library. -/
theorem StandardType.name_ne_name {b : Builtin} (hbase : b.base? = none) (u : StandardType) :
    b.name ≠ u.name := by
  cases b with
  | error k => cases k <;> cases u <;> decide
  | maybe | nothing | just | either | left | right | identity => cases hbase
  | _ => cases u <;> decide

/-- A type from one descriptor that is the same as one from the descriptor of a value accepts the
value, unless just one of the value and the type is known by a class. -/
theorem NamedType.contains_of_types {call : Apply} {ts : List StandardType} {t : NamedType}
    {u v : Value} (ht : t ∈ u.types ts) (hv : (v.types ts).contains t = true) :
    t.contains call v = pure (t.isNominal == v.isForeign ts) := by
  obtain ⟨t', ht', hsame⟩ := List.contains_iff_exists_mem_beq.1 hv
  rcases Value.mem_types ht with ⟨a, ha, hau, rfl⟩ | ⟨hu, rfl⟩
  -- a type of the library accepts the values that have it
  · rw [StandardType.contains_named, Value.test_of_mem_types ht' ha]
    rcases Value.mem_types ht' with ⟨b, hb, hbv, rfl⟩ | ⟨hforeign, rfl⟩
    · have hab : a = b := StandardType.named_beq_named.1 hsame
      have hknown : v.isForeign ts = false := by
        rw [Value.isForeign, List.all_eq_false]
        exact ⟨b, hb, by simp [hbv]⟩
      rw [hknown, hab, hbv]
      rfl
    · have hav : a.has v = false := by simpa using List.all_eq_true.1 hforeign a ha
      rw [hforeign, hav]
      rfl
  -- a nominal type accepts the values of its name
  · rw [NamedType.contains_nominal]
    rcases Value.mem_types ht' with ⟨b, hb, hbv, rfl⟩ | ⟨hforeign, rfl⟩
    · have hknown : v.isForeign ts = false := by
        rw [Value.isForeign, List.all_eq_false]
        exact ⟨b, hb, by simp [hbv]⟩
      obtain ⟨hname, harity, hrank⟩ := StandardType.named_beq_nominal.1 (BEq.symm hsame)
      have hany : b ≠ .any := by
        rintro rfl
        cases List.all_eq_true.1 hu .any hb
      have hne : v.nominalName ≠ b.name := by
        obtain ⟨c, hc, hbase⟩ := Value.typeRep_of_has hbv harity hrank hany
        rw [Value.nominalName_of_typeRep hc hbase]
        exact StandardType.name_ne_name hbase b
      rw [hknown, ← hname, beq_eq_false_iff_ne.2 hne]
      rfl
    · have hname : u.nominalName = v.nominalName := NamedType.nominal_beq_nominal.1 hsame
      rw [hforeign, hname, beq_self_eq_true]
      rfl

/-! ## Bindings -/

/-- The type that a variable is bound to accepts each value seen for the variable, unless just one
of the two is known by a class: the value, belonging to no type of the environment, or the type,
being nominal. -/
theorem binding_accepts_iff {call : Apply} {registry : Registry} {ts : List StandardType}
    {signature : Signature} {args : List Value} {bindings : List (String × NamedType)}
    {w w' : World}
    (h : (check call ⟨ts.map StandardType.named, registry⟩ signature args).outcome w =
      (.ok (.passed bindings), w')) :
    ∃ s w'', (Check.checkArguments call ⟨ts.map StandardType.named, registry⟩ signature 0 args
        .initial).outcome w = (.ok (.ok s), w'') ∧
      bindings = s.bindings ∧
      (∀ i v, args[i]? = some v → ∀ name targs, signature.typeAt i = .var name targs →
        ∃ o ∈ s.observed (.named name), o.value = v) ∧
      ∀ name t, (name, t) ∈ bindings → ∀ o ∈ s.observed (.named name),
        t.contains call o.value = pure (t.isNominal == o.value.isForeign ts) := by
  obtain ⟨s, w'', hargs, hbindings⟩ := Checking.checkArguments_of_passed h
  obtain ⟨⟨seen, hs⟩, hvars⟩ := Check.records_checkArguments 0 args .initial w (.ok s) (by
    show ((Check.checkArguments _ _ _ _ _ _).outcome w).1 = _
    rw [hargs])
  refine ⟨s, w'', hargs, hbindings, by simpa using hvars, ?_⟩
  intro name t ht o ho
  have hfaithful : s.Faithful ts := CheckState.Faithful.initial.recordAll hs
  rw [hbindings] at ht
  obtain ⟨cs, hcs⟩ := hfaithful.candidates?_of_mem_bindings ht
  obtain ⟨u, hu⟩ := hfaithful.described _ _ hcs
  have hcommon := (hfaithful.common _ _ hcs t).1 (by simp) o ho
  exact NamedType.contains_of_types (hu List.mem_cons_self) hcommon

/-! ## A namesake -/

/-- The signature of a function of two values of one type. -/
def sameTwice : Signature :=
  ⟨"same", [], [⟨.var "a" [], false⟩, ⟨.var "a" [], false⟩], .concrete StandardType.boolean.named []⟩

/-- An instance of a class that is called like a type of the library. -/
def namesake : Value := .object .shared (.declared .shared "String" [.declared .shared []]) .null

theorem binding_accepts_iff_namesake : ∃ s : CheckState,
    [("a", StandardType.string.named)] = s.bindings ∧
      ∀ o ∈ s.observed (.named "a"), StandardType.string.named.contains applyFunction o.value =
        pure (StandardType.string.named.isNominal == o.value.isForeign StandardType.standing) := by
  have hpassed : ∃ w, (check applyFunction .standard sameTwice [.str "abc", namesake]).outcome
      .initial = (.ok (.passed [("a", StandardType.string.named)]), w) := ⟨_, rfl⟩
  obtain ⟨w, hpassed⟩ := hpassed
  rw [Vocabulary.standard, StandardType.defaultEnv_eq] at hpassed
  obtain ⟨s, -, -, hbindings, -, haccepts⟩ := binding_accepts_iff hpassed
  exact ⟨s, hbindings, haccepts "a" _ List.mem_cons_self⟩

/-- A string and a value of another class unify, and the variable of both is bound to a type that
does not accept the second. -/
theorem namesake_unifies :
    (∃ w, (check applyFunction .standard sameTwice [.str "abc", namesake]).outcome .initial =
      (.ok (.passed [("a", StandardType.string.named)]), w)) ∧
    sameTwice.typeAt 1 = .var "a" [] ∧
    StandardType.string.named.contains applyFunction namesake = pure false :=
  ⟨⟨_, rfl⟩, rfl, rfl⟩

end CheckedCalls
