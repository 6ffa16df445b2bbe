import CheckedCalls.Proofs.Lasting
import CheckedCalls.Proofs.Merging

/-!
# The laws of semigroups and monoids

Combining two values denotes a multiplication on types: texts and sequences are joined, dictionaries
are merged, and of optional values and eithers those of one kind combine what they hold. It is
associative by induction on how the semigroup is built. Both sides of a law hold the same objects,
so their comparison answers true, unless it comes to a moment that its offset shifts out of the
calendar: then it overflows.
-/

namespace CheckedCalls

open Run Value

/-- The semigroups of the library, nested to any depth. -/
inductive Joinable
  | text
  | seq (k : SeqKind)
  | dict
  | maybe (J : Joinable)
  | either (L R : Joinable)

namespace Joinable

/-! ## What values of a semigroup denote -/

/-- What there is to a value of the semigroup, but for the objects that wrap it. -/
def Meaning : Joinable → Type
  | .text => String
  | .seq _ => List Value
  | .dict => List (Value × Value)
  | .maybe J => Option J.Meaning
  | .either L R => L.Meaning ⊕ R.Meaning

/-- The value is of the semigroup. -/
def Denotes : (J : Joinable) → Value → J.Meaning → Prop
  | .text, v, (s : String) => ∃ t, v = .text t s
  | .seq k, v, (xs : List Value) => ∃ t, v = .seq k t xs
  | .dict, v, (es : List (Value × Value)) => ∃ t, v = .dict t es
  | .maybe J, v, (o : Option J.Meaning) => match o with
    | none => v = .nothing
    | some a => ∃ t x, v = .just t x ∧ J.Denotes x a
  | .either L R, v, (s : L.Meaning ⊕ R.Meaning) => match s with
    | .inl a => ∃ t x, v = .left t x ∧ L.Denotes x a
    | .inr b => ∃ t x, v = .right t x ∧ R.Denotes x b

section World

variable (call : Apply) (w : World) (S : Value → Prop)

/-- The elements and what stands under the keys are equal to themselves as far as they can be
compared, and the keys are of a class. -/
def Proper : (J : Joinable) → J.Meaning → Prop
  | .text, _ => True
  | .seq _, (xs : List Value) => ∀ x ∈ xs, Lasting call w x
  | .dict, (es : List (Value × Value)) => KeyedBy call w S es ∧ ∀ e ∈ es, Lasting call w e.2
  | .maybe J, (o : Option J.Meaning) => ∀ a ∈ o, J.Proper a
  | .either L R, (s : L.Meaning ⊕ R.Meaning) => match s with
    | .inl a => L.Proper a
    | .inr b => R.Proper b

/-- The multiplication of the semigroup. -/
noncomputable def mul : (J : Joinable) → J.Meaning → J.Meaning → J.Meaning
  | .text, (s : String), (t : String) => s ++ t
  | .seq _, (xs : List Value), (ys : List Value) => xs ++ ys
  | .dict, es, fs => Value.union call w S es fs
  | .maybe J, (a : Option J.Meaning), (b : Option J.Meaning) => match a, b with
    | none, b => b
    | a, none => a
    | some a, some b => some (J.mul a b)
  | .either L R, (a : L.Meaning ⊕ R.Meaning), (b : L.Meaning ⊕ R.Meaning) => match a, b with
    | .inl a, .inl b => .inl (L.mul a b)
    | .inl _, .inr b => .inr b
    | .inr a, .inl _ => .inr a
    | .inr a, .inr b => .inr (R.mul a b)

end World

variable {call : Apply} {w : World} {S : Value → Prop}

/-- Joining is associative. -/
theorem mul_assoc (J : Joinable) (a b c : J.Meaning) :
    J.mul call w S (J.mul call w S a b) c = J.mul call w S a (J.mul call w S b c) := by
  induction J with
  | text => exact String.append_assoc
  | seq k => exact List.append_assoc a b c
  | dict => exact union_assoc a b c
  | maybe J ih =>
    cases a <;> cases b <;> cases c <;> first | rfl | exact congrArg some (ih _ _ _)
  | either L R ihL ihR =>
    cases a <;> cases b <;> cases c <;> first
      | rfl
      | exact congrArg Sum.inl (ihL _ _ _)
      | exact congrArg Sum.inr (ihR _ _ _)

/-- What is joined from proper values is proper. -/
theorem proper_mul {J : Joinable} {a b : J.Meaning} (ha : J.Proper call w S a)
    (hb : J.Proper call w S b) : J.Proper call w S (J.mul call w S a b) := by
  induction J with
  | text => trivial
  | seq k => exact List.forall_mem_append.2 ⟨ha, hb⟩
  | dict =>
    refine ⟨Keying.keyedBy_union ha.1 hb.1, fun e he => ?_⟩
    exact (forall_mem_union (P := fun _ => True) (fun e he => ⟨trivial, ha.2 e he⟩)
      (fun e he => ⟨trivial, hb.2 e he⟩) e he).2
  | maybe J ih =>
    rcases a with _ | a
    · exact hb
    rcases b with _ | b
    · exact ha
    · rintro _ ⟨⟩
      exact ih (ha a rfl) (hb b rfl)
  | either L R ihL ihR =>
    cases a <;> cases b
    · exact ihL ha hb
    · exact hb
    · exact ha
    · exact ihR ha hb

/-! ## Combining -/

/-- Two texts are joined to one text. -/
theorem exists_joinText (s : Tag) (a : String) (t : Tag) (b : String) :
    ∃ r, joinText s a t b = .text r (a ++ b) := by
  rw [joinText]
  split
  · rename_i h
    rw [String.isEmpty_iff.1 h]
    exact ⟨t, by simp⟩
  split
  · rename_i h
    rw [String.isEmpty_iff.1 h]
    exact ⟨s, by simp⟩
  · exact ⟨_, rfl⟩

theorem exists_joinSeq (k : SeqKind) (s : Tag) (xs : List Value) (t : Tag) (ys : List Value) :
    ∃ r, joinSeq k s xs t ys = .seq k r (xs ++ ys) := by
  rw [joinSeq]
  split
  · rename_i h
    rw [List.isEmpty_iff.1 (Bool.and_eq_true_iff.1 h).2]
    exact ⟨t, rfl⟩
  split
  · rename_i h
    rw [List.isEmpty_iff.1 (Bool.and_eq_true_iff.1 h).2, List.append_nil]
    exact ⟨s, rfl⟩
  · exact ⟨_, rfl⟩

theorem concat_seq (k : SeqKind) (s : Tag) (xs : List Value) (t : Tag) (ys : List Value) :
    concat call (.seq k s xs) (.seq k t ys) = pure (joinSeq k s xs t ys) := by
  rw [concat, if_pos rfl]

/-- Combining two values of a semigroup answers one that stands for their product. -/
theorem concat_answers (hS : Keying call w S) {J : Joinable} {x y : Value} {a b : J.Meaning}
    (hx : J.Denotes x a) (hy : J.Denotes y b) (ha : J.Proper call w S a)
    (hb : J.Proper call w S b) :
    ∃ v, (concat call x y).Answers w v ∧ J.Denotes v (J.mul call w S a b) := by
  induction J generalizing x y with
  | text =>
    obtain ⟨s, rfl⟩ := hx
    obtain ⟨t, rfl⟩ := hy
    exact ⟨_, answers_pure _ w, exists_joinText s _ t _⟩
  | seq k =>
    obtain ⟨s, rfl⟩ := hx
    obtain ⟨t, rfl⟩ := hy
    exact ⟨_, concat_seq k s _ t _ ▸ answers_pure _ w, exists_joinSeq k s _ t _⟩
  | dict =>
    obtain ⟨s, rfl⟩ := hx
    obtain ⟨t, rfl⟩ := hy
    exact ⟨_, (hS.setEntries_answers ha.1 hb.1).bind (answers_pure _ w), _, rfl⟩
  | maybe J ih =>
    rcases a with _ | a
    · cases hx
      exact ⟨y, answers_pure y w, hy⟩
    obtain ⟨s, x, rfl, hx⟩ := hx
    rcases b with _ | b
    · cases hy
      exact ⟨_, answers_pure _ w, s, x, rfl, hx⟩
    -- only where both hold something do the contents combine
    obtain ⟨t, y, rfl, hy⟩ := hy
    obtain ⟨v, hv, hdenotes⟩ := ih hx hy (ha a rfl) (hb b rfl)
    exact ⟨_, hv.bind (answers_pure _ w), _, v, rfl, hdenotes⟩
  | either L R ihL ihR =>
    rcases a with a | a <;> rcases b with b | b
    all_goals
      obtain ⟨s, x, rfl, hx⟩ := hx
      obtain ⟨t, y, rfl, hy⟩ := hy
    -- eithers of one kind combine what they hold, and of two kinds the success stays
    · obtain ⟨v, hv, hdenotes⟩ := ihL hx hy ha hb
      exact ⟨_, hv.bind (answers_pure _ w), _, v, rfl, hdenotes⟩
    · exact ⟨_, answers_pure _ w, t, y, rfl, hy⟩
    · exact ⟨_, answers_pure _ w, s, x, rfl, hx⟩
    · obtain ⟨v, hv, hdenotes⟩ := ihR hx hy ha hb
      exact ⟨_, hv.bind (answers_pure _ w), _, v, rfl, hdenotes⟩

theorem equals_text_self (s t : Tag) (a : String) :
    equals call (.text s a) (.text t a) = Run.answer true := by
  rw [equals, beq_self_eq_true]

/-- Values that stand for the same hold the same objects, so they are equal as these are to
themselves. -/
theorem overflowsIf_equals (hS : Keying call w S) {J : Joinable} {x y : Value} {a : J.Meaning}
    (hx : J.Denotes x a) (hy : J.Denotes y a) (ha : J.Proper call w S a) :
    (equals call x y).OverflowsIf w (x.isTimely = false) (· = .bool true) := by
  induction J generalizing x y with
  | text =>
    obtain ⟨s, rfl⟩ := hx
    obtain ⟨t, rfl⟩ := hy
    exact .inl ⟨by simp [isTimely], _, equals_text_self s t _ ▸ answers_pure _ w, rfl⟩
  | seq k =>
    obtain ⟨s, rfl⟩ := hx
    obtain ⟨t, rfl⟩ := hy
    exact overflowsIf_equals_sameElements k s t fun x hx => (ha x hx).equalsItself
  | dict =>
    obtain ⟨s, rfl⟩ := hx
    obtain ⟨t, rfl⟩ := hy
    exact overflowsIf_equals_sameEntries s t (hS.distinct ha.1) fun e he => (ha.2 e he).equalsItself
  | maybe J ih =>
    rcases a with _ | a
    · cases hx
      cases hy
      exact .inl ⟨by simp [isTimely], _, answers_pure _ w, rfl⟩
    · obtain ⟨s, x, rfl, hx⟩ := hx
      obtain ⟨t, y, rfl, hy⟩ := hy
      have hheld := ih hx hy (ha a rfl)
      exact hheld
  | either L R ihL ihR =>
    rcases a with a | a
    all_goals
      obtain ⟨s, x, rfl, hx⟩ := hx
      obtain ⟨t, y, rfl, hy⟩ := hy
    · have hheld := ihL hx hy ha
      exact hheld
    · have hheld := ihR hx hy ha
      exact hheld

/-- Values that stand for the same come to the same moments. -/
theorem isTimely_eq {J : Joinable} {x y : Value} {a : J.Meaning} (hx : J.Denotes x a)
    (hy : J.Denotes y a) : x.isTimely = y.isTimely := by
  induction J generalizing x y with
  | text | seq | dict =>
    obtain ⟨s, rfl⟩ := hx
    obtain ⟨t, rfl⟩ := hy
    rfl
  | maybe J ih =>
    rcases a with _ | a
    · cases hx
      cases hy
      rfl
    · obtain ⟨s, x, rfl, hx⟩ := hx
      obtain ⟨t, y, rfl, hy⟩ := hy
      simpa [isTimely] using ih hx hy
  | either L R ihL ihR =>
    rcases a with a | a
    all_goals
      obtain ⟨s, x, rfl, hx⟩ := hx
      obtain ⟨t, y, rfl, hy⟩ := hy
    · simpa [isTimely] using ihL hx hy
    · simpa [isTimely] using ihR hx hy

/-! ## Identity elements -/

/-- The class that supplies the identity element; eithers have none. -/
def rep? : Joinable → Option Value
  | .text => some (.type (.builtin .str))
  | .seq .list => some (.type (.builtin .list))
  | .seq .tuple => some (.type (.builtin .tuple))
  | .dict => some (.type (.builtin .dict))
  | .maybe _ => some (.type (.builtin .maybe))
  | .either _ _ => none

/-- The class of a monoid answers a value that stands for the identity of the multiplication. -/
theorem empty_answers {J : Joinable} {rep : Value} (hrep : J.rep? = some rep) :
    ∃ e u, (empty call rep).Answers w e ∧ J.Denotes e u ∧ J.Proper call w S u ∧
      (∀ a, J.mul call w S u a = a) ∧ ∀ a, J.mul call w S a u = a := by
  cases J with
  | text =>
    cases hrep
    exact ⟨_, "", rfl, ⟨_, rfl⟩, trivial, fun a => String.empty_append,
      fun a => String.append_empty⟩
  | seq k =>
    cases k <;> cases hrep <;>
      exact ⟨_, ([] : List Value), rfl, ⟨_, rfl⟩, nofun, List.nil_append, List.append_nil⟩
  | dict =>
    cases hrep
    exact ⟨_, ([] : List (Value × Value)), rfl, ⟨_, rfl⟩, ⟨⟨nofun, .nil⟩, nofun⟩,
      fun a => nil_union, fun a => union_nil⟩
  | maybe J =>
    cases hrep
    refine ⟨_, none, rfl, rfl, nofun, fun a => rfl, fun a => ?_⟩
    cases a <;> rfl
  | either => cases hrep

/-! ## Laws -/

/-- Members of the semigroup as a program can hold them. -/
def Member (call : Apply) (w : World) (store : Nat → Value) (J : Joinable) (x : Value) : Prop :=
  ∃ a, J.Denotes x a ∧ J.Proper call w (IsKey call w store) a

/-- Combining is associative and has the identity element of the class. All combinations answer,
and the two sides are equal, unless comparing them comes to a moment that its offset shifts out of
the calendar. -/
theorem concat_laws (call : Apply) (w : World) (store : Nat → Value) (J : Joinable) :
    (∀ x y z, J.Member call w store x → J.Member call w store y → J.Member call w store z →
      ∃ l r, Run.Answers (do concat call (← concat call x y) z) w l ∧
        Run.Answers (do concat call x (← concat call y z)) w r ∧
        (equals call l r).OverflowsIf w (l.isTimely = false) (· = .bool true)) ∧
    ∀ rep x, J.rep? = some rep → J.Member call w store x →
      ∃ l r, Run.Answers (do concat call (← empty call rep) x) w l ∧
        Run.Answers (do concat call x (← empty call rep)) w r ∧
        (equals call l x).OverflowsIf w (x.isTimely = false) (· = .bool true) ∧
        (equals call r x).OverflowsIf w (x.isTimely = false) (· = .bool true) := by
  have hS := IsKey.keying call w store
  constructor
  · rintro x y z ⟨a, hx, ha⟩ ⟨b, hy, hb⟩ ⟨c, hz, hc⟩
    obtain ⟨xy, hxy, hdxy⟩ := concat_answers hS hx hy ha hb
    obtain ⟨yz, hyz, hdyz⟩ := concat_answers hS hy hz hb hc
    obtain ⟨l, hl, hdl⟩ := concat_answers hS hdxy hz (proper_mul ha hb) hc
    obtain ⟨r, hr, hdr⟩ := concat_answers hS hx hdyz ha (proper_mul hb hc)
    rw [← mul_assoc] at hdr
    refine ⟨l, r, hxy.bind hl, hyz.bind hr, ?_⟩
    exact overflowsIf_equals hS hdl hdr (proper_mul (proper_mul ha hb) hc)
  · rintro rep x hrep ⟨a, hx, ha⟩
    obtain ⟨e, u, he, hde, hu, hleft, hright⟩ := empty_answers (S := IsKey call w store) hrep
    obtain ⟨l, hl, hdl⟩ := concat_answers hS hde hx hu ha
    obtain ⟨r, hr, hdr⟩ := concat_answers hS hx hde ha hu
    rw [hleft] at hdl
    rw [hright] at hdr
    refine ⟨l, r, he.bind hl, he.bind hr, ?_, ?_⟩
    · rw [← isTimely_eq hdl hx]
      exact overflowsIf_equals hS hdl hx ha
    · rw [← isTimely_eq hdr hx]
      exact overflowsIf_equals hS hdr hx ha

/-- The keys one and true are one key, also of dictionaries that are optional. -/
theorem concat_laws_dict :
    let one : Value := .just .fresh (.dict .fresh [(.number (.numbered 0) (.int 1), .int 1)])
    let yes : Value := .just .fresh (.dict .fresh [(.bool true, .int 2)])
    let both : Value := .just .fresh (.dict .fresh [(.number (.numbered 0) (.int 1), .int 2)])
    (∃ r, Run.Answers (do concat applyFunction one (← concat applyFunction yes .nothing))
      .initial r ∧ (equals applyFunction both r).Answers .initial (.bool true)) ∧
    ∃ r, Run.Answers (do concat applyFunction one (← empty applyFunction (.type (.builtin .maybe))))
      .initial r ∧ (equals applyFunction r one).Answers .initial (.bool true) := by
  intro one yes both
  let store n : Value := .number (.numbered n) (.int 1)
  have hmember {k : Value} (hk : k.Sound applyFunction .initial store)
      (hhash : ∃ h, (k.hashKey applyFunction).Answers .initial h) (n : Int)
      (hn : (Value.int n).identical (.int n) = true) :
      (Joinable.maybe .dict).Member applyFunction .initial store
        (.just .fresh (.dict .fresh [(k, .int n)])) := by
    refine ⟨some [(k, .int n)], ⟨_, _, rfl, _, rfl⟩, ?_⟩
    rintro _ ⟨⟩
    exact ⟨⟨List.forall_mem_singleton.2 (.data hk hhash), List.pairwise_singleton _ _⟩,
      List.forall_mem_singleton.2 (.scalar rfl hn)⟩
  have hone := hmember (.number (n := 0) rfl) ⟨_, rfl⟩ 1 rfl
  have hyes := hmember (.bool true) ⟨_, rfl⟩ 2 rfl
  have hnothing : (Joinable.maybe .dict).Member applyFunction .initial store .nothing :=
    ⟨none, rfl, nofun⟩
  obtain ⟨hassoc, hunit⟩ := concat_laws applyFunction .initial store (.maybe .dict)
  constructor
  · obtain ⟨l, r, hl, hr, ⟨-, _, h, rfl⟩ | ⟨htimely, -⟩⟩ := hassoc _ _ _ hone hyes hnothing
    · cases hl.unique (show Run.Answers _ .initial both from rfl)
      exact ⟨r, hr, h⟩
    · cases hl.unique (show Run.Answers _ .initial both from rfl)
      cases htimely
  · obtain ⟨-, r, -, hr, -, ⟨-, _, h, rfl⟩ | ⟨htimely, -⟩⟩ := hunit _ _ rfl hone
    · exact ⟨r, hr, h⟩
    · cases htimely

/-- A moment that its offset shifts out of the calendar cannot be compared with itself, neither in a
sequence nor where it is held by a key. -/
theorem concat_laws_fail :
    let hours : Value := .list [firstHour]
    let keyed (n : Nat) : Value := .dict .fresh [(.just (.numbered n) firstHour, .null)]
    ((Law.semigroupAssociativity.run applyFunction [hours, .list [], .list []]).outcome
        .initial).1 = .error .overflow ∧
      ((Law.monoidRightIdentity.run applyFunction
        [.type (.builtin .list), hours]).outcome .initial).1 = .error .overflow ∧
      ((concat applyFunction (keyed 1) (keyed 2)).outcome .initial).1 = .error .overflow :=
  ⟨rfl, rfl, rfl⟩

end Joinable

end CheckedCalls
