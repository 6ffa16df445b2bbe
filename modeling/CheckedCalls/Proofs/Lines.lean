import CheckedCalls.Proofs.Binding
import CheckedCalls.Proofs.Printing
import Mathlib.Data.List.Forall2

/-!
# Lines of reports

A line of a report shows a value: its number, its text and the names of its types. The names can
stand for the types unless an instance of a class is called like a type of the library: no nominal
type of another value is called like a type that the value does not have (`beq_of_name_eq`). So but
for such instances it can be read off the lines whether the values that they show have a type in
common.
-/

namespace CheckedCalls

open CheckState

variable {call : Apply} {ts : List StandardType} {s : CheckState} {u v : Value}

/-! ## Names of types -/

/-- The value is an instance of a class made while the program runs. -/
def Value.IsInstance : Value → Prop
  | .object _ _ _ => True
  | _ => False

theorem Value.not_isInstance_of_isNative (hv : v.isNative = true) : ¬v.IsInstance := by
  cases v with
  | object => cases hv
  | _ => exact id

/-- A value that does not belong to a type of the library has another name, unless it is an
instance of a class of that name. -/
theorem Value.nominalName_ne_name (hv : ¬v.IsInstance) {t : StandardType}
    (ht : t.has v = false) : v.nominalName ≠ t.name := by
  intro hname
  -- the classes with an identifier are those of the sum types and of the identity functor
  have hplain : ∀ b : Builtin, v.typeRep = .builtin b → b.base? = none → False := by
    intro b hb hbase
    rw [nominalName_of_typeRep hb hbase] at hname
    exact StandardType.name_ne_name hbase t hname
  cases v with
  | object => exact hv trivial
  | nothing | just =>
    have hmaybe : t = .maybe := StandardType.name_inj.1 hname.symm
    rw [hmaybe] at ht
    cases ht
  | left | right =>
    have heither : t = .either := StandardType.name_inj.1 hname.symm
    rw [heither] at ht
    cases ht
  | identity =>
    change "Identity" = t.name at hname
    cases t <;> exact absurd hname (by decide)
  | number t n => cases n <;> exact hplain _ rfl rfl
  | seq k => cases k <;> exact hplain _ rfl rfl
  | type r =>
    refine hplain r.metaclass rfl ?_
    rw [TypeRep.metaclass]
    split <;> rfl
  | error t k => exact hplain (.error k) rfl rfl
  | _ => exact hplain _ rfl rfl

/-- Types of one name that describe values are the same, unless one of the values is an instance of
a class of that name. -/
theorem beq_of_name_eq {n : String} {t t' : NamedType} (hu : u.nominalName = n → ¬u.IsInstance)
    (hv : v.nominalName = n → ¬v.IsInstance) (ht : t ∈ u.types ts) (ht' : t' ∈ v.types ts)
    (hname : t.name = n) (hname' : t'.name = n) : (t == t') = true := by
  rcases Value.mem_types ht with ⟨a, ha, -, rfl⟩ | ⟨hforeign, rfl⟩ <;>
    rcases Value.mem_types ht' with ⟨b, hb, -, rfl⟩ | ⟨hforeign', rfl⟩
  · rw [StandardType.name_inj.1 (hname.trans hname'.symm)]
    exact BEq.rfl
  · have hav : a.has v = false := by simpa using List.all_eq_true.1 hforeign' a ha
    exact absurd (hname'.trans hname.symm) (Value.nominalName_ne_name (hv hname') hav)
  · have hbu : b.has u = false := by simpa using List.all_eq_true.1 hforeign b hb
    exact absurd (hname.trans hname'.symm) (Value.nominalName_ne_name (hu hname) hbu)
  · exact NamedType.nominal_beq_nominal.2 (hname.trans hname'.symm)

/-! ## Lines -/

/-- The line shows the value, by its text and with the name of each type that it has. -/
structure OffendingValue.Shows (call : Apply) (env : List NamedType) (line : OffendingValue)
    (v : Value) : Prop where
  text : ∃ w, ((v.toText call).outcome w).1 = .ok line.text
  types : ∃ d, describe call env v = pure d ∧ line.types = d.map NamedType.name

/-- The lines show the values, numbered from one in their order. -/
def Lists (call : Apply) (env : List NamedType) (lines : List OffendingValue) (xs : List Value) :
    Prop :=
  List.Forall₂ (fun line x => line.number = (x.2 : Int) ∧ line.Shows call env x.1) lines
    (xs.zipIdx 1)

theorem Lists.shows {env : List NamedType} {lines : List OffendingValue} {xs : List Value}
    (h : Lists call env lines xs) :
    List.Forall₂ (OffendingValue.Shows call env) lines xs := by
  have hfst : (xs.zipIdx 1).map Prod.fst = xs := List.zipIdx_map_fst 1 xs
  rw [← hfst, List.forall₂_map_right_iff]
  exact h.imp fun _ _ => And.right

/-- The types that a line names are those of the value that it shows. -/
theorem OffendingValue.Shows.mem_types_iff {line : OffendingValue}
    (h : line.Shows call (ts.map StandardType.named) v) {n : String} :
    n ∈ line.types ↔ ∃ t ∈ v.types ts, t.name = n := by
  obtain ⟨-, d, hd, htypes⟩ := h
  rw [describe_named, Run.liftM_eq_pure_iff] at hd
  rw [htypes, Value.types_of_descriptor hd, List.mem_map]

/-- A line names some type. -/
theorem OffendingValue.Shows.exists_type {line : OffendingValue}
    (h : line.Shows call (ts.map StandardType.named) v) : ∃ t, t ∈ v.types ts := by
  obtain ⟨-, d, hd, -⟩ := h
  rw [describe_named, Run.liftM_eq_pure_iff] at hd
  rw [Value.types_of_descriptor hd]
  by_cases hforeign : ∀ u ∈ ts, u.has v = false
  · exact ⟨_, (Value.mem_descriptor hd).2 (.inr ⟨hforeign, rfl⟩)⟩
  · push Not at hforeign
    obtain ⟨u, hu, hhas⟩ := hforeign
    exact ⟨_, (Value.mem_descriptor hd).2 (.inl ⟨u, hu, by simpa using hhas, rfl⟩)⟩

/-- The lines all name a type exactly if the values that they show all have a type of the name. -/
theorem forall_mem_types_iff {lines : List OffendingValue} {xs : List Value}
    (h : List.Forall₂ (OffendingValue.Shows call (ts.map StandardType.named)) lines xs)
    (n : String) :
    (∀ line ∈ lines, n ∈ line.types) ↔ ∀ x ∈ xs, ∃ t ∈ x.types ts, t.name = n := by
  induction h with
  | nil => simp
  | cons hline hlines ih => rw [List.forall_mem_cons, List.forall_mem_cons, hline.mem_types_iff, ih]

/-- Values that all have a type of one name have a type in common, unless one of them is an instance
of a class of that name. -/
theorem exists_common_of_name {n : String} {xs : List Value} (hne : xs ≠ [])
    (hxs : ∀ x ∈ xs, x.nominalName = n → ¬x.IsInstance)
    (h : ∀ x ∈ xs, ∃ t ∈ x.types ts, t.name = n) :
    ∃ t, ∀ x ∈ xs, (x.types ts).contains t = true := by
  -- any of the types of the name is the one in common, such as that of the first value
  obtain ⟨x, rest, rfl⟩ := List.exists_cons_of_ne_nil hne
  obtain ⟨t, ht, hname⟩ := h x List.mem_cons_self
  refine ⟨t, fun y hy => List.contains_iff_exists_mem_beq.2 ?_⟩
  obtain ⟨t', ht', hname'⟩ := h y hy
  have hsame := beq_of_name_eq (hxs x List.mem_cons_self) (hxs y hy) ht ht' hname hname'
  exact ⟨t', ht', hsame⟩

/-- Values that have a type in common have types of one name. -/
theorem exists_name_of_common {xs : List Value} {t : NamedType}
    (h : ∀ x ∈ xs, (x.types ts).contains t = true) :
    ∀ x ∈ xs, ∃ t' ∈ x.types ts, t'.name = t.name := by
  intro x hx
  obtain ⟨t', ht', hsame⟩ := List.contains_iff_exists_mem_beq.1 (h x hx)
  exact ⟨t', ht', (NamedType.beq_iff.1 hsame).1.symm⟩

/-! ## Values of one variable -/

/-- The report lists at least two values, which have no type in common. No name of a type is common
to all lines, unless one of the values is an instance of a class of that name; but some name is
common to all lines but the last. -/
structure Violation.LeavesNoType (ts : List StandardType) (v : Violation) (xs : List Value) :
    Prop where
  two : 2 ≤ v.values.length
  none : ¬∃ t, ∀ x ∈ xs, (x.types ts).contains t = true
  names : ∀ n, (∀ line ∈ v.values, n ∈ line.types) → ∃ x ∈ xs, x.IsInstance ∧ x.nominalName = n
  before : ∃ n, ∀ line ∈ v.values.dropLast, n ∈ line.types

/-- A value that cannot be recorded has no type that all values before have. -/
theorem CheckState.Faithful.not_exists_common {key : VarKey} {o : Observation}
    (hs : s.Faithful ts) (h : s.record ts key o = none) :
    ¬∃ t, ∀ p ∈ s.observed key ++ [o], (p.value.types ts).contains t = true := by
  rintro ⟨t, ht⟩
  obtain ⟨s', hs'⟩ := hs.exists_record ht
  rw [h] at hs'
  cases hs'

/-- Values of which the last one could not be recorded leave no type, as the lines say. -/
theorem leavesNoType {key : VarKey} {o : Observation} {v : Violation} (hs : s.Faithful ts)
    (hrecord : s.record ts key o = none)
    (hlists : Lists call (ts.map StandardType.named) v.values
      ((s.observed key ++ [o]).map Observation.value)) :
    v.LeavesNoType ts ((s.observed key ++ [o]).map Observation.value) := by
  have hshows := hlists.shows
  have hnone : ¬∃ t, ∀ x ∈ (s.observed key ++ [o]).map Observation.value,
      (x.types ts).contains t = true := by
    simpa only [List.forall_mem_map] using hs.not_exists_common hrecord
  have hne : (s.observed key ++ [o]).map Observation.value ≠ [] := by simp
  -- a first value would be recorded, since it has a type
  have hseen : s.observed key ≠ [] := by
    intro hnil
    rw [hnil] at hnone hshows
    obtain ⟨line, lines, hline, -, -⟩ := List.forall₂_cons_right_iff.1 hshows
    obtain ⟨t, ht⟩ := hline.exists_type
    refine hnone ⟨t, fun x hx => ?_⟩
    cases List.mem_singleton.1 hx
    exact List.contains_iff_exists_mem_beq.2 ⟨t, ht, BEq.rfl⟩
  have hbefore : List.Forall₂ (OffendingValue.Shows call (ts.map StandardType.named))
      v.values.dropLast ((s.observed key).map Observation.value) := by
    have htake := List.forall₂_take (v.values.length - 1) hshows
    rw [← List.dropLast_eq_take, List.Forall₂.length_eq hshows] at htake
    simpa using htake
  refine ⟨?_, hnone, fun n hn => ?_, ?_⟩
  · have hlength := List.Forall₂.length_eq hshows
    have hpos := List.length_pos_iff.2 hseen
    rw [hlength, List.length_map, List.length_append]
    exact Nat.succ_le_succ hpos
  · by_contra hplain
    refine hnone (exists_common_of_name hne (fun x hx hname hinstance => ?_)
      ((forall_mem_types_iff hshows n).1 hn))
    exact hplain ⟨x, hx, hinstance, hname⟩
  · obtain ⟨t, ht⟩ := hs.exists_common key
    have hcommon := exists_name_of_common (List.forall_mem_map.2 ht)
    exact ⟨t.name, (forall_mem_types_iff hbefore t.name).2 hcommon⟩

end CheckedCalls
