import CheckedCalls.Proofs.Spans
import CheckedCalls.Proofs.Visits

/-!
# What a check meets

A check meets the values that its arguments hold, each against a part of the slot of the argument:
`TypeExpr.Meets` says which, whatever the types of the signature hand out. A value that is unified
with a variable was met there, or it is held by one that was, on the way that its key shows
(`VarKey.Leads`).
-/

namespace CheckedCalls

open CheckState Checking Check

/-- The elements of a container are those it runs through. -/
theorem Value.ensures_elements (container : Value) :
    Run.Ensures container.elements container.RunsThrough := by
  intro w xs hxs
  cases container <;> cases hxs <;> rfl

/-! ## What is met -/

/-- The container for the parameter at a place runs through the value. -/
def FoundAt (params : List Value) (i : Nat) (x : Value) : Prop :=
  ∃ items xs, params[i]? = some items ∧ items.RunsThrough xs ∧ x ∈ xs

namespace TypeExpr

variable (call : Apply) (env : List NamedType)

/-- How a value of the expression is opened: by its named type, to which the value belongs, or for a
variable by one of the types that describe values. -/
def Opens : TypeExpr → Value → Extraction → Prop
  | .var _ _, _, e => ∃ t ∈ env, t.extraction = some e
  | .concrete t _, x, e => (t.contains call x).CanAnswer true ∧ t.extraction = some e
  | _, _, _ => False

/-- A check of a value against an expression meets a value at a part of the expression: the value
itself, and what a value that is met holds for the arguments of its part. -/
inductive Meets (e : TypeExpr) (v : Value) : SpanKey → TypeExpr → Value → Prop
  | here : Meets e v [] e v
  | inside {path part x extraction params i arg y} (hmeets : Meets e v path part x)
    (hopens : part.Opens call env x extraction)
    (hrun : (extraction.run call x).CanAnswer params) (harg : part.parts[i]? = some arg)
    (hfound : FoundAt (trailing part.parts.length params) i y) : Meets e v (path ++ [i]) arg y

variable {call env} {e part arg : TypeExpr} {v x : Value} {path : SpanKey} {i : Nat}

/-- A path goes on to an argument of the part it leads to. -/
theorem partAt_snoc (h : e.partAt path = some part) (harg : part.parts[i]? = some arg) :
    e.partAt (path ++ [i]) = some arg := by
  induction path generalizing e with
  | nil =>
    cases h
    rw [List.nil_append, partAt, harg]
    rfl
  | cons j path ih =>
    obtain ⟨child, hchild, hpart⟩ := Option.bind_eq_some_iff.1 h
    rw [List.cons_append, partAt, hchild]
    exact ih hpart

/-- A value is met at the part that its path leads to. -/
theorem Meets.partAt (h : Meets call env e v path part x) : e.partAt path = some part := by
  induction h with
  | here => rfl
  | inside _ _ _ harg _ ih => exact partAt_snoc ih harg

end TypeExpr

/-- The check of the arguments makes the visit in the argument at a place. -/
def Signature.Meets (call : Apply) (env : List NamedType) (signature : Signature)
    (args : List Value) (i : Nat) (visit : Visit) : Prop :=
  ∃ a path, args[i]? = some a ∧ visit.key = signature.slotFor i :: path ∧
    (signature.typeAt i).Meets call env a path visit.expr visit.value

namespace VarKey

/-- The variable that a key belongs to. -/
def root : VarKey → String
  | .named name => name
  | .inner outer _ => outer.root

/-- The way from a value of the variable to a value of the key: one that is held by a value of the
outer key, as one of the types that describe values shows it. -/
def Leads (call : Apply) (env : List NamedType) : VarKey → Value → Value → Prop
  | .named _, v, x => x = v
  | .inner outer i, v, x => ∃ u, outer.Leads call env v u ∧ ∃ t ∈ env, ∃ e, t.extraction = some e ∧
      ∃ params, (e.run call u).CanAnswer params ∧ FoundAt params i x

end VarKey

namespace Signature.Meets

variable {call : Apply} {env : List NamedType} {signature : Signature} {args : List Value} {i : Nat}
variable {visit : Visit}

/-- The parts of a slot at which values are met have columns, those of their text. -/
theorem span?_covers (haccepts : signature.accepts args.length = true)
    (h : signature.Meets call env args i visit) :
    ∃ span, signature.span? visit.key = some span ∧
      Span.Covers span signature.text visit.expr.text := by
  obtain ⟨a, path, ha, hkey, hmeets⟩ := h
  obtain ⟨hi, -⟩ := List.getElem?_eq_some_iff.1 ha
  have hslot := List.getElem?_eq_getElem (slotFor_lt haccepts hi)
  have hpart := hmeets.partAt
  rw [Signature.typeAt, hslot] at hpart
  rw [hkey]
  exact Signature.span?_covers hslot hpart

end Signature.Meets

/-! ## Types that open values -/

/-- Those of the types that open values belong to the environment. -/
def OpensFrom (env types : List NamedType) : Prop :=
  ∀ t ∈ types, t.extraction.isSome = true → t ∈ env

/-- What takes a value apart is the extraction of a type of the environment. -/
theorem OpensFrom.exists_of_extractor? {env types : List NamedType} {named : Nat} {e : Extraction}
    (h : OpensFrom env types) (he : extractor? types named = some e) :
    ∃ t ∈ env, t.extraction = some e := by
  obtain ⟨t, ht, hte⟩ := CheckedCalls.exists_of_extractor? he
  exact ⟨t, h t ht (Option.isSome_iff_exists.2 ⟨e, hte⟩), hte⟩

theorem ensures_filterAuxM {α : Type} (p : α → Run Bool) (as acc : List α) :
    Run.Ensures (List.filterAuxM p as acc) fun bs => ∀ b ∈ bs, b ∈ as ∨ b ∈ acc := by
  induction as generalizing acc with
  | nil => exact Run.ensures_pure fun b hb => .inr hb
  | cons a as ih =>
    rw [List.filterAuxM]
    refine Run.ensures_bind (Run.ensures_canAnswer _) fun keep _ => ?_
    refine (ih _).mono fun bs hbs b hb => ?_
    rcases hbs b hb with hmem | hmem
    · exact .inl (List.mem_cons_of_mem _ hmem)
    · cases keep with
      | false => exact .inr hmem
      | true =>
        rcases List.mem_cons.1 hmem with rfl | hmem
        · exact .inl List.mem_cons_self
        · exact .inr hmem

/-- A value is described by types of the environment, or by its nominal type. -/
theorem ensures_describe_mem (call : Apply) (env : List NamedType) (v : Value) :
    Run.Ensures (describe call env v) fun d => ∀ t ∈ d, t ∈ env ∨ t = .nominal v.nominalName := by
  have hfilter : Run.Ensures (env.filterM fun t => t.contains call v) (· ⊆ env) := by
    refine Run.ensures_bind (ensures_filterAuxM _ env []) fun bs hbs => ?_
    refine Run.ensures_pure fun t ht => ?_
    simpa using hbs t (List.mem_reverse.1 ht)
  refine Run.ensures_bind hfilter fun types htypes => Run.ensures_pure fun t ht => ?_
  split at ht
  · exact .inr (List.mem_singleton.1 ht)
  · exact .inl (htypes ht)

/-- Those that open values are of the environment, since a nominal type opens nothing. -/
theorem ensures_describe (call : Apply) (env : List NamedType) (v : Value) :
    Run.Ensures (describe call env v) (OpensFrom env) := by
  refine (ensures_describe_mem call env v).mono fun d hd t ht hopens => ?_
  rcases hd t ht with hmem | rfl
  · exact hmem
  · cases hopens

/-! ## Loops -/

section Loops

variable {P : CheckState → Prop} {s : CheckState}

/-- A loop over the values of containers keeps what each of its rounds keeps. -/
theorem ends_forEach_of {step : CheckState → Value → Checking CheckState} {container : Value}
    {Q : Violation → Prop}
    (hstep : ∀ xs x s, container.RunsThrough xs → x ∈ xs → P s → Ends (step s x) P Q)
    (hs : P s) : Ends (forEach container step s) P Q := by
  refine ends_run_bind container.ensures_elements fun xs hxs => ?_
  let R : List Value → CheckState → Prop := fun rest s => rest ⊆ xs ∧ P s
  have hround : ∀ x rest s, R (x :: rest) s → Ends (step s x) (R rest) Q := by
    rintro x rest s ⟨hsub, hs⟩
    rw [List.cons_subset] at hsub
    exact (hstep xs x s hxs hsub.1 hs).mono (fun _ h => ⟨hsub.2, h⟩) fun _ h => h
  exact (ends_foldlM (R := R) hround ⟨List.Subset.refl _, hs⟩).mono (fun _ h => h.2) fun _ h => h

theorem ends_forPlaces_of {step : Nat → CheckState → Value → Checking CheckState}
    {Q : Violation → Prop} (k : Nat) (params : List Value)
    (hstep : ∀ j x s, FoundAt params j x → P s → Ends (step (k + j) s x) P Q) (hs : P s) :
    Ends (forPlaces (fun i s items => forEach items (step i) s) k params s) P Q := by
  induction params generalizing k s with
  | nil => exact ends_pure hs
  | cons items params ih =>
    refine ends_bind (ends_forEach_of (fun xs x s hxs hx hs => ?_) hs) fun s' hs' =>
      ih (k + 1) (fun j x s hfound hs => ?_) hs'
    · exact hstep 0 x s ⟨items, xs, rfl, hxs, hx⟩ hs
    · rw [Nat.succ_add_eq_add_succ]
      exact hstep (j + 1) x s hfound hs

end Loops

end CheckedCalls
