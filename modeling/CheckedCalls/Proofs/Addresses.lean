import CheckedCalls.Proofs.Encounters
import Mathlib.Data.List.Forall2
import Mathlib.Data.List.Lex

/-!
# The order of encounters

A check takes the arguments from left to right. A value of a variable is seen, then what it holds is
seen under keys of its own, and then what it holds is checked against the arguments of the variable;
in each case it is gone through parameter by parameter and item by item. `Address` says where on
this way a value is met. The order of addresses, that of words in a dictionary, is the order in
which the values are met, whatever the types of the signature hand out.
-/

namespace CheckedCalls

open CheckState Checking Check

/-! ## Addresses -/

/-- The place of an argument, and for each step to something that is held by a value three numbers:
0 if it is seen under a key of its own and 1 if it is checked against an argument of the part, then
the place of the parameter and the place among the items of the parameter. -/
abbrev Address := List Nat

namespace Address

/-- What is held by a value comes after the value. -/
theorem lt_append (a : Address) (n : Nat) (d : Address) : a < a ++ n :: d := by
  have hlex : List.Lex (· < ·) (a ++ []) (a ++ n :: d) := .append_left _ .nil a
  rwa [List.append_nil] at hlex

/-- What is held in an earlier place comes first, with all that it holds. -/
theorem append_lt_append {m n : Nat} (h : m < n) (a d e : Address) :
    a ++ m :: d < a ++ n :: e :=
  List.Lex.append_left _ (.rel h) a

/-- What is met in an earlier argument comes first. -/
theorem head_le_of_lt {m n : Nat} {a b : Address} (h : m :: a < n :: b) : m ≤ n := by
  cases h with
  | cons => exact Nat.le_refl _
  | rel h => exact Nat.le_of_lt h

end Address

/-! ## Encounters -/

/-- The container for the parameter at a place has the value at a place among its items. -/
def HeldAt (params : List Value) (i n : Nat) (x : Value) : Prop :=
  ∃ items xs, params[i]? = some items ∧ items.RunsThrough xs ∧ xs[n]? = some x

/-- A value held at a place is found there. -/
theorem HeldAt.foundAt {params : List Value} {i n : Nat} {x : Value} (h : HeldAt params i n x) :
    FoundAt params i x := by
  obtain ⟨items, xs, hitems, hxs, hx⟩ := h
  exact ⟨items, xs, hitems, hxs, List.mem_of_getElem? hx⟩

theorem heldAt_of_unnamed {named i n : Nat} {params : List Value} {x : Value}
    (h : HeldAt (unnamed named params) i n x) : HeldAt params i n x := by
  obtain ⟨items, xs, hitems, hx⟩ := h
  rw [unnamed, List.getElem?_take, Option.ite_none_right_eq_some] at hitems
  exact ⟨items, xs, hitems.2, hx⟩

section Encounters

variable (call : Apply) (env : List NamedType)

/-- A check of a value against an expression meets a value at a part of the expression, as
`TypeExpr.Meets` says, and this is the address of the value from the one that is checked. -/
inductive TypeExpr.MeetsAt (e : TypeExpr) (v : Value) :
    Address → SpanKey → TypeExpr → Value → Prop
  | here : MeetsAt e v [] [] e v
  | inside {address path part x extraction params i n arg y}
    (hmeets : MeetsAt e v address path part x) (hopens : part.Opens call env x extraction)
    (hrun : (extraction.run call x).CanAnswer params) (harg : part.parts[i]? = some arg)
    (hheld : HeldAt (trailing part.parts.length params) i n y) :
    MeetsAt e v (address ++ [1, i, n]) (path ++ [i]) arg y

/-- The way from a value of the variable to a value of the key, as `VarKey.Leads` says, and the
address of the one from the other. -/
def VarKey.LeadsAt : VarKey → Value → Address → Value → Prop
  | .named _, v, address, x => address = [] ∧ x = v
  | .inner outer i, v, address, x => ∃ a u n, address = a ++ [0, i, n] ∧ outer.LeadsAt v a u ∧
      ∃ t ∈ env, ∃ e, t.extraction = some e ∧
        ∃ params, (e.run call u).CanAnswer params ∧ HeldAt params i n x

/-- The check of the arguments makes the visit in the argument at a place, at an address there. -/
def Signature.MeetsAt (signature : Signature) (args : List Value) (i : Nat) (address : Address)
    (visit : Visit) : Prop :=
  ∃ a path, args[i]? = some a ∧ visit.key = signature.slotFor i :: path ∧
    (signature.typeAt i).MeetsAt call env a address path visit.expr visit.value

/-- The value is met at the address: it is that of a visit of a use of the variable of the key, or
it is held by one on the way that the key shows. -/
def Observation.StandsAt (signature : Signature) (args : List Value) (key : VarKey)
    (address : Address) (o : Observation) : Prop :=
  ∃ i a targs y b, address = i :: (a ++ b) ∧ o.position = i + 1 ∧
    signature.MeetsAt call env args i a ⟨.var key.root targs, o.key, y⟩ ∧
    key.LeadsAt call env y b o.value

end Encounters

section Forgetting

variable {call : Apply} {env : List NamedType} {signature : Signature} {args : List Value}
variable {key : VarKey} {address : Address} {i : Nat} {visit : Visit} {o : Observation}

/-- What is met at an address is met. -/
theorem TypeExpr.MeetsAt.meets {e part : TypeExpr} {v x : Value} {path : SpanKey}
    (h : e.MeetsAt call env v address path part x) : e.Meets call env v path part x := by
  induction h with
  | here => exact .here
  | inside _ hopens hrun harg hheld ih => exact ih.inside hopens hrun harg hheld.foundAt

/-- What a key leads to at an address it leads to. -/
theorem VarKey.LeadsAt.leads : ∀ {key : VarKey} {v x : Value} {address : Address},
    key.LeadsAt call env v address x → key.Leads call env v x
  | .named _, _, _, _, h => h.2
  | .inner _ _, _, _, _, h => by
    obtain ⟨a, u, n, -, hleads, t, ht, e, he, params, hrun, hheld⟩ := h
    exact ⟨u, hleads.leads, t, ht, e, he, params, hrun, hheld.foundAt⟩

theorem Signature.MeetsAt.meets (h : signature.MeetsAt call env args i address visit) :
    signature.Meets call env args i visit := by
  obtain ⟨a, path, ha, hkey, hmeets⟩ := h
  exact ⟨a, path, ha, hkey, hmeets.meets⟩

/-- What a value that is met holds for the arguments of its part is met too. -/
theorem Signature.MeetsAt.inside {part arg : TypeExpr} {spanKey : SpanKey} {x y : Value}
    {extraction : Extraction} {params : List Value} {j n : Nat}
    (h : signature.MeetsAt call env args i address ⟨part, spanKey, x⟩)
    (hopens : part.Opens call env x extraction)
    (hrun : (extraction.run call x).CanAnswer params) (harg : part.parts[j]? = some arg)
    (hheld : HeldAt (trailing part.parts.length params) j n y) :
    signature.MeetsAt call env args i (address ++ [1, j, n]) ⟨arg, spanKey ++ [j], y⟩ := by
  obtain ⟨a, path, ha, hkey, hmeets⟩ := h
  exact ⟨a, path ++ [j], ha, congrArg (· ++ [j]) hkey, hmeets.inside hopens hrun harg hheld⟩

/-- The value of a visit of a variable is met there. -/
theorem Signature.MeetsAt.standsAt {name : String} {targs : List TypeExpr} {spanKey : SpanKey}
    {x : Value} (h : signature.MeetsAt call env args i address ⟨.var name targs, spanKey, x⟩) :
    Observation.StandsAt call env signature args (.named name) (i :: address)
      ⟨i + 1, x, spanKey⟩ :=
  ⟨i, address, targs, x, [], by rw [List.append_nil], rfl, h, rfl, rfl⟩

/-- What is held by a value that is met under a key is met under the key for its parameter. -/
theorem Observation.StandsAt.inside {position : Nat} {x y : Value} {spanKey : SpanKey}
    {t : NamedType} {e : Extraction} {params : List Value} {j n : Nat}
    (h : Observation.StandsAt call env signature args key address ⟨position, x, spanKey⟩)
    (ht : t ∈ env) (he : t.extraction = some e) (hrun : (e.run call x).CanAnswer params)
    (hheld : HeldAt params j n y) :
    Observation.StandsAt call env signature args (.inner key j) (address ++ [0, j, n])
      ⟨position, y, spanKey⟩ := by
  obtain ⟨i, a, targs, v, b, rfl, hposition, hmeets, hleads⟩ := h
  refine ⟨i, a, targs, v, b ++ [0, j, n], by simp, hposition, hmeets, ?_⟩
  exact ⟨b, x, n, rfl, hleads, t, ht, e, he, params, hrun, hheld⟩

/-- What is met later is met in the same argument or in a later one. -/
theorem Observation.StandsAt.position_le {key' : VarKey} {later : Address} {p : Observation}
    (ho : o.StandsAt call env signature args key address)
    (hp : p.StandsAt call env signature args key' later) (hlt : address < later) :
    o.position ≤ p.position := by
  obtain ⟨i, a, -, -, b, rfl, ho, -⟩ := ho
  obtain ⟨j, a', -, -, b', rfl, hp, -⟩ := hp
  rw [ho, hp]
  exact Nat.succ_le_succ (Address.head_le_of_lt hlt)

end Forgetting

/-! ## Values in their order -/

section Order

variable (S : Value → Prop) (call : Apply) (env : List NamedType) (signature : Signature)
variable (args : List Value)

/-- The values, of a class, were met under the key one after the other, before the address. -/
def SeenBefore (key : VarKey) (now : Address) (seen : List Observation) : Prop :=
  ∃ addresses : List Address,
    List.Forall₂ (fun a o => o.StandsAt call env signature args key a ∧ S o.value) addresses seen ∧
    addresses.Pairwise (· < ·) ∧ ∀ a ∈ addresses, a < now

namespace SeenBefore

variable {S call env signature args} {key : VarKey} {now later : Address} {o : Observation}
variable {seen : List Observation}

theorem nil : SeenBefore S call env signature args key now [] :=
  ⟨[], .nil, .nil, by simp⟩

/-- What was seen before was seen before everything later. -/
theorem mono (h : SeenBefore S call env signature args key now seen) (hlater : now < later) :
    SeenBefore S call env signature args key later seen := by
  obtain ⟨addresses, hstands, hsorted, hbefore⟩ := h
  exact ⟨addresses, hstands, hsorted, fun a ha => (hbefore a ha).trans hlater⟩

/-- What is met now comes last. -/
theorem snoc (h : SeenBefore S call env signature args key now seen)
    (ho : o.StandsAt call env signature args key now) (hvalue : S o.value) (hlater : now < later) :
    SeenBefore S call env signature args key later (seen ++ [o]) := by
  obtain ⟨addresses, hstands, hsorted, hbefore⟩ := h
  refine ⟨addresses ++ [now], List.rel_append hstands (.cons ⟨ho, hvalue⟩ .nil), ?_, ?_⟩
  · rw [List.pairwise_append]
    refine ⟨hsorted, List.pairwise_singleton _ _, fun a ha b hb => ?_⟩
    rw [List.mem_singleton.1 hb]
    exact hbefore a ha
  · rw [List.forall_mem_append, List.forall_mem_singleton]
    exact ⟨fun a ha => (hbefore a ha).trans hlater, hlater⟩

theorem exists_standsAt (h : SeenBefore S call env signature args key now seen) (ho : o ∈ seen) :
    ∃ a, o.StandsAt call env signature args key a ∧ S o.value := by
  obtain ⟨addresses, hstands, -⟩ := h
  obtain ⟨i, hi, rfl⟩ := List.getElem_of_mem ho
  exact ⟨_, hstands.get (hstands.length_eq ▸ hi) hi⟩

/-- The values come from arguments in their order. -/
theorem pairwise_position (h : SeenBefore S call env signature args key now seen) :
    seen.Pairwise fun o p => o.position ≤ p.position := by
  obtain ⟨addresses, hstands, hsorted, -⟩ := h
  refine List.pairwise_iff_getElem.2 fun i j hi hj hij => ?_
  have hi' : i < addresses.length := hstands.length_eq ▸ hi
  have hj' : j < addresses.length := hstands.length_eq ▸ hj
  exact (hstands.get hi' hi).1.position_le (hstands.get hj' hj).1
    (List.pairwise_iff_getElem.1 hsorted i j hi' hj' hij)

end SeenBefore

end Order

end CheckedCalls
