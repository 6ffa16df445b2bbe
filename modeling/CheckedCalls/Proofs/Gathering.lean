import CheckedCalls.Proofs.Applied
import CheckedCalls.Proofs.Boundary
import CheckedCalls.Proofs.Totality
import CheckedCalls.Proofs.Traversal

/-!
# What a sequence of containers is swapped into

Swapping a sequence of containers maps what was gathered so far to functions that await one more
element, and applies them to the next container. A container of the other sum type hands such
functions back as they are instead of being applied to them. `Gathers` says what has been gathered
after some steps; where a check came first, the swap answers rows as long as the sequence unless all
its containers are successes of another sum type (`checked_sequence`).
-/

namespace CheckedCalls

open Run

/-! ## Families -/

/-- The applicatives whose values a value can be applied with. The kinds of sequences are one. -/
inductive Family
  | array
  | maybe
  | either
  | identity
  deriving DecidableEq

/-- The values of the family are successes or failures. -/
def Family.isSum : Family → Bool
  | .maybe | .either => true
  | .array | .identity => false

/-- The family of a holder. -/
def Holder.family : Holder → Family
  | .seq _ => .array
  | .maybe => .maybe
  | .either => .either
  | .identity => .identity

namespace Value

/-- The family of a value, if it is a container of the library. -/
def family? : Value → Option Family
  | .seq _ _ _ => some .array
  | .nothing | .just _ _ => some .maybe
  | .left _ _ | .right _ _ => some .either
  | .identity _ _ => some .identity
  | _ => none

/-- The value is the failure of a sum type. -/
def isFailure : Value → Bool
  | .nothing | .left _ _ => true
  | _ => false

/-- What a container has to hand out. -/
def payloads : Value → List Value
  | .seq _ _ xs => xs
  | .just _ v | .right _ v | .identity _ v => [v]
  | _ => []

/-- The value is a sequence of the kind and the length. -/
def IsRow (k : SeqKind) (n : Nat) (v : Value) : Prop := ∃ t xs, v = .seq k t xs ∧ xs.length = n

/-- The value is a function. -/
def IsFunction (v : Value) : Prop := ∃ t f, v = .func t f

/-- Numbering changes neither the family of a value nor whether it is a failure. -/
theorem family_labelled (v : Value) (n : Nat) :
    (v.labelled n).family? = v.family? ∧ (v.labelled n).isFailure = v.isFailure := by
  cases v with
  | type r => cases r <;> exact ⟨rfl, rfl⟩
  | seq k t | dict t | just t | left t | right t | identity t | object t =>
    cases t <;> exact ⟨rfl, rfl⟩
  | _ => exact ⟨rfl, rfl⟩

section Family

variable {v : Value}

/-- A success in Maybe is a Just. -/
theorem exists_just (h : v.family? = some .maybe) (hsuccess : v.isFailure = false) :
    ∃ t x, v = .just t x := by
  cases v with
  | just t x => exact ⟨t, x, rfl⟩
  | nothing => cases hsuccess
  | _ => cases h

/-- A success in Either is a Right. -/
theorem exists_right (h : v.family? = some .either) (hsuccess : v.isFailure = false) :
    ∃ t x, v = .right t x := by
  cases v with
  | right t x => exact ⟨t, x, rfl⟩
  | left => cases hsuccess
  | _ => cases h

theorem payloads_of_isFailure (h : v.isFailure = true) : v.payloads = [] := by
  cases v with
  | nothing | left => rfl
  | _ => cases h

theorem isSum_of_isFailure {φ : Family} (h : v.family? = some φ) (hfailure : v.isFailure = true) :
    φ.isSum = true := by
  cases v <;> cases hfailure <;> cases h <;> rfl

end Family

end Value

/-! ## Runs that may fail -/

namespace Run

/-- From an untouched world the run, if it answers, answers something with the property and leaves
such a world. -/
abbrev Keeps {α : Type} (r : Run α) (P : α → Prop) : Prop :=
  r.Concludes World.Untouched (fun _ => True) P

theorem Yields.keeps {α : Type} {r : Run α} {P : α → Prop} (h : r.Yields P) : r.Keeps P := by
  intro w hw
  have hr := h w hw
  generalize r.outcome w = p at hr ⊢
  rcases p with ⟨f | a, w'⟩
  · trivial
  · exact hr

theorem exists_outcome {α : Type} {r : Run α} {w : World} (h : (r.outcome w).1.toBool = true) :
    ∃ a w', r.outcome w = (.ok a, w') := by
  rcases hr : r.outcome w with ⟨f | a, w'⟩
  · rw [hr] at h
    cases h
  · exact ⟨a, w', rfl⟩

/-- A call of a function value answers what the function says, unless calls are nested too deep. -/
theorem keeps_apply {α β : Type} {A : Reading α} {B : Reading β} {f x : Value} {g : α → β} {a : α}
    (hf : Reading.func 0 A B f g) (hx : A x a) (d : Nat) : (apply d f [x]).Keeps (B · (g a)) := by
  cases d with
  | zero => exact concludes_throw trivial
  | succ d => exact (Reading.func_apply hf hx (Nat.succ_pos d)).keeps

end Run

theorem forall_of_forall₂ {α β : Type} {P : α → Prop} {as : List α} {bs : List β}
    (h : as.Forall₂ (fun a _ => P a) bs) : ∀ a ∈ as, P a :=
  ((List.forall₂_and_left as bs).1 (h.imp fun _ _ ha => ⟨ha, trivial⟩) :
    (∀ a ∈ as, P a) ∧ as.Forall₂ (fun _ _ => True) bs).1

/-- Runs for each element of a list keep a property that each of them keeps. -/
theorem Run.keeps_mapM {α β : Type} {f : α → Run β} {xs : List α} {P : β → Prop}
    (h : ∀ x ∈ xs, (f x).Keeps P) : (xs.mapM f).Keeps fun ys => ∀ y ∈ ys, P y := by
  have hself : xs.Forall₂ (fun x y => x = y ∧ x ∈ xs) xs :=
    List.forall₂_same.2 fun x hx => ⟨rfl, hx⟩
  have hmap := concludes_mapM (R := fun y _ => P y) hself fun x y hx => h x hx.2
  exact Run.Concludes.mono hmap fun ys hys => forall_of_forall₂ hys

/-! ## Mapping and applying -/

section Steps

variable {call : Apply} {φ ψ : Family} {v fs y : Value} {P : Value → Prop}

/-- Mapping over a family keeps failures, and maps the payloads in turn. -/
theorem keeps_map {f : Value} {R : Value → Value → Prop} (hv : v.family? = some ψ)
    (hf : ∀ p ∈ v.payloads, (call f [p]).Keeps (R · p)) :
    (map call f v).Keeps fun u => u.family? = some ψ ∧ u.isFailure = v.isFailure ∧
      u.payloads.Forall₂ R v.payloads := by
  cases v with
  | seq k t xs =>
    have hself : xs.Forall₂ (fun x y => x = y ∧ x ∈ xs) xs :=
      List.forall₂_same.2 fun x hx => ⟨rfl, hx⟩
    refine concludes_bind (concludes_mapM hself ?_) fun ys hys => concludes_pure ⟨hv, rfl, hys⟩
    rintro x _ ⟨rfl, hx⟩
    exact hf x hx
  | just t x | right t x | identity t x =>
    refine concludes_bind (hf x (List.mem_singleton_self _)) fun y hy => ?_
    exact concludes_pure ⟨hv, rfl, .cons hy .nil⟩
  | nothing | left t x => exact concludes_pure ⟨hv, rfl, .nil⟩
  | _ => cases hv

/-- What is applied to a failure is one. -/
theorem keeps_ap_failure (hfs : fs.family? = some ψ) (hy : y.isFailure = true) :
    (ap call fs y).Keeps fun r => r.isFailure = true := by
  cases y with
  | nothing => exact concludes_pure rfl
  | left t x =>
    refine concludes_pure ?_
    cases fs with
    | seq k => cases k <;> rfl
    | _ => first | rfl | cases hfs
  | _ => cases hy

/-- A success of a sum type hands back what is no success of this type. -/
theorem ap_foreign (hφ : φ.isSum = true) (hy : y.family? = some φ) (hsuccess : y.isFailure = false)
    (hfs : fs.family? = some ψ) (hforeign : ψ ≠ φ ∨ fs.isFailure = true) :
    ap call fs y = pure fs := by
  cases y with
  | just t x | right t x =>
    cases hy
    cases fs with
    | nothing | left | identity => rfl
    | seq k => cases k <;> rfl
    | just | right =>
      cases hfs
      first | rfl | simp [Value.isFailure] at hforeign
    | _ => cases hfs
  | nothing | left => cases hsuccess
  | seq | identity =>
    cases hy
    cases hφ
  | _ => cases hy

/-- What is applied to a success of the same sum type, or to a container of no sum type, is a
container of the functions' answers. -/
theorem keeps_ap_success (hy : y.family? = some φ) (hsuccess : y.isFailure = false)
    (hfs : fs.family? = some ψ) (hfs' : fs.isFailure = false) (hsum : φ.isSum = true → ψ = φ)
    (hcall : ∀ g ∈ fs.payloads, ∀ x, (call g [x]).Keeps P) :
    (ap call fs y).Keeps fun r => r.family? = some φ ∧ r.isFailure = false ∧
      ∀ p ∈ r.payloads, P p := by
  cases y with
  | seq k t xs =>
    cases fs with
    | seq l s gs =>
      have heach : (gs.mapM fun g => xs.mapM fun x => call g [x]).Keeps
          fun yss => ∀ ys ∈ yss, ∀ y ∈ ys, P y :=
        keeps_mapM fun g hg => keeps_mapM fun x _ => hcall g hg x
      refine concludes_bind (concludes_bind heach fun yss hyss => concludes_pure (P := fun ys =>
        ∀ y ∈ ys, P y) ?_) fun ys hys => concludes_pure ⟨hy, rfl, hys⟩
      exact List.forall_mem_flatten.2 hyss
    | _ => exact concludes_throw trivial
  | just t x | right t x =>
    cases hy
    cases hsum rfl
    cases fs with
    | just s g | right s g =>
      cases hfs <;> exact concludes_bind (hcall g (List.mem_singleton_self _) x) fun y hy =>
        concludes_pure ⟨rfl, rfl, List.forall_mem_singleton.2 hy⟩
    | nothing | left => cases hfs'
    | _ => cases hfs
  | identity t x =>
    cases fs with
    | just s g | right s g | identity s g =>
      show Keeps (do return Value.identity .fresh (← call g [x])) _
      refine concludes_bind (hcall g (List.mem_singleton_self _) x) fun y hy' => ?_
      exact concludes_pure ⟨hy, rfl, List.forall_mem_singleton.2 hy'⟩
    | seq => exact concludes_throw trivial
    | nothing | left => cases hfs'
    | _ => cases hfs
  | nothing | left => cases hsuccess
  | _ => cases hy

end Steps

/-! ## Gathering -/

section Gathering

open Reading

/-- Values of whatever kind. -/
def Reading.anything : Reading Unit := ⟨fun _ _ => True, fun _ _ => trivial⟩

/-- Functions of whatever kind. -/
def Reading.functions : Reading Unit where
  denotes v _ := v.IsFunction
  labelled := by
    rintro _ _ n ⟨t, f, rfl⟩
    obtain ⟨s, hs⟩ := Value.exists_labelled_func t f n
    exact ⟨s, f, hs⟩

/-- Sequences of a kind, of elements that stand for nothing. -/
def Reading.rows (k : SeqKind) : Reading (List Unit) := (Holder.seq k).lift anything anything

theorem Value.isRow_iff {k : SeqKind} {n : Nat} {v : Value} :
    v.IsRow k n ↔ rows k v (List.replicate n ()) := by
  have hall (xs : List Value) : xs.Forall₂ (anything : Value → Unit → Prop) (List.replicate n ()) ↔
      xs.length = n := by
    rw [List.forall₂_iff_zip, List.length_replicate]
    exact and_iff_left fun _ => trivial
  exact exists_congr fun t => exists_congr fun xs => and_congr_right fun _ => (hall xs).symm

/-- Values that are containers of a family with the same outcome. -/
def Reading.like (x : Value) : Reading Unit where
  denotes y _ := y.family? = x.family? ∧ y.isFailure = x.isFailure
  labelled n h := by
    rwa [(Value.family_labelled _ n).1, (Value.family_labelled _ n).2]

variable {H : Holder} {k : SeqKind} {φ ψ : Family} {d n : Nat} {acc x : Value}

/-- What is mapped and what is applied to make up a step. -/
theorem keeps_traverseStep {R : Value → Value → Prop} {P : Value → Prop}
    (hacc : acc.family? = some ψ)
    (happend : ∀ p ∈ acc.payloads, (apply d (.function (.appending k)) [p]).Keeps (R · p))
    (hap : ∀ fs y, fs.family? = some ψ → fs.isFailure = acc.isFailure →
      fs.payloads.Forall₂ R acc.payloads → y.family? = x.family? → y.isFailure = x.isFailure →
      (ap (apply d) fs y).Keeps P) :
    (traverseStep (apply d) k (.function .echo) acc x).Keeps P := by
  refine concludes_bind (keeps_map hacc happend) fun fs ⟨hfs, hfs', hpayloads⟩ => ?_
  have hx : like x x () := ⟨rfl, rfl⟩
  exact concludes_bind (keeps_apply func_echo hx d) fun y hy =>
    hap fs y hfs hfs' hpayloads hy.1 hy.2

/-- Appending to anything is left to a function. -/
theorem func_appending_any : func 0 anything functions (.function (.appending k)) id :=
  func_term fun _ _ _ _ _ => concludes_pure ⟨_, _, rfl⟩

/-- A failure makes whatever was gathered a failure. -/
theorem keeps_traverseStep_failure (hacc : acc.family? = some ψ) (hx : x.isFailure = true) :
    (traverseStep (apply d) k (.function .echo) acc x).Keeps fun r => r.isFailure = true :=
  keeps_traverseStep hacc (fun _ _ => keeps_apply func_appending_any (a := ()) trivial d)
    fun _ _ hfs _ _ _ hy => keeps_ap_failure hfs (hy.trans hx)

/-- A success of a sum type leaves functions where it meets what is no success of this type. -/
theorem keeps_traverseStep_foreign (hacc : acc.family? = some ψ) (hφ : φ.isSum = true)
    (hx : x.family? = some φ) (hsuccess : x.isFailure = false)
    (hforeign : ψ ≠ φ ∨ acc.isFailure = true) :
    (traverseStep (apply d) k (.function .echo) acc x).Keeps fun r => r.family? = some ψ ∧
      r.isFailure = acc.isFailure ∧ r.payloads.Forall₂ (fun f _ => f.IsFunction) acc.payloads := by
  refine keeps_traverseStep hacc
    (fun _ _ => keeps_apply func_appending_any (a := ()) trivial d) ?_
  intro fs y hfs hfs' hpayloads hy hy'
  rw [ap_foreign hφ (hy.trans hx) (hy'.trans hsuccess) hfs (hforeign.imp_right (hfs'.trans ·))]
  exact concludes_pure ⟨hfs, hfs', hpayloads⟩

/-- A success makes rows one longer where it can be applied to. -/
theorem keeps_traverseStep_success (hacc : acc.family? = some ψ) (hacc' : acc.isFailure = false)
    (hrows : ∀ p ∈ acc.payloads, p.IsRow k n) (hx : x.family? = some φ)
    (hsuccess : x.isFailure = false) (hsum : φ.isSum = true → ψ = φ) :
    (traverseStep (apply d) k (.function .echo) acc x).Keeps fun r => r.family? = some φ ∧
      r.isFailure = false ∧ ∀ p ∈ r.payloads, p.IsRow k (n + 1) := by
  refine keeps_traverseStep hacc (fun p hp => keeps_apply (Container.func_appending k)
    (Value.isRow_iff.1 (hrows p hp)) d) ?_
  intro fs y hfs hfs' hpayloads hy hy'
  refine keeps_ap_success (hy.trans hx) (hy'.trans hsuccess) hfs (hfs'.trans hacc') hsum ?_
  intro g hg x
  have hfunc := forall_of_forall₂ hpayloads g hg
  refine (keeps_apply hfunc (a := ()) trivial d).mono fun p hp => ?_
  rwa [Value.isRow_iff, List.replicate_succ']

/-- What was gathered of the containers `done`, all of the family `φ`, in the applicative `H`. -/
inductive Gathers (H : Holder) (k : SeqKind) (φ : Family) : List Value → Value → Prop
  /-- An empty row was lifted. -/
  | start {acc : Value} (hacc : acc.family? = some H.family) (hacc' : acc.isFailure = false)
    (hpayloads : acc.payloads ≠ []) (hrows : ∀ p ∈ acc.payloads, p.IsRow k 0) :
    Gathers H k φ [] acc
  /-- The containers hold rows. -/
  | rows {done : List Value} {acc : Value} (hacc : acc.family? = some φ)
    (hacc' : acc.isFailure = false) (hdone : ∀ x ∈ done, x.isFailure = false)
    (hsum : φ.isSum = true → φ = H.family) (hrows : ∀ p ∈ acc.payloads, p.IsRow k done.length) :
    Gathers H k φ done acc
  /-- Successes of another sum type left functions that still await an element. -/
  | strayed {done : List Value} {acc : Value} (hacc : acc.family? = some H.family)
    (hdone : ∀ x ∈ done, x.isFailure = false) (hne : done ≠ []) (hφ : φ.isSum = true)
    (hforeign : H.family ≠ φ) (hpayloads : acc.payloads ≠ [])
    (hfunctions : ∀ p ∈ acc.payloads, p.IsFunction) : Gathers H k φ done acc
  /-- One of the containers was a failure. -/
  | failed {done : List Value} {acc : Value} (hacc : acc.isFailure = true)
    (hdone : ∃ x ∈ done, x.isFailure = true) (hφ : φ.isSum = true) : Gathers H k φ done acc

/-- What a step gathers. -/
theorem Gathers.step {done : List Value} (h : Gathers H k φ done acc) (hx : x.family? = some φ) :
    (traverseStep (apply d) k (.function .echo) acc x).Keeps (Gathers H k φ (done ++ [x])) := by
  obtain ⟨ψ, hψ⟩ : ∃ ψ, acc.family? = some ψ := by
    cases h with
    | start hacc | rows hacc | strayed hacc => exact ⟨_, hacc⟩
    | failed hacc =>
      cases acc <;> first | exact ⟨_, rfl⟩ | cases hacc
  by_cases hfailure : x.isFailure = true
  · refine (keeps_traverseStep_failure hψ hfailure).mono fun r hr => ?_
    exact .failed hr ⟨x, by simp, hfailure⟩ (Value.isSum_of_isFailure hx hfailure)
  have hsuccess : x.isFailure = false := by simpa using hfailure
  have hnext {done : List Value} (hdone : ∀ x ∈ done, x.isFailure = false) :
      ∀ y ∈ done ++ [x], y.isFailure = false :=
    List.forall_mem_append.2 ⟨hdone, List.forall_mem_singleton.2 hsuccess⟩
  cases h with
  | start hacc hacc' hpayloads hrows =>
    by_cases hforeign : φ.isSum = true ∧ H.family ≠ φ
    · refine (keeps_traverseStep_foreign hacc hforeign.1 hx hsuccess (.inl hforeign.2)).mono ?_
      rintro r ⟨hr, -, hfunctions⟩
      exact .strayed hr (hnext nofun) (by simp) hforeign.1 hforeign.2
        (fun hnil => hpayloads (by simpa [hnil] using hfunctions)) (forall_of_forall₂ hfunctions)
    · have hsum : φ.isSum = true → H.family = φ := by simpa using hforeign
      refine (keeps_traverseStep_success hacc hacc' hrows hx hsuccess hsum).mono ?_
      rintro r ⟨hr, hr', hrows⟩
      exact .rows hr hr' (hnext nofun) (fun h => (hsum h).symm) hrows
  | rows hacc hacc' hdone hsum hrows =>
    refine (keeps_traverseStep_success hacc hacc' hrows hx hsuccess fun _ => rfl).mono ?_
    rintro r ⟨hr, hr', hrows⟩
    exact .rows hr hr' (hnext hdone) hsum (by simpa using hrows)
  | strayed hacc hdone hne hφ hforeign hpayloads hfunctions =>
    refine (keeps_traverseStep_foreign hacc hφ hx hsuccess (.inl hforeign)).mono ?_
    rintro r ⟨hr, -, hfunctions⟩
    exact .strayed hr (hnext hdone) (by simp) hφ hforeign
      (fun hnil => hpayloads (by simpa [hnil] using hfunctions)) (forall_of_forall₂ hfunctions)
  | failed hacc hdone hφ =>
    refine (keeps_traverseStep_foreign hψ hφ hx hsuccess (.inr hacc)).mono fun r hr => ?_
    obtain ⟨y, hy, hy'⟩ := hdone
    exact .failed (hr.2.1.trans hacc) ⟨y, List.mem_append_left _ hy, hy'⟩ hφ

/-- Steps gather the values in turn. -/
theorem Gathers.steps {done xs : List Value} (h : Gathers H k φ done acc)
    (hxs : ∀ x ∈ xs, x.family? = some φ) :
    (xs.foldlM (traverseStep (apply d) k (.function .echo)) acc).Keeps
      (Gathers H k φ (done ++ xs)) := by
  induction xs generalizing done acc with
  | nil => exact concludes_pure (by simpa using h)
  | cons x xs ih =>
    rw [List.forall_mem_cons] at hxs
    rw [List.foldlM_cons]
    refine concludes_bind (h.step hxs.1) fun acc hacc => ?_
    simpa using ih hacc hxs.2

/-- An empty row is lifted. -/
theorem keeps_start (H : Holder) (k : SeqKind) (φ : Family) (d : Nat) :
    (apply d (.function (.lift H.rep)) [.seq k .fresh []]).Keeps (Gathers H k φ []) := by
  have hempty : Reading.rows k (.seq k .fresh []) [] := ⟨_, [], rfl, .nil⟩
  have hlift := Container.func_lift (.holder H) Reading.anything (Reading.rows k)
  refine (keeps_apply hlift hempty d).mono fun acc hacc => ?_
  have hrow {p : Value} (hp : Reading.rows k p []) : ∀ q ∈ [p], q.IsRow k 0 :=
    List.forall_mem_singleton.2 (Value.isRow_iff.2 hp)
  cases H with
  | seq l =>
    obtain ⟨t, xs, rfl, _ | ⟨hp, _ | _⟩⟩ := hacc
    exact .start rfl rfl (by simp [Value.payloads]) (hrow hp)
  | maybe | either | identity =>
    obtain ⟨t, p, rfl, hp⟩ := hacc
    exact .start rfl rfl (by simp [Value.payloads]) (hrow hp)

/-- What the swap of containers of one family gathers. -/
theorem keeps_sequence {t : Tag} {xs : List Value} (hxs : ∀ x ∈ xs, x.family? = some φ) :
    (sequence (apply d) (.function (.lift H.rep)) (.seq k t xs)).Keeps (Gathers H k φ xs) :=
  concludes_bind (keeps_start H k φ d) fun _ hacc => hacc.steps hxs

end Gathering

/-! ## Checked calls -/

namespace Combinator

open StandardType (standing)
open CheckState

section Checked

variable {call : Apply} {H : Holder} {k : SeqKind} {t : Tag} {xs : List Value} {w w' : World}

/-- A native value in the type class of applicatives belongs to a family. -/
theorem exists_family_of_admits {x : Value} (hx : x.isNative = true)
    (h : Interface.applicative.typeClass.admits x = true) : ∃ φ, x.family? = some φ := by
  cases x with
  | seq | nothing | just | left | right | identity => exact ⟨_, rfl⟩
  | object => cases hx
  | number s n => cases n <;> cases h
  | type r =>
    rw [TypeClass.admits, Value.variantContents?_type, Value.layers_type] at h
    cases h
  | _ => cases h

/-- Native values of a family have a type in common only with values of that family. -/
theorem family?_of_common {x y : Value} {φ ψ : Family} {c : NamedType} (hx : x.isNative = true)
    (hy : y.isNative = true) (hφ : x.family? = some φ) (hψ : y.family? = some ψ)
    (hxc : (x.types standing).contains c = true) (hyc : (y.types standing).contains c = true) :
    φ = ψ := by
  have hshape : x.shape? = y.shape? := by
    rcases hx' : x.shape? with _ | t
    · rcases hy' : y.shape? with _ | t
      · rfl
      · cases hx'.symm.trans (shape_of_common hy' hx hyc hxc)
    · exact (shape_of_common hx' hy hxc hyc).symm
  cases x <;> cases hφ <;> cases y <;> cases hψ <;> first | rfl | cases hshape

theorem forall_slots_sequence {P : Slot → Prop}
    (hrep : P ⟨.concrete StandardType.typeRep.named [.var "f" []], false⟩)
    (hseq : P ⟨.var "t" [.var "f" [.var "a" []]], false⟩) :
    ∀ slot ∈ sequence.signature.slots, P slot :=
  List.forall_mem_cons.2 ⟨hrep, List.forall_mem_singleton.2 hseq⟩

theorem isNative_arguments (H : Holder) (hxs : ∀ x ∈ xs, x.isNative = true) :
    ∀ v ∈ [H.rep, .seq k t xs], v.isNative = true :=
  List.forall_mem_cons.2 ⟨rfl, List.forall_mem_singleton.2 (Value.areNative_iff.2 hxs)⟩

/-- The visit that a check makes of one of the containers. -/
def visitOf (x : Value) : Visit := ⟨.var "f" [.var "a" []], [0], x⟩

theorem visitOf_mem_tour {custom : Value → Value → List (List Value)} {x : Value} (hx : x ∈ xs) :
    visitOf x ∈ (TypeExpr.var "t" [.var "f" [.var "a" []]]).tour custom [] (.seq k t xs) := by
  rw [TypeExpr.tour, List.length_singleton, Value.trailing_heldFor_one]
  refine List.mem_cons_of_mem _ ?_
  show _ ∈ TypeExpr.tourOfAll custom [] 0 [.var "f" [.var "a" []]] [xs]
  rw [TypeExpr.tourOfAll]
  refine List.mem_append_left _ (List.mem_flatMap.2 ⟨x, hx, ?_⟩)
  rw [TypeExpr.tour]
  exact List.mem_cons_self

/-- A check of a swap that passes has found one family for all the containers. -/
theorem exists_family_of_passed (hxs : ∀ x ∈ xs, x.isNative = true)
    {bindings : List (String × NamedType)}
    (h : ((check call .standard sequence.signature [H.rep, .seq k t xs]).outcome w).1 =
      .ok (.passed bindings)) : ∃ φ, ∀ x ∈ xs, x.family? = some φ := by
  have hslots : ∀ slot ∈ sequence.signature.slots, slot.variadic = false ∧
      slot.type.OfTypes (NamedType.Consistent call fun _ _ => []) :=
    forall_slots_sequence ⟨rfl, StandardType.consistent .typeRep, trivial, trivial⟩
      ⟨rfl, ⟨trivial, trivial⟩, trivial⟩
  obtain ⟨seen, hsights, -, hpassed⟩ := exists_passed_iff hslots (isNative_arguments H hxs) rfl
  obtain ⟨htakes, s, hs, -⟩ := (hpassed _ w h bindings).1 rfl
  obtain ⟨common, hcommon⟩ := exists_recordAll_iff_sights.1 ⟨s, hs⟩
  have hslot : ((⟨.var "t" [.var "f" [.var "a" []]], false⟩ : Slot), Value.seq k t xs) ∈
      sequence.signature.slots.zip [H.rep, .seq k t xs] :=
    List.mem_cons_of_mem _ (List.mem_singleton_self _)
  have hfamily : ∀ x ∈ xs, ∃ φ, x.family? = some φ := by
    intro x hx
    have hadmits := htakes _ hslot (visitOf x) (visitOf_mem_tour hx)
    exact exists_family_of_admits (hxs x hx)
      (admits_of_mem (i := .applicative) (List.mem_singleton_self _) hadmits)
  have hcontains : ∀ x ∈ xs, (x.types standing).contains (common (.named "f")) = true := by
    intro x hx
    refine hcommon (.named "f", x) ?_
    rw [hsights]
    refine List.mem_flatMap.2 ⟨_, hslot, List.mem_flatMap.2 ⟨visitOf x, visitOf_mem_tour hx, ?_⟩⟩
    exact List.mem_cons_self
  rcases xs with _ | ⟨x, xs⟩
  · exact ⟨.array, nofun⟩
  · obtain ⟨φ, hφ⟩ := hfamily x List.mem_cons_self
    refine ⟨φ, fun y hy => ?_⟩
    obtain ⟨ψ, hψ⟩ := hfamily y hy
    rw [hψ, family?_of_common (hxs x List.mem_cons_self) (hxs y hy) hφ hψ
      (hcontains x List.mem_cons_self) (hcontains y hy)]

/-- A check of native values leaves an untouched world. -/
theorem keeps_check (call : Apply) (H : Holder) (k : SeqKind) (t : Tag)
    (hxs : ∀ x ∈ xs, x.isNative = true) :
    (check call .standard sequence.signature [H.rep, .seq k t xs]).Keeps fun _ => True := by
  have hanswers : ∀ slot ∈ sequence.signature.slots, slot.type.Answers World.Untouched
      (fun _ => True) call fun v => v.isNative = true :=
    forall_slots_sequence
      ⟨StandardType.answers Value.closed_native fun _ _ _ _ => trivial, trivial, trivial⟩
      ⟨⟨trivial, trivial⟩, trivial⟩
  have htext : ∀ v : Value, v.isNative = true →
      Run.Concludes World.Untouched (fun _ => True) (v.toText call) fun _ => True := fun v hv =>
    concludes_of_fares (fun w hw => Value.fares_toText call hw.untitled hv) fun _ _ => trivial
  have hcourse : Course World.Untouched (fun _ => True) call (.choosing standing)
      sequence.signature [H.rep, .seq k t xs] (fun v => v.isNative = true)
      (CheckState.Faithful standing) :=
    course_library Value.closed_native
      (List.forall_mem_cons.2 ⟨rfl, List.forall_mem_singleton.2 rfl⟩) hanswers rfl htext
      (fun _ _ _ _ => trivial) fun line w hw => ⟨trivial, hw⟩
  exact (concludes_check (fun _ => hcourse) (isNative_arguments H hxs)).mono fun _ _ => trivial

/-- The containers are successes of a sum type that the applicative is not. -/
def Strays (H : Holder) (xs : List Value) : Prop :=
  xs ≠ [] ∧ ((H ≠ .maybe ∧ ∀ x ∈ xs, ∃ s v, x = .just s v) ∨
    (H ≠ .either ∧ ∀ x ∈ xs, ∃ s v, x = .right s v))

/-- What was gathered of all the containers is rows, or functions if the containers stray. -/
theorem rows_or_strays {φ : Family} {r : Value} (hxs : ∀ x ∈ xs, x.family? = some φ)
    (h : Gathers H k φ xs r) :
    (¬Strays H xs ∧ ∀ p ∈ r.payloads, p.IsRow k xs.length) ∨
      (Strays H xs ∧ r.payloads ≠ [] ∧ ∀ p ∈ r.payloads, p.IsFunction) := by
  cases h with
  | start _ _ _ hrows => exact .inl ⟨fun h => h.1 rfl, hrows⟩
  | rows _ _ _ hsum hrows =>
    refine .inl ⟨?_, hrows⟩
    rintro ⟨hne, ⟨hH, hjust⟩ | ⟨hH, hright⟩⟩ <;> obtain ⟨x, hx⟩ := List.exists_mem_of_ne_nil xs hne
    · obtain ⟨s, v, rfl⟩ := hjust x hx
      cases hxs _ hx
      cases H <;> first | exact hH rfl | cases hsum rfl
    · obtain ⟨s, v, rfl⟩ := hright x hx
      cases hxs _ hx
      cases H <;> first | exact hH rfl | cases hsum rfl
  | strayed _ hdone hne hφ hforeign hpayloads hfunctions =>
    refine .inr ⟨⟨hne, ?_⟩, hpayloads, hfunctions⟩
    cases φ with
    | maybe =>
      exact .inl ⟨fun hH => hforeign (by rw [hH]; rfl), fun x hx =>
        Value.exists_just (hxs x hx) (hdone x hx)⟩
    | either =>
      exact .inr ⟨fun hH => hforeign (by rw [hH]; rfl), fun x hx =>
        Value.exists_right (hxs x hx) (hdone x hx)⟩
    | array | identity => cases hφ
  | failed hr hdone _ =>
    obtain ⟨x, hx, hfailure⟩ := hdone
    refine .inl ⟨?_, by simp [Value.payloads_of_isFailure hr]⟩
    rintro ⟨-, ⟨-, hall⟩ | ⟨-, hall⟩⟩ <;> obtain ⟨s, v, rfl⟩ := hall x hx <;> cases hfailure

/-- What a swap of native values that was checked hands out, if it answers, are rows of the kind and
the length of the sequence, unless the containers stray: then it hands out functions. -/
theorem checked_sequence (d : Nat) (hxs : ∀ x ∈ xs, x.isNative = true) (hw : w.Untouched)
    {r : Value} (h : (sequence.checked (apply d) [H.rep, .seq k t xs]).outcome w = (.ok r, w')) :
    (¬Strays H xs ∧ ∀ p ∈ r.payloads, p.IsRow k xs.length) ∨
      (Strays H xs ∧ r.payloads ≠ [] ∧ ∀ p ∈ r.payloads, p.IsFunction) := by
  have hcheck := keeps_check (apply d) H k t hxs w hw
  rw [checked, enforce, outcome_bind] at h
  rcases hout : (check (apply d) .standard sequence.signature [H.rep, .seq k t xs]).outcome w with
    ⟨f | bindings | v, w''⟩
  · rw [hout] at h
    cases h
  · rw [hout] at h hcheck
    obtain ⟨φ, hφ⟩ := exists_family_of_passed hxs (congrArg Prod.fst hout)
    have hrun := keeps_sequence (H := H) (k := k) (t := t) (d := d) hφ w'' hcheck.2
    have h : (CheckedCalls.sequence (apply d) (.function (.lift H.rep)) (.seq k t xs)).outcome w'' =
      (.ok r, w') := h
    rw [h] at hrun
    exact rows_or_strays hφ hrun.1
  · rw [hout] at h
    cases h

/-- Two lists of one element each are swapped into a row of two, whereas a success of Either strays
where Maybe is asked for. -/
theorem checked_sequence_right :
    (∃ r w', (sequence.checked applyFunction [(Holder.seq .tuple).rep,
        .list [.list [.int 1], .list [.int 2]]]).outcome .initial = (.ok r, w') ∧
      ∀ p ∈ r.payloads, p.IsRow .list 2) ∧
    ∃ r w', (sequence.checked applyFunction [Holder.maybe.rep,
        .list [.right .fresh (.int 1)]]).outcome .initial = (.ok r, w') ∧
      ∀ p ∈ r.payloads, p.IsFunction := by
  constructor
  · obtain ⟨r, w', hout⟩ := exists_outcome (r := sequence.checked applyFunction
      [(Holder.seq .tuple).rep, .list [.list [.int 1], .list [.int 2]]]) (w := .initial)
      (by decide +kernel)
    have hxs : ∀ x ∈ [Value.list [.int 1], .list [.int 2]], x.isNative = true := by decide
    refine ⟨r, w', hout, ?_⟩
    rcases checked_sequence (H := .seq .tuple) callDepth hxs World.untouched_initial hout with
      ⟨-, hrows⟩ | ⟨⟨-, ⟨-, hall⟩ | ⟨-, hall⟩⟩, -⟩
    · exact hrows
    · obtain ⟨s, v, h⟩ := hall _ List.mem_cons_self
      cases h
    · obtain ⟨s, v, h⟩ := hall _ List.mem_cons_self
      cases h
  · obtain ⟨r, w', hout⟩ := exists_outcome (r := sequence.checked applyFunction
      [Holder.maybe.rep, .list [.right .fresh (.int 1)]]) (w := .initial) (by decide +kernel)
    have hxs : ∀ x ∈ [Value.right .fresh (.int 1)], x.isNative = true := by decide
    refine ⟨r, w', hout, ?_⟩
    rcases checked_sequence (H := .maybe) callDepth hxs World.untouched_initial hout with
      ⟨hstrays, -⟩ | ⟨-, -, hfunctions⟩
    · refine absurd ⟨List.cons_ne_nil _ _, .inr ⟨nofun, ?_⟩⟩ hstrays
      exact List.forall_mem_singleton.2 ⟨_, _, rfl⟩
    · exact hfunctions

/-- What is handed out where a success of Either was swapped into Maybe is no row. -/
theorem sequence_right_strays : ∃ r w',
    (sequence.checked applyFunction [Holder.maybe.rep, .list [.right .fresh (.int 1)]]).outcome
      .initial = (.ok r, w') ∧ ∃ p ∈ r.payloads, ¬p.IsRow .list 1 := by
  have hcallable : ((sequence.checked applyFunction [Holder.maybe.rep,
      .list [.right .fresh (.int 1)]]).outcome .initial).1.toOption.any
        (·.payloads.any Value.isCallable) = true := by decide +kernel
  rcases hout : (sequence.checked applyFunction [Holder.maybe.rep,
    .list [.right .fresh (.int 1)]]).outcome .initial with ⟨f | r, w'⟩
  · rw [hout] at hcallable
    cases hcallable
  · rw [hout] at hcallable
    obtain ⟨p, hp, hcallable⟩ := List.any_eq_true.1 hcallable
    refine ⟨r, w', rfl, p, hp, ?_⟩
    rintro ⟨t, xs, rfl, -⟩
    cases hcallable

end Checked

end Combinator

end CheckedCalls
