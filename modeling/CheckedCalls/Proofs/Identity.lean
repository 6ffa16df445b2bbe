import CheckedCalls.Value.HashKey

/-!
# One object, one hash

That two values are one object is symmetric and transitive, and so is that two keys give the same
hash. Neither is reflexive: an object without a number is identical to nothing, not even to itself.
-/

namespace CheckedCalls

/-! ## Tags -/

namespace Tag

theorem same_iff {s t : Tag} : s.same t = true ↔ s = t ∧ s ≠ .fresh := by
  cases s <;> simp [same]

/-- To be the same object is a symmetric relation of tags. -/
theorem same_comm (s t : Tag) : s.same t = t.same s := by
  rw [Bool.eq_iff_iff, same_iff, same_iff]
  constructor <;> rintro ⟨rfl, h⟩ <;> exact ⟨rfl, h⟩

/-- To be the same object is a transitive relation of tags. -/
theorem same_trans {s t u : Tag} (hst : s.same t = true) (htu : t.same u = true) :
    s.same u = true := by
  obtain ⟨rfl, -⟩ := same_iff.1 hst
  exact htu

end Tag

theorem TypeRep.same_comm (r q : TypeRep) : r.same q = q.same r := by
  cases r <;> cases q <;> first | rfl | exact Bool.beq_comm | exact Tag.same_comm _ _

/-- To be the same class is a transitive relation. -/
theorem TypeRep.same_trans {p q r : TypeRep} (hpq : p.same q = true) (hqr : q.same r = true) :
    p.same r = true := by
  cases p <;> cases q <;> cases r <;> simp only [TypeRep.same] at * <;> first
    | exact Tag.same_trans hpq hqr
    | simp_all

/-! ## Identical values -/

namespace Number

/-- Identity of numbers is symmetric. -/
theorem identical_comm (b : Bool) (m n : Number) : m.identical b n = n.identical b m := by
  cases m <;> cases n <;> first | rfl | skip
  case int.int m n =>
    rw [Bool.eq_iff_iff]
    simp only [identical, Bool.and_eq_true, beq_iff_eq]
    constructor <;> rintro ⟨rfl, h⟩ <;> exact ⟨rfl, h⟩

end Number

namespace Func

/-- One method without its receiver is known by the class that supplies it and its name. -/
theorem isSameMethod_iff {f g : Func} :
    f.isSameMethod g = true ↔ ∃ b a, f = .unbound b a ∧ g = .unbound b a := by
  constructor
  · intro h
    cases f <;> try exact absurd h Bool.false_ne_true
    cases g <;> try exact absurd h Bool.false_ne_true
    simp only [isSameMethod, Bool.and_eq_true, beq_iff_eq] at h
    exact ⟨_, _, rfl, by rw [h.1, h.2]⟩
  · rintro ⟨b, a, rfl, rfl⟩
    simp [isSameMethod]

/-- To be one method of one object is symmetric. -/
theorem isSameMethod_symm {f g : Func} (h : f.isSameMethod g = true) :
    g.isSameMethod f = true := by
  obtain ⟨b, a, rfl, rfl⟩ := isSameMethod_iff.1 h
  exact h

/-- To be one method of one object is transitive. -/
theorem isSameMethod_trans {f g h : Func} (hfg : f.isSameMethod g = true)
    (hgh : g.isSameMethod h = true) : f.isSameMethod h = true := by
  obtain ⟨b, a, rfl, rfl⟩ := isSameMethod_iff.1 hfg
  exact hgh

theorem isUnbound_of_isSameMethod {f g : Func} (h : f.isSameMethod g = true) :
    f.isUnbound = true ∧ g.isUnbound = true := by
  obtain ⟨b, a, rfl, rfl⟩ := isSameMethod_iff.1 h
  exact ⟨rfl, rfl⟩

end Func

namespace Value

/-- Identity of values is symmetric, one way. -/
theorem identical_symm {x y : Value} (h : x.identical y = true) : y.identical x = true := by
  cases x <;> cases y <;> (try exact absurd h Bool.false_ne_true)
  case null | nothing => rfl
  case bool | pattern => exact Bool.beq_comm.trans h
  case type => exact (TypeRep.same_comm ..).trans h
  case number => exact (Number.identical_comm ..).trans (Tag.same_comm .. ▸ h)
  case text | bytes =>
    simp only [identical, Bool.and_eq_true, beq_iff_eq] at *
    obtain ⟨rfl, h⟩ := h
    exact ⟨rfl, Tag.same_comm .. ▸ h⟩
  case seq =>
    simp only [identical] at *
    grind [Tag.same_comm]
  case func =>
    simp only [identical] at *
    grind [Tag.same_comm, Func.isSameMethod_symm]
  all_goals exact (Tag.same_comm ..).trans h

theorem identical_comm (x y : Value) : x.identical y = y.identical x :=
  Bool.eq_iff_iff.2 ⟨identical_symm, identical_symm⟩

/-- Identity of values is transitive. -/
theorem identical_trans {x y z : Value} (hxy : x.identical y = true) (hyz : y.identical z = true) :
    x.identical z = true := by
  cases x <;> cases y <;> (try exact absurd hxy Bool.false_ne_true) <;>
    cases z <;> (try exact absurd hyz Bool.false_ne_true)
  all_goals first
    | rfl
    | exact Tag.same_trans hxy hyz
    | exact TypeRep.same_trans hxy hyz
    | skip
  case bool => simp_all [identical]
  case pattern => simp_all [identical]
  case number s m t n u k =>
    cases m <;> cases n <;> cases k <;> simp only [identical, Number.identical] at * <;> first
      | exact Tag.same_trans hxy hyz
      | grind [Tag.same_trans]
  case text =>
    simp only [identical] at *
    grind [Tag.same_trans]
  case bytes =>
    simp only [identical] at *
    grind [Tag.same_trans]
  case seq =>
    simp only [identical] at *
    grind [Tag.same_trans]
  case func =>
    simp only [identical] at *
    grind [Tag.same_trans, Func.isSameMethod_trans, Func.isUnbound_of_isSameMethod]

end Value

/-! ## Keys of one hash -/

namespace HashKey

mutual

/-- Hash keys are compared symmetrically. -/
theorem same_comm : ∀ h k : HashKey, h.same k = k.same h
  | .tuple as, k => by
    cases k with
    | tuple bs => exact sameAll_comm as bs
    | _ => rfl
  | .bound r _ _, k => by
    cases k <;> first | rfl | simp only [same, Value.identical_comm r, Bool.beq_comm]
  | .boundTo r f, k => by
    cases k <;> first
      | rfl
      | simp only [same, Value.identical_comm r, Value.identical_comm f]
  | .object _, k => by cases k <;> first | rfl | exact Tag.same_comm _ _
  | .null, k | .point _, k | .text _, k | .bytes _, k | .date _, k | .pattern _, k
  | .builtin _, k => by cases k <;> first | rfl | exact Bool.beq_comm
  | .complex _ _, k | .moment _ _, k | .method _ _, k => by
    cases k <;> first | rfl | simp only [same, Bool.beq_comm]

/-- Lists of hash keys are compared symmetrically. -/
theorem sameAll_comm : ∀ hs ks : List HashKey, sameAll hs ks = sameAll ks hs
  | [], [] | [], _ :: _ | _ :: _, [] => rfl
  | h :: hs, k :: ks => by rw [sameAll, sameAll, same_comm h k, sameAll_comm hs ks]

end

mutual

/-- Sameness of hash keys is transitive. -/
theorem same_trans : ∀ {h k l : HashKey}, h.same k = true → k.same l = true → h.same l = true
  | .tuple as, k, l, hhk, hkl => by
    cases k with
    | tuple bs =>
      cases l with
      | tuple cs => exact sameAll_trans hhk hkl
      | _ => cases hkl
    | _ => cases hhk
  | .bound r _ _, k, l, hhk, hkl => by
    cases k with
    | bound =>
      cases l with
      | bound =>
        simp only [same, Bool.and_eq_true, beq_iff_eq] at *
        obtain ⟨⟨hrq, rfl⟩, rfl⟩ := hhk
        obtain ⟨⟨hqp, rfl⟩, rfl⟩ := hkl
        exact ⟨⟨Value.identical_trans hrq hqp, rfl⟩, rfl⟩
      | _ => cases hkl
    | _ => cases hhk
  | .boundTo r f, k, l, hhk, hkl => by
    cases k with
    | boundTo =>
      cases l with
      | boundTo =>
        simp only [same, Bool.and_eq_true] at *
        exact ⟨Value.identical_trans hhk.1 hkl.1, Value.identical_trans hhk.2 hkl.2⟩
      | _ => cases hkl
    | _ => cases hhk
  | .object s, k, l, hhk, hkl => by
    cases k with
    | object =>
      cases l with
      | object => exact Tag.same_trans hhk hkl
      | _ => cases hkl
    | _ => cases hhk
  | .null, k, l, hhk, hkl => by
    cases k <;> (try exact absurd hhk Bool.false_ne_true)
    exact hkl
  | .point _, k, l, hhk, hkl | .text _, k, l, hhk, hkl | .bytes _, k, l, hhk, hkl
  | .date _, k, l, hhk, hkl | .pattern _, k, l, hhk, hkl | .builtin _, k, l, hhk, hkl => by
    cases k <;> (try exact absurd hhk Bool.false_ne_true)
    simp only [same, beq_iff_eq] at hhk
    rw [hhk]
    exact hkl
  | .complex _ _, k, l, hhk, hkl | .moment _ _, k, l, hhk, hkl | .method _ _, k, l, hhk, hkl => by
    cases k <;> (try exact absurd hhk Bool.false_ne_true)
    simp only [same, Bool.and_eq_true, beq_iff_eq] at hhk
    rw [hhk.1, hhk.2]
    exact hkl

/-- Sameness of lists of hash keys is transitive. -/
theorem sameAll_trans : ∀ {hs ks ls : List HashKey}, sameAll hs ks = true →
    sameAll ks ls = true → sameAll hs ls = true
  | [], [], [], _, _ => rfl
  | h :: hs, k :: ks, l :: ls, hhk, hkl => by
    simp only [sameAll, Bool.and_eq_true] at *
    exact ⟨same_trans hhk.1 hkl.1, sameAll_trans hhk.2 hkl.2⟩

end

end HashKey

end CheckedCalls
