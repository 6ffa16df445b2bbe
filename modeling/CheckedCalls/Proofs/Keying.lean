import CheckedCalls.Proofs.Hashing

/-!
# Keys of dictionaries

Entries are found and set by keys that match. On data that can be hashed this is symmetric and
transitive, and it stays so with classes, exceptions and plain objects among the keys, which match
only themselves (`IsKey.keying`).
-/

namespace CheckedCalls

open Run

namespace Value

variable {call : Apply} {w : World} {store : Nat → Value} {i j k : Value}

/-- Keys that can be hashed, and that match each other as in an equivalence. -/
structure Keying (call : Apply) (w : World) (S : Value → Prop) : Prop where
  hash : ∀ {k}, S k → ∃ h, (k.hashKey call).Answers w h
  tells : ∀ {j k}, S j → S k →
    (keyMatches call j (same call j) k).Tells id w (Matches call w j k)
  refl : ∀ {k}, S k → Matches call w k k
  equiv : EquivOn S (Matches call w)

/-! ## Objects known by their identity -/

/-- Classes, exceptions and plain objects. -/
def isOpaque : Value → Bool
  | .type _ | .error _ _ _ | .plain _ => true
  | _ => false

/-- What a dictionary is keyed by: data that can be hashed, and objects known by their identity. -/
inductive IsKey (call : Apply) (w : World) (store : Nat → Value) : Value → Prop
  | data {k : Value} (hk : Sound call w store k) (hhash : ∃ h, (k.hashKey call).Answers w h) :
    IsKey call w store k
  | object {k : Value} (hk : k.isOpaque = true) (hself : k.identical k = true) :
    IsKey call w store k

theorem isOpaque_eq_of_identical (h : j.identical k = true) : j.isOpaque = k.isOpaque := by
  cases j <;> cases k <;> first | rfl | cases h

/-- Such an object is natively equal to itself only. -/
theorem same_eq_of_isOpaque_left (hj : j.isOpaque = true) (hk : k.isNative = true) :
    same call j k = Run.answer (j.identical k) := by
  cases j with
  | type | error | plain =>
    cases k with
    | object => exact absurd hk Bool.false_ne_true
    | _ => rfl
  | _ => exact absurd hj Bool.false_ne_true

/-- Sameness with an opaque value is identity. -/
theorem same_eq_of_isOpaque_right (hj : j.isNative = true) (hk : k.isOpaque = true) :
    same call j k = Run.answer (j.identical k) := by
  have hvariant (b : Base) (held : Value → Run Value) :
      variantSame call b j held k = Run.answer false := by
    cases k with
    | type | error | plain => simp [variantSame, heldBy?, payload?]
    | _ => exact absurd hk Bool.false_ne_true
  have hpoint : ¬samePoint j k = true := not_samePoint (by cases k <;> first | rfl | cases hk)
  cases k with
  | type | error | plain =>
    cases j with
    | number | complex => exact (if_neg hpoint).trans rfl
    | just | left | right | identity =>
      rw [same]
      exact hvariant _ _
    | object => exact absurd hj Bool.false_ne_true
    | _ => rfl
  | _ => exact absurd hk Bool.false_ne_true

namespace IsKey

theorem isNative (hk : IsKey call w store k) : k.isNative = true := by
  cases hk with
  | data hk => exact hk.isNative
  | object hk => cases k <;> first | rfl | cases hk

/-- Keys have hash keys. -/
theorem hash (hk : IsKey call w store k) : ∃ h, (k.hashKey call).Answers w h := by
  cases hk with
  | data hk hhash => exact hhash
  | object hk =>
    cases k with
    | type r => cases r <;> exact ⟨_, rfl⟩
    | error | plain => exact ⟨_, rfl⟩
    | _ => exact absurd hk Bool.false_ne_true

/-- Keys are both data or one of them is known by its identity. -/
theorem same_eq (hj : IsKey call w store j) (hk : IsKey call w store k) :
    (Sound call w store j ∧ Sound call w store k) ∨
      same call j k = Run.answer (j.identical k) := by
  cases hj with
  | object hj => exact .inr (same_eq_of_isOpaque_left hj hk.isNative)
  | data hj =>
    cases hk with
    | data hk => exact .inl ⟨hj, hk⟩
    | object hk => exact .inr (same_eq_of_isOpaque_right hj.isNative hk)

theorem same_tells (hj : IsKey call w store j) (hk : IsKey call w store k) :
    (same call j k).Tells .bool w (Same call w j k) := by
  rcases hj.same_eq hk with ⟨hj, hk⟩ | h
  · exact (settled call w store).same hj hk
  · rw [h, Same, h]
    exact Run.tells_answer (by simp [Run.answer, Run.answers_pure_iff])

/-- Keys that match are both data or one object. -/
theorem data_or_identical (hj : IsKey call w store j) (hk : IsKey call w store k)
    (h : Matches call w j k) :
    (Sound call w store j ∧ Sound call w store k) ∨ j.identical k = true := by
  rcases h with h | ⟨-, h⟩
  · exact .inr h
  · refine (hj.same_eq hk).imp_right fun heq => ?_
    simpa [Same, heq, Run.answer, Run.answers_pure_iff] using h

/-- What is one object with data is data. -/
theorem data_of_identical (hj : IsKey call w store j) (hk : Sound call w store k)
    (h : j.identical k = true) : Sound call w store j := by
  cases hj with
  | data hj => exact hj
  | object hj =>
    rw [isOpaque_eq_of_identical h] at hj
    cases hk <;> cases hj

/-- To match is an equivalence of keys. -/
theorem equivOn_matches : EquivOn (IsKey call w store) (Matches call w) where
  symm hj hk h := by
    have hdata := Value.equivOn_matches id (settled call w store).equiv_same
    rcases hj.data_or_identical hk h with ⟨hj, hk⟩ | hid
    · exact hdata.symm hj hk h
    · exact .inl (identical_symm hid)
  trans hi hj hk hij hjk := by
    have hdata := Value.equivOn_matches id (settled call w store).equiv_same
    rcases hi.data_or_identical hj hij with ⟨hi, hj'⟩ | hidij <;>
      rcases hj.data_or_identical hk hjk with ⟨hj, hk'⟩ | hidjk
    · exact hdata.trans hi hj hk' hij hjk
    · exact hdata.trans hi hj' (hk.data_of_identical hj' (identical_symm hidjk)) hij hjk
    · exact hdata.trans (hi.data_of_identical hj hidij) hj hk' hij hjk
    · exact .inl (identical_trans hidij hidjk)

/-- The keys of sound dicts are proper for merging. -/
theorem keying (call : Apply) (w : World) (store : Nat → Value) :
    Keying call w (IsKey call w store) where
  hash := IsKey.hash
  tells hj hk := keyMatches_tells hj.hash hk.hash (hj.same_tells hk)
  refl hk := by
    cases hk with
    | data hk hhash => exact hk.matches_self hhash
    | object _ hself => exact .inl hself
  equiv := equivOn_matches

end IsKey

end Value

end CheckedCalls
