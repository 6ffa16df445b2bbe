import CheckedCalls.Text.Quoted
import Mathlib.Tactic.SplitIfs

/-!
# Texts that can be taken off

Where two texts are equal and both begin with a word, the words are equal if neither can go on, and
so are the rests (`Text.cancel_word`); likewise two strings up to their closing quotes
(`Text.cancel_quoted`), since the characters between quotes are read one by one.
-/

namespace CheckedCalls.Text

/-! ## Words -/

/-- Two words can be taken off where no character of a word follows. -/
theorem cancel_word {p : Char → Bool} {v w x y : List Char} (hv : ∀ c ∈ v, p c = true)
    (hw : ∀ c ∈ w, p c = true) (hx : ∀ c ∈ x.head?, p c = false) (hy : ∀ c ∈ y.head?, p c = false)
    (h : v ++ x = w ++ y) : v = w ∧ x = y := by
  -- if one word were longer, the other would end before a character of a word
  have hshort : ∀ {word more u rest : List Char}, (∀ c ∈ word ++ more, p c = true) →
      (∀ c ∈ u.head?, p c = false) → u = more ++ rest → more = [] := by
    rintro word more u rest hword hu rfl
    cases more with
    | nil => rfl
    | cons c more =>
      have hpart := hword c (List.mem_append_right word List.mem_cons_self)
      rw [hu c rfl] at hpart
      cases hpart
  obtain ⟨more, rfl, hrest⟩ | ⟨more, rfl, hrest⟩ := List.append_eq_append_iff.1 h
  · obtain rfl := hshort hw hx hrest
    exact ⟨(List.append_nil v).symm, hrest⟩
  · obtain rfl := hshort hv hy hrest
    exact ⟨List.append_nil w, hrest.symm⟩

/-! ## Quoted characters -/

/-- The first character between quotes, and what follows. -/
def unquote? : List Char → Option (Char × List Char)
  | '\\' :: 'u' :: a :: b :: c :: d :: rest =>
    ((List.range 32).find? fun n => hex 4 n == [a, b, c, d]).map fun n => (Char.ofNat n, rest)
  | '\\' :: 'n' :: rest => some ('\n', rest)
  | '\\' :: 'r' :: rest => some ('\r', rest)
  | '\\' :: 't' :: rest => some ('\t', rest)
  | '\\' :: 'b' :: rest => some ('\x08', rest)
  | '\\' :: 'f' :: rest => some ('\x0c', rest)
  | '\\' :: c :: rest => some (c, rest)
  | c :: rest => some (c, rest)
  | [] => none

theorem exists_hex : ∀ n < 32, (hex 4 n).length = 4 ∧
    ((List.range 32).find? fun m => hex 4 m == hex 4 n) = some n := by decide

/-- A character is read as it was quoted. -/
theorem unquote?_quotedChar (c : Char) (rest : List Char) :
    unquote? (quotedChar c ++ rest) = some (c, rest) := by
  unfold quotedChar
  split_ifs with hquote hslash hline hreturn htab hback hfeed hcontrol
  any_goals
    subst c
    rfl
  · -- four digits that no other control character has
    obtain ⟨hlength, hfind⟩ := exists_hex c.toNat hcontrol
    match hex 4 c.toNat, hlength, hfind with
    | [d₁, d₂, d₃, d₄], _, hfind =>
      simp only [List.cons_append, List.nil_append, unquote?, hfind, Option.map_some]
      rw [Char.ofNat_toNat]
  · rw [List.singleton_append]
    unfold unquote?
    split <;> simp_all

/-- No character between quotes begins with a quote. -/
theorem head?_quotedChar (c : Char) (rest : List Char) :
    (quotedChar c ++ rest).head? ≠ some '"' := by
  unfold quotedChar
  split_ifs with hquote
  all_goals simp_all

/-- Two strings can be taken off up to their closing quotes. -/
theorem cancel_quoted {cs ds r s : List Char}
    (h : cs.flatMap quotedChar ++ '"' :: r = ds.flatMap quotedChar ++ '"' :: s) : cs = ds ∧ r = s := by
  induction cs generalizing ds with
  | nil =>
    cases ds with
    | nil => exact ⟨rfl, (List.cons.inj h).2⟩
    | cons d ds =>
      rw [List.flatMap_cons, List.append_assoc] at h
      exact absurd (congrArg List.head? h.symm) (head?_quotedChar d _)
  | cons c cs ih =>
    rw [List.flatMap_cons, List.append_assoc] at h
    cases ds with
    | nil => exact absurd (congrArg List.head? h) (head?_quotedChar c _)
    | cons d ds =>
      rw [List.flatMap_cons, List.append_assoc] at h
      have hread := congrArg unquote? h
      rw [unquote?_quotedChar, unquote?_quotedChar] at hread
      obtain ⟨hfirst, hrest⟩ := Prod.mk.inj (Option.some.inj hread)
      obtain ⟨hmore, hend⟩ := ih hrest
      exact ⟨by rw [hfirst, hmore], hend⟩

end CheckedCalls.Text
