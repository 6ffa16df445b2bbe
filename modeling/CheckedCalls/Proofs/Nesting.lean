import CheckedCalls.Proofs.Spans

/-!
# Nesting of spans

The columns of two parts of a signature lie as the parts do. Entries are put down from the inside
outwards and from left to right, so it is enough to compare each with those behind it
(`TypeExpr.pairwise_apart_spans`): the earlier one either belongs to a part of the later one and
lies inside, or it stands to the left of it, with a column between them. It follows that no key has
two entries, that a part lies strictly inside what it is a part of, and that siblings are disjoint
and in order (`Signature.spans_exact`).
-/

namespace CheckedCalls

/-! ## Entries apart -/

/-- Two entries lie apart as their keys do: the first one is that of a part of the second, or it is
that of a part further to the left. -/
inductive Apart (p q : SpanKey × TypeExpr.Columns) : Prop
  | inside (i : Nat) (h : q.1 ++ [i] <+: p.1) (hstart : q.2.1 < p.2.1) (hstop : p.2.2 ≤ q.2.2)
  | before (key : SpanKey) (i j : Nat) (hlt : i < j) (hp : key ++ [i] <+: p.1)
      (hq : key ++ [j] <+: q.1) (h : p.2.2 < q.2.1)

/-- Two places of one key lead to different keys. -/
theorem eq_of_prefixes {key key' : SpanKey} {i j : Nat} (hi : key ++ [i] <+: key')
    (hj : key ++ [j] <+: key') : i = j := by
  obtain ⟨rest, rfl⟩ := hi
  rw [List.append_assoc, List.prefix_append_right_inj] at hj
  obtain ⟨tail, htail⟩ := hj
  exact (List.cons.inj htail).1.symm

namespace Apart

variable {p q : SpanKey × TypeExpr.Columns} {key path : SpanKey} {i j : Nat}

theorem ne (h : Apart p q) : p.1 ≠ q.1 := by
  cases h with
  | inside i h _ _ => exact TypeExpr.ne_self_of_prefix h
  | before key i j hlt hp hq _ =>
    intro heq
    rw [← heq] at hq
    exact Nat.ne_of_lt hlt (eq_of_prefixes hp hq)

/-- An entry is inside a later one if its key is longer by some places. -/
theorem nested (h : Apart p q) (hkey : p.1 = q.1 ++ path) :
    q.2.1 < p.2.1 ∧ p.2.2 ≤ q.2.2 := by
  cases h with
  | inside i _ hstart hstop => exact ⟨hstart, hstop⟩
  | before key i j hlt hp hq _ =>
    -- the key of the outer part cannot go another way than that of the inner one
    have hsame : i = j := eq_of_prefixes hp (hq.trans ⟨path, hkey.symm⟩)
    omega

/-- No entry is that of a part of an earlier one. -/
theorem not_nested (h : Apart p q) (path : SpanKey) : q.1 ≠ p.1 ++ path := by
  intro hkey
  cases h with
  | inside i h _ _ =>
    have hlength := h.length_le
    rw [hkey, List.length_append, List.length_append, List.length_singleton] at hlength
    omega
  | before key i j hlt hp hq _ =>
    have hsame : i = j := eq_of_prefixes (hp.trans ⟨path, hkey.symm⟩) hq
    omega

/-- Of two siblings, the one on the left comes first. -/
theorem siblings (h : Apart p q) (hp : p.1 = key ++ [i]) (hq : q.1 = key ++ [j]) :
    i < j ∧ p.2.2 < q.2.1 := by
  cases h with
  | inside k h _ _ =>
    have hlength := h.length_le
    rw [hp, hq] at hlength
    simp only [List.length_append, List.length_singleton] at hlength
    omega
  | before key' k l hlt hp' hq' hstop =>
    rw [hp] at hp'
    rw [hq] at hq'
    rcases List.prefix_concat_iff.1 hp' with heq | hshort
    · obtain ⟨rfl, hk⟩ := List.append_inj' heq rfl
      obtain rfl : k = i := (List.cons.inj hk).1
      obtain rfl : l = j := eq_of_prefixes hq' (List.prefix_refl _)
      exact ⟨hlt, hstop⟩
    · -- the ways part before the siblings do, which have one way up to their places
      have hsame : k = l := eq_of_prefixes (hshort.trans (List.prefix_append key [j])) hq'
      omega

end Apart

/-- Entries of which each lies apart from those behind it. -/
theorem nodup_keys {entries : List (SpanKey × TypeExpr.Columns)} (h : entries.Pairwise Apart) :
    (entries.map Prod.fst).Nodup :=
  List.pairwise_map.2 (h.imp Apart.ne)

namespace TypeExpr

/-! ## Bounds -/

/-- Brackets around an expression stand at the same distance on both sides of it. -/
theorem exists_margin (e : TypeExpr) (nested : Bool) : ∃ margin,
    (e.chars nested).length = margin + (e.chars false).length + margin ∧
      ∀ start key, e.spans nested start key = e.spans false (start + margin) key := by
  have hvar : ∀ name args, ∃ margin, ((var name args).chars nested).length =
      margin + ((var name args).chars false).length + margin ∧ ∀ start key,
        (var name args).spans nested start key = (var name args).spans false (start + margin) key := by
    intro name args
    cases hbracket : nested && !args.isEmpty with
    | false => exact ⟨0, by simp [chars, bracket, hbracket], by simp [spans, hbracket]⟩
    | true =>
      refine ⟨1, ?_, by simp [spans, hbracket]⟩
      simp only [chars, bracket, hbracket, Bool.false_and, if_true, Bool.false_eq_true, if_false,
        List.length_append, List.length_cons, List.length_nil]
      omega
  cases e with
  | var name args => exact hvar name args
  | concrete t args =>
    simp only [spans_concrete, chars_concrete]
    exact hvar t.name args
  | fn params result => exact ⟨0, by simp [chars], by simp [spans]⟩
  | foreign => exact ⟨0, by simp [chars], by simp [spans]⟩

/-- The entries of an applied name lie where its text stands, if those of the arguments do. -/
theorem bounds_applied {args : List TypeExpr} (hargs : ∀ start key, ∀ p ∈ argumentSpans start key 0 args,
      start < p.2.1 ∧ p.2.2 ≤ start + (argumentChars args).length) (name : String) (nested : Bool)
    (start : Nat) (key : SpanKey) : ∀ p ∈ (var name args).spans nested start key,
      start ≤ p.2.1 ∧ p.2.2 ≤ start + ((var name args).chars nested).length := by
  intro p hp
  obtain ⟨margin, hlength, hspans⟩ := exists_margin (var name args) nested
  rw [hspans, spans_var_false] at hp
  rw [chars_var_false, List.length_append] at hlength
  rcases List.mem_append.1 hp with hp | hp
  · have hinside := hargs _ key p hp
    omega
  · cases List.mem_singleton.1 hp
    dsimp only
    rw [List.length_append]
    omega

mutual

/-- The entries of an expression lie where its text stands. -/
theorem bounds_spans : ∀ (e : TypeExpr) (nested : Bool) (start : Nat) (key : SpanKey),
    ∀ p ∈ e.spans nested start key, start ≤ p.2.1 ∧ p.2.2 ≤ start + (e.chars nested).length
  | .var name args, nested, start, key =>
    bounds_applied (fun start key => bounds_argumentSpans args start key 0) name nested start key
  | .concrete t args, nested, start, key => by
    rw [spans_concrete, chars_concrete]
    exact bounds_applied (fun start key => bounds_argumentSpans args start key 0) t.name nested
      start key
  | .fn params result, nested, start, key => by
    intro p hp
    obtain ⟨margin, hlength, hspans⟩ := exists_margin (fn params result) nested
    have htext : ((fn params result).chars false).length =
        1 + ((paramChars params).length + ((result.chars false).length + 1)) := by
      simp only [chars_fn, List.length_append, List.length_singleton]
    rw [hspans, spans_fn] at hp
    rcases List.mem_append.1 hp with hp | hp
    · have hparam := bounds_paramSpans params _ key 0 p hp
      omega
    rcases List.mem_append.1 hp with hp | hp
    · have hresult := bounds_spans result false _ _ p hp
      omega
    · cases List.mem_singleton.1 hp
      dsimp only
      omega
  | .foreign, nested, start, key => by
    intro p hp
    rw [spans] at hp
    cases List.mem_singleton.1 hp
    rw [chars]
    exact ⟨Nat.le_refl _, Nat.le_refl _⟩

/-- There is a space in front of each argument. -/
theorem bounds_argumentSpans : ∀ (args : List TypeExpr) (start : Nat) (key : SpanKey) (i : Nat),
    ∀ p ∈ argumentSpans start key i args,
      start < p.2.1 ∧ p.2.2 ≤ start + (argumentChars args).length
  | [], _, _, _ => nofun
  | e :: es, start, key, i => by
    intro p hp
    have hlength : (argumentChars (e :: es)).length =
        (e.chars true).length + (argumentChars es).length + 1 := by
      rw [argumentChars, List.cons_append, List.length_cons, List.length_append]
    rw [argumentSpans] at hp
    rcases List.mem_append.1 hp with hp | hp
    · have hfirst := bounds_spans e true _ _ p hp
      omega
    · have hrest := bounds_argumentSpans es _ key (i + 1) p hp
      omega

/-- There is an arrow behind each parameter. -/
theorem bounds_paramSpans : ∀ (params : List TypeExpr) (start : Nat) (key : SpanKey) (i : Nat),
    ∀ p ∈ paramSpans start key i params,
      start ≤ p.2.1 ∧ p.2.2 < start + (paramChars params).length
  | [], _, _, _ => nofun
  | e :: es, start, key, i => by
    intro p hp
    have hlength : (paramChars (e :: es)).length =
        (e.chars false).length + 4 + (paramChars es).length := by
      rw [paramChars, List.length_append, List.length_append]
      rfl
    rw [paramSpans] at hp
    rcases List.mem_append.1 hp with hp | hp
    · have hfirst := bounds_spans e false _ _ p hp
      omega
    · have hrest := bounds_paramSpans es _ key (i + 1) p hp
      simp only [arrow, List.length_cons, List.length_nil] at hrest
      omega

end

/-! ## Order -/

/-- The entries of an applied name are apart, if those of the arguments are. -/
theorem pairwise_apart_applied {args : List TypeExpr}
    (hargs : ∀ start key, (argumentSpans start key 0 args).Pairwise Apart) (name : String)
    (nested : Bool) (start : Nat) (key : SpanKey) :
    ((var name args).spans nested start key).Pairwise Apart := by
  obtain ⟨margin, -, hspans⟩ := exists_margin (var name args) nested
  rw [hspans, spans_var_false]
  refine List.pairwise_append.2 ⟨hargs _ key, List.pairwise_singleton _ _, fun p hp q hq => ?_⟩
  cases List.mem_singleton.1 hq
  obtain ⟨i, -, hkey⟩ := prefix_of_mem_argumentSpans hp
  have hbounds := bounds_argumentSpans args _ key 0 p hp
  refine .inside i hkey ?_ ?_
  · exact Nat.lt_of_le_of_lt (Nat.le_add_right _ _) hbounds.1
  · rw [List.length_append, ← Nat.add_assoc]
    exact hbounds.2

mutual

/-- The entries of an expression lie apart, each from those behind it. -/
theorem pairwise_apart_spans : ∀ (e : TypeExpr) (nested : Bool) (start : Nat) (key : SpanKey),
    (e.spans nested start key).Pairwise Apart
  | .var name args, nested, start, key =>
    pairwise_apart_applied (fun start key => pairwise_apart_argumentSpans args start key 0) name
      nested start key
  | .concrete t args, nested, start, key => by
    rw [spans_concrete]
    exact pairwise_apart_applied (fun start key => pairwise_apart_argumentSpans args start key 0)
      t.name nested start key
  | .fn params result, nested, start, key => by
    obtain ⟨margin, -, hspans⟩ := exists_margin (fn params result) nested
    rw [hspans, spans_fn]
    refine List.pairwise_append.2 ⟨pairwise_apart_paramSpans params _ key 0,
      List.pairwise_append.2 ⟨pairwise_apart_spans result false _ _, List.pairwise_singleton _ _,
        fun p hp q hq => ?_⟩, fun p hp q hq => ?_⟩
    · cases List.mem_singleton.1 hq
      have hbounds := bounds_spans result false _ _ p hp
      refine .inside params.length (prefix_of_mem_spans hp) ?_ ?_
      · dsimp only
        omega
      · simp only [chars_fn, List.length_append, List.length_singleton]
        omega
    · obtain ⟨i, -, hlt, hkey⟩ := prefix_of_mem_paramSpans hp
      have hbounds := bounds_paramSpans params _ key 0 p hp
      rcases List.mem_append.1 hq with hq | hq
      · have hresult := bounds_spans result false _ _ q hq
        refine .before key i params.length (by omega) hkey (prefix_of_mem_spans hq) ?_
        omega
      · cases List.mem_singleton.1 hq
        refine .inside i hkey ?_ ?_
        · dsimp only
          omega
        · simp only [chars_fn, List.length_append, List.length_singleton]
          omega
  | .foreign, nested, start, key => by
    rw [spans]
    exact List.pairwise_singleton _ _

theorem pairwise_apart_argumentSpans : ∀ (args : List TypeExpr) (start : Nat) (key : SpanKey)
    (i : Nat), (argumentSpans start key i args).Pairwise Apart
  | [], _, _, _ => .nil
  | e :: es, start, key, i => by
    rw [argumentSpans]
    refine List.pairwise_append.2 ⟨pairwise_apart_spans e true _ _,
      pairwise_apart_argumentSpans es _ key (i + 1), fun p hp q hq => ?_⟩
    obtain ⟨j, hj, hkey⟩ := prefix_of_mem_argumentSpans hq
    have hfirst := bounds_spans e true _ _ p hp
    have hrest := bounds_argumentSpans es _ key (i + 1) q hq
    refine .before key i j (by omega) (prefix_of_mem_spans hp) hkey ?_
    omega

theorem pairwise_apart_paramSpans : ∀ (params : List TypeExpr) (start : Nat) (key : SpanKey)
    (i : Nat), (paramSpans start key i params).Pairwise Apart
  | [], _, _, _ => .nil
  | e :: es, start, key, i => by
    rw [paramSpans]
    refine List.pairwise_append.2 ⟨pairwise_apart_spans e false _ _,
      pairwise_apart_paramSpans es _ key (i + 1), fun p hp q hq => ?_⟩
    obtain ⟨j, hj, -, hkey⟩ := prefix_of_mem_paramSpans hq
    have hfirst := bounds_spans e false _ _ p hp
    have hrest := bounds_paramSpans es _ key (i + 1) q hq
    refine .before key i j (by omega) (prefix_of_mem_spans hp) hkey ?_
    simp only [arrow, List.length_cons, List.length_nil] at hrest
    omega

end

end TypeExpr

namespace Signature

/-! ## Signatures -/

variable {s : Signature} {slots : List Slot} {start i j : Nat} {key path : SpanKey}
  {part : TypeExpr} {p : SpanKey × TypeExpr.Columns}

/-- The types of a signature: those of its slots, then that of the result. -/
def parts (s : Signature) : List TypeExpr := s.slots.map Slot.type ++ [s.returns]

/-- The part that a key names: the type at a place, then the way to the part of it. -/
def partAt (s : Signature) : SpanKey → Option TypeExpr
  | [] => none
  | i :: path => s.parts[i]?.bind fun e => e.partAt path

/-- There is an arrow behind each slot. -/
theorem bounds_slotSpans (hp : p ∈ slotSpans start i slots) :
    start ≤ p.2.1 ∧ p.2.2 < start + (slotChars slots).length := by
  induction slots generalizing start i with
  | nil => cases hp
  | cons slot rest ih =>
    have hlength : (slotChars (slot :: rest)).length =
        (ellipsis slot).length + (slot.type.chars false).length + 4 + (slotChars rest).length := by
      simp only [slotChars, TypeExpr.arrow, List.length_append, List.length_cons, List.length_nil]
    rw [slotSpans] at hp
    rcases List.mem_append.1 hp with hp | hp
    · have hfirst := TypeExpr.bounds_spans _ _ _ _ p hp
      omega
    · have hrest := ih hp
      simp only [TypeExpr.arrow, List.length_cons, List.length_nil] at hrest
      omega

theorem pairwise_apart_slotSpans (slots : List Slot) (start i : Nat) :
    (slotSpans start i slots).Pairwise Apart := by
  induction slots generalizing start i with
  | nil => exact .nil
  | cons slot rest ih =>
    rw [slotSpans]
    refine List.pairwise_append.2 ⟨TypeExpr.pairwise_apart_spans _ _ _ _, ih _ _,
      fun p hp q hq => ?_⟩
    obtain ⟨j, hj, -, hkey⟩ := prefix_of_mem_slotSpans hq
    have hfirst := TypeExpr.bounds_spans _ _ _ _ p hp
    have hrest := bounds_slotSpans hq
    simp only [TypeExpr.arrow, List.length_cons, List.length_nil] at hrest
    refine .before [] i j (by omega) (TypeExpr.prefix_of_mem_spans hp) hkey ?_
    omega

/-- The entries of a signature lie apart, each from those behind it. -/
theorem pairwise_apart_spans (s : Signature) : s.spans.Pairwise Apart := by
  rw [spans]
  refine List.pairwise_append.2 ⟨pairwise_apart_slotSpans _ _ _,
    TypeExpr.pairwise_apart_spans _ _ _ _, fun p hp q hq => ?_⟩
  obtain ⟨j, -, hlt, hkey⟩ := prefix_of_mem_slotSpans hp
  have hslot := bounds_slotSpans hp
  have hresult := TypeExpr.bounds_spans _ _ _ _ q hq
  refine .before [] j s.slots.length (by omega) hkey (TypeExpr.prefix_of_mem_spans hq) ?_
  omega

/-! ## Every part -/

variable {key : SpanKey} {part : TypeExpr} {span left right : Span}

/-- The span of a part covers its text. -/
theorem span?_covers_part (h : s.partAt key = some part) :
    ∃ span, s.span? key = some span ∧ Span.Covers span s.text part.text := by
  cases key with
  | nil => cases h
  | cons i path =>
    obtain ⟨e, he, hpart⟩ := Option.bind_eq_some_iff.1 h
    rw [parts, List.getElem?_append, List.length_map] at he
    split at he
    · rw [List.getElem?_map] at he
      obtain ⟨slot, hslot, rfl⟩ := Option.map_eq_some_iff.1 he
      exact span?_covers hslot hpart
    · -- behind the slots there is nothing but the result
      obtain ⟨hplace, hresult⟩ := List.getElem?_eq_some_iff.1 he
      rw [List.length_singleton] at hplace
      obtain rfl : i = s.slots.length := by omega
      rw [List.getElem_singleton] at hresult
      subst hresult
      exact span?_covers_result hpart

/-- The keys with entries are those of the parts. -/
theorem mem_keys_iff (s : Signature) (key : SpanKey) :
    key ∈ s.spans.map Prod.fst ↔ (s.partAt key).isSome = true := by
  constructor
  · intro h
    obtain ⟨p, hp, rfl⟩ := List.mem_map.1 h
    rw [spans] at hp
    rcases List.mem_append.1 hp with hp | hp
    · obtain ⟨j, slot, path, hslot, hkey, hpath⟩ := exists_partAt_of_mem_slotSpans hp
      have hlt : j < s.slots.length := (List.getElem?_eq_some_iff.1 hslot).1
      rw [hkey, Nat.zero_add, partAt, parts, List.getElem?_append_left (by simpa using hlt),
        List.getElem?_map, hslot]
      exact hpath
    · obtain ⟨path, hkey, hpath⟩ := TypeExpr.exists_partAt_of_mem_spans _ _ _ _ p hp
      rw [hkey, List.singleton_append, partAt, parts, List.getElem?_append_right (by simp),
        List.length_map, Nat.sub_self]
      exact hpath
  · intro h
    obtain ⟨part, hpart⟩ := Option.isSome_iff_exists.1 h
    obtain ⟨span, hspan, -⟩ := span?_covers_part hpart
    obtain ⟨columns, hcolumns, -⟩ := Option.map_eq_some_iff.1 hspan
    exact List.mem_map.2 ⟨(key, columns), mem_of_lookup hcolumns, rfl⟩

/-- Two spans of a signature lie apart, in one order or the other. -/
theorem apart_or_apart {key' : SpanKey} (hne : key ≠ key') (hleft : s.span? key = some left)
    (hright : s.span? key' = some right) : ∃ c d, left = toSpan c ∧ right = toSpan d ∧
      (Apart (key, c) (key', d) ∨ Apart (key', d) (key, c)) := by
  obtain ⟨c, hc, rfl⟩ := Option.map_eq_some_iff.1 hleft
  obtain ⟨d, hd, rfl⟩ := Option.map_eq_some_iff.1 hright
  refine ⟨c, d, rfl, rfl, ?_⟩
  have hpairwise := List.pairwise_iff_getElem.1 s.pairwise_apart_spans
  obtain ⟨m, hm, hentry⟩ := List.getElem_of_mem (mem_of_lookup hc)
  obtain ⟨n, hn, hentry'⟩ := List.getElem_of_mem (mem_of_lookup hd)
  rw [← hentry, ← hentry']
  rcases Nat.lt_trichotomy m n with hlt | rfl | hgt
  · exact .inl (hpairwise m n hm hn hlt)
  · exact absurd (congrArg Prod.fst (hentry.symm.trans hentry')) hne
  · exact .inr (hpairwise n m hn hm hgt)

/-- The span of a part lies strictly inside that of what it is a part of. -/
theorem span?_nested {path : SpanKey} (hpath : path ≠ []) (hleft : s.span? key = some left)
    (hright : s.span? (key ++ path) = some right) : left.1 < right.1 ∧ right.2 ≤ left.2 := by
  have hne : key ≠ key ++ path := fun h => hpath (List.self_eq_append_right.1 h)
  obtain ⟨c, d, rfl, rfl, h | h⟩ := apart_or_apart hne hleft hright
  · exact absurd rfl (h.not_nested path)
  · obtain ⟨hstart, hstop⟩ := h.nested rfl
    exact ⟨Int.ofNat_lt.2 hstart, Int.ofNat_le.2 hstop⟩

/-- Siblings are disjoint and stand from left to right. -/
theorem span?_siblings (hlt : i < j) (hleft : s.span? (key ++ [i]) = some left)
    (hright : s.span? (key ++ [j]) = some right) : left.2 < right.1 := by
  have hne : key ++ [i] ≠ key ++ [j] := by
    intro h
    have hlast := (List.cons.inj (List.append_cancel_left h)).1
    omega
  obtain ⟨c, d, rfl, rfl, h | h⟩ := apart_or_apart hne hleft hright
  · exact Int.ofNat_lt.2 (h.siblings rfl rfl).2
  · have hgt := (h.siblings rfl rfl).1
    omega

/-- The spans of a signature are exact. Every part has one entry, under the key that leads to it,
and its text stands there; the span of a part lies inside that of any part around it and starts
later; of two siblings the one on the left ends before the other starts; and every constraint
stands, as its class and its variable, where it is said to. -/
theorem spans_exact (s : Signature) :
    (s.spans.map Prod.fst).Nodup ∧
    (∀ key, key ∈ s.spans.map Prod.fst ↔ (s.partAt key).isSome = true) ∧
    (∀ key part, s.partAt key = some part →
      ∃ span, s.span? key = some span ∧ Span.Covers span s.text part.text) ∧
    (∀ key path outer inner, path ≠ [] → s.span? key = some outer →
      s.span? (key ++ path) = some inner → outer.1 < inner.1 ∧ inner.2 ≤ outer.2) ∧
    (∀ key i j left right, i < j → s.span? (key ++ [i]) = some left →
      s.span? (key ++ [j]) = some right → left.2 < right.1) ∧
    (∀ c ∈ s.constraints, ∃ span, s.constraintSpan? c = some span ∧
      Span.Covers span s.text (c.typeClass ++ " " ++ c.variableName)) := by
  refine ⟨nodup_keys s.pairwise_apart_spans, s.mem_keys_iff, fun _ _ => span?_covers_part,
    fun _ _ _ _ => span?_nested, fun _ _ _ _ _ => span?_siblings, fun c hc => ?_⟩
  obtain ⟨span, hspan⟩ := exists_constraintSpan hc
  exact ⟨span, hspan, constraintSpan?_covers hspan⟩

end Signature

end CheckedCalls
