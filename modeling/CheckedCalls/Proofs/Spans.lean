import CheckedCalls.Signature.Rendered
import CheckedCalls.Violation.Builder

/-!
# Spans

The columns of the parts of a signature are calculated beside its text, by functions that follow the
same recursion. Here the two are brought together: the columns that a key stands for are those at
which the text of its part stands (`Signature.locates`), and likewise for constraints.
-/

namespace CheckedCalls

/-! ## Entries and the text that they point into -/

/-- The entry for the key gives the columns at which the text stands in a line that begins at the
start column. -/
def Locates (entries : List (SpanKey × TypeExpr.Columns)) (start : Nat) (line : List Char)
    (key : SpanKey) (text : List Char) : Prop :=
  ∃ before after, line = before ++ (text ++ after) ∧
    entries.lookup key = some (start + before.length, start + before.length + text.length)

namespace Locates

variable {entries first more : List (SpanKey × TypeExpr.Columns)} {start : Nat}
variable {line pre post text : List Char} {key : SpanKey}

/-- A text behind does not matter. -/
theorem extend (h : Locates entries start line key text) (post : List Char) :
    Locates entries start (line ++ post) key text := by
  obtain ⟨before, after, rfl, hlookup⟩ := h
  exact ⟨before, after ++ post, by simp only [List.append_assoc], hlookup⟩

/-- Entries behind do not matter. -/
theorem append (h : Locates entries start line key text)
    (more : List (SpanKey × TypeExpr.Columns)) : Locates (entries ++ more) start line key text := by
  obtain ⟨before, after, hline, hlookup⟩ := h
  refine ⟨before, after, hline, ?_⟩
  rw [List.lookup_append, hlookup]
  rfl

/-- A text in front moves the columns. -/
theorem shift (h : Locates entries (start + pre.length) line key text) :
    Locates entries start (pre ++ line) key text := by
  obtain ⟨before, after, rfl, hlookup⟩ := h
  refine ⟨pre ++ before, after, by simp only [List.append_assoc], ?_⟩
  rw [hlookup, List.length_append, ← Nat.add_assoc]

/-- Entries in front do not matter if they are for other keys. -/
theorem behind (h : Locates entries start line key text) (hfirst : ∀ p ∈ first, p.1 ≠ key) :
    Locates (first ++ entries) start line key text := by
  obtain ⟨before, after, hline, hlookup⟩ := h
  refine ⟨before, after, hline, ?_⟩
  have hnone : first.lookup key = none := by
    rw [List.lookup_eq_none_iff]
    exact fun p hp => bne_iff_ne.2 (Ne.symm (hfirst p hp))
  rw [List.lookup_append, hnone, hlookup]
  rfl

/-- An entry for all of the text. -/
theorem self (start : Nat) (text : List Char) (key : SpanKey) :
    Locates [(key, start, start + text.length)] start text key text :=
  ⟨[], [], by rw [List.nil_append, List.append_nil], by simp⟩

end Locates

namespace TypeExpr

/-! ## Parts -/

/-- The parts of an expression, in the order of their places. -/
def parts : TypeExpr → List TypeExpr
  | .var _ args | .concrete _ args => args
  | .fn params result => params ++ [result]
  | .foreign => []

/-- The part that a path leads to. -/
def partAt (e : TypeExpr) : SpanKey → Option TypeExpr
  | [] => some e
  | i :: path => e.parts[i]?.bind fun part => part.partAt path

/-! ## Keys -/

/-- A type with arguments has the spans of a variable of its name with them. -/
theorem spans_concrete (t : NamedType) (args : List TypeExpr) (nested : Bool) (start : Nat)
    (key : SpanKey) :
    (TypeExpr.concrete t args).spans nested start key =
      (TypeExpr.var t.name args).spans nested start key := by
  rw [spans, spans]

theorem chars_concrete (t : NamedType) (args : List TypeExpr) (nested : Bool) :
    (TypeExpr.concrete t args).chars nested = (TypeExpr.var t.name args).chars nested := by
  rw [chars, chars]

mutual

/-- The keys below that of an expression are the ways to its parts. -/
theorem exists_partAt_of_mem_spans : ∀ (e : TypeExpr) (nested : Bool) (start : Nat) (key : SpanKey),
    ∀ p ∈ e.spans nested start key, ∃ path, p.1 = key ++ path ∧ (e.partAt path).isSome = true
  | .var name args, nested, start, key | .concrete _ args, nested, start, key => by
    intro p hp
    rw [spans] at hp
    rcases List.mem_append.1 hp with hp | hp
    · obtain ⟨j, arg, path, harg, hkey, hpath⟩ := exists_partAt_of_mem_argumentSpans args _ key 0 p hp
      refine ⟨j :: path, ?_, by simpa [partAt, parts, harg] using hpath⟩
      rw [hkey, Nat.zero_add, List.append_assoc]
      rfl
    · cases List.mem_singleton.1 hp
      exact ⟨[], (List.append_nil key).symm, rfl⟩
  | .fn params result, nested, start, key => by
    intro p hp
    rw [spans, List.append_assoc] at hp
    rcases List.mem_append.1 hp with hp | hp
    · obtain ⟨j, param, path, hparam, hkey, hpath⟩ :=
        exists_partAt_of_mem_paramSpans params _ key 0 p hp
      have hlt : j < params.length := (List.getElem?_eq_some_iff.1 hparam).1
      refine ⟨j :: path, ?_, ?_⟩
      · rw [hkey, Nat.zero_add, List.append_assoc]
        rfl
      · rw [partAt, parts, List.getElem?_append_left hlt, hparam]
        exact hpath
    rcases List.mem_append.1 hp with hp | hp
    · obtain ⟨path, hkey, hpath⟩ := exists_partAt_of_mem_spans result false _ _ p hp
      refine ⟨params.length :: path, ?_, ?_⟩
      · rw [hkey, List.append_assoc]
        rfl
      · rw [partAt, parts, List.getElem?_append_right (Nat.le_refl _), Nat.sub_self]
        exact hpath
    · cases List.mem_singleton.1 hp
      exact ⟨[], (List.append_nil key).symm, rfl⟩
  | .foreign, nested, start, key => by
    intro p hp
    rw [spans] at hp
    cases List.mem_singleton.1 hp
    exact ⟨[], (List.append_nil key).symm, rfl⟩

/-- Every span of arguments belongs to a part of one of them. -/
theorem exists_partAt_of_mem_argumentSpans : ∀ (args : List TypeExpr) (start : Nat) (key : SpanKey)
    (i : Nat), ∀ p ∈ argumentSpans start key i args, ∃ j arg path, args[j]? = some arg ∧
      p.1 = key ++ [i + j] ++ path ∧ (arg.partAt path).isSome = true
  | [], _, _, _, _, hp => by cases hp
  | e :: es, start, key, i, p, hp => by
    rw [argumentSpans] at hp
    rcases List.mem_append.1 hp with hp | hp
    · obtain ⟨path, hkey, hpath⟩ := exists_partAt_of_mem_spans e true _ _ p hp
      exact ⟨0, e, path, rfl, hkey, hpath⟩
    · obtain ⟨j, arg, path, harg, hkey, hpath⟩ :=
        exists_partAt_of_mem_argumentSpans es _ key (i + 1) p hp
      exact ⟨j + 1, arg, path, harg, by rw [hkey, Nat.succ_add_eq_add_succ], hpath⟩

/-- Every span of parameters belongs to a part of one of them. -/
theorem exists_partAt_of_mem_paramSpans : ∀ (params : List TypeExpr) (start : Nat) (key : SpanKey)
    (i : Nat), ∀ p ∈ paramSpans start key i params, ∃ j param path, params[j]? = some param ∧
      p.1 = key ++ [i + j] ++ path ∧ (param.partAt path).isSome = true
  | [], _, _, _, _, hp => by cases hp
  | e :: es, start, key, i, p, hp => by
    rw [paramSpans] at hp
    rcases List.mem_append.1 hp with hp | hp
    · obtain ⟨path, hkey, hpath⟩ := exists_partAt_of_mem_spans e false _ _ p hp
      exact ⟨0, e, path, rfl, hkey, hpath⟩
    · obtain ⟨j, param, path, hparam, hkey, hpath⟩ :=
        exists_partAt_of_mem_paramSpans es _ key (i + 1) p hp
      exact ⟨j + 1, param, path, hparam, by rw [hkey, Nat.succ_add_eq_add_succ], hpath⟩

end

section Prefixes

variable {e : TypeExpr} {es : List TypeExpr} {nested : Bool} {start i : Nat} {key : SpanKey}
  {p : SpanKey × Columns}

/-- The keys of an expression and of its parts begin with its own. -/
theorem prefix_of_mem_spans (hp : p ∈ e.spans nested start key) : key <+: p.1 := by
  obtain ⟨path, hkey, -⟩ := exists_partAt_of_mem_spans e nested start key p hp
  exact ⟨path, hkey.symm⟩

theorem prefix_of_mem_argumentSpans (hp : p ∈ argumentSpans start key i es) :
    ∃ j ≥ i, key ++ [j] <+: p.1 := by
  obtain ⟨j, -, path, -, hkey, -⟩ := exists_partAt_of_mem_argumentSpans es start key i p hp
  exact ⟨i + j, Nat.le_add_right i j, path, hkey.symm⟩

theorem prefix_of_mem_paramSpans (hp : p ∈ paramSpans start key i es) :
    ∃ j ≥ i, j < i + es.length ∧ key ++ [j] <+: p.1 := by
  obtain ⟨j, e, path, he, hkey, -⟩ := exists_partAt_of_mem_paramSpans es start key i p hp
  have hlt : j < es.length := (List.getElem?_eq_some_iff.1 he).1
  exact ⟨i + j, Nat.le_add_right i j, by omega, path, hkey.symm⟩

end Prefixes

variable {key key' path : SpanKey} {i j start : Nat} {nested : Bool} {text : List Char}

/-- A key below one place is not below another. -/
theorem ne_of_prefix (h : key ++ [j] <+: key') (hne : j ≠ i) : key' ≠ key ++ [i] ++ path := by
  rintro rfl
  rw [List.append_assoc, List.prefix_append_right_inj] at h
  obtain ⟨rest, hrest⟩ := h
  exact hne (List.cons.inj hrest).1

/-- A key below a place is not the key itself. -/
theorem ne_self_of_prefix (h : key ++ [j] <+: key') : key' ≠ key := by
  rintro rfl
  have hlength := h.length_le
  rw [List.length_append, List.length_singleton] at hlength
  omega

/-! ## Columns of parts -/

/-- An argument is found at its place. -/
theorem locates_argumentSpans {arg : TypeExpr} {args : List TypeExpr} (h : args[j]? = some arg)
    (harg : ∀ start key, Locates (arg.spans true start key) start (arg.chars true) (key ++ path)
      text) (start : Nat) (key : SpanKey) (i : Nat) :
    Locates (argumentSpans start key i args) start (argumentChars args) (key ++ [i + j] ++ path)
      text := by
  induction args generalizing j start i with
  | nil => cases h
  | cons e es ih =>
    have hline : argumentChars (e :: es) = [' '] ++ (chars true e ++ argumentChars es) := rfl
    rw [argumentSpans, hline]
    refine .shift ?_
    cases j with
    | zero =>
      cases h
      exact ((harg (start + 1) (key ++ [i])).extend _).append _
    | succ j =>
      -- the entries of the arguments before it are for keys below other places
      rw [← Nat.succ_add_eq_add_succ i j]
      refine .behind (.shift (ih h _ (i + 1))) fun p hp => ?_
      exact ne_of_prefix (prefix_of_mem_spans hp) (by omega)

/-- A parameter is found at its place. -/
theorem locates_paramSpans {param : TypeExpr} {params : List TypeExpr} (h : params[j]? = some param)
    (hparam : ∀ start key, Locates (param.spans false start key) start (param.chars false)
      (key ++ path) text) (start : Nat) (key : SpanKey) (i : Nat) :
    Locates (paramSpans start key i params) start (paramChars params) (key ++ [i + j] ++ path)
      text := by
  induction params generalizing j start i with
  | nil => cases h
  | cons e es ih =>
    rw [paramSpans, paramChars, List.append_assoc]
    cases j with
    | zero =>
      cases h
      exact ((hparam start (key ++ [i])).extend _).append _
    | succ j =>
      rw [← Nat.succ_add_eq_add_succ i j]
      refine .behind (.shift (.shift (ih h _ (i + 1)))) fun p hp => ?_
      exact ne_of_prefix (prefix_of_mem_spans hp) (by omega)

theorem spans_var_false (name : String) (args : List TypeExpr) (start : Nat) (key : SpanKey) :
    (TypeExpr.var name args).spans false start key =
      argumentSpans (start + name.toList.length) key 0 args ++
        [(key, start, start + (name.toList ++ argumentChars args).length)] := by
  rw [spans, List.length_append, String.length_toList, Nat.add_assoc]
  rfl

theorem chars_var_false (name : String) (args : List TypeExpr) :
    (TypeExpr.var name args).chars false = name.toList ++ argumentChars args := by
  rw [chars]
  rfl

/-- Brackets around an expression move what is in it by one column. -/
theorem locates_nested {e : TypeExpr} (h : ∀ start, Locates (e.spans false start key) start
    (e.chars false) key' text) (nested : Bool) (start : Nat) :
    Locates (e.spans nested start key) start (e.chars nested) key' text := by
  have hvar : ∀ name args, (∀ start, Locates ((var name args).spans false start key) start
      ((var name args).chars false) key' text) →
      Locates ((var name args).spans nested start key) start ((var name args).chars nested) key'
        text := by
    intro name args h
    cases hbracket : nested && !args.isEmpty with
    | false =>
      have hplain := h start
      rw [spans, chars] at hplain
      rw [spans, chars, hbracket]
      exact hplain
    | true =>
      have hinside := (h (start + 1)).extend [')']
      rw [spans, chars] at hinside
      rw [spans, chars, hbracket]
      have hline : bracket true (name.toList ++ argumentChars args) =
          ['('] ++ (name.toList ++ argumentChars args ++ [')']) := rfl
      rw [hline]
      exact .shift hinside
  cases e with
  | var name args => exact hvar name args h
  | concrete t args =>
    simp only [spans_concrete, chars_concrete] at h ⊢
    exact hvar t.name args h
  | fn params result =>
    rw [spans, chars]
    exact h start
  | foreign =>
    rw [spans, chars]
    exact h start

theorem spans_fn (params : List TypeExpr) (result : TypeExpr) (start : Nat) (key : SpanKey) :
    (TypeExpr.fn params result).spans false start key =
      paramSpans (start + 1) key 0 params ++
        (result.spans false (start + 1 + (paramChars params).length) (key ++ [params.length]) ++
          [(key, start, start + ((TypeExpr.fn params result).chars false).length)]) := by
  have hlength : ((TypeExpr.fn params result).chars false).length =
      1 + (paramChars params).length + (result.chars false).length + 1 := by
    simp only [chars, List.length_append, List.length_cons, List.length_nil]
    omega
  rw [spans, hlength, List.append_assoc, ← Nat.add_assoc, ← Nat.add_assoc, ← Nat.add_assoc]

theorem chars_fn (params : List TypeExpr) (result : TypeExpr) :
    (TypeExpr.fn params result).chars false =
      ['('] ++ (paramChars params ++ (result.chars false ++ [')'])) := by
  rw [chars, List.cons_append, List.cons_append, List.append_assoc]
  rfl

/-- The columns of an expression are those of its text, without brackets around it. -/
theorem locates_self (e : TypeExpr) (start : Nat) (key : SpanKey) :
    Locates (e.spans false start key) start (e.chars false) key (e.chars false) := by
  have hself := Locates.self start (e.chars false) key
  have harguments : ∀ args start, ∀ p ∈ argumentSpans start key 0 args, p.1 ≠ key := by
    intro args start p hp
    obtain ⟨j, -, hj⟩ := prefix_of_mem_argumentSpans hp
    exact ne_self_of_prefix hj
  cases e with
  | var name args =>
    rw [spans_var_false, ← chars_var_false]
    exact hself.behind (harguments args _)
  | concrete t args =>
    rw [spans_concrete, spans_var_false, ← chars_var_false, ← chars_concrete]
    exact hself.behind (harguments args _)
  | fn params result =>
    rw [spans_fn]
    refine .behind (hself.behind fun p hp => ?_) fun p hp => ?_
    · exact ne_self_of_prefix (prefix_of_mem_spans hp)
    · obtain ⟨j, -, -, hj⟩ := prefix_of_mem_paramSpans hp
      exact ne_self_of_prefix hj
  | foreign =>
    rw [spans]
    exact hself

/-- The columns under the key of a part are those at which the text of the part stands. -/
theorem locates_spans {e part : TypeExpr} (h : e.partAt path = some part) (nested : Bool)
    (start : Nat) (key : SpanKey) :
    Locates (e.spans nested start key) start (e.chars nested) (key ++ path) (part.chars false) := by
  -- the brackets are off first: those around an argument are no part of what its key stands for
  refine locates_nested (fun start => ?_) nested start
  induction path generalizing e nested start key with
  | nil =>
    cases h
    rw [List.append_nil]
    exact locates_self part start key
  | cons i path ih =>
    obtain ⟨child, hchild, hpart⟩ := Option.bind_eq_some_iff.1 h
    have hinside : ∀ nested start key, Locates (child.spans nested start key) start
        (child.chars nested) (key ++ path) (part.chars false) := fun nested start key =>
      locates_nested (fun start => ih hpart false key start) nested start
    have hkey : key ++ i :: path = key ++ [0 + i] ++ path := by
      rw [Nat.zero_add, List.append_assoc]
      rfl
    rw [hkey]
    cases e with
    | var name args =>
      rw [spans_var_false, chars_var_false]
      exact (locates_argumentSpans hchild (hinside true) _ key 0).shift.append _
    | concrete t args =>
      rw [spans_concrete, chars_concrete, spans_var_false, chars_var_false]
      exact (locates_argumentSpans hchild (hinside true) _ key 0).shift.append _
    | fn params result =>
      rw [spans_fn, chars_fn]
      refine .shift ?_
      -- the result counts as the part after the last parameter
      rcases Nat.lt_trichotomy i params.length with hlt | rfl | hgt
      · rw [parts, List.getElem?_append_left hlt] at hchild
        exact ((locates_paramSpans hchild (hinside false) _ key 0).extend _).append _
      · rw [parts, List.getElem?_append_right (Nat.le_refl _), Nat.sub_self] at hchild
        cases hchild
        rw [Nat.zero_add]
        refine .behind (.shift (((hinside false _ _).extend _).append _)) fun p hp => ?_
        obtain ⟨j, -, hlt, hj⟩ := prefix_of_mem_paramSpans hp
        exact ne_of_prefix hj (by omega)
      · rw [parts, List.getElem?_eq_none] at hchild
        · cases hchild
        · rw [List.length_append, List.length_singleton]
          exact hgt
    | foreign => cases hchild

end TypeExpr

/-! ## Signatures -/

/-- What is found under a key is one of the entries. -/
theorem mem_of_lookup {α β : Type} [BEq α] [LawfulBEq α] {entries : List (α × β)} {key : α}
    {value : β} (h : entries.lookup key = some value) : (key, value) ∈ entries := by
  obtain ⟨front, back, rfl, -⟩ := List.lookup_eq_some_iff.1 h
  simp

/-- The text stands in the line at the columns of the span. -/
def Span.Covers (span : Span) (line text : String) : Prop :=
  ∃ before after, line = before ++ text ++ after ∧
    span = ((before.length : Int), ((before ++ text).length : Int))

/-- A span covers the text between what comes before it and what comes after. -/
theorem Span.covers_of_chars {before text after : List Char} {start stop : Nat}
    (hstart : start = before.length) (hstop : stop = before.length + text.length) :
    Span.Covers (start, stop) (String.ofList (before ++ (text ++ after))) (String.ofList text) := by
  refine ⟨String.ofList before, String.ofList after, ?_, ?_⟩
  · rw [← String.ofList_append, ← String.ofList_append, List.append_assoc]
  · rw [hstart, hstop, ← String.ofList_append, String.length_ofList, String.length_ofList,
      List.length_append]

namespace Signature

variable {s : Signature} {start i j : Nat} {slots : List Slot} {slot : Slot} {path : SpanKey}
variable {part : TypeExpr} {p : SpanKey × TypeExpr.Columns}

/-! ## Parts of slots -/

/-- The keys below those of the slots are the ways to their parts. -/
theorem exists_partAt_of_mem_slotSpans (hp : p ∈ slotSpans start i slots) :
    ∃ j slot path, slots[j]? = some slot ∧ p.1 = (i + j) :: path ∧
      (slot.type.partAt path).isSome = true := by
  induction slots generalizing start i with
  | nil => cases hp
  | cons slot rest ih =>
    rw [slotSpans] at hp
    rcases List.mem_append.1 hp with hp | hp
    · obtain ⟨path, hkey, hpath⟩ := TypeExpr.exists_partAt_of_mem_spans _ _ _ _ p hp
      exact ⟨0, slot, path, rfl, hkey, hpath⟩
    · obtain ⟨j, slot, path, hslot, hkey, hpath⟩ := ih hp
      exact ⟨j + 1, slot, path, hslot, by rw [hkey, Nat.succ_add_eq_add_succ], hpath⟩

theorem prefix_of_mem_slotSpans (hp : p ∈ slotSpans start i slots) :
    ∃ j ≥ i, j < i + slots.length ∧ [] ++ [j] <+: p.1 := by
  obtain ⟨j, slot, path, hslot, hkey, -⟩ := exists_partAt_of_mem_slotSpans hp
  have hlt : j < slots.length := (List.getElem?_eq_some_iff.1 hslot).1
  exact ⟨i + j, Nat.le_add_right i j, by omega, path, hkey.symm⟩

/-- A part of a slot is found below the place of the slot. -/
theorem locates_slotSpans (h : slots[j]? = some slot) (hpart : slot.type.partAt path = some part)
    (start i : Nat) :
    Locates (slotSpans start i slots) start (slotChars slots) ([i + j] ++ path)
      (part.chars false) := by
  induction slots generalizing j start i with
  | nil => cases h
  | cons first rest ih =>
    rw [slotSpans, slotChars, List.append_assoc, List.append_assoc]
    refine .shift ?_
    cases j with
    | zero =>
      cases h
      exact ((TypeExpr.locates_spans hpart false _ [i]).extend _).append _
    | succ j =>
      rw [← Nat.succ_add_eq_add_succ i j]
      refine .behind (.shift (.shift (ih h _ (i + 1)))) fun p hp => ?_
      have hprefix : [] ++ [i] <+: p.1 := TypeExpr.prefix_of_mem_spans hp
      exact TypeExpr.ne_of_prefix hprefix (by omega)

/-- Where a part of a signature is found, its span covers its text. -/
theorem covers_of_locates {key : SpanKey} (h : Locates s.spans 0 s.chars key (part.chars false)) :
    ∃ span, s.span? key = some span ∧ Span.Covers span s.text part.text := by
  obtain ⟨before, after, hline, hlookup⟩ := h
  refine ⟨_, by rw [span?, hlookup]; rfl, ?_⟩
  rw [text, hline]
  exact Span.covers_of_chars (Nat.zero_add _) (by rw [Nat.zero_add])

/-- The span of a part of a slot covers the text of the part. -/
theorem span?_covers (h : s.slots[i]? = some slot) (hpart : slot.type.partAt path = some part) :
    ∃ span, s.span? (i :: path) = some span ∧ Span.Covers span s.text part.text := by
  have hslots := locates_slotSpans h hpart (s.headChars ++ contextChars s.constraints).length 0
  refine covers_of_locates ?_
  rw [spans, chars, List.append_assoc]
  rw [Nat.zero_add] at hslots
  refine .shift ?_
  rw [Nat.zero_add]
  exact (hslots.extend _).append _

/-- The span of a part of the result covers the text of the part. -/
theorem span?_covers_result (hpart : s.returns.partAt path = some part) :
    ∃ span, s.span? (s.slots.length :: path) = some span ∧ Span.Covers span s.text part.text := by
  refine covers_of_locates ?_
  rw [spans, chars]
  refine .behind ?_ fun p hp => ?_
  · refine .shift ?_
    rw [Nat.zero_add, ← List.length_append]
    exact TypeExpr.locates_spans hpart false _ [s.slots.length]
  · obtain ⟨j, -, hlt, hj⟩ := prefix_of_mem_slotSpans hp
    exact TypeExpr.ne_of_prefix hj (by omega)

/-! ## Constraints -/

/-- A constraint stands where its columns say, if the constraints begin at the start column. -/
theorem exists_of_mem_constraintColumns {c : Constraint} {columns : TypeExpr.Columns}
    {cs : List Constraint} {start : Nat} (h : (c, columns) ∈ constraintColumns start cs) :
    ∃ before after, constraintListChars cs = before ++ (c.text.toList ++ after) ∧
      columns = (start + before.length, start + before.length + c.text.toList.length) := by
  induction cs generalizing start with
  | nil => cases h
  | cons d cs ih =>
    rw [constraintColumns] at h
    rcases List.mem_cons.1 h with heq | h
    · cases heq
      cases cs with
      | nil => exact ⟨[], [], by simp [constraintListChars], rfl⟩
      | cons e cs =>
        refine ⟨[], [',', ' '] ++ constraintListChars (e :: cs), ?_, rfl⟩
        rw [constraintListChars, List.append_assoc]
        · rfl
        · exact nofun
    · obtain ⟨before, after, hline, rfl⟩ := ih h
      refine ⟨d.text.toList ++ [',', ' '] ++ before, after, ?_, ?_⟩
      · rw [constraintListChars, hline]
        · simp only [List.append_assoc]
        · rintro rfl
          cases h
      · simp only [List.length_append, String.length_toList, List.length_cons, List.length_nil]
        simp only [Prod.mk.injEq]
        omega

theorem contextChars_eq {cs : List Constraint} (h : cs ≠ []) :
    ∃ pre post, contextChars cs = pre ++ (constraintListChars cs ++ post) ∧
      pre.length = if 1 < cs.length then 1 else 0 := by
  rw [contextChars, contextChars.bracketed, if_neg (by simpa using h)]
  by_cases hmany : 1 < cs.length
  · refine ⟨['('], [')'] ++ " => ".toList, ?_, by rw [if_pos hmany]; rfl⟩
    simp [TypeExpr.bracket, hmany]
  · refine ⟨[], " => ".toList, ?_, by rw [if_neg hmany]; rfl⟩
    simp [TypeExpr.bracket, hmany]

theorem map_fst_constraintColumns (start : Nat) (cs : List Constraint) :
    (constraintColumns start cs).map Prod.fst = cs := by
  induction cs generalizing start with
  | nil => rfl
  | cons c cs ih => rw [constraintColumns, List.map_cons, ih]

/-- Each constraint has a place in the text of its signature. -/
theorem exists_constraintSpan {c : Constraint} (hc : c ∈ s.constraints) :
    ∃ span, s.constraintSpan? c = some span := by
  obtain ⟨p, hp, hpc⟩ : ∃ p ∈ s.constraintSpans, p.1 = c := by
    rw [← List.mem_map, constraintSpans, map_fst_constraintColumns]
    exact hc
  have hsome : (s.constraintSpans.reverse.lookup c).isSome = true :=
    List.lookup_isSome_iff.2 ⟨p, List.mem_reverse.2 hp, by simp [hpc]⟩
  obtain ⟨columns, hcolumns⟩ := Option.isSome_iff_exists.1 hsome
  exact ⟨toSpan columns, by rw [constraintSpan?, hcolumns]; rfl⟩

/-- The span of a constraint covers its text. -/
theorem constraintSpan?_covers {c : Constraint} {span : Span}
    (h : s.constraintSpan? c = some span) : Span.Covers span s.text c.text := by
  obtain ⟨columns, hlookup, rfl⟩ := Option.map_eq_some_iff.1 h
  have hmem : (c, columns) ∈ s.constraintSpans := List.mem_reverse.1 (mem_of_lookup hlookup)
  obtain ⟨before, after, hline, rfl⟩ := exists_of_mem_constraintColumns hmem
  have hne : s.constraints ≠ [] := by
    intro hnil
    rw [constraintSpans, hnil] at hmem
    cases hmem
  obtain ⟨pre, post, hcontext, hpre⟩ := contextChars_eq hne
  have hchars : s.chars = (s.headChars ++ pre ++ before) ++ (c.text.toList ++
      (after ++ post ++ slotChars s.slots ++ s.returns.chars false)) := by
    simp only [chars, hcontext, hline, List.append_assoc]
  have hstart : s.headChars.length + (if 1 < s.constraints.length then 1 else 0) + before.length =
      (s.headChars ++ pre ++ before).length := by
    rw [List.length_append, List.length_append, hpre]
  have hcovers : Span.Covers ((s.headChars ++ pre ++ before).length,
      ((s.headChars ++ pre ++ before).length + c.text.toList.length : Nat)) s.text
        (String.ofList c.text.toList) := by
    rw [text, hchars]
    exact Span.covers_of_chars rfl rfl
  rw [String.ofList_toList, ← hstart] at hcovers
  exact hcovers

end Signature

end CheckedCalls
