import CheckedCalls.Proofs.Prefixes
import CheckedCalls.Proofs.Spans

/-!
# The text of a type expression

What two type expressions with one text have in common. An argument that has arguments of its own
is written in brackets, and so is a function type, whose arrow is missing if it has no parameters:
`Array (f a)` is the text both of an array of `f a` and of an array of functions without parameters
that give `f a`. Nothing else is lost. With each such function type replaced by its result
(`TypeExpr.unwrapped`), two expressions have one text exactly if they are the same
(`TypeExpr.Spelled.text_eq_iff`).

The proof reads two equal texts from the left. An expression followed by a text that cannot belong
to it can be taken off (`TypeExpr.Cancels`), which leaves the rests equal.
-/

namespace CheckedCalls

namespace TypeExpr

/-! ## Expressions that the library can write -/

/-- The expressions made of variables with lower-case names, applied or not, of the library's named
types, bare or applied to as many arguments as they take, and of function types. -/
inductive Spelled : TypeExpr → Prop
  | var (name : String) (args : List TypeExpr) (hname : Text.isIdentifier name = true)
      (hlower : ∀ c ∈ name.toList, c.isUpper = false) (hargs : ∀ a ∈ args, Spelled a) :
      Spelled (.var name args)
  | bare (t : StandardType) : Spelled (.concrete t.named [])
  | applied (t : StandardType) (types : List TypeLike) (e : TypeExpr)
      (h : t.named.apply types = .ok e)
      (htypes : ∀ a ∈ types, ∀ b, a.toExpr = .ok b → Spelled b) : Spelled e
  | function (types : List TypeLike) (e : TypeExpr) (h : TypeExpr.function types = .ok e)
      (htypes : ∀ a ∈ types, ∀ b, a.toExpr = .ok b → Spelled b) : Spelled e

/-! ## Function types in the place of their result -/

/-- The expression has arguments. -/
def isApplied : TypeExpr → Bool
  | .var _ args | .concrete _ args => !args.isEmpty
  | _ => false

/-- A function type without parameters whose result has arguments: as an argument it reads like its
result. -/
def isWrapped : TypeExpr → Bool
  | .fn [] result => result.isApplied
  | _ => false

/-- What an argument is read as. -/
def asArgument : TypeExpr → TypeExpr
  | .fn [] result => if result.isApplied then result else .fn [] result
  | e => e

mutual

/-- The expression with each argument as it is read. -/
def unwrapped : TypeExpr → TypeExpr
  | .var name args => .var name (unwrappedArguments args)
  | .concrete t args => .concrete t (unwrappedArguments args)
  | .fn params result => .fn (unwrappedParams params) (unwrapped result)
  | .foreign => .foreign

def unwrappedArguments : List TypeExpr → List TypeExpr
  | [] => []
  | e :: es => asArgument (unwrapped e) :: unwrappedArguments es

def unwrappedParams : List TypeExpr → List TypeExpr
  | [] => []
  | e :: es => unwrapped e :: unwrappedParams es

end

/-- Leaving out the brackets that read as nothing keeps whether an expression is applied. -/
@[simp] theorem isApplied_unwrapped (e : TypeExpr) : e.unwrapped.isApplied = e.isApplied := by
  cases e with
  | var name args | concrete t args => cases args <;> rfl
  | fn params result => rfl
  | foreign => rfl

/-- An expression as it looks among arguments: in brackets, if it has arguments of its own. -/
def bracketed (e : TypeExpr) : TypeExpr := if e.isApplied then .fn [] e else e

/-- An expression is written as an argument like its bracketed form is written alone. -/
theorem chars_true (e : TypeExpr) : e.chars true = e.bracketed.chars false := by
  cases e with
  | var name args | concrete t args =>
    cases args <;> simp [chars, bracketed, isApplied, bracket, paramChars]
  | fn params result | foreign => simp [chars, bracketed, isApplied]

/-- An argument is put in brackets once only. -/
theorem chars_asArgument (e : TypeExpr) : e.asArgument.chars true = e.chars true := by
  unfold asArgument
  split
  · split
    · rename_i result happlied
      rw [chars_true, bracketed, if_pos happlied, chars, chars]
    · rfl
  · rfl

/-- Brackets make no difference to how an argument is read. -/
theorem asArgument_bracketed (e : TypeExpr) :
    e.bracketed.unwrapped.asArgument = e.unwrapped.asArgument := by
  by_cases happlied : e.isApplied = true
  · have hnotfn : e.unwrapped.asArgument = e.unwrapped := by
      cases e with
      | var name args | concrete t args => rfl
      | fn params result | foreign => cases happlied
    rw [bracketed, if_pos happlied, hnotfn]
    exact if_pos (by rw [isApplied_unwrapped, happlied])
  · rw [bracketed, if_neg happlied]

mutual

/-- Taking arguments as they are read does not change the text. -/
theorem chars_unwrapped : ∀ (e : TypeExpr) (nested : Bool), e.unwrapped.chars nested = e.chars nested
  | .var name args, nested => by
    rw [unwrapped, chars, chars, argumentChars_unwrapped args]
    cases args <;> rfl
  | .concrete t args, nested => by
    rw [unwrapped, chars, chars, argumentChars_unwrapped args]
    cases args <;> rfl
  | .fn params result, nested => by
    rw [unwrapped, chars, chars, paramChars_unwrapped params, chars_unwrapped result false]
  | .foreign, _ => rfl

/-- Arguments are written like their unwrapped forms. -/
theorem argumentChars_unwrapped : ∀ args : List TypeExpr,
    argumentChars (unwrappedArguments args) = argumentChars args
  | [] => rfl
  | e :: es => by
    rw [unwrappedArguments, argumentChars, argumentChars, chars_asArgument, chars_unwrapped e true,
      argumentChars_unwrapped es]

theorem paramChars_unwrapped : ∀ params : List TypeExpr,
    paramChars (unwrappedParams params) = paramChars params
  | [] => rfl
  | e :: es => by
    rw [unwrappedParams, paramChars, paramChars, chars_unwrapped e false, paramChars_unwrapped es]

end

/-- No argument in the expression is read as anything else. -/
def Clear (e : TypeExpr) : Prop :=
  ∀ path part, e.partAt path = some part → part.isApplied = true →
    ∀ arg ∈ part.parts, arg.isWrapped = false

/-- The parts of a clear expression are clear. -/
theorem Clear.part {e part : TypeExpr} (h : e.Clear) (hpart : part ∈ e.parts) : part.Clear := by
  obtain ⟨i, hi⟩ := List.mem_iff_getElem?.1 hpart
  intro path inner hinner
  exact h (i :: path) inner (by rw [partAt, hi]; exact hinner)

theorem Clear.arguments {e arg : TypeExpr} (h : e.Clear) (happlied : e.isApplied = true)
    (harg : arg ∈ e.parts) : arg.isWrapped = false :=
  h [] e rfl happlied arg harg

theorem asArgument_of_not_wrapped {e : TypeExpr} (h : e.isWrapped = false) : e.asArgument = e := by
  unfold asArgument
  split
  · rename_i result
    have happlied : result.isApplied = false := h
    rw [happlied]
    rfl
  · rfl

mutual

/-- A clear expression stays as it is. -/
theorem Clear.unwrapped_eq : ∀ {e : TypeExpr}, e.Clear → e.unwrapped = e
  | .var name args, h => by
    have hparts : ∀ a ∈ args, a.Clear := fun a ha => h.part ha
    have hwrapped : ∀ a ∈ args, a.isWrapped = false := fun a ha =>
      h.arguments (by simp [isApplied, List.ne_nil_of_mem ha]) ha
    rw [unwrapped, unwrappedArguments_eq hparts hwrapped]
  | .concrete t args, h => by
    have hparts : ∀ a ∈ args, a.Clear := fun a ha => h.part ha
    have hwrapped : ∀ a ∈ args, a.isWrapped = false := fun a ha =>
      h.arguments (by simp [isApplied, List.ne_nil_of_mem ha]) ha
    rw [unwrapped, unwrappedArguments_eq hparts hwrapped]
  | .fn params result, h => by
    have hparams : ∀ a ∈ params, a.Clear := fun a ha => h.part (List.mem_append_left _ ha)
    have hresult : result.Clear := h.part (List.mem_append_right _ (List.mem_singleton_self _))
    rw [unwrapped, unwrappedParams_eq hparams, hresult.unwrapped_eq]
  | .foreign, _ => rfl

/-- Clear arguments that are not wrapped have nothing to unwrap. -/
theorem unwrappedArguments_eq : ∀ {args : List TypeExpr}, (∀ a ∈ args, a.Clear) →
    (∀ a ∈ args, a.isWrapped = false) → unwrappedArguments args = args
  | [], _, _ => rfl
  | e :: es, hclear, hwrapped => by
    have hrest := unwrappedArguments_eq (fun a ha => hclear a (List.mem_cons_of_mem e ha))
      fun a ha => hwrapped a (List.mem_cons_of_mem e ha)
    rw [unwrappedArguments, hrest, (hclear e List.mem_cons_self).unwrapped_eq,
      asArgument_of_not_wrapped (hwrapped e List.mem_cons_self)]

/-- Clear parameters have nothing to unwrap. -/
theorem unwrappedParams_eq : ∀ {params : List TypeExpr}, (∀ a ∈ params, a.Clear) →
    unwrappedParams params = params
  | [], _ => rfl
  | e :: es, h => by
    rw [unwrappedParams, unwrappedParams_eq fun a ha => h a (List.mem_cons_of_mem e ha),
      (h e List.mem_cons_self).unwrapped_eq]

end

/-! ## Names -/

/-- No identifier goes on with the text. -/
def Breaks (rest : List Char) : Prop := ∀ c ∈ rest.head?, Text.isIdentifierPart c = false

theorem breaks_nil : Breaks [] := nofun

/-- What begins with a character that no identifier has breaks off the name before it. -/
theorem breaks_cons {c : Char} (h : Text.isIdentifierPart c = false) (rest : List Char) :
    Breaks (c :: rest) := by
  intro d hd
  cases hd
  exact h

theorem isIdentifierPart_space : Text.isIdentifierPart ' ' = false := by decide +kernel

theorem isIdentifierPart_open : Text.isIdentifierPart '(' = false := by decide +kernel

theorem isIdentifierPart_close : Text.isIdentifierPart ')' = false := by decide +kernel

theorem isIdentifierPart_dash : Text.isIdentifierPart '-' = false := by decide +kernel

/-- What an expression that is not a function type begins with. -/
inductive Head
  | var (name : String)
  | named (t : StandardType)

namespace Head

/-- The text of the head. -/
def word : Head → String
  | .var name => name
  | .named t => t.name

/-- The head with arguments. -/
def apply : Head → List TypeExpr → TypeExpr
  | .var name, args => .var name args
  | .named t, args => .concrete t.named args

/-- A variable has the name of an identifier, without capital letters. -/
def Proper : Head → Prop
  | .var name => Text.isIdentifier name = true ∧ ∀ c ∈ name.toList, c.isUpper = false
  | .named _ => True

variable {h h' : Head} {args : List TypeExpr}

theorem isApplied_apply : (h.apply args).isApplied = !args.isEmpty := by
  cases h <;> rfl

/-- An applied name is written as its word followed by its arguments. -/
theorem chars_apply : (h.apply args).chars false = h.word.toList ++ argumentChars args := by
  cases h with
  | var name => exact chars_var_false name args
  | named t =>
    rw [apply, chars_concrete]
    exact chars_var_false t.name args

theorem unwrapped_apply : (h.apply args).unwrapped = h.apply (unwrappedArguments args) := by
  cases h <;> rfl

theorem isIdentifier_name (t : StandardType) : Text.isIdentifier t.name = true := by
  cases t <;> decide +kernel

/-- The name of a library's type has a capital letter. -/
theorem exists_isUpper_name (t : StandardType) : ∃ c ∈ t.name.toList, c.isUpper = true := by
  have hany : t.name.toList.any Char.isUpper = true := by cases t <;> decide
  exact List.any_eq_true.1 hany

theorem name_injective {t u : StandardType} (h : t.name = u.name) : t = u := by
  cases t <;> cases u <;> first | rfl | exact absurd h (by decide)

theorem isIdentifier_word (hp : h.Proper) : Text.isIdentifier h.word = true := by
  cases h with
  | var name => exact hp.1
  | named t => exact isIdentifier_name t

/-- A variable is not named as a standard type is. -/
theorem word_ne {name : String} (hp : (Head.var name).Proper) (t : StandardType) :
    name ≠ t.name := by
  rintro rfl
  obtain ⟨c, hc, hupper⟩ := exists_isUpper_name t
  exact absurd hupper (by rw [hp.2 c hc]; decide)

/-- The text of a head tells which one it is. -/
theorem eq_of_word (hp : h.Proper) (hp' : h'.Proper) (hword : h.word = h'.word) : h = h' := by
  cases h with
  | var name =>
    cases h' with
    | var name' => exact congrArg Head.var hword
    | named t => exact absurd hword (word_ne hp t)
  | named t =>
    cases h' with
    | var name => exact absurd hword.symm (word_ne hp' t)
    | named u => exact congrArg Head.named (name_injective hword)

/-- A head begins with a character of an identifier, and has no others. -/
theorem exists_word (hp : h.Proper) : ∃ c cs, h.word.toList = c :: cs ∧
    ∀ d ∈ h.word.toList, Text.isIdentifierPart d = true := by
  have hidentifier := isIdentifier_word hp
  unfold Text.isIdentifier at hidentifier
  split at hidentifier
  · cases hidentifier
  · rename_i c cs hword
    obtain ⟨hstart, hrest⟩ := Bool.and_eq_true_iff.1 hidentifier
    refine ⟨c, cs, hword, fun d hd => ?_⟩
    rw [hword] at hd
    rcases List.mem_cons.1 hd with rfl | hd
    · rw [Text.isIdentifierPart, hstart, Bool.true_or]
    · exact List.all_eq_true.1 hrest d hd

/-- Two heads can be taken off where no identifier goes on. -/
theorem cancel (hp : h.Proper) (hp' : h'.Proper) {x y : List Char} (hx : Breaks x) (hy : Breaks y)
    (heq : h.word.toList ++ x = h'.word.toList ++ y) : h = h' ∧ x = y := by
  obtain ⟨-, -, -, hparts⟩ := exists_word hp
  obtain ⟨-, -, -, hparts'⟩ := exists_word hp'
  obtain ⟨hword, hrest⟩ := Text.cancel_word hparts hparts' hx hy heq
  exact ⟨eq_of_word hp hp' (String.toList_inj.1 hword), hrest⟩

end Head

/-! ## Spelled expressions by their shape -/

/-- Every expression of a successful conversion comes from one of the given types. -/
theorem exists_of_mem_mapM {types : List TypeLike} {exprs : List TypeExpr}
    (h : types.mapM TypeLike.toExpr = .ok exprs) : ∀ b ∈ exprs, ∃ a ∈ types, a.toExpr = .ok b := by
  induction types generalizing exprs with
  | nil =>
    cases h
    exact nofun
  | cons t ts ih =>
    rw [List.mapM_cons] at h
    cases ht : t.toExpr with
    | error f => rw [ht] at h; cases h
    | ok e =>
      cases hts : ts.mapM TypeLike.toExpr with
      | error f => rw [ht, hts] at h; cases h
      | ok es =>
        rw [ht, hts] at h
        cases h
        intro b hb
        rcases List.mem_cons.1 hb with rfl | hb
        · exact ⟨t, List.mem_cons_self, ht⟩
        · obtain ⟨a, ha, hab⟩ := ih hts b hb
          exact ⟨a, List.mem_cons_of_mem t ha, hab⟩

/-- A type applied to as many arguments as it takes has their expressions as its arguments. -/
theorem exists_of_apply {t : NamedType} {types : List TypeLike} {e : TypeExpr}
    (h : t.apply types = .ok e) : ∃ exprs, e = .concrete t exprs ∧
      ∀ b ∈ exprs, ∃ a ∈ types, a.toExpr = .ok b := by
  unfold NamedType.apply at h
  by_cases hcount : (types.length : Int) ≠ t.arity
  · rw [if_pos hcount] at h
    cases h
  · rw [if_neg hcount] at h
    cases hexprs : types.mapM TypeLike.toExpr with
    | error f => rw [hexprs] at h; cases h
    | ok exprs =>
      rw [hexprs] at h
      cases h
      exact ⟨exprs, rfl, exists_of_mem_mapM hexprs⟩

/-- A function type has the expressions of its types as parameters and result. -/
theorem exists_of_function {types : List TypeLike} {e : TypeExpr}
    (h : TypeExpr.function types = .ok e) : ∃ params result, e = .fn params result ∧
      ∀ b ∈ params ++ [result], ∃ a ∈ types, a.toExpr = .ok b := by
  unfold TypeExpr.function at h
  cases hexprs : types.mapM TypeLike.toExpr with
  | error f => rw [hexprs] at h; cases h
  | ok exprs =>
    rw [hexprs] at h
    cases hlast : exprs.getLast? with
    | none => simp [hlast, bind, Except.bind] at h
    | some result =>
      simp only [hlast, bind, Except.bind] at h
      cases h
      obtain ⟨params, rfl⟩ := List.getLast?_eq_some_iff.1 hlast
      exact ⟨params, result, by rw [List.dropLast_concat], exists_of_mem_mapM hexprs⟩

/-- An expression is spelled by its head or is a function type, from spelled ones. -/
@[elab_as_elim]
theorem Spelled.induction {P : TypeExpr → Prop}
    (head : ∀ (h : Head) (args : List TypeExpr), h.Proper → (∀ a ∈ args, Spelled a) →
      (∀ a ∈ args, P a) → P (h.apply args))
    (fn : ∀ (params : List TypeExpr) (result : TypeExpr), (∀ a ∈ params, Spelled a) →
      Spelled result → (∀ a ∈ params, P a) → P result → P (.fn params result))
    {e : TypeExpr} (he : Spelled e) : P e := by
  induction he with
  | var name args hname hlower hargs ih => exact head (.var name) args ⟨hname, hlower⟩ hargs ih
  | bare t => exact head (.named t) [] trivial nofun nofun
  | applied t types e h htypes ih =>
    obtain ⟨exprs, rfl, hexprs⟩ := exists_of_apply h
    refine head (.named t) exprs trivial (fun b hb => ?_) fun b hb => ?_
    · obtain ⟨a, ha, hab⟩ := hexprs b hb
      exact htypes a ha b hab
    · obtain ⟨a, ha, hab⟩ := hexprs b hb
      exact ih a ha b hab
  | function types e h htypes ih =>
    obtain ⟨params, result, rfl, hexprs⟩ := exists_of_function h
    have hspelled : ∀ b ∈ params ++ [result], Spelled b := fun b hb => by
      obtain ⟨a, ha, hab⟩ := hexprs b hb
      exact htypes a ha b hab
    have hP : ∀ b ∈ params ++ [result], P b := fun b hb => by
      obtain ⟨a, ha, hab⟩ := hexprs b hb
      exact ih a ha b hab
    have hlast : result ∈ params ++ [result] := List.mem_append_right _ (List.mem_singleton_self _)
    exact fn params result (fun b hb => hspelled b (List.mem_append_left _ hb)) (hspelled _ hlast)
      (fun b hb => hP b (List.mem_append_left _ hb)) (hP _ hlast)

/-- An expression is an applied name or a function, with parts that are spelled. -/
theorem Spelled.shape {e : TypeExpr} (he : Spelled e) :
    (∃ h args, e = Head.apply h args ∧ h.Proper ∧ ∀ a ∈ args, Spelled a) ∨
      ∃ params result, e = .fn params result ∧ (∀ a ∈ params, Spelled a) ∧ Spelled result := by
  refine Spelled.induction (fun h args hp hargs _ => ?_) (fun params result hparams hresult _ _ => ?_)
    he
  · exact .inl ⟨h, args, rfl, hp, hargs⟩
  · exact .inr ⟨params, result, rfl, hparams, hresult⟩

/-- Among arguments, a name stands for itself or there are brackets. -/
theorem Spelled.bracketed_shape {e : TypeExpr} (he : Spelled e) :
    (∃ h, e.bracketed = Head.apply h [] ∧ h.Proper) ∨
      ∃ params result, e.bracketed = .fn params result ∧ (∀ a ∈ params, Spelled a) ∧
        Spelled result := by
  by_cases happlied : e.isApplied = true
  · rw [bracketed, if_pos happlied]
    exact .inr ⟨[], e, rfl, nofun, he⟩
  rw [bracketed, if_neg happlied]
  obtain ⟨h, args, rfl, hp, -⟩ | hfn := he.shape
  · rw [Head.isApplied_apply] at happlied
    obtain rfl : args = [] := by simpa using happlied
    exact .inl ⟨h, rfl, hp⟩
  · exact .inr hfn

/-! ## Taking an expression off -/

/-- No argument goes on with the text: it ends, a bracket closes or an arrow follows. -/
def Ends (rest : List Char) : Prop :=
  rest = [] ∨ (∃ more, rest = ')' :: more) ∨ ∃ more, rest = arrow ++ more

/-- What may follow an expression breaks off a name. -/
theorem Ends.breaks {rest : List Char} (h : Ends rest) : Breaks rest := by
  obtain rfl | ⟨more, rfl⟩ | ⟨more, rfl⟩ := h
  · exact breaks_nil
  · exact breaks_cons isIdentifierPart_close more
  · exact breaks_cons isIdentifierPart_space _

/-- The text of arguments breaks off the name they are given to. -/
theorem breaks_argumentChars {rest : List Char} (h : Ends rest) (args : List TypeExpr) :
    Breaks (argumentChars args ++ rest) := by
  cases args with
  | nil => exact h.breaks
  | cons e es => exact breaks_cons isIdentifierPart_space _

/-- Where the texts of both begin a text, they are the same up to how arguments are read, and what
follows is the same. -/
def Cancels (e f : TypeExpr) : Prop :=
  ∀ {r s : List Char}, Ends r → Ends s → e.chars false ++ r = f.chars false ++ s →
    e.unwrapped = f.unwrapped ∧ r = s

/-- The same of arguments, behind which others may follow. -/
def CancelsArgument (e f : TypeExpr) : Prop :=
  ∀ {r s : List Char}, Breaks r → Breaks s → e.chars true ++ r = f.chars true ++ s →
    e.unwrapped.asArgument = f.unwrapped.asArgument ∧ r = s

/-- An argument begins with a bracket or with a name. -/
theorem Spelled.exists_chars_true {e : TypeExpr} (h : Spelled e) :
    ∃ c cs, e.chars true = c :: cs ∧ c ≠ '-' := by
  rw [chars_true]
  obtain ⟨h, hname, hp⟩ | ⟨params, result, hfn, -, -⟩ := h.bracketed_shape
  · obtain ⟨c, cs, hword, hparts⟩ := Head.exists_word hp
    refine ⟨c, cs, by rw [hname, Head.chars_apply, hword, argumentChars, List.append_nil], ?_⟩
    rintro rfl
    have hdash := hparts '-' (by rw [hword]; exact List.mem_cons_self)
    rw [isIdentifierPart_dash] at hdash
    cases hdash
  · rw [hfn, chars]
    exact ⟨'(', _, rfl, by decide⟩

/-- An argument is no end. -/
theorem Spelled.not_ends {e : TypeExpr} (h : Spelled e) (more : List Char) :
    ¬ Ends (' ' :: (e.chars true ++ more)) := by
  obtain ⟨c, cs, hchars, hne⟩ := h.exists_chars_true
  rintro (hnil | ⟨rest, hclose⟩ | ⟨rest, harrow⟩)
  · cases hnil
  · cases hclose
  · rw [hchars] at harrow
    injection harrow with _ htail
    injection htail with hc _
    exact hne hc

/-- Two texts of arguments that agree have the same arguments, up to wrapping, and the same rest. -/
theorem cancel_arguments {es fs : List TypeExpr} {r s : List Char}
    (hes : ∀ e ∈ es, Spelled e) (hfs : ∀ f ∈ fs, Spelled f)
    (hcancels : ∀ e ∈ es, ∀ f, Spelled f → CancelsArgument e f) (hr : Ends r) (hs : Ends s)
    (heq : argumentChars es ++ r = argumentChars fs ++ s) :
    unwrappedArguments es = unwrappedArguments fs ∧ r = s := by
  induction es generalizing fs with
  | nil =>
    cases fs with
    | nil => exact ⟨rfl, heq⟩
    | cons f fs =>
      rw [argumentChars, argumentChars, List.nil_append, List.cons_append, List.cons_append,
        List.append_assoc] at heq
      exact absurd (heq ▸ hr) ((hfs f List.mem_cons_self).not_ends _)
  | cons e es ih =>
    cases fs with
    | nil =>
      rw [argumentChars, argumentChars, List.nil_append, List.cons_append, List.cons_append,
        List.append_assoc] at heq
      exact absurd (heq ▸ hs) ((hes e List.mem_cons_self).not_ends _)
    | cons f fs =>
      rw [argumentChars, argumentChars, List.cons_append, List.cons_append, List.cons_append,
        List.cons_append, List.append_assoc, List.append_assoc] at heq
      obtain ⟨hfirst, hrest⟩ := hcancels e List.mem_cons_self f (hfs f List.mem_cons_self)
        (breaks_argumentChars hr es) (breaks_argumentChars hs fs) (List.cons.inj heq).2
      obtain ⟨hargs, hends⟩ := ih (fun a ha => hes a (List.mem_cons_of_mem e ha))
        (fun a ha => hfs a (List.mem_cons_of_mem f ha))
        (fun a ha => hcancels a (List.mem_cons_of_mem e ha)) hrest
      exact ⟨by rw [unwrappedArguments, unwrappedArguments, hfirst, hargs], hends⟩

/-- Two texts of functions that agree have the same parameters and the same result. -/
theorem cancel_fn {params params' : List TypeExpr} {result result' : TypeExpr} {r s : List Char}
    (hparams' : ∀ f ∈ params', Spelled f) (hresult' : Spelled result')
    (hparams : ∀ e ∈ params, ∀ f, Spelled f → Cancels e f)
    (hresult : ∀ f, Spelled f → Cancels result f)
    (heq : (fn params result).chars false ++ r = (fn params' result').chars false ++ s) :
    (fn params result).unwrapped = (fn params' result').unwrapped ∧ r = s := by
  have hclose : ∀ more, Ends (')' :: more) := fun more => .inr (.inl ⟨more, rfl⟩)
  have harrow : ∀ more, Ends (arrow ++ more) := fun more => .inr (.inr ⟨more, rfl⟩)
  have hne : ∀ more more', ')' :: more ≠ arrow ++ more' := fun _ _ => nofun
  have htext : ∀ ps t more, (fn ps t).chars false ++ more =
      '(' :: (paramChars ps ++ (t.chars false ++ ')' :: more)) := by
    intro ps t more
    rw [chars_fn, List.append_assoc, List.append_assoc, List.append_assoc]
    rfl
  rw [htext, htext] at heq
  rw [unwrapped, unwrapped]
  replace heq := (List.cons.inj heq).2
  induction params generalizing params' with
  | nil =>
    cases params' with
    | nil =>
      obtain ⟨hsame, hrest⟩ := hresult result' hresult' (hclose r) (hclose s) heq
      exact ⟨by rw [hsame], (List.cons.inj hrest).2⟩
    | cons f fs =>
      rw [paramChars, paramChars, List.nil_append, List.append_assoc, List.append_assoc] at heq
      exact absurd (hresult f (hparams' f List.mem_cons_self) (hclose _) (harrow _) heq).2 (hne _ _)
  | cons e es ih =>
    rw [paramChars, List.append_assoc, List.append_assoc] at heq
    have he := hparams e List.mem_cons_self
    cases params' with
    | nil => exact absurd (he result' hresult' (harrow _) (hclose _) heq).2.symm (hne _ _)
    | cons f fs =>
      rw [paramChars, List.append_assoc, List.append_assoc] at heq
      obtain ⟨hsame, hrest⟩ := he f (hparams' f List.mem_cons_self) (harrow _) (harrow _) heq
      obtain ⟨htail, hends⟩ := ih (fun a ha => hparams' a (List.mem_cons_of_mem f ha))
        (fun a ha => hparams a (List.mem_cons_of_mem e ha)) (List.append_cancel_left hrest)
      injection htail with hparams hresult
      exact ⟨by rw [unwrappedParams, unwrappedParams, hsame, hparams, hresult], hends⟩

/-- A name does not begin with a bracket. -/
theorem Head.word_ne_open {h : Head} (hp : h.Proper) (x y : List Char) :
    h.word.toList ++ x ≠ '(' :: y := by
  obtain ⟨c, cs, hword, hparts⟩ := h.exists_word hp
  have hpart := hparts c (by rw [hword]; exact List.mem_cons_self)
  intro heq
  rw [hword] at heq
  rw [(List.cons.inj heq).1, isIdentifierPart_open] at hpart
  cases hpart

/-- A name among arguments can be taken off. -/
theorem cancelsArgument_of_name {e f : TypeExpr} {h : Head} (he : e.bracketed = h.apply [])
    (hp : h.Proper) (hf : Spelled f) : CancelsArgument e f := by
  intro r s hr hs heq
  rw [chars_true, chars_true, he, Head.chars_apply, argumentChars, List.append_nil] at heq
  rw [← asArgument_bracketed e, ← asArgument_bracketed f, he]
  obtain ⟨h', hname, hp'⟩ | ⟨params, result, hfn, -, -⟩ := hf.bracketed_shape
  · rw [hname, Head.chars_apply, argumentChars, List.append_nil] at heq
    obtain ⟨rfl, hrest⟩ := Head.cancel hp hp' hr hs heq
    exact ⟨by rw [hname], hrest⟩
  · rw [hfn, chars] at heq
    exact absurd heq (Head.word_ne_open hp _ _)

/-- Brackets among arguments can be taken off, with what they hold. -/
theorem cancelsArgument_of_fn {e f result : TypeExpr} {params : List TypeExpr}
    (he : e.bracketed = .fn params result) (hparams : ∀ a ∈ params, ∀ g, Spelled g → Cancels a g)
    (hresult : ∀ g, Spelled g → Cancels result g) (hf : Spelled f) : CancelsArgument e f := by
  intro r s hr hs heq
  rw [chars_true, chars_true, he] at heq
  rw [← asArgument_bracketed e, ← asArgument_bracketed f, he]
  obtain ⟨h, hname, hp⟩ | ⟨params', result', hfn, hparams', hresult'⟩ := hf.bracketed_shape
  · rw [hname, Head.chars_apply, argumentChars, List.append_nil, chars] at heq
    exact absurd heq.symm (Head.word_ne_open hp _ _)
  · rw [hfn] at heq
    obtain ⟨hsame, hrest⟩ := cancel_fn hparams' hresult' hparams hresult heq
    exact ⟨by rw [hfn, hsame], hrest⟩

/-- The text of an expression can be taken off, with those of its parts. -/
theorem Spelled.cancels {e : TypeExpr} (he : Spelled e) :
    (∀ f, Spelled f → Cancels e f) ∧ ∀ f, Spelled f → CancelsArgument e f := by
  refine Spelled.induction (fun h args hp hargs ih => ?_)
    (fun params result hparams hresult ihparams ihresult => ?_) he
  · have hplain : ∀ f, Spelled f → Cancels (h.apply args) f := by
      intro f hf r s hr hs heq
      rw [Head.chars_apply, List.append_assoc] at heq
      obtain ⟨h', args', rfl, hp', hargs'⟩ | ⟨params, result, rfl, -, -⟩ := hf.shape
      · rw [Head.chars_apply, List.append_assoc] at heq
        obtain ⟨rfl, hrest⟩ := Head.cancel hp hp' (breaks_argumentChars hr args)
          (breaks_argumentChars hs args') heq
        obtain ⟨hsame, hends⟩ := cancel_arguments hargs hargs' (fun a ha => (ih a ha).2) hr hs hrest
        exact ⟨by rw [Head.unwrapped_apply, Head.unwrapped_apply, hsame], hends⟩
      · rw [chars] at heq
        exact absurd heq (Head.word_ne_open hp _ _)
    refine ⟨hplain, fun f hf => ?_⟩
    cases args with
    | nil => exact cancelsArgument_of_name (if_neg (by simp [Head.isApplied_apply])) hp hf
    | cons a args =>
      -- in brackets it reads like a function type of which it is the result
      exact cancelsArgument_of_fn (if_pos (by simp [Head.isApplied_apply])) nofun hplain hf
  · have hparts : ∀ a ∈ params, ∀ f, Spelled f → Cancels a f := fun a ha => (ihparams a ha).1
    refine ⟨fun f hf r s hr hs heq => ?_, fun f hf => ?_⟩
    · obtain ⟨h, args, rfl, hp, -⟩ | ⟨params', result', rfl, hparams', hresult'⟩ := hf.shape
      · rw [Head.chars_apply, List.append_assoc, chars] at heq
        exact absurd heq.symm (Head.word_ne_open hp _ _)
      · exact cancel_fn hparams' hresult' hparts ihresult.1 heq
    · exact cancelsArgument_of_fn rfl hparts ihresult.1 hf

/-! ## One text -/

/-- Spelled expressions have one text exactly if they are the same once every argument is taken as
it is read, so those in which no argument is read as anything else are told by their texts. -/
theorem Spelled.text_eq_iff {e f : TypeExpr} (he : Spelled e) (hf : Spelled f) :
    (e.text = f.text ↔ e.unwrapped = f.unwrapped) ∧
      (e.Clear → f.Clear → e.text = f.text → e = f) := by
  have hiff : e.text = f.text ↔ e.unwrapped = f.unwrapped := by
    constructor
    · intro h
      have hchars : e.chars false ++ [] = f.chars false ++ [] := by
        rw [List.append_nil, List.append_nil]
        exact String.ofList_injective h
      exact (he.cancels.1 f hf (.inl rfl) (.inl rfl) hchars).1
    · intro h
      rw [text, text, ← chars_unwrapped e, ← chars_unwrapped f, h]
  refine ⟨hiff, fun hclear hclear' h => ?_⟩
  rw [← hclear.unwrapped_eq, ← hclear'.unwrapped_eq]
  exact hiff.1 h

/-- The type of `f a`, applied or as the result of a function type without parameters. -/
theorem spelled_container : Spelled (.var "f" [.var "a" []]) ∧
    Spelled (.fn [] (.var "f" [.var "a" []])) := by
  have hvariable : Spelled (.var "a" []) :=
    .var "a" [] (by decide +kernel) (List.forall_mem_singleton.2 rfl) nofun
  have happlied : Spelled (.var "f" [.var "a" []]) := by
    refine .var "f" _ (by decide +kernel) (List.forall_mem_singleton.2 rfl) fun a ha => ?_
    cases List.mem_singleton.1 ha
    exact hvariable
  refine ⟨happlied, .function [.expr (.var "f" [.var "a" []])] _ rfl fun a ha b hb => ?_⟩
  cases List.mem_singleton.1 ha
  cases hb
  exact happlied

/-- Arrays of a spelled expression are spelled. -/
theorem Spelled.array {e : TypeExpr} (h : Spelled e) :
    Spelled (.concrete StandardType.array.named [e]) := by
  refine .applied .array [.expr e] _ rfl fun a ha b hb => ?_
  cases List.mem_singleton.1 ha
  cases hb
  exact h

theorem text_eq_iff_array :
    Spelled (.concrete StandardType.array.named [.fn [] (.var "f" [.var "a" []])]) ∧
    Spelled (.concrete StandardType.array.named [.var "f" [.var "a" []]]) ∧
    (TypeExpr.concrete StandardType.array.named [.fn [] (.var "f" [.var "a" []])]).text =
      (TypeExpr.concrete StandardType.array.named [.var "f" [.var "a" []]]).text :=
  ⟨spelled_container.2.array, spelled_container.1.array,
    (spelled_container.2.array.text_eq_iff spelled_container.1.array).1.2 rfl⟩

/-- An array of functions without parameters is written like one of their results, if those have
arguments. -/
theorem text_not_injective :
    ¬ ∀ e f : TypeExpr, Spelled e → Spelled f → e.text = f.text → e = f := by
  intro h
  have heq := h (.concrete StandardType.array.named [.fn [] (.var "f" [.var "a" []])])
    (.concrete StandardType.array.named [.var "f" [.var "a" []]]) spelled_container.2.array
    spelled_container.1.array rfl
  injection heq with _ hargs
  injection hargs with hfirst _
  cases hfirst

end TypeExpr

end CheckedCalls
