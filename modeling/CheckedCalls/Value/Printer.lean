import CheckedCalls.Dispatch
import CheckedCalls.Text.Quoted

/-!
# Texts of values

`Value.toText` is the canonical text of a value, in which strings stand between double quotes and
not-a-number is `NaN`; an instance of a class that has a text of its own shows that. `Value.literal`
is the text that code would write for the value; the two descend into containers each with itself.
`Value.display` is what is shown of a value without quotes around it. None of them is answered for a
value with an integer that is too long to be written.
-/

namespace CheckedCalls

namespace Func

/-- The name of a function; those that the library makes have none of their own. -/
def name : Func → String
  | .primitive p => p.name
  | .const _ => "const"
  | .add _ => "add"
  | .compose _ _ => "compose"
  | .curry _ => "curry"
  | .curried _ _ => "curried"
  | .branch _ _ _ => "if"
  | .partial_ _ _ => "partial"
  | .raise _ _ => "raise"
  | .echo => "_identity"
  | .lift (.type _) => "fl_of"
  | .bound _ _ (.method m) => m.name
  | .unbound _ (.method m) => m.name
  | .boundTo _ (.func _ f) => name f
  | _ => "<lambda>"

/-- The function was made by the library and has no name of its own. -/
def isAnonymous : Func → Bool
  | .primitive _ | .const _ | .add _ | .compose _ _ | .curry _ | .curried _ _ | .branch _ _ _
  | .partial_ _ _ | .raise _ _ => false
  | _ => true

end Func

namespace TypeRep

/-- The literal text of a class, with the place it is known under. -/
def literal : TypeRep → String
  | .builtin b =>
    let place := match b with
      | .fraction => "fractions."
      | .date | .moment => "datetime."
      | .pattern => "re."
      | .interfaceType => "abc."
      | .maybe | .nothing | .just => "covenant.runtime.maybe."
      | .either | .left | .right => "covenant.runtime.either."
      | .identity => "covenant.laws."
      | _ => ""
    "<class '" ++ place ++ b.name ++ "'>"
  | .declared (.composed _ n _ _) => "<class 'covenant.laws." ++ n ++ "'>"
  | .declared (.declared _ n _) => "<class '" ++ n ++ "'>"

end TypeRep

namespace Value

/-- The items between brackets, with the comma that marks a tuple of one. -/
def bracketed (k : SeqKind) (items : List String) : String :=
  match k, items with
  | .list, _ => "[" ++ ", ".intercalate items ++ "]"
  | .tuple, [item] => "(" ++ item ++ ",)"
  | .tuple, _ => "(" ++ ", ".intercalate items ++ ")"

/-- The entries between braces. -/
def braced (entries : List (String × String)) : String :=
  "\x7b" ++ ", ".intercalate (entries.map fun e => e.1 ++ ": " ++ e.2) ++ "\x7d"

/-- A name applied to one text. -/
def applied (head argument : String) : String := head ++ "(" ++ argument ++ ")"

/-- The canonical text of a number, if it has one. -/
def numberText? : Number → Option String
  | .float .nan => some "NaN"
  | .float (.inf s) => some (if s then "-Infinity" else "Infinity")
  | n => n.literal?

/-- The text of a number, which fails if the number is too long to have one. -/
def written (text : Option String) : Run String :=
  match text with
  | some s => pure s
  | none => throw .badValue

/-- The text of a pattern shows at most two hundred characters of it. -/
def patternLiteral (s : String) : String :=
  applied "re.compile" (String.ofList ((Text.literalChars s).take 200))

/-- The text of a truth value. -/
def boolText (b : Bool) : String := if b then "True" else "False"

/-- What an instance of a declared class shows of itself. -/
inductive OwnText
  /-- The text of a holder of the given name. -/
  | holder (name : String)
  /-- The text marked by the class itself. -/
  | marked
  /-- The class leaves its text open. -/
  | missing

/-- What the class of an instance makes of its text. -/
def ownText (name : String) (ls : Ancestry) : OwnText :=
  match ls.find .text with
  | some (.body none _) => .marked
  | some (.body (some .just) _) => .holder "Just"
  | some (.body (some .left) _) => .holder "Left"
  | some (.body (some .right) _) => .holder "Right"
  | some (.body (some _) _) => .missing
  | _ => .holder name

/-- The text of an instance, given the text of what it holds. -/
def OwnText.render (o : OwnText) (held : Run String) : Run String :=
  match o with
  | .holder name => do return applied name (← held)
  | .marked => do return "<<" ++ (← held) ++ ">>"
  | .missing => throw .notImplemented

/-- A value that was answered where a text is wanted. -/
def asText (v : Value) : Run String :=
  match v with
  | .text _ s => pure s
  | _ => throw .notText

/-- What is shown of a value that was answered for a text. It is asked for by a call, since it need
not be a part of the value that was to be shown. -/
def shown (call : Apply) (v : Value) : Run String :=
  match v with
  | .text _ s => pure s
  | v => do asText (← call (.function (.partial_ (.inspection .text) [])) [v])

/-- What is answered for the text of a value, if a value that can be called was assigned to it or is
bound by its class. Classes and variants have no place for one. -/
def answeredText? (call : Apply) (v : Value) : Run (Option Value) := do
  match v with
  | .func _ _ | .error _ _ _ | .object _ _ _ =>
    match (← get).assigned? v.tag .text, v.layers.find .text with
    | some member, _ => if member.isCallable then return some (← call member []) else return none
    | none, some (.data member) =>
      if member.isCallable then return some (← v.callBound call member []) else return none
    | none, _ => return none
  | _ => return none

/-- The text of a value, or what is shown of the answer in its place. -/
def answeredOr (call : Apply) (v : Value) (text : Run String) : Run String := do
  match ← answeredText? call v with
  | some answer => shown call answer
  | none => text

/-- A text that stands between others: an answer in its place has to be one itself. -/
def joined (call : Apply) (v : Value) (text : Run String) : Run String := do
  match ← answeredText? call v with
  | some answer => asText answer
  | none => text

/-- A single item of a tuple is shown; other items are joined. -/
def isJoined (k : SeqKind) (xs : List Value) : Bool :=
  match k, xs with
  | .tuple, [_] => false
  | _, _ => true

mutual

/-- The canonical text of a value. -/
def toText (call : Apply) : Value → Run String
  | .null => pure "None"
  | .bool b => pure (boolText b)
  | .number _ n => written (numberText? n)
  | .complex _ re im => pure (Binary64.complexLiteral re im)
  | .text _ s => pure (Text.quoted s)
  | .bytes _ bs => pure (Text.bytesLiteral bs)
  | .seq k _ xs => do return bracketed k (← toTexts call (isJoined k xs) xs)
  | .dict _ es => do return braced (← toTextEntries call es)
  | .date _ d => pure d.literal
  | .moment _ m => pure m.literal
  | .pattern s => pure (patternLiteral s)
  | .plain _ => pure "<object object>"
  | .error t k m => answeredOr call (.error t k m) (pure (applied k.name (Text.literal m)))
  | .nothing => pure "Nothing"
  | .just _ v => do return applied "Just" (← toText call v)
  | .left _ v => do return applied "Left" (← toText call v)
  | .right _ v => do return applied "Right" (← toText call v)
  -- boxes of functors show what they hold as code would write it
  | .identity _ v => do return applied "Identity" ("value=" ++ (← literal call v))
  | .func t f => answeredOr call (.func t f) (pure ("<function " ++ f.name ++ ">"))
  | .type r => pure r.name
  | .object _ (.composed _ n _ _) v => do return applied n ("value=" ++ (← literal call v))
  | .object t (.declared u n ls) v =>
    answeredOr call (.object t (.declared u n ls) v) ((ownText n ls).render (toText call v))

/-- The canonical texts of several values, which are joined or not. -/
def toTexts (call : Apply) (join : Bool) : List Value → Run (List String)
  | [] => pure []
  | x :: xs => do
    let text ← if join then joined call x (toText call x) else toText call x
    return text :: (← toTexts call join xs)

/-- The canonical texts of keys and values. -/
def toTextEntries (call : Apply) : List (Value × Value) → Run (List (String × String))
  | [] => pure []
  | (k, v) :: es => do
    let key ← toText call k
    let value ← toText call v
    return (key, value) :: (← toTextEntries call es)

/-- The literal text of a value. -/
def literal (call : Apply) : Value → Run String
  | .null => pure "None"
  | .bool b => pure (boolText b)
  | .number _ n => written n.literal?
  | .complex _ re im => pure (Binary64.complexLiteral re im)
  | .text _ s => pure (Text.literal s)
  | .bytes _ bs => pure (Text.bytesLiteral bs)
  | .seq k _ xs => do return bracketed k (← literals call xs)
  | .dict _ es => do return braced (← literalEntries call es)
  | .date _ d => pure d.literal
  | .moment _ m => pure m.literal
  | .pattern s => pure (patternLiteral s)
  | .plain _ => pure "<object object>"
  | .error _ k m => pure (applied k.name (Text.literal m))
  | .nothing => pure "Nothing"
  | .just _ v => do return applied "Just" (← toText call v)
  | .left _ v => do return applied "Left" (← toText call v)
  | .right _ v => do return applied "Right" (← toText call v)
  | .identity _ v => do return applied "Identity" ("value=" ++ (← literal call v))
  | .func _ f => pure ("<function " ++ f.name ++ ">")
  | .type r => pure r.literal
  | .object _ (.composed _ n _ _) v => do return applied n ("value=" ++ (← literal call v))
  | .object _ (.declared _ n _) v => do return applied n (← toText call v)

/-- The literal texts of several values. -/
def literals (call : Apply) : List Value → Run (List String)
  | [] => pure []
  | x :: xs => do
    let text ← literal call x
    return text :: (← literals call xs)

/-- The literal texts of keys and values. -/
def literalEntries (call : Apply) : List (Value × Value) → Run (List (String × String))
  | [] => pure []
  | (k, v) :: es => do
    let key ← literal call k
    let value ← literal call v
    return (key, value) :: (← literalEntries call es)

end

/-- The identity of the canonical text of a value: some texts are constants. -/
def textTag : Value → Tag
  | .bool _ | .nothing | .type _ | .number _ (.float .nan) | .number _ (.float (.inf _)) => .shared
  | _ => .fresh

/-- The canonical text of a value as a value: what is answered for it, if something is. -/
def textValue (call : Apply) (v : Value) : Run Value := do
  match ← answeredText? call v with
  | some answer => return answer
  | none => return .text v.textTag (← v.toText call)

/-- What is shown of a value by itself: a string as it is, an error by its message, and numbers and
dates without the name of their class. -/
def display (call : Apply) (v : Value) : Run String :=
  match v with
  | .text _ s => pure s
  | .number _ n => written n.display?
  | .date _ d => pure d.display
  | .moment _ m => pure m.display
  | .error _ .keyError m => pure (Text.literal m)
  | .error _ _ m => pure m
  | .object t (.declared u n ls) w =>
    if Ancestry.isVariant ls then do
      asText (← invoke call (.object t (.declared u n ls) w) .text [] fun _ => do
        return .str (← (ownText n ls).render (w.toText call)))
    else v.literal call
  | v => v.literal call

/-- The name that a value goes by: that of a class or a function, or else what it shows. -/
def givenName (call : Apply) (v : Value) : Run String :=
  match v with
  | .type r => pure r.name
  | .func _ f => pure f.name
  | v => v.display call

end Value

end CheckedCalls
