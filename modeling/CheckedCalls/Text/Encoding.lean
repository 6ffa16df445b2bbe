/-!
# Encodings of text

How a text is written as bytes and read back. An encoding goes by several names, in which case and
the mark between words do not matter.
-/

namespace CheckedCalls.Text

/-- The ways to write a text as bytes. -/
inductive Encoding
  | utf8
  /-- One byte for each character below the given code. -/
  | narrow (limit : Nat)
  deriving DecidableEq, Repr, Inhabited

namespace Encoding

/-- The names that encodings go by. -/
def names : List (String × Encoding) :=
  [("utf-8", .utf8), ("utf8", .utf8), ("u8", .utf8), ("utf", .utf8), ("cp65001", .utf8),
    ("ascii", .narrow 128), ("us-ascii", .narrow 128), ("646", .narrow 128),
    ("latin-1", .narrow 256), ("latin1", .narrow 256), ("latin", .narrow 256),
    ("l1", .narrow 256), ("iso-8859-1", .narrow 256), ("iso8859-1", .narrow 256),
    ("8859", .narrow 256), ("cp819", .narrow 256)]

/-- The encoding of a name. -/
def ofName? (name : String) : Option Encoding :=
  names.lookup (String.ofList (name.toList.map fun c =>
    if c = '_' ∨ c = ' ' then '-' else c.toLower))

/-- The bytes of a text, if the encoding can write it. -/
def encode? (e : Encoding) (s : String) : Option (List UInt8) :=
  match e with
  | .utf8 => some s.toUTF8.data.toList
  | .narrow limit => s.toList.mapM fun c =>
    if c.toNat < limit then some (UInt8.ofNat c.toNat) else none

/-- The text that bytes stand for, if they stand for one. -/
def decode? (e : Encoding) (bs : List UInt8) : Option String :=
  match e with
  | .utf8 => String.fromUTF8? ⟨bs.toArray⟩
  | .narrow limit => (bs.mapM fun b =>
    if b.toNat < limit then some (Char.ofNat b.toNat) else none).map String.ofList

end Encoding

end CheckedCalls.Text
