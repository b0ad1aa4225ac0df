import SearchFilter.Document.Basic
import SearchFilter.Text.Numeral
import SearchFilter.Yaml.Property

/-!
# Nodes of a YAML document

A scalar that stands without quotes may mean null, a boolean or a number, by its text or by its tag; any other scalar is
a string.

* `Scalar.ofPlain`, `Scalar.ofText` — what a scalar means.
* `Node.toDocument?` — a node as a document, with the keys of mappings as text.
-/

namespace SearchFilter.Yaml

/-- The value of a scalar. -/
inductive Scalar where
  | null
  | boolean (value : Bool)
  /-- An integer of 64 bits. -/
  | integer (value : Int)
  /-- Any other number, as it is written. -/
  | real (text : String)
  | string (value : String)
  deriving DecidableEq, Repr

/-- A scalar, a sequence or a mapping whose keys are scalars. -/
inductive Node where
  | scalar (value : Scalar)
  | sequence (items : List Node)
  | mapping (members : List (Scalar × Node))
  deriving Repr

namespace Scalar

/-- An integer of 64 bits in `base`. -/
def integer? (base : Nat) (cs : List Char) : Option Scalar :=
  match Text.integer? base cs with
  | some n => if -9223372036854775808 ≤ n ∧ n ≤ 9223372036854775807 then some (.integer n) else none
  | none => none

/-- An integer in hexadecimal or octal, or in decimal behind a plus sign. -/
def ofMarkedInteger? : List Char → Option Scalar
  | '0' :: 'x' :: cs => integer? 16 cs
  | '0' :: 'o' :: cs => integer? 8 cs
  | '+' :: cs => integer? 10 cs
  | _ => none

/-- A number that is no integer, or too big for one. -/
def real? (s : String) : Option Scalar :=
  if Text.realWords.contains s || (Text.Numeral.ofChars? s.toList).isSome then some (real s) else none

/-- What a scalar without quotes means. -/
def ofPlain (s : String) : Scalar :=
  match ofMarkedInteger? s.toList with
  | some n => n
  | none =>
    if s = "" ∨ s = "~" ∨ s = "null" then null
    else if ["true", "True", "TRUE"].contains s then boolean true
    else if ["false", "False", "FALSE"].contains s then boolean false
    else ((integer? 10 s.toList).or (real? s)).getD (string s)

/-- What a plain scalar means whose tag tells its kind; null if it is not of that kind. -/
def ofKind (kind : String) (s : String) : Scalar :=
  if kind = "null" then null
  else if kind = "bool" then if s = "true" then boolean true else if s = "false" then boolean false else null
  else if kind = "int" then (integer? 10 s.toList).getD null
  else if kind = "float" then (real? s).getD null
  else string s

/-- What a scalar means, given its tag. -/
def ofText (tag : Option Tag) (isPlain : Bool) (s : String) : Scalar :=
  match isPlain, tag with
  | true, none => ofPlain s
  | true, some t => if t.handle = Tag.coreLead then ofKind t.suffix s else string s
  | false, _ => string s

/-- The text of a scalar as a key; null is no key. -/
def key? : Scalar → Option String
  | null => none
  | boolean b => some (if b then "true" else "false")
  | integer n => some (toString n)
  | real text => some text
  | string s => some s

/-- A scalar as a document. Infinity and what is no number have none. -/
def toDocument? : Scalar → Option Document
  | null => some .null
  | boolean b => some (.boolean b)
  | integer n => some (.number n 0)
  | real text =>
    (Text.Numeral.ofChars? text.toList).map fun n =>
      .number (if n.negative then -(n.mantissa : Int) else n.mantissa) n.exponent
  | string s => some (.string s)

end Scalar

namespace Node

/-- Put a member behind the others, in place of one with the same key. -/
def putMember (m : String × Document) (members : List (String × Document)) : List (String × Document) :=
  members.filter (·.1 ≠ m.1) ++ [m]

mutual

/-- The node as a document; of keys with the same text the last one counts. -/
def toDocument? : Node → Option Document
  | scalar s => s.toDocument?
  | sequence items => (documents? items).map .array
  | mapping members => (members? [] members).map .object

def documents? : List Node → Option (List Document)
  | [] => some []
  | node :: rest => do return (← node.toDocument?) :: (← documents? rest)

def members? (before : List (String × Document)) : List (Scalar × Node) → Option (List (String × Document))
  | [] => some before
  | (key, node) :: rest => do
    let d ← node.toDocument?
    members? (putMember (← key.key?, d) before) rest

end

end Node

end SearchFilter.Yaml
