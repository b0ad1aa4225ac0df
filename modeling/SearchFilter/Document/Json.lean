import SearchFilter.Document.Basic

/-!
# Documents as JSON text

* `Document.compact` — on one line, without spaces.
* `Document.pretty` — one member or item a line, each level two spaces further in.

Quotes, backslashes and the characters below U+0020 are escaped in strings, and nothing else.
-/

namespace SearchFilter.Document

/-- A digit in lower-case hexadecimal. -/
def hexDigit (n : Nat) : Char := Nat.digitChar (n % 16)

/-- How one character is written in a string. -/
def jsonChar (c : Char) : List Char :=
  if c = '\x22' then ['\\', '\x22']
  else if c = '\\' then ['\\', '\\']
  else if c = '\x08' then ['\\', 'b']
  else if c = '\x0c' then ['\\', 'f']
  else if c = '\n' then ['\\', 'n']
  else if c = '\r' then ['\\', 'r']
  else if c = '\t' then ['\\', 't']
  else if c.toNat < 0x20 then ['\\', 'u', '0', '0', hexDigit (c.toNat / 16), hexDigit c.toNat]
  else [c]

/-- A string between double quotes. -/
def jsonString (s : String) : String :=
  "\"" ++ String.ofList (s.toList.flatMap jsonChar) ++ "\""

/-- A number: an integer in digits, any other with an exponent. -/
def jsonNumber (mantissa exponent : Int) : String :=
  if 0 ≤ exponent then toString (mantissa * Nat.pow 10 exponent.toNat)
  else toString mantissa ++ "e" ++ toString exponent

mutual

/-- The document on one line, behind the text `before`. -/
def compactAfter (before : String) : Document → String
  | null => before ++ "null"
  | boolean b => before ++ (if b then "true" else "false")
  | number mantissa exponent => before ++ jsonNumber mantissa exponent
  | string s => before ++ jsonString s
  | array items => compactItems (before ++ "[") "" items ++ "]"
  | object members => compactMembers (before ++ "\x7b") "" members ++ "\x7d"

/-- The items, the first one behind `separator` and every other one behind a comma. -/
def compactItems (before separator : String) : List Document → String
  | [] => before
  | d :: rest => compactItems (compactAfter (before ++ separator) d) "," rest

/-- The members, the first one behind `separator` and every other one behind a comma. -/
def compactMembers (before separator : String) : List (String × Document) → String
  | [] => before
  | (key, d) :: rest =>
    compactMembers (compactAfter (before ++ separator ++ jsonString key ++ ":") d) "," rest

end

/-- The document on one line. -/
def compact (d : Document) : String := compactAfter "" d

/-- A new line, `depth` levels in. -/
def newLine (depth : Nat) : String := "\n" ++ "".pushn ' ' (2 * depth)

mutual

/-- The document over several lines behind the text `before`, its inner lines `depth` levels in. -/
def prettyAfter (before : String) (depth : Nat) : Document → String
  | null => before ++ "null"
  | boolean b => before ++ (if b then "true" else "false")
  | number mantissa exponent => before ++ jsonNumber mantissa exponent
  | string s => before ++ jsonString s
  | array [] => before ++ "[]"
  | array (d :: rest) =>
    prettyItems (prettyAfter (before ++ "[" ++ newLine depth) (depth + 1) d) depth rest ++ newLine (depth - 1) ++ "]"
  | object [] => before ++ "\x7b\x7d"
  | object ((key, d) :: rest) =>
    prettyMembers (prettyAfter (before ++ "\x7b" ++ newLine depth ++ jsonString key ++ ": ") (depth + 1) d) depth rest
      ++ newLine (depth - 1) ++ "\x7d"

def prettyItems (before : String) (depth : Nat) : List Document → String
  | [] => before
  | d :: rest => prettyItems (prettyAfter (before ++ "," ++ newLine depth) (depth + 1) d) depth rest

def prettyMembers (before : String) (depth : Nat) : List (String × Document) → String
  | [] => before
  | (key, d) :: rest =>
    prettyMembers (prettyAfter (before ++ "," ++ newLine depth ++ jsonString key ++ ": ") (depth + 1) d) depth rest

end

/-- The document over several lines. -/
def pretty (d : Document) : String := prettyAfter "" 1 d

end SearchFilter.Document
