import SearchFilter.Text.Unprintable

/-!
# Quoted text

Text between double quotes, for messages and outlines: quotes and backslashes are escaped, and every character that
does not show is written by a letter or by its number.

* `quote` — the quoted form of a text.
-/

namespace SearchFilter.Text

/-- The number of a character in lower-case hexadecimal, between braces. -/
def escapeByNumber (c : Char) : List Char :=
  "\\u\x7b".toList ++ Nat.toDigits 16 c.toNat ++ ['\x7d']

/-- How one character is written between quotes. -/
def quoteChar (c : Char) : List Char :=
  if c = '\x22' ∨ c = '\\' then ['\\', c]
  else if c = '\n' then ['\\', 'n']
  else if c = '\r' then ['\\', 'r']
  else if c = '\t' then ['\\', 't']
  else if c = '\x00' then ['\\', '0']
  else if isUnprintable c then escapeByNumber c
  else [c]

/-- The characters of a text between double quotes. -/
def quoteChars (cs : List Char) : List Char :=
  '\x22' :: cs.flatMap quoteChar ++ ['\x22']

/-- A text between double quotes. -/
def quote (s : String) : String := String.ofList (quoteChars s.toList)

end SearchFilter.Text
