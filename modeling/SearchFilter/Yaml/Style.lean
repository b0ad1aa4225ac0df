import SearchFilter.Text.Numeral

/-!
# Strings in YAML text

A string is written plain where a reader takes it for the same string, otherwise between quotes, or line by line if it
has several lines.

* `style` — which of the four ways a string is written.
* `write` — the string written that way.
-/

namespace SearchFilter.Yaml

/-! ## Character classes -/

/-- Line breaks. -/
def isBreak (c : Char) : Bool :=
  c = '\n' || c = '\r' || c = '\u0085' || c = '\u2028' || c = '\u2029'

/-- Characters that are written as they are. -/
def isPrintable (c : Char) : Bool :=
  c = '\n' || (' ' ≤ c && c ≤ '\x7e') || ('\u00a0' ≤ c && c ≠ '\ufeff' && c ≠ '\ufffe' && c ≠ '\uffff')

/-- Blanks, breaks and the end of the string, behind which an indicator counts. -/
def isSeparator : Option Char → Bool
  | none => true
  | some c => c = ' ' || c = '\t' || c = '\x00' || isBreak c

/-- Characters that a plain string may not start with. -/
def isIndicator (c : Char) : Bool := "#,[]\x7b\x7d&*!|>'\"%@\x60".toList.contains c

/-! ## Strings that read as something else -/

/-- The words for null and the booleans. -/
def reservedWords : List String :=
  ["", "~", "null", "Null", "NULL", "true", "True", "TRUE", "false", "False", "FALSE"]

/-- Digits with a zero in front. -/
def hasLeadingZero (cs : List Char) : Bool :=
  match (Text.splitSign cs).2 with
  | '0' :: c :: rest => (c :: rest).all Char.isDigit
  | _ => false

/-- The base and the digits of an unsigned integer. -/
def splitBase : List Char → Nat × List Char
  | '0' :: 'x' :: cs => (16, cs)
  | '0' :: 'o' :: cs => (8, cs)
  | '0' :: 'b' :: cs => (2, cs)
  | cs => (10, cs)

/-- An integer of at most 128 bits, in base 2, 8, 10 or 16. -/
def isInteger (cs : List Char) : Bool :=
  let (negative, body) := Text.splitSign cs
  let (base, digits) := splitBase body
  match Text.digits? base digits with
  | some n => if negative then n ≤ Nat.pow 2 127 else n < Nat.pow 2 128
  | none => false

/-- A decimal numeral of a finite double. -/
def isReal (cs : List Char) : Bool :=
  match Text.Numeral.ofChars? cs with
  | some n => !n.overflows
  | none => false

/-- Strings that a reader would take for null, a boolean or a number. -/
def readsAsOther (s : String) : Bool :=
  reservedWords.contains s || Text.realWords.contains s || hasLeadingZero s.toList || isInteger s.toList
    || isReal s.toList

/-! ## Styles -/

/-- How a string is written. -/
inductive Style where
  | plain
  | singleQuoted
  | doubleQuoted
  | literal
  deriving DecidableEq, Repr

/-- Whether some neighbours `a`, `b` in a string satisfy `p`. -/
def hasPair (p : Char → Char → Bool) : List Char → Bool
  | a :: b :: rest => p a b || hasPair p (b :: rest)
  | _ => false

/-- An indicator at the head of the string. -/
def startsWithIndicator (cs : List Char) : Bool :=
  "---".toList.isPrefixOf cs || "...".toList.isPrefixOf cs ||
    match cs with
    | [] => false
    | c :: rest => isIndicator c || ((c = '?' || c = ':' || c = '-') && isSeparator rest.head?)

/-- A colon in front of a gap, or a number sign behind one, inside the string. -/
def hasInnerIndicator : List Char → Bool
  | a :: b :: rest =>
    (b = ':' && isSeparator rest.head?) || (b = '#' && isSeparator (some a)) || hasInnerIndicator (b :: rest)
  | _ => false

/-- Strings that only double quotes can hold. -/
def needsEscapes (cs : List Char) : Bool :=
  cs.any (!isPrintable ·) || hasPair (fun a b => a = ' ' && isBreak b) cs

/-- Strings that may stand without quotes. -/
def allowsPlain (cs : List Char) : Bool :=
  !needsEscapes cs && !cs.any isBreak && cs.head? ≠ some ' ' && cs.getLast? ≠ some ' '
    && !startsWithIndicator cs && !hasInnerIndicator cs

/-- Strings that single quotes can hold. -/
def allowsSingleQuotes (cs : List Char) : Bool :=
  !needsEscapes cs && !hasPair (fun a b => isBreak a && b = ' ') cs

/-- How a string is written; `asKey` if it stands in front of a colon on its line. -/
def style (asKey : Bool) (s : String) : Style :=
  let cs := s.toList
  if cs.contains '\n' then
    if needsEscapes cs || cs.getLast? = some ' ' || asKey then .doubleQuoted else .literal
  else if allowsPlain cs && !readsAsOther s then .plain
  else if allowsSingleQuotes cs then .singleQuoted
  else .doubleQuoted

/-! ## Writing strings -/

/-- Upper-case hexadecimal digits, at least `width`. -/
def upperHex (width n : Nat) : List Char :=
  let digits := (Nat.toDigits 16 n).map Char.toUpper
  List.replicate (width - digits.length) '0' ++ digits

/-- The characters with short escapes, and the letters of these. -/
def escapeLetters : List (Char × Char) :=
  [('\x00', '0'), ('\x07', 'a'), ('\x08', 'b'), ('\t', 't'), ('\n', 'n'), ('\x0b', 'v'), ('\x0c', 'f'), ('\r', 'r'),
    ('\x1b', 'e'), ('\x22', '\x22'), ('\\', '\\'), ('\u0085', 'N'), ('\u2028', 'L'), ('\u2029', 'P')]

/-- The letter of a short escape. -/
def escapeLetter? (c : Char) : Option Char := escapeLetters.lookup c

/-- How a character is written between double quotes. -/
def doubleQuotedChar (c : Char) : List Char :=
  match escapeLetter? c with
  | some letter => ['\\', letter]
  | none =>
    if isPrintable c then [c]
    else if c.toNat ≤ 0xFF then '\\' :: 'x' :: upperHex 2 c.toNat
    else if c.toNat ≤ 0xFFFF then '\\' :: 'u' :: upperHex 4 c.toNat
    else '\\' :: 'U' :: upperHex 8 c.toNat

/-- Text whose lines start `indent` spaces in, blank lines apart; `atStart` if a line starts here. -/
def indentLines (indent : Nat) (write : Char → List Char) : (atStart : Bool) → List Char → List Char
  | _, [] => []
  | atStart, c :: rest =>
    if isBreak c then c :: indentLines indent write true rest
    else (if atStart then List.replicate indent ' ' else []) ++ write c ++ indentLines indent write false rest

/-- A quote is written twice between single quotes. -/
def singleQuotedChar (c : Char) : List Char := if c = '\x27' then [c, c] else [c]

/-- A string between single quotes. -/
def singleQuoted (indent : Nat) (cs : List Char) : List Char :=
  let closing := if cs.getLast?.any isBreak then List.replicate indent ' ' else []
  '\x27' :: indentLines indent singleQuotedChar false cs ++ closing ++ ['\x27']

/-- The first line of a literal: whether the text is indented by itself, and what follows its last line. -/
def literalHeader (cs : List Char) : List Char :=
  let hint := if cs.head?.any fun c => c = ' ' || isBreak c then ['2'] else []
  let chomp :=
    match cs.reverse with
    | [] => ['-']
    | [c] => if isBreak c then ['+'] else ['-']
    | c :: d :: _ => if !isBreak c then ['-'] else if isBreak d then ['+'] else []
  '|' :: hint ++ chomp

/-- A string as its place asks for, inner lines `indent` spaces in. -/
def write (asKey : Bool) (indent : Nat) (s : String) : String :=
  let cs := s.toList
  match style asKey s with
  | .plain => s
  | .singleQuoted => String.ofList (singleQuoted indent cs)
  | .doubleQuoted => String.ofList ('\x22' :: cs.flatMap doubleQuotedChar ++ ['\x22'])
  | .literal => String.ofList (literalHeader cs ++ '\n' :: indentLines indent (fun c => [c]) true cs)

/-- Keys on the line of their values: of one line and at most 128 bytes. -/
def isShortKey (s : String) : Bool := !s.toList.any isBreak && s.utf8ByteSize ≤ 128

end SearchFilter.Yaml
