/-!
# Tokens of the filter language

A token class is a scanner: it looks at the characters ahead and says, if they start with such a token, what it means
and how many characters it takes. Scanners are greedy and do not look behind.

* `isFieldChar`, `isBareChar` — the characters of field names and of unquoted texts.
* `Token.word`, `Token.spaces`, `Token.number`, `Token.boolean`, `Token.null`, `Token.text` — the six classes.
-/

namespace SearchFilter

/-- The six token classes. -/
inductive TokenClass where
  | space
  | word
  | number
  | boolean
  | null
  | text
  deriving DecidableEq, Repr

/-- The name of a token class in messages. -/
def TokenClass.name : TokenClass → String
  | space => "space"
  | word => "word"
  | number => "number"
  | boolean => "boolean"
  | null => "null"
  | text => "string"

/-- Characters of a field name: ASCII letters and digits, the point and the underscore. -/
def isFieldChar (c : Char) : Bool := c.isAlphanum || c == '.' || c == '_'

/-- Characters of a text value: all but space, parentheses and quotes. -/
def isBareChar (c : Char) : Bool :=
  c != ' ' && c != '(' && c != ')' && c != '\x22' && c != '\x27'

/-- A place in the text: the number of characters before it, and those behind it. -/
structure Cursor where
  index : Nat
  rest : List Char
  deriving DecidableEq, Repr

/-- The place `n` characters further on. -/
def Cursor.advance (c : Cursor) (n : Nat) : Cursor := ⟨c.index + n, c.rest.drop n⟩

/-- A token at the head of some text: its meaning and how many characters it takes. -/
structure Lexeme (α : Type) where
  value : α
  length : Nat
  deriving Repr

/-- A scanner for one token class. -/
abbrev Token (α : Type) := List Char → Option (Lexeme α)

namespace Token

/-- The longest run of characters of one kind, at least one. -/
def run (kind : Char → Bool) : Token (List Char) := fun cs =>
  match cs.takeWhile kind with
  | [] => none
  | c :: taken => some ⟨c :: taken, taken.length + 1⟩

theorem run_eq_some_iff {kind : Char → Bool} {cs : List Char} {t : Lexeme (List Char)} :
    run kind cs = some t ↔ cs.takeWhile kind = t.value ∧ t.value ≠ [] ∧ t.length = t.value.length := by
  obtain ⟨value, length⟩ := t
  unfold run
  split
  · next h => rw [h]; exact ⟨nofun, fun ⟨hv, hne, _⟩ => absurd hv.symm hne⟩
  · next c taken h =>
    rw [h, Option.some.injEq, Lexeme.mk.injEq]
    constructor
    · rintro ⟨rfl, rfl⟩
      exact ⟨rfl, nofun, rfl⟩
    · rintro ⟨rfl, _, h⟩
      exact ⟨rfl, h.symm⟩

/-- A fixed word with a meaning. -/
def fixed {α : Type} (word : String) (value : α) : Token α := fun cs =>
  if word.toList.isPrefixOf cs then some ⟨value, word.length⟩ else none

/-- A field name. -/
def word : Token String := fun cs => (run isFieldChar cs).map fun t => ⟨String.ofList t.value, t.length⟩

/-- A run of spaces. -/
def spaces : Token Unit := fun cs => (run (· == ' ') cs).map fun t => ⟨(), t.length⟩

/-- The largest number a filter can hold. -/
def maxNumber : Nat := 9223372036854775807

/-- A run of digits, when its value is at most `maxNumber`. -/
def number : Token Int64 := fun cs =>
  match run Char.isDigit cs with
  | none => none
  | some digits =>
    let value := Nat.ofDigitChars 10 digits.value 0
    if value ≤ maxNumber then some ⟨Int64.ofNat value, digits.length⟩ else none

/-- `true` or `false`; more characters may follow. -/
def boolean : Token Bool := fun cs => (fixed "true" true cs).or (fixed "false" false cs)

/-- `null`; more characters may follow. -/
def null : Token Unit := fixed "null" ()

/-- What follows an opening quote: bare characters and the same quote. -/
def closing (quote : Char) (cs : List Char) : Option (Lexeme String) :=
  let taken := cs.takeWhile isBareChar
  if (cs.drop taken.length).head? = some quote then some ⟨String.ofList taken, taken.length + 2⟩ else none

/-- A text value: bare characters between equal quotes, possibly none, or at least one bare character. -/
def text : Token String
  | '\x22' :: cs => closing '\x22' cs
  | '\x27' :: cs => closing '\x27' cs
  | cs => (run isBareChar cs).map fun t => ⟨String.ofList t.value, t.length⟩

end Token

end SearchFilter
