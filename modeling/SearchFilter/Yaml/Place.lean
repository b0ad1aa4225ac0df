/-!
# Places in a YAML text

A place knows its line and column, because indentation decides where blocks end. Lines end with a line feed; `ofText`
turns the other line ends into it. A byte order mark at the head does not belong to the text, nor does anything from a
null character on.

* `Mark.after` — the position behind a character.
* `Place.trail?` — behind the blanks and the comment that end what was read.
* `Place.content?` — the next character that is not white space or comment.
-/

namespace SearchFilter.Yaml

/-! ## Character classes -/

/-- Space and tab. -/
def isBlank (c : Char) : Bool := c = ' ' || c = '\t'

/-- Whether what comes next separates words: a blank, a line end or the end of the text. -/
def isGap : Option Char → Bool
  | none => true
  | some c => isBlank c || c = '\n'

/-- The brackets and commas of collections in brackets. -/
def isBracket (c : Char) : Bool := c = ',' || c = '[' || c = ']' || c = '\x7b' || c = '\x7d'

/-! ## Positions -/

/-- A position in a text, counted from zero. -/
structure Mark where
  index : Nat
  line : Nat
  column : Nat
  /-- Only blanks stand before it on its line. -/
  leading : Bool
  deriving DecidableEq, Repr

namespace Mark

/-- The position in front of a text. -/
def first : Mark := ⟨0, 0, 0, true⟩

/-- The position behind the character at `m`. -/
def after (m : Mark) (c : Char) : Mark :=
  if c = '\n' then ⟨m.index + 1, m.line + 1, 0, true⟩
  else ⟨m.index + 1, m.line, m.column + 1, m.leading && isBlank c⟩

/-- Whether `c` is a tab among the first `margin` columns of a line, which indent it. -/
def indentsByTab (m : Mark) (margin : Nat) (c : Char) : Bool := c = '\t' && m.leading && m.column < margin

end Mark

/-- A position in a text and what follows it. -/
structure Place extends Mark where
  rest : List Char
  deriving DecidableEq, Repr

/-- Line feeds in place of other line ends. -/
def unifyLineEnds : List Char → List Char
  | '\r' :: '\n' :: cs => '\n' :: unifyLineEnds cs
  | '\r' :: cs => '\n' :: unifyLineEnds cs
  | c :: cs => c :: unifyLineEnds cs
  | [] => []

/-- What the rest of a line may hold. -/
inductive Ahead where
  | anything
  /-- Only blanks and a comment, because a tab indents the line. -/
  | nothing
  /-- The rest of a comment. -/
  | comment
  deriving DecidableEq, Repr

namespace Place

/-- The place in front of a text. -/
def ofText (text : String) : Place :=
  let cs :=
    match text.toList with
    | '\ufeff' :: cs => cs
    | cs => cs
  ⟨Mark.first, unifyLineEnds (cs.takeWhile (· ≠ '\x00'))⟩

/-! ## Moving on -/

/-- One character further. -/
def next : Place → Place
  | ⟨m, []⟩ => ⟨m, []⟩
  | ⟨m, c :: rest⟩ => ⟨m.after c, rest⟩

/-- `n` characters further. -/
def advance : Nat → Place → Place
  | 0, p => p
  | n + 1, p => advance n p.next

/-- The first place from `m` on whose next character does not satisfy `f`. -/
def behind (f : Char → Bool) (m : Mark) : List Char → Place
  | [] => ⟨m, []⟩
  | c :: rest => if f c then behind f (m.after c) rest else ⟨m, c :: rest⟩

theorem rest_behind (f : Char → Bool) : ∀ (m : Mark) (cs : List Char), (behind f m cs).rest = cs.dropWhile f
  | _, [] => rfl
  | m, c :: rest => by
    rw [behind, List.dropWhile_cons]
    split
    · exact rest_behind f (m.after c) rest
    · rfl

/-- Behind the characters ahead that satisfy `f`. -/
def skipWhile (f : Char → Bool) (p : Place) : Place := behind f p.toMark p.rest

theorem rest_skipWhile (f : Char → Bool) (p : Place) : (p.skipWhile f).rest = p.rest.dropWhile f :=
  rest_behind f p.toMark p.rest

/-- The characters ahead that satisfy `f`, as text, and the place behind them. -/
def word (f : Char → Bool) (p : Place) : String × Place := (String.ofList (p.rest.takeWhile f), p.skipWhile f)

/-- At the end of this line. -/
def skipLine (p : Place) : Place := p.skipWhile (· ≠ '\n')

/-! ## What comes next -/

/-- Whether the next character satisfies `f`. -/
def nextIs (f : Char → Bool) (p : Place) : Bool := p.rest.head?.any f

/-- Whether nothing is left on this line. -/
def atLineEnd (p : Place) : Bool := p.rest.isEmpty || p.nextIs (· = '\n')

/-- Whether `c` comes next and a gap behind it. -/
def atSign (c : Char) (p : Place) : Bool :=
  match p.rest with
  | x :: rest => x = c && isGap rest.head?
  | [] => false

/-- Three equal characters at the start of a line, and a gap behind them. -/
def atTriple (c : Char) (p : Place) : Bool :=
  p.column = 0 && [c, c, c].isPrefixOf p.rest && isGap (p.rest.drop 3).head?

/-- A line that starts or ends a document. -/
def atMarker (p : Place) : Bool := p.atTriple '-' || p.atTriple '.'

/-! ## White space and comments -/

/-- The blanks ahead. -/
def blanks (p : Place) : List Char := p.rest.takeWhile isBlank

/-- Behind the blanks ahead and a comment, which has a blank in front of it. -/
def trail? (p : Place) : Option Place :=
  let q := p.skipWhile isBlank
  if !q.nextIs (· = '#') then some q else if p.blanks.isEmpty then none else some q.skipLine

/-- Skip white space and comments. A line with content is not indented by a tab in its first `margin` columns. -/
def contentFrom (margin : Nat) (ahead : Ahead) (m : Mark) : List Char → Option Place
  | [] => some ⟨m, []⟩
  | c :: rest =>
    if c = '\n' then contentFrom margin .anything (m.after c) rest
    else if ahead = .comment || c = '#' then contentFrom margin .comment (m.after c) rest
    else if isBlank c then
      contentFrom margin (if m.indentsByTab margin c then .nothing else ahead) (m.after c) rest
    else if ahead = .nothing then none
    else some ⟨m, c :: rest⟩

/-- The next content, or the end of the text. -/
def content? (margin : Nat) (p : Place) : Option Place := contentFrom margin .anything p.toMark p.rest

end Place

end SearchFilter.Yaml
