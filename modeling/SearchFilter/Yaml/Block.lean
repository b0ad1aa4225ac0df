import SearchFilter.Yaml.Place

/-!
# Block scalars in a YAML text

A scalar may stand line by line below a bar, which keeps line ends, or below an angle, which joins lines by a space.
Signs behind the bar or angle tell how far in the lines stand and what becomes of the line ends behind the last one.

* `splitLines` — the lines of a text.
* `Body.ofLines`, `Body.text` — the lines of a block scalar, and the text that they stand for.
* `Place.block?` — a block scalar.
-/

namespace SearchFilter.Yaml

/-! ## Lines -/

/-- The lines of a text without their line ends; behind the last one the text ends. -/
def splitLines : List Char → List (List Char)
  | [] => [[]]
  | c :: cs =>
    if c = '\n' then [] :: splitLines cs
    else
      match splitLines cs with
      | line :: more => (c :: line) :: more
      | [] => [[c]]

theorem splitLines_ne_nil : ∀ cs, splitLines cs ≠ []
  | [] => by simp [splitLines]
  | c :: cs => by
    unfold splitLines
    split
    · simp
    · split <;> simp

/-- The lines of a text with line ends between them are the text. -/
theorem intercalate_splitLines : ∀ cs, ['\n'].intercalate (splitLines cs) = cs
  | [] => rfl
  | c :: cs => by
    have ih := intercalate_splitLines cs
    unfold splitLines
    split
    next h =>
      obtain ⟨line, more, e⟩ := List.exists_cons_of_ne_nil (splitLines_ne_nil cs)
      rw [e] at ih ⊢
      simp [List.intercalate, List.intersperse, h] at ih ⊢
      exact ih
    next =>
      split
      next line more e =>
        rw [e] at ih
        cases more <;> simp_all [List.intercalate, List.intersperse]
      next e => exact absurd e (splitLines_ne_nil cs)

/-- How many spaces indent a line. -/
def indentation (line : List Char) : Nat := (line.takeWhile (· = ' ')).length

/-- Whether a line consists of spaces. -/
def isBlankLine (line : List Char) : Bool := line.all (· = ' ')

/-- The columns in front of the first line that is not blank, or of a blank line before it if that has more. -/
def leadColumn : List (List Char) → Nat
  | [] => 0
  | line :: more => if isBlankLine line then max line.length (leadColumn more) else indentation line

/-! ## Signs -/

/-- What becomes of the line ends behind the last line of a block scalar. -/
inductive Chomping where
  | strip
  /-- The first one stays. -/
  | clip
  | keep
  deriving DecidableEq, Repr

namespace Chomping

def ofSign? (c : Char) : Option Chomping := if c = '-' then some strip else if c = '+' then some keep else none

end Chomping

/-- How many columns further in than the block around it a block scalar stands, by its sign. -/
def increment? (c : Char) : Option Nat :=
  if '1' ≤ c ∧ c ≤ '9' then some (c.toNat - '0'.toNat) else none

/-- The signs of a block scalar: at most one of each kind, in either order. -/
def blockSigns? : List Char → Option (Chomping × Option Nat)
  | [] => some (.clip, none)
  | [c] => ((Chomping.ofSign? c).map (·, none)).or ((increment? c).map (.clip, some ·))
  | [c, d] =>
    match Chomping.ofSign? c, increment? d, increment? c, Chomping.ofSign? d with
    | some chomping, some n, _, _ | _, _, some n, some chomping => some (chomping, some n)
    | _, _, _, _ => none
  | _ => none

/-! ## Lines of a block scalar -/

/-- The lines of a block scalar. -/
structure Body where
  /-- Each line without its indentation, and the number of blank lines in front of it. -/
  lines : List (Nat × List Char)
  /-- The number of blank lines behind the last line. -/
  blanks : Nat
  /-- The lines that follow; none if the text ends on the last line of the scalar. -/
  rest : List (List Char)
  deriving DecidableEq, Repr

/-- Whether a line has text of a block scalar at `column`, and is not the end of the document. -/
def hasText (column : Nat) (line : List Char) : Bool :=
  column < line.length && column ≤ indentation line && !(column = 0 && Place.atMarker ⟨Mark.first, line⟩)

namespace Body

/-- A line before the others, behind `blanks` blank lines. -/
def cons (column blanks : Nat) (line : List Char) (b : Body) : Body :=
  { b with lines := (blanks, line.drop column) :: b.lines }

/-- The lines of a block scalar at `column`, in front of which `blanks` blank lines stand. -/
def ofLines (column blanks : Nat) : List (List Char) → Body
  | [] => ⟨[], blanks, []⟩
  | [line] => if hasText column line then cons column blanks line ⟨[], 0, []⟩ else ⟨[], blanks, [line]⟩
  | line :: more =>
    if hasText column line then cons column blanks line (ofLines column 0 more)
    else if isBlankLine line then ofLines column (blanks + 1) more
    else ⟨[], blanks, line :: more⟩

/-- Whether a line starts with a blank, so that it is not joined to its neighbours. -/
def isSpaced (line : List Char) : Bool := line.head?.any isBlank

/-- What stands between two lines with `blanks` blank lines between them. -/
def between (joins : Bool) (before : List Char) (blanks : Nat) (line : List Char) : List Char :=
  if joins && !isSpaced before && !isSpaced line then if blanks = 0 then [' '] else List.replicate blanks '\n'
  else List.replicate (blanks + 1) '\n'

/-- The text of lines behind the line `before`, if there is one. -/
def join (joins : Bool) : (before : Option (List Char)) → List (Nat × List Char) → List Char
  | _, [] => []
  | none, (blanks, line) :: more => List.replicate blanks '\n' ++ line ++ join joins (some line) more
  | some before, (blanks, line) :: more => between joins before blanks line ++ line ++ join joins (some line) more

/-- Whether the text ends behind the body, and how many spaces its last line has there. -/
def lastColumn? (b : Body) : Option Nat :=
  match b.rest with
  | [line] => if isBlankLine line then some line.length else none
  | _ => none

/-- How many line ends stay behind the last line; `hasLines` unless the text ends on the line of the signs. Where the
text ends, a line without a line end counts as one with it, and so does one that consists of the indentation. -/
def lineEnds (column : Nat) (chomping : Chomping) (hasLines : Bool) (b : Body) : Nat :=
  let indented := if 0 < column && b.lastColumn? = some column then 1 else 0
  match chomping, b.lines with
  | .strip, _ => 0
  | .clip, [] => if b.lastColumn?.isSome && hasLines then 1 else 0
  | .keep, [] => if b.lastColumn?.isSome && hasLines then max b.blanks 1 else b.blanks
  | .clip, _ => 1 + indented
  | .keep, _ => 1 + indented + b.blanks

/-- The text of a block scalar; `joins` if its lines are joined by spaces. -/
def text (column : Nat) (joins : Bool) (chomping : Chomping) (hasLines : Bool) (b : Body) : String :=
  String.ofList (join joins none b.lines ++ List.replicate (b.lineEnds column chomping hasLines) '\n')

end Body

namespace Place

/-- Behind `n` line ends. -/
def skipLines : Nat → Place → Place
  | 0, p => p
  | n + 1, p => skipLines n p.skipLine.next

/-- A block scalar in a block that is indented by `margin` columns; its own lines start at column `least` or behind it,
and all at the same one. -/
def block? (margin least : Nat) (p : Place) : Option (String × Place) := do
  let joins := p.nextIs (· = '>')
  let signs := p.next
  let word := signs.rest.takeWhile fun c => c.isDigit || c = '+' || c = '-'
  let (chomping, increment) ← blockSigns? word
  let stop ← (signs.advance word.length).trail?
  if !stop.atLineEnd then none
  let start := stop.next
  if start.nextIs (· = '\t') then none
  let lines := splitLines start.rest
  let column :=
    match increment with
    | some n => margin + n
    | none => max (leadColumn lines) least
  let body := Body.ofLines column 0 lines
  if body.lines.isEmpty && body.rest.head?.any fun line => !isBlankLine line && least ≤ indentation line then none
  return (body.text column joins chomping !stop.rest.isEmpty, start.skipLines (lines.length - body.rest.length))

end Place

end SearchFilter.Yaml
