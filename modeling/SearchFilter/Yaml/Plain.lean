import SearchFilter.Yaml.Place

/-!
# Plain scalars in a YAML text

A scalar without quotes may run over several lines: one line end between words is a space, and of several the first one
is dropped. In a block, every further line starts at column `least` or behind it.

* `Gap` — what stands between two words of a scalar, with its text `Gap.onto`.
* `Place.plain?` — a scalar without quotes.
-/

namespace SearchFilter.Yaml

/-- What stands between the last word of a scalar and the place reached. -/
inductive Gap where
  /-- Blanks on one line, newest first. -/
  | blanks (reversed : List Char)
  /-- A line end and `more` others. -/
  | folded (more : Nat)
  /-- A line end that was escaped and `more` others. -/
  | joined (more : Nat)
  deriving DecidableEq, Repr

namespace Gap

/-- The text of a gap, newest first, put before what was read. -/
def onto (read : List Char) : Gap → List Char
  | blanks reversed => reversed ++ read
  | folded 0 => ' ' :: read
  | folded more => List.replicate more '\n' ++ read
  | joined more => List.replicate more '\n' ++ read

/-- The gap with a line end more. -/
def addLine : Gap → Gap
  | blanks _ => folded 0
  | folded more => folded (more + 1)
  | joined more => joined (more + 1)

/-- The gap with a blank more; blanks that indent a line do not count. -/
def addBlank (c : Char) : Gap → Gap
  | blanks reversed => blanks (c :: reversed)
  | g => g

/-- Whether the gap has a line end. -/
def isLeading : Gap → Bool
  | blanks _ => false
  | _ => true

/-- Whether there is a gap at all. -/
def isOpen : Gap → Bool
  | blanks [] => false
  | _ => true

end Gap

/-- Whether `c` ends a word of a plain scalar in front of `next`. -/
def endsWord (inBrackets : Bool) (c : Char) (next : Option Char) : Bool :=
  (c = ':' && (isGap next || (inBrackets && next.any isBracket))) || (inBrackets && isBracket c)

/-- Whether a plain scalar ends in front of a word at `p`. -/
def Place.endsPlain (inBrackets : Bool) (least : Nat) (p : Place) : Bool :=
  (!inBrackets && p.column < least) || p.atMarker || p.nextIs (· = '#')

/-- Inside brackets, no word may be a hyphen in front of a bracket or comma. -/
def Place.isBareHyphen (inBrackets : Bool) (p : Place) : Bool :=
  inBrackets && p.nextIs (· = '-') && p.next.nextIs isBracket

/-- Read a plain scalar on from the place reached: `read` holds its characters up to the last word, newest first. A line
with nothing but a tab among its first columns and a comment does not end it. -/
def plainFrom (inBrackets : Bool) (least : Nat) (read : List Char) (gap : Gap) (ahead : Ahead) (m : Mark) :
    List Char → Option (String × Place)
  | [] => some (String.ofList read.reverse, ⟨m, []⟩)
  | c :: rest =>
    if c = '\n' then
      plainFrom inBrackets least read (if ahead = .comment then gap else gap.addLine) .anything (m.after c) rest
    else if ahead = .comment || (ahead = .nothing && c = '#') then
      plainFrom inBrackets least read gap .comment (m.after c) rest
    else if isBlank c then
      plainFrom inBrackets least read (gap.addBlank c) (if m.indentsByTab least c then .nothing else ahead) (m.after c)
        rest
    else if ahead = .nothing then none
    else if gap.isOpen && Place.endsPlain inBrackets least ⟨m, c :: rest⟩ then
      some (String.ofList read.reverse, ⟨m, c :: rest⟩)
    else if gap.isOpen && Place.isBareHyphen inBrackets ⟨m, c :: rest⟩ then none
    else if endsWord inBrackets c rest.head? then some (String.ofList read.reverse, ⟨m, c :: rest⟩)
    else plainFrom inBrackets least (c :: gap.onto read) (.blanks []) .anything (m.after c) rest

/-- A scalar without quotes, which starts here, and the place behind the white space that follows it. -/
def Place.plain? (inBrackets : Bool) (least : Nat) (p : Place) : Option (String × Place) :=
  if p.isBareHyphen inBrackets || (inBrackets && p.column < least) then none
  else plainFrom inBrackets least [] (.blanks []) .anything p.toMark p.rest

end SearchFilter.Yaml
