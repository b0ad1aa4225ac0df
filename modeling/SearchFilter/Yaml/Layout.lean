import SearchFilter.Yaml.Block
import SearchFilter.Yaml.Quoted
import SearchFilter.Yaml.Token

/-!
# Layout of a YAML text

To which blocks a line belongs follows from the columns at which they stand, and whether a scalar is a key from the
colon behind it. A layout is a place in the text together with the blocks and brackets that are open there, the tokens
read so far, and where a key may have started.

* `Layout.token?` — read what stands here.
* `Layout.step?` — go on to the next content, end the blocks to which it does not belong, and read it.
* `Token.ofText?` — the tokens of a text.
-/

namespace SearchFilter.Yaml

/-- The first column of something that is open: of the lines of a block, or of what stands behind a sign of one. -/
structure Level where
  column : Nat
  isBlock : Bool
  deriving DecidableEq, Repr

/-- Where a key may have started. -/
structure KeyStart where
  mark : Mark
  /-- How many tokens stand in front of it. -/
  number : Nat
  /-- Nothing but a key may start here. -/
  required : Bool
  deriving DecidableEq, Repr

/-- What is open at a place in a text. -/
structure Layout where
  place : Place
  tokens : Array Token := #[]
  /-- Where the lines of what is open start, innermost first. -/
  levels : List Level := []
  /-- Where a key may have started inside the innermost brackets. -/
  key : Option KeyStart := none
  /-- Where a key may have started in front of each open bracket, innermost first. -/
  outer : List (Option KeyStart) := []
  /-- A key may start here. -/
  allowsKey : Bool := true
  /-- A brace or a question mark stood inside brackets since the last member without braces ended; a colon makes no such
  member then. -/
  braced : Bool := false
  /-- A member without braces is open. -/
  member : Bool := false
  /-- The index behind a quoted scalar or a closing bracket, where a colon needs no gap. -/
  closed : Nat := 0
  deriving Repr

namespace Layout

def inBrackets (s : Layout) : Bool := !s.outer.isEmpty

/-- The columns that indent every line here. -/
def margin (s : Layout) : Nat := (s.levels.head?.map (·.column)).getD 0

/-- The first column for what stands deeper than the innermost level. -/
def least (s : Layout) : Nat := (s.levels.head?.map (·.column + 1)).getD 0

/-- The layout at another place. -/
def moveTo (p : Place) (s : Layout) : Layout := { s with place := p }

def push (t : Token) (s : Layout) : Layout := { s with tokens := s.tokens.push t }

/-- A token behind the first `number`. -/
def insert (number : Nat) (t : Token) (s : Layout) : Layout :=
  { s with tokens := s.tokens.insertIdxIfInBounds number t }

/-- Behind the blanks and the comment ahead. -/
def trail? (s : Layout) : Option Layout := s.place.trail?.map s.moveTo

/-- The next content. Outside brackets a key may start on every line. -/
def content? (s : Layout) : Option Layout :=
  (s.place.content? s.margin).map fun p =>
    { s with place := p, allowsKey := s.allowsKey || (!s.inBrackets && s.place.line < p.line) }

/-! ## Keys -/

/-- A key may start here, if one is allowed; at the column of a block it has to. -/
def startKey (s : Layout) : Layout :=
  if s.allowsKey then
    let required := !s.inBrackets && s.levels.head?.any fun l => l.isBlock && l.column = s.place.column
    { s with key := some ⟨s.place.toMark, s.tokens.size, required⟩ }
  else s

/-- No key started, unless there has to be one. -/
def dropKey? (s : Layout) : Option Layout :=
  if s.key.any (·.required) then none else some { s with key := none }

/-- Outside brackets a key stands on one line, and at most 1024 characters in front of its colon. -/
def expireKey? (s : Layout) : Option Layout :=
  if !s.inBrackets && s.key.any fun k => k.mark.line < s.place.line || k.mark.index + 1024 < s.place.index then
    s.dropKey?
  else some s

/-! ## Levels -/

/-- Start a block at `column`, unless one stands there; its first token `t` comes behind the first `number`. -/
def openBlock (column number : Nat) (t : Token) (s : Layout) : Layout :=
  if s.inBrackets then s
  else
    let levels :=
      match s.levels with
      | l :: more => if !l.isBlock && l.column ≤ column then more else l :: more
      | [] => []
    if levels.head?.all (·.column < column) then
      { s with levels := ⟨column, true⟩ :: levels }.insert number t
    else { s with levels := levels }

/-- What follows stands behind the column of the block. -/
def indent (s : Layout) : Layout :=
  if !s.inBrackets && s.levels.head?.any (·.isBlock) then { s with levels := ⟨s.least, false⟩ :: s.levels } else s

/-- End the levels up to the first one that satisfies `stays`. -/
def unindent (stays : Level → Bool) (s : Layout) : Layout :=
  if s.inBrackets then s
  else
    let ended := (s.levels.takeWhile (!stays ·)).filter (·.isBlock)
    { s with levels := s.levels.dropWhile (!stays ·), tokens := s.tokens ++ ended.map fun _ => Token.blockEnd }

/-- Only blocks count where a scalar without quotes starts. -/
def leaveSigns (s : Layout) : Layout := { s with levels := s.levels.dropWhile (!·.isBlock) }

/-! ## Brackets -/

/-- The greatest number of brackets within brackets. -/
def nestingLimit : Nat := 255

def openBracket? (t : Token) (s : Layout) : Option Layout := do
  let s := s.startKey.indent
  if s.outer.length = nestingLimit then none
  let s ← { s with
    place := s.place.next, key := none, outer := s.key :: s.outer, allowsKey := true
    braced := s.braced || t = Token.braceOpen }.trail?
  return s.push t

/-- End the member without braces, if one is open. -/
def endMember (s : Layout) : Layout :=
  if s.member then { s with member := false, braced := false }.push .braceClose else s

def closeBracket? (t : Token) (s : Layout) : Option Layout := do
  let s ← s.dropKey?
  let s ← { s with
    place := s.place.next, key := s.outer.head?.join, outer := s.outer.tail, allowsKey := false }.endMember.trail?
  return { s with closed := if s.inBrackets then s.place.index else s.closed }.push t

def comma? (s : Layout) : Option Layout := do
  let s ← { ← s.dropKey? with place := s.place.next, allowsKey := true }.endMember.trail?
  return s.push .comma

/-! ## Signs of blocks -/

/-- A hyphen. Behind a tab no other may follow. -/
def hyphen? (s : Layout) : Option Layout := do
  if s.inBrackets || !s.allowsKey then none
  let s := (s.moveTo s.place.next).openBlock s.place.column s.tokens.size .sequenceStart
  let tabbed := s.place.blanks.contains '\t'
  let s ← s.trail?
  if tabbed && s.place.atSign '-' then none
  let s := if s.place.nextIs fun c => c = '\n' || isBracket c then s.indent else s
  return { ← s.dropKey? with allowsKey := true }.push .hyphen

/-- Skip spaces, line ends and comments. -/
def skipSpace (comment : Bool) (m : Mark) : List Char → Place
  | [] => ⟨m, []⟩
  | c :: rest =>
    if c = '\n' then skipSpace false (m.after c) rest
    else if comment || c = '#' then skipSpace true (m.after c) rest
    else if c = ' ' then skipSpace false (m.after c) rest
    else ⟨m, c :: rest⟩

/-- A question mark in front of a key, behind which no tab may stand. -/
def question? (s : Layout) : Option Layout := do
  if !s.inBrackets && !s.allowsKey then none
  let start := s.place.next
  let stop := skipSpace false start.toMark start.rest
  if stop.index = start.index || stop.nextIs (· = '\t') then none
  let s ← (s.openBlock s.place.column s.tokens.size .mappingStart).dropKey?
  return { s with place := stop, allowsKey := !s.inBrackets, braced := s.braced || s.inBrackets }.push .key

/-- The colon ahead and the tabs behind it; a word needs a space there. -/
def skipColon? (s : Layout) : Option Layout := do
  let s := s.moveTo s.place.next
  if s.place.nextIs (· = '\t') then
    let spaced := s.place.blanks.contains ' '
    let s ← s.trail?
    if !spaced && s.place.nextIs Text.isWordChar then none
    return s
  else return s

/-- A colon. What may have been a key in front of it is one; inside brackets but no braces, it starts a member. -/
def colon? (s : Layout) : Option Layout := do
  let start := s.place
  let member := s.inBrackets && !s.braced
  let s ← { s with member := member }.skipColon?
  match s.key with
  | some k =>
    if member && k.mark.line < start.line then none
    let s := s.insert k.number .key
    let s := if member then s.insert k.number .braceOpen else s
    let s := (s.openBlock k.mark.column k.number .mappingStart).indent
    return { s with key := none, allowsKey := false }.push .colon
  | none =>
    if !s.inBrackets && !s.allowsKey then none
    let s := if member then s.push .braceOpen else s
    let s := (s.openBlock start.column s.tokens.size .mappingStart).indent
    return { s with allowsKey := !s.inBrackets }.push .colon

/-! ## Scalars and what stands in front of a node -/

/-- A token that may be a key, or stand in front of one. -/
def keyed? (read : Place → Option (Token × Place)) (s : Layout) : Option Layout := do
  let s := s.startKey
  let (t, p) ← read s.place
  return { s with place := p, allowsKey := false }.push t

/-- Whether a quoted scalar may end in front of `p`: at the end of a line or in front of a sign. -/
def endsQuoted (s : Layout) (p : Place) : Bool :=
  if s.inBrackets then p.atLineEnd || p.nextIs fun c => c = ',' || c = '\x7d' || c = ']' || c = ':'
  else p.atLineEnd || (p.nextIs (· = ':') && s.place.line = p.line)

def quoted? (s : Layout) : Option Layout := do
  let s := s.startKey
  let (text, p) ← s.place.quoted? s.margin
  let p ← p.trail?
  if !s.endsQuoted p then none
  let s ← { s with place := p, allowsKey := false }.content?
  return { s with closed := s.place.index }.push (.scalar false text)

/-- A plain scalar. A key may start on the line behind it. -/
def plain? (s : Layout) : Option Layout := do
  let s := s.startKey.leaveSigns
  let (text, p) ← s.place.plain? s.inBrackets s.least
  return { s with place := p, allowsKey := p.leading }.push (.scalar true text)

def block? (s : Layout) : Option Layout := do
  let s := s.startKey.leaveSigns
  let (text, p) ← s.place.block? s.margin s.least
  return { s with place := p, allowsKey := true }.push (.scalar false text)

/-! ## Documents -/

/-- A line between documents ends all blocks. -/
def betweenDocuments? (read : Place → Option (Token × Place)) (s : Layout) : Option Layout := do
  let s ← (s.unindent fun _ => false).dropKey?
  let (t, p) ← read s.place
  return { s with place := p, allowsKey := false }.push t

/-- Three points, behind which the line ends. -/
def documentEnd? (p : Place) : Option (Token × Place) := do
  let p ← (p.advance 3).trail?
  if p.atLineEnd then return (.documentEnd, p) else none

/-! ## Reading a text -/

/-- Read what stands here. -/
def token? (s : Layout) : Option Layout :=
  let p := s.place
  let next := p.next.rest.head?
  if p.column = 0 && p.nextIs (· = '%') then
    s.betweenDocuments? fun p => p.directive?.map fun (d, p) => (.directive d, p)
  else if p.atTriple '-' then s.betweenDocuments? fun p => some (.documentStart, p.advance 3)
  else if p.atTriple '.' then s.betweenDocuments? documentEnd?
  else if p.column < s.margin then none
  else
    match p.rest.head? with
    | none => some s
    | some '[' => s.openBracket? .bracketOpen
    | some '\x7b' => s.openBracket? .braceOpen
    | some ']' => s.closeBracket? .bracketClose
    | some '\x7d' => s.closeBracket? .braceClose
    | some ',' => s.comma?
    | some '*' => s.keyed? fun p => p.name?.map fun (name, p) => (.alias name, p)
    | some '&' => s.keyed? fun p => p.name?.map fun (name, p) => (.name name, p)
    | some '!' => s.keyed? fun p => (p.tag? s.inBrackets).map fun (tag, p) => (.tag tag, p)
    | some '\x27' | some '\x22' => s.quoted?
    | some '%' | some '@' | some '\x60' => none
    | some c =>
      if (c = '|' || c = '>') && !s.inBrackets then s.block?
      else if c = '-' && isGap next then s.hyphen?
      else if c = '?' && isGap next then s.question?
      else if c = ':' && (isGap next || (s.inBrackets && (next.any isBracket || p.index = s.closed))) then s.colon?
      else s.plain?

/-- Read the next token. -/
def step? (s : Layout) : Option Layout := do
  let s ← (← s.content?).expireKey?
  (s.unindent (·.column ≤ s.place.column)).token?

/-- The tokens at the end of the text, where no key may be missing. -/
def finish? (s : Layout) : Option (List Token) :=
  if (s.key :: s.outer).any (·.any (·.required)) then none
  else some (s.unindent fun _ => false).tokens.toList

/-- Read the rest of the text, in at most as many steps as given. -/
def run? : Nat → Layout → Option (List Token)
  | 0, _ => none
  | fuel + 1, s => if s.place.rest.isEmpty then s.finish? else s.step?.bind (run? fuel)

end Layout

/-- The tokens of a text, every one of which takes at least one character to read. -/
def Token.ofText? (text : String) : Option (List Token) :=
  let start := Place.ofText text
  Layout.run? (start.rest.length + 1) { place := start }

end SearchFilter.Yaml
