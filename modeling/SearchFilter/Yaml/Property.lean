import SearchFilter.Text.Numeral
import SearchFilter.Text.Word
import SearchFilter.Yaml.Place

/-!
# Names, tags and directives in a YAML text

A node may be given a name, by which it is used again, and a tag, which tells how its text is read. Directives stand in
front of a document; the last one may give a handle of tags its meaning.

* `Place.name?`, `Place.tag?`, `Place.directive?` — what stands behind `&` or `*`, `!` and `%`.
* `Tag.resolve?` — the tag that a handle and a suffix stand for.
-/

namespace SearchFilter.Yaml

/-- The tag of a node as it is written: a handle and a suffix. -/
structure Tag where
  handle : String
  suffix : String
  deriving DecidableEq, Repr

/-- A line in front of a document. -/
inductive Directive where
  | version
  /-- Tags with a handle stand for tags that start with `lead`. -/
  | handle (name lead : String)
  | unknown
  deriving DecidableEq, Repr

namespace Tag

/-- How the tags start that say what plain scalars mean. -/
def coreLead : String := "tag:yaml.org,2002:"

/-- Handles that have a meaning only if a directive gives it. -/
def needsDirective (handle : String) : Bool := 2 ≤ handle.length && handle.startsWith "!" && handle.endsWith "!"

/-- The tag behind the directive in force, if its handle has a meaning. -/
def resolve? (directive : Option Directive) (t : Tag) : Option Tag :=
  match directive with
  | some (.handle name lead) => if t.handle = name then some ⟨lead, t.suffix⟩ else undirected t
  | _ => undirected t
where
  /-- A tag whose handle no directive mentions. -/
  undirected (t : Tag) : Option Tag :=
    if t.handle = "!!" then some ⟨coreLead, t.suffix⟩ else if needsDirective t.handle then none else some t

end Tag

/-! ## Characters -/

/-- The characters of names. -/
def isNameChar (c : Char) : Bool := !isGap (some c) && !isBracket c && c ≠ '\ufeff'

/-- The characters of tags between angles. -/
def isUriChar (c : Char) : Bool := Text.isWordChar c || "#;/?:@&=+$,.!~*'()[]%".toList.contains c

/-- The characters of other tags. -/
def isTagChar (c : Char) : Bool := isUriChar c && !isBracket c && c ≠ '!'

/-- The text of a tag, in which a percent sign and two hexadecimal digits stand for an ASCII character. -/
def unescape? : List Char → Option (List Char)
  | [] => some []
  | '%' :: a :: b :: cs => do
    let n ← Text.digits? 16 [a, b]
    if 128 ≤ n then none
    return Char.ofNat n :: (← unescape? cs)
  | c :: cs => if c = '%' then none else (unescape? cs).map (c :: ·)

namespace Place

/-- The text of a tag ahead whose characters satisfy `f`. -/
def uri? (f : Char → Bool) (p : Place) : Option (String × Place) :=
  (unescape? (p.rest.takeWhile f)).map fun cs => (String.ofList cs, p.skipWhile f)

/-! ## Names and tags -/

/-- The name of a node behind the sign here. -/
def name? (p : Place) : Option (String × Place) :=
  let (name, stop) := p.next.word isNameChar
  if name = "" then none else some (name, stop)

/-- The handle of a tag: an exclamation mark, and a word between two of them if the second one follows. -/
def handle (p : Place) : String × Place :=
  let (word, stop) := p.next.word Text.isWordChar
  if stop.nextIs (· = '!') then ("!" ++ word ++ "!", stop.next) else ("!" ++ word, stop)

/-- A tag and the place behind it. -/
def bareTag? (p : Place) : Option (Tag × Place) := do
  if p.next.nextIs (· = '<') then
    let (suffix, stop) ← p.next.next.uri? isUriChar
    if stop.nextIs (· = '>') then return (⟨"", suffix⟩, stop.next) else none
  else
    let (handle, stop) := p.handle
    if Tag.needsDirective handle then
      let (suffix, stop) ← stop.uri? isTagChar
      if suffix = "" then none else return (⟨handle, suffix⟩, stop)
    else
      let (suffix, stop) ← p.next.uri? isTagChar
      return (if suffix = "" then ⟨"", "!"⟩ else ⟨"!", suffix⟩, stop)

/-- A tag in front of a gap, or of a bracket inside brackets. -/
def tag? (inBrackets : Bool) (p : Place) : Option (Tag × Place) := do
  let (tag, stop) ← p.bareTag?
  if isGap stop.rest.head? || (inBrackets && stop.nextIs isBracket) then return (tag, stop) else none

/-! ## Directives -/

/-- The number of a version, of at most nine digits. -/
def versionNumber? (p : Place) : Option Place :=
  let digits := (p.rest.takeWhile Char.isDigit).length
  if 0 < digits && digits ≤ 9 then some (p.skipWhile Char.isDigit) else none

/-- What a directive with a name says. -/
def directiveValue? (name : String) (p : Place) : Option (Directive × Place) :=
  if name = "YAML" then do
    let stop ← (p.skipWhile isBlank).versionNumber?
    if stop.nextIs (· = '.') then return (.version, ← stop.next.versionNumber?) else none
  else if name = "TAG" then do
    let start := p.skipWhile isBlank
    let (handle, stop) := start.handle
    if !start.nextIs (· = '!') || (handle ≠ "!" && !Tag.needsDirective handle) then none
    let start := stop.skipWhile isBlank
    if !start.nextIs fun c => c = '!' || isTagChar c then none
    let (lead, stop) ← start.uri? isUriChar
    if isGap stop.rest.head? then return (.handle handle lead, stop) else none
  else some (.unknown, p.skipLine)

/-- A directive, and the place behind its line. -/
def directive? (p : Place) : Option (Directive × Place) := do
  let (name, stop) := p.next.word Text.isWordChar
  if name = "" || !isGap stop.rest.head? then none
  let (directive, stop) ← directiveValue? name stop
  let stop ← stop.trail?
  if stop.atLineEnd then return (directive, stop.next) else none

end Place

end SearchFilter.Yaml
