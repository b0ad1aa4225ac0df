import SearchFilter.Document.Json
import SearchFilter.Yaml.Style

/-!
# Documents as YAML text

Block style: nested objects two spaces further in, arrays below a key not further in, lines never folded.

* `Document.yaml` — the text of a document.
-/

namespace SearchFilter

namespace Document

/-- Go to a new line unless at the start of one, and `indent` spaces in. -/
def freshLine (before : String) (indent : Nat) : String :=
  let before := if before.isEmpty || Yaml.isBreak before.back then before else before ++ "\n"
  before.pushn ' ' indent

/-- A scalar or an empty collection, inner lines `indent` spaces in; none for other collections. -/
def inlineYaml? (indent : Nat) : Document → Option String
  | null => some "null"
  | boolean b => some (if b then "true" else "false")
  | number mantissa exponent => some (jsonNumber mantissa exponent)
  | string s => some (Yaml.write false indent s)
  | array [] => some "[]"
  | object [] => some "\x7b\x7d"
  | _ => none

/-- How far in the lines of a value under a key `indent` spaces in start: arrays as far, others two spaces further. -/
def valueIndent (indent : Nat) : Document → Nat
  | array _ => indent
  | _ => indent + 2

mutual

/-- The lines of a collection, `indent` spaces in, behind `before`, which ends where the first of them starts. -/
def blockAfter (before : String) (indent : Nat) : Document → String
  | array items => blockItems before indent true items
  | object members => blockMembers before indent true members
  | _ => before

/-- The items of an array. -/
def blockItems (before : String) (indent : Nat) (first : Bool) : List Document → String
  | [] => before
  | d :: rest =>
    let start := (if first then before else freshLine before indent) ++ "- "
    let item :=
      match inlineYaml? (indent + 2) d with
      | some text => start ++ text
      | none => blockAfter start (indent + 2) d
    blockItems item indent false rest

/-- The members of an object. A key that is too long or has several lines stands behind a question mark, and its value
on a line of its own behind a colon. -/
def blockMembers (before : String) (indent : Nat) (first : Bool) : List (String × Document) → String
  | [] => before
  | (key, d) :: rest =>
    let start := if first then before else freshLine before indent
    let member :=
      if Yaml.isShortKey key then
        let start := start ++ Yaml.write true (indent + 2) key ++ ":"
        match inlineYaml? (indent + 2) d with
        | some text => start ++ " " ++ text
        | none => blockAfter (freshLine start (valueIndent indent d)) (valueIndent indent d) d
      else
        let start := freshLine (start ++ "? " ++ Yaml.write false (indent + 2) key) indent ++ ": "
        match inlineYaml? (indent + 2) d with
        | some text => start ++ text
        | none => blockAfter start (indent + 2) d
    blockMembers member indent false rest

end

/-- The document in block style, with a line end behind it. -/
def yaml (d : Document) : String :=
  let text :=
    match inlineYaml? 2 d with
    | some text => text
    | none => blockAfter "" 0 d
  freshLine text 0

end Document

end SearchFilter
