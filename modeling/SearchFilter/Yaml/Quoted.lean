import SearchFilter.Text.Numeral
import SearchFilter.Yaml.Plain

/-!
# Quoted scalars in a YAML text

Between single quotes a quote is written twice; between double quotes a backslash starts an escape. A quoted scalar may
run over several lines, which start at column `margin` or behind it and are joined as in plain scalars.

* `escaped?`, `escapeWidth?` — the escapes.
* `Place.quoted?` — a scalar between single or double quotes.
-/

namespace SearchFilter.Yaml

/-- The character that an escape letter stands for. -/
def escaped? (c : Char) : Option Char :=
  [('0', '\x00'), ('a', '\x07'), ('b', '\x08'), ('t', '\t'), ('\t', '\t'), ('n', '\n'), ('v', '\x0b'), ('f', '\x0c'),
    ('r', '\r'), ('e', '\x1b'), (' ', ' '), ('\x22', '\x22'), ('/', '/'), ('\\', '\\'), ('N', '\u0085'),
    ('_', '\u00a0'), ('L', '\u2028'), ('P', '\u2029')].lookup c

/-- How many hexadecimal digits follow an escape letter. -/
def escapeWidth? (c : Char) : Option Nat := [('x', 2), ('u', 4), ('U', 8)].lookup c

/-- The character with a number, unless the number is no character's. -/
def charOf? (n : Nat) : Option Char := if n.isValidChar then some (Char.ofNat n) else none

/-- What comes next in a quoted scalar. -/
inductive Expecting where
  /-- Anything. -/
  | any
  /-- The rest of an escape, behind its backslash. -/
  | escape
  /-- `count` more digits of an escape whose digits so far have the value `value`. -/
  | digits (count value : Nat)
  /-- A second single quote, or else the scalar has ended. -/
  | quote
  deriving DecidableEq, Repr

/-- Read a quoted scalar on from the place reached: `read` holds its characters up to the last gap, newest first. -/
def quotedFrom (quote : Char) (margin : Nat) (read : List Char) (gap : Gap) (next : Expecting) (m : Mark) :
    List Char → Option (String × Place)
  | [] =>
    match next with
    | .quote => some (String.ofList read.reverse, ⟨m, []⟩)
    | _ => none
  | c :: rest =>
    match next with
    | .quote =>
      if c = quote then quotedFrom quote margin (c :: read) (.blanks []) .any (m.after c) rest
      else some (String.ofList read.reverse, ⟨m, c :: rest⟩)
    | .digits count value =>
      match Text.digits? 16 [c], count with
      | none, _ => none
      | some d, 0 | some d, 1 =>
        match charOf? (16 * value + d) with
        | some x => quotedFrom quote margin (x :: read) (.blanks []) .any (m.after c) rest
        | none => none
      | some d, count + 1 => quotedFrom quote margin read gap (.digits count (16 * value + d)) (m.after c) rest
    | .escape =>
      if c = '\n' then
        match rest with
        | '\x22' :: rest => some (String.ofList read.reverse, ⟨(m.after c).after '\x22', rest⟩)
        | _ => quotedFrom quote margin read (.joined 0) .any (m.after c) rest
      else
        match escaped? c, escapeWidth? c with
        | some x, _ => quotedFrom quote margin (x :: read) (.blanks []) .any (m.after c) rest
        | none, some width => quotedFrom quote margin read gap (.digits width 0) (m.after c) rest
        | none, none => none
    | .any =>
      if c = '\n' then quotedFrom quote margin read gap.addLine .any (m.after c) rest
      else if isBlank c then
        if gap.isLeading && m.indentsByTab margin c then none
        else quotedFrom quote margin read (gap.addBlank c) .any (m.after c) rest
      else if (gap.isLeading && m.column < margin) || Place.atMarker ⟨m, c :: rest⟩ then none
      else if c = quote then
        if quote = '\x27' then quotedFrom quote margin (gap.onto read) (.blanks []) .quote (m.after c) rest
        else some (String.ofList (gap.onto read).reverse, ⟨m.after c, rest⟩)
      else if c = '\\' && quote = '\x22' then
        quotedFrom quote margin (gap.onto read) (.blanks []) .escape (m.after c) rest
      else quotedFrom quote margin (c :: gap.onto read) (.blanks []) .any (m.after c) rest

/-- A scalar between quotes, the first of which comes next. -/
def Place.quoted? (margin : Nat) (p : Place) : Option (String × Place) :=
  match p.rest with
  | [] => none
  | quote :: rest => quotedFrom quote margin [] (.blanks []) .any (p.toMark.after quote) rest

end SearchFilter.Yaml
