import SearchFilter.Filter.Attempt

/-!
# Reading filters

The grammar, alternatives tried in order and the first that succeeds kept:

    start      = Space* statement Space*
    statement  = chain / negation
    chain      = expression (Space+ ("AND" / "OR") Space+ (expression / negation))*
    negation   = "NOT" Space+ statement
    expression = word ":" value / word Space* (">=" / ">" / "<=" / "<" / "=") Space* value / group
    group      = "(" Space* statement Space* ")"
    value      = number / boolean / null / text

A chain ends behind a negation, and in front of a connective that nothing readable follows; it nests to the right. Only
groups and negations nest statements, at most `nestingLimit` of them.

* `Filter.parse` — the filter that a text stands for, or the error.
-/

namespace SearchFilter

namespace Rule

/-! ## Tokens -/

/-- A token of a class. -/
def token {α : Type} (kind : TokenClass) (scan : Token α) : Rule α := fun c =>
  match scan c.rest with
  | some t => pure (t.value, c.advance t.length)
  | none => Attempt.miss c (.token kind)

/-- A fixed text. -/
def literal (text : String) (c : Cursor) : Attempt Cursor :=
  if text.toList.isPrefixOf c.rest then pure (c.advance text.length)
  else Attempt.miss c (.literal text)

/-- All spaces ahead, possibly none. Where they end, one more would have been read too. -/
def anySpaces (c : Cursor) : Attempt Cursor := fun log =>
  let stop := c.advance (c.rest.takeWhile (· == ' ')).length
  (some stop, log.miss stop.index (.token .space))

/-- All spaces ahead, at least one. -/
def someSpaces (c : Cursor) : Attempt Cursor := do
  let (_, c) ← token .space Token.spaces c
  anySpaces c

/-! ## Values and comparisons -/

def value : Rule Literal := fun c =>
  (do let (n, c) ← token .number Token.number c; return (.number n, c))
  <|> (do let (b, c) ← token .boolean Token.boolean c; return (.boolean b, c))
  <|> (do let (_, c) ← token .null Token.null c; return (.null, c))
  <|> (do let (s, c) ← token .text Token.text c; return (.text s, c))

/-- `word ":" value`, without spaces. -/
def hasComparison : Rule Filter := fun c => do
  let (field, c) ← token .word Token.word c
  let c ← literal Operator.has.symbol c
  let (v, c) ← value c
  return (.compare .has field (.literal v), c)

/-- `word op value`, with spaces around the operator or without. -/
def comparison (op : Operator) : Rule Filter := fun c => do
  let (field, c) ← token .word Token.word c
  let c ← anySpaces c
  let c ← literal op.symbol c
  let c ← anySpaces c
  let (v, c) ← value c
  return (.compare op field (.literal v), c)

/-! ## Statements

The rules below read their inner statements by a given rule, which `statement` supplies with one nesting level less. -/

/-- A statement in parentheses; the parentheses leave no trace in the tree. -/
def group (inner : Rule Filter) : Rule Filter := fun c => do
  let c ← literal "(" c
  let c ← anySpaces c
  let (f, c) ← inner c
  let c ← anySpaces c
  let c ← literal ")" c
  return (f, c)

/-- `NOT`, which takes all the rest of the statement. -/
def negation (inner : Rule Filter) : Rule Filter := fun c => do
  let c ← literal "NOT" c
  let c ← someSpaces c
  let (f, c) ← inner c
  return (.not f, c)

/-- A comparison or a group, read anew. -/
def alternatives (inner : Rule Filter) : Rule Filter := fun c =>
  hasComparison c
  <|> comparison .greaterEq c
  <|> comparison .greater c
  <|> comparison .lessEq c
  <|> comparison .less c
  <|> comparison .equals c
  <|> group inner c

/-- A comparison or a group, read once at each place and remembered. -/
def expression (inner : Rule Filter) : Rule Filter := fun c log =>
  match log.known[c.index]? with
  | some result => (result, log)
  | none =>
    match alternatives inner c log with
    | (result, log) => (result, log.learn c.index result)

/-- A connective between spaces. -/
def connective : Rule Connective := fun c => do
  let c ← someSpaces c
  let (link, c) ←
    (do let c ← literal Connective.and.keyword c; return (Connective.and, c))
    <|> (do let c ← literal Connective.or.keyword c; return (Connective.or, c))
  let c ← someSpaces c
  return (link, c)

/-- Join what was read so far, newest first and each with the connective behind it, to the last operand. -/
def joinAll (last : Filter) (earlier : List (Filter × Connective)) : Filter :=
  earlier.foldl (fun right (left, link) => .join link left right) last

/-- The rest of a chain whose operands so far are `earlier` and `last`. Each round reads at least one character, so
`fuel` need only be as large as the number of characters ahead. -/
def links (inner : Rule Filter) : Nat → Filter → List (Filter × Connective) → Rule Filter
  | 0, last, earlier, c => pure (joinAll last earlier, c)
  | fuel + 1, last, earlier, c => do
    let some (link, next) ← (connective c).optional | return (joinAll last earlier, c)
    match ← (expression inner next).optional with
    | some (operand, next) => links inner fuel operand ((last, link) :: earlier) next
    | none =>
      match ← (negation inner next).optional with
      | some (operand, next) => return (joinAll operand ((last, link) :: earlier), next)
      | none => return (joinAll last earlier, c)

/-- Expressions joined by connectives. -/
def chain (fuel : Nat) (inner : Rule Filter) : Rule Filter := fun c => do
  let (first, c) ← expression inner c
  links inner fuel first [] c

/-- A statement that may nest `levels` statements, itself included. -/
def statement (fuel : Nat) : Nat → Rule Filter
  | 0, c => fun log => (none, log.exceed c.index)
  | levels + 1, c => fun log =>
    if log.overflow.isSome then (none, log)
    else (chain fuel (statement fuel levels) c <|> negation (statement fuel levels) c) log

/-- A whole filter with the spaces around it. -/
def start (fuel : Nat) : Rule Filter := fun c => do
  let c ← anySpaces c
  let (f, c) ← statement fuel nestingLimit c <|> group (statement fuel nestingLimit) c
  let c ← anySpaces c
  return (f, c)

end Rule

/-- The error of a text whose reading left `log`. -/
def Log.error (log : Log) (input : List Char) : SyntaxError :=
  match log.overflow with
  | some index => .locate .nestedTooDeep input index
  | none => .locate (.unexpected (Expectation.ordered log.missing)) input log.reach

/-- Read a filter; nothing but spaces may surround it. -/
def Filter.parse (text : String) : Except SyntaxError Filter :=
  let input := text.toList
  match Rule.start input.length ⟨0, input⟩ {} with
  | (some (filter, stop), log) =>
    if stop.rest.isEmpty && log.overflow.isNone then .ok filter
    else .error ((log.miss stop.index .endOfInput).error input)
  | (none, log) => .error (log.error input)

end SearchFilter
